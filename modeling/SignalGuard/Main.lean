import SignalGuard.Cli.Program

/-!
# The program on this system
-/

namespace SignalGuard.Cli

def fileErrorOfSystem (e : IO.Error) : FileError :=
  match e with
  | .noFileOrDirectory .. => .missing
  | .inappropriateType _ 20 _ => .notDirectory
  | .inappropriateType _ 21 _ => .isDirectory
  | e => .other (toString e)

def readSystemFile (path : String) : IO (Except FileError ByteArray) := do
  try
    return .ok (← IO.FS.readBinFile path)
  catch e =>
    return .error (fileErrorOfSystem e)

/-- Moves the deadline on by a period and sleeps until it is reached. -/
def awaitDeadline (deadline : IO.Ref Nat) (period : Time) : IO Unit := do
  let due := (← deadline.get) + period.toNat * 1000
  deadline.set due
  let now ← IO.monoNanosNow
  IO.sleep (UInt32.ofNatClamp ((due - now) / 1000000))

/-- Whether results are coloured: a wish in the environment counts, and a
terminal otherwise. -/
def wantsColour : IO Bool := do
  if (← IO.getEnv "CLICOLOR_FORCE").any (· != "0") then return true
  if (← IO.getEnv "NO_COLOR").isSome then return false
  if (← IO.getEnv "CLICOLOR") == some "0" then return false
  (← IO.getStdout).isTty

def systemHost : IO (Host IO) := do
  let deadline ← IO.mkRef (← IO.monoNanosNow)
  return {
    fetch := readSystemFile
    print := fun line => IO.println line
    report := fun line => IO.eprintln line
    await := awaitDeadline deadline }

end SignalGuard.Cli

def main (args : List String) : IO UInt32 := do
  let host ← SignalGuard.Cli.systemHost
  let coloured ← SignalGuard.Cli.wantsColour
  return (← SignalGuard.Cli.perform host coloured true args).toUInt32
