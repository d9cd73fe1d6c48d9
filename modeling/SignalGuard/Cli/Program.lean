import SignalGuard.Cli.Arguments
import SignalGuard.Cli.Log
import SignalGuard.Cli.Output
import SignalGuard.Description.Format

/-!
# The program

The program validates descriptions and replays event scripts. It runs on a host,
which reads files, prints lines and keeps the time; what it does is the same on
every host.
-/

namespace SignalGuard.Cli

/-- What the program needs from its surroundings. -/
structure Host (m : Type → Type) where
  fetch : FileReader m
  /-- Prints a line of the result. -/
  print : String → m Unit
  /-- Prints a line about errors or progress. -/
  report : String → m Unit
  /-- Waits until one more period has passed since the replay began. -/
  await : Time → m Unit

/-- How results and logs are shown. -/
structure Display where
  json : Bool
  coloured : Bool
  /-- The verbosity, unless there are no logs at all. -/
  verbosity : Option Nat
  deriving BEq, DecidableEq, Repr

variable {m : Type → Type} [Monad m]

def Host.printAll (host : Host m) (lines : List String) : m Unit := lines.forM host.print

def Host.log (host : Host m) (display : Display) (e : LogEntry) : m Unit :=
  if display.verbosity.any (e.isShown ·) then host.report e.toText else pure ()

/-- Prints a result in the form that is wanted. -/
def Host.result (host : Host m) (display : Display) (lines : List String) (d : Datum) : m Unit :=
  if display.json then host.print (writeSorted d) else host.printAll lines

def loadDescription (host : Host m) (display : Display) (path : String) :
    ExceptT RunError m EngineDescription := do
  match ← ExceptT.lift (EngineDescription.load host.fetch path) with
  | .error e => throw (.description e)
  | .ok (format, d) =>
    host.log display (.loaded path format.name d.summary)
    return d

/-- Validates a description and prints how much it holds. -/
def validate (host : Host m) (display : Display) (path : String) : ExceptT RunError m Unit := do
  let d ← loadDescription host display path
  match d.validate with
  | .error e => throw (.description e)
  | .ok () =>
    host.log display (.validated d.summary)
    for w in d.warnings do host.log display (.ofWarning w)
    host.log display (.valid path)
    host.result display (summaryLines display.coloured d.name d.summary)
      (summaryDatum d.name d.summary)

def readScript (host : Host m) (path : String) (names : SignalNames) :
    ExceptT RunError m (List Event) := do
  match (← host.fetch path).bind decodeText with
  | .error e => throw (.scriptFile path e)
  | .ok text => ((Script.read names text).mapError .script : Except RunError (List Event))

/-- Builds the engine of a description and logs what is doubtful about it. -/
def buildEngine (host : Host m) (display : Display) (d : EngineDescription) :
    ExceptT RunError m Engine := do
  for w in d.warnings do host.log display (.ofWarning w)
  match d.build EngineDescription.silent with
  | .error e => throw (.description e)
  | .ok engine =>
    host.log display (.validated d.summary)
    host.log display (.built d.name)
    return engine

/-- Logs a step and, for people, prints what it emitted. -/
def showStep (host : Host m) (display : Display) (s : ReplayStep) : m Unit := do
  for entry in LogEntry.ofStep s do host.log display entry
  if !display.json then host.printAll (s.emissions.map (emissionLine display.coloured))

/-- Replays a script and prints what became of it. -/
def run (host : Host m) (display : Display) (r : RunRequest) : ExceptT RunError m Unit := do
  let d ← loadDescription host display r.description
  let events ← readScript host r.events d.signalNamed?
  let s ← ((Schedule.ofEvents events r.period r.cycles).mapError .schedule :
    Except RunError Schedule)
  host.log display (.replaying events.length s.steps s.period)
  let engine ← buildEngine host display d
  let await := if r.realtime then host.await s.period else pure ()
  let (engine, emitted) ← ExceptT.lift (engine.replayWith s await (showStep host display))
  host.result display (runLines display.coloured s.steps engine.totals)
    (runDatum s.steps emitted.toList engine.totals)

def execute (host : Host m) (display : Display) : Command → ExceptT RunError m Unit
  | .validate description => validate host display description
  | .run r => run host display r

/-- Carries out an invocation and gives the exit code. -/
def invoke (host : Host m) (coloured logged : Bool) (i : Invocation) : m UInt8 := do
  let display : Display := ⟨i.json, coloured, if logged then some i.verbosity else none⟩
  match ← (execute host display i.command).run with
  | .ok () => return 0
  | .error e =>
    if display.json then host.print (writeSorted (errorDatum e))
    else (errorLines coloured e).forM host.report
    return e.exitCode

def versionLine : String := "sfctl 0.1.0"

def usageLines : List String := [
  "Usage: sfctl [--json] [-v...] <command>",
  "",
  "Commands:",
  "  validate <description>   Check an engine description",
  "  run <description> -e <script> [--period-us <n>] [--cycles <n>] [--realtime]",
  "                           Replay an event script"]

/-- Carries out a command line and gives the exit code. -/
def perform (host : Host m) (coloured logged : Bool) (args : List String) : m UInt8 := do
  match Invocation.read args with
  | .ok i => invoke host coloured logged i
  | .error .version =>
    host.print versionLine
    return 0
  | .error .help =>
    host.printAll usageLines
    return 0
  | .error .invalid =>
    usageLines.forM host.report
    return usageExitCode

end SignalGuard.Cli
