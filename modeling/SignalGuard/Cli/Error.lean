import SignalGuard.Description.Error
import SignalGuard.Script
import SignalGuard.Script.Schedule

/-!
# Errors of the program

The exit code tells whether the content of a file or of the command line is at
fault, or the access to a file.
-/

namespace SignalGuard.Cli

inductive RunError
  | description (e : DescriptionError)
  | scriptFile (path : String) (e : FileError)
  | script (e : ScriptError)
  | schedule (e : ScheduleError)
  deriving BEq, DecidableEq, Repr

namespace RunError

def message : RunError → String
  | description e => e.message
  | scriptFile path e => s!"Failed to read event script {path}: {e.message}"
  | script e => e.message
  | schedule e => s!"Validation error: {e.message}"

/-- The message of the error beneath. -/
def cause? : RunError → Option String
  | description e => e.cause?
  | scriptFile _ e => some e.message
  | script ⟨_, .malformed f⟩ => some f.message
  | script ⟨_, .unknownSignal _⟩ => none
  | schedule _ => none

def isValidation : RunError → Bool
  | description e => e.isValidation
  | scriptFile .. => false
  | script _ | schedule _ => true

def exitCode (e : RunError) : UInt8 := if e.isValidation then 4 else 1

end RunError

/-- The exit code for a command line that cannot be carried out. -/
def usageExitCode : UInt8 := 2

end SignalGuard.Cli
