import SignalGuard.Engine.Error
import SignalGuard.File
import SignalGuard.Json.Fault

/-!
# What can be wrong with a description

A description may not be readable as a file, as JSON or YAML, or as an engine.
`DescriptionError.cause?` is the error that lies beneath, where there is one.
-/

namespace SignalGuard

inductive DescriptionError
  | file (path : String) (e : FileError)
  | unsupportedFormat (path : String)
  | json (f : Json.Fault)
  | yaml
  | unsupportedSchema (found supported : UInt8)
  | duplicateSignal (id : SignalId)
  | duplicateSignalName (name : String)
  | engine (e : EngineError)
  deriving BEq, DecidableEq, Repr

namespace DescriptionError

def yamlMessage : String := "text does not describe an engine"

def message : DescriptionError → String
  | file path e => s!"failed to read {path}: {e.message}"
  | unsupportedFormat path =>
    s!"unsupported description format: {path} (expected .json, .yaml or .yml)"
  | json f => s!"invalid JSON description: {f.message}"
  | yaml => s!"invalid YAML description: {yamlMessage}"
  | unsupportedSchema found supported =>
    s!"unsupported schema version {found} (supported: {supported})"
  | duplicateSignal id => s!"signal {id.raw} is declared more than once"
  | duplicateSignalName name => s!"signal name '{name}' is used more than once"
  | engine e => s!"invalid engine configuration: {e.message}"

/-- Whether the content is at fault and not the access to the file. -/
def isValidation : DescriptionError → Bool
  | file .. => false
  | _ => true

/-- The message of the error beneath. -/
def cause? : DescriptionError → Option String
  | file _ e => some e.message
  | json f => some f.message
  | yaml => some yamlMessage
  | engine e => some e.message
  | _ => none

end DescriptionError

end SignalGuard
