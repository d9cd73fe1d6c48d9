import SignalGuard.Description.Error
import SignalGuard.Description.Records
import SignalGuard.Json.Reader
import SignalGuard.Json.Writer
import SignalGuard.Yaml.Reader
import SignalGuard.Yaml.Writer

/-!
# Description files

A description is written as JSON or as YAML; the extension of the file says
which. Loading reads and parses a file and does not validate it.
-/

namespace SignalGuard

namespace EngineDescription

def ofJson (s : String) : Except DescriptionError EngineDescription :=
  match Json.read shape s with
  | .ok d => .ok (ofDatum d)
  | .error f => .error (.json f)

def ofYaml (s : String) : Except DescriptionError EngineDescription :=
  match Yaml.read shape s with
  | some d => .ok (ofDatum d)
  | none => .error .yaml

def toJson (d : EngineDescription) : String := Json.write d.toDatum

def toYaml (d : EngineDescription) : String := Yaml.write d.toDatum

end EngineDescription

inductive Format
  | json
  | yaml
  deriving BEq, DecidableEq, Repr

namespace Format

def name : Format → String
  | json => "Json"
  | yaml => "Yaml"

/-- The format that the extension stands for, in letters of either case. -/
def ofPath? (path : String) : Option Format :=
  match (Path.extension? path).map fun e => String.ofList (e.toList.map Char.toLower) with
  | some "json" => some json
  | some "yaml" | some "yml" => some yaml
  | _ => none

def parse : Format → String → Except DescriptionError EngineDescription
  | json => EngineDescription.ofJson
  | yaml => EngineDescription.ofYaml

end Format

namespace EngineDescription

/-- Reads a description from a file. -/
def load {m : Type → Type} [Monad m] (read : FileReader m) (path : String) :
    m (Except DescriptionError (Format × EngineDescription)) := do
  match Format.ofPath? path with
  | none => return .error (.unsupportedFormat path)
  | some format =>
    match (← read path).bind decodeText with
    | .error e => return .error (.file path e)
    | .ok text => return (format.parse text).map (format, ·)

end EngineDescription

end SignalGuard
