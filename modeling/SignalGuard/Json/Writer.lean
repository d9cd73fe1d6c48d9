import SignalGuard.Data.Datum
import SignalGuard.Json.Text

/-!
# Writing JSON

Data are written over several lines with two spaces per level. Empty lists and
maps stay on one line.
-/

namespace SignalGuard.Json

def indent (depth : Nat) : String := "".pushn ' ' (2 * depth)

/-- Lines between brackets, one per element. -/
def enclose (opening closing : String) (depth : Nat) (lines : List String) : String :=
  if lines.isEmpty then opening ++ closing
  else
    opening ++ "\n" ++ ",\n".intercalate (lines.map (indent (depth + 1) ++ ·)) ++ "\n" ++
      indent depth ++ closing

def writeText (s : String) : String := String.ofList (Text.write s)

mutual

def writeAt (depth : Nat) : Datum → String
  | .null => "null"
  | .flag b => if b then "true" else "false"
  | .int i => toString i
  | .text s => writeText s
  | .list items => enclose "[" "]" depth (writeItems (depth + 1) items)
  | .record members => enclose "\x7b" "\x7d" depth (writeMembers (depth + 1) members)

def writeItems (depth : Nat) : List Datum → List String
  | [] => []
  | d :: ds => writeAt depth d :: writeItems depth ds

def writeMembers (depth : Nat) : List (String × Datum) → List String
  | [] => []
  | (name, d) :: rest => (writeText name ++ ": " ++ writeAt depth d) :: writeMembers depth rest

end

def write (d : Datum) : String := writeAt 0 d

end SignalGuard.Json
