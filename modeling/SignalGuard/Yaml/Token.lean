import SignalGuard.Yaml.Scalar
import SignalGuard.Yaml.Tag

/-!
# YAML tokens

Indentation has tokens of its own: a block collection starts with a token and
ends with `blockEnd`. In a mapping `key` and `value` stand in front of what they
announce.
-/

namespace SignalGuard.Yaml

inductive Token
  | version (major minor : Nat)
  | handle (h : TagHandle)
  | documentStart
  | documentEnd
  | blockSequence
  | blockMapping
  | blockEnd
  | flowSequence
  | flowSequenceEnd
  | flowMapping
  | flowMappingEnd
  | blockEntry
  | flowEntry
  | key
  | value
  | reference (name : String)
  | anchor (name : String)
  | tag (name : TagName)
  | scalar (style : Style) (text : String)
  deriving BEq, DecidableEq, Repr

namespace Token

/-- Indicators that may stand right behind a name. -/
def endsName (c : Char) : Bool := "?:,]\x7d%@\x60".toList.contains c

/-- Reads the name of an anchor or of an alias, after its mark. -/
def readName (c : Cursor) : Option (String × Cursor) :=
  let (name, c) := c.span isWord
  if name.isEmpty then none
  else if isGap (c.peek? 0) || (c.peek? 0).any endsName then some (String.ofList name, c)
  else none

/-- The longest number in a directive. -/
def numberLength : Nat := 9

def readNumber (c : Cursor) : Option (Nat × Cursor) :=
  let (digits, c) := c.span Char.isDigit
  if numberLength < digits.length then none else (Digits.number? 10 digits).map (·, c)

def readVersion (c : Cursor) : Option (Token × Cursor) := do
  let (major, c) ← readNumber c
  if c.peek? 0 ≠ some '.' then none
  let (minor, c) ← readNumber c.skip
  return (version major minor, c)

/-- Reads a directive from its percent sign on, with the rest of its line. -/
def readDirective (c : Cursor) : Option (Token × Cursor) := do
  let (name, c) := c.skip.span isWord
  if !isGap (c.peek? 0) then none
  let c := c.skipWhile isBlank
  let (token, c) ← match String.ofList name with
    | "YAML" => readVersion c
    | "TAG" => (TagHandle.read c).map fun (h, c) => (handle h, c)
    | _ => none
  return (token, ← c.endLine?)

end Token

end SignalGuard.Yaml
