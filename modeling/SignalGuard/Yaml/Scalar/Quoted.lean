import SignalGuard.Text.Digits
import SignalGuard.Yaml.Fold

/-!
# Quoted scalars

Between single quotes only the quote itself is escaped, by writing it twice.
Between double quotes a backslash starts an escape, or removes the line break
that follows it. Line breaks fold in both.
-/

namespace SignalGuard.Yaml.Quoted

/-- The character of an escape with one letter. -/
def simpleEscape? : Char → Option Char
  | '0' => some '\x00'
  | 'a' => some '\x07'
  | 'b' => some '\x08'
  | 't' | '\t' => some '\t'
  | 'n' => some '\n'
  | 'v' => some '\x0b'
  | 'f' => some '\x0c'
  | 'r' => some '\r'
  | 'e' => some '\x1b'
  | ' ' => some ' '
  | '"' => some '"'
  | '/' => some '/'
  | '\\' => some '\\'
  | 'N' => some nextLine
  | '_' => some '\u00a0'
  | 'L' => some lineSeparator
  | 'P' => some paragraphSeparator
  | _ => none

/-- The number of digits of a hexadecimal escape. -/
def hexLength? : Char → Option Nat
  | 'x' => some 2
  | 'u' => some 4
  | 'U' => some 8
  | _ => none

/-- The character with the code point. -/
def charAt? (n : Nat) : Option Char := if n.isValidChar then some (Char.ofNat n) else none

/-- Reads what follows a backslash. -/
def readEscape (c : Cursor) : Option (Char × Cursor) := do
  let kind ← c.peek? 0
  let c := c.skip
  match hexLength? kind with
  | none => return (← simpleEscape? kind, c)
  | some length =>
    let digits := c.rest.take length
    if digits.length < length then failure
    return (← charAt? (← Digits.number? 16 digits), c.skipMany length)

/-- The next part of a quoted scalar. -/
inductive Part
  | char (c : Char)
  /-- An escaped line break. -/
  | joint
  /-- A gap, the closing quote or the end of the text. -/
  | stop

def readPart (quote : Char) (c : Cursor) : Option (Part × Cursor) :=
  match c.rest with
  | [] => some (.stop, c)
  | ch :: rest =>
    if isBlank ch || isBreak ch then some (.stop, c)
    else if ch = quote then
      if quote = '\'' && rest.head? = some '\'' then some (.char ch, c.skipMany 2)
      else some (.stop, c)
    else if quote = '"' && ch = '\\' then
      if rest.head?.any isBreak then some (.joint, c.skip.skipLine)
      else (readEscape c.skip).map fun (ch, c) => (.char ch, c)
    else some (.char ch, c.skip)

/-- Reads at most `fuel` characters of a line. Also tells whether an escaped
line break ended them. -/
def readRun (quote : Char) : Nat → Cursor → Option (List Char × Bool × Cursor)
  | 0, c => some ([], false, c)
  | fuel + 1, c => do
    match ← readPart quote c with
    | (.char ch, c) =>
      let (text, joined, c) ← readRun quote fuel c
      return (ch :: text, joined, c)
    | (.joint, c) => return ([], true, c)
    | (.stop, c) => return ([], false, c)

/-- Reads at most `fuel` runs with the gaps between them and the closing
quote. -/
def readRuns (quote : Char) : Nat → Cursor → Option (List Char × Cursor)
  | 0, _ => none
  | fuel + 1, c => do
    if c.atDocumentMarker || c.rest.isEmpty then failure
    let (text, joined, c) ← readRun quote c.size c
    if c.peek? 0 = some quote then return (text, c.skip)
    let (gap, c) ← Gap.read 0 c.size (if joined then .escapedBreak else .empty) c
    let (tail, c) ← readRuns quote fuel c
    return (text ++ gap.toList ++ tail, c)

/-- Reads a scalar from its opening quote on. -/
def read (quote : Char) (c : Cursor) : Option (String × Cursor) :=
  (readRuns quote c.size c.skip).map fun (text, c) => (String.ofList text, c)

end SignalGuard.Yaml.Quoted
