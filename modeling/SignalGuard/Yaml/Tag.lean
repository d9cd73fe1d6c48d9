import SignalGuard.Text.Digits
import SignalGuard.Yaml.Cursor

/-!
# Tags

A tag names the type of a node. It is written in full between angle brackets or
as a handle with a suffix; the handle stands for a text that a directive may
set.
-/

namespace SignalGuard.Yaml

/-- A tag as it is written. The handle is empty when the suffix is the whole
tag. -/
structure TagName where
  handle : String
  suffix : String
  deriving BEq, DecidableEq, Repr

/-- What a handle stands for. -/
structure TagHandle where
  handle : String
  meaning : String
  deriving BEq, DecidableEq, Repr

namespace TagHandle

def standardMeaning : String := "tag:yaml.org,2002:"

/-- The handles that need no directive. -/
def defaults : List TagHandle := [⟨"!", "!"⟩, ⟨"!!", standardMeaning⟩]

end TagHandle

namespace TagName

/-- The tag in full, if its handle is known. -/
def resolve? (handles : List TagHandle) (t : TagName) : Option String :=
  if t.handle.isEmpty then some t.suffix
  else (handles.find? (·.handle == t.handle)).map (·.meaning ++ t.suffix)

/-- Reads a byte that is written as two digits. -/
def readByte (c : Cursor) : Option (Nat × Cursor) :=
  match c.rest with
  | '%' :: high :: low :: _ => (Digits.number? 16 [high, low]).map (·, c.skipMany 3)
  | _ => none

/-- Reads `n` bytes that continue a character. -/
def readContinuation : Nat → Nat → Cursor → Option (Nat × Cursor)
  | 0, value, c => some (value, c)
  | n + 1, value, c => do
    let (byte, c) ← readByte c
    if byte / 0x40 = 2 then readContinuation n (value * 0x40 + byte % 0x40) c else none

/-- The number of bytes that follow the first byte of a character, and the part
of the first byte that counts. -/
def lead? (byte : Nat) : Option (Nat × Nat) :=
  if byte < 0x80 then some (0, byte)
  else if 0xC0 ≤ byte && byte < 0xE0 then some (1, byte % 0x20)
  else if 0xE0 ≤ byte && byte < 0xF0 then some (2, byte % 0x10)
  else if 0xF0 ≤ byte && byte < 0xF8 then some (3, byte % 0x08)
  else none

/-- The character that `n` bytes encode; bytes that encode none count as the
replacement character. -/
def charOfBytes (n value : Nat) : Char :=
  if value.isValidChar && (Char.ofNat value).utf8Size = n then Char.ofNat value else '\ufffd'

/-- Reads a character that is written byte by byte. -/
def readEscaped (c : Cursor) : Option (Char × Cursor) := do
  let (byte, c) ← readByte c
  let (more, value) ← lead? byte
  let (value, c) ← readContinuation more value c
  return (charOfBytes (more + 1) value, c)

/-- Reads at most `fuel` characters of a suffix. -/
def readSuffix (verbatim : Bool) : Nat → Cursor → Option (List Char × Cursor)
  | 0, c => some ([], c)
  | fuel + 1, c =>
    match c.rest with
    | [] => some ([], c)
    | ch :: _ =>
      if isTagChar verbatim ch then do
        let (ch, c) ← if ch = '%' then readEscaped c else some (ch, c.skip)
        let (suffix, c) ← readSuffix verbatim fuel c
        return (ch :: suffix, c)
      else some ([], c)

/-- The text of a tag, which a NUL ends. -/
def toText (cs : List Char) : String := String.ofList (cs.takeWhile (· ≠ '\x00'))

/-- Reads a suffix that is not empty. -/
def readNonempty (verbatim : Bool) (c : Cursor) : Option (String × Cursor) := do
  let (suffix, c) ← readSuffix verbatim c.size c
  if suffix.isEmpty then none else some (toText suffix, c)

/-- Reads a handle: an exclamation mark, or a word between two of them. Without
the second mark the word is not part of a handle yet. -/
def readHandle (c : Cursor) : List Char × Bool × Cursor :=
  let (word, c) := c.skip.span isWord
  if c.peek? 0 = some '!' then (word, true, c.skip) else (word, false, c)

/-- Reads a tag between angle brackets. -/
def readVerbatim (c : Cursor) : Option (TagName × Cursor) := do
  let (suffix, c) ← readNonempty true (c.skipMany 2)
  if c.peek? 0 = some '>' then some (⟨"", suffix⟩, c.skip) else none

/-- Reads a tag that starts with a handle. A lone exclamation mark is a tag of
its own. -/
def readShorthand (c : Cursor) : Option (TagName × Cursor) := do
  match readHandle c with
  | (word, true, c) =>
    let (suffix, c) ← readNonempty false c
    return (⟨String.ofList ('!' :: word ++ ['!']), suffix⟩, c)
  | (word, false, c) =>
    let (rest, c) ← readSuffix false c.size c
    let suffix := toText (word ++ rest)
    return (if suffix.isEmpty then ⟨"", "!"⟩ else ⟨"!", suffix⟩, c)

/-- Reads a tag from its exclamation mark on. A gap must follow, or a comma
between brackets. -/
def read (flow : Bool) (c : Cursor) : Option (TagName × Cursor) := do
  let (tag, c) ← if c.peek? 1 = some '<' then readVerbatim c else readShorthand c
  if isGap (c.peek? 0) || flow && c.peek? 0 = some ',' then some (tag, c) else none

end TagName

/-- Reads the definition of a handle. -/
def TagHandle.read (c : Cursor) : Option (TagHandle × Cursor) := do
  if c.peek? 0 ≠ some '!' then none
  let (word, closed, c) := TagName.readHandle c
  if !closed && !word.isEmpty then none
  if !(c.peek? 0).any isBlank then none
  let (meaning, c) ← TagName.readNonempty true (c.skipWhile isBlank)
  if !isGap (c.peek? 0) then none
  let handle := String.ofList ('!' :: word ++ (if closed then ['!'] else []))
  return (⟨handle, meaning⟩, c)

end SignalGuard.Yaml
