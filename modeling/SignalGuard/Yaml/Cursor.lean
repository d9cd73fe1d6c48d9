import SignalGuard.Yaml.Char

/-!
# Positions in a text

A cursor is the rest of a text together with the place where it starts. The
place counts characters, lines and columns; a carriage return with its line
feed is one line break. The size of the whole text goes along, as a bound for
everything that is read from the cursor.
-/

namespace SignalGuard.Yaml

structure Cursor where
  /-- Characters of the whole text. -/
  size : Nat
  rest : List Char
  index : Nat
  line : Nat
  column : Nat
  deriving BEq, DecidableEq, Repr

namespace Cursor

def start (s : String) : Cursor := ⟨s.toList.length, s.toList, 0, 0, 0⟩

/-- The character `n` places ahead. -/
def peek? (c : Cursor) (n : Nat) : Option Char := c.rest[n]?

/-- Passes over one character within a line. -/
def skip (c : Cursor) : Cursor :=
  match c.rest with
  | [] => c
  | _ :: rest => { c with rest, index := c.index + 1, column := c.column + 1 }

def skipMany : Nat → Cursor → Cursor
  | 0, c => c
  | n + 1, c => skipMany n c.skip

/-- Passes over a line break. -/
def skipLine (c : Cursor) : Cursor :=
  match c.rest with
  | '\r' :: '\n' :: rest => ⟨c.size, rest, c.index + 2, c.line + 1, 0⟩
  | _ :: rest => ⟨c.size, rest, c.index + 1, c.line + 1, 0⟩
  | [] => c

/-- Passes over the characters of a class, within a line; also gives them. -/
def span (p : Char → Bool) (c : Cursor) : List Char × Cursor :=
  let taken := c.rest.takeWhile p
  (taken, { c with
    rest := c.rest.dropWhile p
    index := c.index + taken.length, column := c.column + taken.length })

def skipWhile (p : Char → Bool) (c : Cursor) : Cursor := (c.span p).2

/-- The line break at the cursor as it counts in a scalar: separators as they
are, anything else as a line feed. -/
def breakChar (c : Cursor) : Char :=
  match c.rest with
  | b :: _ => if b = lineSeparator || b = paragraphSeparator then b else '\n'
  | [] => '\n'

/-- Passes over blanks and a comment. -/
def skipComment (c : Cursor) : Cursor :=
  let c := c.skipWhile isBlank
  if c.peek? 0 = some '#' then c.skipWhile (fun ch => !isBreak ch) else c

/-- Ends a line that holds nothing more than a comment. -/
def endLine? (c : Cursor) : Option Cursor :=
  let c := c.skipComment
  match c.rest with
  | [] => some c
  | ch :: _ => if isBreak ch then some c.skipLine else none

/-- Whether a document marker made of the character stands here. -/
def atMarker (mark : Char) (c : Cursor) : Bool :=
  c.column = 0 && c.peek? 0 = some mark && c.peek? 1 = some mark && c.peek? 2 = some mark &&
    isGap (c.peek? 3)

/-- Whether a document starts or ends here. -/
def atDocumentMarker (c : Cursor) : Bool := c.atMarker '-' || c.atMarker '.'

end Cursor

end SignalGuard.Yaml
