import SignalGuard.Yaml.Fold

/-!
# Block scalars

A block scalar is a run of indented lines. Its header says whether the lines
fold, how far they are indented and what becomes of the line breaks at the end;
without a number the first line with text sets the indentation.
-/

namespace SignalGuard.Yaml.Block

/-- What becomes of the line breaks at the end: none is kept, the first or all. -/
inductive Chomp
  | strip
  | clip
  | keep
  deriving BEq, DecidableEq, Repr

def Chomp.ofChar? : Char → Option Chomp
  | '-' => some strip
  | '+' => some keep
  | _ => none

def readChomp (c : Cursor) : Chomp × Cursor :=
  match (c.peek? 0).bind Chomp.ofChar? with
  | some chomp => (chomp, c.skip)
  | none => (.clip, c)

/-- Reads the number of columns that the lines are indented by, zero if there
is none. A zero is not a number of columns. -/
def readIndentation (c : Cursor) : Option (Nat × Cursor) :=
  match c.peek? 0 with
  | some ch =>
    if ch = '0' then none
    else if ch.isDigit then some (ch.toNat - '0'.toNat, c.skip)
    else some (0, c)
  | none => some (0, c)

/-- Reads a header after its first character. The two marks come in either
order. -/
def readHeader (c : Cursor) : Option (Chomp × Nat × Cursor) := do
  let (before, c) := readChomp c
  let (indentation, c) ← readIndentation c
  let (chomp, c) := if before = .clip then readChomp c else (before, c)
  return (chomp, indentation, ← c.endLine?)

/-- Passes over spaces, up to the column if one is given. -/
def skipIndentation (column : Option Nat) (c : Cursor) : Cursor :=
  let spaces := (c.rest.takeWhile (· = ' ')).length
  c.skipMany (match column with
    | some n => min spaces (n - c.column)
    | none => spaces)

/-- Reads at most `fuel` empty lines. Gives their breaks and the last column
that spaces reach to. A tab in place of indentation is refused. -/
def readEmptyLines (column : Option Nat) (reach : Nat) :
    Nat → Cursor → Option (List Char × Nat × Cursor)
  | fuel, c =>
    let c := skipIndentation column c
    let reach := max reach c.column
    match c.rest with
    | [] => some ([], reach, c)
    | ch :: _ =>
      if ch = '\t' && column.all (c.column < ·) then none
      else if isBreak ch then
        match fuel with
        | 0 => some ([], reach, c)
        | fuel + 1 => (readEmptyLines column reach fuel c.skipLine).map fun (breaks, rest) =>
          (c.breakChar :: breaks, rest)
      else some ([], reach, c)

/-- What stands between two lines of text. -/
structure Joint where
  /-- The break that ended the line; none before the first line and at the end of
  the text. -/
  first : Option Char
  /-- The breaks of the empty lines. -/
  others : List Char
  /-- Whether the line before starts with a blank. -/
  blank : Bool
  deriving BEq, DecidableEq, Repr

/-- What the joint counts as before a line. Lines that start with a blank do
not fold. -/
def Joint.toList (folded blank : Bool) (j : Joint) : List Char :=
  if folded && j.first = some '\n' && !j.blank && !blank then
    if j.others.isEmpty then [' '] else j.others
  else j.first.toList ++ j.others

/-- What the joint counts as after the last line. -/
def Joint.finish : Chomp → Joint → List Char
  | .strip, _ => []
  | .clip, j => j.first.toList
  | .keep, j => j.first.toList ++ j.others

/-- Reads at most `fuel` lines that start at the column, after the joint, and
what ends them. -/
def readLines (folded : Bool) (chomp : Chomp) (column : Nat) :
    Nat → Joint → Cursor → Option (List Char × Cursor)
  | 0, j, c => some (j.finish chomp, c)
  | fuel + 1, j, c =>
    if c.column = column && !c.rest.isEmpty then do
      let blank := (c.peek? 0).any isBlank
      let (line, c) := c.span fun ch => !isBreak ch
      let first := if c.rest.isEmpty then none else some c.breakChar
      let (others, _, c) ← readEmptyLines (some column) 0 c.size c.skipLine
      let (tail, c) ← readLines folded chomp column fuel ⟨first, others, blank⟩ c
      return (j.toList folded blank ++ line ++ tail, c)
    else some (j.finish chomp, c)

/-- Reads a block scalar from its first character on. Its lines are indented to
column `margin` at least and are never at the start of the line. -/
def read (folded : Bool) (margin : Nat) (c : Cursor) : Option (String × Cursor) := do
  let (chomp, indentation, c) ← readHeader c.skip
  let given := if indentation = 0 then none else some (margin - 1 + indentation)
  let (others, reach, c) ← readEmptyLines given 0 c.size c
  let column := given.getD (max (max reach margin) 1)
  let (text, c) ← readLines folded chomp column c.size ⟨none, others, false⟩ c
  return (String.ofList text, c)

end SignalGuard.Yaml.Block
