import SignalGuard.Yaml.Cursor

/-!
# Line folding

Between two words of a scalar that may run over several lines stands a gap:
blanks within a line, or line breaks with blanks around them. A gap with a
single line feed counts as a space, further breaks count as themselves.
-/

namespace SignalGuard.Yaml

structure Gap where
  /-- Blanks before the first break. -/
  blanks : List Char
  /-- Whether a line ended in the gap. -/
  broken : Bool
  /-- The first break. -/
  first : Option Char
  /-- The breaks after the first one. -/
  others : List Char
  deriving BEq, DecidableEq, Repr

namespace Gap

def empty : Gap := ⟨[], false, none, []⟩

/-- The gap after an escaped line break, which itself counts as nothing. -/
def escapedBreak : Gap := ⟨[], true, none, []⟩

/-- What the gap counts as in the scalar. -/
def toList (g : Gap) : List Char :=
  if g.broken then
    match g.first with
    | some '\n' => if g.others.isEmpty then [' '] else g.others
    | some b => b :: g.others
    | none => g.others
  else g.blanks

def addBlank (c : Char) (g : Gap) : Gap :=
  if g.broken then g else { g with blanks := g.blanks ++ [c] }

def addBreak (c : Char) (g : Gap) : Gap :=
  if g.broken then { g with others := g.others ++ [c] }
  else { g with blanks := [], broken := true, first := some c }

/-- Reads a gap, at most `fuel` characters of it. A tab that stands before
column `indent` on a new line is refused. -/
def read (indent : Nat) : Nat → Gap → Cursor → Option (Gap × Cursor)
  | 0, g, c => some (g, c)
  | fuel + 1, g, c =>
    match c.rest with
    | [] => some (g, c)
    | ch :: _ =>
      if isBlank ch then
        if g.broken && ch = '\t' && c.column < indent then none
        else read indent fuel (g.addBlank ch) c.skip
      else if isBreak ch then read indent fuel (g.addBreak c.breakChar) c.skipLine
      else some (g, c)

end Gap

end SignalGuard.Yaml
