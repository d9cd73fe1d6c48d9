import SignalGuard.Yaml.Fold

/-!
# Plain scalars

A plain scalar has no quotes. It ends before a comment, a document marker, a
colon that is followed by a gap, and, between brackets, a flow indicator. It
may run over several lines as long as they are indented.
-/

namespace SignalGuard.Yaml.Plain

/-- The characters up to the next gap or the end of the scalar. Between
brackets a colon must not touch an indicator. -/
def chunk? (flow : Bool) : List Char → Option (List Char)
  | [] => some []
  | c :: rest =>
    if isBlank c || isBreak c then some []
    else if flow && c = ':' && rest.head?.any fun d => isFlowIndicator d || d = '?' then none
    else if c = ':' && isGap rest.head? || flow && isFlowIndicator c then some []
    else (chunk? flow rest).map (c :: ·)

/-- Reads at most `fuel` chunks, the first of them after the gap. Also gives the
gap that follows the scalar; the cursor stands behind it. -/
def readChunks (flow : Bool) (indent : Nat) :
    Nat → Gap → Cursor → Option (List Char × Gap × Cursor)
  | 0, gap, c => some ([], gap, c)
  | fuel + 1, gap, c =>
    if c.atDocumentMarker || c.peek? 0 = some '#' then some ([], gap, c)
    else do
      let chunk ← chunk? flow c.rest
      if chunk.isEmpty then return ([], gap, c)
      let text := gap.toList ++ chunk
      let (gap, c) ← Gap.read indent c.size .empty (c.skipMany chunk.length)
      if gap = .empty || !flow && c.column < indent then return (text, gap, c)
      let (tail, gap, c) ← readChunks flow indent fuel gap c
      return (text ++ tail, gap, c)

/-- Reads a plain scalar whose further lines start at column `indent` or later.
Also tells whether a line ended after it. -/
def read (flow : Bool) (indent : Nat) (c : Cursor) : Option (String × Bool × Cursor) := do
  let (text, gap, c) ← readChunks flow indent c.size .empty c
  return (String.ofList text, gap.broken, c)

end SignalGuard.Yaml.Plain
