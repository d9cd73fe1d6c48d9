import SignalGuard.Yaml.Scalar.Block
import SignalGuard.Yaml.Scalar.Plain
import SignalGuard.Yaml.Scalar.Quoted
import SignalGuard.Yaml.Token

/-!
# From text to tokens

The layout of a text is read token by token. A key without a mark of its own is
known only by the colon that follows it, so the place where one may have
started is kept, and when the colon comes the tokens of the key and, if the
column opens one, of the block mapping are put in front of it.
-/

namespace SignalGuard.Yaml

/-- A token that may turn out to be a key. -/
structure KeyStart where
  /-- Number of tokens before it. -/
  position : Nat
  index : Nat
  line : Nat
  column : Nat
  /-- Whether nothing but a key can stand there. -/
  required : Bool
  deriving BEq, DecidableEq, Repr

/-- A key stays on one line and is not longer than this. -/
def keyLength : Nat := 1024

/-- Whether a key that starts there must have ended before the cursor. -/
def KeyStart.isOver (k : KeyStart) (c : Cursor) : Bool :=
  k.line < c.line || k.index + keyLength < c.index

structure Layout where
  cursor : Cursor
  /-- Columns of the open block collections, innermost first. -/
  columns : List Nat
  /-- The possible key at the current level. -/
  key : Option KeyStart
  /-- The possible keys outside each open bracket, innermost first. -/
  outer : List (Option KeyStart)
  /-- Whether a key may start at the cursor. -/
  keyAllowed : Bool
  tokens : Array Token

namespace Layout

def start (s : String) : Layout := ⟨.start s, [], none, [], true, #[]⟩

def inFlow (l : Layout) : Bool := !l.outer.isEmpty

/-- The column that a nested block must reach. -/
def margin (l : Layout) : Nat :=
  match l.columns with
  | [] => 0
  | column :: _ => column + 1

def push (t : Token) (l : Layout) : Layout := { l with tokens := l.tokens.push t }

/-- Appends a token of `n` characters. -/
def take (n : Nat) (t : Token) (l : Layout) : Layout :=
  { l with tokens := l.tokens.push t, cursor := l.cursor.skipMany n }

/-- Appends a token that ends at the cursor. -/
def takeTo (c : Cursor) (t : Token) (l : Layout) : Layout :=
  { l with tokens := l.tokens.push t, cursor := c }

/-- Passes over at most `fuel` lines without tokens. -/
def skipBlankLines : Nat → Layout → Layout
  | 0, l => l
  | fuel + 1, l =>
    let isSpace := fun ch => ch = ' ' || ch = '\t' && (l.inFlow || !l.keyAllowed)
    let c := l.cursor.skipWhile isSpace
    let c := if c.peek? 0 = some '#' then c.skipWhile (fun ch => !isBreak ch) else c
    match c.rest with
    | [] => { l with cursor := c }
    | ch :: _ =>
      if isBreak ch then
        skipBlankLines fuel { l with cursor := c.skipLine, keyAllowed := l.keyAllowed || !l.inFlow }
      else { l with cursor := c }

/-- Passes over the mark of the byte order at the start of the text. -/
def skipByteOrderMark (l : Layout) : Layout :=
  if l.cursor.index = 0 && l.cursor.peek? 0 = some byteOrderMark then
    { l with cursor := l.cursor.skip }
  else l

def skipToToken (l : Layout) : Layout :=
  let l := l.skipByteOrderMark
  l.skipBlankLines (l.cursor.size + 1)

/-- Gives up a possible key. -/
def dropKey (l : Layout) : Option Layout :=
  if l.key.any (·.required) then none else some { l with key := none }

/-- Gives up the keys that would be too long. -/
def expireKeys (l : Layout) : Option Layout :=
  let isOver := fun (k : Option KeyStart) => k.any (·.isOver l.cursor)
  if (l.key :: l.outer).any fun k => isOver k && k.any (·.required) then none
  else
    let expire := fun k => if isOver k then none else k
    some { l with key := expire l.key, outer := l.outer.map expire }

/-- Notes that a key may start at the cursor. -/
def noteKey (l : Layout) : Option Layout :=
  if l.keyAllowed then do
    let l ← l.dropKey
    let c := l.cursor
    return { l with
      key := some ⟨l.tokens.size, c.index, c.line, c.column, !l.inFlow && l.margin = c.column + 1⟩ }
  else some l

/-- Ends the block collections, innermost first, as long as the test holds. -/
def closeWhile (test : Nat → Bool) (l : Layout) : Layout :=
  let closed := l.columns.takeWhile test
  { l with
    columns := l.columns.dropWhile test
    tokens := l.tokens ++ Array.replicate closed.length .blockEnd }

/-- Ends the block collections that the column lies left of. -/
def closeTo (column : Nat) (l : Layout) : Layout :=
  if l.inFlow then l else l.closeWhile fun start => column < start

/-- Ends all block collections. -/
def closeAll (l : Layout) : Layout :=
  if l.inFlow then l else l.closeWhile fun _ => true

/-- Opens a block collection at the column unless one is open there. Its token
goes to the position. -/
def openBlock (column position : Nat) (t : Token) (l : Layout) : Layout :=
  if !l.inFlow && l.margin ≤ column then
    { l with
      columns := column :: l.columns
      tokens := l.tokens.insertIdxIfInBounds position t }
  else l

/-- Opens a block collection at the cursor, where a key must be allowed. -/
def openHere (t : Token) (l : Layout) : Option Layout :=
  if l.inFlow then some l
  else if l.keyAllowed then some (l.openBlock l.cursor.column l.tokens.size t)
  else none

/-- Ends all blocks in front of a directive or a document marker. -/
def leave (l : Layout) : Option Layout :=
  l.closeAll.dropKey.map fun l => { l with keyAllowed := false }

def readDirective (l : Layout) : Option Layout := do
  let l ← l.leave
  let (token, c) ← Token.readDirective l.cursor
  return l.takeTo c token

def readMarker (t : Token) (l : Layout) : Option Layout := do
  return (← l.leave).take 3 t

def openFlow (t : Token) (l : Layout) : Option Layout := do
  let l ← l.noteKey
  return { l with key := none, outer := l.key :: l.outer, keyAllowed := true }.take 1 t

def closeFlow (t : Token) (l : Layout) : Option Layout := do
  let l ← l.dropKey
  let l := match l.outer with
    | key :: outer => { l with key, outer }
    | [] => l
  return { l with keyAllowed := false }.take 1 t

def readFlowEntry (l : Layout) : Option Layout := do
  return { ← l.dropKey with keyAllowed := true }.take 1 .flowEntry

def readBlockEntry (l : Layout) : Option Layout := do
  let l ← (← l.openHere .blockSequence).dropKey
  return { l with keyAllowed := true }.take 1 .blockEntry

def readKey (l : Layout) : Option Layout := do
  let l ← (← l.openHere .blockMapping).dropKey
  return { l with keyAllowed := !l.inFlow }.take 1 .key

def readValue (l : Layout) : Option Layout :=
  match l.key with
  | some k =>
    let l := { l with tokens := l.tokens.insertIdxIfInBounds k.position .key }
    let l := l.openBlock k.column k.position .blockMapping
    some ({ l with key := none, keyAllowed := false }.take 1 .value)
  | none => do
    let l ← l.openHere .blockMapping
    return { l with keyAllowed := !l.inFlow }.take 1 .value

/-- Appends a token that may be a key or stand in front of one. -/
def readWith (read : Cursor → Option (Token × Cursor)) (l : Layout) : Option Layout := do
  let l ← l.noteKey
  let (token, c) ← read l.cursor
  return { l with keyAllowed := false }.takeTo c token

def readQuoted (quote : Char) (style : Style) (l : Layout) : Option Layout :=
  l.readWith fun c => (Quoted.read quote c).map fun (text, c) => (.scalar style text, c)

def readPlain (l : Layout) : Option Layout := do
  let l ← l.noteKey
  let (text, broken, c) ← Plain.read l.inFlow l.margin l.cursor
  return { l with keyAllowed := broken }.takeTo c (.scalar .plain text)

def readBlock (folded : Bool) (style : Style) (l : Layout) : Option Layout := do
  let l ← l.dropKey
  let (text, c) ← Block.read folded l.margin l.cursor
  return { l with keyAllowed := true }.takeTo c (.scalar style text)

/-- Reads the token that starts with the character at the cursor. -/
def readToken (ch : Char) (l : Layout) : Option Layout :=
  let c := l.cursor
  let parted := isGap (c.peek? 1)
  if ch = '%' && c.column = 0 then l.readDirective
  else if c.atMarker '-' then l.readMarker .documentStart
  else if c.atMarker '.' then l.readMarker .documentEnd
  else if ch = '[' then l.openFlow .flowSequence
  else if ch = '\x7b' then l.openFlow .flowMapping
  else if ch = ']' then l.closeFlow .flowSequenceEnd
  else if ch = '\x7d' then l.closeFlow .flowMappingEnd
  else if ch = ',' then l.readFlowEntry
  else if ch = '-' && parted then l.readBlockEntry
  else if ch = '?' && (l.inFlow || parted) then l.readKey
  else if ch = ':' && (l.inFlow || parted) then l.readValue
  else if ch = '*' then
    l.readWith fun c => (Token.readName c.skip).map fun (name, c) => (.reference name, c)
  else if ch = '&' then
    l.readWith fun c => (Token.readName c.skip).map fun (name, c) => (.anchor name, c)
  else if ch = '!' then
    l.readWith fun c => (TagName.read l.inFlow c).map fun (name, c) => (.tag name, c)
  else if ch = '|' && !l.inFlow then l.readBlock false .literal
  else if ch = '>' && !l.inFlow then l.readBlock true .folded
  else if ch = '\'' then l.readQuoted ch .singleQuoted
  else if ch = '"' then l.readQuoted ch .doubleQuoted
  else if isBlank ch || isIndicator ch && ch ≠ '-' && ch ≠ '?' && ch ≠ ':' then none
  else l.readPlain

/-- Goes to the next token and ends the blocks in front of it. -/
def advance (l : Layout) : Option Layout :=
  l.skipToToken.expireKeys.map fun l => l.closeTo l.cursor.column

/-- Reads at most `fuel` tokens and the end of the text. -/
def readAll : Nat → Layout → Option (Array Token)
  | fuel, l => do
    let l ← l.advance
    match l.cursor.rest with
    | [] => return (← l.leave).tokens
    | ch :: _ =>
      match fuel with
      | 0 => none
      | fuel + 1 => readAll fuel (← l.readToken ch)

end Layout

/-- The tokens of a text whose characters are all allowed. -/
def Token.ofString (s : String) : Option (List Token) :=
  let l := Layout.start s
  if l.cursor.rest.all isAllowed then (Layout.readAll l.cursor.size l).map (·.toList) else none

end SignalGuard.Yaml
