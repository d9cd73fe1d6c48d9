import SignalGuard.Data.Datum
import SignalGuard.Yaml.Char
import SignalGuard.Yaml.Scalar
import SignalGuard.Yaml.Spelling

/-!
# Writing YAML

Data are written in blocks: a member per line, an item per dash. A text is
plain if it can be, in single quotes if a plain scalar would say something else,
over several lines if it has line feeds, and in double quotes where nothing else
can hold it.
-/

namespace SignalGuard.Yaml.Writer

/-- Whether two neighbours are related. -/
def anyNeighbours (r : Char → Char → Bool) : List Char → Bool
  | a :: b :: rest => r a b || anyNeighbours r (b :: rest)
  | _ => false

def isSpace (c : Char) : Bool := c = ' '

/-- Whether a character needs an escape. -/
def hasSpecial (cs : List Char) : Bool := cs.any (!isPrintable ·)

/-- Whether spaces end a line inside the text. -/
def hasSpaceBreak : List Char → Bool := anyNeighbours fun a b => isSpace a && isBreak b

/-- Whether spaces start a line inside the text. -/
def hasBreakSpace : List Char → Bool := anyNeighbours fun a b => isBreak a && isSpace b

/-- Characters that mean something at the start of a scalar. -/
def isMark (c : Char) : Bool := isIndicator c && c ≠ '-' && c ≠ '?' && c ≠ ':'

/-- Whether a colon is followed by a gap or ends the text. -/
def hasKeyEnd : List Char → Bool
  | [] => false
  | c :: rest => c = ':' && isGap rest.head? || hasKeyEnd rest

/-- Whether the text starts like something else than a plain scalar. -/
def startsWithMark (cs : List Char) : Bool :=
  match cs with
  | [] => false
  | c :: rest =>
    isMark c || (c = '-' || c = '?') && isGap rest.head? ||
      cs.take 3 == ['-', '-', '-'] || cs.take 3 == ['.', '.', '.']

/-- Whether a comment would start inside the text. -/
def hasComment : List Char → Bool := anyNeighbours fun a b => isGap (some a) && b = '#'

/-- Whether the character at an end of the text would get lost there. -/
def isLost (c : Option Char) : Bool := c.any fun c => isSpace c || isBreak c

def allowsPlain (cs : List Char) : Bool :=
  !(isLost cs.head? || isLost cs.getLast? || cs.any isBreak || hasSpecial cs ||
    startsWithMark cs || hasKeyEnd cs || hasComment cs)

def allowsSingleQuoted (cs : List Char) : Bool :=
  !(hasSpecial cs || hasSpaceBreak cs || hasBreakSpace cs)

def allowsLiteral (cs : List Char) : Bool :=
  !(hasSpecial cs || hasSpaceBreak cs || cs.getLast? = some ' ')

def style (cs : List Char) : Style :=
  if cs.contains '\n' then if allowsLiteral cs then .literal else .doubleQuoted
  else if allowsPlain cs && !Spelling.isReserved cs then .plain
  else if allowsSingleQuoted cs then .singleQuoted
  else .doubleQuoted

def pad (column : Nat) : List Char := List.replicate column ' '

/-- Indents what follows a line break; `broken` tells whether one comes right
before. -/
def indentLines (column : Nat) (write : Char → List Char) : Bool → List Char → List Char
  | broken, [] => if broken then pad column else []
  | broken, c :: rest =>
    if isBreak c then c :: indentLines column write true rest
    else (if broken then pad column else []) ++ write c ++ indentLines column write false rest

def singleQuoted (column : Nat) (cs : List Char) : List Char :=
  let double := fun c => if c = '\'' then [c, c] else [c]
  '\'' :: indentLines column double false cs ++ ['\'']

/-- Hexadecimal digits of a number, at least `width` of them. -/
def hex (width n : Nat) : List Char :=
  (List.range width).reverse.map fun i => Digits.upper (n >>> (4 * i) % 16)

def escapeChar (c : Char) : List Char :=
  match c with
  | '\x00' => ['0']
  | '\x07' => ['a']
  | '\x08' => ['b']
  | '\t' => ['t']
  | '\n' => ['n']
  | '\x0b' => ['v']
  | '\x0c' => ['f']
  | '\r' => ['r']
  | '\x1b' => ['e']
  | '"' => ['"']
  | '\\' => ['\\']
  | _ =>
    let n := c.toNat
    if c = nextLine then ['N']
    else if c = lineSeparator then ['L']
    else if c = paragraphSeparator then ['P']
    else if n < 0x100 then 'x' :: hex 2 n
    else if n < 0x10000 then 'u' :: hex 4 n
    else 'U' :: hex 8 n

def needsEscape (c : Char) : Bool := !isPrintable c || isBreak c || c = '"' || c = '\\'

def doubleQuoted (cs : List Char) : List Char :=
  '"' :: cs.flatMap (fun c => if needsEscape c then '\\' :: escapeChar c else [c]) ++ ['"']

/-- The marks of a literal scalar: the indentation if the text does not show it,
and what becomes of the breaks at the end. -/
def literalHeader (cs : List Char) : List Char :=
  let indentation := if isLost cs.head? then ['2'] else []
  let chomp := match cs.reverse with
    | [] => ['-']
    | [c] => if isBreak c then ['+'] else ['-']
    | last :: before :: _ =>
      if !isBreak last then ['-'] else if isBreak before then ['+'] else []
  '|' :: indentation ++ chomp

/-- The lines of a literal scalar. Empty lines have no indentation. -/
def literalLines (column : Nat) : Bool → List Char → List Char
  | _, [] => []
  | broken, c :: rest =>
    if isBreak c then c :: literalLines column true rest
    else (if broken then pad column else []) ++ c :: literalLines column false rest

def literal (column : Nat) (cs : List Char) : List Char :=
  literalHeader cs ++ '\n' :: literalLines column true cs

/-- A text with the end of its line; lines after the first start at the
column. -/
def text (column : Nat) (s : String) : String :=
  let cs := s.toList
  String.ofList (match style cs with
    | .plain => cs ++ ['\n']
    | .singleQuoted => singleQuoted column cs ++ ['\n']
    | .literal | .folded =>
      literal column cs ++ (if cs.getLast?.any isBreak then [] else ['\n'])
    | .doubleQuoted => doubleQuoted cs ++ ['\n'])

/-- A value that fits into the line of its key or dash. -/
def leaf (column : Nat) : Datum → String
  | .null => "null\n"
  | .flag b => if b then "true\n" else "false\n"
  | .int i => toString i ++ "\n"
  | .text s => text column s
  | .list _ => "[]\n"
  | .record _ => "\x7b\x7d\n"

/-- Entries on lines of their own at the column. -/
def stack (column : Nat) (entries : List String) : String :=
  String.join (entries.map (String.ofList (pad column) ++ ·))

/-- Entries at the column, where the first is already at. -/
def hang (column : Nat) : List String → String
  | [] => ""
  | e :: es => e ++ stack column es

mutual

/-- What stands behind the dash of an item at the column. -/
def item (column : Nat) : Datum → String
  | .list items =>
    if items.isEmpty then "[]\n" else hang (column + 2) (listItems (column + 2) items)
  | .record members =>
    if members.isEmpty then "\x7b\x7d\n" else hang (column + 2) (recordMembers (column + 2) members)
  | d => leaf (column + 2) d

def listItems (column : Nat) : List Datum → List String
  | [] => []
  | d :: ds => ("- " ++ item column d) :: listItems column ds

/-- What stands behind the colon of a member at the column. Items line up with
the key, members are indented. -/
def member (column : Nat) : Datum → String
  | .list items =>
    if items.isEmpty then " []\n" else "\n" ++ stack column (listItems column items)
  | .record members =>
    if members.isEmpty then " \x7b\x7d\n"
    else "\n" ++ stack (column + 2) (recordMembers (column + 2) members)
  | d => " " ++ leaf (column + 2) d

def recordMembers (column : Nat) : List (String × Datum) → List String
  | [] => []
  | (name, d) :: rest => (name ++ ":" ++ member column d) :: recordMembers column rest

end

end Writer

/-- The text of a datum. The names of its members are plain words. -/
def write : Datum → String
  | .list items =>
    if items.isEmpty then "[]\n" else Writer.stack 0 (Writer.listItems 0 items)
  | .record members =>
    if members.isEmpty then "\x7b\x7d\n" else Writer.stack 0 (Writer.recordMembers 0 members)
  | d => Writer.leaf 2 d

end SignalGuard.Yaml
