import SignalGuard.Json.Number
import SignalGuard.Json.Text

/-!
# JSON tokens

A text is cut into tokens before it is read. The first lexeme that cannot be
read becomes a `broken` token, which is the last one; the end of the text is
the end of the list. A reader that meets the broken token reports its fault, so
the first problem of the text wins, whether it lies in the spelling of the
tokens or in what they say.
-/

namespace SignalGuard.Json

inductive Token
  | openMap
  | closeMap
  | openList
  | closeList
  | colon
  | comma
  | null
  | flag (b : Bool)
  | number (n : Number)
  | text (s : String)
  /-- A lexeme that cannot be read, and whether it began as a text. -/
  | broken (f : Fault) (inText : Bool)
  deriving BEq, DecidableEq, Repr

namespace Token

def isBlank (c : Char) : Bool := c = ' ' || c = '\t' || c = '\n' || c = '\r'

/-- Reads the rest of a keyword. -/
def readWord (token : Token) : List Char → List Char → Token × List Char
  | [], cs => (token, cs)
  | _ :: _, [] => (broken .ended false, [])
  | w :: ws, c :: cs => if c = w then readWord token ws cs else (broken .malformed false, [])

def ofNumber : Except Fault (Number × List Char) → Token × List Char
  | .ok (n, rest) => (number n, rest)
  | .error f => (broken f false, [])

def ofText : Except Fault (String × List Char) → Token × List Char
  | .ok (s, rest) => (text s, rest)
  | .error f => (broken f true, [])

/-- Reads the token that starts with `c`; at most `fuel` characters follow. -/
def read (fuel : Nat) (c : Char) (rest : List Char) : Token × List Char :=
  match c with
  | '\x7b' => (openMap, rest)
  | '\x7d' => (closeMap, rest)
  | '[' => (openList, rest)
  | ']' => (closeList, rest)
  | ':' => (colon, rest)
  | ',' => (comma, rest)
  | 'n' => readWord null ['u', 'l', 'l'] rest
  | 't' => readWord (flag true) ['r', 'u', 'e'] rest
  | 'f' => readWord (flag false) ['a', 'l', 's', 'e'] rest
  | '"' => ofText (Text.read fuel rest)
  | _ =>
    if c = '-' || c.isDigit then ofNumber (Number.read (c :: rest))
    else (broken .malformed false, [])

/-- Reads at most `fuel` tokens. -/
def readAll : Nat → List Char → List Token
  | 0, _ => []
  | fuel + 1, cs =>
    match cs.dropWhile isBlank with
    | [] => []
    | c :: rest =>
      let (token, rest) := read fuel c rest
      token :: readAll fuel rest

/-- The tokens of a text. -/
def ofString (s : String) : List Token :=
  let cs := s.toList
  readAll cs.length cs

end Token

end SignalGuard.Json
