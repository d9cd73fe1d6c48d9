import SignalGuard.Json.Fault
import SignalGuard.Text.Digits

/-!
# JSON texts

A text stands between double quotes. `writeChar` escapes quotes, backslashes
and control characters and nothing else; `readChar` takes any escape. What
`writeChar` writes, `readChar` reads back, whatever follows.
-/

namespace SignalGuard.Json.Text

/-- Number of bytes of the text in UTF-8. -/
def byteLength (cs : List Char) : Nat := cs.foldr (fun c n => c.utf8Size + n) 0

/-- Reads four hexadecimal digits. Fewer than four bytes are an early end. -/
def readUnit : List Char → Except Fault (Nat × List Char)
  | a :: b :: c :: d :: rest =>
    match Digits.number? 16 [a, b, c, d] with
    | some n => .ok (n, rest)
    | none => .error .malformed
  | cs => .error (if byteLength cs < 4 then .ended else .malformed)

def isHighSurrogate (n : Nat) : Bool := 0xD800 ≤ n && n ≤ 0xDBFF

def isLowSurrogate (n : Nat) : Bool := 0xDC00 ≤ n && n ≤ 0xDFFF

/-- Reads the second half of a surrogate pair. -/
def readLowHalf (high : Nat) : List Char → Except Fault (Char × List Char)
  | [] | ['\\'] => .error .ended
  | '\\' :: 'u' :: rest =>
    match readUnit rest with
    | .error f => .error f
    | .ok (low, rest) =>
      if isLowSurrogate low then
        .ok (Char.ofNat (0x10000 + (high - 0xD800) * 0x400 + (low - 0xDC00)), rest)
      else .error .malformed
  | _ => .error .malformed

/-- Reads what follows the mark of a hexadecimal escape. -/
def readHex (cs : List Char) : Except Fault (Char × List Char) :=
  match readUnit cs with
  | .error f => .error f
  | .ok (n, rest) =>
    if isLowSurrogate n then .error .malformed
    else if isHighSurrogate n then readLowHalf n rest
    else .ok (Char.ofNat n, rest)

/-- Reads what follows a backslash. -/
def readEscape : List Char → Except Fault (Char × List Char)
  | [] => .error .ended
  | c :: rest =>
    match c with
    | '"' => .ok ('"', rest)
    | '\\' => .ok ('\\', rest)
    | '/' => .ok ('/', rest)
    | 'b' => .ok ('\x08', rest)
    | 'f' => .ok ('\x0c', rest)
    | 'n' => .ok ('\n', rest)
    | 'r' => .ok ('\r', rest)
    | 't' => .ok ('\t', rest)
    | 'u' => readHex rest
    | _ => .error .malformed

/-- Reads one character inside a text; `none` is the closing quote. -/
def readChar : List Char → Except Fault (Option Char × List Char)
  | [] => .error .ended
  | c :: rest =>
    if c = '"' then .ok (none, rest)
    else if c = '\\' then (readEscape rest).map fun (c, rest) => (some c, rest)
    else if c.toNat < 0x20 then .error .malformed
    else .ok (some c, rest)

/-- Reads at most `fuel` characters of a text and its closing quote. -/
def readBody : Nat → List Char → Except Fault (List Char × List Char)
  | 0, _ => .error .ended
  | fuel + 1, cs =>
    match readChar cs with
    | .error f => .error f
    | .ok (none, rest) => .ok ([], rest)
    | .ok (some c, rest) => (readBody fuel rest).map fun (body, rest) => (c :: body, rest)

/-- Reads a text of at most `fuel` characters after its opening quote. -/
def read (fuel : Nat) (cs : List Char) : Except Fault (String × List Char) :=
  (readBody fuel cs).map fun (body, rest) => (String.ofList body, rest)

def writeChar (c : Char) : List Char :=
  match c with
  | '"' => ['\\', '"']
  | '\\' => ['\\', '\\']
  | '\x08' => ['\\', 'b']
  | '\x0c' => ['\\', 'f']
  | '\n' => ['\\', 'n']
  | '\r' => ['\\', 'r']
  | '\t' => ['\\', 't']
  | _ =>
    if c.toNat < 0x20 then
      ['\\', 'u', '0', '0', Digits.lower (c.toNat / 16), Digits.lower (c.toNat % 16)]
    else [c]

def write (s : String) : List Char := '"' :: (s.toList.flatMap writeChar ++ ['"'])

end SignalGuard.Json.Text
