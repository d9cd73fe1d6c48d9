import SignalGuard.Text.Unprintable

/-!
# Quoted texts

Messages and logs show a text between double quotes. Quotes and backslashes
are escaped, as is every character that would not be visible.
-/

namespace SignalGuard.Quoted

/-- The hexadecimal escape of a character. -/
def hexEscape (c : Char) : String :=
  "\\u\x7b" ++ String.ofList (Nat.toDigits 16 c.toNat) ++ "\x7d"

def escape (c : Char) : String :=
  match c with
  | '"' => "\\\""
  | '\\' => "\\\\"
  | '\t' => "\\t"
  | '\r' => "\\r"
  | '\n' => "\\n"
  | '\x00' => "\\0"
  | _ =>
    if c.toNat < 0x20 || c.toNat = 0x7F || Text.isUnprintable c then hexEscape c else c.toString

def quote (s : String) : String := "\"" ++ String.join (s.toList.map escape) ++ "\""

end SignalGuard.Quoted
