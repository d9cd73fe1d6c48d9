import SignalGuard.Text.Digits

/-!
# What scalars spell

A scalar without quotes may spell null, a truth value or a number. Numbers are
decimal or have a base mark; a number that starts with a superfluous zero is a
text. Fractions are told apart only so that texts that look like them are
quoted.
-/

namespace SignalGuard.Yaml.Spelling

open Digits (number?)

def isNull (cs : List Char) : Bool := ["null", "Null", "NULL", "~"].any (·.toList == cs)

def flag? (cs : List Char) : Option Bool :=
  if ["true", "True", "TRUE"].any (·.toList == cs) then some true
  else if ["false", "False", "FALSE"].any (·.toList == cs) then some false
  else none

/-- Whether digits start with a zero that is not the whole number. -/
def hasSuperfluousZero (cs : List Char) : Bool :=
  match cs with
  | '0' :: rest => !rest.isEmpty && rest.all Char.isDigit
  | _ => false

/-- The number without its sign. -/
def unsigned? (cs : List Char) : Option Nat :=
  match cs with
  | '0' :: 'x' :: digits => number? 16 digits
  | '0' :: 'o' :: digits => number? 8 digits
  | '0' :: 'b' :: digits => number? 2 digits
  | _ => if hasSuperfluousZero cs then none else number? 10 cs

/-- The integer with an optional sign. Without `signed` no minus sign is
taken. -/
def int? (signed : Bool) (cs : List Char) : Option Int :=
  match cs with
  | '+' :: rest => (unsigned? rest).map Int.ofNat
  | '-' :: rest => if signed then (unsigned? rest).map fun n => -(n : Int) else none
  | _ => (unsigned? cs).map Int.ofNat

def dropSign (cs : List Char) : List Char :=
  match cs with
  | '+' :: rest | '-' :: rest => rest
  | _ => cs

/-- Whether the digits look like a number but do not count as one. -/
def isDigitText (cs : List Char) : Bool := hasSuperfluousZero (dropSign cs)

/-- A decimal number without its sign: digits of the significand and the power
of ten that they are multiplied by. -/
structure Decimal where
  digits : List Char
  exponent : Int

/-- The exponent behind its mark. -/
def exponent? (cs : List Char) : Option Int :=
  match cs with
  | '-' :: rest => (number? 10 rest).map fun n => -(n : Int)
  | _ => (number? 10 (dropSign cs)).map Int.ofNat

/-- A number with an optional fraction and an optional exponent. -/
def decimal? (cs : List Char) : Option Decimal :=
  let whole := cs.takeWhile Char.isDigit
  let rest := cs.dropWhile Char.isDigit
  let (fraction, rest) := match rest with
    | '.' :: rest => (rest.takeWhile Char.isDigit, rest.dropWhile Char.isDigit)
    | _ => ([], rest)
  let digits := whole ++ fraction
  if digits.isEmpty then none
  else match rest with
    | [] => some ⟨digits, -fraction.length⟩
    | 'e' :: rest | 'E' :: rest => (exponent? rest).map fun e => ⟨digits, e - fraction.length⟩
    | _ => none

/-- The least number that no binary64 number is near to. -/
def overflow : Nat := 1 <<< 1024 - 1 <<< 970

/-- Whether a binary64 number is near to the decimal one. -/
def Decimal.isFinite (d : Decimal) : Bool :=
  let digits := d.digits.dropWhile (· = '0')
  let top := digits.length + d.exponent
  if digits.isEmpty || top ≤ 308 then true
  else if 309 < top then false
  else
    let n := (number? 10 digits).getD 0
    if 0 ≤ d.exponent then n * Nat.pow 10 d.exponent.toNat < overflow
    else n < overflow * Nat.pow 10 d.exponent.natAbs

def isInfinity (cs : List Char) : Bool := [".inf", ".Inf", ".INF"].any (·.toList == cs)

def isNotANumber (cs : List Char) : Bool := [".nan", ".NaN", ".NAN"].any (·.toList == cs)

/-- Whether the scalar spells a number with a fraction, infinity or the value
that is not a number. -/
def isFloat (cs : List Char) : Bool :=
  isInfinity (dropSign cs) || isNotANumber cs || (decimal? (dropSign cs)).any Decimal.isFinite

/-- The integers that a scalar can spell. -/
def isInteger (cs : List Char) : Bool :=
  (int? true cs).any fun i => -Int.ofNat (1 <<< 127) ≤ i && i < Int.ofNat (1 <<< 128)

/-- Whether a plain scalar with these characters would not be taken for a text
by every reader. -/
def isReserved (cs : List Char) : Bool :=
  cs.isEmpty || isNull cs || (flag? cs).isSome || isInteger cs || isDigitText cs || isFloat cs

end SignalGuard.Yaml.Spelling
