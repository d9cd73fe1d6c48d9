import SignalGuard.Json.Fault

/-!
# JSON numbers

An integer from `-2 ^ 63` up to, but not including, `2 ^ 64` is read exactly.
Every other number, and minus zero, becomes a binary64 number. Its significand is
what fits into a 64-bit word; later digits only move the exponent, and the power
of ten is applied by a single multiplication or division where a table of powers
up to `10 ^ 308` allows it. A number beyond the largest binary64 number is
malformed.
-/

namespace SignalGuard.Json

inductive Number
  | int (i : Int)
  | float (bits : UInt64)
  deriving BEq, DecidableEq, Repr

namespace Number

def digit (c : Char) : Nat := c.toNat - '0'.toNat

/-- Appends digits to a number as long as the result is below the bound; also
gives the digits that are left. -/
def accumulate (bound : Nat) (n : Nat) : List Char → Nat × List Char
  | [] => (n, [])
  | c :: cs =>
    if n * 10 + digit c < bound then accumulate bound (n * 10 + digit c) cs else (n, c :: cs)

def significandBound : Nat := UInt64.size

def exponentBound : Nat := 1 <<< 31

def applySign (positive : Bool) (f : Float) : Number := .float (if positive then f else -f).toBits

/-- The number `f * 10 ^ exponent`; at most `fuel` steps bring a small number
into the reach of the table. -/
def scaleFloat (f : Float) (exponent : Int) : Nat → Except Fault Float
  | 0 => .ok f
  | fuel + 1 =>
    if exponent.natAbs ≤ 308 then
      let power := Float.ofScientific 1 false exponent.natAbs
      if exponent < 0 then .ok (f / power)
      else if (f * power).isInf then .error .malformed
      else .ok (f * power)
    else if f == 0 then .ok f
    else if exponent ≥ 0 then .error .malformed
    else scaleFloat (f / Float.ofScientific 1 false 308) (exponent + 308) fuel

def ofParts (positive : Bool) (significand : Nat) (exponent : Int) : Except Fault Number :=
  (scaleFloat (UInt64.ofNat significand).toFloat exponent 4).map (applySign positive)

/-- An integer without fraction and exponent. -/
def ofInteger (positive : Bool) (n : Nat) : Number :=
  if positive then int n
  else if 0 < n ∧ n ≤ 1 <<< 63 then int (-(n : Int))
  else applySign false (UInt64.ofNat n).toFloat

/-- The fault for a place where a digit should stand. -/
def digitMissing : List Char → Fault
  | [] => .ended
  | _ => .malformed

/-- Reads what follows the mark of an exponent. -/
def readExponent (positive : Bool) (significand : Nat) (start : Int) (cs : List Char) :
    Except Fault (Number × List Char) :=
  let (grows, cs) := match cs with
    | '+' :: rest => (true, rest)
    | '-' :: rest => (false, rest)
    | _ => (true, cs)
  let ds := cs.takeWhile Char.isDigit
  let rest := cs.dropWhile Char.isDigit
  if ds.isEmpty then .error (digitMissing cs)
  else
    let (power, left) := accumulate exponentBound 0 ds
    if left.isEmpty then
      (ofParts positive significand (if grows then start + power else start - power)).map (·, rest)
    else if significand ≠ 0 ∧ grows then .error .malformed
    else .ok (applySign positive 0, rest)

/-- Reads an exponent if there is one. -/
def readTail (positive : Bool) (significand : Nat) (exponent : Int) (cs : List Char) :
    Except Fault (Number × List Char) :=
  match cs with
  | 'e' :: rest | 'E' :: rest => readExponent positive significand exponent rest
  | _ => (ofParts positive significand exponent).map (·, cs)

/-- Reads what follows the decimal point. -/
def readFraction (positive : Bool) (significand : Nat) (exponent : Int) (cs : List Char) :
    Except Fault (Number × List Char) :=
  let ds := cs.takeWhile Char.isDigit
  let rest := cs.dropWhile Char.isDigit
  if ds.isEmpty then .error (digitMissing cs)
  else
    let (significand, left) := accumulate significandBound significand ds
    readTail positive significand (exponent - (ds.length - left.length : Nat)) rest

/-- Reads a number without its minus sign. -/
def readUnsigned (positive : Bool) (cs : List Char) : Except Fault (Number × List Char) :=
  let ds := cs.takeWhile Char.isDigit
  let rest := cs.dropWhile Char.isDigit
  if ds.isEmpty then .error (digitMissing cs)
  else if ds.head? = some '0' ∧ 1 < ds.length then .error .malformed
  else
    let (significand, left) := accumulate significandBound 0 ds
    match rest with
    | '.' :: rest => readFraction positive significand left.length rest
    | 'e' :: _ | 'E' :: _ => readTail positive significand left.length rest
    | _ =>
      if left.isEmpty then .ok (ofInteger positive significand, rest)
      else readTail positive significand left.length rest

/-- Reads a number at the front of the text. -/
def read (cs : List Char) : Except Fault (Number × List Char) :=
  match cs with
  | '-' :: rest => readUnsigned false rest
  | _ => readUnsigned true cs

end Number

end SignalGuard.Json
