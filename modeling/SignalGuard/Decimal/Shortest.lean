/-!
# Shortest decimals of binary64 numbers

A binary64 number is read back from any decimal that lies in its rounding
interval: halfway to both neighbours, ends included when its mantissa is even.
`Shortest.digits` searches the grids of one digit, two digits and so on for a
point of that interval and takes the first grid with a hit. Of two hits on a
grid it takes the one nearer to the number. All comparisons are between exact
natural numbers.

`Shortest.text` writes the digits positionally for exponents from -4 to 15 and
with an exponent otherwise; a point and one digit after it always appear in
positional texts.
-/

namespace SignalGuard.Shortest

/-- Mantissa and binary exponent of a finite magnitude. -/
structure Binary where
  mantissa : Nat
  exponent : Int
  deriving Repr

/-- The leading bit of a mantissa, which is not stored. -/
def leadingBit : Nat := 1 <<< 52

/-- The magnitude with these bits, the sign bit aside. -/
def Binary.ofBits (bits : UInt64) : Binary :=
  let fraction : Nat := bits.toNat % leadingBit
  let biased : Nat := bits.toNat / leadingBit % 0x800
  if biased = 0 then ⟨fraction, -1074⟩ else ⟨leadingBit + fraction, (biased : Int) - 1075⟩

/-- A decimal `digits * 10 ^ exponent`. -/
structure Decimal where
  digits : Nat
  exponent : Int
  deriving Repr

/-- The rounding interval in quarters of the last mantissa bit: lower end,
number, upper end. The lower neighbour of a power of two is closer. -/
def interval (b : Binary) : Nat × Nat × Nat :=
  let low := if b.mantissa = leadingBit ∧ b.exponent > -1074 then 4 * b.mantissa - 1
    else 4 * b.mantissa - 2
  (low, 4 * b.mantissa, 4 * b.mantissa + 2)

/-- The point of the grid with step `10 ^ step` that is nearest to the number
among those in its interval, as a multiple of the step. -/
def hit? (b : Binary) (step : Int) : Option Nat :=
  let (low, mid, high) := interval b
  let quarter := b.exponent - 2
  let numerator := Nat.pow 10 (-step).toNat <<< quarter.toNat
  let denominator := Nat.pow 10 step.toNat <<< (-quarter).toNat
  let inside (c : Nat) : Bool :=
    if b.mantissa % 2 = 0 then
      low * numerator ≤ c * denominator && c * denominator ≤ high * numerator
    else low * numerator < c * denominator && c * denominator < high * numerator
  let below := mid * numerator / denominator
  let above := below + 1
  match inside below, inside above with
  | true, true =>
    let rest := 2 * (mid * numerator % denominator)
    if rest < denominator || rest = denominator && below % 2 = 0 then some below else some above
  | true, false => some below
  | false, true => some above
  | false, false => none

/-- The first hit on grids that become finer, at most `fuel` of them. -/
def search (b : Binary) (step : Int) : Nat → Decimal
  | 0 => ⟨0, 0⟩
  | fuel + 1 =>
    match hit? b step with
    | some (digits + 1) => ⟨digits + 1, step⟩
    | _ => search b (step - 1) fuel

/-- The shortest decimal of a finite nonzero magnitude. The first grid is
coarser than any number; 17 digits are always enough. -/
def digits (b : Binary) : Decimal :=
  let coarse : Int := (b.exponent + 53) * 30103 / 100000 + 2
  search b coarse 40

/-- Decimal digits without zeros at the end, and how many were dropped. -/
def trimZeros : List Char → List Char := fun cs => (cs.reverse.dropWhile (· == '0')).reverse

/-- Text of a nonzero decimal. -/
def Decimal.toText (d : Decimal) : String :=
  let all := (Nat.repr d.digits).toList
  let ds := trimZeros all
  let magnitude : Int := d.exponent + all.length - 1
  if -4 ≤ magnitude ∧ magnitude < 0 then
    "0." ++ String.ofList (List.replicate (-magnitude - 1).toNat '0' ++ ds)
  else if 0 ≤ magnitude ∧ magnitude < 16 then
    let whole := magnitude.toNat + 1
    let padded := ds ++ List.replicate (whole - ds.length) '0'
    let rest := padded.drop whole
    String.ofList (padded.take whole) ++ "." ++ (if rest.isEmpty then "0" else String.ofList rest)
  else
    let point := if ds.length > 1 then "." ++ String.ofList (ds.drop 1) else ""
    let power := Nat.repr magnitude.natAbs
    String.ofList (ds.take 1) ++ point ++ "e" ++ (if magnitude < 0 then "-" else "+") ++
      (if power.length < 2 then "0" ++ power else power)

/-- Text of the finite number with these bits. -/
def text (bits : UInt64) : String :=
  let b := Binary.ofBits bits
  (if bits.toNat < 1 <<< 63 then "" else "-") ++
    (if b.mantissa = 0 then "0.0" else (digits b).toText)

end SignalGuard.Shortest
