/-!
# Digits

Numbers in a base up to sixteen, most significant digit first.
-/

namespace SignalGuard.Digits

/-- The value of a digit, of either case. -/
def value? (base : Nat) (c : Char) : Option Nat :=
  let n? :=
    if '0' ≤ c ∧ c ≤ '9' then some (c.toNat - '0'.toNat)
    else if 'a' ≤ c ∧ c ≤ 'f' then some (c.toNat - 'a'.toNat + 10)
    else if 'A' ≤ c ∧ c ≤ 'F' then some (c.toNat - 'A'.toNat + 10)
    else none
  n?.filter (· < base)

/-- The number that continues `n` with the digits. -/
def extend? (base n : Nat) : List Char → Option Nat
  | [] => some n
  | c :: cs => do extend? base (n * base + (← value? base c)) cs

/-- The number with the digits, of which there must be one at least. -/
def number? (base : Nat) (cs : List Char) : Option Nat :=
  if cs.isEmpty then none else extend? base 0 cs

def lower (n : Nat) : Char := Char.ofNat (if n < 10 then '0'.toNat + n else 'a'.toNat + (n - 10))

def upper (n : Nat) : Char := Char.ofNat (if n < 10 then '0'.toNat + n else 'A'.toNat + (n - 10))

theorem value?_lower : ∀ n < 16, value? 16 (lower n) = some n := by decide

theorem value?_upper : ∀ n < 16, value? 16 (upper n) = some n := by decide

end SignalGuard.Digits
