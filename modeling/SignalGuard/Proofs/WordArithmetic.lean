import Mathlib.Algebra.GroupWithZero.Nat
import Mathlib.Algebra.Ring.Int.Defs
import SignalGuard.Narrowing

/-!
# Arithmetic in words of a given width

An operation in words has no result where the exact one does not fit the width,
and a quotient has none by zero either. `Within` bounds the magnitude of a
number. The bound of a compound number follows from those of its parts, and
decides whether an operation in words is exact.
-/

namespace SignalGuard

-- ---------------------------------------------------------------------------
-- Magnitudes
-- ---------------------------------------------------------------------------

/-- The magnitude is at most the bound. -/
def Within (bound : Nat) (i : Int) : Prop := i.natAbs ≤ bound

namespace Within

variable {m n : Nat} {a b : Int}

theorem zero : Within m 0 := Nat.zero_le m

theorem natCast {k : Nat} (h : k ≤ m) : Within m k := h

theorem word (w : Int32) : Within (2 ^ 31) w.toInt := by
  have hmin := w.le_toInt
  have hmax := w.toInt_lt
  rw [Within]
  omega

theorem add (ha : Within m a) (hb : Within n b) : Within (m + n) (a + b) :=
  Nat.le_trans (Int.natAbs_add_le a b) (Nat.add_le_add ha hb)

theorem sub (ha : Within m a) (hb : Within n b) : Within (m + n) (a - b) :=
  Nat.le_trans (Int.natAbs_sub_le a b) (Nat.add_le_add ha hb)

theorem mul (ha : Within m a) (hb : Within n b) : Within (m * n) (a * b) := by
  rw [Within, Int.natAbs_mul]
  exact Nat.mul_le_mul ha hb

theorem tdiv (ha : Within m a) (b : Int) : Within m (a.tdiv b) :=
  Nat.le_trans (Int.natAbs_tdiv_le_natAbs a b) ha

end Within

-- ---------------------------------------------------------------------------
-- Operations
-- ---------------------------------------------------------------------------

namespace Words

/-- The integer, if it fits a signed word of so many bits. -/
def fit? (bits : Nat) (i : Int) : Option Int :=
  if -2 ^ (bits - 1) ≤ i ∧ i < 2 ^ (bits - 1) then some i else none

def add? (bits : Nat) (a b : Int) : Option Int := fit? bits (a + b)

def sub? (bits : Nat) (a b : Int) : Option Int := fit? bits (a - b)

def mul? (bits : Nat) (a b : Int) : Option Int := fit? bits (a * b)

/-- The quotient, truncated toward zero. -/
def div? (bits : Nat) (a b : Int) : Option Int := if b = 0 then none else fit? bits (a.tdiv b)

variable {bits m n : Nat} {a b : Int}

theorem fit?_eq_some (ha : Within m a) (hfit : m < 2 ^ (bits - 1)) : fit? bits a = some a := by
  have hbound : (a.natAbs : Int) < 2 ^ (bits - 1) := by
    exact_mod_cast Nat.lt_of_le_of_lt ha hfit
  rw [fit?, if_pos]
  omega

theorem add?_eq_some (ha : Within m a) (hb : Within n b) (hfit : m + n < 2 ^ (bits - 1)) :
    add? bits a b = some (a + b) := fit?_eq_some (ha.add hb) hfit

theorem sub?_eq_some (ha : Within m a) (hb : Within n b) (hfit : m + n < 2 ^ (bits - 1)) :
    sub? bits a b = some (a - b) := fit?_eq_some (ha.sub hb) hfit

theorem mul?_eq_some (ha : Within m a) (hb : Within n b) (hfit : m * n < 2 ^ (bits - 1)) :
    mul? bits a b = some (a * b) := fit?_eq_some (ha.mul hb) hfit

theorem div?_eq_some (ha : Within m a) (hb : b ≠ 0) (hfit : m < 2 ^ (bits - 1)) :
    div? bits a b = some (a.tdiv b) := by
  rw [div?, if_neg hb]
  exact fit?_eq_some (ha.tdiv b) hfit

end Words

end SignalGuard
