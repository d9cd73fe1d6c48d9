/-!
# Fitting integers into words

Arithmetic on words is done over the unbounded integers and brought back in
one of two ways: `narrow?` refuses a result that does not fit, and
`Int32.ofIntClamp` of core moves it to the nearest bound. `narrow?` never
changes a number, which `narrow?_eq_some_iff` says.
-/

namespace SignalGuard

/-- The word with this value, if there is one. -/
def narrow? (i : Int) : Option Int32 :=
  if Int32.minValue.toInt ≤ i ∧ i ≤ Int32.maxValue.toInt then some (Int32.ofInt i) else none

theorem narrow?_eq_some_iff {i : Int} {w : Int32} : narrow? i = some w ↔ i = w.toInt := by
  unfold narrow?
  constructor
  · intro h
    split at h
    · next hb =>
      cases h
      rw [Int32.toInt_minValue, Int32.toInt_maxValue] at hb
      exact (Int32.toInt_ofInt_of_le hb.1 (by omega)).symm
    · cases h
  · rintro rfl
    have h : Int32.minValue.toInt ≤ w.toInt ∧ w.toInt ≤ Int32.maxValue.toInt := by
      rw [Int32.toInt_minValue, Int32.toInt_maxValue]
      exact ⟨w.le_toInt, Int.le_sub_one_of_lt w.toInt_lt⟩
    rw [if_pos h, Int32.ofInt_toInt]

theorem narrow?_toInt (w : Int32) : narrow? w.toInt = some w := narrow?_eq_some_iff.mpr rfl

end SignalGuard
