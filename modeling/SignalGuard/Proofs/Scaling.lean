import SignalGuard.Proofs.ClampOrder
import SignalGuard.Proofs.WordArithmetic

/-!
# What a scale does to its values

`Scale.InWords.scaled?` evaluates a scale in 64-bit words and has no result where
a number does not fit. That never happens: the words hold the exact scaled value,
which is moved into the range of a signal and then between the clamps. None of
these steps changes the order of two values, so a scale is monotone, in the
direction that the sign of its factor gives (`Scale.apply_faithful`).
-/

namespace SignalGuard

open Words

-- ---------------------------------------------------------------------------
-- Words as integers
-- ---------------------------------------------------------------------------

theorem Int32.toInt_max (a b : Int32) : (max a b).toInt = max a.toInt b.toInt := by
  show (if a ≤ b then b else a).toInt = _
  split
  · next h => rw [Int.max_eq_right (Int32.le_iff_toInt_le.mp h)]
  · next h =>
    have := Int32.le_iff_toInt_le.not.mp h
    omega

theorem Int32.toInt_min (a b : Int32) : (min a b).toInt = min a.toInt b.toInt := by
  show (if a ≤ b then a else b).toInt = _
  split
  · next h => rw [Int.min_eq_left (Int32.le_iff_toInt_le.mp h)]
  · next h =>
    have := Int32.le_iff_toInt_le.not.mp h
    omega

/-- The nearest number that a signal can hold. -/
def saturated (i : Int) : Int := max (-2 ^ 31) (min (2 ^ 31 - 1) i)

theorem toInt_ofIntClamp (i : Int) : (Int32.ofIntClamp i).toInt = saturated i := by
  unfold Int32.ofIntClamp saturated
  split
  · next hl =>
    split
    · next hr =>
      rw [Int32.toInt_ofIntLE]
      rw [Int32.toInt_minValue] at hl
      rw [Int32.toInt_maxValue] at hr
      omega
    · next hr =>
      rw [Int32.toInt_maxValue] at hr ⊢
      omega
  · next hl =>
    rw [Int32.toInt_minValue] at hl ⊢
    omega

theorem saturated_mono {i j : Int} (h : i ≤ j) : saturated i ≤ saturated j := by
  unfold saturated
  omega

namespace Scale

variable {s : Scale} {lo hi : Option Int32}

-- ---------------------------------------------------------------------------
-- Evaluation in words
-- ---------------------------------------------------------------------------

namespace InWords

/-- The word with this value, or else the bound on its side. -/
def saturate (i : Int) : Int32 :=
  (narrow? i).getD (if i < 0 then Int32.minValue else Int32.maxValue)

/-- As `Scale.apply`, in words. -/
def scaled? (s : Scale) (value : Int32) : Option Int32 := do
  let product ← mul? 64 value.toInt s.scaleFactor.toInt
  let quotient ← div? 64 product 1000
  let wide ← add? 64 quotient s.offset.toInt
  return clamp s.clampMin s.clampMax (saturate wide)

theorem saturate_eq (i : Int) : saturate i = Int32.ofIntClamp i := by
  cases hnarrow : narrow? i with
  | some w =>
    obtain rfl := narrow?_eq_some_iff.mp hnarrow
    simp [saturate, hnarrow]
  | none =>
    have hout : ¬(Int32.minValue.toInt ≤ i ∧ i ≤ Int32.maxValue.toInt) := by
      intro h
      rw [narrow?, if_pos h] at hnarrow
      cases hnarrow
    rw [Int32.toInt_minValue, Int32.toInt_maxValue] at hout
    refine Int32.toInt_inj.mp ?_
    rw [toInt_ofIntClamp, saturate, hnarrow, Option.getD_none]
    unfold saturated
    split
    · rw [Int32.toInt_minValue]
      omega
    · rw [Int32.toInt_maxValue]
      omega

theorem scaled?_eq_some (s : Scale) (value : Int32) : scaled? s value = some (s.apply value) := by
  have hproduct := (Within.word value).mul (Within.word s.scaleFactor)
  have hmul : mul? 64 value.toInt s.scaleFactor.toInt =
      some (value.toInt * s.scaleFactor.toInt) :=
    mul?_eq_some (Within.word value) (Within.word s.scaleFactor) (by decide)
  have hdiv : div? 64 (value.toInt * s.scaleFactor.toInt) 1000 =
      some ((value.toInt * s.scaleFactor.toInt).tdiv 1000) :=
    div?_eq_some hproduct (by decide) (by decide)
  have hadd : add? 64 ((value.toInt * s.scaleFactor.toInt).tdiv 1000) s.offset.toInt =
      some (s.exact value) :=
    add?_eq_some (hproduct.tdiv 1000) (Within.word s.offset) (by decide)
  simp only [scaled?, hmul, hdiv, hadd, Option.bind_eq_bind, Option.bind_some, saturate_eq]
  rfl

end InWords

-- ---------------------------------------------------------------------------
-- Clamps
-- ---------------------------------------------------------------------------

def raiseTo (lo : Option Int32) (i : Int) : Int := lo.elim i fun l => max i l.toInt

def lowerTo (hi : Option Int32) (i : Int) : Int := hi.elim i fun h => min i h.toInt

theorem toInt_clamp (lo hi : Option Int32) (value : Int32) :
    (clamp lo hi value).toInt = lowerTo hi (raiseTo lo value.toInt) := by
  cases lo <;> cases hi <;> simp [clamp, lowerTo, raiseTo, Int32.toInt_max, Int32.toInt_min]

theorem raiseTo_mono (lo : Option Int32) {i j : Int} (h : i ≤ j) : raiseTo lo i ≤ raiseTo lo j := by
  cases lo with
  | none => exact h
  | some l =>
    simp only [raiseTo, Option.elim_some]
    omega

theorem lowerTo_mono (hi : Option Int32) {i j : Int} (h : i ≤ j) : lowerTo hi i ≤ lowerTo hi j := by
  cases hi with
  | none => exact h
  | some l =>
    simp only [lowerTo, Option.elim_some]
    omega

-- ---------------------------------------------------------------------------
-- Order
-- ---------------------------------------------------------------------------

theorem toInt_apply (s : Scale) (value : Int32) :
    (s.apply value).toInt =
      lowerTo s.clampMax (raiseTo s.clampMin (saturated (s.exact value))) := by
  rw [apply, toInt_clamp, toInt_ofIntClamp]

theorem exact_mono (h : 0 ≤ s.scaleFactor) {v w : Int32} (hvw : v ≤ w) :
    s.exact v ≤ s.exact w := by
  have hfactor : 0 ≤ s.scaleFactor.toInt := Int32.le_iff_toInt_le.mp h
  have hproduct : v.toInt * s.scaleFactor.toInt ≤ w.toInt * s.scaleFactor.toInt :=
    Int.mul_le_mul_of_nonneg_right (Int32.le_iff_toInt_le.mp hvw) hfactor
  exact Int.add_le_add_right (Int.tdiv_le_tdiv (by decide) hproduct) _

theorem exact_anti (h : s.scaleFactor ≤ 0) {v w : Int32} (hvw : v ≤ w) :
    s.exact w ≤ s.exact v := by
  have hfactor : s.scaleFactor.toInt ≤ 0 := Int32.le_iff_toInt_le.mp h
  have hproduct : w.toInt * s.scaleFactor.toInt ≤ v.toInt * s.scaleFactor.toInt :=
    Int.mul_le_mul_of_nonpos_right (Int32.le_iff_toInt_le.mp hvw) hfactor
  exact Int.add_le_add_right (Int.tdiv_le_tdiv (by decide) hproduct) _

/-- The order of exact values is that of the results. -/
theorem apply_le_apply {v w : Int32} (h : s.exact v ≤ s.exact w) : s.apply v ≤ s.apply w := by
  rw [Int32.le_iff_toInt_le, toInt_apply, toInt_apply]
  exact lowerTo_mono _ (raiseTo_mono _ (saturated_mono h))

/-- What a scale makes of its values, whatever they are. -/
structure Faithful (s : Scale) : Prop where
  words : ∀ value, InWords.scaled? s value = some (s.apply value)
  scaled : ∀ value, (s.apply value).toInt = lowerTo s.clampMax (raiseTo s.clampMin
    (saturated ((value.toInt * s.scaleFactor.toInt).tdiv 1000 + s.offset.toInt)))
  above : ∀ l ∈ s.clampMin, ∀ value, l ≤ s.apply value
  below : ∀ h ∈ s.clampMax, ∀ value, s.apply value ≤ h
  rising : 0 ≤ s.scaleFactor → ∀ v w, v ≤ w → s.apply v ≤ s.apply w
  falling : s.scaleFactor ≤ 0 → ∀ v w, v ≤ w → s.apply w ≤ s.apply v

theorem faithful_of_ordered (h : ClampOrdered s.clampMin s.clampMax) : s.Faithful where
  words := InWords.scaled?_eq_some s
  scaled := toInt_apply s
  above _ hl _ := le_clamp hl h _
  below _ hh _ := clamp_le hh _
  rising hfactor _ _ hvw := apply_le_apply (exact_mono hfactor hvw)
  falling hfactor _ _ hvw := apply_le_apply (exact_anti hfactor hvw)

/-- A scale with ordered clamps is exact up to saturation and clamps and keeps or
turns round the order of its values. So is what a limp-home action makes of it,
where that leaves the clamps in order. -/
theorem apply_faithful (s : Scale) (h : ClampOrdered s.clampMin s.clampMax) :
    s.Faithful ∧ ∀ a : LimpAction,
      ClampOrdered (a.degrade s.params).clampMin (a.degrade s.params).clampMax →
        (s.setParams (a.degrade s.params)).Faithful :=
  ⟨faithful_of_ordered h, fun _ ha => faithful_of_ordered ha⟩

/-- A falling scale with both clamps. -/
def mirror : Scale :=
  ((ofSignals ⟨1⟩ ⟨2⟩).withFactor (-1500)).withOffset 7 |>.withClamp (some (-100)) (some 2000)

/-- Turns the slope of the scale and raises its lower clamp. -/
def levelling : LimpAction := ⟨0, some 250, some 40, none, 0⟩

theorem apply_faithful_mirror :
    ClampOrdered mirror.clampMin mirror.clampMax ∧
      ClampOrdered (levelling.degrade mirror.params).clampMin
        (levelling.degrade mirror.params).clampMax ∧
      mirror.Faithful ∧ (mirror.setParams (levelling.degrade mirror.params)).Faithful := by
  have hmirror : ClampOrdered mirror.clampMin mirror.clampMax := by decide
  have hdegraded : ClampOrdered (levelling.degrade mirror.params).clampMin
      (levelling.degrade mirror.params).clampMax := by decide
  obtain ⟨hfaithful, hlimp⟩ := apply_faithful mirror hmirror
  exact ⟨hmirror, hdegraded, hfaithful, hlimp levelling hdegraded⟩

end Scale

end SignalGuard
