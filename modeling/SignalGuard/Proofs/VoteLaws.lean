import SignalGuard.Proofs.InPlaceSort
import SignalGuard.Vote

/-!
# A vote always has an outcome

The mean and the median lie between bounds of the values, so neither ever leaves
the words. `vote?_eq_none_iff`: among at most `voteCapacity` values only the
empty vote has no outcome.
-/

namespace SignalGuard

theorem isSome_narrow? {lo hi : Int32} {i : Int} (hlo : lo.toInt ≤ i) (hhi : i ≤ hi.toInt) :
    (narrow? i).isSome := by
  have hmin := lo.le_toInt
  have hmax := hi.toInt_lt
  have hb : Int32.minValue.toInt ≤ i ∧ i ≤ Int32.maxValue.toInt := by
    rw [Int32.toInt_minValue, Int32.toInt_maxValue]
    omega
  rw [narrow?, if_pos hb, Option.isSome_some]

namespace Vote

variable {values : List Int32} {lo hi : Int32}

-- ---------------------------------------------------------------------------
-- The mean
-- ---------------------------------------------------------------------------

/-- The sum lies between the bounds, once for every value. -/
theorem total_bounds (h : ∀ v ∈ values, lo ≤ v ∧ v ≤ hi) :
    lo.toInt * values.length ≤ total values ∧ total values ≤ hi.toInt * values.length := by
  induction values with
  | nil => simp [total]
  | cons v values ih =>
    obtain ⟨hv, hvs⟩ := List.forall_mem_cons.mp h
    have hlo := Int32.le_iff_toInt_le.mp hv.1
    have hhi := Int32.le_iff_toInt_le.mp hv.2
    have htotal : total (v :: values) = v.toInt + total values := rfl
    obtain ⟨ihlo, ihhi⟩ := ih hvs
    rw [htotal, List.length_cons, Int.natCast_succ, Int.mul_add, Int.mul_one, Int.mul_add,
      Int.mul_one]
    omega

/-- A truncated mean of numbers between two integers lies between them. -/
theorem tdiv_bounds {a b s : Int} {n : Nat} (hn : 0 < n) (ha : a * n ≤ s) (hb : s ≤ b * n) :
    a ≤ s.tdiv n ∧ s.tdiv n ≤ b := by
  have hn : (0 : Int) < n := Int.natCast_pos.mpr hn
  refine ⟨Int.le_tdiv_of_mul_le hn ha, ?_⟩
  calc s.tdiv n ≤ (b * n).tdiv n := Int.tdiv_le_tdiv hn hb
    _ = b := Int.mul_tdiv_cancel b (by omega)

theorem exists_average? (hne : values ≠ []) (h : ∀ v ∈ values, lo ≤ v ∧ v ≤ hi) :
    ∃ mean, average? values = some mean ∧ lo ≤ mean ∧ mean ≤ hi := by
  obtain ⟨hlo, hhi⟩ := total_bounds h
  obtain ⟨hlo, hhi⟩ := tdiv_bounds (List.length_pos_iff.mpr hne) hlo hhi
  obtain ⟨mean, hmean⟩ := Option.isSome_iff_exists.mp (isSome_narrow? hlo hhi)
  have heq : average? values = some mean := by
    cases values with
    | nil => exact absurd rfl hne
    | cons v values => exact hmean
  rw [narrow?_eq_some_iff.mp hmean] at hlo hhi
  exact ⟨mean, heq, Int32.le_iff_toInt_le.mpr hlo, Int32.le_iff_toInt_le.mpr hhi⟩

-- ---------------------------------------------------------------------------
-- The median
-- ---------------------------------------------------------------------------

theorem exists_median? (hne : values ≠ []) (hfit : values.length ≤ voteCapacity)
    (h : ∀ v ∈ values, lo ≤ v ∧ v ≤ hi) :
    ∃ mid, median? values = some mid ∧ lo ≤ mid ∧ mid ≤ hi := by
  have hpos := List.length_pos_iff.mpr hne
  have hsort {i : Nat} (hi' : i < (sort values).length) :
      lo ≤ (sort values)[i] ∧ (sort values)[i] ≤ hi :=
    h _ ((sort_perm values).mem_iff.mp (List.getElem_mem hi'))
  have hupper : (sort values).length / 2 < (sort values).length := by
    rw [length_sort]
    omega
  have hlower : (sort values).length / 2 - 1 < (sort values).length := by omega
  obtain ⟨hloU, hhiU⟩ := hsort hupper
  obtain ⟨hloL, hhiL⟩ := hsort hlower
  simp only [median?, sorted?_eq, if_pos hfit, Option.bind_eq_bind, Option.bind_some,
    List.getElem?_eq_getElem hupper, List.getElem?_eq_getElem hlower]
  split
  · exact ⟨_, rfl, hloU, hhiU⟩
  · rw [Int32.le_iff_toInt_le] at hloU hhiU hloL hhiL
    have hbounds (a b : Int) (ha : lo.toInt ≤ a ∧ a ≤ hi.toInt) (hb : lo.toInt ≤ b ∧ b ≤ hi.toInt) :
        lo.toInt ≤ (a + b).fdiv 2 ∧ (a + b).fdiv 2 ≤ hi.toInt := by
      rw [Int.fdiv_eq_ediv_of_nonneg _ (by decide)]
      omega
    obtain ⟨hlo, hhi⟩ := hbounds _ _ ⟨hloL, hhiL⟩ ⟨hloU, hhiU⟩
    obtain ⟨mid, hmid⟩ := Option.isSome_iff_exists.mp (isSome_narrow? hlo hhi)
    rw [narrow?_eq_some_iff.mp hmid] at hlo hhi
    exact ⟨mid, hmid, Int32.le_iff_toInt_le.mpr hlo, Int32.le_iff_toInt_le.mpr hhi⟩

-- ---------------------------------------------------------------------------
-- The vote
-- ---------------------------------------------------------------------------

theorem isSome_opinion? (hne : values ≠ []) (hfit : values.length ≤ voteCapacity)
    (method : VotingMethod) (tolerance : UInt32) (quorum : Option UInt8) :
    (opinion? values method tolerance quorum).isSome := by
  have hwords : ∀ v ∈ values, Int32.minValue ≤ v ∧ v ≤ Int32.maxValue :=
    fun v _ => ⟨v.minValue_le, v.le_maxValue⟩
  obtain ⟨mean, hmean, -⟩ := exists_average? hne hwords
  obtain ⟨mid, hmid, -⟩ := exists_median? hne hfit hwords
  cases method with
  | median => simp [opinion?, hmid]
  | average => simp [opinion?, hmean]
  | min => simpa [opinion?, List.isSome_min?_iff] using hne
  | max => simpa [opinion?, List.isSome_max?_iff] using hne
  | majority => simp [opinion?, hmid]

end Vote

theorem vote?_eq_none_iff {values : List Int32} (hfit : values.length ≤ voteCapacity)
    {method : VotingMethod} {tolerance : UInt32} {quorum : Option UInt8} :
    vote? values method tolerance quorum = none ↔ values = [] := by
  constructor
  · intro h
    rw [vote?, Option.map_eq_none_iff] at h
    refine Decidable.byContradiction fun hne => ?_
    have hsome := Vote.isSome_opinion? hne hfit method tolerance quorum
    simp [h] at hsome
  · rintro rfl
    cases method <;> rfl

end SignalGuard
