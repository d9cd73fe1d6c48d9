import Mathlib.Data.Fintype.Card
import Mathlib.Data.List.FinRange
import SignalGuard.Proofs.VoteOutcomes

/-!
# Faulty minorities

Redundant sources are voted on because some of them may be wrong. More than
`rank` values lie at or below the value of a rank, and enough of them at or
above it, so that fewer faulty positions cannot be all of either. Less than half
of the positions are too few on both sides of the central values, and the median
stays between healthy values (`Vote.vote_masks_minority`).
-/

namespace SignalGuard.Vote

/-- The values at the positions that are not faulty. -/
def healthy (values : List Int32) (faulty : Finset (Fin values.length)) : List Int32 :=
  ((List.finRange values.length).filter (· ∉ faulty)).map values.get

variable {values : List Int32} (faulty : Finset (Fin values.length)) {rank : Nat} {w : Int32}

theorem mem_healthy {v : Int32} :
    v ∈ healthy values faulty ↔ ∃ i ∉ faulty, values.get i = v := by
  simp [healthy]

/-- A property that holds of more values than there are faulty positions holds of
a healthy value. -/
theorem exists_healthy {p : Int32 → Bool} (h : faulty.card < values.countP p) :
    ∃ v ∈ healthy values faulty, p v := by
  refine Decidable.byContradiction fun hnone => Nat.not_le.mpr h ?_
  have hfaulty : ∀ i ∈ (List.finRange values.length).filter (p ∘ values.get), i ∈ faulty := by
    intro i hi
    refine Decidable.byContradiction fun hhealthy => hnone ?_
    exact ⟨values.get i, (mem_healthy faulty).mpr ⟨i, hhealthy, rfl⟩, (List.mem_filter.mp hi).2⟩
  calc values.countP p
    _ = ((List.finRange values.length).map values.get).countP p := by rw [List.map_get_finRange]
    _ = ((List.finRange values.length).filter (p ∘ values.get)).length := by
      rw [List.countP_map, List.countP_eq_length_filter]
    _ = ((List.finRange values.length).filter (p ∘ values.get)).toFinset.card :=
      (List.toFinset_card_of_nodup ((List.nodup_finRange _).filter _)).symm
    _ ≤ faulty.card := Finset.card_le_card fun i hi => hfaulty i (List.mem_toFinset.mp hi)

theorem exists_healthy_le (h : ranked? values rank = some w) (hfew : faulty.card ≤ rank) :
    ∃ v ∈ healthy values faulty, v ≤ w := by
  obtain ⟨v, hv, hle⟩ := exists_healthy faulty (Nat.lt_of_le_of_lt hfew (lt_countP_le h))
  exact ⟨v, hv, of_decide_eq_true hle⟩

theorem exists_le_healthy (h : ranked? values rank = some w)
    (hfew : faulty.card + rank < values.length) : ∃ v ∈ healthy values faulty, w ≤ v := by
  have hbelow := countP_lt_le h
  have hsplit := values.length_eq_countP_add_countP (· < w)
  have hfewer : faulty.card < values.countP fun v => ¬decide (v < w) = true := by omega
  obtain ⟨v, hv, hnot⟩ := exists_healthy faulty hfewer
  exact ⟨v, hv, Int32.not_lt.mp (by simpa using hnot)⟩

/-- As long as less than half of the positions are faulty, the median and the
majority lie between the extremes of the other values. -/
theorem vote_masks_minority {values : List Int32} (hfit : values.length ≤ voteCapacity)
    (faulty : Finset (Fin values.length)) (hminor : 2 * faulty.card < values.length)
    {method : VotingMethod} (hmethod : method = .median ∨ method = .majority)
    (tolerance : UInt32) (quorum : Option UInt8) :
    ∃ outcome lo hi, vote? values method tolerance quorum = some outcome ∧
      (healthy values faulty).min? = some lo ∧ (healthy values faulty).max? = some hi ∧
      lo ≤ outcome.value ∧ outcome.value ≤ hi := by
  have hne : values ≠ [] := List.length_pos_iff.mp (by omega)
  obtain ⟨lower, upper, hc⟩ := exists_central hne
  obtain ⟨v, hv, hle⟩ := exists_healthy_le faulty hc.lower (by omega)
  obtain ⟨v', hv', hge⟩ := exists_le_healthy faulty hc.upper (by omega)
  obtain ⟨lo, hi, hlo, hhi⟩ := exists_extremes (List.ne_nil_of_mem hv)
  have hlov := (bounds_of_extremes hlo hhi v hv).1
  have hvhi := (bounds_of_extremes hlo hhi v' hv').2
  obtain ⟨outcome, hvote, hpublished, -⟩ := exists_vote? hne hfit method tolerance quorum
  have hmedian : median? values = some outcome.value := by
    rcases hmethod with rfl | rfl <;> exact hpublished
  have hmean := (median?_eq_some_iff hfit hc).mp hmedian
  have hcentral : lower ≤ upper := ranked?_le (by omega) hc.lower hc.upper
  refine ⟨outcome, lo, hi, hvote, hlo, hhi, ?_⟩
  simp only [Int32.le_iff_toInt_le] at hle hge hlov hvhi hcentral ⊢
  omega

/-- Two sources are stuck at the ends of the range, and four agree. -/
theorem vote_masks_stuck :
    ([.maxValue, 10, .minValue, 11, 12, 9] : List Int32).length ≤ voteCapacity ∧
      2 * ({0, 2} : Finset (Fin 6)).card < 6 ∧
      ∃ outcome lo hi,
        vote? [.maxValue, 10, .minValue, 11, 12, 9] .majority 2 none = some outcome ∧
        (healthy [.maxValue, 10, .minValue, 11, 12, 9] {0, 2}).min? = some lo ∧
        (healthy [.maxValue, 10, .minValue, 11, 12, 9] {0, 2}).max? = some hi ∧
        lo ≤ outcome.value ∧ outcome.value ≤ hi :=
  ⟨by decide, by decide, vote_masks_minority (by decide) {0, 2} (by decide) (.inr rfl) 2 none⟩

-- one of two sources is half of them
example : healthy [40, 100] {1} = [40] ∧ vote? [40, 100] .median 0 none = some ⟨70, .ok⟩ := by
  decide

end SignalGuard.Vote
