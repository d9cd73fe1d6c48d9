import SignalGuard.Proofs.VoteOutcomes

/-!
# Votes are symmetric and monotone

A vote counts its values and never looks at their order: every part of it, from
the extremes to the quorum, is the same for a permutation of them. What it
publishes grows with the values, whichever the method is
(`Vote.published?_mono`). `vote_orderly` says both of one vote, together with
the bounds of its value.
-/

namespace SignalGuard

namespace Vote

variable {values values' : List Int32}

-- ---------------------------------------------------------------------------
-- Permutations
-- ---------------------------------------------------------------------------

theorem min?_eq_of_perm (h : values.Perm values') : values.min? = values'.min? := by
  refine Option.ext fun lo => ?_
  simp only [List.min?_eq_some_iff, h.mem_iff]

theorem max?_eq_of_perm (h : values.Perm values') : values.max? = values'.max? := by
  refine Option.ext fun hi => ?_
  simp only [List.max?_eq_some_iff, h.mem_iff]

theorem total_eq_of_perm (h : values.Perm values') : total values = total values' :=
  h.foldr_eq' (fun v _ w _ sum => Int.add_left_comm w.toInt v.toInt sum) 0

theorem average?_eq_of_perm (h : values.Perm values') : average? values = average? values' := by
  cases values with
  | nil => rw [h.nil_eq]
  | cons v vs =>
    cases values' with
    | nil => cases h.eq_nil
    | cons v' vs' => simp only [average?, total_eq_of_perm h, h.length_eq]

theorem published?_eq_of_perm (h : values.Perm values') (method : VotingMethod) :
    published? values method = published? values' method := by
  cases method with
  | min => exact min?_eq_of_perm h
  | max => exact max?_eq_of_perm h
  | average => exact average?_eq_of_perm h
  | median => exact median?_eq_of_perm h
  | majority => exact median?_eq_of_perm h

theorem agreed_iff_of_perm (h : values.Perm values') {method : VotingMethod}
    {tolerance : UInt32} {quorum : Option UInt8} {value : Int32} :
    Agreed values method tolerance quorum value ↔
      Agreed values' method tolerance quorum value := by
  simp only [Agreed, agreeing, spread, h.length_eq, h.countP_eq, min?_eq_of_perm h,
    max?_eq_of_perm h]

theorem vote?_eq_of_perm (h : values.Perm values') (method : VotingMethod) (tolerance : UInt32)
    (quorum : Option UInt8) :
    vote? values method tolerance quorum = vote? values' method tolerance quorum := by
  simp only [vote?_eq, published?_eq_of_perm h, agreed_iff_of_perm h]

-- ---------------------------------------------------------------------------
-- Larger values
-- ---------------------------------------------------------------------------

theorem forall₂_set {i : Nat} (hi : i < values.length) {w : Int32} (hw : values[i] ≤ w) :
    List.Forall₂ (· ≤ ·) values (values.set i w) := by
  refine List.forall₂_iff_get.mpr ⟨(List.length_set ..).symm, fun j hj hj' => ?_⟩
  simp only [List.get_eq_getElem, List.getElem_set]
  split
  · next hij =>
    subst hij
    exact hw
  · exact Int32.le_refl _

theorem total_mono (hle : List.Forall₂ (· ≤ ·) values values') : total values ≤ total values' := by
  induction hle with
  | nil => exact Int.le_refl _
  | cons hv _ ih => exact Int.add_le_add (Int32.le_iff_toInt_le.mp hv) ih

theorem exists_of_mem_right {r : Int32 → Int32 → Prop} (h : List.Forall₂ r values values')
    {w : Int32} (hw : w ∈ values') : ∃ v ∈ values, r v w := by
  induction h with
  | nil => cases hw
  | @cons v v' values values' hv _ ih =>
    rcases List.mem_cons.mp hw with rfl | hw
    · exact ⟨v, List.mem_cons_self, hv⟩
    · obtain ⟨u, hu, hrel⟩ := ih hw
      exact ⟨u, List.mem_cons_of_mem _ hu, hrel⟩

theorem average?_eq_some_iff (hne : values ≠ []) {mean : Int32} :
    average? values = some mean ↔ (total values).tdiv values.length = mean.toInt := by
  rw [← narrow?_eq_some_iff]
  cases values with
  | nil => exact absurd rfl hne
  | cons v values => rfl

theorem average?_mono (hle : List.Forall₂ (· ≤ ·) values values') (hne : values ≠ [])
    {mean mean' : Int32} (h : average? values = some mean) (h' : average? values' = some mean') :
    mean ≤ mean' := by
  have hne' := ne_nil_of_forall₂ hle hne
  have hpos : (0 : Int) < values.length := Int.natCast_pos.mpr (List.length_pos_iff.mpr hne)
  rw [Int32.le_iff_toInt_le, ← (average?_eq_some_iff hne).mp h,
    ← (average?_eq_some_iff hne').mp h', ← hle.length_eq]
  exact Int.tdiv_le_tdiv hpos (total_mono hle)

theorem published?_mono (hle : List.Forall₂ (· ≤ ·) values values') (hne : values ≠ [])
    (hfit : values.length ≤ voteCapacity) {method : VotingMethod} {value value' : Int32}
    (h : published? values method = some value) (h' : published? values' method = some value') :
    value ≤ value' := by
  cases method with
  | min =>
    obtain ⟨hmem', -⟩ := List.min?_eq_some_iff.mp h'
    obtain ⟨v, hv, hvalue'⟩ := exists_of_mem_right hle hmem'
    exact Int32.le_trans ((List.min?_eq_some_iff.mp h).2 v hv) hvalue'
  | max =>
    obtain ⟨hmem, -⟩ := List.max?_eq_some_iff.mp h
    obtain ⟨v', hv', hvalue⟩ := exists_of_mem_right hle.flip hmem
    exact Int32.le_trans hvalue ((List.max?_eq_some_iff.mp h').2 v' hv')
  | average => exact average?_mono hle hne h h'
  | median => exact median?_mono hle hne hfit h h'
  | majority => exact median?_mono hle hne hfit h h'

end Vote

open Vote

/-- A vote of at least one value has an outcome, which no permutation of the
values changes; its value lies between theirs and does not fall when one of them
rises. -/
theorem vote_orderly {values : List Int32} (hne : values ≠ [])
    (hfit : values.length ≤ voteCapacity) (method : VotingMethod) (tolerance : UInt32)
    (quorum : Option UInt8) :
    ∃ outcome, vote? values method tolerance quorum = some outcome ∧
      (∀ values', values.Perm values' →
        vote? values' method tolerance quorum = some outcome) ∧
      (∃ lo hi, values.min? = some lo ∧ values.max? = some hi ∧
        lo ≤ outcome.value ∧ outcome.value ≤ hi) ∧
      ∀ i (hi : i < values.length) w, values[i] ≤ w →
        ∃ raised, vote? (values.set i w) method tolerance quorum = some raised ∧
          outcome.value ≤ raised.value := by
  obtain ⟨outcome, hvote, hvalue, -, hbounds⟩ := exists_vote? hne hfit method tolerance quorum
  refine ⟨outcome, hvote, fun values' hperm => ?_, hbounds, ?_⟩
  · rw [← vote?_eq_of_perm hperm, hvote]
  · intro i hi w hw
    have hle := forall₂_set hi hw
    have hne' : values.set i w ≠ [] := by simpa using hne
    have hfit' : (values.set i w).length ≤ voteCapacity := by simpa using hfit
    obtain ⟨raised, hvote', hvalue', -⟩ := exists_vote? hne' hfit' method tolerance quorum
    exact ⟨raised, hvote', published?_mono hle hne hfit hvalue hvalue'⟩

/-- A median that is rounded down, of the two values in either order, and then
with the smaller one raised above the other. -/
theorem vote_orderly_pair :
    ([-2, -3] : List Int32) ≠ [] ∧ ([-2, -3] : List Int32).length ≤ voteCapacity ∧
      ∃ outcome raised, vote? [-2, -3] .median 0 none = some outcome ∧
        vote? [-3, -2] .median 0 none = some outcome ∧
        vote? [-2, 4] .median 0 none = some raised ∧ outcome.value ≤ raised.value := by
  have hne : ([-2, -3] : List Int32) ≠ [] := by decide
  have hfit : ([-2, -3] : List Int32).length ≤ voteCapacity := by decide
  obtain ⟨outcome, hvote, hperm, -, hraise⟩ := vote_orderly hne hfit .median 0 none
  obtain ⟨raised, hraised, hle⟩ := hraise 1 (by decide) 4 (by decide)
  exact ⟨hne, hfit, outcome, raised, hvote, hperm _ (.swap _ _ _), hraised, hle⟩

end SignalGuard
