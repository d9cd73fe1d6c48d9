import SignalGuard.Proofs.Ranks

/-!
# What the status of a vote says

A vote publishes a value that depends on the method alone, and is `ok` when the
values have `Agreed` on it (`Vote.vote?_eq`). A majority with a positive
tolerance asks for no more than any other method does, unless its quorum exceeds
the number of voters: values within the tolerance of each other are within the
tolerance of their median (`Vote.agreeing_eq_length`).
-/

namespace SignalGuard

/-- The greater of two words is one of them and bounds both. -/
instance instLawfulOrderMaxInt32 : Std.LawfulOrderMax Int32 where
  max_eq_or a b := by
    show (if a ≤ b then b else a) = a ∨ (if a ≤ b then b else a) = b
    split
    · exact .inr rfl
    · exact .inl rfl
  max_le_iff a b c := by
    show (if a ≤ b then b else a) ≤ c ↔ a ≤ c ∧ b ≤ c
    split
    · next hle => exact ⟨fun h => ⟨Int32.le_trans hle h, h⟩, And.right⟩
    · next hnle =>
      have hba := Int32.le_of_lt (Int32.not_le.mp hnle)
      exact ⟨fun h => ⟨h, Int32.le_trans hba h⟩, And.left⟩

namespace Vote

variable {values : List Int32} {tolerance : UInt32} {quorum : Option UInt8}

-- ---------------------------------------------------------------------------
-- Extremes
-- ---------------------------------------------------------------------------

theorem bounds_of_extremes {lo hi : Int32} (hlo : values.min? = some lo)
    (hhi : values.max? = some hi) : ∀ v ∈ values, lo ≤ v ∧ v ≤ hi := by
  intro v hv
  exact ⟨(List.min?_eq_some_iff.mp hlo).2 v hv, (List.max?_eq_some_iff.mp hhi).2 v hv⟩

theorem exists_extremes (hne : values ≠ []) :
    ∃ lo hi, values.min? = some lo ∧ values.max? = some hi := by
  obtain ⟨lo, hlo⟩ := Option.isSome_iff_exists.mp (List.isSome_min?_iff.mpr hne)
  obtain ⟨hi, hhi⟩ := Option.isSome_iff_exists.mp (List.isSome_max?_iff.mpr hne)
  exact ⟨lo, hi, hlo, hhi⟩

theorem spread_eq {lo hi : Int32} (hlo : values.min? = some lo) (hhi : values.max? = some hi) :
    spread values = hi.toInt - lo.toInt := by
  simp [spread, hlo, hhi]

theorem spread_eq_zero (h : values.length ≤ 1) : spread values = 0 := by
  match values with
  | [] => rfl
  | [v] => simp [spread]

theorem disagrees_eq_false_iff :
    disagrees values tolerance = false ↔ (0 < tolerance → spread values ≤ tolerance.toNat) := by
  by_cases hmany : 1 < values.length
  · simp [disagrees, hmany]
  · rw [spread_eq_zero (Nat.not_lt.mp hmany)]
    simp [disagrees, hmany]

-- ---------------------------------------------------------------------------
-- Outcomes
-- ---------------------------------------------------------------------------

/-- What a vote publishes, whatever its status. -/
def published? (values : List Int32) : VotingMethod → Option Int32
  | .min => values.min?
  | .max => values.max?
  | .average => average? values
  | .median | .majority => median? values

/-- The quorum of a majority, by default half of the voters, rounded up. -/
def quorumFor (voters : Nat) : Option UInt8 → Nat
  | some quorum => quorum.toNat
  | none => (voters + 1) / 2

/-- A majority has its quorum, and the values lie within a positive tolerance of
each other. -/
def Agreed (values : List Int32) (method : VotingMethod) (tolerance : UInt32)
    (quorum : Option UInt8) (value : Int32) : Prop :=
  (method = .majority → quorumFor values.length quorum ≤ agreeing values value tolerance) ∧
    (0 < tolerance → spread values ≤ tolerance.toNat)

instance (values : List Int32) (method : VotingMethod) (tolerance : UInt32)
    (quorum : Option UInt8) (value : Int32) :
    Decidable (Agreed values method tolerance quorum value) :=
  inferInstanceAs (Decidable (_ ∧ _))

theorem needed_eq (voters : Nat) (quorum : Option UInt8) :
    (quorum.map UInt8.toNat).getD (defaultQuorum voters) = quorumFor voters quorum := by
  cases quorum <;> rfl

theorem opinion?_eq (values : List Int32) (method : VotingMethod) (tolerance : UInt32)
    (quorum : Option UInt8) :
    opinion? values method tolerance quorum = (published? values method).map fun value =>
      ⟨value, if method = .majority → quorumFor values.length quorum ≤
        agreeing values value tolerance then .ok else .inconsistent⟩ := by
  cases method with
  | majority => simp [opinion?, published?, needed_eq]
  | _ => simp [opinion?, published?]

theorem exists_published? (hne : values ≠ []) (hfit : values.length ≤ voteCapacity)
    {lo hi : Int32} (h : ∀ v ∈ values, lo ≤ v ∧ v ≤ hi) (method : VotingMethod) :
    ∃ value, published? values method = some value ∧ lo ≤ value ∧ value ≤ hi := by
  cases method with
  | min =>
    obtain ⟨least, hleast⟩ := Option.isSome_iff_exists.mp (List.isSome_min?_iff.mpr hne)
    exact ⟨least, hleast, h least (List.min?_mem hleast)⟩
  | max =>
    obtain ⟨greatest, hgreatest⟩ := Option.isSome_iff_exists.mp (List.isSome_max?_iff.mpr hne)
    exact ⟨greatest, hgreatest, h greatest (List.max?_mem hgreatest)⟩
  | average => exact exists_average? hne h
  | median => exact exists_median? hne hfit h
  | majority => exact exists_median? hne hfit h

end Vote

theorem vote?_eq (values : List Int32) (method : VotingMethod) (tolerance : UInt32)
    (quorum : Option UInt8) :
    vote? values method tolerance quorum = (Vote.published? values method).map fun value =>
      ⟨value, if Vote.Agreed values method tolerance quorum value then .ok
        else .inconsistent⟩ := by
  rw [vote?, Vote.opinion?_eq, Option.map_map]
  refine Option.map_congr fun value _ => ?_
  cases hd : Vote.disagrees values tolerance with
  | true =>
    have hnot : ¬Vote.Agreed values method tolerance quorum value := by
      intro hagreed
      rw [Vote.disagrees_eq_false_iff.mpr hagreed.2] at hd
      cases hd
    simp [hnot]
  | false =>
    have hspread := Vote.disagrees_eq_false_iff.mp hd
    simp only [Function.comp_apply, Vote.Agreed, and_iff_left hspread]
    rfl

namespace Vote

variable {values : List Int32} {tolerance : UInt32} {quorum : Option UInt8}

theorem exists_vote? (hne : values ≠ []) (hfit : values.length ≤ voteCapacity)
    (method : VotingMethod) (tolerance : UInt32) (quorum : Option UInt8) :
    ∃ outcome, vote? values method tolerance quorum = some outcome ∧
      published? values method = some outcome.value ∧
      (outcome.status = .ok ↔ Agreed values method tolerance quorum outcome.value) ∧
      ∃ lo hi, values.min? = some lo ∧ values.max? = some hi ∧
        lo ≤ outcome.value ∧ outcome.value ≤ hi := by
  obtain ⟨lo, hi, hlo, hhi⟩ := exists_extremes hne
  obtain ⟨value, hvalue, hbounds⟩ :=
    exists_published? hne hfit (bounds_of_extremes hlo hhi) method
  refine ⟨⟨value, if Agreed values method tolerance quorum value then .ok else .inconsistent⟩,
    ?_, hvalue, ?_, lo, hi, hlo, hhi, hbounds⟩
  · rw [vote?_eq, hvalue, Option.map_some]
  · simp

-- ---------------------------------------------------------------------------
-- Majorities
-- ---------------------------------------------------------------------------

/-- Values that lie within the tolerance of each other lie within the tolerance
of their median. -/
theorem agreeing_eq_length {mid : Int32} (h : median? values = some mid)
    (hspread : spread values ≤ tolerance.toNat) :
    agreeing values mid tolerance = values.length := by
  obtain ⟨hne, hfit⟩ := of_median? h
  obtain ⟨lo, hi, hlo, hhi⟩ := exists_extremes hne
  have hbounds := bounds_of_extremes hlo hhi
  obtain ⟨mid', hmid', hlomid, hmidhi⟩ := exists_median? hne hfit hbounds
  cases h.symm.trans hmid'
  rw [spread_eq hlo hhi] at hspread
  rw [agreeing, List.countP_eq_length]
  intro v hv
  obtain ⟨hlov, hvhi⟩ := hbounds v hv
  rw [Int32.le_iff_toInt_le] at hlomid hmidhi hlov hvhi
  refine decide_eq_true ?_
  omega

/-- Without a tolerance the values have to be the median. -/
theorem agreeing_zero (values : List Int32) (mid : Int32) :
    agreeing values mid 0 = values.count mid := by
  rw [agreeing, List.count]
  refine List.countP_congr fun v _ => ?_
  have hsame : v = mid ↔ v.toInt = mid.toInt := Int32.toInt_inj.symm
  simp only [decide_eq_true_eq, beq_iff_eq, hsame, UInt32.toNat_zero]
  omega

theorem agreed_majority_iff {mid : Int32} (h : median? values = some mid) (ht : 0 < tolerance) :
    Agreed values .majority tolerance quorum mid ↔
      spread values ≤ tolerance.toNat ∧ quorumFor values.length quorum ≤ values.length := by
  constructor
  · rintro ⟨hquorum, hspread⟩
    have hspread := hspread ht
    have hquorum := hquorum rfl
    rw [agreeing_eq_length h hspread] at hquorum
    exact ⟨hspread, hquorum⟩
  · rintro ⟨hspread, hquorum⟩
    refine ⟨fun _ => ?_, fun _ => hspread⟩
    rw [agreeing_eq_length h hspread]
    exact hquorum

theorem agreed_median_iff {mid : Int32} (ht : 0 < tolerance) :
    Agreed values .median tolerance quorum mid ↔ spread values ≤ tolerance.toNat :=
  ⟨fun h => h.2 ht, fun h => ⟨nofun, fun _ => h⟩⟩

/-- A majority with a positive tolerance is `ok` when the values lie within it
and are as many as the quorum, without a tolerance when a quorum of them is the
median itself. With a positive tolerance the default quorum decides nothing. -/
theorem majority_ok_iff (values : List Int32) (tolerance : UInt32) (quorum : Option UInt8) :
    (values ≠ [] → values.length ≤ voteCapacity →
      ∃ outcome, vote? values .majority tolerance quorum = some outcome ∧
        median? values = some outcome.value ∧
        (0 < tolerance → (outcome.status = .ok ↔ spread values ≤ tolerance.toNat ∧
          quorumFor values.length quorum ≤ values.length)) ∧
        (tolerance = 0 → (outcome.status = .ok ↔
          quorumFor values.length quorum ≤ values.count outcome.value))) ∧
      (0 < tolerance →
        vote? values .majority tolerance none = vote? values .median tolerance none) := by
  constructor
  · intro hne hfit
    obtain ⟨outcome, hvote, hmid, hok, -⟩ := exists_vote? hne hfit .majority tolerance quorum
    refine ⟨outcome, hvote, hmid, fun ht => hok.trans (agreed_majority_iff hmid ht), ?_⟩
    rintro rfl
    rw [hok, ← agreeing_zero]
    exact ⟨fun hagreed => hagreed.1 rfl, fun hquorum => ⟨fun _ => hquorum, nofun⟩⟩
  · intro ht
    rw [vote?_eq, vote?_eq]
    refine Option.map_congr fun mid hmid => ?_
    have hquorum : quorumFor values.length none ≤ values.length := by
      have hpos := List.length_pos_iff.mpr (of_median? hmid).1
      rw [quorumFor]
      omega
    simp only [agreed_majority_iff hmid ht, agreed_median_iff ht, and_iff_left hquorum]

/-- Four voters are as many as the quorum of four, and a tolerance of two is too
small for them, whichever of the two methods asks. -/
theorem majority_ok_four :
    (∃ outcome, vote? [10, 13, 11, 12] .majority 3 (some 4) = some outcome ∧
        outcome.status = .ok) ∧
      vote? [10, 13, 11, 12] .majority 2 none = vote? [10, 13, 11, 12] .median 2 none := by
  obtain ⟨outcome, hvote, -, hok, -⟩ :=
    (majority_ok_iff [10, 13, 11, 12] 3 (some 4)).1 (by decide) (by decide)
  exact ⟨⟨outcome, hvote, (hok (by decide)).mpr ⟨by decide, by decide⟩⟩,
    (majority_ok_iff [10, 13, 11, 12] 2 none).2 (by decide)⟩

-- no value is the median
example : vote? [1, 4] .majority 0 none = some ⟨2, .inconsistent⟩ := by decide

end Vote

end SignalGuard
