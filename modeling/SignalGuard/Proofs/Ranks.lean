import Mathlib.Data.List.Forall2
import Mathlib.Data.Rat.Floor
import SignalGuard.Proofs.VoteLaws

/-!
# Ranks and medians

The value of a rank is told by counting. A property that smaller words inherit
holds of it exactly when it holds of more values than the rank
(`Vote.ranked?_iff`), so ranks depend on neither the order of the values nor on
how they were sorted, and grow with the values. The median is the mean of the
two central values, rounded down (`Vote.median?_eq_some_iff`); for an odd number
of values the two are the same. It is read off the front of a buffer in which the
values were sorted (`Vote.median_of_sorted_front`).
-/

namespace SignalGuard.Vote

variable {values values' : List Int32} {rank : Nat} {w w' : Int32}

-- ---------------------------------------------------------------------------
-- Ranks
-- ---------------------------------------------------------------------------

/-- The value of this rank, of which zero is the least value's. -/
def ranked? (values : List Int32) (rank : Nat) : Option Int32 := (sort values)[rank]?

theorem exists_ranked? (h : rank < values.length) : ∃ w, ranked? values rank = some w := by
  rw [← length_sort] at h
  exact ⟨_, List.getElem?_eq_getElem h⟩

/-- A property that smaller words inherit. -/
def Downward (p : Int32 → Bool) : Prop := ∀ v w, v ≤ w → p w → p v

theorem downward_le (x : Int32) : Downward fun v => v ≤ x := by
  intro v w hle hw
  simp only [decide_eq_true_eq] at hw ⊢
  exact Int32.le_trans hle hw

theorem downward_lt (x : Int32) : Downward fun v => v < x := by
  intro v w hle hw
  simp only [decide_eq_true_eq] at hw ⊢
  exact Int32.lt_of_le_of_lt hle hw

/-- In a nondecreasing list the property holds of a beginning. -/
theorem iff_lt_countP {p : Int32 → Bool} (hp : Downward p) {ws : List Int32}
    (hs : ws.Pairwise (· ≤ ·)) (h : rank < ws.length) : p ws[rank] ↔ rank < ws.countP p := by
  induction ws generalizing rank with
  | nil => cases h
  | cons v ws ih =>
    obtain ⟨hv, hs⟩ := List.pairwise_cons.mp hs
    cases hpv : p v with
    | true =>
      rw [List.countP_cons_of_pos hpv]
      cases rank with
      | zero => simp [hpv]
      | succ rank =>
        rw [List.getElem_cons_succ, ih hs, Nat.add_lt_add_iff_right]
    | false =>
      -- every later value would pass the property on to `v`
      have hnone : ∀ x ∈ v :: ws, ¬p x := by
        intro x hx hpx
        rcases List.mem_cons.mp hx with rfl | hx
        · simp [hpv] at hpx
        · simp [hp v x (hv x hx) hpx] at hpv
      rw [List.countP_eq_zero.mpr hnone]
      exact iff_of_false (hnone _ (List.getElem_mem h)) (Nat.not_lt_zero rank)

theorem ranked?_iff {p : Int32 → Bool} (hp : Downward p) (h : ranked? values rank = some w) :
    p w ↔ rank < values.countP p := by
  obtain ⟨hlt, rfl⟩ := List.getElem?_eq_some_iff.mp h
  rw [iff_lt_countP hp (sort_pairwise values) hlt, (sort_perm values).countP_eq]

theorem lt_countP_le (h : ranked? values rank = some w) : rank < values.countP (· ≤ w) :=
  (ranked?_iff (downward_le w) h).mp (decide_eq_true (Int32.le_refl w))

theorem countP_lt_le (h : ranked? values rank = some w) : values.countP (· < w) ≤ rank := by
  have hnot := (ranked?_iff (downward_lt w) h).not.mp (by simp [Int32.lt_irrefl])
  exact Nat.not_lt.mp hnot

/-- Larger values leave a property that smaller words inherit to fewer of them. -/
theorem countP_le_of_forall₂ {p : Int32 → Bool} (hp : Downward p)
    (hle : List.Forall₂ (· ≤ ·) values values') : values'.countP p ≤ values.countP p := by
  induction hle with
  | nil => exact Nat.le_refl _
  | @cons v v' values values' hv _ ih =>
    rw [List.countP_cons, List.countP_cons]
    cases hpv' : p v' with
    | true => simpa [hp v v' hv hpv'] using ih
    | false =>
      simp only [Bool.false_eq_true, if_false]
      omega

theorem ne_nil_of_forall₂ (hle : List.Forall₂ (· ≤ ·) values values') (hne : values ≠ []) :
    values' ≠ [] := by
  rintro rfl
  exact hne (List.forall₂_nil_right_iff.mp hle)

theorem ranked?_mono (hle : List.Forall₂ (· ≤ ·) values values')
    (h : ranked? values rank = some w) (h' : ranked? values' rank = some w') : w ≤ w' := by
  have hcount : rank < values.countP (· ≤ w') :=
    Nat.lt_of_lt_of_le (lt_countP_le h') (countP_le_of_forall₂ (downward_le w') hle)
  exact of_decide_eq_true ((ranked?_iff (downward_le w') h).mpr hcount)

theorem ranked?_le {rank' : Nat} (hle : rank ≤ rank') (h : ranked? values rank = some w)
    (h' : ranked? values rank' = some w') : w ≤ w' :=
  of_decide_eq_true <|
    (ranked?_iff (downward_le w') h).mpr (Nat.lt_of_le_of_lt hle (lt_countP_le h'))

theorem sort_eq_of_perm (h : values.Perm values') : sort values = sort values' :=
  eq_sort (sort_pairwise values) ((sort_perm values).trans h)

-- ---------------------------------------------------------------------------
-- Medians
-- ---------------------------------------------------------------------------

/-- The two values in the middle; of an odd number of values they are the same. -/
structure Central (values : List Int32) (lower upper : Int32) : Prop where
  lower : ranked? values ((values.length - 1) / 2) = some lower
  upper : ranked? values (values.length / 2) = some upper

theorem exists_central (hne : values ≠ []) : ∃ lower upper, Central values lower upper := by
  have hpos := List.length_pos_iff.mpr hne
  have hlower : (values.length - 1) / 2 < values.length := by omega
  have hupper : values.length / 2 < values.length := by omega
  obtain ⟨lower, hlower⟩ := exists_ranked? hlower
  obtain ⟨upper, hupper⟩ := exists_ranked? hupper
  exact ⟨lower, upper, hlower, hupper⟩

theorem Central.eq_of_odd {lower upper : Int32} (hc : Central values lower upper)
    (hodd : values.length % 2 = 1) : lower = upper := by
  have hsame : (values.length - 1) / 2 = values.length / 2 := by omega
  have hlower := hc.lower
  rw [hsame, hc.upper, Option.some.injEq] at hlower
  exact hlower.symm

theorem Central.below_of_even {lower upper : Int32} (hc : Central values lower upper)
    (heven : values.length % 2 = 0) :
    ranked? values (values.length / 2 - 1) = some lower := by
  have hbefore : values.length / 2 - 1 = (values.length - 1) / 2 := by omega
  rw [hbefore]
  exact hc.lower

theorem median?_eq_some_iff (hfit : values.length ≤ voteCapacity) {lower upper : Int32}
    (hc : Central values lower upper) {mid : Int32} :
    median? values = some mid ↔ (lower.toInt + upper.toInt) / 2 = mid.toInt := by
  have hupper : (sort values)[values.length / 2]? = some upper := hc.upper
  simp only [median?, sorted?_eq, if_pos hfit, Option.bind_eq_bind, Option.bind_some, length_sort,
    hupper]
  split
  · next hodd =>
    cases hc.eq_of_odd hodd
    rw [← narrow?_eq_some_iff]
    have hmean : (lower.toInt + lower.toInt) / 2 = lower.toInt := by omega
    rw [hmean, narrow?_toInt]
    rfl
  · next heven =>
    have hlower : (sort values)[values.length / 2 - 1]? = some lower :=
      hc.below_of_even (Nat.mod_two_ne_one.mp heven)
    rw [hlower, Option.bind_some, narrow?_eq_some_iff, Int.fdiv_eq_ediv_of_nonneg _ (by decide)]

theorem median?_eq_none_iff :
    median? values = none ↔ values = [] ∨ voteCapacity < values.length := by
  constructor
  · intro h
    refine Decidable.byContradiction fun hnot => ?_
    obtain ⟨hne, hfit⟩ := not_or.mp hnot
    obtain ⟨mid, hmid, -⟩ := exists_median? hne (Nat.not_lt.mp hfit)
      fun v _ => ⟨v.minValue_le, v.le_maxValue⟩
    cases h.symm.trans hmid
  · rintro (rfl | hlong)
    · rfl
    · rw [median?, sorted?_eq, if_neg (Nat.not_le.mpr hlong)]
      rfl

theorem of_median? {mid : Int32} (h : median? values = some mid) :
    values ≠ [] ∧ values.length ≤ voteCapacity := by
  have hsome : ¬median? values = none := by simp [h]
  rwa [median?_eq_none_iff, not_or, Nat.not_lt] at hsome

theorem median?_mono (hle : List.Forall₂ (· ≤ ·) values values') (hne : values ≠ [])
    (hfit : values.length ≤ voteCapacity) {mid mid' : Int32} (h : median? values = some mid)
    (h' : median? values' = some mid') : mid ≤ mid' := by
  have hlength := hle.length_eq
  obtain ⟨lower, upper, hc⟩ := exists_central hne
  obtain ⟨lower', upper', hc'⟩ := exists_central (ne_nil_of_forall₂ hle hne)
  have hmid := (median?_eq_some_iff hfit hc).mp h
  have hmid' := (median?_eq_some_iff (hlength ▸ hfit) hc').mp h'
  have hlower : lower ≤ lower' := ranked?_mono hle hc.lower (hlength ▸ hc'.lower)
  have hupper : upper ≤ upper' := ranked?_mono hle hc.upper (hlength ▸ hc'.upper)
  rw [Int32.le_iff_toInt_le] at hlower hupper ⊢
  omega

theorem median?_eq_of_perm (h : values.Perm values') : median? values = median? values' := by
  simp only [median?, sorted?_eq, sort_eq_of_perm h, h.length_eq]

/-- The middle of a list in order: the value in the middle of an odd number of
them, and of an even number the mean of the two around the middle, rounded down. -/
structure Middle (ws : List Int32) (mid : Int32) : Prop where
  odd : ws.length % 2 = 1 → ws[ws.length / 2]? = some mid
  even : ws.length % 2 = 0 → ∃ lower upper, ws[ws.length / 2 - 1]? = some lower ∧
    ws[ws.length / 2]? = some upper ∧ mid.toInt = ⌊((lower.toInt + upper.toInt : ℤ) : ℚ) / 2⌋

theorem middle_of_median? {mid : Int32} (h : median? values = some mid) :
    Middle (sort values) mid := by
  obtain ⟨hne, hfit⟩ := of_median? h
  obtain ⟨lower, upper, hc⟩ := exists_central hne
  have hmean := (median?_eq_some_iff hfit hc).mp h
  constructor
  · intro hodd
    rw [length_sort] at hodd ⊢
    cases hc.eq_of_odd hodd
    have hmid : lower = mid := Int32.toInt_inj.mp (by omega)
    rw [← hmid]
    exact hc.upper
  · intro heven
    rw [length_sort] at heven ⊢
    refine ⟨lower, upper, hc.below_of_even heven, hc.upper, ?_⟩
    rw [← hmean]
    exact (Rat.floor_intCast_div_natCast _ 2).symm

/-- Values that fit are put in order in the front of any buffer, what stands
behind them stays, and the median is the middle of the front. More values than fit
are not sorted, and have no median, as no values have none. -/
theorem median_of_sorted_front (values : List Int32) (buf : Buffer) :
    (values.length ≤ voteCapacity → ∃ buf', sortInto? values buf = some buf' ∧
        (buf'.front values.length).Pairwise (· ≤ ·) ∧
        (buf'.front values.length).Perm values ∧
        (∀ i (_ : i < voteCapacity), values.length ≤ i → buf'[i] = buf[i]) ∧
        (values ≠ [] → ∃ mid, median? values = some mid ∧
          Middle (buf'.front values.length) mid)) ∧
      (voteCapacity < values.length → sortInto? values buf = none) ∧
      (median? values = none ↔ values = [] ∨ voteCapacity < values.length) := by
  refine ⟨fun hfit => ?_, sortInto?_eq_none_iff.mpr, median?_eq_none_iff⟩
  obtain ⟨buf', hbuf, hordered, hperm, hbehind⟩ := exists_sortInto? buf hfit
  refine ⟨buf', hbuf, hordered, hperm, hbehind, fun hne => ?_⟩
  have hsome := median?_eq_none_iff.not.mpr (not_or.mpr ⟨hne, Nat.not_lt.mpr hfit⟩)
  obtain ⟨mid, hmid⟩ := Option.ne_none_iff_exists'.mp hsome
  rw [eq_sort hordered hperm]
  exact ⟨mid, hmid, middle_of_median? hmid⟩

/-- Six values in a buffer of ones: the mean of the two in the middle is below
zero and rounded down, and two ones are left. -/
theorem median_of_sorted_ones :
    (∃ buf', sortInto? [4, -7, -2, -5, 4, -9] (Vector.replicate voteCapacity 1) = some buf' ∧
        buf'.toList = [-9, -7, -5, -2, 4, 4, 1, 1] ∧ Middle (buf'.front 6) (-4)) ∧
      sortInto? (List.replicate 9 5) (Vector.replicate voteCapacity 1) = none := by
  obtain ⟨buf', hbuf, -, -, -, hmiddle⟩ :=
    (median_of_sorted_front [4, -7, -2, -5, 4, -9] (Vector.replicate voteCapacity 1)).1 (by decide)
  obtain ⟨mid, hmid, hmiddle⟩ := hmiddle (by decide)
  have heq : mid = -4 := Option.some.inj (hmid.symm.trans (by decide))
  have hlist : buf'.toList = [-9, -7, -5, -2, 4, 4, 1, 1] := by
    have hsorted := congrArg (Option.map Vector.toList) hbuf.symm
    exact Option.some.inj (hsorted.trans (by decide))
  exact ⟨⟨buf', hbuf, hlist, heq ▸ hmiddle⟩,
    (median_of_sorted_front (List.replicate 9 5) _).2.1 (by decide)⟩

end SignalGuard.Vote
