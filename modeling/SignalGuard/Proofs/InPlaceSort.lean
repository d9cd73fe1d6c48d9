import SignalGuard.Vote.Median

/-!
# Sorting in the front of a buffer

While a value sinks, the entries before its place and those it has passed are in
order among each other; only what stands before its place may still be larger
than it (`Vote.Buffer.OrderedBut`). Every swap keeps this, and it is the order
itself once the swapping stops. Swaps rearrange the buffer and stay within the
front that is sorted, so `Vote.sortInto?` leaves a rearrangement of the values
there and everything behind them as it was (`Vote.exists_sortInto?`).
-/

namespace SignalGuard.Vote

namespace Buffer

variable {buf : Buffer} {place count : Nat}

theorem sink_succ (buf : Buffer) (h : place + 1 < voteCapacity) :
    buf.sink (place + 1) h =
      if buf[place] > buf[place + 1] then
        sink (buf.swap place (place + 1)) place (Nat.lt_of_succ_lt h)
      else buf := rfl

-- ---------------------------------------------------------------------------
-- Order
-- ---------------------------------------------------------------------------

/-- The first entries are in order. -/
def Ordered (buf : Buffer) (count : Nat) : Prop :=
  ∀ i j (_ : i < j) (_ : j < voteCapacity), j < count → buf[i] ≤ buf[j]

/-- The first entries are in order, but the one at the place may be smaller than
those before it. -/
def OrderedBut (buf : Buffer) (place count : Nat) : Prop :=
  ∀ i j (_ : i < j) (_ : j < voteCapacity), j < count → j ≠ place → buf[i] ≤ buf[j]

theorem Ordered.next (ho : buf.Ordered count) : buf.OrderedBut count (count + 1) := by
  intro i j hij hj hcount hne
  exact ho i j hij hj (by omega)

theorem OrderedBut.swap (ho : buf.OrderedBut (place + 1) count) (h : place + 1 < voteCapacity)
    (hgt : buf[place] > buf[place + 1]) :
    OrderedBut (buf.swap place (place + 1)) place count := by
  intro i j hij hj hcount hne
  rcases Nat.lt_trichotomy j (place + 1) with hbefore | rfl | hbehind
  · rw [Vector.getElem_swap_of_ne (by omega) (by omega),
      Vector.getElem_swap_of_ne (by omega) (by omega)]
    exact ho i j hij hj hcount (by omega)
  · rw [Vector.getElem_swap_right]
    rcases Nat.lt_or_eq_of_le (Nat.le_of_lt_succ hij) with hlt | rfl
    · rw [Vector.getElem_swap_of_ne (by omega) (by omega)]
      exact ho i place hlt (by omega) (by omega) (by omega)
    · rw [Vector.getElem_swap_left]
      exact Int32.le_of_lt hgt
  · -- the entry behind both bounds each of them
    have hlast := ho (place + 1) j hbehind hj hcount (by omega)
    have hfirst := ho place j (by omega) hj hcount (by omega)
    rw [Vector.getElem_swap, Vector.getElem_swap_of_ne (k := j) (by omega) (by omega)]
    split
    · exact hlast
    · split
      · exact hfirst
      · exact ho i j hij hj hcount (by omega)

theorem OrderedBut.settled (ho : buf.OrderedBut (place + 1) count) (h : place + 1 < voteCapacity)
    (hle : buf[place] ≤ buf[place + 1]) : buf.Ordered count := by
  intro i j hij hj hcount
  by_cases hsunk : j = place + 1
  · subst hsunk
    rcases Nat.lt_or_eq_of_le (Nat.le_of_lt_succ hij) with hlt | rfl
    · exact Int32.le_trans (ho i place hlt (by omega) (by omega) (by omega)) hle
    · exact hle
  · exact ho i j hij hj hcount hsunk

theorem OrderedBut.sink (ho : buf.OrderedBut place count) (h : place < voteCapacity) :
    (buf.sink place h).Ordered count := by
  induction place generalizing buf with
  | zero =>
    intro i j hij hj hcount
    exact ho i j hij hj hcount (by omega)
  | succ place ih =>
    rw [sink_succ]
    split
    · next hgt => exact ih (ho.swap h hgt) _
    · next hle => exact ho.settled h (Int32.not_lt.mp hle)

theorem ordered_sortFront (buf : Buffer) (h : count ≤ voteCapacity) :
    (buf.sortFront count h).Ordered count := by
  induction count with
  | zero => exact fun _ _ _ _ => nofun
  | succ count ih => exact (ih (Nat.le_of_succ_le h)).next.sink h

-- ---------------------------------------------------------------------------
-- Rearrangement
-- ---------------------------------------------------------------------------

theorem sink_perm (buf : Buffer) (h : place < voteCapacity) : (buf.sink place h).Perm buf := by
  induction place generalizing buf with
  | zero => exact .refl _
  | succ place ih =>
    rw [sink_succ]
    split
    · exact (ih _ _).trans (Vector.swap_perm (by omega) h)
    · exact .refl _

theorem sortFront_perm (buf : Buffer) (h : count ≤ voteCapacity) :
    (buf.sortFront count h).Perm buf := by
  induction count with
  | zero => exact .refl _
  | succ count ih => exact (sink_perm _ h).trans (ih _)

/-- What stands behind a sinking value does not move. -/
theorem getElem_sink (buf : Buffer) (h : place < voteCapacity) {i : Nat} (hi : i < voteCapacity)
    (hplace : place < i) : (buf.sink place h)[i] = buf[i] := by
  induction place generalizing buf with
  | zero => rfl
  | succ place ih =>
    rw [sink_succ]
    split
    · rw [ih _ _ (by omega), Vector.getElem_swap_of_ne (by omega) (by omega)]
    · rfl

theorem getElem_sortFront (buf : Buffer) (h : count ≤ voteCapacity) {i : Nat}
    (hi : i < voteCapacity) (hcount : count ≤ i) : (buf.sortFront count h)[i] = buf[i] := by
  induction count with
  | zero => rfl
  | succ count ih => exact (getElem_sink _ h hi hcount).trans (ih _ (Nat.le_of_succ_le hcount))

-- ---------------------------------------------------------------------------
-- The front as a list
-- ---------------------------------------------------------------------------

theorem length_front (buf : Buffer) (h : count ≤ voteCapacity) :
    (buf.front count).length = count := by
  rw [front, List.length_take, Vector.length_toList, Nat.min_eq_left h]

theorem getElem_front (buf : Buffer) {i : Nat} (hi : i < (buf.front count).length)
    (hcap : i < voteCapacity) : (buf.front count)[i] = buf[i] := by
  simp [front]

theorem Ordered.pairwise_front (ho : buf.Ordered count) : (buf.front count).Pairwise (· ≤ ·) := by
  rw [List.pairwise_iff_getElem]
  intro i j hi hj hij
  have hbounds : j < count ∧ j < voteCapacity := by simpa [front, Nat.lt_min] using hj
  rw [getElem_front buf hi (by omega), getElem_front buf hj hbounds.2]
  exact ho i j hij hbounds.2 hbounds.1

/-- Rearranging a buffer without the places behind the front rearranges the front. -/
theorem front_perm {buf' : Buffer} (hperm : buf'.Perm buf)
    (hbehind : ∀ i (_ : i < voteCapacity), count ≤ i → buf'[i] = buf[i]) :
    (buf'.front count).Perm (buf.front count) := by
  have hdrop : buf'.toList.drop count = buf.toList.drop count := by
    apply List.ext_getElem (by simp)
    intro i hi _
    have hcap : count + i < voteCapacity := by simpa [Nat.lt_sub_iff_add_lt'] using hi
    simpa using hbehind (count + i) hcap (Nat.le_add_right _ _)
  have hlists := hperm.toList
  rw [← List.take_append_drop count buf'.toList, ← List.take_append_drop count buf.toList,
    hdrop] at hlists
  exact (List.perm_append_right_iff _).mp hlists

theorem front_load (buf : Buffer) {values : List Int32} (h : values.length ≤ voteCapacity) :
    (buf.load values).front values.length = values := by
  apply List.ext_getElem (length_front _ h)
  intro i hi hvalues
  rw [getElem_front _ hi (by omega), load, Vector.getElem_mapIdx,
    List.getElem?_eq_getElem hvalues, Option.getD_some]

theorem getElem_load (buf : Buffer) {values : List Int32} {i : Nat} (hi : i < voteCapacity)
    (hbehind : values.length ≤ i) : (buf.load values)[i] = buf[i] := by
  rw [load, Vector.getElem_mapIdx, List.getElem?_eq_none hbehind, Option.getD_none]

end Buffer

-- ---------------------------------------------------------------------------
-- Sorted values
-- ---------------------------------------------------------------------------

variable {values : List Int32}

theorem sortInto?_eq_none_iff {buf : Buffer} :
    sortInto? values buf = none ↔ voteCapacity < values.length := by
  simp [sortInto?]

theorem exists_sortInto? (buf : Buffer) (h : values.length ≤ voteCapacity) :
    ∃ buf', sortInto? values buf = some buf' ∧
      (buf'.front values.length).Pairwise (· ≤ ·) ∧
      (buf'.front values.length).Perm values ∧
      ∀ i (_ : i < voteCapacity), values.length ≤ i → buf'[i] = buf[i] := by
  refine ⟨_, dif_pos h, (Buffer.ordered_sortFront _ h).pairwise_front, ?_, ?_⟩
  · have hfront := Buffer.front_perm (Buffer.sortFront_perm (buf.load values) h) fun i hi =>
      Buffer.getElem_sortFront _ h hi
    rwa [Buffer.front_load buf h] at hfront
  · intro i hi hbehind
    rw [Buffer.getElem_sortFront _ h hi hbehind, Buffer.getElem_load buf hi hbehind]

/-- The values in nondecreasing order, however many they are. -/
def sort (values : List Int32) : List Int32 := values.mergeSort

theorem sort_perm (values : List Int32) : (sort values).Perm values := List.mergeSort_perm _ _

theorem sort_pairwise (values : List Int32) : (sort values).Pairwise (· ≤ ·) := by
  have htrans (a b c : Int32) (hab : decide (a ≤ b)) (hbc : decide (b ≤ c)) : decide (a ≤ c) :=
    decide_eq_true (Int32.le_trans (of_decide_eq_true hab) (of_decide_eq_true hbc))
  have htotal (a b : Int32) : decide (a ≤ b) || decide (b ≤ a) := by
    simpa using Int32.le_total a b
  exact (List.pairwise_mergeSort htrans htotal values).imp of_decide_eq_true

theorem length_sort (values : List Int32) : (sort values).length = values.length :=
  (sort_perm values).length_eq

/-- A list has one nondecreasing rearrangement. -/
theorem eq_sort {ws : List Int32} (hs : ws.Pairwise (· ≤ ·)) (hp : ws.Perm values) :
    ws = sort values :=
  (hp.trans (sort_perm values).symm).eq_of_pairwise (fun _ _ _ _ => Int32.le_antisymm) hs
    (sort_pairwise values)

theorem sorted?_eq (values : List Int32) :
    sorted? values = if values.length ≤ voteCapacity then some (sort values) else none := by
  split
  · next h =>
    obtain ⟨buf, hbuf, hordered, hperm, -⟩ := exists_sortInto? .zero h
    rw [sorted?, hbuf, Option.map_some, eq_sort hordered hperm]
  · next h => rw [sorted?, sortInto?_eq_none_iff.mpr (Nat.not_le.mp h), Option.map_none]

end SignalGuard.Vote
