import SignalGuard.Proofs.CounterLaws
import SignalGuard.Proofs.Firings

/-!
# A full buffer loses no firing

Where the buffer runs out in the middle of a pass, the outputs before that place
have fired and those behind it are left alone: their deadlines stay, so they are
due again in the next pass (`runCyclic_fires`). This holds for any number of
outputs and for a buffer that is filled to any height.
-/

namespace SignalGuard

namespace Cyclic

variable {t : SignalTable} {now : Time} {cs : List Cyclic} {b : OutputBuffer} {r : StepReport}

-- ---------------------------------------------------------------------------
-- How many fire
-- ---------------------------------------------------------------------------

/-- The number of due outputs before a place. -/
def dueBefore (now : Time) (cs : List Cyclic) (i : Nat) : Nat := (cs.take i).countP (·.due now)

/-- The number of due outputs that find room in the buffer. -/
def firings (now : Time) (cs : List Cyclic) (b : OutputBuffer) : Nat :=
  min (cs.countP (·.due now)) (bufferCapacity - b.toList.length)

theorem dueBefore_lt {i : Nat} {c : Cyclic} (hi : cs[i]? = some c) (hdue : c.due now) :
    dueBefore now cs i < cs.countP (·.due now) := by
  obtain ⟨hlt, rfl⟩ := List.getElem?_eq_some_iff.mp hi
  have hsplit : cs = cs.take i ++ cs[i] :: cs.drop (i + 1) := by simp
  calc dueBefore now cs i
      < (cs.take i).countP (·.due now) + (cs[i] :: cs.drop (i + 1)).countP (·.due now) := by
        rw [List.countP_cons_of_pos (p := fun c : Cyclic => c.due now) hdue, dueBefore]
        omega
    _ = cs.countP (·.due now) := by rw [← List.countP_append, ← hsplit]

/-- An output fires if fewer than so many due ones stand before it. -/
theorem dueBefore_lt_firings_iff {i : Nat} {c : Cyclic} (hi : cs[i]? = some c)
    (hdue : c.due now) :
    dueBefore now cs i < firings now cs b ↔
      dueBefore now cs i < bufferCapacity - b.toList.length := by
  have := dueBefore_lt hi hdue
  unfold firings
  omega

theorem firings_eq_zero (h : b.toList.length = bufferCapacity) : firings now cs b = 0 := by
  simp [firings, h]

-- ---------------------------------------------------------------------------
-- One pass
-- ---------------------------------------------------------------------------

theorem length_sweepFrom_events (i : Nat) (h : ∀ c ∈ cs, (c.emission? t now).isSome) :
    (sweepFrom (visit t now) i cs (b, r)).2.1.toList.length =
      b.toList.length + firings now cs b := by
  have hevents := congrArg List.length (sweepFrom_events (b := b) (r := r) i h)
  simp only [List.length_map, List.length_append, List.length_take] at hevents
  rw [hevents, firings, List.countP_eq_length_filter, Nat.min_comm]

/-- A visit moves the deadline of a due output if the buffer has room. -/
theorem visit_fst (i : Nat) {c : Cyclic} (hc : (c.emission? t now).isSome) :
    (c.visit t now i (b, r)).1 =
      if c.due now ∧ b.toList.length < bufferCapacity then c.advance else c := by
  obtain ⟨event, hevent⟩ := Option.isSome_iff_exists.mp hc
  cases hdue : c.due now with
  | false => simp [visit_idle i hdue]
  | true =>
    cases hpush : b.push? event with
    | none =>
      have hfull := OutputBuffer.length_of_full hpush
      rw [visit_drops i hdue hevent hpush, if_neg (by omega)]
    | some b' =>
      have hroom : b.toList.length < bufferCapacity := by
        have hle := b'.length_le
        have hlength := OutputBuffer.length_of_push? hpush
        omega
      rw [visit_fires i hdue hevent hpush, if_pos ⟨rfl, hroom⟩]

theorem getElem?_sweepFrom_visit {i : Nat} {c : Cyclic}
    (h : ∀ c ∈ cs, (c.emission? t now).isSome) (hi : cs[i]? = some c) :
    (sweepFrom (visit t now) 0 cs (b, r)).1[i]? =
      some (if c.due now ∧ dueBefore now cs i < firings now cs b then c.advance else c) := by
  have hc := h c (List.mem_of_getElem? hi)
  have htake : ∀ c ∈ cs.take i, (c.emission? t now).isSome := fun c hc =>
    h c (List.mem_of_mem_take hc)
  have hlength := length_sweepFrom_events (b := b) (r := r) 0 htake
  rw [getElem?_sweepFrom, hi, Option.map_some, visit_fst _ hc, hlength]
  cases hdue : c.due now with
  | false => simp
  | true =>
    have hroom : b.toList.length + firings now (cs.take i) b < bufferCapacity ↔
        dueBefore now cs i < firings now cs b := by
      have hle := b.length_le
      rw [dueBefore_lt_firings_iff hi hdue, firings, ← dueBefore]
      omega
    simp only [true_and, hroom]

theorem sweepFrom_report (i : Nat) (h : ∀ c ∈ cs, (c.emission? t now).isSome) :
    (sweepFrom (visit t now) i cs (b, r)).2.2 =
      { r with
        outputsEmitted := r.outputsEmitted.addNat (firings now cs b)
        outputsDropped := r.outputsDropped.addNat
          (cs.countP (·.due now) - firings now cs b) } := by
  induction cs generalizing i b r with
  | nil => simp [firings]
  | cons c cs ih =>
    obtain ⟨hc, hcs⟩ := List.forall_mem_cons.mp h
    rw [sweepFrom_cons]
    cases hdue : c.due now with
    | false =>
      have hcount : (c :: cs).countP (·.due now) = cs.countP (·.due now) :=
        List.countP_cons_of_neg (by simp [hdue])
      rw [visit_idle i hdue, ih (i + 1) hcs, firings, firings, hcount]
    | true =>
      have hcount : (c :: cs).countP (·.due now) = cs.countP (·.due now) + 1 :=
        List.countP_cons_of_pos (p := fun c : Cyclic => c.due now) hdue
      obtain ⟨event, hevent⟩ := Option.isSome_iff_exists.mp hc
      cases hpush : b.push? event with
      | none =>
        have hfull := OutputBuffer.length_of_full hpush
        rw [visit_drops i hdue hevent hpush, ih (i + 1) hcs, firings_eq_zero hfull,
          firings_eq_zero hfull, hcount, Counter.succ_eq_addNat, Counter.addNat_addNat,
          Nat.sub_zero, Nat.sub_zero, Nat.add_comm]
      | some b' =>
        have hfirings : firings now (c :: cs) b = firings now cs b' + 1 := by
          have hle := b'.length_le
          have hlength := OutputBuffer.length_of_push? hpush
          unfold firings
          omega
        rw [visit_fires i hdue hevent hpush, ih (i + 1) hcs, hfirings, hcount,
          Counter.succ_eq_addNat, Counter.addNat_addNat, Nat.add_sub_add_right, Nat.add_comm 1]

end Cyclic

-- ---------------------------------------------------------------------------
-- Main statement
-- ---------------------------------------------------------------------------

open Cyclic (dueBefore firings emission?)

/-- A pass over `cs` has left `cs'`, filled the buffer and counted: the due
outputs that come first have fired, and the others wait. The table is only read. -/
structure FiresInTurn (t : SignalTable) (now : Time) (cs : List Cyclic) (b : OutputBuffer)
    (r : StepReport) (cs' : List Cyclic) (b' : OutputBuffer) (r' : StepReport) : Prop where
  events : ∃ appended, b'.toList = b.toList ++ appended ∧
    appended.map some = ((cs.filter (·.due now)).take (firings now cs b)).map (emission? t now)
  length : cs'.length = cs.length
  deadlines : ∀ i c, cs[i]? = some c → ∃ c', cs'[i]? = some c' ∧ c'.config = c.config ∧
    c'.deadline.toNat =
      if c.due now ∧ dueBefore now cs i < firings now cs b then
        min (c.deadline.toNat + c.config.period.toNat) (UInt64.size - 1)
      else c.deadline.toNat
  report : r' = { r with
    outputsEmitted := r.outputsEmitted.addNat (firings now cs b)
    outputsDropped := r.outputsDropped.addNat (cs.countP (·.due now) - firings now cs b) }
  retried : ∀ i c, cs[i]? = some c → c.due now → firings now cs b ≤ dueBefore now cs i →
    ∀ later, now ≤ later → ∃ c', cs'[i]? = some c' ∧ c'.due later

theorem Cyclic.due_mono {c : Cyclic} {now later : Time} (h : c.due now) (hle : now ≤ later) :
    c.due later := by
  simp only [due, Bool.and_eq_true, decide_eq_true_eq] at h ⊢
  exact ⟨h.1, UInt64.le_trans h.2 hle⟩

/-- As many due outputs fire as there is room for, in order; each of the others
is still due in any later pass. -/
theorem runCyclic_fires {t : SignalTable} {cs : List Cyclic} (now : Time) (b : OutputBuffer)
    (r : StepReport) (h : ∀ c ∈ cs, (t.get? c.config.source).isSome) :
    FiresInTurn t now cs b r (runCyclic cs t now b r).1 (runCyclic cs t now b r).2.1
      (runCyclic cs t now b r).2.2 := by
  have hsome : ∀ c ∈ cs, (c.emission? t now).isSome := fun c hc => by
    rw [emission?, Option.isSome_map]
    exact h c hc
  have hplace := fun i c hi => Cyclic.getElem?_sweepFrom_visit (b := b) (r := r) (i := i) (c := c)
    hsome hi
  constructor
  case events =>
    have hevents := Cyclic.sweepFrom_events (b := b) (r := r) 0 hsome
    obtain ⟨held, appended, hsplit, hheld, happended⟩ := List.map_eq_append_iff.mp hevents
    obtain rfl := (List.map_inj_right fun _ _ => Option.some.inj).mp hheld
    refine ⟨appended, hsplit, ?_⟩
    rw [happended, firings, List.countP_eq_length_filter, Nat.min_comm, ← List.take_take]
    simp
  case length => exact length_sweepFrom ..
  case deadlines =>
    intro i c hi
    refine ⟨_, hplace i c hi, ?_⟩
    split
    · exact ⟨rfl, Time.toNat_ofNatClamp _⟩
    · exact ⟨rfl, rfl⟩
  case report => exact Cyclic.sweepFrom_report 0 hsome
  case retried =>
    intro i c hi hdue hwaits later hlater
    refine ⟨c, ?_, Cyclic.due_mono hdue hlater⟩
    rw [runCyclic, sweep, hplace i c hi, if_neg (fun hfires => Nat.not_lt.mpr hwaits hfires.2)]

/-- Four outputs, of which all but the third are due at 20. -/
def rivals : List Cyclic := [
  .ofConfig (.ofSignal ⟨3⟩ 16 10),
  ⟨(CyclicConfig.ofSignal ⟨5⟩ 17 7), 20⟩,
  .ofConfig (.ofSignal ⟨6⟩ 18 100),
  .ofConfig ((CyclicConfig.ofSignal ⟨7⟩ 19 20).on .pwm 2)]

/-- A buffer that has room for one more event. -/
def almostFull : OutputBuffer :=
  ⟨Array.replicate 63 ((CyclicConfig.ofSignal ⟨1⟩ 1 1).event 9 0), by simp [bufferCapacity]⟩

theorem runCyclic_fires_rivals :
    (∀ c ∈ rivals, (SignalTable.empty.get? c.config.source).isSome) ∧
      firings 20 rivals almostFull = 1 ∧ rivals.countP (·.due 20) = 3 ∧
      FiresInTurn .empty 20 rivals almostFull .zero
        (runCyclic rivals .empty 20 almostFull .zero).1
        (runCyclic rivals .empty 20 almostFull .zero).2.1
        (runCyclic rivals .empty 20 almostFull .zero).2.2 :=
  have h : ∀ c ∈ rivals, (SignalTable.empty.get? c.config.source).isSome := by decide
  ⟨h, by decide +kernel, by decide, runCyclic_fires 20 almostFull .zero h⟩

end SignalGuard
