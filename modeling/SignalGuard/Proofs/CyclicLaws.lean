import SignalGuard.Cyclic

/-!
# What the cyclic outputs emit

A visit is idle, fires or drops the firing. `Cyclic.sweepFrom_events`: a pass
emits the events of the due outputs in order, up to the room that is left in
the buffer. Where there is room for all of them, the deadlines of the due
outputs advance and the others stay (`Cyclic.sweepFrom_next`).
-/

namespace SignalGuard

namespace OutputBuffer

variable {b b' : OutputBuffer} {event : OutputEvent}

theorem length_le (b : OutputBuffer) : b.toList.length ≤ bufferCapacity := b.size_le

theorem length_of_full (h : b.push? event = none) : b.toList.length = bufferCapacity :=
  push?_eq_none_iff.mp h

theorem length_of_push? (h : b.push? event = some b') :
    b'.toList.length = b.toList.length + 1 := by
  rw [toList_push? h, List.length_append, List.length_singleton]

end OutputBuffer

namespace Cyclic

/-- What the output emits when it fires: the value of its source under the
address that is configured for it, at the time of the step. -/
def emission? (t : SignalTable) (now : Time) (c : Cyclic) : Option OutputEvent :=
  (t.get? c.config.source).map fun source =>
    { kind := c.config.kind
      targetId := c.config.targetId
      deviceIndex := c.config.deviceIndex
      value := source.value
      flags := c.config.flags
      timestamp := now }

variable {t : SignalTable} {now : Time} {c : Cyclic} {b b' : OutputBuffer} {r : StepReport}
  {event : OutputEvent}

theorem visit_idle (i : Nat) (h : c.due now = false) : c.visit t now i (b, r) = (c, b, r) := by
  simp [visit, h]

theorem visit_fires (i : Nat) (h : c.due now) (he : c.emission? t now = some event)
    (hb : b.push? event = some b') :
    c.visit t now i (b, r) =
      (c.advance, b', { r with outputsEmitted := r.outputsEmitted.succ }) := by
  obtain ⟨source, hs, rfl⟩ := Option.map_eq_some_iff.mp he
  simp [visit, CyclicConfig.event, h, hs, hb]

theorem visit_drops (i : Nat) (h : c.due now) (he : c.emission? t now = some event)
    (hb : b.push? event = none) :
    c.visit t now i (b, r) = (c, b, { r with outputsDropped := r.outputsDropped.succ }) := by
  obtain ⟨source, hs, rfl⟩ := Option.map_eq_some_iff.mp he
  simp [visit, CyclicConfig.event, h, hs, hb]

/-- The pass emits for the first due outputs, as many as there is room for. -/
theorem sweepFrom_events (i : Nat) {cs : List Cyclic}
    (h : ∀ c ∈ cs, (c.emission? t now).isSome) :
    (sweepFrom (visit t now) i cs (b, r)).2.1.toList.map some =
      b.toList.map some ++
        ((cs.filter (·.due now)).take (bufferCapacity - b.toList.length)).map
          (emission? t now) := by
  induction cs generalizing i b r with
  | nil => simp
  | cons c cs ih =>
    obtain ⟨hc, hcs⟩ := List.forall_mem_cons.mp h
    rw [sweepFrom_cons]
    cases hdue : c.due now with
    | false =>
      rw [visit_idle i hdue, ih (i + 1) hcs, List.filter_cons_of_neg (by simp [hdue])]
    | true =>
      obtain ⟨event, hevent⟩ := Option.isSome_iff_exists.mp hc
      rw [List.filter_cons_of_pos (p := fun c : Cyclic => c.due now) hdue]
      cases hpush : b.push? event with
      | none =>
        have hfull : bufferCapacity - b.toList.length = 0 := by
          rw [OutputBuffer.length_of_full hpush, Nat.sub_self]
        rw [visit_drops i hdue hevent hpush, ih (i + 1) hcs, hfull, List.take_zero, List.take_zero]
      | some b' =>
        have hroom : bufferCapacity - b.toList.length =
            (bufferCapacity - b'.toList.length) + 1 := by
          have := b'.length_le
          rw [OutputBuffer.length_of_push? hpush] at this ⊢
          omega
        rw [visit_fires i hdue hevent hpush, ih (i + 1) hcs, hroom, List.take_succ_cons,
          OutputBuffer.toList_push? hpush]
        simp [hevent]

/-- The output after a step that had room for its event. -/
def next (now : Time) (c : Cyclic) : Cyclic := if c.due now then c.advance else c

theorem sweepFrom_next (i : Nat) {cs : List Cyclic} (h : ∀ c ∈ cs, (c.emission? t now).isSome)
    (hroom : b.toList.length + cs.length ≤ bufferCapacity) :
    (sweepFrom (visit t now) i cs (b, r)).1 = cs.map (next now) := by
  induction cs generalizing i b r with
  | nil => rfl
  | cons c cs ih =>
    obtain ⟨hc, hcs⟩ := List.forall_mem_cons.mp h
    rw [List.length_cons] at hroom
    rw [sweepFrom_cons, List.map_cons]
    cases hdue : c.due now with
    | false =>
      have hnext : c.next now = c := by simp [next, hdue]
      rw [visit_idle i hdue, ih (i + 1) hcs (by omega), hnext]
    | true =>
      obtain ⟨event, hevent⟩ := Option.isSome_iff_exists.mp hc
      have hnext : c.next now = c.advance := by simp [next, hdue]
      cases hpush : b.push? event with
      | none =>
        have hfull := OutputBuffer.length_of_full hpush
        omega
      | some b' =>
        have hlength := OutputBuffer.length_of_push? hpush
        rw [visit_fires i hdue hevent hpush, ih (i + 1) hcs (by omega), hnext]

/-- The counter of emitted events goes with the buffer. -/
theorem sweepFrom_outputsEmitted (i : Nat) (cs : List Cyclic) :
    ∃ n, (sweepFrom (visit t now) i cs (b, r)).2.1.toList.length = b.toList.length + n ∧
      (sweepFrom (visit t now) i cs (b, r)).2.2.outputsEmitted.toNat =
        min (UInt32.size - 1) (r.outputsEmitted.toNat + n) := by
  refine sweepFrom_preserves (P := fun s : OutputBuffer × StepReport => ∃ n,
    s.1.toList.length = b.toList.length + n ∧
      s.2.outputsEmitted.toNat = min (UInt32.size - 1) (r.outputsEmitted.toNat + n))
    (fun j c s hs => ?_) i cs ?_
  · obtain ⟨b', r'⟩ := s
    obtain ⟨n, hlength, hcount⟩ := hs
    simp only [visit]
    split
    · split
      · exact ⟨n, hlength, hcount⟩
      · split
        · next hpush =>
          refine ⟨n + 1, ?_, ?_⟩
          · rw [OutputBuffer.length_of_push? hpush, hlength, Nat.add_assoc]
          · rw [Counter.toNat_succ, hcount]
            omega
        · exact ⟨n, hlength, hcount⟩
    · exact ⟨n, hlength, hcount⟩
  · exact ⟨0, rfl, (Nat.min_eq_right (Nat.le_sub_one_of_lt r.outputsEmitted.toNat_lt_size)).symm⟩

end Cyclic

/-- Where no more outputs are configured than the buffer can hold, all due ones
emit. -/
theorem runCyclic_events {cs : List Cyclic} {t : SignalTable} {now : Time} {r : StepReport}
    (hfit : cs.length ≤ bufferCapacity) (h : ∀ c ∈ cs, (c.emission? t now).isSome) :
    (runCyclic cs t now .empty r).2.1.toList.map some =
      (cs.filter (·.due now)).map (Cyclic.emission? t now) := by
  have hdue : (cs.filter (·.due now)).length ≤ bufferCapacity :=
    Nat.le_trans (List.length_filter_le _ _) hfit
  have hempty : OutputBuffer.empty.toList = [] := rfl
  rw [runCyclic, sweep, Cyclic.sweepFrom_events 0 h, hempty, List.map_nil, List.nil_append,
    List.length_nil, Nat.sub_zero, List.take_of_length_le hdue]

end SignalGuard
