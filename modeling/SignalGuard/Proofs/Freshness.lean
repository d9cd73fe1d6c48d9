import Mathlib.Data.List.DropRight
import SignalGuard.Proofs.Sampling

/-!
# Staleness over whole runs

A signal that no enabled stage writes is written by events and by the host
alone. `Call.lastWrite` is the last such write since the engine was built or
reset. The slot holds its value and its time, and its status as well unless a
step has found the signal overdue since (`Engine.holds_after`).

What was overdue once stays overdue as long as no step goes back in time. Then
the slot can be told from the last write and the time of the step alone
(`Engine.reads_lastWrite`).
-/

namespace SignalGuard

-- ---------------------------------------------------------------------------
-- Calls
-- ---------------------------------------------------------------------------

namespace Call

/-- What the call writes to the signal from outside. -/
def writes (id : SignalId) : Call → List Event
  | .step _ events => Event.addressed id events
  | .set other value now => if other = id then [.ok id value now] else []
  | .reset => []

/-- The call neither writes the signal from outside nor resets the engine. -/
def LeavesAlone (id : SignalId) (call : Call) : Prop := call ≠ .reset ∧ call.writes id = []

instance (id : SignalId) (call : Call) : Decidable (LeavesAlone id call) :=
  inferInstanceAs (Decidable (call ≠ .reset ∧ call.writes id = []))

def stepTime? : Call → Option Time
  | .step now _ => some now
  | .set .. | .reset => none

def sinceReset (calls : List Call) : List Call := calls.rtakeWhile (· ≠ .reset)

def stepTimes (calls : List Call) : List Time := (sinceReset calls).filterMap stepTime?

/-- Since the last reset no step has gone back in time. -/
def Ordered (calls : List Call) : Prop := (stepTimes calls).Pairwise (· ≤ ·)

instance (calls : List Call) : Decidable (Ordered calls) :=
  inferInstanceAs (Decidable ((stepTimes calls).Pairwise (· ≤ ·)))

/-- The last write to the signal since the last reset. A signal that was not
written holds zero. -/
def lastWrite (id : SignalId) (calls : List Call) : Event :=
  ((sinceReset calls).flatMap (writes id)).getLastD (.ok id 0 0)

variable {calls : List Call} {call : Call} {id : SignalId}

theorem sinceReset_reset (calls : List Call) : sinceReset (calls ++ [.reset]) = [] := by
  simp [sinceReset]

theorem sinceReset_concat (h : call ≠ .reset) :
    sinceReset (calls ++ [call]) = sinceReset calls ++ [call] := by
  simp [sinceReset, h]

theorem stepTimes_concat (h : call ≠ .reset) :
    stepTimes (calls ++ [call]) = stepTimes calls ++ call.stepTime?.toList := by
  rw [stepTimes, sinceReset_concat h, List.filterMap_append]
  cases call <;> rfl

theorem lastWrite_concat (h : call ≠ .reset) :
    lastWrite id (calls ++ [call]) = (call.writes id).getLastD (lastWrite id calls) := by
  rw [lastWrite, sinceReset_concat h, List.flatMap_append, List.flatMap_singleton]
  simp [lastWrite, List.getLastD_eq_getLast?, List.getLast?_append]

/-- No earlier step was later. -/
theorem Ordered.le_now {now : Time} {events : List Event}
    (h : Ordered (calls ++ [.step now events])) : ∀ t ∈ stepTimes calls, t ≤ now := by
  rw [Ordered, stepTimes_concat (by simp), List.pairwise_append] at h
  exact fun t ht => h.2.2 t ht now List.mem_cons_self

end Call

-- ---------------------------------------------------------------------------
-- Slots
-- ---------------------------------------------------------------------------

namespace Signal

/-- The slot holds what was written, but its status may have given way to a
timeout at one of the times. -/
structure Holds (threshold : Time) (w : Event) (times : List Time) (s : Signal) : Prop where
  stalenessThreshold : s.stalenessThreshold = threshold
  value : s.value = w.value
  timestamp : s.timestamp = w.timestamp
  status : s.status = w.status ∨ s.status = .timeout ∧ ∃ t ∈ times, s.overdue t

/-- What a step at `now` makes of the last write. -/
structure Reads (threshold : Time) (w : Event) (now : Time) (s : Signal) : Prop where
  stalenessThreshold : s.stalenessThreshold = threshold
  value : s.value = w.value
  timestamp : s.timestamp = w.timestamp
  status : s.status =
    if 0 < threshold ∧ threshold.toNat < now.toNat - w.timestamp.toNat then .timeout else w.status

variable {threshold now : Time} {w : Event} {times : List Time} {s : Signal}

theorem overdue_iff : s.overdue now ↔
    0 < s.stalenessThreshold ∧ s.stalenessThreshold.toNat < now.toNat - s.timestamp.toNat := by
  simp [overdue, age, UInt64.pos_iff_ne_zero]

theorem overdue_mono {t : Time} (h : t ≤ now) (ho : s.overdue t) : s.overdue now := by
  rw [UInt64.le_iff_toNat_le] at h
  obtain ⟨hpos, hage⟩ := overdue_iff.mp ho
  exact overdue_iff.mpr ⟨hpos, by omega⟩

theorem overdue_expire (t now : Time) (s : Signal) : (s.expire now).overdue t = s.overdue t := by
  unfold expire
  split <;> rfl

theorem Holds.receiveAll (h : s.Holds threshold w times) (es : List Event) :
    (s.clean.receiveAll es).Holds threshold (es.getLastD w) times := by
  have hthreshold (es : List Event) :
      (s.clean.receiveAll es).stalenessThreshold = s.stalenessThreshold :=
    List.foldlRecOn (motive := fun s' : Signal => s'.stalenessThreshold = s.stalenessThreshold)
      es receive rfl fun s' hs' _ _ => hs'
  rcases List.eq_nil_or_concat es with rfl | ⟨es, e, rfl⟩
  · exact ⟨h.stalenessThreshold, h.value, h.timestamp, h.status⟩
  · have hlast : (es.concat e).getLastD w = e := by simp
    rw [hlast, List.concat_eq_append, receiveAll_concat]
    exact ⟨(hthreshold es).trans h.stalenessThreshold, rfl, rfl, .inl rfl⟩

theorem Holds.expire (h : s.Holds threshold w times) (now : Time) :
    (s.expire now).Holds threshold w (times ++ [now]) where
  stalenessThreshold := by rw [expire_stalenessThreshold, h.stalenessThreshold]
  value := by rw [expire_value, h.value]
  timestamp := by rw [expire_timestamp, h.timestamp]
  status := by
    simp only [expire_status, overdue_expire]
    split
    · next ho => exact .inr ⟨rfl, now, List.mem_append_right _ List.mem_cons_self, ho⟩
    · refine h.status.imp_right fun ⟨hs, t, ht, ho⟩ => ?_
      exact ⟨hs, t, List.mem_append_left _ ht, ho⟩

/-- A timeout of an earlier step is a timeout now. -/
theorem Holds.reads (h : s.Holds threshold w times) (htimes : ∀ t ∈ times, t ≤ now) :
    (s.expire now).Reads threshold w now where
  stalenessThreshold := by rw [expire_stalenessThreshold, h.stalenessThreshold]
  value := by rw [expire_value, h.value]
  timestamp := by rw [expire_timestamp, h.timestamp]
  status := by
    rw [expire_status, ← h.timestamp, ← h.stalenessThreshold]
    by_cases ho : s.overdue now
    · rw [if_pos ho, if_pos (overdue_iff.mp ho)]
    · rw [if_neg ho, if_neg (overdue_iff.not.mp ho)]
      refine h.status.resolve_right ?_
      rintro ⟨-, t, ht, hot⟩
      exact ho (overdue_mono (htimes t ht) hot)

end Signal

-- ---------------------------------------------------------------------------
-- Tables
-- ---------------------------------------------------------------------------

/-- The threshold of the signal. A later entry wins over an earlier one, and
zero turns the check off where there is none. -/
def EngineConfig.threshold (c : EngineConfig) (id : SignalId) : Time :=
  ((c.signals.filter (·.id = id)).getLast?.map (·.stalenessThreshold)).getD 0

theorem SignalTable.get?_ofConfigs {id : SignalId} (h : id.isValid) (signals : List SignalConfig) :
    (SignalTable.ofConfigs signals).get? id =
      some { Signal.zero with stalenessThreshold :=
        ((signals.filter (·.id = id)).getLast?.map (·.stalenessThreshold)).getD 0 } := by
  induction signals using List.reverseRecOn with
  | nil =>
    have hlt : id.index < tableSize := by simpa [SignalId.isValid] using h
    simp [ofConfigs, get?, SignalTable.empty, hlt, Signal.zero]
  | append_singleton signals config ih =>
    have hfold : SignalTable.ofConfigs (signals ++ [config]) =
        (SignalTable.ofConfigs signals).modify config.id fun s =>
          { s with stalenessThreshold := config.stalenessThreshold } := by
      simp [ofConfigs]
    rw [hfold, get?_modify, ih]
    by_cases hid : config.id = id <;> simp [hid]

-- ---------------------------------------------------------------------------
-- Engines
-- ---------------------------------------------------------------------------

namespace Engine

variable {c : EngineConfig} {e : Engine} {id : SignalId}

theorem signal?_setSignal (e : Engine) (id other : SignalId) (value : Int32) (now : Time) :
    (e.setSignal other value now).signal? id =
      if other = id then
        (e.signal? id).map fun s => { s with value, status := .ok, timestamp := now, updated := true }
      else e.signal? id := by
  have htable : (e.setSignal other value now).table = e.table.modify other fun s =>
      { s with value, status := .ok, timestamp := now, updated := true } := by
    simp only [setSignal, SignalTable.set?]
    cases h : e.table.get? other with
    | none => exact (SignalTable.modify_of_none h _).symm
    | some s => rfl
  rw [signal?, htable]
  exact e.table.get?_modify ..

/-- A step does to the signal what its events and the staleness check do. -/
def OnlySamples (e : Engine) (id : SignalId) : Prop :=
  ∀ now events, (e.step now events).1.signal? id =
    (e.signal? id).map fun s => (s.clean.receiveAll (Event.addressed id events)).expire now

theorem ConfiguredBy.onlySamples (hc : e.ConfiguredBy c) (hfree : ∀ w ∈ c.wires, w.output ≠ id) :
    e.OnlySamples id := by
  intro now events
  rw [signal?, hc.get?_step_of_ne hfree, get?_sampled_ingested, get?_ingested, Option.map_map]
  rfl

theorem holds_after (hid : id.isValid) (hfree : ∀ w ∈ c.wires, w.output ≠ id)
    (calls : List Call) :
    ∃ s, (c.toEngine.after calls).signal? id = some s ∧
      s.Holds (c.threshold id) (Call.lastWrite id calls) (Call.stepTimes calls) := by
  have hzero (signals : List SignalConfig) (hs : signals = c.signals) :
      ∃ s, (SignalTable.ofConfigs signals).get? id = some s ∧
        s.Holds (c.threshold id) (.ok id 0 0) [] := by
    subst hs
    exact ⟨_, SignalTable.get?_ofConfigs hid c.signals, rfl, rfl, rfl, .inl rfl⟩
  induction calls using List.reverseRecOn with
  | nil => exact hzero c.signals rfl
  | append_singleton calls call ih =>
    obtain ⟨s, hs, h⟩ := ih
    have hc := configuredBy_after (configuredBy_toEngine c) calls
    rw [after_concat]
    cases call with
    | step now events =>
      rw [Call.lastWrite_concat (by simp), Call.stepTimes_concat (by simp), answer,
        hc.onlySamples hfree now events, hs]
      exact ⟨_, rfl, (h.receiveAll (Event.addressed id events)).expire now⟩
    | set other value now =>
      rw [Call.lastWrite_concat (by simp), Call.stepTimes_concat (by simp), answer,
        signal?_setSignal, hs, Call.stepTime?, Option.toList_none, List.append_nil, Call.writes]
      split
      · exact ⟨_, rfl, h.stalenessThreshold, rfl, rfl, .inl rfl⟩
      · exact ⟨s, rfl, h⟩
    | reset =>
      rw [Call.lastWrite, Call.stepTimes, Call.sinceReset_reset]
      exact hzero _ hc.signals

/-- A timeout of the signal outlasts all calls that leave it alone. -/
def KeepsTimeout (e : Engine) (id : SignalId) : Prop :=
  ∀ more : List Call, (∀ call ∈ more, call.LeavesAlone id) →
    (e.signal? id).map (·.status) = some .timeout →
    ((e.after more).signal? id).map (·.status) = some .timeout

theorem ConfiguredBy.keepsTimeout (hc : e.ConfiguredBy c) (hfree : ∀ w ∈ c.wires, w.output ≠ id) :
    e.KeepsTimeout id := by
  intro more hmore ht
  induction more generalizing e with
  | nil => exact ht
  | cons call more ih =>
    obtain ⟨⟨hreset, hwrites⟩, hmore⟩ := List.forall_mem_cons.mp hmore
    rw [after_cons]
    refine ih (hc.answer call) hmore ?_
    obtain ⟨s, hs, hstatus⟩ := Option.map_eq_some_iff.mp ht
    cases call with
    | step now events =>
      have hevents : Event.addressed id events = [] := hwrites
      rw [Engine.answer, hc.onlySamples hfree now events, hs, hevents, Option.map_some, Option.map_some,
        Signal.receiveAll_nil, Signal.expire_status]
      split
      · rfl
      · exact congrArg some hstatus
    | set other value now =>
      have hne : other ≠ id := by
        rintro rfl
        simp [Call.writes] at hwrites
      rw [Engine.answer, signal?_setSignal, if_neg hne]
      exact ht
    | reset => exact absurd rfl hreset

/-- After every step of an ordered run, a signal that no stage writes reads as
the last write and the time of the step say. -/
theorem reads_lastWrite (hb : c.build = .ok e) (hid : id.isValid)
    (hfree : ∀ w ∈ c.wires, w.output ≠ id) (calls : List Call) :
    (∀ now events, Call.Ordered (calls ++ [.step now events]) →
      ∃ s, ((e.after calls).step now events).1.signal? id = some s ∧
        s.Reads (c.threshold id) (Call.lastWrite id (calls ++ [.step now events])) now) ∧
      (e.after calls).OnlySamples id ∧ (e.after calls).KeepsTimeout id := by
  obtain ⟨-, rfl⟩ := EngineConfig.build_eq_ok_iff.mp hb
  have hc := configuredBy_after (configuredBy_toEngine c) calls
  refine ⟨fun now events hordered => ?_, hc.onlySamples hfree, hc.keepsTimeout hfree⟩
  obtain ⟨s, hs, h⟩ := holds_after hid hfree calls
  rw [hc.onlySamples hfree now events, hs, Call.lastWrite_concat (by simp)]
  exact ⟨_, rfl, (h.receiveAll (Event.addressed id events)).reads hordered.le_now⟩

/-- An input of the merge times out 50 ms after the last write since the reset. -/
theorem reads_lastWrite_cascade :
    EngineConfig.cascade.build = .ok cascade ∧ SignalId.isValid ⟨0⟩ ∧
      (∀ w ∈ EngineConfig.cascade.wires, w.output ≠ ⟨0⟩) ∧
      ∃ calls, calls = [.step 0 [], .reset, .set ⟨0⟩ 100 0, .step 10 (Event.excursion 10)] ∧
        Call.Ordered (calls ++ [.step 60000 []]) ∧
        Call.lastWrite ⟨0⟩ (calls ++ [.step 60000 []]) = .ok ⟨0⟩ 9000 10 ∧
        EngineConfig.cascade.threshold ⟨0⟩ = 50000 ∧
        (∃ s, ((cascade.after calls).step 60000 []).1.signal? ⟨0⟩ = some s ∧ s.status = .timeout ∧
          s.Reads (EngineConfig.cascade.threshold ⟨0⟩)
            (Call.lastWrite ⟨0⟩ (calls ++ [.step 60000 []])) 60000) ∧
        (cascade.after calls).OnlySamples ⟨0⟩ ∧ (cascade.after calls).KeepsTimeout ⟨0⟩ := by
  have hfree : ∀ w ∈ EngineConfig.cascade.wires, w.output ≠ ⟨0⟩ := by decide
  refine ⟨build_cascade, by decide, hfree, _, rfl, by decide, by decide, by decide, ?_⟩
  obtain ⟨hreads, hrest⟩ := reads_lastWrite build_cascade (by decide) hfree
    [.step 0 [], .reset, .set ⟨0⟩ 100 0, .step 10 (Event.excursion 10)]
  obtain ⟨s, hs, h⟩ := hreads 60000 [] (by decide)
  exact ⟨⟨s, hs, h.status, h⟩, hrest⟩

end Engine

end SignalGuard
