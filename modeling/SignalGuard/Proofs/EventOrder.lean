import Mathlib.Data.List.Perm.Basic
import SignalGuard.Proofs.EdgeWakes
import SignalGuard.Proofs.IngestionLaws

/-!
# The order of independent events does not matter

Producers deliver their events on their own, and a step sees some interleaving
of them. A slot sees only the events addressed to it, counters only how many
there are, and a listener only those for the signal that its monitor watches
(`Ingestion.heardBy_calls`). So only the order of the calls to different
listeners depends on the interleaving: `Engine.step_ignores_interleaving`.
-/

namespace SignalGuard

/-- The same events in an order that differs for different signals only. -/
structure Event.Reordered (events events' : List Event) : Prop where
  perm : events.Perm events'
  order : ∀ id, Event.addressed id events = Event.addressed id events'

-- ---------------------------------------------------------------------------
-- What one listener hears
-- ---------------------------------------------------------------------------

namespace Wake

/-- The calls to the listener of the monitor with the number. -/
def heardBy (k : UInt8) (wakes : List Wake) : List Wake := wakes.filter (·.monitor = k)

theorem heardBy_append (k : UInt8) (wakes wakes' : List Wake) :
    heardBy k (wakes ++ wakes') = heardBy k wakes ++ heardBy k wakes' := List.filter_append ..

/-- No listener hears a difference. -/
def SameForEach (wakes wakes' : List Wake) : Prop := ∀ k, heardBy k wakes = heardBy k wakes'

variable {wakes wakes' : List Wake}

theorem SameForEach.append_right (h : SameForEach wakes wakes') (more : List Wake) :
    SameForEach (wakes ++ more) (wakes' ++ more) := by
  intro k
  rw [heardBy_append, heardBy_append, h k]

theorem SameForEach.append_left (h : SameForEach wakes wakes') (first : List Wake) :
    SameForEach (first ++ wakes) (first ++ wakes') := by
  intro k
  rw [heardBy_append, heardBy_append, h k]

end Wake

-- ---------------------------------------------------------------------------
-- Ingestion
-- ---------------------------------------------------------------------------

namespace Ingestion

variable {monitors : List Monitor}

theorem eq_of_mem_rawCall {e : Event} {m : Monitor} {i : Nat} {w : Wake}
    (hw : w ∈ rawCall e m i) : m.config.watched = e.signal ∧ w.monitor = Monitor.number i := by
  unfold rawCall Monitor.call at hw
  split at hw
  · next hreason =>
    obtain rfl := List.mem_singleton.mp hw
    simp only [Bool.and_eq_true, beq_iff_eq] at hreason
    exact ⟨hreason.2.1.2, rfl⟩
  · simp at hw

/-- A call for an event comes from a monitor that watches its signal. -/
theorem exists_of_mem_rawCalls (hfit : monitors.length ≤ UInt8.size) {e : Event} {w : Wake}
    (hw : w ∈ rawCalls monitors e) :
    ∃ m, monitors[w.monitor.toNat]? = some m ∧ m.config.watched = e.signal := by
  obtain ⟨⟨m, i⟩, hmem, hcall⟩ := List.mem_flatMap.mp hw
  have hm : monitors[i]? = some m := List.mem_zipIdx_iff_getElem?.mp hmem
  obtain ⟨hi, -⟩ := List.getElem?_eq_some_iff.mp hm
  obtain ⟨hwatched, hnumber⟩ := eq_of_mem_rawCall hcall
  refine ⟨m, ?_, hwatched⟩
  rw [hnumber, Monitor.number, UInt8.toNat_ofNatClamp_of_lt (Nat.lt_of_lt_of_le hi hfit), hm]

/-- A listener hears of one signal only. -/
theorem heardBy_calls (hfit : monitors.length ≤ UInt8.size) (k : UInt8) :
    ∃ id, ∀ events, Wake.heardBy k (calls monitors events) =
      Wake.heardBy k (calls monitors (Event.addressed id events)) := by
  -- without a monitor of that number, any signal will do
  obtain ⟨id, hid⟩ : ∃ id, ∀ m, monitors[k.toNat]? = some m → m.config.watched = id := by
    cases monitors[k.toNat]? with
    | none => exact ⟨⟨0⟩, by simp⟩
    | some m => exact ⟨m.config.watched, by simp⟩
  have hsilent (e : Event) (he : e.signal ≠ id) : Wake.heardBy k (rawCalls monitors e) = [] := by
    refine List.filter_eq_nil_iff.mpr fun w hw hk => he ?_
    obtain ⟨m, hm, hwatched⟩ := exists_of_mem_rawCalls hfit hw
    rw [of_decide_eq_true hk] at hm
    exact hwatched.symm.trans (hid m hm)
  refine ⟨id, fun events => ?_⟩
  induction events with
  | nil => rfl
  | cons e events ih =>
    by_cases he : e.signal = id
    · have hkept : Event.addressed id (e :: events) = e :: Event.addressed id events :=
        List.filter_cons_of_pos (decide_eq_true he)
      rw [hkept, calls_cons, calls_cons, Wake.heardBy_append, Wake.heardBy_append, ih]
    · have hdropped : Event.addressed id (e :: events) = Event.addressed id events :=
        List.filter_cons_of_neg (by simp [he])
      rw [hdropped, calls_cons, Wake.heardBy_append, ih]
      split
      · rw [hsilent e he, List.nil_append]
      · rfl

theorem calls_sameForEach (hfit : monitors.length ≤ UInt8.size) {events events' : List Event}
    (h : Event.Reordered events events') :
    Wake.SameForEach (calls monitors events) (calls monitors events') := by
  intro k
  obtain ⟨id, hid⟩ := heardBy_calls hfit k
  rw [hid events, hid events', h.order id]

end Ingestion

section

variable {monitors : List Monitor} {events events' : List Event}

theorem ingestEvents_table_of_reordered (h : Event.Reordered events events') (s : Ingestion) :
    (ingestEvents monitors events s).table = (ingestEvents monitors events' s).table := by
  refine SignalTable.ext_get? fun id => ?_
  rw [get?_ingestEvents, get?_ingestEvents, h.order id]

theorem ingestEvents_report_of_reordered (h : Event.Reordered events events') (s : Ingestion) :
    (ingestEvents monitors events s).report = (ingestEvents monitors events' s).report := by
  have hcalls : (Ingestion.calls monitors events).Perm (Ingestion.calls monitors events') :=
    (h.perm.filter _).flatMap_right _
  rw [ingestEvents_counts, ingestEvents_counts, h.perm.countP_eq, h.perm.countP_eq,
    hcalls.length_eq]

theorem ingestEvents_wakes_of_reordered (hfit : monitors.length ≤ UInt8.size)
    (h : Event.Reordered events events') (s : Ingestion) :
    Wake.SameForEach (ingestEvents monitors events s).wakes
      (ingestEvents monitors events' s).wakes := by
  rw [ingestEvents_wakes, ingestEvents_wakes]
  exact (Ingestion.calls_sameForEach hfit h).append_left s.wakes

end

-- ---------------------------------------------------------------------------
-- Monitors
-- ---------------------------------------------------------------------------

/-- A pass that differs in the order of calls to different listeners only. -/
def MonitorPass.Alike (p q : MonitorPass) : Prop :=
  ∃ wakes, q = { p with wakes } ∧ Wake.SameForEach p.wakes wakes

theorem Monitor.visit_alike (now : Time) (index : Nat) (m : Monitor) (p q : MonitorPass)
    (h : p.Alike q) :
    (m.visit now index p).1 = (m.visit now index q).1 ∧
      (m.visit now index p).2.Alike (m.visit now index q).2 := by
  obtain ⟨wakes, rfl, hwakes⟩ := h
  rw [visit_with_wakes now index m p wakes]
  refine ⟨rfl, wakes ++ m.edge now index p.table, rfl, ?_⟩
  rw [m.visit_wakes now index p]
  exact hwakes.append_right _

-- ---------------------------------------------------------------------------
-- Engines
-- ---------------------------------------------------------------------------

namespace Engine

variable {c : EngineConfig} {e : Engine} {events events' : List Event}

theorem merged_of_reordered (e : Engine) (h : Event.Reordered events events') (now : Time) :
    e.merged now events = e.merged now events' := by
  rw [merged, merged, sampled, sampled, ingested, ingested, ingestEvents_table_of_reordered h,
    ingestEvents_report_of_reordered h]

theorem monitored_of_reordered (hfit : e.monitors.length ≤ UInt8.size)
    (h : Event.Reordered events events') (now : Time) :
    (e.monitored now events).1 = (e.monitored now events').1 ∧
      (e.monitored now events).2.Alike (e.monitored now events').2 := by
  refine sweepFrom_rel (Monitor.visit_alike now) 0 e.monitors ⟨_, ?_,
    ingestEvents_wakes_of_reordered hfit h _⟩
  rw [e.merged_of_reordered h now]
  rfl

/-- A step does the same for every interleaving of the producers, and every
listener hears the same. -/
theorem step_ignores_interleaving (hb : c.build = .ok e) (calls : List Call) (now : Time)
    (h : Event.Reordered events events') :
    ((e.after calls).step now events).1 = ((e.after calls).step now events').1 ∧
      Wake.SameForEach ((e.after calls).step now events).2
        ((e.after calls).step now events').2 := by
  obtain ⟨hcheck, rfl⟩ := EngineConfig.build_eq_ok_iff.mp hb
  have hc := configuredBy_after (configuredBy_toEngine c) calls
  have hfit := hc.monitors_fit (EngineConfig.check_eq_ok_iff.mp hcheck)
  obtain ⟨hmonitors, wakes, hpass, hwakes⟩ :=
    monitored_of_reordered (Nat.le_trans hfit (by decide)) h now
  rw [step_eq, step_eq]
  simp only [emitted, checked, controlled, transformed, hmonitors, hpass]
  exact ⟨trivial, hwakes⟩

end Engine

/-- A burst for signal 5 among events of other producers; signal 40 has no slot. -/
def Event.burst : List Event :=
  [.ok ⟨5⟩ 9000 10, .ok ⟨20⟩ 7 10, .ok ⟨5⟩ 100 20, .ok ⟨40⟩ 1 20]

def Event.lateBurst : List Event :=
  [.ok ⟨40⟩ 1 20, .ok ⟨20⟩ 7 10, .ok ⟨5⟩ 9000 10, .ok ⟨5⟩ 100 20]

theorem Event.reordered_burst : Event.Reordered burst lateBurst where
  perm := by decide
  order := by
    intro id
    by_cases h5 : id = ⟨5⟩
    · subst h5
      rfl
    · have hne : (⟨5⟩ : SignalId) ≠ id := Ne.symm h5
      by_cases h20 : id = ⟨20⟩
      · subst h20
        rfl
      · have hne' : (⟨20⟩ : SignalId) ≠ id := Ne.symm h20
        simp [addressed, burst, lateBurst, Event.ok, List.filter_cons, hne, hne']

/-- The two listeners are called the other way round. -/
theorem Engine.step_ignores_burst :
    EngineConfig.watchers.build = .ok watchers ∧ Event.Reordered Event.burst Event.lateBurst ∧
      ((watchers.after [.step 0 []]).step 30 Event.burst).2 =
        [⟨0, 9000, .error⟩, ⟨1, 7, .critical⟩] ∧
      ((watchers.after [.step 0 []]).step 30 Event.lateBurst).2 =
        [⟨1, 7, .critical⟩, ⟨0, 9000, .error⟩] ∧
      ((watchers.after [.step 0 []]).step 30 Event.burst).1 =
        ((watchers.after [.step 0 []]).step 30 Event.lateBurst).1 ∧
      Wake.SameForEach ((watchers.after [.step 0 []]).step 30 Event.burst).2
        ((watchers.after [.step 0 []]).step 30 Event.lateBurst).2 := by
  have hb : EngineConfig.watchers.build = .ok watchers :=
    EngineConfig.build_eq_ok_iff.mpr ⟨rfl, rfl⟩
  exact ⟨hb, Event.reordered_burst, by decide +kernel, by decide +kernel,
    step_ignores_interleaving hb [.step 0 []] 30 Event.reordered_burst⟩

end SignalGuard
