import Mathlib.Algebra.Order.BigOperators.Group.List
import Mathlib.Algebra.Order.Group.Nat
import Mathlib.Algebra.Ring.Parity
import SignalGuard.Proofs.FaultSignals

/-!
# Listeners hear every turn of a fault

In the pass over the monitors a listener is called when the result of its
monitor differs from the last one. `Engine.edgeLog` keeps these calls since the
engine was built or reset. Faults and all-clears alternate in it, so the length
of the log says whether the monitor is faulted (`Monitor.Mirrors`), although
monitors may watch the fault signals of each other within one pass.

`Engine.edges_mirror_faults`: a step adds one call exactly if the detection has
changed, and the report counts the calls to all listeners.
-/

namespace SignalGuard

-- ---------------------------------------------------------------------------
-- One visit
-- ---------------------------------------------------------------------------

namespace Monitor

/-- What the listener is told about the result on a table. -/
def edge (now : Time) (index : Nat) (m : Monitor) (t : SignalTable) : List Wake :=
  (t.get? m.config.watched).elim [] fun watched =>
    m.call index (m.detected now t != m.faulted) watched.value (m.config.level (m.detected now t))

variable {m : Monitor} {t : SignalTable}

theorem edge_idle (now : Time) (index : Nat)
    (h : m.config.enabled = false ∨ t.get? m.config.watched = none) : m.edge now index t = [] := by
  unfold edge call
  rcases h with h | h
  · cases t.get? m.config.watched <;> simp [detected, h]
  · rw [h, Option.elim_none]

theorem length_edge_le_one (now : Time) (index : Nat) (m : Monitor) (t : SignalTable) :
    (m.edge now index t).length ≤ 1 := by
  unfold edge call
  cases t.get? m.config.watched with
  | none => exact Nat.zero_le 1
  | some watched =>
    rw [Option.elim_some]
    split
    · exact Nat.le_refl 1
    · exact Nat.zero_le 1

theorem idle_or_sighted (m : Monitor) (t : SignalTable) :
    (m.config.enabled = false ∨ t.get? m.config.watched = none) ∨
      m.config.enabled ∧ ∃ watched, t.get? m.config.watched = some watched := by
  cases m.config.enabled <;> cases t.get? m.config.watched <;> simp

/-- A visit makes its calls after those of earlier visits, on which nothing
else depends. -/
theorem visit_with_wakes (now : Time) (index : Nat) (m : Monitor) (p : MonitorPass)
    (wakes : List Wake) :
    m.visit now index { p with wakes } = ((m.visit now index p).1,
      { (m.visit now index p).2 with wakes := wakes ++ m.edge now index p.table }) := by
  rcases m.idle_or_sighted p.table with hidle | ⟨he, watched, hw⟩
  · have hvisit : m.visit now index { p with wakes } = (m, { p with wakes }) :=
      visit_idle now index hidle
    rw [hvisit, visit_idle now index hidle, edge_idle now index hidle, List.append_nil]
  · simp [visit, run, he, hw, stepLimp_eq, edge, detected]

theorem visit_wakes (now : Time) (index : Nat) (m : Monitor) (p : MonitorPass) :
    (m.visit now index p).2.wakes = p.wakes ++ m.edge now index p.table :=
  congrArg (fun visited => visited.2.wakes) (m.visit_with_wakes now index p p.wakes)

/-- The report counts the calls. -/
theorem visit_monitorWakes (now : Time) (index : Nat) (m : Monitor) (p : MonitorPass) :
    (m.visit now index p).2.report.monitorWakes =
      p.report.monitorWakes.addNat (m.edge now index p.table).length := by
  rcases m.idle_or_sighted p.table with hidle | ⟨he, watched, hw⟩
  · rw [visit_idle now index hidle, edge_idle now index hidle]
    exact (Counter.addNat_zero _).symm
  · simp only [visit, run, he, hw, stepLimp_eq, edge, detected, if_true, Option.elim_some, call,
      Counter.succIf_eq_addNat]
    split
    · rfl
    · rfl

end Monitor

-- ---------------------------------------------------------------------------
-- One step
-- ---------------------------------------------------------------------------

namespace Engine

variable {c : EngineConfig} {e : Engine} {i : Nat} {m : Monitor} {now : Time}
  {events : List Event}

/-- The calls that the listener of the monitor at position `i` receives in the
monitor's turn. -/
def edgeCalls (e : Engine) (now : Time) (events : List Event) (i : Nat) : List Wake :=
  (e.passAt now events (i + 1)).wakes.drop (e.passAt now events i).wakes.length

theorem edgeCalls_eq (hm : e.monitors[i]? = some m) :
    e.edgeCalls now events i = m.edge now i (e.passAt now events i).table := by
  rw [edgeCalls, passAt_succ hm, m.visit_wakes now i, List.drop_left]

/-- The pass so far has made the calls of the monitors so far and counted them. -/
theorem passAt_calls (e : Engine) (now : Time) (events : List Event) {k : Nat}
    (hk : k ≤ e.monitors.length) :
    (e.passAt now events k).wakes =
        (e.ingested events).wakes ++ (List.range k).flatMap (e.edgeCalls now events) ∧
      (e.passAt now events k).report.monitorWakes = (e.merged now events).2.monitorWakes.addNat
        ((List.range k).map fun i => (e.edgeCalls now events i).length).sum := by
  induction k with
  | zero => exact ⟨(List.append_nil _).symm, (Counter.addNat_zero _).symm⟩
  | succ k ih =>
    have hm := List.getElem?_eq_getElem hk
    obtain ⟨hwakes, hcount⟩ := ih (by omega)
    rw [passAt_succ hm, Monitor.visit_wakes, Monitor.visit_monitorWakes,
      ← edgeCalls_eq hm, hwakes, hcount, Counter.addNat_addNat, List.range_succ,
      List.flatMap_append, List.flatMap_singleton, List.append_assoc, List.map_append,
      List.sum_append, List.map_singleton, List.sum_singleton]
    exact ⟨rfl, rfl⟩

/-- The wakes of a step are those of the ingestion and then those of the
monitors in order, which the report counts. -/
structure TalliesCalls (e : Engine) (now : Time) (events : List Event) : Prop where
  wakes : (e.step now events).2 = (e.ingested events).wakes ++
    (List.range e.monitors.length).flatMap (e.edgeCalls now events)
  counted : (e.step now events).1.lastReport.monitorWakes.toNat =
    ((List.range e.monitors.length).map fun i => (e.edgeCalls now events i).length).sum

theorem ConfiguredBy.talliesCalls (hc : e.ConfiguredBy c) (hv : c.Valid) (now : Time)
    (events : List Event) : e.TalliesCalls now events := by
  obtain ⟨hwakes, hcount⟩ := e.passAt_calls now events (Nat.le_refl _)
  have hpass : e.passAt now events e.monitors.length = (e.monitored now events).2 := by
    rw [passAt, List.take_length]
    rfl
  have hstart := (e.merged_uncounted now events).1
  -- no counter is full, since every monitor makes one call at most
  have hsum : ((List.range e.monitors.length).map fun i =>
      (e.edgeCalls now events i).length).sum ≤ e.monitors.length := by
    have hle := List.sum_le_card_nsmul ((List.range e.monitors.length).map fun i =>
      (e.edgeCalls now events i).length) 1 ?_
    · simpa using hle
    · simp only [List.forall_mem_map, List.mem_range]
      intro i hi
      rw [edgeCalls_eq (List.getElem?_eq_getElem hi)]
      exact Monitor.length_edge_le_one ..
  have hfit := hc.monitors_fit hv
  refine ⟨by rwa [hpass] at hwakes, ?_⟩
  rw [lastReport_eq, ← hpass, hcount, hstart]
  exact Counter.toNat_zero_addNat (Nat.lt_of_le_of_lt (Nat.le_trans hsum hfit) (by decide))

/-- A step calls the listener if the detection differs from the previous one,
with the watched value that the detection has seen. -/
def CallsOnEdge (e : Engine) (i : Nat) (config : MonitorConfig) (previous : Bool) : Prop :=
  ∀ now events, ∃ watched,
    (e.passAt now events i).table.get? config.watched = some watched ∧
      e.detects now events i = config.detect watched now ∧
      e.edgeCalls now events i = if config.detect watched now = previous then []
        else [⟨Monitor.number i, watched.value, config.level (config.detect watched now)⟩]

theorem ConfiguredBy.callsOnEdge (hc : e.ConfiguredBy c) (hv : c.Valid)
    (hm : e.monitors[i]? = some m) (he : m.config.enabled) (hw : m.hasWake) :
    e.CallsOnEdge i m.config m.faulted := by
  intro now events
  have hvalid := hc.monitor_valid hv (List.mem_of_getElem? hm)
  obtain ⟨watched, hwatched⟩ := (e.passAt now events i).table.exists_get? hvalid.watched
  refine ⟨watched, hwatched, detects_eq hm hwatched, ?_⟩
  rw [edgeCalls_eq hm]
  simp only [Monitor.edge, Monitor.detected, he, hwatched, Option.elim_some, if_true, Monitor.call,
    hw, Bool.true_and, bne_iff_ne, ne_eq, ite_not]

-- ---------------------------------------------------------------------------
-- Runs
-- ---------------------------------------------------------------------------

def noteCalls (i : Nat) (e : Engine) (log : List Wake) : Call → List Wake
  | .step now events => log ++ e.edgeCalls now events i
  | .set .. => log
  | .reset => []

/-- The calls that the listener of the monitor at position `i` has received in
the monitor's turns since the engine was built or last reset. -/
def edgeLog (e : Engine) (i : Nat) (calls : List Call) : List Wake :=
  e.record (noteCalls i) [] calls

theorem edgeLog_concat (e : Engine) (i : Nat) (calls : List Call) (call : Call) :
    e.edgeLog i (calls ++ [call]) = noteCalls i (e.after calls) (e.edgeLog i calls) call :=
  record_concat ..

end Engine

/-- The log of the listener agrees with the monitor and with its history. -/
structure Monitor.Mirrors (m : Monitor) (i : Nat) (h : FaultHistory) (log : List Wake) : Prop where
  faulted_eq : m.faulted = h.head?.any (·.faulted)
  odd_iff : Odd log.length ↔ m.faulted
  levels : ∀ (k : Nat) (w : Wake), log[k]? = some w →
    w.level = if Even k then m.config.faultLevel else .clear
  own : ∀ w ∈ log, w.monitor.toNat = i

namespace Monitor

variable {m : Monitor} {i : Nat} {h : FaultHistory} {log : List Wake}

theorem mirrors_ofConfig (config : MonitorConfig) (hasWake : Bool) (i : Nat) :
    (ofConfig config hasWake).Mirrors i [] [] where
  faulted_eq := rfl
  odd_iff := by simp [ofConfig]
  levels := by simp
  own := by simp

/-- A call on the edge turns the parity of the log along with the fault. -/
theorem Mirrors.edge {m' : Monitor} (hm : m.Mirrors i h log) (hi : i < UInt8.size) (s : Sighting)
    (value : Int32) (hconfig : m'.config = m.config) (hfaulted : m'.faulted = s.faulted) :
    m'.Mirrors i (s :: h) (log ++
      if s.faulted = m.faulted then [] else [⟨number i, value, m.config.level s.faulted⟩]) := by
  have hhead : m'.faulted = (s :: h).head?.any (·.faulted) := hfaulted
  split
  · next hsame =>
    rw [List.append_nil]
    refine ⟨hhead, ?_, hconfig ▸ hm.levels, hm.own⟩
    rw [hm.odd_iff, hfaulted, hsame]
  · next hdiff =>
    have hturned : s.faulted = !m.faulted := by
      cases hs : s.faulted <;> cases hf : m.faulted <;> simp_all
    have hparity : Even log.length ↔ s.faulted := by
      rw [← Nat.not_odd_iff_even, hm.odd_iff, hturned]
      simp
    refine ⟨hhead, ?_, fun k w hk => ?_, fun w hw => ?_⟩
    · rw [List.length_append, List.length_singleton, Nat.odd_add_one, hfaulted, ← hparity,
        Nat.not_odd_iff_even]
    · rw [hconfig]
      rw [List.getElem?_append] at hk
      split at hk
      · exact hm.levels k w hk
      · next hge =>
        obtain ⟨hzero, rfl⟩ : k - log.length = 0 ∧ _ = w := by
          simpa [List.getElem?_singleton] using hk
        obtain rfl : k = log.length := by omega
        simp only [hparity, MonitorConfig.level]
    · rcases List.mem_append.mp hw with hw | hw
      · exact hm.own w hw
      · obtain rfl := List.mem_singleton.mp hw
        exact UInt8.toNat_ofNatClamp_of_lt hi

end Monitor

namespace Engine

variable {c : EngineConfig} {e : Engine} {i : Nat} {m : Monitor}

theorem ConfiguredBy.mirrors_step (hc : e.ConfiguredBy c) (hv : c.Valid)
    (hm : e.monitors[i]? = some m) (he : m.config.enabled) (hw : m.hasWake) {h : FaultHistory}
    {log : List Wake} (hlog : m.Mirrors i h log) (now : Time) (events : List Event) :
    ∃ m', (e.step now events).1.monitors[i]? = some m' ∧ m'.entry = m.entry ∧
      m'.Mirrors i (e.sighting now events i :: h) (log ++ e.edgeCalls now events i) := by
  have hvalid := hc.monitor_valid hv (List.mem_of_getElem? hm)
  obtain ⟨hi, -⟩ := List.getElem?_eq_some_iff.mp hm
  have hbyte : i < UInt8.size :=
    Nat.lt_of_lt_of_le hi (Nat.le_trans (hc.monitors_fit hv) (by decide))
  obtain ⟨watched, -, hdetects, hcalls⟩ := hc.callsOnEdge hv hm he hw now events
  refine ⟨_, monitor_visited hm now events, m.visit_entry .., ?_⟩
  rw [hcalls, ← hdetects]
  exact hlog.edge hbyte (e.sighting now events i) watched.value (m.visit_config ..)
    (faulted_visited hm he hvalid.watched now events)

theorem mirrors_after (hv : c.Valid) {entry : MonitorEntry} (hi : c.monitors[i]? = some entry)
    (he : entry.config.enabled) (hw : entry.hasWake) (calls : List Call) :
    ∃ m, (c.toEngine.after calls).monitors[i]? = some m ∧ m.entry = entry ∧
      m.Mirrors i (c.toEngine.history i calls) (c.toEngine.edgeLog i calls) := by
  induction calls using List.reverseRecOn with
  | nil =>
    refine ⟨_, ?_, ?_, Monitor.mirrors_ofConfig entry.config entry.hasWake i⟩
    · simp [after, EngineConfig.toEngine, hi]
    · rfl
  | append_singleton calls call ih =>
    obtain ⟨m, hm, rfl, hlog⟩ := ih
    have hc := configuredBy_after (configuredBy_toEngine c) calls
    rw [after_concat, history_concat, edgeLog_concat]
    cases call with
    | step now events => exact hc.mirrors_step hv hm he hw hlog now events
    | set id value now => exact ⟨m, hm, rfl, hlog⟩
    | reset =>
      refine ⟨m.reset, ?_, rfl, Monitor.mirrors_ofConfig m.config m.hasWake i⟩
      simp [answer, Engine.reset, hm]

/-- The listener of a monitor hears every turn of the fault and nothing else in
the monitor's turns, and the report counts what all listeners hear there. -/
theorem edges_mirror_faults (hb : c.build = .ok e) {entry : MonitorEntry}
    (hi : c.monitors[i]? = some entry) (he : entry.config.enabled) (hw : entry.hasWake)
    (calls : List Call) :
    ∃ m, (e.after calls).monitors[i]? = some m ∧ m.entry = entry ∧
      m.Mirrors i (e.history i calls) (e.edgeLog i calls) ∧
      (e.after calls).CallsOnEdge i entry.config ((e.history i calls).head?.any (·.faulted)) ∧
      ∀ now events, (e.after calls).TalliesCalls now events := by
  obtain ⟨hcheck, rfl⟩ := EngineConfig.build_eq_ok_iff.mp hb
  have hv := EngineConfig.check_eq_ok_iff.mp hcheck
  have hc := configuredBy_after (configuredBy_toEngine c) calls
  obtain ⟨m, hm, rfl, hlog⟩ := mirrors_after hv hi he hw calls
  refine ⟨m, hm, rfl, hlog, ?_, hc.talliesCalls hv⟩
  rw [← hlog.faulted_eq]
  exact hc.callsOnEdge hv hm he hw

end Engine

/-- The second monitor watches the fault signal of the first one. -/
def EngineConfig.watchers : EngineConfig :=
  { EngineConfig.empty with
    monitors := [⟨(MonitorConfig.ofSignals ⟨5⟩ ⟨20⟩ .error).withRange 0 5000, true⟩,
      ⟨(MonitorConfig.ofSignals ⟨20⟩ ⟨21⟩ .critical).withRange 0 1, true⟩] }

/-- A fault that lasts for two steps, after one that a reset makes forgotten. -/
def Call.relapse : List Call :=
  [.step 0 [.ok ⟨5⟩ 9000 0], .reset, .step 10 [.ok ⟨5⟩ 9000 10], .step 20 [], .set ⟨5⟩ 100 25,
    .step 30 []]

namespace Engine

def watchers : Engine := EngineConfig.watchers.toEngine

theorem edges_mirror_relapse :
    EngineConfig.watchers.build = .ok watchers ∧
      watchers.edgeLog 1 Call.relapse = [⟨1, 2, .critical⟩, ⟨1, 0, .clear⟩] ∧
      ∃ entry, EngineConfig.watchers.monitors[1]? = some entry ∧ entry.config.enabled ∧
        entry.hasWake ∧
        ∃ m, (watchers.after Call.relapse).monitors[1]? = some m ∧ m.entry = entry ∧
          m.Mirrors 1 (watchers.history 1 Call.relapse) (watchers.edgeLog 1 Call.relapse) ∧
          (watchers.after Call.relapse).CallsOnEdge 1 entry.config
            ((watchers.history 1 Call.relapse).head?.any (·.faulted)) ∧
          ∀ now events, (watchers.after Call.relapse).TalliesCalls now events := by
  have hb : EngineConfig.watchers.build = .ok watchers :=
    EngineConfig.build_eq_ok_iff.mpr ⟨rfl, rfl⟩
  exact ⟨hb, by decide +kernel, _, rfl, rfl, rfl,
    edges_mirror_faults (i := 1) hb rfl rfl rfl Call.relapse⟩

end Engine

end SignalGuard
