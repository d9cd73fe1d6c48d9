import SignalGuard.Proofs.EdgeWakes
import SignalGuard.Proofs.IngestionLaws

/-!
# Listeners only listen

An engine without its listeners, and without the two counters of their calls,
is `Engine.muted`. Muting commutes with every call, so it commutes with every
history: `Engine.muted_after`. Two engines that differ in their listeners are
the same when muted, and stay so.

`Engine.listeners_only_listen` says this of the engines that a configuration
gives, and that the two counters count the calls to attached listeners.
-/

namespace SignalGuard

-- ---------------------------------------------------------------------------
-- Muting
-- ---------------------------------------------------------------------------

/-- The report without the counters of calls to listeners. -/
def StepReport.muted (r : StepReport) : StepReport :=
  { r with fastPathWakes := 0, monitorWakes := 0 }

def MonitorEntry.muted (m : MonitorEntry) : MonitorEntry := { m with hasWake := false }

def EngineConfig.muted (c : EngineConfig) : EngineConfig :=
  { c with monitors := c.monitors.map MonitorEntry.muted }

def Monitor.muted (m : Monitor) : Monitor := { m with hasWake := false }

/-- The engine without listeners and as if there had never been any. -/
def Engine.muted (e : Engine) : Engine :=
  { e with
    monitors := e.monitors.map Monitor.muted
    lastReport := e.lastReport.muted, totals := e.totals.muted }

def Ingestion.muted (s : Ingestion) : Ingestion := ⟨s.table, s.report.muted, []⟩

def MonitorPass.muted (p : MonitorPass) : MonitorPass := ⟨p.table, p.scales, p.report.muted, []⟩

-- ---------------------------------------------------------------------------
-- The phases of a step
-- ---------------------------------------------------------------------------

namespace Ingestion

theorem rawCalls_muted (monitors : List Monitor) (e : Event) :
    rawCalls (monitors.map Monitor.muted) e = [] := by
  refine List.flatMap_eq_nil_iff.mpr fun ⟨m, i⟩ hmem => ?_
  obtain ⟨m, _, rfl⟩ := List.mem_map.mp (List.fst_mem_of_mem_zipIdx hmem)
  rfl

theorem ingest_muted (monitors : List Monitor) (s : Ingestion) (e : Event) :
    ingest (monitors.map Monitor.muted) s.muted e = (ingest monitors s e).muted := by
  unfold ingest muted
  simp only [rawCalls_muted]
  split <;> rfl

end Ingestion

theorem ingestEvents_muted (monitors : List Monitor) (events : List Event) (s : Ingestion) :
    ingestEvents (monitors.map Monitor.muted) events s.muted =
      (ingestEvents monitors events s).muted :=
  List.foldl_hom Ingestion.muted fun s e => Ingestion.ingest_muted monitors s e

theorem Merge.run_muted (now : Time) (m : Merge) (t : SignalTable) (r : StepReport) :
    m.run now (t, r.muted) = ((m.run now (t, r)).1, (m.run now (t, r)).2.muted) := by
  cases ht : t.get? m.output with
  | none => simp [run, ht]
  | some out =>
    cases ho : m.outcome? t with
    | none => simp [run, ht, ho, StepReport.muted]
    | some outcome => simp [run, ht, ho, StepReport.muted]

theorem runMerges_muted (merges : List Merge) (now : Time) (t : SignalTable) (r : StepReport) :
    runMerges merges now t r.muted =
      ((runMerges merges now t r).1, (runMerges merges now t r).2.muted) := by
  unfold runMerges
  induction merges.filter (·.enabled) generalizing t r with
  | nil => rfl
  | cons m ms ih =>
    rw [List.foldl_cons, List.foldl_cons, m.run_muted]
    exact ih _ _

theorem Monitor.visit_muted (now : Time) (index : Nat) (m : Monitor) (p : MonitorPass) :
    m.muted.visit now index p.muted =
      ((m.visit now index p).1.muted, (m.visit now index p).2.muted) := by
  rcases m.idle_or_sighted p.table with hidle | ⟨he, watched, hw⟩
  · have hmuted : m.muted.visit now index p.muted = (m.muted, p.muted) := visit_idle now index hidle
    rw [visit_idle now index hidle, hmuted]
  · have he' : m.muted.config.enabled := he
    have hw' : p.muted.table.get? m.muted.config.watched = some watched := hw
    simp only [visit, run, he, he', hw, hw', stepLimp_eq, if_true]
    rfl

theorem runMonitors_muted (monitors : List Monitor) (now : Time) (p : MonitorPass) :
    runMonitors (monitors.map Monitor.muted) now p.muted =
      ((runMonitors monitors now p).1.map Monitor.muted, (runMonitors monitors now p).2.muted) :=
  sweepFrom_map (Monitor.visit_muted now) 0 monitors p

theorem runVerified_muted (outputs : List Verified) (now : Time) (t : SignalTable)
    (r : StepReport) :
    runVerified outputs now t r.muted =
      ((runVerified outputs now t r).1, (runVerified outputs now t r).2.1,
        (runVerified outputs now t r).2.2.muted) := by
  have hvisit (i : Nat) (v : Verified) (s : SignalTable × StepReport) :
      Verified.visit now i (id v) (s.1, s.2.muted) =
        (id (v.visit now i s).1, (v.visit now i s).2.1, (v.visit now i s).2.2.muted) := by
    obtain ⟨t, r⟩ := s
    unfold Verified.visit Verified.run
    simp only [id_eq]
    split
    · split
      · simp only [StepReport.muted]
      · rfl
    · rfl
  have h := sweepFrom_map (g := fun s : SignalTable × StepReport => (s.1, s.2.muted)) hvisit 0
    outputs (t, r)
  rwa [List.map_id, List.map_id] at h

theorem runCyclic_muted (outputs : List Cyclic) (t : SignalTable) (now : Time) (b : OutputBuffer)
    (r : StepReport) :
    runCyclic outputs t now b r.muted =
      ((runCyclic outputs t now b r).1, (runCyclic outputs t now b r).2.1,
        (runCyclic outputs t now b r).2.2.muted) := by
  have hvisit (i : Nat) (c : Cyclic) (s : OutputBuffer × StepReport) :
      Cyclic.visit t now i (id c) (s.1, s.2.muted) =
        (id (c.visit t now i s).1, (c.visit t now i s).2.1, (c.visit t now i s).2.2.muted) := by
    unfold Cyclic.visit
    simp only [id_eq]
    split
    · split
      · rfl
      · split <;> rfl
    · rfl
  have h := sweepFrom_map (g := fun s : OutputBuffer × StepReport => (s.1, s.2.muted)) hvisit 0
    outputs (b, r)
  rwa [List.map_id, List.map_id] at h

-- ---------------------------------------------------------------------------
-- Calls
-- ---------------------------------------------------------------------------

namespace Engine

variable (e : Engine) (now : Time) (events : List Event)

theorem ingested_muted : e.muted.ingested events = (e.ingested events).muted :=
  ingestEvents_muted e.monitors events ⟨e.table.clearUpdated, .zero, []⟩

theorem merged_muted :
    e.muted.merged now events = ((e.merged now events).1, (e.merged now events).2.muted) := by
  rw [merged, sampled, ingested_muted]
  exact runMerges_muted e.merges now (e.sampled now events).1 (e.sampled now events).2

theorem monitored_muted :
    e.muted.monitored now events =
      ((e.monitored now events).1.map Monitor.muted, (e.monitored now events).2.muted) := by
  rw [monitored, merged_muted, ingested_muted]
  exact runMonitors_muted e.monitors now
    ⟨(e.merged now events).1, e.scales, (e.merged now events).2, (e.ingested events).wakes⟩

theorem checked_muted :
    e.muted.checked now events = ((e.checked now events).1, (e.checked now events).2.1,
      (e.checked now events).2.2.muted) := by
  rw [checked, controlled, transformed, monitored_muted]
  exact runVerified_muted e.verified now _ _

theorem emitted_muted :
    e.muted.emitted now events = ((e.emitted now events).1, (e.emitted now events).2.1,
      (e.emitted now events).2.2.muted) := by
  rw [emitted, checked_muted]
  exact runCyclic_muted e.cyclic _ now .empty _

theorem muted_step : (e.muted.step now events).1 = (e.step now events).1.muted := by
  rw [step_eq, checked_muted, monitored_muted, emitted_muted, controlled, transformed,
    monitored_muted]
  rfl

theorem muted_reset : e.muted.reset = e.reset.muted := by
  simp only [reset, muted, List.foldl_map, List.map_map]
  rfl

theorem muted_answer (call : Call) : (e.muted.answer call).1 = (e.answer call).1.muted := by
  cases call with
  | step now events => exact e.muted_step now events
  | set id value now => rfl
  | reset => exact e.muted_reset

theorem muted_after (calls : List Call) : e.muted.after calls = (e.after calls).muted := by
  induction calls generalizing e with
  | nil => rfl
  | cons call calls ih => rw [after_cons, muted_answer, ih, after_cons]

end Engine

-- ---------------------------------------------------------------------------
-- Configurations
-- ---------------------------------------------------------------------------

namespace EngineConfig

theorem check_muted (c : EngineConfig) : c.muted.check = c.check := by
  simp only [check, muted, List.map_map]
  rfl

theorem toEngine_muted (c : EngineConfig) : c.muted.toEngine = c.toEngine.muted := by
  simp only [toEngine, muted, Engine.muted, List.map_map]
  rfl

end EngineConfig

namespace Engine

variable {c c' : EngineConfig} {e : Engine}

/-- The calls of a step and their counters. Calls for raw values come first, and
no one is called who does not listen. -/
structure CountsCalls (e : Engine) (now : Time) (events : List Event) : Prop where
  counted : ∃ raw edges, (e.step now events).2 = raw ++ edges ∧
    (e.step now events).1.lastReport.fastPathWakes = Counter.addNat 0 raw.length ∧
    (e.step now events).1.lastReport.monitorWakes.toNat = edges.length
  attached : ∀ w ∈ (e.step now events).2,
    ∃ m, e.monitors[w.monitor.toNat]? = some m ∧ m.hasWake

theorem mem_call {m : Monitor} {i : Nat} {reason : Bool} {value : Int32} {level : FaultLevel}
    {w : Wake} (hw : w ∈ m.call i reason value level) :
    (m.hasWake ∧ reason) ∧ w.monitor = Monitor.number i := by
  unfold Monitor.call at hw
  split at hw
  · next hreason =>
    obtain rfl := List.mem_singleton.mp hw
    exact ⟨Bool.and_eq_true_iff.mp hreason, rfl⟩
  · simp at hw

/-- Every call of a step is to the listener of an enabled monitor. -/
theorem ConfiguredBy.exists_caller (hc : e.ConfiguredBy c) (hv : c.Valid) {now : Time}
    {events : List Event} {w : Wake} (hw : w ∈ (e.step now events).2) :
    ∃ m, e.monitors[w.monitor.toNat]? = some m ∧ m.hasWake ∧ m.config.enabled := by
  have hnumbered {m : Monitor} {i : Nat} (hm : e.monitors[i]? = some m)
      (hw : w.monitor = Monitor.number i) : e.monitors[w.monitor.toNat]? = some m := by
    obtain ⟨hi, -⟩ := List.getElem?_eq_some_iff.mp hm
    have hbyte : i < UInt8.size :=
      Nat.lt_of_lt_of_le hi (Nat.le_trans (hc.monitors_fit hv) (by decide))
    rw [hw, Monitor.number, UInt8.toNat_ofNatClamp_of_lt hbyte, hm]
  rw [(hc.talliesCalls hv now events).wakes, ingested, ingestEvents_wakes, List.nil_append,
    List.mem_append] at hw
  rcases hw with hraw | hedge
  · obtain ⟨event, -, hraw⟩ := List.mem_flatMap.mp hraw
    obtain ⟨⟨m, i⟩, hmem, hraw⟩ := List.mem_flatMap.mp hraw
    obtain ⟨⟨hwake, hreason⟩, hnumber⟩ := mem_call hraw
    simp only [Bool.and_eq_true] at hreason
    exact ⟨m, hnumbered (List.mem_zipIdx_iff_getElem?.mp hmem) hnumber, hwake, hreason.1.1⟩
  · obtain ⟨i, hi, hedge⟩ := List.mem_flatMap.mp hedge
    obtain ⟨m, hm⟩ : ∃ m, e.monitors[i]? = some m :=
      ⟨_, List.getElem?_eq_getElem (List.mem_range.mp hi)⟩
    rw [edgeCalls_eq hm] at hedge
    rcases m.idle_or_sighted (e.passAt now events i).table with hidle | ⟨he, watched, hwatched⟩
    · rw [Monitor.edge_idle now i hidle] at hedge
      cases hedge
    · rw [Monitor.edge, hwatched, Option.elim_some] at hedge
      obtain ⟨⟨hwake, -⟩, hnumber⟩ := mem_call hedge
      exact ⟨m, hnumbered hm hnumber, hwake, he⟩

theorem ConfiguredBy.countsCalls (hc : e.ConfiguredBy c) (hv : c.Valid) (now : Time)
    (events : List Event) : e.CountsCalls now events := by
  obtain ⟨hwakes, hcounted⟩ := hc.talliesCalls hv now events
  refine ⟨⟨_, _, hwakes, ?_, ?_⟩, fun w hw => ?_⟩
  · rw [lastReport_eq, ingested, ingestEvents_counts, ingestEvents_wakes]
    rfl
  · rw [hcounted, List.length_flatMap]
  · obtain ⟨m, hm, hwake, -⟩ := hc.exists_caller hv hw
    exact ⟨m, hm, hwake⟩

/-- Whoever listens to the monitors, the engine answers every history in the
same way, up to the number of calls to listeners. -/
theorem listeners_only_listen (hb : c.build = .ok e) (hc : c'.muted = c.muted) :
    ∃ e', c'.build = .ok e' ∧ ∀ calls, (e'.after calls).muted = (e.after calls).muted ∧
      ∀ now events, (e.after calls).CountsCalls now events := by
  obtain ⟨hcheck, rfl⟩ := EngineConfig.build_eq_ok_iff.mp hb
  have hv := EngineConfig.check_eq_ok_iff.mp hcheck
  have hcheck' : c'.check = .ok () := by rw [← c'.check_muted, hc, c.check_muted, hcheck]
  refine ⟨_, EngineConfig.build_eq_ok_iff.mpr ⟨hcheck', rfl⟩, fun calls => ⟨?_, ?_⟩⟩
  · rw [← muted_after, ← muted_after, ← EngineConfig.toEngine_muted, hc,
      EngineConfig.toEngine_muted]
  · exact (configuredBy_after (configuredBy_toEngine c) calls).countsCalls hv

end Engine

/-- Nobody listens to the first of the two monitors. -/
def EngineConfig.halfHeard : EngineConfig :=
  { watchers with
    monitors := [⟨(MonitorConfig.ofSignals ⟨5⟩ ⟨20⟩ .error).withRange 0 5000, false⟩,
      ⟨(MonitorConfig.ofSignals ⟨20⟩ ⟨21⟩ .critical).withRange 0 1, true⟩] }

namespace Engine

/-- Calls are missing on both paths, and nothing else is. -/
theorem listeners_only_listen_relapse :
    EngineConfig.watchers.build = .ok watchers ∧
      EngineConfig.halfHeard.muted = EngineConfig.watchers.muted ∧
      (watchers.after Call.relapse).totals.monitorWakes = 4 ∧
      (watchers.after Call.relapse).totals.fastPathWakes = 1 ∧
      (EngineConfig.halfHeard.toEngine.after Call.relapse).totals.monitorWakes = 2 ∧
      (EngineConfig.halfHeard.toEngine.after Call.relapse).totals.fastPathWakes = 0 ∧
      ∃ e', EngineConfig.halfHeard.build = .ok e' ∧
        ∀ calls, (e'.after calls).muted = (watchers.after calls).muted ∧
          ∀ now events, (watchers.after calls).CountsCalls now events := by
  have hb : EngineConfig.watchers.build = .ok watchers :=
    EngineConfig.build_eq_ok_iff.mpr ⟨rfl, rfl⟩
  exact ⟨hb, rfl, by decide +kernel, by decide +kernel, by decide +kernel, by decide +kernel,
    listeners_only_listen hb rfl⟩

end Engine

end SignalGuard
