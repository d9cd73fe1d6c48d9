import SignalGuard.Proofs.EdgeWakes
import SignalGuard.Proofs.IngestionLaws

/-!
# Every dangerous sample is reported

While events come in, every listener hears of the raw values that its monitor
does not tolerate. `EngineConfig.alarms` reads these calls off the configuration
and the events alone: neither the state of the engine nor the status of a sample
nor what overwrites it makes a difference.

`Engine.alarms_raised`: a step makes exactly these calls, before all calls on
the edges of faults. The monitors take no notice of them: they go into their
turns as the step found them, and samples that left the same table are the same
to them.
-/

namespace SignalGuard

-- ---------------------------------------------------------------------------
-- Alarms
-- ---------------------------------------------------------------------------

/-- The listener is to be told of the raw value. -/
def MonitorEntry.Alarmed (m : MonitorEntry) (e : Event) : Prop :=
  m.config.enabled ∧ m.hasWake ∧ m.config.checkRange ∧ m.config.watched = e.signal ∧
    (e.value < m.config.minValue ∨ m.config.maxValue < e.value)

instance (m : MonitorEntry) (e : Event) : Decidable (m.Alarmed e) :=
  inferInstanceAs (Decidable (_ ∧ _ ∧ _ ∧ _ ∧ (_ ∨ _)))

/-- The calls of the listeners of these monitors, the first of which has the
position `i`. -/
def MonitorEntry.alarmsFrom (i : Nat) (ms : List MonitorEntry) (e : Event) : List Wake :=
  ((ms.zipIdx i).filter fun m => m.1.Alarmed e).map fun m =>
    ⟨UInt8.ofNat m.2, e.value, m.1.config.faultLevel⟩

theorem MonitorEntry.alarmsFrom_cons (i : Nat) (m : MonitorEntry) (ms : List MonitorEntry)
    (e : Event) :
    alarmsFrom i (m :: ms) e =
      (if m.Alarmed e then [⟨UInt8.ofNat i, e.value, m.config.faultLevel⟩] else []) ++
        alarmsFrom (i + 1) ms e := by
  unfold alarmsFrom
  rw [List.zipIdx_cons, List.filter_cons]
  by_cases h : m.Alarmed e
  · simp [h]
  · simp [h]

/-- The calls that the events give rise to while they come in. -/
def EngineConfig.alarms (c : EngineConfig) (events : List Event) : List Wake :=
  (events.filter fun e => e.signal.index < 32).flatMap (MonitorEntry.alarmsFrom 0 c.monitors)

namespace Ingestion

theorem rawCall_eq (e : Event) (m : Monitor) (i : Nat) :
    rawCall e m i =
      if m.entry.Alarmed e then [⟨Monitor.number i, e.value, m.config.faultLevel⟩] else [] := by
  have hreason : (m.hasWake && (m.config.enabled && m.config.watched == e.signal &&
      m.config.outOfRange e.value)) = true ↔ m.entry.Alarmed e := by
    simp only [MonitorConfig.outOfRange, Bool.and_eq_true, beq_iff_eq, Bool.or_eq_true,
      decide_eq_true_eq, MonitorEntry.Alarmed, Monitor.entry]
    constructor
    · rintro ⟨hw, ⟨he, hs⟩, hr, hv⟩
      exact ⟨he, hw, hr, hs, hv⟩
    · rintro ⟨he, hw, hr, hs, hv⟩
      exact ⟨hw, ⟨he, hs⟩, hr, hv⟩
  unfold rawCall Monitor.call
  simp only [hreason]

theorem flatMap_rawCall (e : Event) (i : Nat) (ms : List Monitor)
    (hfit : i + ms.length ≤ UInt8.size) :
    ((ms.zipIdx i).flatMap fun (m, i) => rawCall e m i) =
      MonitorEntry.alarmsFrom i (ms.map Monitor.entry) e := by
  induction ms generalizing i with
  | nil => rfl
  | cons m ms ih =>
    rw [List.length_cons] at hfit
    have hnumber : Monitor.number i = UInt8.ofNat i := by
      refine UInt8.toNat_inj.mp ?_
      rw [Monitor.number, UInt8.toNat_ofNatClamp_of_lt (by omega),
        UInt8.toNat_ofNat_of_lt' (by omega)]
    rw [List.zipIdx_cons, List.flatMap_cons, ih (i + 1) (by omega), List.map_cons,
      MonitorEntry.alarmsFrom_cons, ← hnumber]
    exact congrArg (· ++ _) (rawCall_eq e m i)

end Ingestion

-- ---------------------------------------------------------------------------
-- Monitors
-- ---------------------------------------------------------------------------

/-- Passes over the same table and scales. -/
def MonitorPass.SameView (p q : MonitorPass) : Prop := p.table = q.table ∧ p.scales = q.scales

/-- A visit depends on nothing else and hands on nothing else. -/
theorem Monitor.visit_sameView (now : Time) (index : Nat) (m : Monitor) (p q : MonitorPass)
    (h : p.SameView q) :
    (m.visit now index p).1 = (m.visit now index q).1 ∧
      (m.visit now index p).2.SameView (m.visit now index q).2 := by
  obtain ⟨htable, hscales⟩ := h
  rcases m.idle_or_sighted p.table with hidle | ⟨he, watched, hw⟩
  · rw [visit_idle now index hidle, visit_idle now index (htable ▸ hidle)]
    exact ⟨rfl, htable, hscales⟩
  · have hw' : q.table.get? m.config.watched = some watched := htable ▸ hw
    rw [visit_monitor now index he hw, visit_monitor now index he hw', hscales]
    refine ⟨rfl, ?_, ?_⟩
    · rw [visit_table now index he hw, visit_table now index he hw', htable]
    · rw [visit_scales now index he hw, visit_scales now index he hw', hscales]

-- ---------------------------------------------------------------------------
-- Engines
-- ---------------------------------------------------------------------------

namespace Engine

variable {c : EngineConfig} {e : Engine} {now : Time} {events : List Event}

theorem ConfiguredBy.ingested_wakes (hc : e.ConfiguredBy c) (hv : c.Valid) (events : List Event) :
    (e.ingested events).wakes = c.alarms events := by
  have hfit : 0 + e.monitors.length ≤ UInt8.size := by
    rw [Nat.zero_add]
    exact Nat.le_trans (hc.monitors_fit hv) (by decide)
  have hcalls : Ingestion.rawCalls e.monitors = MonitorEntry.alarmsFrom 0 c.monitors := by
    funext e'
    rw [← hc.monitors]
    exact Ingestion.flatMap_rawCall e' 0 e.monitors hfit
  rw [ingested, ingestEvents_wakes, Ingestion.calls, hcalls, List.nil_append]
  rfl

/-- The report counts the calls. -/
theorem ingested_fastPathWakes (e : Engine) (events : List Event) :
    (e.ingested events).report.fastPathWakes.toNat =
      min (2 ^ 32 - 1) (e.ingested events).wakes.length := by
  rw [ingested, ingestEvents_counts, ingestEvents_wakes, List.nil_append]
  refine (Counter.toNat_addNat ..).trans ?_
  rw [StepReport.zero, UInt32.toNat_zero, Nat.zero_add]
  rfl

theorem monitors_of_ingested_table {events' : List Event}
    (h : (e.ingested events).table = (e.ingested events').table) (now : Time) :
    (e.step now events).1.monitors = (e.step now events').1.monitors := by
  have hmerged : (e.merged now events).1 = (e.merged now events').1 := by
    rw [merged, merged, runMerges_table, runMerges_table, sampled, sampled, applyStaleness,
      applyStaleness, h]
  have hview : MonitorPass.SameView
      ⟨(e.merged now events).1, e.scales, (e.merged now events).2, (e.ingested events).wakes⟩
      ⟨(e.merged now events').1, e.scales, (e.merged now events').2, (e.ingested events').wakes⟩ :=
    ⟨hmerged, rfl⟩
  exact (sweepFrom_rel (Monitor.visit_sameView now) 0 e.monitors hview).1

/-- The alarms of a step, and what they mean to its monitors. -/
structure RaisesAlarms (e : Engine) (c : EngineConfig) (now : Time) (events : List Event) :
    Prop where
  ingested : (e.ingested events).wakes = c.alarms events
  /-- The calls on the edges of faults come afterwards, monitor by monitor. -/
  first : (e.step now events).2 = c.alarms events ++
    (List.range e.monitors.length).flatMap (e.edgeCalls now events)
  counted : (e.step now events).1.lastReport.fastPathWakes.toNat =
    min (2 ^ 32 - 1) (c.alarms events).length
  /-- A monitor has its turn in the state in which the step found it. -/
  turns : ∀ (i : Nat) (m : Monitor), e.monitors[i]? = some m → (e.step now events).1.monitors[i]? =
    some (m.visit now i (e.passAt now events i)).1
  /-- Samples leave their mark on the monitors by way of the table alone. -/
  unseen : ∀ events', (e.ingested events).table = (e.ingested events').table →
    (e.step now events).1.monitors = (e.step now events').1.monitors

/-- Every dangerous sample is reported to every listener that it concerns, in
order and before anything else, and makes no difference to the monitors. -/
theorem alarms_raised (hb : c.build = .ok e) (calls : List Call) (now : Time)
    (events : List Event) : (e.after calls).RaisesAlarms c now events := by
  obtain ⟨hcheck, rfl⟩ := EngineConfig.build_eq_ok_iff.mp hb
  have hv := EngineConfig.check_eq_ok_iff.mp hcheck
  have hc := configuredBy_after (configuredBy_toEngine c) calls
  have hingested := hc.ingested_wakes hv events
  constructor
  case ingested => exact hingested
  case first => rw [(hc.talliesCalls hv now events).wakes, hingested]
  case counted => rw [lastReport_eq, ← hingested, ingested_fastPathWakes]
  case turns => exact fun i m hm => monitor_visited hm now events
  case unseen => exact fun events' h => monitors_of_ingested_table h now

end Engine

/-- Four monitors of one signal. The second has no listener, the fourth checks
no range. -/
def EngineConfig.sentries : EngineConfig :=
  { EngineConfig.empty with
    monitors := [⟨(MonitorConfig.ofSignals ⟨5⟩ ⟨20⟩ .error).withRange 0 5000, true⟩,
      ⟨(MonitorConfig.ofSignals ⟨5⟩ ⟨21⟩ .warning).withRange 0 100, false⟩,
      ⟨(MonitorConfig.ofSignals ⟨5⟩ ⟨22⟩ .critical).withRange (-10) 8000, true⟩,
      ⟨(MonitorConfig.ofSignals ⟨5⟩ ⟨23⟩ .error).withStatusCheck, true⟩] }

/-- The first sample is not even valid, and the last one is fine. -/
def Event.spikes : List Event :=
  [⟨⟨5⟩, 9000, .outOfRange, 10⟩, .ok ⟨40⟩ 9000 10, .ok ⟨5⟩ 6000 20, .ok ⟨5⟩ 50 30]

/-- No fault is left of the spikes by the time the monitors have their turns. -/
theorem Engine.alarms_spikes :
    EngineConfig.sentries.build = .ok EngineConfig.sentries.toEngine ∧
      ∃ e, e = EngineConfig.sentries.toEngine.after [.step 0 [], .set ⟨5⟩ 7000 5] ∧
        EngineConfig.sentries.alarms Event.spikes =
          [⟨0, 9000, .error⟩, ⟨2, 9000, .critical⟩, ⟨0, 6000, .error⟩] ∧
        (e.step 40 Event.spikes).1.monitors = e.monitors ∧
        e.RaisesAlarms .sentries 40 Event.spikes := by
  have hb : EngineConfig.sentries.build = .ok EngineConfig.sentries.toEngine :=
    EngineConfig.build_eq_ok_iff.mpr ⟨rfl, rfl⟩
  exact ⟨hb, _, rfl, by decide +kernel, by decide +kernel,
    alarms_raised hb [.step 0 [], .set ⟨5⟩ 7000 5] 40 Event.spikes⟩

end SignalGuard
