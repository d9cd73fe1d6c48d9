import SignalGuard.Proofs.FaultHistory
import SignalGuard.Proofs.Phases

/-!
# Whether a fault stays visible

A monitor publishes its result when its turn comes, and the monitors and stages
after it write to the same table. `Engine.shows_fault`: the result is on the
fault signal once the monitor has had its turn, and still there at the end of
the step if none of the later ones writes that signal.

A configuration need not keep its fault signals to the monitors, and then a
fault can be gone by the end of the step that detects it
(`Engine.fault_hidden`).
-/

namespace SignalGuard

/-- The fault signal says what the monitor has found. -/
def Monitor.Shows (m : Monitor) (t : SignalTable) : Prop :=
  ∃ out, t.get? m.config.faultOutput = some out ∧ out.status = .ok ∧
    out.value = if m.faulted then m.config.faultLevel.value else 0

theorem Monitor.visit_shows {m : Monitor} (he : m.config.enabled) (hw : m.config.watched.isValid)
    (ho : m.config.faultOutput.isValid) (now : Time) (index : Nat) (p : MonitorPass) :
    (m.visit now index p).1.Shows (m.visit now index p).2.table := by
  obtain ⟨watched, hwatched⟩ := p.table.exists_get? hw
  obtain ⟨before, hbefore⟩ := p.table.exists_get? ho
  rw [visit_monitor now index he hwatched, visit_table now index he hwatched]
  refine ⟨publish (m.config.level (m.config.detect watched now)) now before, ?_, rfl, ?_⟩
  · rw [SignalTable.get?_modify, if_pos rfl, hbefore, Option.map_some]
  · cases m.config.detect watched now with
    | true => rfl
    | false => rfl

theorem Monitor.Shows.of_eq {m : Monitor} {t u : SignalTable} (h : m.Shows t)
    (heq : u.get? m.config.faultOutput = t.get? m.config.faultOutput) : m.Shows u := by
  obtain ⟨out, hout, hrest⟩ := h
  exact ⟨out, heq.trans hout, hrest⟩

-- ---------------------------------------------------------------------------
-- What runs after a monitor
-- ---------------------------------------------------------------------------

namespace EngineConfig

/-- The configuration without the merges and the monitors up to position `i`. -/
def beyond (c : EngineConfig) (i : Nat) : EngineConfig :=
  { c with merges := [], monitors := c.monitors.drop (i + 1) }

/-- No enabled stage that runs after the monitor at position `i` writes its
fault signal. -/
def Dedicated (c : EngineConfig) (i : Nat) : Prop :=
  ∀ m ∈ c.monitors[i]?, ∀ w ∈ (c.beyond i).wires, w.output ≠ m.config.faultOutput

instance (c : EngineConfig) (i : Nat) : Decidable (c.Dedicated i) :=
  inferInstanceAs (Decidable (∀ m ∈ c.monitors[i]?, ∀ w ∈ (c.beyond i).wires,
    w.output ≠ m.config.faultOutput))

end EngineConfig

namespace Engine

def beyond (e : Engine) (i : Nat) : Engine :=
  { e with merges := [], monitors := e.monitors.drop (i + 1) }

variable {c : EngineConfig} {e : Engine} {i : Nat} {m : Monitor} {now : Time}
  {events : List Event}

theorem ConfiguredBy.beyond (hc : e.ConfiguredBy c) (i : Nat) :
    (e.beyond i).ConfiguredBy (c.beyond i) :=
  { hc with
    merges := rfl
    monitors := by
      simp only [Engine.beyond, EngineConfig.beyond, ← hc.monitors, List.map_drop] }

theorem faulted_visited (hm : e.monitors[i]? = some m) (he : m.config.enabled)
    (hw : m.config.watched.isValid) (now : Time) (events : List Event) :
    (m.visit now i (e.passAt now events i)).1.faulted = e.detects now events i := by
  obtain ⟨watched, hwatched⟩ := (e.passAt now events i).table.exists_get? hw
  rw [Monitor.visit_monitor now i he hwatched, detects_eq hm hwatched]

theorem passAt_table (e : Engine) (now : Time) (events : List Event) (i : Nat) :
    (e.passAt now events i).table =
      Update.runAll (((e.monitors.take i).filter (·.config.enabled)).map (·.config.asUpdate now))
        (e.merged now events).1 :=
  table_sweepFrom MonitorPass.table (Monitor.visit_update now) 0 (e.monitors.take i) _

theorem step_table_beyond (e : Engine) (now : Time) (events : List Event) (i : Nat) :
    (e.step now events).1.table =
      Update.runAll ((e.beyond i).updates (e.step now events).1.scales now)
        (e.passAt now events (i + 1)).table := by
  rw [step_table, passAt_table, merged, runMerges_table, ← Update.runAll_append,
    ← Update.runAll_append]
  refine congrArg (Update.runAll · _) ?_
  conv_lhs => rw [updates, readings, ← List.take_append_drop (i + 1) e.monitors]
  simp only [beyond, updates, readings, transforms, controls, List.filter_append, List.map_append,
    List.filter_nil, List.map_nil, List.nil_append, List.append_assoc]

theorem ConfiguredBy.get?_step_beyond (hc : e.ConfiguredBy c) {id : SignalId}
    (hid : ∀ w ∈ (c.beyond i).wires, w.output ≠ id) (now : Time) (events : List Event) :
    (e.step now events).1.table.get? id = (e.passAt now events (i + 1)).table.get? id := by
  rw [step_table_beyond e now events i]
  refine Update.get?_runAll_of_ne fun u hu => hid u.toWire ?_
  rw [← (hc.beyond i).wires (hc.step now events).scales now]
  exact List.mem_map_of_mem hu

/-- Every monitor shows what it detects at its turn, and a dedicated fault
signal still shows it after the step. -/
theorem shows_fault (hb : c.build = .ok e) {entry : MonitorEntry}
    (hi : c.monitors[i]? = some entry) (he : entry.config.enabled) (calls : List Call) (now : Time)
    (events : List Event) :
    ∃ m, ((e.after calls).step now events).1.monitors[i]? = some m ∧ m.entry = entry ∧
      m.faulted = (e.after calls).detects now events i ∧
      m.Shows ((e.after calls).passAt now events (i + 1)).table ∧
      (c.Dedicated i → m.Shows ((e.after calls).step now events).1.table) := by
  obtain ⟨hcheck, rfl⟩ := EngineConfig.build_eq_ok_iff.mp hb
  have hv := EngineConfig.check_eq_ok_iff.mp hcheck
  have hc := configuredBy_after (configuredBy_toEngine c) calls
  obtain ⟨m, hm, rfl⟩ := hc.exists_monitor hi
  have hvalid := hc.monitor_valid hv (List.mem_of_getElem? hm)
  have hshows := m.visit_shows he hvalid.watched hvalid.faultOutput now i
    ((c.toEngine.after calls).passAt now events i)
  rw [← passAt_succ hm] at hshows
  have hfaulted := faulted_visited hm he hvalid.watched now events
  refine ⟨_, monitor_visited hm now events, m.visit_entry .., hfaulted, hshows,
    fun hd => hshows.of_eq ?_⟩
  rw [Monitor.visit_config]
  exact hc.get?_step_beyond (hd m.entry hi) now events

theorem shows_fault_cascade :
    EngineConfig.cascade.build = .ok cascade ∧
      ∃ entry, EngineConfig.cascade.monitors[0]? = some entry ∧ entry.config.enabled ∧
        EngineConfig.cascade.Dedicated 0 ∧
        ((cascade.after [.step 0 []]).step 10 (Event.excursion 10)).1.value? ⟨10⟩ = some 3 ∧
        ∃ m, ((cascade.after [.step 0 []]).step 10 (Event.excursion 10)).1.monitors[0]? = some m ∧
          m.entry = entry ∧
          m.faulted = (cascade.after [.step 0 []]).detects 10 (Event.excursion 10) 0 ∧
          m.Shows ((cascade.after [.step 0 []]).passAt 10 (Event.excursion 10) 1).table ∧
          m.Shows ((cascade.after [.step 0 []]).step 10 (Event.excursion 10)).1.table := by
  have hd : EngineConfig.cascade.Dedicated 0 := by decide +kernel
  obtain ⟨m, hm, hentry, hdetects, hturn, hstep⟩ := shows_fault (i := 0) build_cascade rfl rfl
    [.step 0 []] 10 (Event.excursion 10)
  exact ⟨build_cascade, _, rfl, rfl, hd, by decide +kernel, m, hm, hentry, hdetects, hturn,
    hstep hd⟩

end Engine

/-- The remap writes the fault signal of the monitor. -/
def EngineConfig.masked : EngineConfig :=
  { EngineConfig.empty with
    remaps := [.ofSignals ⟨10⟩ ⟨20⟩]
    monitors := [⟨(MonitorConfig.ofSignals ⟨5⟩ ⟨20⟩ .critical).withRange 0 5000, false⟩] }

/-- The monitor is faulted at a critical level, and its fault signal is clear. -/
theorem Engine.fault_hidden :
    ∃ e entry m, EngineConfig.masked.build = .ok e ∧
      EngineConfig.masked.monitors[0]? = some entry ∧ entry.config.enabled ∧
      (e.step 1000 [.ok ⟨5⟩ 9000 1000]).1.monitors[0]? = some m ∧ m.faulted ∧
      m.config.faultOutput = ⟨20⟩ ∧ m.config.faultLevel = .critical ∧
      (e.step 1000 [.ok ⟨5⟩ 9000 1000]).1.value? ⟨20⟩ = some FaultLevel.clear.value := by
  refine ⟨EngineConfig.masked.toEngine, _, _, EngineConfig.build_eq_ok_iff.mpr ⟨rfl, rfl⟩, rfl, rfl,
    rfl, ?_⟩
  decide +kernel

end SignalGuard
