import SignalGuard.Proofs.Listeners

/-!
# Disabled entries do nothing

`Engine.pruned` is the engine without its disabled merges, remaps, controllers,
verified and cyclic outputs. Pruning commutes with every call and keeps the
wakes of each, so an engine and its pruned form go through the same history:
`Engine.pruned_trace`. Scales and monitors keep their places, since limp-home
actions refer to scales and wakes to monitors by position. A disabled monitor
stays as it was built and every step passes over it.
-/

namespace SignalGuard

/-- The configuration without the disabled entries that nothing refers to by
position. -/
def EngineConfig.pruned (c : EngineConfig) : EngineConfig :=
  { c with
    merges := c.merges.filter (·.enabled)
    remaps := c.remaps.filter (·.enabled)
    pids := c.pids.filter (·.enabled)
    verified := c.verified.filter (·.enabled)
    cyclic := c.cyclic.filter (·.enabled) }

/-- The engine without the disabled entries that nothing refers to by position.
What is left remembers what it did. -/
def Engine.pruned (e : Engine) : Engine :=
  { e with
    merges := e.merges.filter (·.enabled)
    remaps := e.remaps.filter (·.enabled)
    pids := e.pids.filter (·.config.enabled)
    verified := e.verified.filter (·.config.enabled)
    cyclic := e.cyclic.filter (·.config.enabled) }

-- ---------------------------------------------------------------------------
-- The phases of a step
-- ---------------------------------------------------------------------------

theorem runMerges_pruned (merges : List Merge) (now : Time) (t : SignalTable) (r : StepReport) :
    runMerges (merges.filter (·.enabled)) now t r = runMerges merges now t r := by
  simp only [runMerges, List.filter_filter, Bool.and_self]

theorem runRemaps_pruned (remaps : List Remap) (now : Time) (t : SignalTable) :
    runRemaps (remaps.filter (·.enabled)) now t = runRemaps remaps now t := by
  simp only [runRemaps, List.filter_filter, Bool.and_self]

theorem runPids_pruned (pids : List Pid) (now : Time) (t : SignalTable) :
    runPids (pids.filter (·.config.enabled)) now t =
      ((runPids pids now t).1.filter (·.config.enabled), (runPids pids now t).2) := by
  refine sweepFrom_filter (fun _ _ => rfl) (fun i p t => ?_) (fun i p t hp => ?_) 0 0 pids t
  · rw [Pid.visit_config]
  · rw [Pid.visit, if_neg (by simp [hp])]

theorem runVerified_pruned (outputs : List Verified) (now : Time) (t : SignalTable)
    (r : StepReport) :
    runVerified (outputs.filter (·.config.enabled)) now t r =
      ((runVerified outputs now t r).1.filter (·.config.enabled),
        (runVerified outputs now t r).2) := by
  refine sweepFrom_filter (fun _ _ => rfl) (fun i v s => ?_) (fun i v s hv => ?_) 0 0 outputs (t, r)
  · rw [Verified.visit_config]
  · rw [Verified.visit, if_neg (by simp [hv])]

theorem runCyclic_pruned (outputs : List Cyclic) (t : SignalTable) (now : Time) (b : OutputBuffer)
    (r : StepReport) :
    runCyclic (outputs.filter (·.config.enabled)) t now b r =
      ((runCyclic outputs t now b r).1.filter (·.config.enabled),
        (runCyclic outputs t now b r).2) := by
  refine sweepFrom_filter (fun _ _ => rfl) (fun i c s => ?_) (fun i c s hc => ?_) 0 0 outputs (b, r)
  · rw [Cyclic.visit_config]
  · rw [Cyclic.visit, Cyclic.due, hc, Bool.false_and, if_neg Bool.false_ne_true]

-- ---------------------------------------------------------------------------
-- Calls
-- ---------------------------------------------------------------------------

namespace Engine

variable (e : Engine) (now : Time) (events : List Event)

theorem monitored_pruned : e.pruned.monitored now events = e.monitored now events := by
  have hmerged : e.pruned.merged now events = e.merged now events := runMerges_pruned ..
  rw [monitored, hmerged]
  rfl

theorem controlled_pruned :
    e.pruned.controlled now events =
      ((e.controlled now events).1.filter (·.config.enabled), (e.controlled now events).2) := by
  have htransformed : e.pruned.transformed now events = e.transformed now events := by
    rw [transformed, monitored_pruned, pruned, runRemaps_pruned]
    rfl
  rw [controlled, htransformed]
  exact runPids_pruned ..

theorem checked_pruned :
    e.pruned.checked now events =
      ((e.checked now events).1.filter (·.config.enabled), (e.checked now events).2) := by
  rw [checked, monitored_pruned, controlled_pruned]
  exact runVerified_pruned ..

theorem emitted_pruned :
    e.pruned.emitted now events =
      ((e.emitted now events).1.filter (·.config.enabled), (e.emitted now events).2) := by
  rw [emitted, checked_pruned]
  exact runCyclic_pruned ..

theorem pruned_step :
    e.pruned.step now events = ((e.step now events).1.pruned, (e.step now events).2) := by
  rw [step_eq, monitored_pruned, controlled_pruned, checked_pruned, emitted_pruned]
  rfl

theorem pruned_reset : e.pruned.reset = e.reset.pruned := by
  simp only [reset, pruned, List.filter_map]
  rfl

theorem pruned_answer (call : Call) :
    e.pruned.answer call = ((e.answer call).1.pruned, (e.answer call).2) := by
  cases call with
  | step now events => exact e.pruned_step now events
  | set id value now => rfl
  | reset => exact congrArg (·, []) e.pruned_reset

theorem pruned_trace (calls : List Call) :
    e.pruned.trace calls = (e.trace calls).map fun (e, wakes) => (e.pruned, wakes) := by
  induction calls generalizing e with
  | nil => rfl
  | cons call calls ih => rw [trace, pruned_answer, ih, trace, List.map_cons]

theorem pruned_after (calls : List Call) : e.pruned.after calls = (e.after calls).pruned := by
  induction calls generalizing e with
  | nil => rfl
  | cons call calls ih => rw [after_cons, pruned_answer, ih, after_cons]

end Engine

-- ---------------------------------------------------------------------------
-- Configurations
-- ---------------------------------------------------------------------------

namespace EngineConfig

theorem Valid.pruned {c : EngineConfig} (h : c.Valid) : c.pruned.Valid where
  signals_fit := h.signals_fit
  signals := h.signals
  merges_fit := Nat.le_trans (List.length_filter_le ..) h.merges_fit
  merges m hm := h.merges m (List.mem_filter.mp hm).1
  remaps_fit := Nat.le_trans (List.length_filter_le ..) h.remaps_fit
  remaps r hr := h.remaps r (List.mem_filter.mp hr).1
  scales_fit := h.scales_fit
  scales := h.scales
  monitors_fit := h.monitors_fit
  monitors := h.monitors
  limpTargets := h.limpTargets
  pids_fit := Nat.le_trans (List.length_filter_le ..) h.pids_fit
  pids p hp := h.pids p (List.mem_filter.mp hp).1
  verified_fit := Nat.le_trans (List.length_filter_le ..) h.verified_fit
  verified v hv := h.verified v (List.mem_filter.mp hv).1
  cyclic_fit := Nat.le_trans (List.length_filter_le ..) h.cyclic_fit
  cyclic o ho := h.cyclic o (List.mem_filter.mp ho).1

theorem toEngine_pruned (c : EngineConfig) : c.pruned.toEngine = c.toEngine.pruned := by
  simp only [toEngine, pruned, Engine.pruned, List.filter_map]
  rfl

end EngineConfig

-- ---------------------------------------------------------------------------
-- Disabled monitors
-- ---------------------------------------------------------------------------

namespace Engine

variable {c : EngineConfig} {e : Engine} {i : Nat} {entry : MonitorEntry}

/-- The engine passes over the monitor at position `i`: the monitor is as it was
built, its turn changes neither table nor scales nor counters, a reset finds
nothing to restore, and its listener is not called. -/
structure PassesOver (e : Engine) (i : Nat) (entry : MonitorEntry) : Prop where
  state : e.monitors[i]? = some (.ofConfig entry.config entry.hasWake)
  turn : ∀ now events, e.passAt now events (i + 1) = e.passAt now events i
  raw : ∀ event, Ingestion.rawCall event (.ofConfig entry.config entry.hasWake) i = []
  release : ∀ scales, (Monitor.ofConfig entry.config entry.hasWake).release scales = scales
  silent : ∀ now events, ∀ w ∈ (e.step now events).2, w.monitor ≠ Monitor.number i

theorem asleep_after (hi : c.monitors[i]? = some entry) (he : entry.config.enabled = false)
    (calls : List Call) :
    (c.toEngine.after calls).monitors[i]? = some (.ofConfig entry.config entry.hasWake) := by
  induction calls using List.reverseRecOn with
  | nil => simp [after, EngineConfig.toEngine, hi]
  | append_singleton calls call ih =>
    rw [after_concat]
    cases call with
    | step now events =>
      have hidle := Monitor.visit_idle now i (.inl he)
        (m := .ofConfig entry.config entry.hasWake)
        (p := (c.toEngine.after calls).passAt now events i)
      rw [answer, monitor_visited ih, hidle]
    | set id value now => exact ih
    | reset => simp [answer, Engine.reset, ih, Monitor.reset, Monitor.ofConfig]

theorem ConfiguredBy.passesOver (hc : e.ConfiguredBy c) (hv : c.Valid)
    (hm : e.monitors[i]? = some (.ofConfig entry.config entry.hasWake))
    (he : entry.config.enabled = false) : e.PassesOver i entry := by
  have hidle (now : Time) (p : MonitorPass) :
      (Monitor.ofConfig entry.config entry.hasWake).visit now i p = (_, p) :=
    Monitor.visit_idle now i (.inl he)
  refine ⟨hm, fun now events => ?_, fun event => ?_, fun _ => rfl,
    fun now events w hw hnumber => ?_⟩
  · rw [passAt_succ hm, hidle]
  · simp [Ingestion.rawCall, Monitor.ofConfig, Monitor.call, he]
  · obtain ⟨hi, -⟩ := List.getElem?_eq_some_iff.mp hm
    have hbyte : i < UInt8.size :=
      Nat.lt_of_lt_of_le hi (Nat.le_trans (hc.monitors_fit hv) (by decide))
    obtain ⟨m, hcaller, -, henabled⟩ := hc.exists_caller hv hw
    rw [hnumber, Monitor.number, UInt8.toNat_ofNatClamp_of_lt hbyte, hm] at hcaller
    obtain rfl := Option.some.inj hcaller
    rw [Monitor.ofConfig, he] at henabled
    cases henabled

/-- An engine behaves as if its disabled entries were not there. -/
theorem disabled_inert (hb : c.build = .ok e) :
    (∃ e', c.pruned.build = .ok e' ∧ ∀ calls, e'.after calls = (e.after calls).pruned ∧
      e'.trace calls = (e.trace calls).map fun (e, wakes) => (e.pruned, wakes)) ∧
    ∀ i entry, c.monitors[i]? = some entry → entry.config.enabled = false →
      ∀ calls, (e.after calls).PassesOver i entry := by
  obtain ⟨hcheck, rfl⟩ := EngineConfig.build_eq_ok_iff.mp hb
  have hv := EngineConfig.check_eq_ok_iff.mp hcheck
  refine ⟨⟨_, EngineConfig.build_eq_ok_iff.mpr
    ⟨EngineConfig.check_eq_ok_iff.mpr hv.pruned, rfl⟩, fun calls => ?_⟩, ?_⟩
  · rw [EngineConfig.toEngine_pruned]
    exact ⟨pruned_after _ calls, pruned_trace _ calls⟩
  · intro i entry hi he calls
    have hc := configuredBy_after (configuredBy_toEngine c) calls
    exact hc.passesOver hv (asleep_after hi he calls) he

end Engine

/-- An entry of every kind that would disturb the watchers if it were enabled. -/
def EngineConfig.halfOff : EngineConfig :=
  { watchers with
    merges := [{ Merge.ofInputs [⟨0⟩] ⟨5⟩ .median with enabled := false }]
    remaps := [{ Remap.ofSignals ⟨0⟩ ⟨20⟩ with enabled := false }]
    scales := [.ofSignals ⟨5⟩ ⟨6⟩]
    monitors := watchers.monitors ++ [⟨{ (MonitorConfig.ofSignals ⟨5⟩ ⟨20⟩ .warning).withRange 0 0
      |>.withLimp (.scaleTo 0 50 100) with enabled := false }, true⟩]
    pids := [{ PidConfig.ofSignals ⟨0⟩ ⟨1⟩ ⟨5⟩ with enabled := false }]
    verified := [{ VerifiedConfig.ofSignals ⟨0⟩ ⟨1⟩ ⟨20⟩ with enabled := false }]
    cyclic := [{ CyclicConfig.ofSignal ⟨5⟩ 1 10 with enabled := false }, .ofSignal ⟨5⟩ 2 10] }

namespace Engine

def halfOff : Engine := EngineConfig.halfOff.toEngine

theorem disabled_inert_halfOff :
    EngineConfig.halfOff.build = .ok halfOff ∧ halfOff.cyclic.length = 2 ∧
      halfOff.pruned.cyclic.length = 1 ∧
      (∃ e', EngineConfig.halfOff.pruned.build = .ok e' ∧
        e'.after Call.relapse = (halfOff.after Call.relapse).pruned ∧
        e'.trace Call.relapse =
          (halfOff.trace Call.relapse).map fun (e, wakes) => (e.pruned, wakes)) ∧
      ∃ entry, EngineConfig.halfOff.monitors[2]? = some entry ∧ entry.config.enabled = false ∧
        (halfOff.after Call.relapse).PassesOver 2 entry := by
  have hb : EngineConfig.halfOff.build = .ok halfOff :=
    EngineConfig.build_eq_ok_iff.mpr ⟨rfl, rfl⟩
  obtain ⟨⟨e', hb', hrun⟩, hmonitors⟩ := disabled_inert hb
  exact ⟨hb, rfl, rfl, ⟨e', hb', hrun Call.relapse⟩, _, rfl, rfl,
    hmonitors 2 _ rfl rfl Call.relapse⟩

end Engine

end SignalGuard
