import SignalGuard.Engine
import SignalGuard.Proofs.MonitorLaws
import SignalGuard.Proofs.Validity

/-!
# Histories of an engine

A host drives an engine by three calls. `Engine.after` is the engine that a
list of calls leaves behind, and `Engine.trace` is what the host can see on the
way. `Engine.after_induction` lifts what one call preserves to every history.

A call changes what an engine remembers and never what was configured:
`configuredBy_after`.
-/

namespace SignalGuard

inductive Call
  | step (now : Time) (events : List Event)
  | set (id : SignalId) (value : Int32) (now : Time)
  | reset
  deriving DecidableEq, Repr

namespace Engine

/-- The engine after a call, and the wakes that the call caused. -/
def answer (e : Engine) : Call → Engine × List Wake
  | .step now events => e.step now events
  | .set id value now => (e.setSignal id value now, [])
  | .reset => (e.reset, [])

def after (e : Engine) (calls : List Call) : Engine :=
  calls.foldl (fun e call => (e.answer call).1) e

/-- The engine and the wakes after each of the calls. -/
def trace (e : Engine) : List Call → List (Engine × List Wake)
  | [] => []
  | call :: calls => e.answer call :: (e.answer call).1.trace calls

/-- What an observer makes of the calls, each of which it sees together with the
engine that the call finds. -/
def record {α : Type} (observe : Engine → α → Call → α) (e : Engine) (a : α) : List Call → α
  | [] => a
  | call :: calls => (e.answer call).1.record observe (observe e a call) calls

theorem after_cons (e : Engine) (call : Call) (calls : List Call) :
    e.after (call :: calls) = (e.answer call).1.after calls := rfl

theorem after_concat (e : Engine) (calls : List Call) (call : Call) :
    e.after (calls ++ [call]) = ((e.after calls).answer call).1 := by
  simp [after]

theorem record_concat {α : Type} (observe : Engine → α → Call → α) (e : Engine) (a : α)
    (calls : List Call) (call : Call) :
    e.record observe a (calls ++ [call]) =
      observe (e.after calls) (e.record observe a calls) call := by
  induction calls generalizing e a with
  | nil => rfl
  | cons first calls ih => exact ih (e.answer first).1 (observe e a first)

theorem after_induction {P : Engine → Prop} {e : Engine} (h : P e)
    (hcall : ∀ e call, P e → P (e.answer call).1) (calls : List Call) : P (e.after calls) := by
  induction calls generalizing e with
  | nil => exact h
  | cons call calls ih => exact ih (hcall e call h)

end Engine

-- ---------------------------------------------------------------------------
-- What a visit keeps of its stage
-- ---------------------------------------------------------------------------

theorem Pid.update_config (p : Pid) (setpoint measurement : Int32) (now : Time) :
    (p.update setpoint measurement now).1.config = p.config := by
  unfold update
  split
  · rfl
  · simp only
    split <;> rfl

theorem Pid.visit_config (now : Time) (index : Nat) (p : Pid) (t : SignalTable) :
    (p.visit now index t).1.config = p.config := by
  unfold visit run
  split
  · split
    · next sp m _ _ =>
      split
      · rfl
      · have h := p.update_config sp.value m.value now
        split <;> simp_all
    · rfl
  · rfl

theorem Verified.visit_config (now : Time) (index : Nat) (v : Verified)
    (s : SignalTable × StepReport) : (v.visit now index s).1.config = v.config := by
  unfold visit run
  split
  · simp only
    split <;> rfl
  · rfl

theorem Cyclic.visit_config (t : SignalTable) (now : Time) (index : Nat) (c : Cyclic)
    (s : OutputBuffer × StepReport) : (c.visit t now index s).1.config = c.config := by
  unfold visit
  simp only
  split
  · split
    · rfl
    · split <;> rfl
  · rfl

/-- What the monitor was configured as. -/
def Monitor.entry (m : Monitor) : MonitorEntry := ⟨m.config, m.hasWake⟩

theorem Monitor.visit_entry (now : Time) (index : Nat) (m : Monitor) (p : MonitorPass) :
    (m.visit now index p).1.entry = m.entry := by
  simp only [entry, visit_config, visit_hasWake]

/-- The scale without what a limp-home action may override. -/
def Scale.fixed (s : Scale) : Scale := s.setParams default

@[simp] theorem Scale.fixed_setParams (s : Scale) (p : ScaleParams) :
    (s.setParams p).fixed = s.fixed := rfl

theorem LimpAction.step_fixed (a : LimpAction) (faulted : Bool) (now : Nat) (l : LimpState)
    (s : Scale) : (a.step faulted now l s).2.fixed = s.fixed := by
  unfold step
  split <;> split
  · rfl
  · rfl
  · rfl
  · split <;> rfl

theorem Monitor.limpStep_fixed (m : Monitor) (faulted : Bool) (now : Time) (scales : List Scale) :
    (m.limpStep faulted now scales).2.map Scale.fixed = scales.map Scale.fixed := by
  unfold limpStep
  split
  · rfl
  · next action _ =>
    split
    · rfl
    · next scale hs =>
      refine List.ext_getElem? fun j => ?_
      simp only [List.getElem?_map, List.getElem?_set]
      split
      · next hj =>
        subst hj
        split <;> simp_all [LimpAction.step_fixed]
      · rfl

theorem Monitor.visit_fixed (now : Time) (index : Nat) (m : Monitor) (p : MonitorPass) :
    (m.visit now index p).2.scales.map Scale.fixed = p.scales.map Scale.fixed := by
  cases he : m.config.enabled with
  | false => rw [visit_idle now index (.inl he)]
  | true =>
    cases hw : p.table.get? m.config.watched with
    | none => rw [visit_idle now index (.inr hw)]
    | some watched => rw [visit_scales now index he hw, limpStep_fixed]

theorem Monitor.release_fixed (m : Monitor) (scales : List Scale) :
    (m.release scales).map Scale.fixed = scales.map Scale.fixed := by
  unfold release
  split
  · refine List.ext_getElem? fun j => ?_
    simp only [List.getElem?_map, List.getElem?_modify]
    cases scales[j]? with
    | none => rfl
    | some scale => split <;> rfl
  · rfl

theorem Monitor.foldl_release_fixed (monitors : List Monitor) (scales : List Scale) :
    (monitors.foldl (fun scales m => m.release scales) scales).map Scale.fixed =
      scales.map Scale.fixed := by
  induction monitors generalizing scales with
  | nil => rfl
  | cons m monitors ih => exact (ih _).trans (m.release_fixed scales)

-- ---------------------------------------------------------------------------
-- What a call keeps of an engine
-- ---------------------------------------------------------------------------

/-- The engine consists of the stages of the configuration, in whatever state
they are. -/
structure Engine.ConfiguredBy (c : EngineConfig) (e : Engine) : Prop where
  signals : e.signals = c.signals
  merges : e.merges = c.merges
  remaps : e.remaps = c.remaps
  scales : e.scales.map Scale.fixed = c.scales.map Scale.fixed
  monitors : e.monitors.map Monitor.entry = c.monitors
  pids : e.pids.map Pid.config = c.pids
  verified : e.verified.map Verified.config = c.verified
  cyclic : e.cyclic.map Cyclic.config = c.cyclic

namespace Engine

variable {c : EngineConfig} {e : Engine}

theorem configuredBy_toEngine (c : EngineConfig) : c.toEngine.ConfiguredBy c where
  signals := rfl
  merges := rfl
  remaps := rfl
  scales := rfl
  monitors := by simp [EngineConfig.toEngine, Function.comp_def, Monitor.ofConfig, Monitor.entry]
  pids := by simp [EngineConfig.toEngine, Function.comp_def, Pid.ofConfig]
  verified := by simp [EngineConfig.toEngine, Function.comp_def, Verified.ofConfig]
  cyclic := by simp [EngineConfig.toEngine, Function.comp_def, Cyclic.ofConfig]

theorem ConfiguredBy.step (h : e.ConfiguredBy c) (now : Time) (events : List Event) :
    (e.step now events).1.ConfiguredBy c where
  signals := h.signals
  merges := h.merges
  remaps := h.remaps
  scales := by
    refine Eq.trans ?_ h.scales
    exact sweepFrom_preserves (P := fun p => p.scales.map Scale.fixed = e.scales.map Scale.fixed)
      (fun i m p hp => (Monitor.visit_fixed now i m p).trans hp) 0 e.monitors
      (s := ⟨_, e.scales, _, _⟩) rfl
  monitors := (map_sweepFrom (Monitor.visit_entry now) 0 _ _).trans h.monitors
  pids := (map_sweepFrom (Pid.visit_config now) 0 _ _).trans h.pids
  verified := (map_sweepFrom (Verified.visit_config now) 0 _ _).trans h.verified
  cyclic := (map_sweepFrom (Cyclic.visit_config _ now) 0 _ _).trans h.cyclic

theorem ConfiguredBy.reset (h : e.ConfiguredBy c) : e.reset.ConfiguredBy c where
  signals := h.signals
  merges := h.merges
  remaps := h.remaps
  scales := (Monitor.foldl_release_fixed e.monitors e.scales).trans h.scales
  monitors := by
    rw [← h.monitors, Engine.reset, List.map_map]
    rfl
  pids := by
    rw [← h.pids, Engine.reset, List.map_map]
    rfl
  verified := by
    rw [← h.verified, Engine.reset, List.map_map]
    rfl
  cyclic := by
    rw [← h.cyclic, Engine.reset, List.map_map]
    rfl

theorem ConfiguredBy.answer (h : e.ConfiguredBy c) (call : Call) :
    (e.answer call).1.ConfiguredBy c := by
  cases call with
  | step now events => exact h.step now events
  | set id value now => exact { h with }
  | reset => exact h.reset

theorem configuredBy_after (h : e.ConfiguredBy c) (calls : List Call) :
    (e.after calls).ConfiguredBy c :=
  after_induction h (fun _ call h => h.answer call) calls

end Engine

-- ---------------------------------------------------------------------------
-- What the check of a configuration says about its engines
-- ---------------------------------------------------------------------------

namespace Engine

variable {c : EngineConfig} {e : Engine}

theorem ConfiguredBy.monitors_fit (hc : e.ConfiguredBy c) (hv : c.Valid) :
    e.monitors.length ≤ EngineTable.monitors.capacity := by
  have hlength := congrArg List.length hc.monitors
  rw [List.length_map] at hlength
  exact hlength ▸ hv.monitors_fit

theorem ConfiguredBy.cyclic_fit (hc : e.ConfiguredBy c) (hv : c.Valid) :
    e.cyclic.length ≤ bufferCapacity := by
  have hlength := congrArg List.length hc.cyclic
  rw [List.length_map] at hlength
  rw [hlength]
  exact Nat.le_trans hv.cyclic_fit (by decide)

theorem ConfiguredBy.scales_length (hc : e.ConfiguredBy c) : e.scales.length = c.scales.length := by
  have hlength := congrArg List.length hc.scales
  rwa [List.length_map, List.length_map] at hlength

theorem ConfiguredBy.merge_valid (h : e.ConfiguredBy c) (hv : c.Valid) {m : Merge}
    (hm : m ∈ e.merges) : m.Valid := hv.merges m (h.merges ▸ hm)

theorem ConfiguredBy.monitor_valid (h : e.ConfiguredBy c) (hv : c.Valid) {m : Monitor}
    (hm : m ∈ e.monitors) : m.config.Valid c.scales.length := by
  refine hv.monitors m.entry ?_
  rw [← h.monitors]
  exact List.mem_map_of_mem hm

theorem ConfiguredBy.remap_valid (h : e.ConfiguredBy c) (hv : c.Valid) {r : Remap}
    (hr : r ∈ e.remaps) : r.Valid := hv.remaps r (h.remaps ▸ hr)

/-- An override may change the clamps of a scale but not its signals. -/
theorem ConfiguredBy.scale_valid (h : e.ConfiguredBy c) (hv : c.Valid) {s : Scale}
    (hs : s ∈ e.scales) : s.input.isValid ∧ s.output.isValid := by
  have hmem : s.fixed ∈ c.scales.map Scale.fixed := h.scales ▸ List.mem_map_of_mem hs
  obtain ⟨own, hown, hfixed⟩ := List.mem_map.mp hmem
  have hvalid := hv.scales own hown
  exact ⟨congrArg Scale.input hfixed ▸ hvalid.input, congrArg Scale.output hfixed ▸ hvalid.output⟩

theorem ConfiguredBy.pid_valid (h : e.ConfiguredBy c) (hv : c.Valid) {p : Pid}
    (hp : p ∈ e.pids) : p.config.Valid := by
  refine hv.pids p.config ?_
  rw [← h.pids]
  exact List.mem_map_of_mem hp

theorem ConfiguredBy.verified_valid (h : e.ConfiguredBy c) (hv : c.Valid) {v : Verified}
    (hmem : v ∈ e.verified) : v.config.Valid := by
  refine hv.verified v.config ?_
  rw [← h.verified]
  exact List.mem_map_of_mem hmem

theorem ConfiguredBy.cyclic_valid (h : e.ConfiguredBy c) (hv : c.Valid) {o : Cyclic}
    (ho : o ∈ e.cyclic) : o.config.Valid := by
  refine hv.cyclic o.config ?_
  rw [← h.cyclic]
  exact List.mem_map_of_mem ho

end Engine

-- ---------------------------------------------------------------------------
-- A sample
-- ---------------------------------------------------------------------------

/-- One stage of every kind, each reading what the one before it has written. -/
def EngineConfig.cascade : EngineConfig where
  signals := [⟨⟨0⟩, 50000⟩, ⟨⟨1⟩, 50000⟩, ⟨⟨2⟩, 50000⟩]
  merges := [(Merge.ofInputs [⟨0⟩, ⟨1⟩] ⟨2⟩ .median).withTolerance 10]
  remaps := [{ Remap.ofSignals ⟨2⟩ ⟨3⟩ with invert := true }]
  scales := [(Scale.ofSignals ⟨3⟩ ⟨4⟩).withFactor 100]
  monitors := [⟨(((MonitorConfig.ofSignals ⟨2⟩ ⟨10⟩ .critical).withRange 0 5000).withStatusCheck)
    |>.withLimp (.scaleTo 0 50 100), true⟩]
  pids := [(PidConfig.ofSignals ⟨5⟩ ⟨4⟩ ⟨6⟩).withGains 1000 0 0]
  verified := [.ofSignals ⟨6⟩ ⟨7⟩ ⟨8⟩]
  cyclic := [.ofSignal ⟨8⟩ 256 100000]

def Engine.cascade : Engine := EngineConfig.cascade.toEngine

theorem Engine.build_cascade : EngineConfig.cascade.build = .ok cascade :=
  EngineConfig.build_eq_ok_iff.mpr ⟨rfl, rfl⟩

def Event.excursion (now : Time) : List Event := [.ok ⟨0⟩ 9000 now, .ok ⟨1⟩ 9000 now]

end SignalGuard
