import SignalGuard.Proofs.History
import SignalGuard.Proofs.StageUpdates

/-!
# The phases of a step

The states between the phases of `Engine.step`, each under a name of its own.
`Engine.step_table`: after ingestion and staleness, a step runs the updates of
the enabled stages. Their wires are known from the configuration, which is
feed-forward when no stage disturbs what an earlier one has read or written.
-/

namespace SignalGuard

namespace Engine

variable (e : Engine) (now : Time) (events : List Event)

def ingested : Ingestion := ingestEvents e.monitors events ⟨e.table.clearUpdated, .zero, []⟩

/-- What the stages start from. -/
def sampled : SignalTable × StepReport :=
  applyStaleness (e.ingested events).table now (e.ingested events).report

def merged : SignalTable × StepReport :=
  runMerges e.merges now (e.sampled now events).1 (e.sampled now events).2

def monitored : List Monitor × MonitorPass :=
  runMonitors e.monitors now
    ⟨(e.merged now events).1, e.scales, (e.merged now events).2, (e.ingested events).wakes⟩

def transformed : SignalTable :=
  runScales (e.monitored now events).2.scales now
    (runRemaps e.remaps now (e.monitored now events).2.table)

def controlled : List Pid × SignalTable := runPids e.pids now (e.transformed now events)

def checked : List Verified × SignalTable × StepReport :=
  runVerified e.verified now (e.controlled now events).2 (e.monitored now events).2.report

def emitted : List Cyclic × OutputBuffer × StepReport :=
  runCyclic e.cyclic (e.checked now events).2.1 now .empty (e.checked now events).2.2

theorem step_eq : e.step now events =
    ({ e with
        table := (e.checked now events).2.1
        scales := (e.monitored now events).2.scales
        monitors := (e.monitored now events).1
        pids := (e.controlled now events).1
        verified := (e.checked now events).1
        cyclic := (e.emitted now events).1
        outputs := (e.emitted now events).2.1
        lastReport := (e.emitted now events).2.2
        totals := e.totals.add (e.emitted now events).2.2 },
      (e.monitored now events).2.wakes) := rfl

end Engine

-- ---------------------------------------------------------------------------
-- Updates of a step
-- ---------------------------------------------------------------------------

namespace Engine

def readings (e : Engine) (now : Time) : List Update :=
  (e.merges.filter (·.enabled)).map (Merge.asUpdate now) ++
    (e.monitors.filter (·.config.enabled)).map (·.config.asUpdate now)

def transforms (e : Engine) (scales : List Scale) (now : Time) : List Update :=
  (e.remaps.filter (·.enabled)).map (Remap.asUpdate now) ++
    (scales.filter (·.enabled)).map (Scale.asUpdate now)

def controls (e : Engine) (now : Time) : List Update :=
  (e.pids.filter (·.config.enabled)).map (Pid.asUpdate now) ++
    (e.verified.filter (·.config.enabled)).map (Verified.asUpdate now)

/-- What a step runs once the monitors have settled on the scales. -/
def updates (e : Engine) (scales : List Scale) (now : Time) : List Update :=
  e.readings now ++ (e.transforms scales now ++ e.controls now)

/-- What every stage that writes the signal does to it, and doing nothing as
well, all updates of the signal do. -/
theorem forall_rewrites {P : (Signal → Signal) → Prop} {e : Engine} {scales : List Scale}
    {now : Time} {id : SignalId} (hid : P fun out => out)
    (hmerge : ∀ m ∈ e.merges, m.enabled → m.output = id →
      ∀ t, P (Merge.publish (m.outcome? t) now))
    (hmonitor : ∀ level, P (Monitor.publish level now))
    (hrelay : ∀ (source : Signal) f, P (source.relayed now f))
    (hpid : ∀ (p : Pid) setpoint measurement, P (p.publish now setpoint measurement))
    (hverified : ∀ v ∈ e.verified, v.config.enabled → v.config.output = id →
      ∀ verdict command feedback, P (Verified.publish v.config verdict command feedback now)) :
    ∀ u ∈ e.updates scales now, u.output = id → ∀ t, P (u.rewrite t) := by
  -- a stage whose input has no slot does nothing
  have helim {α : Type} {write : α → Signal → Signal} (h : ∀ a, P (write a)) (o : Option α) :
      P fun out => o.elim out fun a => write a out := by
    cases o with
    | none => exact hid
    | some a => exact h a
  simp only [updates, readings, transforms, controls, List.forall_mem_append, List.forall_mem_map,
    List.mem_filter, and_imp]
  refine ⟨⟨?_, ?_⟩, ⟨?_, ?_⟩, ?_, ?_⟩
  · exact fun m hm he hout t => hmerge m hm he hout t
  · exact fun m _ _ _ t => helim (fun watched => hmonitor _) (t.get? m.config.watched)
  · exact fun r _ _ _ t => helim (fun source => hrelay source r.apply) (t.get? r.input)
  · exact fun s _ _ _ t => helim (fun source => hrelay source s.apply) (t.get? s.input)
  · exact fun p _ _ _ t => helim (fun setpoint => helim (fun measurement =>
      hpid p setpoint measurement) (t.get? p.config.measurement)) (t.get? p.config.setpoint)
  · exact fun v hv he hout t => helim (fun command => helim (fun feedback =>
      hverified v hv he hout (v.due now command).1 command.value feedback)
      (t.get? v.config.feedback)) (t.get? v.config.command)

variable (e : Engine) (now : Time) (events : List Event)

theorem monitored_table : (e.monitored now events).2.table =
    Update.runAll ((e.monitors.filter (·.config.enabled)).map (·.config.asUpdate now))
      (e.merged now events).1 :=
  table_sweepFrom MonitorPass.table (Monitor.visit_update now) 0 e.monitors _

theorem readings_table :
    (e.monitored now events).2.table = Update.runAll (e.readings now) (e.sampled now events).1 := by
  rw [monitored_table, merged, runMerges_table, readings, Update.runAll_append]

theorem transformed_table : e.transformed now events =
    Update.runAll (e.transforms (e.monitored now events).2.scales now)
      (e.monitored now events).2.table := by
  rw [transformed, runRemaps_table, runScales_table, transforms, Update.runAll_append]

theorem controlled_table : (e.controlled now events).2 =
    Update.runAll ((e.pids.filter (·.config.enabled)).map (Pid.asUpdate now))
      (e.transformed now events) :=
  table_sweepFrom id (fun i p t => congrArg Prod.snd (p.visit_eq now i t)) 0 e.pids _

theorem checked_table : (e.checked now events).2.1 =
    Update.runAll (e.controls now) (e.transformed now events) := by
  rw [controls, Update.runAll_append, ← controlled_table]
  exact table_sweepFrom Prod.fst (Verified.visit_update now) 0 e.verified _

theorem step_table : (e.step now events).1.table =
    Update.runAll (e.updates (e.step now events).1.scales now) (e.sampled now events).1 := by
  rw [step_eq, updates, Update.runAll_append, ← readings_table, Update.runAll_append,
    ← transformed_table, ← checked_table]

end Engine

-- ---------------------------------------------------------------------------
-- Wires of a configuration
-- ---------------------------------------------------------------------------

namespace EngineConfig

/-- The wires of the enabled stages, in the order in which a step runs them. -/
def wires (c : EngineConfig) : List Wire :=
  (c.merges.filter (·.enabled)).map Merge.wire ++
    (c.monitors.filter (·.config.enabled)).map (·.config.wire) ++
    (c.remaps.filter (·.enabled)).map Remap.wire ++
    (c.scales.filter (·.enabled)).map Scale.wire ++
    (c.pids.filter (·.enabled)).map PidConfig.wire ++
    (c.verified.filter (·.enabled)).map VerifiedConfig.wire

/-- Every signal is the output of at most one enabled stage, and no enabled
stage reads what it writes itself or what a later one writes. -/
def FeedForward (c : EngineConfig) : Prop := Wire.FeedForward c.wires

instance (c : EngineConfig) : Decidable c.FeedForward :=
  inferInstanceAs (Decidable (Wire.FeedForward c.wires))

end EngineConfig

theorem mem_map_filter {α β : Type} {a : α} {as : List α} (f : α → β) {p : α → Bool} (ha : a ∈ as)
    (hp : p a) : f a ∈ (as.filter p).map f :=
  List.mem_map_of_mem (List.mem_filter.mpr ⟨ha, hp⟩)

/-- The enabled ones among stages that look the same look the same. -/
theorem map_filter_eq {α β γ : Type} {f : α → γ} {g : β → γ} {as : List α} {bs : List β}
    (h : as.map f = bs.map g) (p : γ → Bool) {δ : Type} (w : γ → δ) :
    (as.filter (p ∘ f)).map (w ∘ f) = (bs.filter (p ∘ g)).map (w ∘ g) := by
  rw [← List.map_map, ← List.map_map, ← List.filter_map, ← List.filter_map, h]

namespace Engine

variable {c : EngineConfig} {e : Engine}

theorem ConfiguredBy.wires (hc : e.ConfiguredBy c) {scales : List Scale}
    (hs : scales.map Scale.fixed = c.scales.map Scale.fixed) (now : Time) :
    (e.updates scales now).map Update.toWire = c.wires := by
  have hmonitors := map_filter_eq (g := id) (hc.monitors.trans (List.map_id _).symm)
    (·.config.enabled) (·.config.wire)
  have hscales := map_filter_eq hs (·.enabled) Scale.wire
  have hpids := map_filter_eq (g := id) (hc.pids.trans (List.map_id _).symm)
    (·.enabled) PidConfig.wire
  have hverified := map_filter_eq (g := id) (hc.verified.trans (List.map_id _).symm)
    (·.enabled) VerifiedConfig.wire
  simp only [updates, readings, transforms, controls, List.map_append, List.map_map,
    EngineConfig.wires, List.append_assoc, hc.merges, hc.remaps]
  exact congrArg₂ _ rfl (congrArg₂ _ hmonitors (congrArg₂ _ rfl (congrArg₂ _ hscales
    (congrArg₂ _ hpids hverified))))

theorem ConfiguredBy.feedForward (hc : e.ConfiguredBy c) (hf : c.FeedForward) (now : Time)
    (events : List Event) :
    Wire.FeedForward ((e.updates (e.step now events).1.scales now).map Update.toWire) := by
  rw [hc.wires (hc.step now events).scales now]
  exact hf

theorem ConfiguredBy.feedForward_controls (hc : e.ConfiguredBy c) (hf : c.FeedForward)
    (now : Time) : Wire.FeedForward ((e.controls now).map Update.toWire) := by
  have hff := hc.feedForward hf now []
  rw [updates, List.map_append, List.map_append] at hff
  exact hff.of_append_right.of_append_right

end Engine

end SignalGuard
