import SignalGuard.Proofs.ReportLaws
import SignalGuard.Proofs.StrictOutputs

/-!
# Steps without fallbacks

`Engine.step?` is the step put together from strict stages, so it fails as a
whole wherever `Engine.step` would take a fallback.
`Engine.no_fallback_after`: on every engine that a host can reach the two
agree, and no output has been dropped.
-/

namespace SignalGuard

namespace Engine

/-- As `step`, without a result where `step` would take a fallback. -/
def step? (e : Engine) (now : Time) (events : List Event) : Option (Engine × List Wake) := do
  let ingested ← events.foldlM (Ingestion.ingest? e.monitors) ⟨e.table.clearUpdated, .zero, []⟩
  let (table, report) := applyStaleness ingested.table now ingested.report
  let (table, report) ← runMerges? e.merges now table report
  let (monitors, pass) ← runMonitors? e.monitors now ⟨table, e.scales, report, ingested.wakes⟩
  let table ← runRemaps? e.remaps now pass.table
  let table ← runScales? pass.scales now table
  let (pids, table) ← runPids? e.pids now table
  let (verified, table, report) ← runVerified? e.verified now table pass.report
  let (cyclic, outputs, report) ← runCyclic? e.cyclic table now .empty report
  some ({ e with
      table, scales := pass.scales, monitors, pids, verified, cyclic, outputs
      lastReport := report, totals := e.totals.add report }, pass.wakes)

variable {c : EngineConfig} {e : Engine}

theorem ConfiguredBy.runMonitors?_eq_some (hc : e.ConfiguredBy c) (hv : c.Valid) (now : Time)
    (events : List Event) :
    runMonitors? e.monitors now
        ⟨(e.merged now events).1, e.scales, (e.merged now events).2, (e.ingested events).wakes⟩ =
      some (e.monitored now events) := by
  refine SignalGuard.runMonitors?_eq_some (fun m hm => ?_)
    (Nat.le_trans (hc.monitors_fit hv) (by decide)) now
  rw [hc.scales_length]
  exact hc.monitor_valid hv hm

theorem ConfiguredBy.step?_eq_some (hc : e.ConfiguredBy c) (hv : c.Valid) (now : Time)
    (events : List Event) : e.step? now events = some (e.step now events) := by
  have hfit : e.monitors.length ≤ UInt8.size := Nat.le_trans (hc.monitors_fit hv) (by decide)
  have hingested : events.foldlM (Ingestion.ingest? e.monitors) ⟨e.table.clearUpdated, .zero, []⟩ =
      some (e.ingested events) :=
    foldlM_eq_some (fun event _ s => Ingestion.ingest?_eq_some hfit s event) _
  have hmerged : runMerges? e.merges now (e.sampled now events).1 (e.sampled now events).2 =
      some (e.merged now events) :=
    runMerges?_eq_some (fun m hm => hc.merge_valid hv hm) now _ _
  have hmonitored := hc.runMonitors?_eq_some hv now events
  have hremaps := runRemaps?_eq_some (fun r hr => hc.remap_valid hv hr) now
    (e.monitored now events).2.table
  have hscales := runScales?_eq_some (fun s hs => (hc.step now events).scale_valid hv hs) now
    (runRemaps e.remaps now (e.monitored now events).2.table)
  have hpids := runPids?_eq_some (fun p hp => hc.pid_valid hv hp) now (e.transformed now events)
  have hverified := runVerified?_eq_some (fun v hmem => hc.verified_valid hv hmem) now
    (e.controlled now events).2 (e.monitored now events).2.report
  have hcyclic := (runCyclic?_eq_some (fun o ho => hc.cyclic_valid hv ho) (hc.cyclic_fit hv)
    (e.checked now events).2.1 now (e.checked now events).2.2).1
  exact Option.bind_eq_some_iff.mpr ⟨_, hingested, Option.bind_eq_some_iff.mpr ⟨_, hmerged,
    Option.bind_eq_some_iff.mpr ⟨_, hmonitored, Option.bind_eq_some_iff.mpr ⟨_, hremaps,
    Option.bind_eq_some_iff.mpr ⟨_, hscales, Option.bind_eq_some_iff.mpr ⟨_, hpids,
    Option.bind_eq_some_iff.mpr ⟨_, hverified, Option.bind_eq_some_iff.mpr
    ⟨_, hcyclic, rfl⟩⟩⟩⟩⟩⟩⟩⟩

theorem ConfiguredBy.outputsDropped_step (hc : e.ConfiguredBy c) (hv : c.Valid) (now : Time)
    (events : List Event) : (e.step now events).1.lastReport.outputsDropped = 0 := by
  have hcyclic := (runCyclic?_eq_some (fun o ho => hc.cyclic_valid hv ho) (hc.cyclic_fit hv)
    (e.checked now events).2.1 now (e.checked now events).2.2).2
  rw [step_eq, emitted, hcyclic]
  exact (e.checked_uncounted now events).2

/-- No report tells of an output that found the buffer full. -/
def DropsNothing (e : Engine) : Prop :=
  e.lastReport.outputsDropped = 0 ∧ e.totals.outputsDropped = 0

theorem dropsNothing_after (hv : c.Valid) (calls : List Call) :
    (c.toEngine.after calls).DropsNothing := by
  suffices h : (c.toEngine.after calls).ConfiguredBy c ∧ (c.toEngine.after calls).DropsNothing from
    h.2
  refine after_induction (P := fun e => e.ConfiguredBy c ∧ e.DropsNothing)
    ⟨configuredBy_toEngine c, rfl, rfl⟩ (fun e call h => ⟨h.1.answer call, ?_⟩) calls
  obtain ⟨hc, hlast, htotals⟩ := h
  cases call with
  | step now events =>
    have hdropped := hc.outputsDropped_step hv now events
    refine ⟨hdropped, ?_⟩
    calc (e.step now events).1.totals.outputsDropped
      _ = e.totals.outputsDropped.add (e.step now events).1.lastReport.outputsDropped := rfl
      _ = Counter.add 0 0 := by rw [hdropped, htotals]
      _ = 0 := rfl
  | set id value now => exact ⟨hlast, htotals⟩
  | reset => exact ⟨rfl, rfl⟩

/-- The step of a reachable engine takes no fallback, whatever the time and the
events, and drops no output. -/
theorem no_fallback_after (hb : c.build = .ok e) (calls : List Call) :
    (∀ now events, (e.after calls).step? now events = some ((e.after calls).step now events)) ∧
      (e.after calls).DropsNothing := by
  obtain ⟨hcheck, rfl⟩ := EngineConfig.build_eq_ok_iff.mp hb
  have hv := EngineConfig.check_eq_ok_iff.mp hcheck
  have hc := configuredBy_after (configuredBy_toEngine c) calls
  exact ⟨fun now events => hc.step?_eq_some hv now events, dropsNothing_after hv calls⟩

/-- An excursion degrades the scale, and the output is due. -/
theorem no_fallback_cascade :
    EngineConfig.cascade.build = .ok cascade ∧
      (∃ after, (cascade.after [.step 0 []]).step? 100000 (Event.excursion 100000) = some after ∧
        after.1.scales.map Scale.scaleFactor = [50] ∧ after.1.outputs.toList.length = 1) ∧
      (cascade.after [.step 0 [], .step 100000 (Event.excursion 100000)]).DropsNothing :=
  ⟨build_cascade,
    ⟨_, (no_fallback_after build_cascade [.step 0 []]).1 100000 (Event.excursion 100000),
      by decide +kernel, by decide +kernel⟩,
    (no_fallback_after build_cascade [.step 0 [], .step 100000 (Event.excursion 100000)]).2⟩

-- a remap that no check has looked at
example :
    let unchecked := { EngineConfig.empty with remaps := [.ofSignals ⟨40⟩ ⟨1⟩] }.toEngine
    unchecked.step? 0 [] = none := by
  decide +kernel

end Engine

end SignalGuard
