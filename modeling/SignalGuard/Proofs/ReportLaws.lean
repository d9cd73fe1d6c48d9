import SignalGuard.Proofs.IngestionLaws

/-!
# Which counters a phase touches

Every phase counts its own affairs: a report leaves a phase with other counts
of these and is otherwise the report that entered it. So a counter has its
value from the phase that owns it (`Engine.lastReport_eq`).
-/

namespace SignalGuard

theorem runMerges_report (merges : List Merge) (now : Time) (t : SignalTable) (r : StepReport) :
    ∃ run starved, (runMerges merges now t r).2 =
      { r with mergesRun := run, mergesWithoutInput := starved } := by
  refine List.foldlRecOn (motive := fun s : SignalTable × StepReport =>
    ∃ run starved, s.2 = { r with mergesRun := run, mergesWithoutInput := starved })
    _ _ ⟨_, _, rfl⟩ fun s hs m _ => ?_
  obtain ⟨t, r'⟩ := s
  obtain ⟨run, starved, rfl⟩ := hs
  simp only [Merge.run]
  split
  · exact ⟨_, _, rfl⟩
  · split
    · exact ⟨_, _, rfl⟩
    · exact ⟨_, _, rfl⟩

theorem Monitor.visit_report (now : Time) (index : Nat) (m : Monitor) (p : MonitorPass) :
    ∃ wakes faulted entries exits, (m.visit now index p).2.report =
      { p.report with
        monitorWakes := wakes, monitorsFaulted := faulted
        limpEntries := entries, limpExits := exits } := by
  simp only [visit, run, stepLimp]
  split
  · split
    · exact ⟨_, _, _, _, rfl⟩
    · split
      · exact ⟨_, _, _, _, rfl⟩
      · split
        · exact ⟨_, _, _, _, rfl⟩
        · exact ⟨_, _, _, _, rfl⟩
  · exact ⟨_, _, _, _, rfl⟩

theorem runMonitors_report (monitors : List Monitor) (now : Time) (p : MonitorPass) :
    ∃ wakes faulted entries exits, (runMonitors monitors now p).2.report =
      { p.report with
        monitorWakes := wakes, monitorsFaulted := faulted
        limpEntries := entries, limpExits := exits } := by
  refine sweepFrom_preserves (P := fun q : MonitorPass => ∃ wakes faulted entries exits,
    q.report = { p.report with
      monitorWakes := wakes, monitorsFaulted := faulted
      limpEntries := entries, limpExits := exits }) (fun i m q hq => ?_) 0 monitors
    ⟨_, _, _, _, rfl⟩
  obtain ⟨_, _, _, _, hq⟩ := hq
  obtain ⟨wakes, faulted, entries, exits, h⟩ := m.visit_report now i q
  exact ⟨wakes, faulted, entries, exits, by rw [h, hq]⟩

theorem runVerified_report (outputs : List Verified) (now : Time) (t : SignalTable)
    (r : StepReport) :
    ∃ failed, (runVerified outputs now t r).2.2 = { r with verificationsFailed := failed } := by
  refine sweepFrom_preserves (P := fun s : SignalTable × StepReport =>
    ∃ failed, s.2 = { r with verificationsFailed := failed }) (fun i v s hs => ?_) 0 outputs
    ⟨_, rfl⟩
  obtain ⟨t, r'⟩ := s
  obtain ⟨failed, rfl⟩ := hs
  simp only [Verified.visit, Verified.run]
  split
  · split
    · exact ⟨_, rfl⟩
    · exact ⟨_, rfl⟩
  · exact ⟨_, rfl⟩

theorem runCyclic_report (outputs : List Cyclic) (t : SignalTable) (now : Time) (b : OutputBuffer)
    (r : StepReport) :
    ∃ emitted dropped, (runCyclic outputs t now b r).2.2 =
      { r with outputsEmitted := emitted, outputsDropped := dropped } := by
  refine sweepFrom_preserves (P := fun s : OutputBuffer × StepReport =>
    ∃ emitted dropped, s.2 = { r with outputsEmitted := emitted, outputsDropped := dropped })
    (fun i c s hs => ?_) 0 outputs ⟨_, _, rfl⟩
  obtain ⟨b, r'⟩ := s
  obtain ⟨emitted, dropped, rfl⟩ := hs
  simp only [Cyclic.visit]
  split
  · split
    · exact ⟨_, _, rfl⟩
    · split
      · exact ⟨_, _, rfl⟩
      · exact ⟨_, _, rfl⟩
  · exact ⟨_, _, rfl⟩

namespace Engine

variable (e : Engine) (now : Time) (events : List Event)

theorem ingested_report :
    ∃ applied discarded wakes, (e.ingested events).report =
      { StepReport.zero with
        eventsIngested := applied, eventsDiscarded := discarded, fastPathWakes := wakes } :=
  ⟨_, _, _, ingestEvents_counts ..⟩

theorem sampled_report :
    ∃ applied discarded wakes timedOut, (e.sampled now events).2 =
      { StepReport.zero with
        eventsIngested := applied, eventsDiscarded := discarded, fastPathWakes := wakes
        signalsTimedOut := timedOut } := by
  obtain ⟨applied, discarded, wakes, h⟩ := e.ingested_report events
  exact ⟨applied, discarded, wakes, (e.sampled now events).2.signalsTimedOut, by
    simp only [sampled, applyStaleness, h]⟩

theorem merged_report :
    ∃ run starved, (e.merged now events).2 =
      { (e.sampled now events).2 with mergesRun := run, mergesWithoutInput := starved } :=
  runMerges_report ..

theorem monitored_report :
    ∃ wakes faulted entries exits, (e.monitored now events).2.report =
      { (e.merged now events).2 with
        monitorWakes := wakes, monitorsFaulted := faulted
        limpEntries := entries, limpExits := exits } :=
  runMonitors_report ..

/-- The counters of the monitors are untouched before their turn. -/
theorem merged_uncounted :
    (e.merged now events).2.monitorWakes = 0 ∧ (e.merged now events).2.monitorsFaulted = 0 ∧
      (e.merged now events).2.limpEntries = 0 ∧ (e.merged now events).2.limpExits = 0 := by
  obtain ⟨_, _, _, _, hsampled⟩ := e.sampled_report now events
  obtain ⟨_, _, hmerged⟩ := e.merged_report now events
  rw [hmerged, hsampled]
  exact ⟨rfl, rfl, rfl, rfl⟩

theorem checked_report :
    ∃ failed, (e.checked now events).2.2 =
      { (e.monitored now events).2.report with verificationsFailed := failed } :=
  runVerified_report ..

/-- The counters of the outputs are untouched before their turn. -/
theorem checked_uncounted :
    (e.checked now events).2.2.outputsEmitted = 0 ∧
      (e.checked now events).2.2.outputsDropped = 0 := by
  obtain ⟨_, _, _, _, hsampled⟩ := e.sampled_report now events
  obtain ⟨_, _, hmerged⟩ := e.merged_report now events
  obtain ⟨_, _, _, _, hmonitored⟩ := e.monitored_report now events
  obtain ⟨_, hchecked⟩ := e.checked_report now events
  rw [hchecked, hmonitored, hmerged, hsampled]
  exact ⟨rfl, rfl⟩

theorem lastReport_step :
    ∃ emitted dropped, (e.step now events).1.lastReport =
      { (e.checked now events).2.2 with outputsEmitted := emitted, outputsDropped := dropped } :=
  runCyclic_report ..

/-- Every counter has its value from the phase that owns it. -/
theorem lastReport_eq : (e.step now events).1.lastReport = {
    eventsIngested := (e.ingested events).report.eventsIngested
    eventsDiscarded := (e.ingested events).report.eventsDiscarded
    fastPathWakes := (e.ingested events).report.fastPathWakes
    signalsTimedOut := (e.sampled now events).2.signalsTimedOut
    mergesRun := (e.merged now events).2.mergesRun
    mergesWithoutInput := (e.merged now events).2.mergesWithoutInput
    monitorWakes := (e.monitored now events).2.report.monitorWakes
    monitorsFaulted := (e.monitored now events).2.report.monitorsFaulted
    limpEntries := (e.monitored now events).2.report.limpEntries
    limpExits := (e.monitored now events).2.report.limpExits
    verificationsFailed := (e.checked now events).2.2.verificationsFailed
    outputsEmitted := (e.emitted now events).2.2.outputsEmitted
    outputsDropped := (e.emitted now events).2.2.outputsDropped } := by
  obtain ⟨_, _, _, hingested⟩ := e.ingested_report events
  obtain ⟨timedOut, hsampled⟩ : ∃ timedOut, (e.sampled now events).2 =
      { (e.ingested events).report with signalsTimedOut := timedOut } := ⟨_, rfl⟩
  obtain ⟨_, _, hmerged⟩ := e.merged_report now events
  obtain ⟨_, _, _, _, hmonitored⟩ := e.monitored_report now events
  obtain ⟨_, hchecked⟩ := e.checked_report now events
  obtain ⟨_, _, hlast⟩ := e.lastReport_step now events
  have hemitted : (e.emitted now events).2.2 = (e.step now events).1.lastReport := rfl
  rw [hemitted, hlast, hchecked, hmonitored, hmerged, hsampled]

end Engine

end SignalGuard
