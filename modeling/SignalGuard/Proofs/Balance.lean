import Mathlib.Algebra.GroupWithZero.Nat
import Mathlib.Data.List.Induction
import SignalGuard.Proofs.FaultHistory

/-!
# The counters balance with the state

What a step is given is counted once: an event is ingested or discarded, an
enabled merge runs or lacks input, a monitor that is faulted afterwards counts
(`Engine.StepBalances`). Over a run the totals are the sums of the steps, as far
as a counter can hold them, and the entries into limp-home that no exit has
followed are the monitors that are in limp-home (`Engine.TotalsBalance`).
-/

namespace SignalGuard

-- ---------------------------------------------------------------------------
-- Merges
-- ---------------------------------------------------------------------------

theorem Merge.run_counts {m : Merge} (h : m.output.isValid) (now : Time) (t : SignalTable)
    (r : StepReport) :
    ∃ run starved, run + starved = 1 ∧ (m.run now (t, r)).2 =
      { r with
        mergesRun := r.mergesRun.addNat run
        mergesWithoutInput := r.mergesWithoutInput.addNat starved } := by
  obtain ⟨slot, hslot⟩ := t.exists_get? h
  simp only [run, hslot]
  cases m.outcome? t with
  | some outcome => exact ⟨1, 0, rfl, by simp [Counter.succ_eq_addNat]⟩
  | none => exact ⟨0, 1, rfl, by simp [Counter.succ_eq_addNat]⟩

/-- Every enabled merge either votes or lacks input. -/
theorem runMerges_counts {merges : List Merge} (h : ∀ m ∈ merges, m.output.isValid) (now : Time)
    (t : SignalTable) (r : StepReport) :
    ∃ run starved, run + starved = merges.countP (·.enabled) ∧ (runMerges merges now t r).2 =
      { r with
        mergesRun := r.mergesRun.addNat run
        mergesWithoutInput := r.mergesWithoutInput.addNat starved } := by
  induction merges generalizing t r with
  | nil => exact ⟨0, 0, rfl, by simp [runMerges]⟩
  | cons m merges ih =>
    obtain ⟨hm, hmerges⟩ := List.forall_mem_cons.mp h
    cases he : m.enabled with
    | false =>
      obtain ⟨run, starved, hsum, hreport⟩ := ih hmerges t r
      refine ⟨run, starved, ?_, ?_⟩
      · rw [hsum, List.countP_cons_of_neg (by simp [he])]
      · rw [← hreport, runMerges, runMerges, List.filter_cons_of_neg (by simp [he])]
    | true =>
      obtain ⟨run, starved, hone, hfirst⟩ := m.run_counts hm now t r
      obtain ⟨run', starved', hsum, hrest⟩ := ih hmerges (m.run now (t, r)).1 (m.run now (t, r)).2
      refine ⟨run + run', starved + starved', ?_, ?_⟩
      · rw [List.countP_cons_of_pos he, ← hsum, ← hone]
        omega
      · have hcons : runMerges (m :: merges) now t r =
            runMerges merges now (m.run now (t, r)).1 (m.run now (t, r)).2 := by
          rw [runMerges, List.filter_cons_of_pos he, List.foldl_cons, runMerges]
        rw [hcons, hrest, hfirst, Counter.addNat_addNat, Counter.addNat_addNat]

-- ---------------------------------------------------------------------------
-- Monitors
-- ---------------------------------------------------------------------------

namespace Monitor

/-- Faulted and still looking. -/
def reportsFault (m : Monitor) : Bool := m.config.enabled && m.faulted

theorem visit_monitorsFaulted {m : Monitor} (h : m.config.watched.isValid) (now : Time)
    (index : Nat) (p : MonitorPass) :
    (m.visit now index p).2.report.monitorsFaulted =
      p.report.monitorsFaulted.succIf (m.visit now index p).1.reportsFault := by
  obtain ⟨watched, hwatched⟩ := p.table.exists_get? h
  cases he : m.config.enabled with
  | false =>
    rw [visit_idle now index (.inl he), reportsFault, he]
    rfl
  | true =>
    rw [visit_monitor now index he hwatched, reportsFault, he]
    simp [visit, run, he, hwatched, stepLimp_eq]

theorem sweepFrom_monitorsFaulted {ms : List Monitor} (h : ∀ m ∈ ms, m.config.watched.isValid)
    (now : Time) (i : Nat) (p : MonitorPass) :
    (sweepFrom (visit now) i ms p).2.report.monitorsFaulted =
      p.report.monitorsFaulted.addNat ((sweepFrom (visit now) i ms p).1.countP reportsFault) := by
  have hsnd : (ms.zip (sweepFrom (visit now) i ms p).1).map Prod.snd =
      (sweepFrom (visit now) i ms p).1 := List.map_snd_zip (Nat.le_of_eq (length_sweepFrom ..))
  rw [sweepFrom_counts (fun p : MonitorPass => p.report.monitorsFaulted)
    (fun _ m' : Monitor => m'.reportsFault) (fun m hm i p => visit_monitorsFaulted (h m hm) now i p)]
  conv_rhs => rw [← hsnd, List.countP_map]
  rfl

/-- A turn changes whether the state is limp-home, and by one. -/
theorem isLimp_turn (m m' : Monitor) :
    (if m'.limp.isLimp then 1 else 0) + (if m.turn? m' = some .exit then 1 else 0) =
      (if m.limp.isLimp then 1 else 0) + if m.turn? m' = some .entry then 1 else 0 := by
  unfold turn? LimpState.turn?
  cases m.limp.isLimp <;> cases m'.limp.isLimp <;> rfl

theorem countP_isLimp_turns {ms ms' : List Monitor} (h : ms.length = ms'.length) :
    ms'.countP (·.limp.isLimp) +
        (ms.zip ms').countP (fun mm => mm.1.turn? mm.2 = some .exit) =
      ms.countP (·.limp.isLimp) +
        (ms.zip ms').countP (fun mm => mm.1.turn? mm.2 = some .entry) := by
  induction ms generalizing ms' with
  | nil =>
    obtain rfl : ms' = [] := by simpa using h.symm
    rfl
  | cons m ms ih =>
    cases ms' with
    | nil => simp at h
    | cons m' ms' =>
      have hfirst := m.isLimp_turn m'
      have hrest := ih (Nat.succ.inj h)
      simp only [List.zip_cons_cons, List.countP_cons, decide_eq_true_eq]
      omega

end Monitor

-- ---------------------------------------------------------------------------
-- One step
-- ---------------------------------------------------------------------------

namespace Engine

variable {c : EngineConfig} {e : Engine}

/-- The report of a step accounts for the events it is given, for the enabled
merges and for the monitors that it leaves faulted. -/
structure StepBalances (e : Engine) (now : Time) (events : List Event) : Prop where
  given : events.length < UInt32.size →
    (e.step now events).1.lastReport.eventsIngested.toNat +
      (e.step now events).1.lastReport.eventsDiscarded.toNat = events.length
  merges :
    (e.step now events).1.lastReport.mergesRun.toNat +
      (e.step now events).1.lastReport.mergesWithoutInput.toNat = e.merges.countP (·.enabled)
  faulted :
    (e.step now events).1.lastReport.monitorsFaulted.toNat =
      (e.step now events).1.monitors.countP Monitor.reportsFault

theorem eventsCounted_step (e : Engine) (now : Time) {events : List Event}
    (h : events.length < UInt32.size) :
    (e.step now events).1.lastReport.eventsIngested.toNat +
      (e.step now events).1.lastReport.eventsDiscarded.toNat = events.length := by
  have hsum : events.length =
      events.countP (·.signal.isValid) + events.countP (!·.signal.isValid) := by
    simpa only [Bool.not_eq_true, Bool.decide_eq_false] using
      List.length_eq_countP_add_countP (·.signal.isValid) (l := events)
  rw [lastReport_eq, ingested, ingestEvents_counts]
  have hingested : (Counter.addNat 0 (events.countP (·.signal.isValid))).toNat =
      events.countP (·.signal.isValid) := Counter.toNat_zero_addNat (by omega)
  have hdiscarded : (Counter.addNat 0 (events.countP (!·.signal.isValid))).toNat =
      events.countP (!·.signal.isValid) := Counter.toNat_zero_addNat (by omega)
  exact (congrArg₂ _ hingested hdiscarded).trans hsum.symm

theorem ConfiguredBy.mergesCounted_step (hc : e.ConfiguredBy c) (hv : c.Valid) (now : Time)
    (events : List Event) :
    (e.step now events).1.lastReport.mergesRun.toNat +
      (e.step now events).1.lastReport.mergesWithoutInput.toNat = e.merges.countP (·.enabled) := by
  obtain ⟨run, starved, hsum, hreport⟩ := runMerges_counts
    (fun m hm => (hc.merge_valid hv hm).output) now (e.sampled now events).1
    (e.sampled now events).2
  obtain ⟨_, _, _, _, hsampled⟩ := e.sampled_report now events
  have hfit : e.merges.countP (·.enabled) < UInt32.size := by
    refine Nat.lt_of_le_of_lt (Nat.le_trans List.countP_le_length ?_)
      (by decide : EngineTable.merges.capacity < UInt32.size)
    exact hc.merges ▸ hv.merges_fit
  rw [lastReport_eq, merged, hreport, hsampled]
  have hrun : (Counter.addNat 0 run).toNat = run := Counter.toNat_zero_addNat (by omega)
  have hstarved : (Counter.addNat 0 starved).toNat = starved :=
    Counter.toNat_zero_addNat (by omega)
  exact (congrArg₂ _ hrun hstarved).trans hsum

theorem ConfiguredBy.faultsCounted_step (hc : e.ConfiguredBy c) (hv : c.Valid) (now : Time)
    (events : List Event) :
    (e.step now events).1.lastReport.monitorsFaulted.toNat =
      (e.step now events).1.monitors.countP Monitor.reportsFault := by
  have hstart := (e.merged_uncounted now events).2.1
  have hcount : (e.monitored now events).2.report.monitorsFaulted =
      (e.merged now events).2.monitorsFaulted.addNat
        ((e.step now events).1.monitors.countP Monitor.reportsFault) :=
    Monitor.sweepFrom_monitorsFaulted (fun m hm => (hc.monitor_valid hv hm).watched) now 0 _
  have hfit := (hc.step now events).monitors_fit hv
  rw [lastReport_eq, hcount, hstart]
  refine Counter.toNat_zero_addNat (Nat.lt_of_le_of_lt List.countP_le_length ?_)
  exact Nat.lt_of_le_of_lt hfit (by decide)

theorem ConfiguredBy.stepBalances (hc : e.ConfiguredBy c) (hv : c.Valid) (now : Time)
    (events : List Event) : e.StepBalances now events where
  given := e.eventsCounted_step now
  merges := hc.mergesCounted_step hv now events
  faulted := hc.faultsCounted_step hv now events

-- ---------------------------------------------------------------------------
-- Runs
-- ---------------------------------------------------------------------------

def noteReport (e : Engine) (reports : List StepReport) : Call → List StepReport
  | .step now events => reports ++ [(e.step now events).1.lastReport]
  | .set .. => reports
  | .reset => []

/-- The reports of the steps since the engine was built or last reset. -/
def reports (e : Engine) (calls : List Call) : List StepReport := e.record noteReport [] calls

theorem reports_concat (e : Engine) (calls : List Call) (call : Call) :
    e.reports (calls ++ [call]) = noteReport (e.after calls) (e.reports calls) call :=
  record_concat ..

end Engine

/-- What the counter of a name has counted in all of the reports. -/
def StepReport.sum (reports : List StepReport) (name : String) : Nat :=
  (reports.map (·.count name)).sum

theorem StepReport.sum_concat (reports : List StepReport) (r : StepReport) (name : String) :
    sum (reports ++ [r]) name = sum reports name + r.count name := by
  simp [sum]

namespace Engine

variable {c : EngineConfig} {e : Engine}

theorem totals_after (c : EngineConfig) (calls : List Call) (name : String) :
    (c.toEngine.after calls).totals.count name =
      min (UInt32.size - 1) (StepReport.sum (c.toEngine.reports calls) name) := by
  have hzero : StepReport.zero.count name = min (UInt32.size - 1) (StepReport.sum [] name) :=
    StepReport.count_zero name
  induction calls using List.reverseRecOn with
  | nil => exact hzero
  | append_singleton calls call ih =>
    rw [after_concat, reports_concat]
    cases call with
    | step now events =>
      have htotals : (((c.toEngine.after calls).answer (.step now events)).1).totals =
          (c.toEngine.after calls).totals.add
            ((c.toEngine.after calls).step now events).1.lastReport := rfl
      rw [htotals, StepReport.count_add, ih, noteReport, StepReport.sum_concat]
      omega
    | set id value now => exact ih
    | reset => exact hzero

/-- The entries that no exit has followed are the monitors in limp-home. -/
def LimpBalances (e : Engine) (reports : List StepReport) : Prop :=
  StepReport.sum reports "limp_entries" =
    StepReport.sum reports "limp_exits" + e.monitors.countP (·.limp.isLimp)

theorem limpBalances_toEngine (c : EngineConfig) : c.toEngine.LimpBalances [] := by
  simp [LimpBalances, EngineConfig.toEngine, StepReport.sum, List.countP_map, Function.comp_def,
    Monitor.ofConfig, LimpState.isLimp]

theorem LimpBalances.step {reports : List StepReport} (h : e.LimpBalances reports)
    (hfit : e.monitors.length < UInt32.size) (now : Time) (events : List Event) :
    (e.step now events).1.LimpBalances (reports ++ [(e.step now events).1.lastReport]) := by
  have hlength : (e.step now events).1.monitors.length = e.monitors.length :=
    length_sweepFrom ..
  have hturns := Monitor.countP_isLimp_turns hlength.symm
  have hentries : (e.step now events).1.lastReport.count "limp_entries" = _ :=
    e.turns_step hfit now events .entry
  have hexits : (e.step now events).1.lastReport.count "limp_exits" = _ :=
    e.turns_step hfit now events .exit
  unfold LimpBalances at h ⊢
  rw [StepReport.sum_concat, StepReport.sum_concat, hentries, hexits]
  omega

theorem limpBalances_reset (e : Engine) : e.reset.LimpBalances [] := by
  simp [LimpBalances, reset, StepReport.sum, List.countP_map, Function.comp_def, Monitor.reset,
    Monitor.ofConfig, LimpState.isLimp]

theorem limpBalances_after (hv : c.Valid) (calls : List Call) :
    (c.toEngine.after calls).LimpBalances (c.toEngine.reports calls) := by
  induction calls using List.reverseRecOn with
  | nil => exact limpBalances_toEngine c
  | append_singleton calls call ih =>
    have hc := configuredBy_after (configuredBy_toEngine c) calls
    rw [after_concat, reports_concat]
    cases call with
    | step now events =>
      exact ih.step (Nat.lt_of_le_of_lt (hc.monitors_fit hv) (by decide)) now events
    | set id value now => exact ih
    | reset => exact limpBalances_reset _

/-- The totals account for the reports of a run and for its limp-home. -/
structure TotalsBalance (e : Engine) (reports : List StepReport) : Prop where
  counts : ∀ name, e.totals.count name = min (UInt32.size - 1) (StepReport.sum reports name)
  limp : StepReport.sum reports "limp_entries" < UInt32.size - 1 →
    StepReport.sum reports "limp_exits" < UInt32.size - 1 →
    e.totals.limpEntries.toNat = e.totals.limpExits.toNat + e.monitors.countP (·.limp.isLimp)

theorem LimpBalances.totals {reports : List StepReport} (h : e.LimpBalances reports)
    (hcounts : ∀ name, e.totals.count name =
      min (UInt32.size - 1) (StepReport.sum reports name)) : e.TotalsBalance reports where
  counts := hcounts
  limp := by
    intro hentries hexits
    have htotalEntries : e.totals.limpEntries.toNat = _ := hcounts "limp_entries"
    have htotalExits : e.totals.limpExits.toNat = _ := hcounts "limp_exits"
    unfold LimpBalances at h
    omega

/-- Whatever the history, the counters of the next step balance with what it is
given and leaves behind, and the totals with the steps so far. -/
theorem counters_balance (hb : c.build = .ok e) (calls : List Call) :
    (∀ now events, (e.after calls).StepBalances now events) ∧
      (e.after calls).TotalsBalance (e.reports calls) := by
  obtain ⟨hcheck, rfl⟩ := EngineConfig.build_eq_ok_iff.mp hb
  have hv := EngineConfig.check_eq_ok_iff.mp hcheck
  have hc := configuredBy_after (configuredBy_toEngine c) calls
  exact ⟨hc.stepBalances hv, (limpBalances_after hv calls).totals (totals_after c calls)⟩

end Engine

/-- After a reset an excursion comes with a stray event and passes, and then
nothing comes any more. -/
def Call.aftermath : List Call :=
  [.step 0 (Event.excursion 0), .reset, .step 10 (Event.excursion 10 ++ [.ok ⟨40⟩ 1 10]),
    .step 200000 (Event.calm 200000), .step 300010 []]

theorem Engine.counters_balance_cascade :
    EngineConfig.cascade.build = .ok cascade ∧
      (cascade.reports Call.aftermath).map
          (fun r => (r.eventsDiscarded, r.mergesWithoutInput, r.limpEntries, r.limpExits)) =
        [(1, 0, 1, 0), (0, 0, 0, 1), (0, 1, 1, 0)] ∧
      (cascade.after Call.aftermath).monitors.countP (·.limp.isLimp) = 1 ∧
      (∀ now events, (cascade.after Call.aftermath).StepBalances now events) ∧
      (cascade.after Call.aftermath).TotalsBalance (cascade.reports Call.aftermath) :=
  ⟨build_cascade, by decide +kernel, by decide +kernel,
    counters_balance build_cascade Call.aftermath⟩

end SignalGuard
