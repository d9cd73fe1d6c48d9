import SignalGuard.Proofs.GlitchFree
import SignalGuard.Proofs.LimpHome
import SignalGuard.Proofs.ReportLaws
import SignalGuard.Proofs.Sampling

/-!
# Stepping again at the same time

A second step without events starts from the table of the first one, with the
dirty flags cleared and the staleness check run once more. Merges and monitors
write the same again (`Update.StableAt`), so every monitor sees what it has
seen already (`sameAt_runAll`) and stays as it is (`Monitor.sweepFrom_settled`).
`Engine.steady_restep` is the summary.
-/

namespace SignalGuard

-- ---------------------------------------------------------------------------
-- Slots and updates
-- ---------------------------------------------------------------------------

/-- The slot as the next step at the same time takes it up. -/
def Signal.resampled (now : Time) (s : Signal) : Signal := s.clean.expire now

@[simp] theorem Signal.resampled_value (now : Time) (s : Signal) :
    (s.resampled now).value = s.value := s.clean.expire_value now

@[simp] theorem Signal.resampled_timestamp (now : Time) (s : Signal) :
    (s.resampled now).timestamp = s.timestamp := s.clean.expire_timestamp now

@[simp] theorem Signal.resampled_stalenessThreshold (now : Time) (s : Signal) :
    (s.resampled now).stalenessThreshold = s.stalenessThreshold :=
  s.clean.expire_stalenessThreshold now

theorem Signal.resampled_expire (now : Time) (s : Signal) :
    ((s.expire now).resampled now).clean = (s.expire now).clean := by
  unfold resampled expire
  cases h : s.overdue now with
  | true =>
    simp only [if_pos]
    split <;> rfl
  | false =>
    have h' : s.clean.overdue now = false := h
    simp [h']

namespace Update

/-- Resampling an output and writing it again changes nothing but the dirty
flag. -/
def StableAt (u : Update) (now : Time) (t : SignalTable) : Prop :=
  ∀ s, (u.rewrite t ((u.rewrite t s).resampled now)).clean = (u.rewrite t s).clean

variable {now : Time} {t final : SignalTable} {us later : List Update}

/-- Stable updates that run again on their resampled outputs bring back the
table in which they hold, except for what is written `later`. -/
theorem sameAt_runAll (hff : Wire.FeedForward ((us ++ later).map toWire))
    (hstable : ∀ u ∈ us, u.StableAt now final) (hholds : ∀ u ∈ us, u.Holds final)
    (hsame : ∀ id, (∀ u ∈ us ++ later, u.output ≠ id) → t.SameAt final id)
    (hold : ∀ u ∈ us, t.get? u.output = (final.get? u.output).map (Signal.resampled now))
    {id : SignalId} (hid : ∀ u ∈ later, u.output ≠ id) : (runAll us t).SameAt final id := by
  induction us generalizing t with
  | nil => exact hsame id hid
  | cons u us ih =>
    obtain ⟨hbefore, hself, hrest⟩ := Wire.feedForward_cons.mp hff
    simp only [List.forall_mem_map] at hbefore
    rw [List.forall_mem_cons] at hstable hholds hold
    -- `u` finds its inputs as they are in the end
    have hin : u.rewrite t = u.rewrite final := by
      refine u.rewrite_congr _ _ fun id hid => hsame id fun v hv heq => ?_
      rcases List.mem_cons.mp hv with rfl | hv
      · exact hself (heq ▸ hid)
      · exact (hbefore v hv).2 (heq ▸ hid)
    refine ih hrest hstable.2 hholds.2 (fun id hid => ?_) fun v hv => ?_
    · by_cases heq : u.output = id
      · subst heq
        obtain ⟨s, hs⟩ := hholds.1
        rw [SignalTable.SameAt, get?_run, if_pos rfl, hold.1, hs, hin]
        exact congrArg some (hstable.1 s)
      · rw [SignalTable.SameAt, get?_run, if_neg heq]
        refine hsame id fun v hv => ?_
        rcases List.mem_cons.mp hv with rfl | hv
        · exact heq
        · exact hid v hv
    · rw [get?_run, if_neg (hbefore v (List.mem_append_left _ hv)).1]
      exact hold.2 v hv

end Update

theorem Merge.stableAt (m : Merge) (now : Time) (t : SignalTable) :
    (m.asUpdate now).StableAt now t := by
  intro s
  simp only [asUpdate]
  cases m.outcome? t with
  | some o => simp [publish, Signal.clean]
  | none =>
    -- the output is an error either way, whether or not it has expired
    have hclean (s : Signal) : (publish none now s).clean = { s.clean with status := .error } := by
      by_cases h : s.status = .error
      · simp [publish, h, Signal.clean]
      · simp [publish, h, Signal.clean]
    have hkeeps : (publish none now s).value = s.value ∧
        (publish none now s).timestamp = s.timestamp ∧
        (publish none now s).stalenessThreshold = s.stalenessThreshold := by
      by_cases h : s.status = .error
      · simp [publish, h]
      · simp [publish, h]
    rw [hclean, hclean]
    simp [Signal.clean, hkeeps]

theorem MonitorConfig.stableAt (c : MonitorConfig) (hw : c.watched.isValid) (now : Time)
    (t : SignalTable) : (c.asUpdate now).StableAt now t := by
  intro s
  obtain ⟨watched, hwatched⟩ := t.exists_get? hw
  simp [asUpdate, hwatched, Monitor.publish, Signal.clean]

-- ---------------------------------------------------------------------------
-- Monitors
-- ---------------------------------------------------------------------------

theorem LimpAction.step_step (a : LimpAction) (faulted : Bool) (now : Nat) (l : LimpState)
    (s : Scale) : a.step faulted now (a.step faulted now l s).1 (a.step faulted now l s).2 =
      a.step faulted now l s := by
  cases l with
  | normal => cases faulted <;> rfl
  | limp saved lastFault =>
    cases faulted with
    | true => rfl
    | false =>
      by_cases h : a.restoreDelay.toNat ≤ now - lastFault
      · simp [step, h]
      · simp [step, h]

namespace Monitor

/-- Limp-home has nothing left to do at this time for the last result. -/
def AtRest (now : Time) (scales : List Scale) (m : Monitor) : Prop :=
  ∀ a ∈ m.config.limp, ∀ s ∈ scales[a.targetScale.toNat]?,
    a.step m.faulted (now.toNat / 1000) m.limp s = (m.limp, s)

variable {m : Monitor} {now : Time} {scales : List Scale} {p : MonitorPass}

theorem framed_atRest (now : Time) : Framed (AtRest now) := by
  intro m scales scales' heq h a ha s hs
  rw [heq _ (by simp [target?, Option.mem_def.mp ha])] at hs
  exact h a ha s hs

theorem AtRest.limpStep_eq (h : m.AtRest now scales) :
    m.limpStep m.faulted now scales = (m.limp, scales) := by
  unfold limpStep
  split
  · rfl
  · next a ha =>
    split
    · rfl
    · next s hs =>
      obtain ⟨hlt, hget⟩ := List.getElem?_eq_some_iff.mp hs
      simp only [h a ha s hs]
      rw [← hget, List.set_getElem_self]

theorem visit_atRest {watched : Signal} (i : Nat) (he : m.config.enabled)
    (hw : p.table.get? m.config.watched = some watched) :
    (m.visit now i p).1.AtRest now (m.visit now i p).2.scales := by
  rw [visit_monitor now i he hw, visit_scales now i he hw]
  intro a ha s hs
  dsimp only at ha hs ⊢
  rw [Option.mem_def] at ha hs
  cases hscale : p.scales[a.targetScale.toNat]? with
  | none =>
    simp only [limpStep, ha, hscale] at hs
    cases hs
  | some scale =>
    obtain ⟨hlt, -⟩ := List.getElem?_eq_some_iff.mp hscale
    simp only [limpStep, ha, hscale, List.getElem?_set_self hlt, Option.some.injEq] at hs ⊢
    rw [← hs, LimpAction.step_step]

end Monitor

/-- Between the passes nothing has changed but the table and the number of
faulted monitors. -/
structure MonitorPass.Unmoved (p p' : MonitorPass) : Prop where
  scales : p'.scales = p.scales
  wakes : p'.wakes = p.wakes
  report : ∃ n, p'.report = { p.report with monitorsFaulted := n }

theorem MonitorPass.Unmoved.trans {p q r : MonitorPass} (hpq : p.Unmoved q) (hqr : q.Unmoved r) :
    p.Unmoved r := by
  obtain ⟨n, hn⟩ := hpq.report
  obtain ⟨k, hk⟩ := hqr.report
  exact ⟨hqr.scales.trans hpq.scales, hqr.wakes.trans hpq.wakes, k, by rw [hk, hn]⟩

namespace Monitor

variable {m : Monitor} {now : Time} {p : MonitorPass}

/-- A monitor that sees what it has seen already keeps still. -/
theorem visit_settled (i : Nat) (hw : m.config.watched.isValid)
    (hd : m.detected now p.table = m.faulted) (hr : m.config.enabled → m.AtRest now p.scales) :
    (m.visit now i p).1 = m ∧ p.Unmoved (m.visit now i p).2 := by
  cases he : m.config.enabled with
  | false =>
    rw [visit_idle now i (.inl he)]
    exact ⟨rfl, rfl, rfl, p.report.monitorsFaulted, rfl⟩
  | true =>
    obtain ⟨watched, hwatched⟩ := p.table.exists_get? hw
    rw [detected, if_pos he, hwatched, Option.elim_some] at hd
    have hlimp := (hr he).limpStep_eq
    refine ⟨?_, ?_, ?_, p.report.monitorsFaulted.succIf m.faulted, ?_⟩
    · rw [visit_monitor now i he hwatched, hd, hlimp]
    · rw [visit_scales now i he hwatched, hd, hlimp]
    · simp [visit, run, he, hwatched, hd, stepLimp_eq, call]
    · simp [visit, run, he, hwatched, hd, stepLimp_eq, hlimp, call, Counter.succIf]

/-- So does every monitor that would see on the table after the pass what it
has seen already. -/
theorem sweepFrom_settled (i : Nat) {ms : List Monitor}
    (hff : Wire.FeedForward
      (((ms.filter (·.config.enabled)).map (·.config.asUpdate now)).map Update.toWire))
    (hw : ∀ m ∈ ms, m.config.watched.isValid)
    (hd : ∀ m ∈ ms, m.detected now (sweepFrom (visit now) i ms p).2.table = m.faulted)
    (hr : ∀ m ∈ ms, m.config.enabled → m.AtRest now p.scales) :
    (sweepFrom (visit now) i ms p).1 = ms ∧ p.Unmoved (sweepFrom (visit now) i ms p).2 := by
  induction ms generalizing i p with
  | nil => exact ⟨rfl, rfl, rfl, p.report.monitorsFaulted, rfl⟩
  | cons m ms ih =>
    rw [List.forall_mem_cons] at hw hd hr
    have hfirst : m.detected now p.table = m.faulted := by
      rw [← hd.1, table_sweepFrom MonitorPass.table (visit_update now)]
      refine (detected_congr fun he id hid => ?_).symm
      rw [List.filter_cons_of_pos (p := fun m : Monitor => m.config.enabled) he] at hff ⊢
      exact Update.sameAt_input hff hid
    have hlater : Wire.FeedForward
        (((ms.filter (·.config.enabled)).map (·.config.asUpdate now)).map Update.toWire) := by
      cases he : m.config.enabled with
      | true =>
        rw [List.filter_cons_of_pos (p := fun m : Monitor => m.config.enabled) he] at hff
        exact (Wire.feedForward_cons.mp hff).2.2
      | false => rwa [List.filter_cons_of_neg (by simp [he])] at hff
    obtain ⟨hm, hunmoved⟩ := visit_settled i hw.1 hfirst hr.1
    obtain ⟨hms, hrest⟩ := ih (i + 1) (p := (m.visit now i p).2) hlater hw.2 hd.2
      (by rw [hunmoved.scales]; exact hr.2)
    rw [sweepFrom_cons]
    exact ⟨congrArg₂ _ hm hms, hunmoved.trans hrest⟩

end Monitor

-- ---------------------------------------------------------------------------
-- Reports
-- ---------------------------------------------------------------------------

/-- No wake was counted, and no limp-home action began or ended. -/
structure StepReport.Quiet (r : StepReport) : Prop where
  limpEntries : r.limpEntries = 0
  limpExits : r.limpExits = 0
  monitorWakes : r.monitorWakes = 0
  fastPathWakes : r.fastPathWakes = 0

-- ---------------------------------------------------------------------------
-- Engines
-- ---------------------------------------------------------------------------

namespace Engine

variable {c : EngineConfig} {e : Engine} {now : Time} {events : List Event}

theorem step_readings (e : Engine) (now : Time) (events : List Event) :
    (e.step now events).1.readings now = e.readings now := by
  have hconfigs :
      (e.step now events).1.monitors.map Monitor.config = e.monitors.map Monitor.config :=
    map_sweepFrom (Monitor.visit_config now) 0 _ _
  exact congrArg ((e.merges.filter (·.enabled)).map (Merge.asUpdate now) ++ ·)
    (map_filter_eq hconfigs (·.enabled) (MonitorConfig.asUpdate now))

theorem ConfiguredBy.readings_stable (hc : e.ConfiguredBy c) (hv : c.Valid) {u : Update}
    (hu : u ∈ e.readings now) (t : SignalTable) : u.output.isValid ∧ u.StableAt now t := by
  rcases List.mem_append.mp hu with hu | hu
  · obtain ⟨m, hm, rfl⟩ := List.mem_map.mp hu
    have hvalid := hc.merge_valid hv (List.mem_filter.mp hm).1
    exact ⟨hvalid.output, m.stableAt now t⟩
  · obtain ⟨m, hm, rfl⟩ := List.mem_map.mp hu
    have hvalid := hc.monitor_valid hv (List.mem_filter.mp hm).1
    exact ⟨hvalid.faultOutput, m.config.stableAt hvalid.watched now t⟩

theorem get?_sampled (e : Engine) (now : Time) (id : SignalId) :
    (e.sampled now []).1.get? id = (e.table.get? id).map (Signal.resampled now) := by
  rw [get?_sampled_ingested, get?_ingested, Option.map_map]
  rfl

/-- After the monitors of the second step the table agrees with that of the
first one, except for what transforms and controllers write. -/
theorem ConfiguredBy.sameAt_restep (hc : e.ConfiguredBy c) (hv : c.Valid) (hf : c.FeedForward)
    {id : SignalId} (hid : ∀ u ∈ e.transforms (e.step now events).1.scales now ++ e.controls now,
      u.output ≠ id) :
    ((e.step now events).1.monitored now []).2.table.SameAt (e.step now events).1.table id := by
  rw [readings_table, step_readings]
  refine Update.sameAt_runAll (hc.feedForward hf now events)
    (fun u hu => (hc.readings_stable hv hu _).2)
    (fun u hu => hc.holds hf (List.mem_append_left _ hu) (hc.readings_stable hv hu e.table).1)
    (fun id hid => ?_) (fun u _ => get?_sampled _ now u.output) hid
  -- a signal that nobody writes has expired in the first step already
  have hexpired : ∃ s : Option Signal,
      (e.step now events).1.table.get? id = s.map (Signal.expire now) := by
    rw [step_table]
    exact ⟨_, (Update.get?_runAll_of_ne hid).trans (SignalTable.get?_mapSlots ..)⟩
  obtain ⟨s, hs⟩ := hexpired
  rw [SignalTable.SameAt, get?_sampled, hs]
  cases s with
  | none => rfl
  | some s => exact congrArg some (Signal.resampled_expire now s)

/-- Nobody who runs after the monitors writes what a monitor watches. -/
theorem ConfiguredBy.watched_ne_output (hc : e.ConfiguredBy c) (hf : c.FeedForward) {m : Monitor}
    (hm : m ∈ (e.step now events).1.monitors) (he : m.config.enabled) :
    ∀ u ∈ e.transforms (e.step now events).1.scales now ++ e.controls now,
      u.output ≠ m.config.watched := by
  intro u hu heq
  have hff := (hc.feedForward hf now events).1
  rw [updates, List.map_append, List.pairwise_append, ← step_readings e now events] at hff
  have hmem : m.config.asUpdate now ∈ (e.step now events).1.readings now :=
    List.mem_append_right _ (mem_map_filter (·.config.asUpdate now) hm he)
  have hbefore := hff.2.2 _ (List.mem_map_of_mem hmem) _ (List.mem_map_of_mem hu)
  exact hbefore.2 (heq ▸ List.mem_cons_self)

theorem ConfiguredBy.detected_restep (hc : e.ConfiguredBy c) (hv : c.Valid) (hf : c.FeedForward)
    {m : Monitor} (hm : m ∈ (e.step now events).1.monitors) :
    m.detected now ((e.step now events).1.monitored now []).2.table = m.faulted := by
  cases he : m.config.enabled with
  | false => simp [Monitor.detected, he]
  | true =>
    have hsame : ∀ id ∈ (m.config.asUpdate now).inputs,
        ((e.step now events).1.monitored now []).2.table.SameAt (e.step now events).1.table id := by
      intro id hid
      rw [List.mem_singleton.mp hid]
      exact hc.sameAt_restep hv hf (hc.watched_ne_output hf hm he)
    obtain ⟨watched, -, hwatched, -, hfaulted, -⟩ :=
      (hc.glitchFree hv hf now events).monitors m hm he
    rw [Monitor.detected_congr fun _ => hsame, Monitor.detected, if_pos he, hwatched, hfaulted,
      Option.elim_some]

theorem ConfiguredBy.atRest_step (hc : e.ConfiguredBy c) (hv : c.Valid) {m : Monitor}
    (hm : m ∈ (e.step now events).1.monitors) :
    m.config.enabled → m.AtRest now (e.step now events).1.scales := by
  refine Monitor.sweepFrom_each (P := fun _ m => m.config.watched.isValid)
    (Q := fun scales m => m.config.enabled → m.AtRest now scales) (fun _ _ _ _ h => h)
    (fun m _ _ heq h he => Monitor.framed_atRest now m _ _ heq (h he)) (fun i m p hw he => ?_) 0
    (hc.apart hv) (fun m hm => (hc.monitor_valid hv hm).watched) m hm
  obtain ⟨watched, hwatched⟩ := p.table.exists_get? hw
  rw [Monitor.visit_config] at he
  exact Monitor.visit_atRest i he hwatched

theorem ConfiguredBy.monitored_restep (hc : e.ConfiguredBy c) (hv : c.Valid) (hf : c.FeedForward)
    (now : Time) (events : List Event) :
    ((e.step now events).1.monitored now []).1 = (e.step now events).1.monitors ∧
      MonitorPass.Unmoved
        ⟨((e.step now events).1.merged now []).1, (e.step now events).1.scales,
          ((e.step now events).1.merged now []).2, []⟩
        ((e.step now events).1.monitored now []).2 := by
  refine Monitor.sweepFrom_settled 0 ?_
    (fun m hm => ((hc.step now events).monitor_valid hv hm).watched)
    (fun m hm => hc.detected_restep hv hf hm) fun m hm => hc.atRest_step hv hm
  have hff := (hc.step now events).feedForward hf now []
  rw [updates, List.map_append, readings, List.map_append] at hff
  exact hff.of_append_left.of_append_right

/-- Nothing that belongs to fault handling differs between the engines, nothing
was reported of it, and the outputs due at `now` were emitted. -/
structure Steady (now : Time) (e e' : Engine) : Prop where
  monitors : e'.monitors = e.monitors
  scales : e'.scales = e.scales
  faultOutputs : ∀ m ∈ e.monitors, m.config.enabled →
    e'.value? m.config.faultOutput = e.value? m.config.faultOutput
  quiet : e'.lastReport.Quiet
  outputs : e'.outputs.toList.map some =
    (e.cyclic.filter (·.due now)).map (Cyclic.emission? e'.table now)

theorem ConfiguredBy.steady (hc : e.ConfiguredBy c) (hv : c.Valid) (hf : c.FeedForward)
    (now : Time) (events : List Event) :
    (e.step now events).1.Steady now ((e.step now events).1.step now []).1 := by
  obtain ⟨hmonitors, hunmoved⟩ := hc.monitored_restep hv hf now events
  have hfirst := hc.glitchFree hv hf now events
  have hsecond := (hc.step now events).glitchFree hv hf now []
  have hmonitors :
      ((e.step now events).1.step now []).1.monitors = (e.step now events).1.monitors :=
    hmonitors
  refine ⟨hmonitors, hunmoved.scales, fun m hm he => ?_, ?_, hsecond.outputs⟩
  · obtain ⟨-, out, -, hout, -, hvalue, -⟩ := hfirst.monitors m hm he
    obtain ⟨-, out', -, hout', -, hvalue', -⟩ := hsecond.monitors m (hmonitors ▸ hm) he
    simp only [value?, signal?, hout, hout', Option.map_some, hvalue, hvalue']
  · obtain ⟨_, _, hmerged⟩ := (e.step now events).1.merged_report now []
    obtain ⟨_, hmonitored⟩ := hunmoved.report
    obtain ⟨_, hchecked⟩ := (e.step now events).1.checked_report now []
    obtain ⟨_, _, hlast⟩ := (e.step now events).1.lastReport_step now []
    rw [hlast, hchecked, hmonitored, hmerged]
    exact ⟨rfl, rfl, rfl, rfl⟩

/-- Stepping a feed-forward engine again at the same time, without events,
neither raises nor clears a fault and neither enters nor leaves limp-home. No
listener is called, and the outputs that are still due are emitted. -/
theorem steady_restep (hb : c.build = .ok e) (hf : c.FeedForward) (calls : List Call)
    (now : Time) (events : List Event) :
    ((e.after calls).step now events).1.Steady now
        (((e.after calls).step now events).1.step now []).1 ∧
      (((e.after calls).step now events).1.step now []).2 = [] := by
  obtain ⟨hcheck, rfl⟩ := EngineConfig.build_eq_ok_iff.mp hb
  have hv := EngineConfig.check_eq_ok_iff.mp hcheck
  have hc := configuredBy_after (configuredBy_toEngine c) calls
  exact ⟨hc.steady hv hf now events, (hc.monitored_restep hv hf now events).2.wakes⟩

/-- The cascade after its inputs have timed out. -/
def starved : Engine := ((cascade.after [.step 0 (Event.excursion 0)]).step 200000 []).1

/-- In the second step the output of the merge turns from an error into a
timeout and back. -/
theorem steady_starved :
    EngineConfig.cascade.build = .ok cascade ∧ EngineConfig.cascade.FeedForward ∧
      starved.monitors.map (fun m => (m.faulted, m.limp.isLimp)) = [(true, true)] ∧
      starved.Steady 200000 (starved.step 200000 []).1 ∧
      (starved.step 200000 []).1.outputs.toList.length = 1 :=
  have hf : EngineConfig.cascade.FeedForward := by decide +kernel
  ⟨build_cascade, hf, by decide +kernel,
    (steady_restep build_cascade hf [.step 0 (Event.excursion 0)] 200000 []).1, by decide +kernel⟩

end Engine

end SignalGuard
