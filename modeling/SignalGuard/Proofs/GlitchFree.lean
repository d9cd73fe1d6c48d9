import Mathlib.Data.List.Forall2
import SignalGuard.Proofs.CyclicLaws
import SignalGuard.Proofs.Phases
import SignalGuard.Proofs.VoteLaws

/-!
# A step leaves a table without glitches

Every stage stands for an equation between its input slots and its output slot.
`Engine.glitchFree_step`: after a step of a feed-forward engine all these
equations hold on the final table, although every stage has read the table in
the middle of the step.
-/

namespace SignalGuard

-- ---------------------------------------------------------------------------
-- The equations of the stages
-- ---------------------------------------------------------------------------

/-- The output holds the vote over the usable inputs. -/
def Merge.Fused (m : Merge) (t : SignalTable) : Prop :=
  ∃ out, t.get? m.output = some out ∧
    (m.ballots t = [] → out.status = .error) ∧
    (m.ballots t ≠ [] → vote? (m.ballots t) m.method m.tolerance m.majorityQuorum =
      some ⟨out.value, out.status⟩)

/-- The monitor is faulted as its watched signal calls for, and says so. -/
def Monitor.Reports (m : Monitor) (now : Time) (t : SignalTable) : Prop :=
  ∃ watched out, t.get? m.config.watched = some watched ∧ t.get? m.config.faultOutput = some out ∧
    m.faulted = m.config.detect watched now ∧
    out.value = (if m.faulted then m.config.faultLevel.value else 0) ∧ out.status = .ok

/-- The output has the status of the input, and its transformed value if that
is `ok`. -/
def SignalTable.Relays (t : SignalTable) (input output : SignalId) (f : Int32 → Int32) : Prop :=
  ∃ source out, t.get? input = some source ∧ t.get? output = some out ∧
    out.status = source.status ∧ (source.status = .ok → out.value = f source.value)

/-- The controller has become `p'`, and its output is that of the evaluation. -/
def Pid.Evaluated (p : Pid) (now : Time) (t : SignalTable) (p' : Pid) : Prop :=
  ∃ setpoint measurement out, t.get? p.config.setpoint = some setpoint ∧
    t.get? p.config.measurement = some measurement ∧ t.get? p.config.output = some out ∧
    (∀ status, badInput? setpoint measurement = some status →
      p' = p.reset ∧ out.status = status) ∧
    (badInput? setpoint measurement = none →
      p' = (p.update setpoint.value measurement.value now).1 ∧
        ∀ value, (p.update setpoint.value measurement.value now).2 = some value →
          out.value = value ∧ out.status = .ok)

/-- The verified output has become `v'`, and its output shows the verdict. -/
def Verified.Checked (v : Verified) (now : Time) (t : SignalTable) (v' : Verified) : Prop :=
  ∃ command feedback out, t.get? v.config.command = some command ∧
    t.get? v.config.feedback = some feedback ∧ t.get? v.config.output = some out ∧
    v' = { v with pursuit := some (judge v.config (v.follow command.value now) now).2 } ∧
    ((judge v.config (v.follow command.value now) now).1 = .pending →
      out.value = command.value ∧ out.status = .ok) ∧
    ((judge v.config (v.follow command.value now) now).1 = .checked →
      out.value = feedback.value ∧
        out.status = if confirms v.config command.value feedback then .ok else .error)

/-- The equations of all enabled stages hold on the table of `e'`, which has
come out of a step of `e`. -/
structure Engine.GlitchFree (e : Engine) (now : Time) (e' : Engine) : Prop where
  merges : ∀ m ∈ e'.merges, m.enabled → m.Fused e'.table
  monitors : ∀ m ∈ e'.monitors, m.config.enabled → m.Reports now e'.table
  remaps : ∀ r ∈ e'.remaps, r.enabled → e'.table.Relays r.input r.output r.apply
  scales : ∀ s ∈ e'.scales, s.enabled → e'.table.Relays s.input s.output s.apply
  pids : List.Forall₂ (fun p p' => p.config.enabled → p.Evaluated now e'.table p') e.pids e'.pids
  verified : List.Forall₂ (fun v v' => v.config.enabled → v.Checked now e'.table v')
    e.verified e'.verified
  outputs : e'.outputs.toList.map some =
    (e.cyclic.filter (·.due now)).map (Cyclic.emission? e'.table now)

-- ---------------------------------------------------------------------------
-- From rewrites to equations
-- ---------------------------------------------------------------------------

/-- The output slot is a rewrite under the whole table. -/
def Update.Holds (u : Update) (t : SignalTable) : Prop :=
  ∃ out, t.get? u.output = some (u.rewrite t out)

variable {now : Time} {t : SignalTable}

theorem Merge.fused {m : Merge} (h : (m.asUpdate now).Holds t) : m.Fused t := by
  obtain ⟨before, hout⟩ := h
  have hnone : m.outcome? t = none ↔ m.ballots t = [] := vote?_eq_none_iff (m.length_ballots_le t)
  refine ⟨_, hout, fun hnil => ?_, fun hne => ?_⟩
  · simp only [asUpdate, hnone.mpr hnil, publish]
    split
    · assumption
    · rfl
  · obtain ⟨o, ho⟩ := Option.ne_none_iff_exists'.mp fun h => hne (hnone.mp h)
    simp only [asUpdate, ho, publish]
    exact ho

theorem Monitor.reports {m m' : Monitor} (h : (m.config.asUpdate now).Holds t)
    (he : m.config.enabled) (hw : m.config.watched.isValid) (hc : m'.config = m.config)
    (hf : m'.faulted = m.detected now t) : m'.Reports now t := by
  obtain ⟨watched, hwatched⟩ := t.exists_get? hw
  obtain ⟨before, hout⟩ := h
  have hdetect : m'.faulted = m.config.detect watched now := by
    rw [hf, detected, if_pos he, hwatched, Option.elim_some]
  simp only [MonitorConfig.asUpdate, hwatched, Option.elim_some] at hout
  rw [Reports, hc]
  refine ⟨watched, _, hwatched, hout, hdetect, ?_, rfl⟩
  rw [hdetect]
  cases m.config.detect watched now with
  | true => rfl
  | false => rfl

theorem Update.Holds.relays {wire : Wire} {input : SignalId} {hmem : input ∈ wire.inputs}
    {f : Int32 → Int32} (h : (Update.relay wire input hmem now f).Holds t) (hin : input.isValid) :
    t.Relays input wire.output f := by
  obtain ⟨source, hsource⟩ := t.exists_get? hin
  obtain ⟨before, hout⟩ := h
  simp only [Update.relay, hsource, Option.elim_some] at hout
  refine ⟨source, _, hsource, hout, ?_⟩
  unfold Signal.relayed
  split
  · next hok => exact ⟨(SignalStatus.isOk_iff.mp hok).symm, fun _ => rfl⟩
  · next hok => exact ⟨rfl, fun heq => absurd (SignalStatus.isOk_iff.mpr heq) hok⟩

theorem Pid.evaluated {p : Pid} (h : (p.asUpdate now).Holds t) (he : p.config.enabled)
    (hv : p.config.Valid) : p.Evaluated now t (p.visited now t) := by
  obtain ⟨setpoint, hsetpoint⟩ := t.exists_get? hv.setpoint
  obtain ⟨measurement, hmeasurement⟩ := t.exists_get? hv.measurement
  obtain ⟨before, hout⟩ := h
  simp only [asUpdate, hsetpoint, hmeasurement, Option.elim_some] at hout
  refine ⟨setpoint, measurement, _, hsetpoint, hmeasurement, hout, ?_⟩
  simp only [visited, if_pos he, hsetpoint, hmeasurement, Option.elim_some, next, publish]
  constructor
  · intro status hbad
    simp [hbad]
  · intro hgood
    simp only [hgood, true_and]
    intro value hvalue
    simp [hvalue]

theorem Verified.checked {v : Verified} (h : (v.asUpdate now).Holds t) (he : v.config.enabled)
    (hv : v.config.Valid) : v.Checked now t (v.visited now t) := by
  obtain ⟨command, hcommand⟩ := t.exists_get? hv.command
  obtain ⟨feedback, hfeedback⟩ := t.exists_get? hv.feedback
  obtain ⟨before, hout⟩ := h
  simp only [asUpdate, hcommand, hfeedback, Option.elim_some, due] at hout
  refine ⟨command, feedback, _, hcommand, hfeedback, hout, ?_, fun hpending => ?_,
    fun hchecked => ?_⟩
  · simp only [visited, if_pos he, hcommand, hfeedback, Option.elim_some, due]
  · simp [hpending, publish]
  · simp [hchecked, publish]

-- ---------------------------------------------------------------------------
-- Engines
-- ---------------------------------------------------------------------------

namespace Engine

variable {c : EngineConfig} {e : Engine} {events : List Event}

/-- Every update of a step holds on the table after it. -/
theorem ConfiguredBy.holds (hc : e.ConfiguredBy c) (hf : c.FeedForward) {u : Update}
    (hu : u ∈ e.updates (e.step now events).1.scales now) (hout : u.output.isValid) :
    u.Holds (e.step now events).1.table := by
  obtain ⟨before, hbefore⟩ := (e.sampled now events).1.exists_get? hout
  have heq := Update.get?_runAll_output (t := (e.sampled now events).1)
    (hc.feedForward hf now events) hu
  rw [← step_table, hbefore] at heq
  exact ⟨before, heq⟩

/-- The monitors have detected what they would detect on the final table. -/
theorem ConfiguredBy.monitors_step (hc : e.ConfiguredBy c) (hf : c.FeedForward) :
    (e.step now events).1.monitors.map (fun m => (m.config, m.faulted)) =
      e.monitors.map fun m => (m.config, m.detected now (e.step now events).1.table) := by
  have hff := hc.feedForward hf now events
  rw [updates, readings, List.append_assoc] at hff
  rw [List.map_append] at hff
  rw [step_table, updates, readings, List.append_assoc, Update.runAll_append, ← runMerges_table]
  refine map_sweepFrom_final MonitorPass.table (g := fun m => (m.config, m.faulted))
    (f := fun m t => (m.config, m.detected now t)) (Monitor.visit_update now) ?_ ?_
    hff.of_append_right
  · intro i m p
    rw [Monitor.visit_config, Monitor.visit_faulted]
  · intro m t u h
    rw [Monitor.detected_congr h]

theorem ConfiguredBy.pids_step (hc : e.ConfiguredBy c) (hf : c.FeedForward) :
    (e.step now events).1.pids =
      e.pids.map fun p => p.visited now (e.step now events).1.table := by
  have htable : (e.step now events).1.table =
      Update.runAll (e.controls now) (e.transformed now events) := e.checked_table now events
  rw [htable, controls, ← List.map_id (e.step now events).1.pids]
  refine map_sweepFrom_final id (g := id) (f := fun p t => p.visited now t)
    (fun i p t => congrArg Prod.snd (p.visit_eq now i t)) ?_ ?_
    (hc.feedForward_controls hf now)
  · intro i p t
    exact congrArg Prod.fst (p.visit_eq now i t)
  · intro p t u h
    exact Pid.visited_congr h

theorem ConfiguredBy.verified_step (hc : e.ConfiguredBy c) (hf : c.FeedForward) :
    (e.step now events).1.verified =
      e.verified.map fun v => v.visited now (e.step now events).1.table := by
  have htable : (e.step now events).1.table =
      Update.runAll ((e.verified.filter (·.config.enabled)).map (Verified.asUpdate now) ++ [])
        (e.controlled now events).2 := by
    rw [List.append_nil]
    exact table_sweepFrom Prod.fst (Verified.visit_update now) 0 e.verified _
  have hff := hc.feedForward_controls hf now
  rw [controls, List.map_append] at hff
  rw [htable, ← List.map_id (e.step now events).1.verified]
  refine map_sweepFrom_final Prod.fst (g := id) (f := fun v t => v.visited now t)
    (Verified.visit_update now) ?_ ?_ ?_
  · intro i v s
    exact v.visit_fst now i s
  · intro v t u h
    exact Verified.visited_congr h
  · rw [List.append_nil]
    exact hff.of_append_right

theorem ConfiguredBy.merges_fused (hc : e.ConfiguredBy c) (hv : c.Valid) (hf : c.FeedForward)
    {m : Merge} (hm : m ∈ e.merges) (he : m.enabled) : m.Fused (e.step now events).1.table := by
  have hu : m.asUpdate now ∈ e.updates (e.step now events).1.scales now :=
    List.mem_append_left _ (List.mem_append_left _ (mem_map_filter _ hm he))
  exact Merge.fused (hc.holds hf hu (hc.merge_valid hv hm).output)

theorem ConfiguredBy.monitors_report (hc : e.ConfiguredBy c) (hv : c.Valid) (hf : c.FeedForward)
    {m' : Monitor} (hm' : m' ∈ (e.step now events).1.monitors) (he : m'.config.enabled) :
    m'.Reports now (e.step now events).1.table := by
  have hmem := List.mem_map_of_mem (f := fun m => (m.config, m.faulted)) hm'
  rw [hc.monitors_step hf] at hmem
  obtain ⟨m, hm, heq⟩ := List.mem_map.mp hmem
  obtain ⟨hcfg, hfaulted⟩ := Prod.mk.inj heq
  rw [← hcfg] at he
  have hu : m.config.asUpdate now ∈ e.updates (e.step now events).1.scales now :=
    List.mem_append_left _ (List.mem_append_right _
      (mem_map_filter (·.config.asUpdate now) hm he))
  have hvalid := hc.monitor_valid hv hm
  exact Monitor.reports (hc.holds hf hu hvalid.faultOutput) he hvalid.watched hcfg.symm
    hfaulted.symm

theorem ConfiguredBy.remaps_relay (hc : e.ConfiguredBy c) (hv : c.Valid) (hf : c.FeedForward)
    {r : Remap} (hr : r ∈ e.remaps) (he : r.enabled) :
    (e.step now events).1.table.Relays r.input r.output r.apply := by
  have hu : r.asUpdate now ∈ e.updates (e.step now events).1.scales now :=
    List.mem_append_right _ (List.mem_append_left _ (List.mem_append_left _
      (mem_map_filter _ hr he)))
  have hvalid := hc.remap_valid hv hr
  exact (hc.holds hf hu hvalid.output).relays hvalid.input

/-- The scales have used the parameters that they have after the step. -/
theorem ConfiguredBy.scales_relay (hc : e.ConfiguredBy c) (hv : c.Valid) (hf : c.FeedForward)
    {s : Scale} (hs : s ∈ (e.step now events).1.scales) (he : s.enabled) :
    (e.step now events).1.table.Relays s.input s.output s.apply := by
  have hu : s.asUpdate now ∈ e.updates (e.step now events).1.scales now :=
    List.mem_append_right _ (List.mem_append_left _ (List.mem_append_right _
      (mem_map_filter _ hs he)))
  obtain ⟨hin, hout⟩ := (hc.step now events).scale_valid hv hs
  exact (hc.holds hf hu hout).relays hin

theorem ConfiguredBy.pids_evaluated (hc : e.ConfiguredBy c) (hv : c.Valid) (hf : c.FeedForward)
    {p : Pid} (hp : p ∈ e.pids) (he : p.config.enabled) :
    p.Evaluated now (e.step now events).1.table (p.visited now (e.step now events).1.table) := by
  have hu : p.asUpdate now ∈ e.updates (e.step now events).1.scales now :=
    List.mem_append_right _ (List.mem_append_right _ (List.mem_append_left _
      (mem_map_filter _ hp he)))
  have hvalid := hc.pid_valid hv hp
  exact Pid.evaluated (hc.holds hf hu hvalid.output) he hvalid

theorem ConfiguredBy.verified_checked (hc : e.ConfiguredBy c) (hv : c.Valid) (hf : c.FeedForward)
    {v : Verified} (hmem : v ∈ e.verified) (he : v.config.enabled) :
    v.Checked now (e.step now events).1.table (v.visited now (e.step now events).1.table) := by
  have hu : v.asUpdate now ∈ e.updates (e.step now events).1.scales now :=
    List.mem_append_right _ (List.mem_append_right _ (List.mem_append_right _
      (mem_map_filter _ hmem he)))
  have hvalid := hc.verified_valid hv hmem
  exact Verified.checked (hc.holds hf hu hvalid.output) he hvalid

theorem ConfiguredBy.outputs_emitted (hc : e.ConfiguredBy c) (hv : c.Valid) :
    (e.step now events).1.outputs.toList.map some =
      (e.cyclic.filter (·.due now)).map (Cyclic.emission? (e.step now events).1.table now) := by
  refine runCyclic_events (hc.cyclic_fit hv) fun o ho => ?_
  obtain ⟨source, hsource⟩ :=
    (e.step now events).1.table.exists_get? (hc.cyclic_valid hv ho).source
  exact Option.isSome_map.trans (Option.isSome_of_eq_some hsource)

theorem ConfiguredBy.glitchFree (hc : e.ConfiguredBy c) (hv : c.Valid) (hf : c.FeedForward)
    (now : Time) (events : List Event) : e.GlitchFree now (e.step now events).1 where
  merges _ hm he := hc.merges_fused hv hf hm he
  monitors _ hm he := hc.monitors_report hv hf hm he
  remaps _ hr he := hc.remaps_relay hv hf hr he
  scales _ hs he := hc.scales_relay hv hf hs he
  pids := by
    rw [hc.pids_step hf, List.forall₂_map_right_iff, List.forall₂_same]
    exact fun p hp he => hc.pids_evaluated hv hf hp he
  verified := by
    rw [hc.verified_step hf, List.forall₂_map_right_iff, List.forall₂_same]
    exact fun v hmem he => hc.verified_checked hv hf hmem he
  outputs := hc.outputs_emitted hv

/-- Every step of a feed-forward engine leaves a table without glitches,
whatever went before. -/
theorem glitchFree_step (hb : c.build = .ok e) (hf : c.FeedForward) (calls : List Call)
    (now : Time) (events : List Event) :
    (e.after calls).GlitchFree now ((e.after calls).step now events).1 := by
  obtain ⟨hcheck, rfl⟩ := EngineConfig.build_eq_ok_iff.mp hb
  have hv := EngineConfig.check_eq_ok_iff.mp hcheck
  exact (configuredBy_after (configuredBy_toEngine c) calls).glitchFree hv hf now events

/-- The override of a limp-home action holds in the step that enters it. -/
theorem glitchFree_cascade :
    EngineConfig.cascade.build = .ok cascade ∧ EngineConfig.cascade.FeedForward ∧
      (cascade.after [.step 0 []]).GlitchFree 10
        ((cascade.after [.step 0 []]).step 10 (Event.excursion 10)).1 ∧
      ((cascade.after [.step 0 []]).step 10 (Event.excursion 10)).1.value? ⟨4⟩ = some (-450) :=
  have hf : EngineConfig.cascade.FeedForward := by decide +kernel
  ⟨build_cascade, hf, glitchFree_step build_cascade hf [.step 0 []] 10 (Event.excursion 10),
    by decide +kernel⟩

end Engine

end SignalGuard
