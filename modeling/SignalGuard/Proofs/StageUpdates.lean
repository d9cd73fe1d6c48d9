import Mathlib.Data.List.Basic
import SignalGuard.Merge
import SignalGuard.Pid
import SignalGuard.Proofs.MonitorLaws
import SignalGuard.Proofs.Wiring
import SignalGuard.Verified

/-!
# The stages as updates

Every kind of stage rewrites its output slot from its input slots alone, which
makes it an `Update`. What a controller or a verified output remembers goes
into its update as it was before the pass. Its own next state is a function of
the same input slots.
-/

namespace SignalGuard

-- ---------------------------------------------------------------------------
-- Merges
-- ---------------------------------------------------------------------------

namespace Merge

def wire (m : Merge) : Wire := ⟨m.inputs.val, m.output⟩

theorem ballot?_eq_elim (t : SignalTable) (id : SignalId) : ballot? t id =
    (t.get? id).elim none fun s => if s.status.isOk then some s.value else none := by
  unfold ballot?
  cases t.get? id <;> rfl

theorem ballots_congr {m : Merge} {t u : SignalTable} (h : ∀ id ∈ m.inputs.val, t.SameAt u id) :
    m.ballots t = m.ballots u := by
  refine List.filterMap_congr fun id hid => ?_
  rw [ballot?_eq_elim, ballot?_eq_elim, (h id hid).elim_eq fun _ => rfl]

def asUpdate (now : Time) (m : Merge) : Update where
  toWire := m.wire
  rewrite t := publish (m.outcome? t) now
  rewrite_congr t u h := by rw [outcome?, outcome?, ballots_congr h]

theorem run_table (now : Time) (m : Merge) (s : SignalTable × StepReport) :
    (m.run now s).1 = (m.asUpdate now).run s.1 := by
  obtain ⟨t, r⟩ := s
  cases h : t.get? m.output with
  | none =>
    have hrun : (m.asUpdate now).run t = t := SignalTable.modify_of_none h _
    simp [run, h, hrun]
  | some out =>
    simp only [run, h]
    rfl

end Merge

theorem runMerges_table (merges : List Merge) (now : Time) (t : SignalTable) (r : StepReport) :
    (runMerges merges now t r).1 =
      Update.runAll ((merges.filter (·.enabled)).map (Merge.asUpdate now)) t := by
  rw [Update.runAll, List.foldl_map]
  exact (List.foldl_hom Prod.fst fun s m => (m.run_table now s).symm).symm

-- ---------------------------------------------------------------------------
-- Monitors
-- ---------------------------------------------------------------------------

namespace MonitorConfig

def wire (c : MonitorConfig) : Wire := ⟨[c.watched], c.faultOutput⟩

def asUpdate (now : Time) (c : MonitorConfig) : Update where
  toWire := c.wire
  rewrite t out := (t.get? c.watched).elim out fun watched =>
    Monitor.publish (c.level (c.detect watched now)) now out
  rewrite_congr t u h := by
    funext out
    exact (h c.watched List.mem_cons_self).elim_eq fun _ => rfl

end MonitorConfig

namespace Monitor

theorem visit_update (now : Time) (index : Nat) (m : Monitor) (p : MonitorPass) :
    (m.visit now index p).2.table =
      if m.config.enabled then (m.config.asUpdate now).run p.table else p.table := by
  cases he : m.config.enabled with
  | false =>
    rw [visit_idle now index (.inl he)]
    rfl
  | true =>
    cases hw : p.table.get? m.config.watched with
    | none =>
      rw [visit_idle now index (.inr hw), if_pos rfl, Update.run]
      simp only [MonitorConfig.asUpdate, hw, Option.elim_none, SignalTable.modify_id]
    | some watched =>
      rw [visit_table now index he hw, if_pos rfl, Update.run]
      simp only [MonitorConfig.asUpdate, hw, Option.elim_some]
      rfl

/-- What a visit detects. A monitor that does not look keeps its last result. -/
def detected (now : Time) (m : Monitor) (t : SignalTable) : Bool :=
  if m.config.enabled then
    (t.get? m.config.watched).elim m.faulted fun watched => m.config.detect watched now
  else m.faulted

theorem visit_faulted (now : Time) (index : Nat) (m : Monitor) (p : MonitorPass) :
    (m.visit now index p).1.faulted = m.detected now p.table := by
  unfold detected
  cases he : m.config.enabled with
  | false =>
    rw [visit_idle now index (.inl he)]
    rfl
  | true =>
    cases hw : p.table.get? m.config.watched with
    | none =>
      rw [visit_idle now index (.inr hw)]
      rfl
    | some watched =>
      rw [visit_monitor now index he hw]
      rfl

theorem detected_congr {now : Time} {m : Monitor} {t u : SignalTable}
    (h : m.config.enabled → ∀ id ∈ (m.config.asUpdate now).inputs, t.SameAt u id) :
    m.detected now t = m.detected now u := by
  unfold detected
  split
  · next he => exact (h he m.config.watched List.mem_cons_self).elim_eq fun _ => rfl
  · rfl

end Monitor

-- ---------------------------------------------------------------------------
-- Transforms
-- ---------------------------------------------------------------------------

def Signal.relayed (source : Signal) (now : Time) (f : Int32 → Int32) (out : Signal) : Signal :=
  if source.status.isOk then
    { out with value := f source.value, status := .ok, timestamp := now, updated := true }
  else { out with status := source.status, timestamp := now, updated := true }

def Update.relay (wire : Wire) (input : SignalId) (hmem : input ∈ wire.inputs) (now : Time)
    (f : Int32 → Int32) : Update where
  toWire := wire
  rewrite t out := (t.get? input).elim out fun source => source.relayed now f out
  rewrite_congr t u h := by
    funext out
    exact (h input hmem).elim_eq fun _ => rfl

theorem SignalTable.relay_eq_run (t : SignalTable) (input output : SignalId) (now : Time)
    (f : Int32 → Int32) :
    t.relay input output now f =
      (Update.relay ⟨[input], output⟩ input List.mem_cons_self now f).run t := by
  cases h : t.get? input with
  | none => simp [relay, Update.run, Update.relay, h, modify_id]
  | some source =>
    simp only [relay, Update.run, Update.relay, h, Option.elim_some]
    rfl

namespace Remap

def wire (r : Remap) : Wire := ⟨[r.input], r.output⟩

def asUpdate (now : Time) (r : Remap) : Update :=
  .relay r.wire r.input List.mem_cons_self now r.apply

end Remap

namespace Scale

def wire (s : Scale) : Wire := ⟨[s.input], s.output⟩

def asUpdate (now : Time) (s : Scale) : Update :=
  .relay s.wire s.input List.mem_cons_self now s.apply

end Scale

theorem runRemaps_table (remaps : List Remap) (now : Time) (t : SignalTable) :
    runRemaps remaps now t =
      Update.runAll ((remaps.filter (·.enabled)).map (Remap.asUpdate now)) t := by
  have hrun : Remap.run now = fun t r => (r.asUpdate now).run t :=
    funext₂ fun t r => t.relay_eq_run r.input r.output now r.apply
  rw [runRemaps, hrun, Update.runAll, List.foldl_map]

theorem runScales_table (scales : List Scale) (now : Time) (t : SignalTable) :
    runScales scales now t =
      Update.runAll ((scales.filter (·.enabled)).map (Scale.asUpdate now)) t := by
  have hrun : Scale.run now = fun t s => (s.asUpdate now).run t :=
    funext₂ fun t s => t.relay_eq_run s.input s.output now s.apply
  rw [runScales, hrun, Update.runAll, List.foldl_map]

-- ---------------------------------------------------------------------------
-- Controllers
-- ---------------------------------------------------------------------------

def PidConfig.wire (c : PidConfig) : Wire := ⟨[c.setpoint, c.measurement], c.output⟩

namespace Pid

def next (now : Time) (p : Pid) (setpoint measurement : Signal) : Pid :=
  match badInput? setpoint measurement with
  | some _ => p.reset
  | none => (p.update setpoint.value measurement.value now).1

def publish (now : Time) (p : Pid) (setpoint measurement : Signal) (out : Signal) : Signal :=
  match badInput? setpoint measurement with
  | some status => { out with
      status, timestamp := now, updated := out.updated || out.status != status }
  | none =>
    match (p.update setpoint.value measurement.value now).2 with
    | none => out
    | some value => { out with value, status := .ok, timestamp := now, updated := true }

def asUpdate (now : Time) (p : Pid) : Update where
  toWire := p.config.wire
  rewrite t out := (t.get? p.config.setpoint).elim out fun setpoint =>
    (t.get? p.config.measurement).elim out fun measurement => p.publish now setpoint measurement out
  rewrite_congr t u h := by
    funext out
    have hs := h p.config.setpoint List.mem_cons_self
    have hm := h p.config.measurement (List.mem_cons_of_mem _ List.mem_cons_self)
    exact hs.elim_elim_eq hm fun _ _ => rfl

def visited (now : Time) (p : Pid) (t : SignalTable) : Pid :=
  if p.config.enabled then
    (t.get? p.config.setpoint).elim p fun setpoint =>
      (t.get? p.config.measurement).elim p fun measurement => p.next now setpoint measurement
  else p

theorem visited_congr {now : Time} {p : Pid} {t u : SignalTable}
    (h : p.config.enabled → ∀ id ∈ (p.asUpdate now).inputs, t.SameAt u id) :
    p.visited now t = p.visited now u := by
  unfold visited
  split
  · next he =>
    have hs := h he p.config.setpoint List.mem_cons_self
    have hm := h he p.config.measurement (List.mem_cons_of_mem _ List.mem_cons_self)
    exact hs.elim_elim_eq hm fun _ _ => rfl
  · rfl

theorem visit_eq (now : Time) (index : Nat) (p : Pid) (t : SignalTable) :
    p.visit now index t =
      (p.visited now t, if p.config.enabled then (p.asUpdate now).run t else t) := by
  unfold visit visited
  split
  · simp only [run, Update.run, asUpdate, next, publish]
    cases t.get? p.config.setpoint with
    | none => simp [SignalTable.modify_id]
    | some setpoint =>
      cases t.get? p.config.measurement with
      | none => simp [SignalTable.modify_id]
      | some measurement =>
        simp only [Option.elim_some]
        cases badInput? setpoint measurement with
        | some status => rfl
        | none =>
          obtain ⟨p', output⟩ := p.update setpoint.value measurement.value now
          cases output with
          | none => simp [SignalTable.modify_id]
          | some value => rfl
  · rfl

end Pid

-- ---------------------------------------------------------------------------
-- Verified outputs
-- ---------------------------------------------------------------------------

def VerifiedConfig.wire (c : VerifiedConfig) : Wire := ⟨[c.command, c.feedback], c.output⟩

namespace Verified

/-- What is due for a command, and the pursuit afterwards. -/
def due (now : Time) (v : Verified) (command : Signal) : Verdict × Pursuit :=
  judge v.config (v.follow command.value now) now

def asUpdate (now : Time) (v : Verified) : Update where
  toWire := v.config.wire
  rewrite t out := (t.get? v.config.command).elim out fun command =>
    (t.get? v.config.feedback).elim out fun feedback =>
      publish v.config (v.due now command).1 command.value feedback now out
  rewrite_congr t u h := by
    funext out
    have hc := h v.config.command List.mem_cons_self
    have hf := h v.config.feedback (List.mem_cons_of_mem _ List.mem_cons_self)
    exact hc.elim_elim_eq hf fun _ _ => rfl

def visited (now : Time) (v : Verified) (t : SignalTable) : Verified :=
  if v.config.enabled then
    (t.get? v.config.command).elim v fun command =>
      (t.get? v.config.feedback).elim v fun _ => { v with pursuit := some (v.due now command).2 }
  else v

theorem visited_congr {now : Time} {v : Verified} {t u : SignalTable}
    (h : v.config.enabled → ∀ id ∈ (v.asUpdate now).inputs, t.SameAt u id) :
    v.visited now t = v.visited now u := by
  unfold visited
  split
  · next he =>
    have hc := h he v.config.command List.mem_cons_self
    have hf := h he v.config.feedback (List.mem_cons_of_mem _ List.mem_cons_self)
    exact hc.elim_elim_eq hf fun _ _ => rfl
  · rfl

theorem visit_fst (now : Time) (index : Nat) (v : Verified) (s : SignalTable × StepReport) :
    (v.visit now index s).1 = v.visited now s.1 := by
  obtain ⟨t, r⟩ := s
  unfold visit visited
  split
  · simp only [run]
    cases t.get? v.config.command with
    | none => rfl
    | some command => cases t.get? v.config.feedback <;> rfl
  · rfl

theorem visit_update (now : Time) (index : Nat) (v : Verified) (s : SignalTable × StepReport) :
    (v.visit now index s).2.1 = if v.config.enabled then (v.asUpdate now).run s.1 else s.1 := by
  obtain ⟨t, r⟩ := s
  unfold visit
  split
  · simp only [run, Update.run, asUpdate]
    cases t.get? v.config.command with
    | none => simp [SignalTable.modify_id]
    | some command =>
      cases t.get? v.config.feedback with
      | none => simp [SignalTable.modify_id]
      | some feedback => rfl
  · rfl

end Verified

end SignalGuard
