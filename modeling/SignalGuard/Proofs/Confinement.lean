import SignalGuard.Proofs.StageUpdates

/-!
# Bad values stay where they are flagged

A signal that is not `ok` keeps some old value. Two tables are similar when
they differ at most in such values and in the dirty flags. An update is
confined when it takes similar slots to similar slots over similar tables, and
merges, remaps, scales and controllers are. `Pipeline.confines_bad_values`:
over similar tables any sequence of their passes counts the same, and leaves
the controllers with the same memories and the tables similar.
-/

namespace SignalGuard

-- ---------------------------------------------------------------------------
-- Similar tables
-- ---------------------------------------------------------------------------

/-- The slots differ at most in a value that is not `ok` and in the dirty
flag. -/
structure Signal.Similar (s s' : Signal) : Prop where
  status : s.status = s'.status
  stalenessThreshold : s.stalenessThreshold = s'.stalenessThreshold
  timestamp : s.timestamp = s'.timestamp
  value : s.status = .ok → s.value = s'.value

theorem Signal.Similar.refl (s : Signal) : s.Similar s := ⟨rfl, rfl, rfl, fun _ => rfl⟩

namespace SignalTable

def Similar (t u : SignalTable) : Prop := ∀ id, Option.Rel Signal.Similar (t.get? id) (u.get? id)

variable {t u : SignalTable}

theorem Similar.refl (t : SignalTable) : t.Similar t := by
  intro id
  cases t.get? id with
  | none => exact .none
  | some s => exact .some (.refl s)

theorem Similar.elim {α : Type} {R : α → α → Prop} (h : t.Similar u) (id : SignalId) {a a' : α}
    {f f' : Signal → α} (hnone : R a a') (hsome : ∀ s s', s.Similar s' → R (f s) (f' s')) :
    R ((t.get? id).elim a f) ((u.get? id).elim a' f') :=
  match t.get? id, u.get? id, h id with
  | _, _, .none => hnone
  | _, _, .some hs => hsome _ _ hs

theorem Similar.modify {id : SignalId} {f f' : Signal → Signal} (h : t.Similar u)
    (hf : ∀ s s', s.Similar s' → (f s).Similar (f' s')) :
    (t.modify id f).Similar (u.modify id f') := by
  intro other
  rw [get?_modify, get?_modify]
  split
  · exact match t.get? other, u.get? other, h other with
    | _, _, .none => .none
    | _, _, .some hs => .some (hf _ _ hs)
  · exact h other

end SignalTable

-- ---------------------------------------------------------------------------
-- Confined updates
-- ---------------------------------------------------------------------------

def Update.Confined (up : Update) : Prop :=
  ∀ t u : SignalTable, t.Similar u → ∀ s s' : Signal, s.Similar s' →
    (up.rewrite t s).Similar (up.rewrite u s')

variable {t u : SignalTable}

theorem Update.Confined.run {up : Update} (hup : up.Confined) (h : t.Similar u) :
    (up.run t).Similar (up.run u) := h.modify (hup t u h)

theorem Update.similar_runAll {ups : List Update} (hups : ∀ up ∈ ups, up.Confined)
    (h : t.Similar u) : (runAll ups t).Similar (runAll ups u) :=
  List.foldl_rel h fun up hmem _ _ hsim => (hups up hmem).run hsim

namespace Merge

theorem ballot?_eq_of_similar (h : t.Similar u) (id : SignalId) :
    ballot? t id = ballot? u id := by
  rw [ballot?_eq_elim, ballot?_eq_elim]
  refine h.elim id rfl fun s s' hs => ?_
  rw [← hs.status]
  split
  · next hok => rw [hs.value (SignalStatus.isOk_iff.mp hok)]
  · rfl

theorem outcome?_eq_of_similar (m : Merge) (h : t.Similar u) : m.outcome? t = m.outcome? u := by
  rw [outcome?, outcome?, ballots, ballots, funext (ballot?_eq_of_similar h)]

theorem confined (now : Time) (m : Merge) : (m.asUpdate now).Confined := by
  intro t u h s s' hs
  simp only [asUpdate, m.outcome?_eq_of_similar h]
  cases m.outcome? u with
  | some o => exact ⟨rfl, hs.stalenessThreshold, rfl, fun _ => rfl⟩
  | none =>
    -- the output keeps a value that may differ, so it has to end up flagged
    simp only [publish, hs.status]
    split
    · exact hs
    · refine ⟨rfl, hs.stalenessThreshold, hs.timestamp, fun hok => ?_⟩
      cases hok

theorem run_report_eq (now : Time) (m : Merge) (h : t.Similar u) (r : StepReport) :
    (m.run now (t, r)).2 = (m.run now (u, r)).2 := by
  simp only [run, m.outcome?_eq_of_similar h]
  have hout := h m.output
  generalize t.get? m.output = out, u.get? m.output = out' at hout
  cases hout with
  | none => rfl
  | some _ => rfl

end Merge

theorem Signal.Similar.relayed {source source' s s' : Signal} (hsource : source.Similar source')
    (hs : s.Similar s') (now : Time) (f : Int32 → Int32) :
    (source.relayed now f s).Similar (source'.relayed now f s') := by
  unfold Signal.relayed
  rw [← hsource.status]
  split
  · next hok =>
    refine ⟨rfl, hs.stalenessThreshold, rfl, fun _ => congrArg f (hsource.value ?_)⟩
    exact SignalStatus.isOk_iff.mp hok
  · next hbad =>
    refine ⟨rfl, hs.stalenessThreshold, rfl, fun hok => absurd ?_ hbad⟩
    exact SignalStatus.isOk_iff.mpr hok

theorem Update.confined_relay {wire : Wire} {input : SignalId} {hmem : input ∈ wire.inputs}
    (now : Time) (f : Int32 → Int32) : (Update.relay wire input hmem now f).Confined :=
  fun _ _ h _ _ hs => h.elim input hs fun _ _ hsource => hsource.relayed hs now f

namespace Pid

variable {setpoint setpoint' measurement measurement' : Signal}

theorem badInput?_eq_of_similar (hs : setpoint.Similar setpoint')
    (hm : measurement.Similar measurement') :
    badInput? setpoint measurement = badInput? setpoint' measurement' := by
  rw [badInput?, badInput?, hs.status, hm.status]

theorem badInput?_eq_none_iff : badInput? setpoint measurement = none ↔
    measurement.status = .ok ∧ setpoint.status = .ok := by
  simp [badInput?, SignalStatus.isOk_iff]

theorem ne_ok_of_badInput? {status : SignalStatus}
    (h : badInput? setpoint measurement = some status) : status ≠ .ok := by
  have hbad : !status.isOk := List.find?_some (p := fun s : SignalStatus => !s.isOk) h
  rintro rfl
  exact nomatch hbad

theorem values_eq_of_similar (hs : setpoint.Similar setpoint')
    (hm : measurement.Similar measurement') (h : badInput? setpoint measurement = none) :
    setpoint.value = setpoint'.value ∧ measurement.value = measurement'.value := by
  obtain ⟨hmok, hsok⟩ := badInput?_eq_none_iff.mp h
  exact ⟨hs.value hsok, hm.value hmok⟩

theorem next_eq_of_similar (now : Time) (p : Pid) (hs : setpoint.Similar setpoint')
    (hm : measurement.Similar measurement') :
    p.next now setpoint measurement = p.next now setpoint' measurement' := by
  unfold next
  rw [← badInput?_eq_of_similar hs hm]
  cases hbad : badInput? setpoint measurement with
  | some status => rfl
  | none =>
    obtain ⟨hsv, hmv⟩ := values_eq_of_similar hs hm hbad
    simp only [hsv, hmv]

theorem publish_similar (now : Time) (p : Pid) (hs : setpoint.Similar setpoint')
    (hm : measurement.Similar measurement') {out out' : Signal} (hout : out.Similar out') :
    (p.publish now setpoint measurement out).Similar
      (p.publish now setpoint' measurement' out') := by
  unfold publish
  rw [← badInput?_eq_of_similar hs hm]
  cases hbad : badInput? setpoint measurement with
  | some status =>
    -- the old output value stays, and it may differ, but under the input's bad status
    exact ⟨rfl, hout.stalenessThreshold, rfl, fun hok => absurd hok (ne_ok_of_badInput? hbad)⟩
  | none =>
    obtain ⟨hsv, hmv⟩ := values_eq_of_similar hs hm hbad
    simp only [hsv, hmv]
    cases (p.update setpoint'.value measurement'.value now).2 with
    | none => exact hout
    | some value => exact ⟨rfl, hout.stalenessThreshold, rfl, fun _ => rfl⟩

theorem confined (now : Time) (p : Pid) : (p.asUpdate now).Confined :=
  fun _ _ h _ _ hout => h.elim p.config.setpoint hout fun _ _ hs =>
    h.elim p.config.measurement hout fun _ _ hm => p.publish_similar now hs hm hout

theorem visited_eq_of_similar (now : Time) (p : Pid) (h : t.Similar u) :
    p.visited now t = p.visited now u := by
  unfold visited
  split
  · exact h.elim p.config.setpoint rfl fun _ _ hs =>
      h.elim p.config.measurement rfl fun _ _ hm => p.next_eq_of_similar now hs hm
  · rfl

theorem visit_similar (now : Time) (index : Nat) (p : Pid) (h : t.Similar u) :
    (p.visit now index t).1 = (p.visit now index u).1 ∧
      (p.visit now index t).2.Similar (p.visit now index u).2 := by
  rw [visit_eq, visit_eq]
  refine ⟨p.visited_eq_of_similar now h, ?_⟩
  split
  · exact (p.confined now).run h
  · exact h

end Pid

-- ---------------------------------------------------------------------------
-- Sequences of passes
-- ---------------------------------------------------------------------------

/-- What passes over a table read and change. -/
structure Pipeline where
  table : SignalTable
  pids : List Pid
  report : StepReport
  deriving DecidableEq

/-- One pass over the table by one kind of stage. -/
inductive Pass
  | merges (merges : List Merge)
  | remaps (remaps : List Remap)
  | scales (scales : List Scale)
  | pids

namespace Pipeline

def run (p : Pipeline) (now : Time) : Pass → Pipeline
  | .merges merges =>
    let (table, report) := runMerges merges now p.table p.report
    { p with table, report }
  | .remaps remaps => { p with table := runRemaps remaps now p.table }
  | .scales scales => { p with table := runScales scales now p.table }
  | .pids =>
    let (pids, table) := runPids p.pids now p.table
    { p with pids, table }

/-- The passes in order, each at its own time. -/
def runAll (p : Pipeline) (passes : List (Time × Pass)) : Pipeline :=
  passes.foldl (fun p (now, pass) => p.run now pass) p

structure Similar (p q : Pipeline) : Prop where
  table : p.table.Similar q.table
  pids : p.pids = q.pids
  report : p.report = q.report

variable {p q : Pipeline}

theorem runMerges_similar (merges : List Merge) (now : Time) (h : t.Similar u) (r : StepReport) :
    (runMerges merges now t r).1.Similar (runMerges merges now u r).1 ∧
      (runMerges merges now t r).2 = (runMerges merges now u r).2 := by
  refine List.foldl_rel (r := fun s s' : SignalTable × StepReport => s.1.Similar s'.1 ∧ s.2 = s'.2)
    ⟨h, rfl⟩ fun m _ s s' hs => ?_
  obtain ⟨t, r⟩ := s
  obtain ⟨u, r'⟩ := s'
  obtain ⟨htable, rfl⟩ := hs
  refine ⟨?_, m.run_report_eq now htable r⟩
  rw [m.run_table, m.run_table]
  exact (m.confined now).run htable

theorem Similar.run (h : p.Similar q) (now : Time) (pass : Pass) :
    (p.run now pass).Similar (q.run now pass) := by
  obtain ⟨t, pids, r⟩ := p
  obtain ⟨u, pids', r'⟩ := q
  obtain ⟨htable, rfl, rfl⟩ := h
  cases pass with
  | merges merges =>
    obtain ⟨htable, hreport⟩ := runMerges_similar merges now htable r
    exact ⟨htable, rfl, hreport⟩
  | remaps remaps =>
    refine ⟨?_, rfl, rfl⟩
    simp only [Pipeline.run, runRemaps_table]
    refine Update.similar_runAll ?_ htable
    exact List.forall_mem_map.mpr fun r _ => Update.confined_relay now r.apply
  | scales scales =>
    refine ⟨?_, rfl, rfl⟩
    simp only [Pipeline.run, runScales_table]
    refine Update.similar_runAll ?_ htable
    exact List.forall_mem_map.mpr fun s _ => Update.confined_relay now s.apply
  | pids =>
    obtain ⟨hpids, htable⟩ := sweepFrom_rel
      (fun i pid _ _ hsim => Pid.visit_similar now i pid hsim) 0 pids htable
    exact ⟨htable, hpids, rfl⟩

/-- What a bad signal holds reaches no good signal, no memory of a controller
and no counter. -/
theorem confines_bad_values (h : p.Similar q) (passes : List (Time × Pass)) :
    (p.runAll passes).Similar (q.runAll passes) :=
  List.foldl_rel h fun (now, pass) _ _ _ hsim => hsim.run now pass

/-- Signal 0 timed out holding the value; a controller steers signal 2 towards
signal 1. -/
def overdue (value : Int32) : Pipeline where
  table := SignalTable.empty.modify ⟨0⟩ fun s => { s with value, status := .timeout }
  pids := [.ofConfig ((PidConfig.ofSignals ⟨1⟩ ⟨2⟩ ⟨4⟩).withGains 1000 0 0)]
  report := .zero

theorem overdue_similar (value value' : Int32) : (overdue value).Similar (overdue value') :=
  ⟨(SignalTable.Similar.refl _).modify fun _ _ hs =>
    ⟨rfl, hs.stalenessThreshold, hs.timestamp, nofun⟩, rfl, rfl⟩

/-- The bad signal in a vote, in a remap and in a controller that sees the
remap's output by way of a scale. -/
def tour : List (Time × Pass) := [
  (10, .merges [Merge.ofInputs [⟨0⟩, ⟨1⟩] ⟨2⟩ .average]), (20, .pids), (30, .pids),
  (40, .remaps [Remap.ofSignals ⟨0⟩ ⟨3⟩]), (50, .scales [Scale.ofSignals ⟨3⟩ ⟨2⟩]), (60, .pids)]

theorem confines_overdue :
    (overdue 5).Similar (overdue 7) ∧
      (overdue 5).runAll tour ≠ (overdue 7).runAll tour ∧
      ((overdue 5).runAll tour).Similar ((overdue 7).runAll tour) :=
  ⟨overdue_similar 5 7, by decide, confines_bad_values (overdue_similar 5 7) tour⟩

end Pipeline

end SignalGuard
