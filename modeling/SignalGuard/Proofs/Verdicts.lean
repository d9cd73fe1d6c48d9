import Mathlib.Data.List.Basic
import SignalGuard.Proofs.LimpCounts

/-!
# Verdicts over whole command histories

A verified output remembers one command, one time and whether the verdict is
still to come. `Verified.history` keeps every look that the output has taken,
and `CommandHistory.ages` is how old the command was at each look since it last
changed. What the output remembers is a function of that history
(`Verified.pursuit_outputs`), and so is what is due in a pass: the command while
it settles, one check at the first look that finds it settled, and after that
nothing or a check in every pass (`Verified.verdicts_follow_commands`).
-/

namespace SignalGuard

-- ---------------------------------------------------------------------------
-- Histories
-- ---------------------------------------------------------------------------

/-- What a verified output finds at its turn. -/
structure Look where
  time : Time
  command : Int32
  feedback : Signal
  deriving DecidableEq, Repr

/-- Looks of one verified output, the newest one first. -/
abbrev CommandHistory := List Look

namespace CommandHistory

/-- The looks back to the one that first found the present command. -/
def sinceChange : CommandHistory → CommandHistory
  | [] => []
  | s :: h => s :: h.takeWhile fun t => t.command = s.command

def changeTime (h : CommandHistory) : Time := (h.sinceChange.getLast?.map (·.time)).getD 0

/-- The age of the command at every look since it changed. A clock that has
gone back makes the command new again. -/
def ages (h : CommandHistory) : List Nat :=
  h.sinceChange.map fun s => s.time.toNat - h.changeTime.toNat

/-- No look has found the command settled. -/
def Settling (h : CommandHistory) (timeout : Time) : Prop := ∀ a ∈ h.ages, a < timeout.toNat

instance (h : CommandHistory) (timeout : Time) : Decidable (h.Settling timeout) :=
  inferInstanceAs (Decidable (∀ a ∈ h.ages, a < timeout.toNat))

/-- The newest look is the first one that finds the command settled. -/
def Settles (h : CommandHistory) (timeout : Time) : Prop :=
  (∃ a ∈ h.ages.head?, timeout.toNat ≤ a) ∧ ∀ a ∈ h.ages.tail, a < timeout.toNat

instance (h : CommandHistory) (timeout : Time) : Decidable (h.Settles timeout) :=
  inferInstanceAs (Decidable
    ((∃ a ∈ h.ages.head?, timeout.toNat ≤ a) ∧ ∀ a ∈ h.ages.tail, a < timeout.toNat))

/-- An earlier look has found the command settled. -/
def Settled (h : CommandHistory) (timeout : Time) : Prop :=
  ∃ a ∈ h.ages.tail, timeout.toNat ≤ a

instance (h : CommandHistory) (timeout : Time) : Decidable (h.Settled timeout) :=
  inferInstanceAs (Decidable (∃ a ∈ h.ages.tail, timeout.toNat ≤ a))

variable {h : CommandHistory} {s t : Look} {timeout : Time}

theorem sinceChange_same (hst : t.command = s.command) :
    sinceChange (s :: t :: h) = s :: sinceChange (t :: h) := by
  simp [sinceChange, hst]

theorem sinceChange_new (hne : ∀ t ∈ h.head?, t.command ≠ s.command) :
    sinceChange (s :: h) = [s] := by
  cases h with
  | nil => rfl
  | cons t h => simp [sinceChange, hne t rfl]

theorem changeTime_same (hst : t.command = s.command) :
    changeTime (s :: t :: h) = changeTime (t :: h) := by
  rw [changeTime, changeTime, sinceChange_same hst, sinceChange, List.getLast?_cons_cons]

theorem changeTime_new (hne : ∀ t ∈ h.head?, t.command ≠ s.command) :
    changeTime (s :: h) = s.time := by
  rw [changeTime, sinceChange_new hne]
  rfl

theorem ages_cons (s : Look) (h : CommandHistory) :
    ages (s :: h) = (s.time.toNat - (changeTime (s :: h)).toNat) :: (ages (s :: h)).tail := rfl

theorem tail_ages_same (hst : t.command = s.command) :
    (ages (s :: t :: h)).tail = ages (t :: h) := by
  rw [ages, ages, changeTime_same hst, sinceChange_same hst, List.map_cons, List.tail_cons]

theorem tail_ages_new (hne : ∀ t ∈ h.head?, t.command ≠ s.command) :
    (ages (s :: h)).tail = [] := by
  rw [ages, sinceChange_new hne, List.map_singleton, List.tail_cons]

theorem not_settled_iff : ¬Settled h timeout ↔ ∀ a ∈ h.ages.tail, a < timeout.toNat := by
  simp [Settled]

theorem not_settled_same (hst : t.command = s.command) :
    ¬Settled (s :: t :: h) timeout ↔ Settling (t :: h) timeout := by
  rw [not_settled_iff, tail_ages_same hst, Settling]

theorem not_settled_new (hne : ∀ t ∈ h.head?, t.command ≠ s.command) :
    ¬Settled (s :: h) timeout := by
  simp [Settled, tail_ages_new hne]

theorem settling_cons : Settling (s :: h) timeout ↔
    s.time.toNat - (changeTime (s :: h)).toNat < timeout.toNat ∧ ¬Settled (s :: h) timeout := by
  rw [Settling, not_settled_iff, ages_cons, List.forall_mem_cons, List.tail_cons]

theorem settles_cons : Settles (s :: h) timeout ↔
    timeout.toNat ≤ s.time.toNat - (changeTime (s :: h)).toNat ∧ ¬Settled (s :: h) timeout := by
  rw [Settles, not_settled_iff, ages_cons, List.head?_cons, List.tail_cons]
  simp

end CommandHistory

-- ---------------------------------------------------------------------------
-- What a history calls for
-- ---------------------------------------------------------------------------

/-- The status that a check gives the feedback. -/
def Look.status (c : VerifiedConfig) (s : Look) : SignalStatus :=
  if s.feedback.status = .ok ∧
      (s.command.toInt - s.feedback.value.toInt).natAbs ≤ c.tolerance.toNat then .ok
  else .error

theorem Look.status_eq (c : VerifiedConfig) (s : Look) :
    s.status c = if Verified.confirms c s.command s.feedback then .ok else .error := by
  simp [status, Verified.confirms, VerifiedConfig.accepts, SignalStatus.isOk_iff]

namespace CommandHistory

/-- What the newest look calls for. -/
def verdict (h : CommandHistory) (c : VerifiedConfig) : Verdict :=
  if h.Settles c.verifyTimeout ∨ h.Settled c.verifyTimeout ∧ c.continuous then .checked
  else if h.Settling c.verifyTimeout then .pending
  else .standing

/-- The newest look calls for a check, and the check fails. -/
def fails (h : CommandHistory) (c : VerifiedConfig) : Bool :=
  h.verdict c == .checked && h.head?.any fun s => s.status c == .error

/-- What is remembered of the history. -/
def pursuit? (h : CommandHistory) (timeout : Time) : Option Pursuit :=
  h.head?.map fun s => ⟨s.command, h.changeTime, h.Settling timeout⟩

variable {h : CommandHistory} {s : Look} {v : Verified} {timeout : Time}

theorem follow_eq (hv : v.pursuit = h.pursuit? timeout) :
    v.follow s.command s.time =
      ⟨s.command, changeTime (s :: h), decide (¬Settled (s :: h) timeout)⟩ := by
  have hnew (hne : ∀ t ∈ h.head?, t.command ≠ s.command) :
      (⟨s.command, s.time, true⟩ : Pursuit) =
        ⟨s.command, changeTime (s :: h), decide (¬Settled (s :: h) timeout)⟩ := by
    rw [changeTime_new hne, decide_eq_true (not_settled_new hne)]
  cases h with
  | nil =>
    have hnone : v.pursuit = none := hv
    simp only [Verified.follow, hnone]
    exact hnew (by simp)
  | cons t h =>
    have hsome : v.pursuit = some ⟨t.command, changeTime (t :: h), Settling (t :: h) timeout⟩ := hv
    simp only [Verified.follow, hsome]
    split
    · next hst => simp only [changeTime_same hst, not_settled_same hst, hst]
    · next hst => exact hnew (by simpa using hst)

theorem judge_eq (c : VerifiedConfig) (s : Look) (h : CommandHistory) :
    Verified.judge c
        ⟨s.command, changeTime (s :: h), decide (¬Settled (s :: h) c.verifyTimeout)⟩ s.time =
      (verdict (s :: h) c,
        ⟨s.command, changeTime (s :: h), Settling (s :: h) c.verifyTimeout⟩) := by
  by_cases hsettled : Settled (s :: h) c.verifyTimeout
  · simp [Verified.judge, verdict, hsettled, settles_cons, settling_cons]
  · by_cases hdue : c.verifyTimeout.toNat ≤ s.time.toNat - (changeTime (s :: h)).toNat
    · simp [Verified.judge, verdict, hsettled, settles_cons, settling_cons, hdue]
    · simp [Verified.judge, verdict, hsettled, settles_cons, settling_cons, hdue,
        Nat.lt_of_not_le hdue]

/-- What is due at a look is what the history with the look calls for. -/
theorem due_eq (hv : v.pursuit = h.pursuit? v.config.verifyTimeout) :
    Verified.judge v.config (v.follow s.command s.time) s.time =
      (verdict (s :: h) v.config,
        ⟨s.command, changeTime (s :: h), Settling (s :: h) v.config.verifyTimeout⟩) := by
  rw [follow_eq hv, judge_eq]

theorem verdict_of_settling {c : VerifiedConfig} (hs : Settling (s :: h) c.verifyTimeout) :
    verdict (s :: h) c = .pending := by
  obtain ⟨hnew, hsettled⟩ := settling_cons.mp hs
  have hsettles : ¬Settles (s :: h) c.verifyTimeout := fun hs =>
    absurd (settles_cons.mp hs).1 (Nat.not_le_of_lt hnew)
  rw [verdict, if_neg (by simp [hsettles, hsettled]), if_pos hs]

theorem verdict_of_settled {c : VerifiedConfig} (hs : Settled (s :: h) c.verifyTimeout)
    (honce : c.continuous = false) : verdict (s :: h) c = .standing := by
  simp [verdict, settles_cons, settling_cons, hs, honce]

end CommandHistory

/-- The last write gave the slot these contents. -/
def Signal.Carries (s : Signal) (value : Int32) (status : SignalStatus) (now : Time) : Prop :=
  s.value = value ∧ s.status = status ∧ s.timestamp = now

/-- After the look `s` on top of an earlier history the output has become `v`
and has turned its slot from `out` into `out'`, as the history calls for. -/
structure Verified.Answers (v : Verified) (h : CommandHistory) (s : Look) (out out' : Signal) :
    Prop where
  settling : CommandHistory.Settling (s :: h) v.config.verifyTimeout →
    v.isPending ∧ out'.Carries s.command .ok s.time
  settles : CommandHistory.Settles (s :: h) v.config.verifyTimeout →
    v.isPending = false ∧ out'.Carries s.feedback.value (s.status v.config) s.time
  repeats : CommandHistory.Settled (s :: h) v.config.verifyTimeout → v.config.continuous →
    v.isPending = false ∧ out'.Carries s.feedback.value (s.status v.config) s.time
  stands : CommandHistory.Settled (s :: h) v.config.verifyTimeout → v.config.continuous = false →
    v.isPending = false ∧ out' = out

open CommandHistory in
theorem Verified.answers (v : Verified) (h : CommandHistory) (s : Look) (out : Signal) :
    ({ v with pursuit := pursuit? (s :: h) v.config.verifyTimeout } : Verified).Answers h s out
      (publish v.config (verdict (s :: h) v.config) s.command s.feedback s.time out) := by
  have hpending : ({ v with pursuit := pursuit? (s :: h) v.config.verifyTimeout } :
      Verified).isPending = decide (Settling (s :: h) v.config.verifyTimeout) := rfl
  have hchecked (hv : verdict (s :: h) v.config = .checked) :
      (publish v.config (verdict (s :: h) v.config) s.command s.feedback s.time out).Carries
        s.feedback.value (s.status v.config) s.time := by
    rw [hv, s.status_eq]
    exact ⟨rfl, rfl, rfl⟩
  -- a command that is settled now or was before is not settling
  have hdone (hs : Settled (s :: h) v.config.verifyTimeout) :
      ¬Settling (s :: h) v.config.verifyTimeout := fun hsettling => (settling_cons.mp hsettling).2 hs
  refine ⟨fun hs => ?_, fun hs => ?_, fun hs hcontinuous => ?_, fun hs honce => ?_⟩
  · rw [hpending, verdict_of_settling hs]
    exact ⟨decide_eq_true hs, rfl, rfl, rfl⟩
  · refine ⟨decide_eq_false fun hsettling => ?_, hchecked (if_pos (.inl hs))⟩
    exact Nat.not_le_of_lt (settling_cons.mp hsettling).1 (settles_cons.mp hs).1
  · exact ⟨decide_eq_false (hdone hs), hchecked (if_pos (.inr ⟨hs, hcontinuous⟩))⟩
  · rw [verdict_of_settled hs honce]
    exact ⟨decide_eq_false (hdone hs), rfl⟩

-- ---------------------------------------------------------------------------
-- Passes
-- ---------------------------------------------------------------------------

/-- The output is on, and all its signals have slots. -/
def VerifiedConfig.active (c : VerifiedConfig) : Bool :=
  c.enabled && c.command.isValid && c.feedback.isValid && c.output.isValid

/-- The table holds what the output looks at, and the slot that it may write. -/
structure VerifiedConfig.Finds (c : VerifiedConfig) (t : SignalTable) (s : Look) (out : Signal) :
    Prop where
  command : (t.get? c.command).map (·.value) = some s.command
  feedback : t.get? c.feedback = some s.feedback
  output : t.get? c.output = some out

namespace Verified

/-- What a pass over the outputs is given. -/
structure Pass where
  now : Time
  table : SignalTable
  report : StepReport

namespace Pass

def run (p : Pass) (vs : List Verified) : List Verified × SignalTable × StepReport :=
  runVerified vs p.now p.table p.report

/-- The pass as the output at position `i` takes it up. -/
def upTo (p : Pass) (vs : List Verified) (i : Nat) : SignalTable × StepReport :=
  (p.run (vs.take i)).2

/-- What the output at position `i` looks at in its turn. -/
def look? (p : Pass) (vs : List Verified) (i : Nat) : Option Look :=
  vs[i]?.bind fun v =>
    if v.config.active then
      ((p.upTo vs i).1.get? v.config.command).bind fun command =>
        ((p.upTo vs i).1.get? v.config.feedback).map fun feedback =>
          ⟨p.now, command.value, feedback⟩
    else none

end Pass

/-- The outputs of the configurations after passes, the newest one first. -/
def outputs (configs : List VerifiedConfig) : List Pass → List Verified
  | [] => configs.map ofConfig
  | p :: passes => (p.run (outputs configs passes)).1

/-- All looks of the output at position `i`. -/
def history (configs : List VerifiedConfig) (i : Nat) : List Pass → CommandHistory
  | [] => []
  | p :: passes => (p.look? (outputs configs passes) i).toList ++ history configs i passes

variable {configs : List VerifiedConfig} {vs : List Verified} {v : Verified} {i : Nat} {p : Pass}
  {passes : List Pass}

theorem map_config_outputs (configs : List VerifiedConfig) (passes : List Pass) :
    (outputs configs passes).map config = configs := by
  induction passes with
  | nil => simp [outputs, Function.comp_def, ofConfig]
  | cons p passes ih => exact (map_sweepFrom (visit_config p.now) 0 _ _).trans ih

theorem Pass.upTo_succ (hv : vs[i]? = some v) :
    p.upTo vs (i + 1) = (v.visit p.now i (p.upTo vs i)).2 := by
  have hnext := sweepFrom_take_succ (visit p.now) 0 (p.table, p.report) hv
  rwa [Nat.zero_add] at hnext

theorem Pass.run_getElem? (hv : vs[i]? = some v) :
    (p.run vs).1[i]? = some (v.visit p.now i (p.upTo vs i)).1 := by
  have hvisit := getElem?_sweepFrom (visit p.now) 0 vs (p.table, p.report) i
  rwa [hv, Nat.zero_add] at hvisit

theorem Pass.exists_look (hv : vs[i]? = some v) (ha : v.config.active) :
    ∃ s out, p.look? vs i = some s ∧ s.time = p.now ∧ v.config.Finds (p.upTo vs i).1 s out := by
  have hvalid := ha
  simp only [VerifiedConfig.active, Bool.and_eq_true] at hvalid
  obtain ⟨⟨⟨-, hcommand⟩, hfeedback⟩, hout⟩ := hvalid
  obtain ⟨command, hcommand⟩ := (p.upTo vs i).1.exists_get? hcommand
  obtain ⟨feedback, hfeedback⟩ := (p.upTo vs i).1.exists_get? hfeedback
  obtain ⟨out, hout⟩ := (p.upTo vs i).1.exists_get? hout
  refine ⟨⟨p.now, command.value, feedback⟩, out, ?_, rfl, ?_, hfeedback, hout⟩
  · simp [look?, hv, ha, hcommand, hfeedback]
  · rw [hcommand, Option.map_some]

/-- A turn, told from the history of the output. -/
theorem visit_looked {x : SignalTable × StepReport} {h : CommandHistory} {s : Look} {out : Signal}
    (ha : v.config.active) (hf : v.config.Finds x.1 s out)
    (hv : v.pursuit = h.pursuit? v.config.verifyTimeout) :
    v.visit s.time i x =
      ({ v with pursuit := CommandHistory.pursuit? (s :: h) v.config.verifyTimeout },
        x.1.modify v.config.output (publish v.config (CommandHistory.verdict (s :: h) v.config)
          s.command s.feedback s.time),
        { x.2 with verificationsFailed :=
            x.2.verificationsFailed.succIf (CommandHistory.fails (s :: h) v.config) }) := by
  obtain ⟨t, r⟩ := x
  have he : v.config.enabled := by
    simp only [VerifiedConfig.active, Bool.and_eq_true] at ha
    exact ha.1.1.1
  obtain ⟨command, hcommand, hvalue⟩ := Option.map_eq_some_iff.mp hf.command
  have hfails : CommandHistory.fails (s :: h) v.config =
      (CommandHistory.verdict (s :: h) v.config == .checked &&
        !confirms v.config s.command s.feedback) := by
    rw [CommandHistory.fails, List.head?_cons, Option.any_some, s.status_eq]
    cases confirms v.config s.command s.feedback <;> rfl
  rw [hfails]
  simp only [visit, he, run, hcommand, hf.feedback, hf.output, hvalue, CommandHistory.due_eq hv]
  simp [CommandHistory.pursuit?]

/-- Nothing is counted for an output that is off or has no slots. -/
theorem visit_inactive {x : SignalTable × StepReport} (now : Time)
    (ha : v.config.active = false) :
    (v.visit now i x).2.2.verificationsFailed = x.2.verificationsFailed := by
  obtain ⟨t, r⟩ := x
  simp only [visit, run]
  split
  · next he =>
    split
    · next hcommand hfeedback =>
      have hout : (t.get? v.config.output).isSome = false := by
        rw [SignalTable.isSome_get?]
        simpa [VerifiedConfig.active, he, ← SignalTable.isSome_get? t, hcommand, hfeedback] using ha
      simp [hout, Counter.succIf]
    · rfl
  · rfl

-- ---------------------------------------------------------------------------
-- Any number of passes
-- ---------------------------------------------------------------------------

theorem exists_output {config : VerifiedConfig} (hi : configs[i]? = some config)
    (passes : List Pass) : ∃ v, (outputs configs passes)[i]? = some v ∧ v.config = config := by
  rw [← map_config_outputs configs passes, List.getElem?_map] at hi
  exact Option.map_eq_some_iff.mp hi

/-- What an output remembers is a function of its history. -/
theorem pursuit_outputs (hv : (outputs configs passes)[i]? = some v) (ha : v.config.active) :
    v.pursuit = (history configs i passes).pursuit? v.config.verifyTimeout := by
  induction passes generalizing v with
  | nil =>
    obtain ⟨c, -, rfl⟩ : ∃ c, configs[i]? = some c ∧ ofConfig c = v := by
      simpa [outputs] using hv
    rfl
  | cons p passes ih =>
    have hi : configs[i]? = some v.config := by
      rw [← map_config_outputs configs (p :: passes), List.getElem?_map, hv, Option.map_some]
    obtain ⟨w, hw, hconfig⟩ := exists_output hi passes
    rw [← hconfig] at ha ⊢
    obtain ⟨s, out, hlook, htime, hfinds⟩ := Pass.exists_look (p := p) hw ha
    have hvisit : v = (w.visit p.now i (p.upTo (outputs configs passes) i)).1 :=
      Option.some.inj (hv.symm.trans (Pass.run_getElem? hw))
    rw [hvisit, ← htime, visit_looked ha hfinds (ih hw ha), history, hlook]
    rfl

theorem history_inactive {config : VerifiedConfig} (hi : configs[i]? = some config)
    (ha : config.active = false) (passes : List Pass) : history configs i passes = [] := by
  induction passes with
  | nil => rfl
  | cons p passes ih =>
    obtain ⟨v, hv, rfl⟩ := exists_output hi passes
    simp [history, Pass.look?, hv, ha, ih]

/-- The newest pass has made the output at position `i` fail a check. -/
def failsAt (configs : List VerifiedConfig) (passes : List Pass) (i : Nat) : Bool :=
  configs[i]?.any (history configs i passes).fails

theorem visit_failed (hv : (outputs configs passes)[i]? = some v) :
    (v.visit p.now i (p.upTo (outputs configs passes) i)).2.2.verificationsFailed =
      (p.upTo (outputs configs passes) i).2.verificationsFailed.succIf
        (failsAt configs (p :: passes) i) := by
  have hi : configs[i]? = some v.config := by
    rw [← map_config_outputs configs passes, List.getElem?_map, hv, Option.map_some]
  cases ha : v.config.active with
  | true =>
    obtain ⟨s, out, hlook, htime, hfinds⟩ := Pass.exists_look (p := p) hv ha
    rw [← htime, visit_looked ha hfinds (pursuit_outputs hv ha), failsAt, hi, history, hlook]
    rfl
  | false =>
    rw [visit_inactive p.now ha, failsAt, hi, history_inactive hi ha]
    rfl

/-- The report counts the outputs that have failed a check in the pass. -/
theorem upTo_failed {k : Nat} (hk : k ≤ configs.length) (p : Pass) (passes : List Pass) :
    (p.upTo (outputs configs passes) k).2.verificationsFailed =
      p.report.verificationsFailed.addNat
        ((List.range k).countP (failsAt configs (p :: passes))) := by
  induction k with
  | zero => exact (Counter.addNat_zero _).symm
  | succ k ih =>
    obtain ⟨v, hv, -⟩ := exists_output (List.getElem?_eq_getElem hk) passes
    rw [Pass.upTo_succ hv, visit_failed hv, Counter.succIf_eq_addNat, ih (by omega),
      Counter.addNat_addNat, List.range_succ, List.countP_append, List.countP_singleton]

theorem Pass.run_table (p : Pass) (vs : List Verified) (k : Nat) :
    (p.run vs).2.1 =
      Update.runAll (((vs.drop k).filter (·.config.enabled)).map (asUpdate p.now))
        (p.upTo vs k).1 := by
  have htable (vs : List Verified) : (p.run vs).2.1 =
      Update.runAll ((vs.filter (·.config.enabled)).map (asUpdate p.now)) p.table :=
    table_sweepFrom Prod.fst (visit_update p.now) 0 vs _
  rw [upTo, htable, htable, ← Update.runAll_append, ← List.map_append, ← List.filter_append,
    List.take_append_drop]

/-- In the pass `p` the output at position `i` takes the look `s` and turns its
slot from `out` into `out'`. It stays so if no later output writes the slot. -/
structure TakesTurn (c : VerifiedConfig) (i : Nat) (p : Pass) (vs : List Verified) (s : Look)
    (out out' : Signal) : Prop where
  time : s.time = p.now
  finds : c.Finds (p.upTo vs i).1 s out
  leaves : (p.upTo vs (i + 1)).1.get? c.output = some out'
  stays : (∀ w ∈ vs.drop (i + 1), w.config.enabled → w.config.output ≠ c.output) →
    (p.run vs).2.1.get? c.output = some out'

/-- In every pass an active output answers the history of its commands, and the
report counts the checks that fail. -/
theorem verdicts_follow_commands {config : VerifiedConfig} (hi : configs[i]? = some config)
    (ha : config.active) (p : Pass) (passes : List Pass) :
    ∃ s v out out', TakesTurn config i p (outputs configs passes) s out out' ∧
      history configs i (p :: passes) = s :: history configs i passes ∧
      (outputs configs (p :: passes))[i]? = some v ∧ v.config = config ∧
      v.Answers (history configs i passes) s out out' ∧
      (p.run (outputs configs passes)).2.2.verificationsFailed.toNat =
        min (UInt32.size - 1) (p.report.verificationsFailed.toNat +
          (List.range configs.length).countP (failsAt configs (p :: passes))) := by
  obtain ⟨v, hv, rfl⟩ := exists_output hi passes
  obtain ⟨s, out, hlook, htime, hfinds⟩ := Pass.exists_look (p := p) hv ha
  have hvisit := visit_looked (i := i) ha hfinds (pursuit_outputs hv ha)
  rw [htime] at hvisit
  have hnext := Pass.run_getElem? (p := p) hv
  have hslot : (p.upTo (outputs configs passes) (i + 1)).1.get? v.config.output = some
      (publish v.config (CommandHistory.verdict (s :: history configs i passes) v.config)
        s.command s.feedback s.time out) := by
    rw [Pass.upTo_succ hv, hvisit, SignalTable.get?_modify, if_pos rfl, hfinds.output, htime,
      Option.map_some]
  refine ⟨s, _, out, _, ⟨htime, hfinds, hslot, fun hlater => ?_⟩, ?_, hnext, visit_config .., ?_, ?_⟩
  · rw [p.run_table _ (i + 1), Update.get?_runAll_of_ne, hslot]
    simp only [List.forall_mem_map, List.mem_filter, and_imp]
    exact hlater
  · rw [history, hlook]
    rfl
  · rw [hvisit]
    exact v.answers _ s out
  · have hlength := congrArg List.length (map_config_outputs configs passes)
    rw [List.length_map] at hlength
    rw [← Counter.toNat_addNat, ← upTo_failed (Nat.le_refl _) p passes, Pass.upTo, ← hlength,
      List.take_length]

end Verified

/-- A servo with a settling time of 1 ms, checked once, and the same one checked
in every pass. -/
def Verified.servos : List VerifiedConfig :=
  let servo (output : UInt8) : VerifiedConfig :=
    ((VerifiedConfig.ofSignals ⟨0⟩ ⟨1⟩ ⟨output⟩).withTolerance 5).withTimeout 1000
  [servo 2, (servo 3).continuously]

/-- A pass that finds a command on signal 0 and a position on signal 1. -/
def Verified.Pass.steer (now : Time) (command position : Int32) : Verified.Pass where
  now
  table := (SignalTable.empty.modify ⟨0⟩ ({ · with value := command })).modify ⟨1⟩
    ({ · with value := position })
  report := .zero

/-- The newest pass first. The command changes while it settles, and the clock
goes back once. -/
def Verified.Pass.steering : List Verified.Pass :=
  [.steer 1400 200 150, .steer 300 200 120, .steer 1000 200 100, .steer 500 200 50, .steer 0 100 0]

namespace Verified

/-- The first check comes 1 ms after the second command and finds the servo 10
off. -/
theorem verdicts_follow_steering :
    ∃ config, servos[0]? = some config ∧ config.active ∧
      (history servos 0 (.steer 1500 200 190 :: Pass.steering)).ages = [1000, 900, 0, 500, 0] ∧
      (List.range servos.length).countP
        (failsAt servos (.steer 1500 200 190 :: Pass.steering)) = 2 ∧
      ∃ s v out out',
        TakesTurn config 0 (.steer 1500 200 190) (outputs servos Pass.steering) s out out' ∧
          history servos 0 (.steer 1500 200 190 :: Pass.steering) =
            s :: history servos 0 Pass.steering ∧
          (outputs servos (.steer 1500 200 190 :: Pass.steering))[0]? = some v ∧
          v.config = config ∧ v.Answers (history servos 0 Pass.steering) s out out' ∧
          ((Pass.steer 1500 200 190).run
            (outputs servos Pass.steering)).2.2.verificationsFailed.toNat =
            min (UInt32.size - 1) ((Pass.steer 1500 200 190).report.verificationsFailed.toNat +
              (List.range servos.length).countP
                (failsAt servos (.steer 1500 200 190 :: Pass.steering))) :=
  ⟨_, rfl, by decide, by decide +kernel, by decide +kernel,
    verdicts_follow_commands (i := 0) rfl (by decide) (.steer 1500 200 190) Pass.steering⟩

end Verified

end SignalGuard
