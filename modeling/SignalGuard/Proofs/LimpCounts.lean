import SignalGuard.Proofs.ReportLaws

/-!
# Entries into limp-home and exits from it

A step turns a monitor to limp-home, turns it back, or neither. Turns that
follow each other as the states between them demand alternate
(`LimpTurn.LeadTo.turn`). `Engine.turns_step`: the report of a step counts the
monitors that it turned.
-/

namespace SignalGuard

-- ---------------------------------------------------------------------------
-- Turns
-- ---------------------------------------------------------------------------

inductive LimpTurn
  | entry
  | exit
  deriving DecidableEq, Repr

def LimpState.turn? (before after : LimpState) : Option LimpTurn :=
  if before.isLimp = after.isLimp then none
  else if after.isLimp then some .entry
  else some .exit

namespace LimpTurn

/-- Entries and exits take turns, and the oldest of them is an entry. The
newest one comes first. -/
def Alternate (turns : List LimpTurn) : Prop :=
  turns.IsChain (· ≠ ·) ∧ ∀ t ∈ turns.getLast?, t = entry

theorem alternate_singleton {t : LimpTurn} : Alternate [t] ↔ t = entry := by simp [Alternate]

theorem alternate_cons_cons {t u : LimpTurn} {turns : List LimpTurn} :
    Alternate (t :: u :: turns) ↔ t ≠ u ∧ Alternate (u :: turns) := by
  simp [Alternate, and_assoc]

/-- The turns that lead from normal operation to the state. -/
structure LeadTo (turns : List LimpTurn) (l : LimpState) : Prop where
  alternate : Alternate turns
  isLimp_iff : l.isLimp = true ↔ turns.head? = some entry

theorem leadTo_nil : LeadTo [] .normal :=
  ⟨⟨.nil, by simp⟩, by simp [LimpState.isLimp]⟩

theorem LeadTo.turn {turns : List LimpTurn} {l : LimpState} (h : LeadTo turns l) (l' : LimpState) :
    LeadTo ((l.turn? l').toList ++ turns) l' := by
  obtain ⟨halt, hlimp⟩ := h
  unfold LimpState.turn?
  split
  · next hsame => exact ⟨halt, hsame ▸ hlimp⟩
  · next hdiff =>
    split
    · next hl' =>
      -- an entry, the first turn or one after an exit
      have hl : l.isLimp = false := by simpa [hl'] using hdiff
      refine ⟨?_, by simp [hl']⟩
      cases turns with
      | nil => exact alternate_singleton.mpr rfl
      | cons t turns =>
        refine alternate_cons_cons.mpr ⟨?_, halt⟩
        rintro rfl
        simp [hl] at hlimp
    · next hl' =>
      -- an exit, and the turn before it is the entry
      have hl : l.isLimp = true := by simpa [hl'] using hdiff
      refine ⟨?_, by simp [hl']⟩
      cases turns with
      | nil => simp [hl] at hlimp
      | cons t turns =>
        refine alternate_cons_cons.mpr ⟨?_, halt⟩
        rintro rfl
        simp [hl] at hlimp

end LimpTurn

-- ---------------------------------------------------------------------------
-- Reports
-- ---------------------------------------------------------------------------

def StepReport.turns (r : StepReport) : LimpTurn → Counter
  | .entry => r.limpEntries
  | .exit => r.limpExits

variable {kind : LimpTurn}

namespace Monitor

def turn? (m m' : Monitor) : Option LimpTurn := m.limp.turn? m'.limp

theorem visit_turns (now : Time) (index : Nat) (m : Monitor) (p : MonitorPass) :
    (m.visit now index p).2.report.turns kind =
      (p.report.turns kind).succIf (m.turn? (m.visit now index p).1 = some kind) := by
  have hidle : (p.report.turns kind).succIf (m.turn? m = some kind) = p.report.turns kind := by
    simp [turn?, LimpState.turn?, Counter.succIf]
  cases he : m.config.enabled with
  | false => rw [visit_idle now index (.inl he), hidle]
  | true =>
    cases hw : p.table.get? m.config.watched with
    | none => rw [visit_idle now index (.inr hw), hidle]
    | some watched =>
      rw [visit_monitor now index he hw]
      simp only [visit, run, he, hw, if_true, stepLimp_eq, turn?]
      generalize (m.limpStep (m.config.detect watched now) now p.scales).1 = l'
      cases kind <;> cases hl : m.limp.isLimp <;> cases hl' : l'.isLimp <;>
        simp [StepReport.turns, LimpState.turn?, hl, hl']

theorem sweepFrom_turns (now : Time) (i : Nat) (ms : List Monitor) (p : MonitorPass) :
    (sweepFrom (visit now) i ms p).2.report.turns kind = (p.report.turns kind).addNat
      ((ms.zip (sweepFrom (visit now) i ms p).1).countP fun mm => mm.1.turn? mm.2 = some kind) :=
  sweepFrom_counts (fun p : MonitorPass => p.report.turns kind)
    (fun m m' : Monitor => m.turn? m' = some kind) (fun m _ i p => visit_turns now i m p) i p

end Monitor

theorem Engine.turns_step (e : Engine) (hfit : e.monitors.length < UInt32.size) (now : Time)
    (events : List Event) (kind : LimpTurn) :
    ((e.step now events).1.lastReport.turns kind).toNat =
      (e.monitors.zip (e.step now events).1.monitors).countP fun mm =>
        mm.1.turn? mm.2 = some kind := by
  have hstart : (e.merged now events).2.turns kind = 0 := by
    obtain ⟨-, -, hentries, hexits⟩ := e.merged_uncounted now events
    cases kind with
    | entry => exact hentries
    | exit => exact hexits
  have hreport : (e.step now events).1.lastReport.turns kind =
      (e.monitored now events).2.report.turns kind := by
    rw [lastReport_eq]
    cases kind <;> rfl
  have hcount : (e.monitored now events).2.report.turns kind =
      ((e.merged now events).2.turns kind).addNat
        ((e.monitors.zip (e.step now events).1.monitors).countP fun mm =>
          mm.1.turn? mm.2 = some kind) :=
    Monitor.sweepFrom_turns now 0 e.monitors _
  have hle : (e.monitors.zip (e.step now events).1.monitors).countP
      (fun mm => mm.1.turn? mm.2 = some kind) ≤ e.monitors.length := by
    refine Nat.le_trans List.countP_le_length ?_
    rw [List.length_zip]
    exact Nat.min_le_left _ _
  -- no counter is full, since there are too few monitors
  rw [hreport, hcount, hstart]
  exact Counter.toNat_zero_addNat (by omega)

end SignalGuard
