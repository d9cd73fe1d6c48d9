import SignalGuard.Fault.Monitor

/-!
# What a visit to a fault monitor does

A visit changes nothing if the monitor is disabled or its watched signal has no
slot (`visit_idle`). Otherwise it acts on the monitor, on the table and on the
scales as `visit_monitor`, `visit_table` and `visit_scales` say. Limp-home sees
nothing of a pass but the scales, which `Monitor.limpStep` makes explicit.
-/

namespace SignalGuard

namespace Monitor

/-- The limp-home part of a visit: the next limp state and the next scales. -/
def limpStep (m : Monitor) (faulted : Bool) (now : Time) (scales : List Scale) :
    LimpState × List Scale :=
  match m.config.limp with
  | none => (m.limp, scales)
  | some action =>
    match scales[action.targetScale.toNat]? with
    | none => (m.limp, scales)
    | some scale =>
      let (limp, scale') := action.step faulted (now.toNat / 1000) m.limp scale
      (limp, scales.set action.targetScale.toNat scale')

variable {m : Monitor} {p : MonitorPass} {watched : Signal}

/-- A monitor that keeps its state counts neither an entry nor an exit, so one
equation serves the monitors with and without an action. -/
theorem stepLimp_eq (m : Monitor) (faulted : Bool) (now : Time) (p : MonitorPass) :
    m.stepLimp faulted now p =
      ((m.limpStep faulted now p.scales).1, { p with
        scales := (m.limpStep faulted now p.scales).2
        report := { p.report with
          limpEntries := p.report.limpEntries.succIf
            (!m.limp.isLimp && (m.limpStep faulted now p.scales).1.isLimp)
          limpExits := p.report.limpExits.succIf
            (m.limp.isLimp && !(m.limpStep faulted now p.scales).1.isLimp) } }) := by
  cases ha : m.config.limp with
  | none => simp [stepLimp, limpStep, ha, Counter.succIf]
  | some action =>
    cases hs : p.scales[action.targetScale.toNat]? with
    | none => simp [stepLimp, limpStep, ha, hs, Counter.succIf]
    | some scale => simp [stepLimp, limpStep, ha, hs]

theorem visit_idle (now : Time) (index : Nat)
    (h : m.config.enabled = false ∨ p.table.get? m.config.watched = none) :
    m.visit now index p = (m, p) := by
  unfold visit run
  rcases h with h | h
  · simp [h]
  · simp [h]

theorem visit_monitor (now : Time) (index : Nat) (he : m.config.enabled)
    (hw : p.table.get? m.config.watched = some watched) :
    (m.visit now index p).1 = { m with
      faulted := m.config.detect watched now
      limp := (m.limpStep (m.config.detect watched now) now p.scales).1 } := by
  simp [visit, run, he, hw, stepLimp_eq]

theorem visit_table (now : Time) (index : Nat) (he : m.config.enabled)
    (hw : p.table.get? m.config.watched = some watched) :
    (m.visit now index p).2.table = p.table.modify m.config.faultOutput
      (publish (m.config.level (m.config.detect watched now)) now) := by
  simp [visit, run, he, hw, stepLimp_eq]

theorem visit_scales (now : Time) (index : Nat) (he : m.config.enabled)
    (hw : p.table.get? m.config.watched = some watched) :
    (m.visit now index p).2.scales =
      (m.limpStep (m.config.detect watched now) now p.scales).2 := by
  simp [visit, run, he, hw, stepLimp_eq]

theorem visit_config (now : Time) (index : Nat) (m : Monitor) (p : MonitorPass) :
    (m.visit now index p).1.config = m.config := by
  unfold visit run
  split
  · split <;> rfl
  · rfl

theorem visit_hasWake (now : Time) (index : Nat) (m : Monitor) (p : MonitorPass) :
    (m.visit now index p).1.hasWake = m.hasWake := by
  unfold visit run
  split
  · split <;> rfl
  · rfl

end Monitor

end SignalGuard
