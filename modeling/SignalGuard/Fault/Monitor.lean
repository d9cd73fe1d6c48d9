import SignalGuard.Fault
import SignalGuard.Report
import SignalGuard.Stage

/-!
# Fault monitors

In every step an enabled monitor looks at its watched signal, publishes the
level, wakes its listener when the result differs from the last one, and drives
the limp-home action:

* a fault in `normal` saves the scale's parameters and degrades the scale;
* a fault in `limp` starts the restore delay over;
* without a fault, `limp` ends once the delay has passed since the last fault,
  and the saved parameters come back.

A listener cannot influence the engine, so a wake is data: the calls are
returned in the order in which they would be made.
-/

namespace SignalGuard

/-- A notification for the listener of one monitor. -/
structure Wake where
  monitor : UInt8
  value : Int32
  level : FaultLevel
  deriving BEq, DecidableEq, Repr

/-- What a monitor has done to its target scale. -/
inductive LimpState
  | normal
  /-- The scale runs degraded. Kept are its own parameters and the time of the
  last fault in milliseconds. -/
  | limp (saved : ScaleParams) (lastFault : Nat)
  deriving BEq, DecidableEq, Repr, Inhabited

namespace LimpState

def isLimp : LimpState → Bool
  | normal => false
  | limp .. => true

/-- The spelling of the state without its data. -/
def spelling (s : LimpState) : String := if s.isLimp then "limp" else "normal"

/-- The spellings of both states. -/
def spellings : List String := ["normal", "limp"]

end LimpState

/-- One step of limp-home on the target scale, at a time in milliseconds. -/
def LimpAction.step (a : LimpAction) (faulted : Bool) (now : Nat) :
    LimpState → Scale → LimpState × Scale
  | .normal, scale =>
    if faulted then (.limp scale.params now, scale.setParams (a.degrade scale.params))
    else (.normal, scale)
  | .limp saved lastFault, scale =>
    if faulted then (.limp saved now, scale)
    else if a.restoreDelay.toNat ≤ now - lastFault then (.normal, scale.setParams saved)
    else (.limp saved lastFault, scale)

/-- A configured monitor with its state. -/
structure Monitor where
  config : MonitorConfig
  /-- Whether a listener is attached. -/
  hasWake : Bool
  /-- What the last pass detected. -/
  faulted : Bool
  limp : LimpState
  deriving BEq, DecidableEq, Repr

/-- What the monitors of one step share. -/
structure MonitorPass where
  table : SignalTable
  scales : List Scale
  report : StepReport
  /-- Calls so far, the latest one last. -/
  wakes : List Wake
  deriving DecidableEq

namespace Monitor

/-- A monitor that has not seen anything yet. -/
def ofConfig (config : MonitorConfig) (hasWake : Bool) : Monitor :=
  ⟨config, hasWake, false, .normal⟩

/-- Monitors past the last byte share one number. -/
def number (index : Nat) : UInt8 := UInt8.ofNatClamp index

/-- The fault signal after the level was written. -/
def publish (level : FaultLevel) (now : Time) (out : Signal) : Signal :=
  { out with
    value := level.value, status := .ok, timestamp := now
    updated := out.updated || out.value != level.value }

/-- The calls a listener receives: one if it is attached and there is reason. -/
def call (m : Monitor) (index : Nat) (reason : Bool) (value : Int32) (level : FaultLevel) :
    List Wake :=
  if m.hasWake && reason then [⟨number index, value, level⟩] else []

/-- Drives the limp-home action; a target without a scale changes nothing. -/
def stepLimp (m : Monitor) (faulted : Bool) (now : Time) (p : MonitorPass) :
    LimpState × MonitorPass :=
  match m.config.limp with
  | none => (m.limp, p)
  | some action =>
    let target := action.targetScale.toNat
    match p.scales[target]? with
    | none => (m.limp, p)
    | some scale =>
      let (limp, scale') := action.step faulted (now.toNat / 1000) m.limp scale
      (limp, { p with
        scales := p.scales.set target scale'
        report := { p.report with
          limpEntries := p.report.limpEntries.succIf (!m.limp.isLimp && limp.isLimp)
          limpExits := p.report.limpExits.succIf (m.limp.isLimp && !limp.isLimp) } })

/-- One pass over the monitor, whether or not it is enabled. -/
def run (now : Time) (index : Nat) (m : Monitor) (p : MonitorPass) : Monitor × MonitorPass :=
  match p.table.get? m.config.watched with
  | none => (m, p)
  | some watched =>
    let faulted := m.config.detect watched now
    let level := m.config.level faulted
    let calls := m.call index (faulted != m.faulted) watched.value level
    let (limp, p') := m.stepLimp faulted now { p with
      table := p.table.modify m.config.faultOutput (publish level now)
      wakes := p.wakes ++ calls
      report := { p.report with
        monitorsFaulted := p.report.monitorsFaulted.succIf faulted
        monitorWakes := p.report.monitorWakes.succIf !calls.isEmpty } }
    ({ m with faulted, limp }, p')

def visit (now : Time) (index : Nat) (m : Monitor) (p : MonitorPass) : Monitor × MonitorPass :=
  if m.config.enabled then m.run now index p else (m, p)

/-- The scales with the ones that the monitor degraded restored. -/
def release (m : Monitor) (scales : List Scale) : List Scale :=
  match m.limp, m.config.limp with
  | .limp saved _, some action => scales.modify action.targetScale.toNat (·.setParams saved)
  | _, _ => scales

def reset (m : Monitor) : Monitor := ofConfig m.config m.hasWake

end Monitor

/-- Runs the enabled monitors in order. -/
def runMonitors (monitors : List Monitor) (now : Time) (p : MonitorPass) :
    List Monitor × MonitorPass :=
  sweep (Monitor.visit now) monitors p

end SignalGuard
