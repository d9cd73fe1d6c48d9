import SignalGuard.Report
import SignalGuard.Signal.Table
import SignalGuard.Stage

/-!
# Verified outputs

A verified output compares an actuator's command with the feedback that should
follow it. When the command changes, the output shows the command until the
settling time is over. Then it shows the feedback: `ok` if it lies within the
tolerance of the command, an error otherwise. That verdict stands until the
next command, unless the output is continuous and checks again in every step.
-/

namespace SignalGuard

/-- Kind of actuator, for information only. -/
inductive ActuatorKind
  | gpio
  | pwm
  | analog
  | position
  | speed
  deriving BEq, DecidableEq, Repr, Inhabited, ReflBEq, LawfulBEq

def ActuatorKind.all : List ActuatorKind := [.gpio, .pwm, .analog, .position, .speed]

def ActuatorKind.spelling : ActuatorKind → String
  | .gpio => "gpio"
  | .pwm => "pwm"
  | .analog => "analog"
  | .position => "position"
  | .speed => "speed"

structure VerifiedConfig where
  command : SignalId
  feedback : SignalId
  output : SignalId
  kind : ActuatorKind
  tolerance : UInt32
  /-- Settling time after a command change, in microseconds. -/
  verifyTimeout : Time
  /-- Check again after the first verdict. -/
  continuous : Bool
  enabled : Bool
  deriving BEq, DecidableEq, Repr

namespace VerifiedConfig

/-- An enabled one-shot check without tolerance or settling time. -/
def ofSignals (command feedback output : SignalId) : VerifiedConfig :=
  ⟨command, feedback, output, .gpio, 0, 0, false, true⟩

def withTolerance (c : VerifiedConfig) (tolerance : UInt32) : VerifiedConfig := { c with tolerance }

def withTimeout (c : VerifiedConfig) (verifyTimeout : Time) : VerifiedConfig :=
  { c with verifyTimeout }

def continuously (c : VerifiedConfig) : VerifiedConfig := { c with continuous := true }

/-- Whether the feedback lies within the tolerance of the command. -/
def accepts (c : VerifiedConfig) (command feedback : Int32) : Bool :=
  (command.toInt - feedback.toInt).natAbs ≤ c.tolerance.toNat

end VerifiedConfig

/-- The command being followed. -/
structure Pursuit where
  command : Int32
  /-- Time of the pass that first saw the command. -/
  since : Time
  /-- Whether the verdict is still to come. -/
  waiting : Bool
  deriving BEq, DecidableEq, Repr

/-- A configured verified output; before the first pass it follows nothing. -/
structure Verified where
  config : VerifiedConfig
  pursuit : Option Pursuit
  deriving BEq, DecidableEq, Repr

/-- What a pass does with the output. -/
inductive Verdict
  /-- The command, while it settles. -/
  | pending
  /-- The feedback, checked. -/
  | checked
  /-- Nothing; the last verdict stands. -/
  | standing
  deriving BEq, DecidableEq, Repr

namespace Verified

def ofConfig (config : VerifiedConfig) : Verified := ⟨config, none⟩

/-- Whether a command is still settling. -/
def isPending (v : Verified) : Bool := (v.pursuit.map (·.waiting)).getD false

def reset (v : Verified) : Verified := ofConfig v.config

/-- The pursuit after a look at the command. -/
def follow (v : Verified) (command : Int32) (now : Time) : Pursuit :=
  match v.pursuit with
  | some p => if p.command = command then p else ⟨command, now, true⟩
  | none => ⟨command, now, true⟩

/-- What is due for the pursuit, and the pursuit afterwards. -/
def judge (c : VerifiedConfig) (p : Pursuit) (now : Time) : Verdict × Pursuit :=
  if p.waiting then
    if c.verifyTimeout.toNat ≤ now.toNat - p.since.toNat then
      (.checked, { p with waiting := false })
    else (.pending, p)
  else (if c.continuous then .checked else .standing, p)

/-- Whether the feedback confirms the command. -/
def confirms (c : VerifiedConfig) (command : Int32) (feedback : Signal) : Bool :=
  feedback.status.isOk && c.accepts command feedback.value

/-- The output slot after a pass. -/
def publish (c : VerifiedConfig) (verdict : Verdict) (command : Int32) (feedback : Signal)
    (now : Time) (out : Signal) : Signal :=
  match verdict with
  | .checked => { out with
      value := feedback.value, timestamp := now, updated := true
      status := if confirms c command feedback then .ok else .error }
  | .pending => { out with
      value := command, status := .ok, timestamp := now
      updated := out.value != command || !out.status.isOk }
  | .standing => out

/-- One pass, whether or not the output is enabled. The command is followed
even if the output has no slot, but then nothing is counted. -/
def run (now : Time) (v : Verified) : SignalTable × StepReport → Verified × SignalTable × StepReport
  | (t, r) =>
    match t.get? v.config.command, t.get? v.config.feedback with
    | some command, some feedback =>
      let (verdict, pursuit) := judge v.config (v.follow command.value now) now
      let failed := verdict == .checked && !confirms v.config command.value feedback &&
        (t.get? v.config.output).isSome
      ({ v with pursuit := some pursuit },
        t.modify v.config.output (publish v.config verdict command.value feedback now),
        { r with verificationsFailed := r.verificationsFailed.succIf failed })
    | _, _ => (v, t, r)

def visit (now : Time) (_ : Nat) (v : Verified) (s : SignalTable × StepReport) :
    Verified × SignalTable × StepReport :=
  if v.config.enabled then v.run now s else (v, s)

end Verified

/-- Runs the enabled verified outputs in order. -/
def runVerified (outputs : List Verified) (now : Time) (t : SignalTable) (r : StepReport) :
    List Verified × SignalTable × StepReport :=
  sweep (Verified.visit now) outputs (t, r)

end SignalGuard
