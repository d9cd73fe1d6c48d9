import SignalGuard.Signal.Table
import SignalGuard.Stage

/-!
# PID controllers

Gains are in thousandths. The integral adds up error times seconds, truncated
in every step, and is held within its limits. The derivative is the change of
the error over the time step, which is the fixed sample time or, if that is
zero, the time since the last evaluation. All terms are computed over the
unbounded integers; only the output is brought back into a word.

A controller learns its starting point in one pass that has no output. It
forgets everything when an input is not `ok`, and then starts over.
-/

namespace SignalGuard

structure PidConfig where
  setpoint : SignalId
  measurement : SignalId
  output : SignalId
  kp : Int32
  ki : Int32
  kd : Int32
  outputMin : Int32
  outputMax : Int32
  integralMin : Int32
  integralMax : Int32
  /-- Errors of at most this magnitude are not integrated. -/
  deadband : UInt32
  /-- Fixed time step in microseconds; zero measures it. -/
  sampleTime : Time
  /-- Clear the integral when the setpoint changes. -/
  resetOnSetpointChange : Bool
  enabled : Bool
  deriving BEq, DecidableEq, Repr

namespace PidConfig

/-- An enabled controller without gains or limits. -/
def ofSignals (setpoint measurement output : SignalId) : PidConfig where
  setpoint
  measurement
  output
  kp := 0
  ki := 0
  kd := 0
  outputMin := Int32.minValue
  outputMax := Int32.maxValue
  integralMin := Int32.minValue
  integralMax := Int32.maxValue
  deadband := 0
  sampleTime := 0
  resetOnSetpointChange := false
  enabled := true

def withGains (c : PidConfig) (kp ki kd : Int32) : PidConfig := { c with kp, ki, kd }

def withOutputLimits (c : PidConfig) (outputMin outputMax : Int32) : PidConfig :=
  { c with outputMin, outputMax }

def withIntegralLimits (c : PidConfig) (integralMin integralMax : Int32) : PidConfig :=
  { c with integralMin, integralMax }

def withSampleTime (c : PidConfig) (sampleTime : Time) : PidConfig := { c with sampleTime }

end PidConfig

/-- What a controller remembers between evaluations. -/
structure PidMemory where
  integral : Int
  lastError : Int
  lastSetpoint : Int32
  lastTime : Time
  deriving BEq, DecidableEq, Repr

/-- A configured controller; without a memory the next evaluation primes it. -/
structure Pid where
  config : PidConfig
  memory : Option PidMemory
  deriving BEq, DecidableEq, Repr

namespace Pid

def ofConfig (config : PidConfig) : Pid := ⟨config, none⟩

/-- The integral so far; zero before priming. -/
def integral (p : Pid) : Int := (p.memory.map (·.integral)).getD 0

def reset (p : Pid) : Pid := ofConfig p.config

/-- The nearest value within the limits. -/
def limit (lo hi : Int32) (i : Int) : Int := min (max i lo.toInt) hi.toInt

/-- Error between setpoint and measurement. -/
def errorOf (setpoint measurement : Int32) : Int := setpoint.toInt - measurement.toInt

/-- Time step in microseconds. -/
def timeStep (c : PidConfig) (m : PidMemory) (now : Time) : Nat :=
  if c.sampleTime > 0 then c.sampleTime.toNat else now.toNat - m.lastTime.toNat

def proportional (c : PidConfig) (error : Int) : Int := (c.kp.toInt * error).tdiv 1000

/-- The integral after one more time step. Without an integral gain, and
within the dead band, it stays as it is. -/
def integrate (c : PidConfig) (integral error : Int) (dt : Nat) : Int :=
  if c.ki ≠ 0 ∧ error.natAbs > c.deadband.toNat then
    limit c.integralMin c.integralMax (integral + (error * dt).tdiv 1000000)
  else integral

def integralTerm (c : PidConfig) (integral : Int) : Int := (c.ki.toInt * integral).tdiv 1000

def derivative (c : PidConfig) (change : Int) (dt : Nat) : Int :=
  (c.kd.toInt * change * 1000000).tdiv (dt * 1000)

/-- The three terms within the output limits. -/
def control (c : PidConfig) (error integral change : Int) (dt : Nat) : Int32 :=
  Int32.ofIntClamp <| limit c.outputMin c.outputMax <|
    proportional c error + integralTerm c integral + derivative c change dt

/-- The memory after a look at the setpoint. -/
def noteSetpoint (c : PidConfig) (setpoint : Int32) (m : PidMemory) : PidMemory :=
  if c.resetOnSetpointChange && setpoint != m.lastSetpoint then
    { m with integral := 0, lastSetpoint := setpoint }
  else m

/-- One evaluation. There is no output while priming and when no time passed. -/
def update (p : Pid) (setpoint measurement : Int32) (now : Time) : Pid × Option Int32 :=
  match p.memory with
  | none => ({ p with memory := some ⟨0, 0, setpoint, now⟩ }, none)
  | some m =>
    let m := noteSetpoint p.config setpoint m
    let error := errorOf setpoint measurement
    let dt := timeStep p.config m now
    if dt = 0 then ({ p with memory := some m }, none)
    else
      let integral := integrate p.config m.integral error dt
      ({ p with memory := some { m with integral, lastError := error, lastTime := now } },
        some (control p.config error integral (error - m.lastError) dt))

/-- The status of the first input that is not `ok`, the measurement first. -/
def badInput? (setpoint measurement : Signal) : Option SignalStatus :=
  [measurement.status, setpoint.status].find? fun s => !s.isOk

/-- One evaluation over the table, whether or not the controller is enabled.
The controller runs even if its output has no slot. -/
def run (now : Time) (p : Pid) (t : SignalTable) : Pid × SignalTable :=
  match t.get? p.config.setpoint, t.get? p.config.measurement with
  | some setpoint, some measurement =>
    match badInput? setpoint measurement with
    | some status => (p.reset, t.modify p.config.output fun out =>
        { out with status, timestamp := now, updated := out.updated || out.status != status })
    | none =>
      match p.update setpoint.value measurement.value now with
      | (p', none) => (p', t)
      | (p', some value) => (p', t.modify p.config.output fun out =>
          { out with value, status := .ok, timestamp := now, updated := true })
  | _, _ => (p, t)

def visit (now : Time) (_ : Nat) (p : Pid) (t : SignalTable) : Pid × SignalTable :=
  if p.config.enabled then p.run now t else (p, t)

end Pid

/-- Runs the enabled controllers in order. -/
def runPids (pids : List Pid) (now : Time) (t : SignalTable) : List Pid × SignalTable :=
  sweep (Pid.visit now) pids t

end SignalGuard
