import SignalGuard.Proofs.History

/-!
# Runs of a controller

A controller is evaluated and reset, in any order and at any times.
`Pid.ReachedFrom` is what can come of its configuration that way, and
`Pid.ReachedFrom.induction` lifts what one call preserves to all of it. An
evaluation primes a controller without a memory, leaves one alone for which no
time has passed, and otherwise advances its memory and gives an output.
-/

namespace SignalGuard

inductive PidCall
  | update (setpoint measurement : Int32) (now : Time)
  | reset
  deriving DecidableEq, Repr

namespace Pid

variable {c : PidConfig} {p : Pid} {m : PidMemory}

-- ---------------------------------------------------------------------------
-- One evaluation
-- ---------------------------------------------------------------------------

@[simp] theorem noteSetpoint_lastError (c : PidConfig) (setpoint : Int32) (m : PidMemory) :
    (noteSetpoint c setpoint m).lastError = m.lastError := by
  unfold noteSetpoint
  split <;> rfl

@[simp] theorem noteSetpoint_lastTime (c : PidConfig) (setpoint : Int32) (m : PidMemory) :
    (noteSetpoint c setpoint m).lastTime = m.lastTime := by
  unfold noteSetpoint
  split <;> rfl

/-- Whether the setpoint puts the integral back to zero. -/
def clears (c : PidConfig) (m : PidMemory) (setpoint : Int32) : Bool :=
  c.resetOnSetpointChange && setpoint != m.lastSetpoint

theorem noteSetpoint_integral (c : PidConfig) (setpoint : Int32) (m : PidMemory) :
    (noteSetpoint c setpoint m).integral = if clears c m setpoint then 0 else m.integral := by
  unfold noteSetpoint clears
  split
  · rfl
  · rfl

@[simp] theorem timeStep_noteSetpoint (c : PidConfig) (setpoint : Int32) (m : PidMemory)
    (now : Time) : timeStep c (noteSetpoint c setpoint m) now = timeStep c m now := by
  rw [timeStep, timeStep, noteSetpoint_lastTime]

/-- The memory after an evaluation for which time has passed. -/
def advance (c : PidConfig) (m : PidMemory) (setpoint measurement : Int32) (now : Time) :
    PidMemory :=
  { noteSetpoint c setpoint m with
    integral := integrate c (noteSetpoint c setpoint m).integral
      (errorOf setpoint measurement) (timeStep c m now)
    lastError := errorOf setpoint measurement
    lastTime := now }

variable (setpoint measurement : Int32) (now : Time)

theorem update_primes (h : p.memory = none) :
    p.update setpoint measurement now =
      ({ p with memory := some ⟨0, 0, setpoint, now⟩ }, none) := by
  simp only [update, h]

theorem update_waits (h : p.memory = some m) (hdt : timeStep p.config m now = 0) :
    p.update setpoint measurement now =
      ({ p with memory := some (noteSetpoint p.config setpoint m) }, none) := by
  simp only [update, h, timeStep_noteSetpoint, hdt, if_true]

theorem update_advances (h : p.memory = some m) (hdt : timeStep p.config m now ≠ 0) :
    p.update setpoint measurement now =
      ({ p with memory := some (advance p.config m setpoint measurement now) },
        some (control p.config (errorOf setpoint measurement)
          (advance p.config m setpoint measurement now).integral
          (errorOf setpoint measurement - m.lastError) (timeStep p.config m now))) := by
  simp only [update, h, timeStep_noteSetpoint, if_neg hdt, noteSetpoint_lastError]
  rfl

-- ---------------------------------------------------------------------------
-- Runs
-- ---------------------------------------------------------------------------

/-- The controller after a call. -/
def answer (p : Pid) : PidCall → Pid
  | .update setpoint measurement now => (p.update setpoint measurement now).1
  | .reset => p.reset

def after (p : Pid) (calls : List PidCall) : Pid := calls.foldl answer p

@[simp] theorem after_cons (p : Pid) (call : PidCall) (calls : List PidCall) :
    p.after (call :: calls) = (p.answer call).after calls := rfl

/-- Evaluations at the times, all of them with the same inputs. -/
def held (setpoint measurement : Int32) (times : List Time) : List PidCall :=
  times.map (.update setpoint measurement)

@[simp] theorem held_cons (setpoint measurement : Int32) (now : Time) (times : List Time) :
    held setpoint measurement (now :: times) =
      .update setpoint measurement now :: held setpoint measurement times := rfl

/-- Some run leads from the configuration to the controller. -/
def ReachedFrom (p : Pid) (c : PidConfig) : Prop := ∃ calls, (ofConfig c).after calls = p

theorem ReachedFrom.induction {P : Pid → Prop} (h : P (ofConfig c))
    (hcall : ∀ p call, P p → P (p.answer call)) (hp : p.ReachedFrom c) : P p := by
  obtain ⟨calls, rfl⟩ := hp
  exact List.foldlRecOn calls answer h fun p hp call _ => hcall p call hp

/-- What an observer makes of the calls, each of which it sees together with the
controller that the call finds. -/
def record {α : Type} (observe : Pid → α → PidCall → α) (p : Pid) (a : α) : List PidCall → α
  | [] => a
  | call :: calls => (p.answer call).record observe (observe p a call) calls

theorem record_induction {α : Type} {observe : Pid → α → PidCall → α} {P : Pid → α → Prop}
    {a : α} (h : P p a) (hcall : ∀ p a call, P p a → P (p.answer call) (observe p a call))
    (calls : List PidCall) : P (p.after calls) (p.record observe a calls) := by
  induction calls generalizing p a with
  | nil => exact h
  | cons call calls ih => exact ih (hcall p a call h)

theorem ReachedFrom.config_eq (hp : p.ReachedFrom c) : p.config = c := by
  refine hp.induction (P := fun p => p.config = c) rfl fun p call hp => ?_
  cases call with
  | update setpoint measurement now => exact (p.update_config setpoint measurement now).trans hp
  | reset => exact hp

end Pid

end SignalGuard
