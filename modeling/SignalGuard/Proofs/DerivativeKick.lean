import SignalGuard.Proofs.PidRuns

/-!
# The derivative of an error that stays

The derivative takes the change of the error since the last evaluation. Priming
remembers no error, so that the first evaluation after it takes the whole error
for a change. From then on an error that stays has no derivative, and the
outputs are those of a controller without derivative gain: `Pid.kicks_once`.
The first output may differ (`Pid.kick_at_start`).
-/

namespace SignalGuard

def PidConfig.withoutDerivative (c : PidConfig) : PidConfig := { c with kd := 0 }

namespace Pid

def withoutDerivative (p : Pid) : Pid := { p with config := p.config.withoutDerivative }

/-- What a run gives out, one entry for every evaluation. -/
def outputs (p : Pid) : List PidCall → List (Option Int32)
  | [] => []
  | .update setpoint measurement now :: calls =>
    (p.update setpoint measurement now).2 :: (p.update setpoint measurement now).1.outputs calls
  | .reset :: calls => p.reset.outputs calls

variable {p : Pid} {m : PidMemory} {setpoint measurement : Int32}

-- ---------------------------------------------------------------------------
-- One evaluation
-- ---------------------------------------------------------------------------

theorem control_withoutDerivative (c : PidConfig) (error integral change : Int) (dt : Nat) :
    control c.withoutDerivative error integral change dt = control c error integral 0 dt := by
  have hterm : derivative c.withoutDerivative change dt = derivative c 0 dt := by
    simp [derivative, PidConfig.withoutDerivative]
  rw [control, control, hterm]
  rfl

/-- The derivative leaves no trace in what the controller remembers. -/
theorem update_withoutDerivative (p : Pid) (setpoint measurement : Int32) (now : Time) :
    (p.withoutDerivative.update setpoint measurement now).1 =
      (p.update setpoint measurement now).1.withoutDerivative := by
  cases hm : p.memory with
  | none =>
    have hm' : p.withoutDerivative.memory = none := hm
    rw [update_primes _ _ _ hm, update_primes _ _ _ hm']
    rfl
  | some m =>
    have hm' : p.withoutDerivative.memory = some m := hm
    by_cases hdt : timeStep p.config m now = 0
    · rw [update_waits _ _ _ hm hdt, update_waits _ _ _ hm' hdt]
      rfl
    · rw [update_advances _ _ _ hm hdt, update_advances _ _ _ hm' hdt]
      rfl

theorem output_withoutDerivative (hm : p.memory = some m) {now : Time}
    (hdt : timeStep p.config m now ≠ 0) :
    (p.withoutDerivative.update setpoint measurement now).2 =
      some (control p.config (errorOf setpoint measurement)
        (advance p.config m setpoint measurement now).integral 0 (timeStep p.config m now)) := by
  have hm' : p.withoutDerivative.memory = some m := hm
  rw [update_advances _ _ _ hm' hdt]
  exact congrArg some (control_withoutDerivative ..)

-- ---------------------------------------------------------------------------
-- Evaluations with the same inputs
-- ---------------------------------------------------------------------------

/-- Once the error has been seen, it has no derivative. -/
theorem outputs_of_seen (hm : p.memory = some m)
    (hseen : m.lastError = errorOf setpoint measurement) (times : List Time) :
    p.outputs (held setpoint measurement times) =
      p.withoutDerivative.outputs (held setpoint measurement times) := by
  induction times generalizing p m with
  | nil => rfl
  | cons now times ih =>
    have hm' : p.withoutDerivative.memory = some m := hm
    rw [held_cons, outputs, outputs, update_withoutDerivative]
    by_cases hdt : timeStep p.config m now = 0
    · rw [update_waits _ _ _ hm hdt, update_waits _ _ _ hm' hdt]
      rw [ih rfl ((noteSetpoint_lastError ..).trans hseen)]
    · rw [output_withoutDerivative hm hdt, update_advances _ _ _ hm hdt, hseen, Int.sub_self]
      rw [ih rfl rfl]

/-- The first output after priming for a change that the derivative takes. -/
def firstOutput (c : PidConfig) (error change : Int) (dt : Nat) : Int32 :=
  control c error (integrate c 0 error dt) change dt

/-- The outputs with and without derivative after a start at which no error was
seen: none while no time has passed, then one that takes the whole error for a
change, and then the same. -/
def PartsAtFirst (c : PidConfig) (m : PidMemory) (error : Int) (times : List Time)
    (outputs outputs' : List (Option Int32)) : Prop :=
  (outputs = List.replicate times.length none ∧ outputs' = outputs) ∨
    ∃ waits now later rest, times = waits ++ now :: later ∧ 0 < timeStep c m now ∧
      outputs = List.replicate waits.length none ++
        some (firstOutput c error error (timeStep c m now)) :: rest ∧
      outputs' = List.replicate waits.length none ++
        some (firstOutput c error 0 (timeStep c m now)) :: rest

theorem PartsAtFirst.wait {c : PidConfig} {error : Int} {now : Time} {times : List Time}
    {outs outs' : List (Option Int32)}
    (h : PartsAtFirst c (noteSetpoint c setpoint m) error times outs outs') :
    PartsAtFirst c m error (now :: times) (none :: outs) (none :: outs') := by
  rcases h with ⟨rfl, rfl⟩ | ⟨waits, first, later, rest, rfl, hdt, rfl, rfl⟩
  · exact .inl ⟨rfl, rfl⟩
  · rw [timeStep_noteSetpoint] at *
    exact .inr ⟨now :: waits, first, later, rest, rfl, hdt, rfl, rfl⟩

theorem outputs_of_start (hm : p.memory = some m) (hintegral : m.integral = 0)
    (herror : m.lastError = 0) (times : List Time) :
    PartsAtFirst p.config m (errorOf setpoint measurement) times
      (p.outputs (held setpoint measurement times))
      (p.withoutDerivative.outputs (held setpoint measurement times)) := by
  induction times generalizing p m with
  | nil => exact .inl ⟨rfl, rfl⟩
  | cons now times ih =>
    have hm' : p.withoutDerivative.memory = some m := hm
    have hnoted : (noteSetpoint p.config setpoint m).integral = 0 := by
      simp [noteSetpoint_integral, hintegral]
    rw [held_cons, outputs, outputs, update_withoutDerivative]
    by_cases hdt : timeStep p.config m now = 0
    · rw [update_waits _ _ _ hm hdt, update_waits _ _ _ hm' hdt]
      have hrest := ih (p := { p with memory := some (noteSetpoint p.config setpoint m) }) rfl
        hnoted ((noteSetpoint_lastError ..).trans herror)
      exact hrest.wait
    · have hadvance : (advance p.config m setpoint measurement now).integral =
          integrate p.config 0 (errorOf setpoint measurement) (timeStep p.config m now) := by
        rw [advance, hnoted]
      rw [output_withoutDerivative hm hdt, update_advances _ _ _ hm hdt, herror, Int.sub_zero,
        ← outputs_of_seen rfl rfl, hadvance]
      exact .inr ⟨[], now, times, _, rfl, Nat.pos_of_ne_zero hdt, rfl, rfl⟩

/-- After a reset, the outputs for inputs that stay are those of the controller
without derivative, except for the first one, in which the derivative takes the
whole error for a change. This is meant for limits that are in order, as
validation demands. There is no evaluation within inverted limits, and that
`limit` settles on the upper one of them says nothing about one. -/
theorem kicks_once (p : Pid) (setpoint measurement : Int32) (start : Time) (times : List Time) :
    ∃ outs outs',
      p.reset.outputs (held setpoint measurement (start :: times)) = none :: outs ∧
      p.withoutDerivative.reset.outputs (held setpoint measurement (start :: times)) =
        none :: outs' ∧
      PartsAtFirst p.config ⟨0, 0, setpoint, start⟩ (errorOf setpoint measurement) times outs
        outs' :=
  ⟨_, _, rfl, rfl, outputs_of_start
    (p := { p.reset with memory := some ⟨0, 0, setpoint, start⟩ }) rfl rfl rfl times⟩

/-- The first output is all derivative. -/
theorem kick_at_start :
    ∃ p, p = ofConfig
        (((PidConfig.ofSignals ⟨0⟩ ⟨1⟩ ⟨2⟩).withGains 0 0 1000).withSampleTime 1000000) ∧
      p.reset.outputs (held 100 0 [0, 1000000, 2000000]) = [none, some 100, some 0] ∧
      p.withoutDerivative.reset.outputs (held 100 0 [0, 1000000, 2000000]) =
        [none, some 0, some 0] ∧
      p.reset.outputs (held 100 0 [0, 1000000, 2000000]) ≠
        p.withoutDerivative.reset.outputs (held 100 0 [0, 1000000, 2000000]) :=
  ⟨_, rfl, by decide, by decide, by decide⟩

end Pid

end SignalGuard
