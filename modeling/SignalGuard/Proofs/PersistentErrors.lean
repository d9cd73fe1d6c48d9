import Mathlib.Algebra.GroupWithZero.Nat
import SignalGuard.Proofs.IntegralLimits

/-!
# How the integral takes up an error that stays

The integral counts seconds of one unit of error, and an evaluation adds as many
of them as the error makes up in its time step, cut to a whole number. As long
as the error stays, these numbers have one sign, so that limiting the integral
in every evaluation comes to limiting it once: `Pid.TakesUp.integral_held`.

An error above the dead band moves the integral in its direction if it makes up
a whole number in one of the time steps (`Pid.follows_persistent_error`).
Otherwise all of it is cut off, however often the controller is evaluated
(`Pid.error_ignored`).
-/

namespace SignalGuard

namespace Pid

variable {c : PidConfig} {p : Pid} {m : PidMemory} {setpoint measurement : Int32}

-- ---------------------------------------------------------------------------
-- What an error adds
-- ---------------------------------------------------------------------------

/-- How much an error adds to the integral in a time step, in magnitude. -/
def increment (error : Int) (dt : Nat) : Nat := error.natAbs * dt / 1000000

/-- So far from a value in the direction of the error. -/
def toward (error i : Int) (n : Nat) : Int := if error < 0 then i - n else i + n

/-- From one value to the next in the direction of the error. -/
def Follows (error before after : Int) : Prop :=
  if error < 0 then after < before else before < after

instance (error before after : Int) : Decidable (Follows error before after) :=
  inferInstanceAs (Decidable (if error < 0 then after < before else before < after))

theorem increment_eq_zero_iff (error : Int) (dt : Nat) :
    increment error dt = 0 ↔ error.natAbs * dt < 1000000 :=
  Nat.div_eq_zero_iff_lt (by decide)

@[simp] theorem increment_zero (error : Int) : increment error 0 = 0 := by simp [increment]

@[simp] theorem toward_zero (error i : Int) : toward error i 0 = i := by simp [toward]

theorem add_tdiv_eq (error i : Int) (dt : Nat) :
    i + (error * dt).tdiv 1000000 = toward error i (increment error dt) := by
  unfold toward increment
  obtain ⟨n, rfl | rfl⟩ := error.eq_nat_or_neg
  · rw [if_neg (by omega), ← Int.natCast_mul]
    rfl
  · rw [Int.neg_mul, Int.neg_tdiv, Int.natAbs_neg, Int.natAbs_natCast, ← Int.natCast_mul]
    split
    · rfl
    · obtain rfl : n = 0 := by omega
      simp

theorem limit_of_admits {i : Int} (h : c.Admits i) :
    limit c.integralMin c.integralMax i = i := by
  unfold PidConfig.Admits at h
  unfold limit
  omega

/-- Limits that hold at first need not be seen to on the way. -/
theorem limit_toward_limit {i : Int} (h : c.Admits i) (error : Int) (a b : Nat) :
    limit c.integralMin c.integralMax
        (toward error (limit c.integralMin c.integralMax (toward error i a)) b) =
      limit c.integralMin c.integralMax (toward error i (a + b)) := by
  unfold PidConfig.Admits at h
  unfold limit toward
  split <;> omega

theorem follows_limit {i : Int} (hlo : c.integralMin.toInt < i) (hhi : i < c.integralMax.toInt)
    (error : Int) {n : Nat} (hn : n ≠ 0) :
    Follows error i (limit c.integralMin c.integralMax (toward error i n)) := by
  unfold Follows limit toward
  split <;> omega

/-- An error moves the integral in its direction if one of the time steps is
long enough for it, and not at all if none is. -/
def Heeds (error : Int) (steps : List Nat) (before after : Int) : Prop :=
  ((∃ dt ∈ steps, 1000000 ≤ error.natAbs * dt) → Follows error before after) ∧
    ((∀ dt ∈ steps, error.natAbs * dt < 1000000) → after = before)

theorem heeds_limit {i : Int} (hlo : c.integralMin.toInt < i) (hhi : i < c.integralMax.toInt)
    (error : Int) (steps : List Nat) :
    Heeds error steps i (limit c.integralMin c.integralMax
      (toward error i (steps.map (increment error)).sum)) := by
  constructor
  · rintro ⟨dt, hdt, hlong⟩
    refine follows_limit hlo hhi error fun hzero => ?_
    have hnone := List.sum_eq_zero_iff_forall_eq_nat.mp hzero _ (List.mem_map_of_mem hdt)
    rw [increment_eq_zero_iff] at hnone
    omega
  · intro hshort
    have hnone : (steps.map (increment error)).sum = 0 := by
      refine List.sum_eq_zero_iff_forall_eq_nat.mpr (List.forall_mem_map.mpr fun dt hdt => ?_)
      exact (increment_eq_zero_iff error dt).mpr (hshort dt hdt)
    rw [hnone, toward_zero, limit_of_admits ⟨Int.le_of_lt hlo, Int.le_of_lt hhi⟩]

-- ---------------------------------------------------------------------------
-- Evaluations with the same inputs
-- ---------------------------------------------------------------------------

/-- The controller takes up the error of these inputs: it is primed, integrates
errors of this size and does not start over. -/
structure TakesUp (p : Pid) (setpoint measurement : Int32) (m : PidMemory) : Prop where
  memory : p.memory = some m
  gain : p.config.ki ≠ 0
  error : p.config.deadband.toNat < (errorOf setpoint measurement).natAbs
  kept : clears p.config m setpoint = false
  admitted : p.config.Admits m.integral

/-- The time steps of evaluations with the same inputs, zero while priming. -/
def timeSteps (p : Pid) (setpoint measurement : Int32) : List Time → List Nat
  | [] => []
  | now :: times => p.memory.elim 0 (timeStep p.config · now) ::
      (p.update setpoint measurement now).1.timeSteps setpoint measurement times

theorem noteSetpoint_of_kept (h : clears c m setpoint = false) : noteSetpoint c setpoint m = m :=
  if_neg (by simpa [clears] using h)

theorem TakesUp.update (h : p.TakesUp setpoint measurement m) (now : Time) :
    ∃ m', (p.update setpoint measurement now).1.TakesUp setpoint measurement m' ∧
      m'.integral = limit p.config.integralMin p.config.integralMax
        (toward (errorOf setpoint measurement) m.integral
          (increment (errorOf setpoint measurement) (timeStep p.config m now))) := by
  have hnoted := noteSetpoint_of_kept h.kept
  by_cases hdt : timeStep p.config m now = 0
  · rw [update_waits _ _ _ h.memory hdt, hnoted]
    refine ⟨m, { h with memory := rfl }, ?_⟩
    rw [hdt, increment_zero, toward_zero, limit_of_admits h.admitted]
  · have hintegral : (advance p.config m setpoint measurement now).integral =
        limit p.config.integralMin p.config.integralMax
          (toward (errorOf setpoint measurement) m.integral
            (increment (errorOf setpoint measurement) (timeStep p.config m now))) := by
      rw [advance, hnoted, integrate, if_pos ⟨h.gain, h.error⟩, add_tdiv_eq]
    rw [update_advances _ _ _ h.memory hdt]
    refine ⟨_, { h with memory := rfl, kept := ?_, admitted := ?_ }, hintegral⟩
    · rw [advance, hnoted]
      exact h.kept
    · rw [hintegral]
      exact limit_admitted (Int.le_trans h.admitted.1 h.admitted.2) _

/-- The integral after evaluations of the same error, limited once. -/
theorem TakesUp.integral_held (h : p.TakesUp setpoint measurement m) (times : List Time) :
    (p.after (held setpoint measurement times)).integral =
      limit p.config.integralMin p.config.integralMax
        (toward (errorOf setpoint measurement) m.integral
          ((p.timeSteps setpoint measurement times).map
            (increment (errorOf setpoint measurement))).sum) := by
  induction times generalizing p m with
  | nil =>
    rw [timeSteps, List.map_nil, List.sum_nil, toward_zero, limit_of_admits h.admitted]
    show p.integral = m.integral
    rw [integral, h.memory, Option.map_some, Option.getD_some]
  | cons now times ih =>
    obtain ⟨m', h', hintegral⟩ := h.update now
    have hrest := ih h'
    rw [p.update_config, hintegral, limit_toward_limit h.admitted] at hrest
    rw [timeSteps, h.memory, Option.elim_some, List.map_cons, List.sum_cons]
    exact hrest

/-- An evaluation makes the integral follow an error above the dead band if the
error adds up to a second of one unit in the time step, and leaves it alone if
not. So an error that stays is ignored until one of the time steps is long
enough for it. -/
theorem follows_persistent_error (hm : p.memory = some m) (hki : p.config.ki ≠ 0)
    (hlo : p.config.integralMin.toInt < m.integral) (hhi : m.integral < p.config.integralMax.toInt)
    (herror : p.config.deadband.toNat < (errorOf setpoint measurement).natAbs)
    (hkept : clears p.config m setpoint = false) :
    (∀ now, Heeds (errorOf setpoint measurement) [timeStep p.config m now] m.integral
        (p.update setpoint measurement now).1.integral) ∧
      ∀ times, Heeds (errorOf setpoint measurement) (p.timeSteps setpoint measurement times)
        m.integral (p.after (held setpoint measurement times)).integral := by
  have htakes : p.TakesUp setpoint measurement m :=
    ⟨hm, hki, herror, hkept, Int.le_of_lt hlo, Int.le_of_lt hhi⟩
  have hrun (times : List Time) : Heeds (errorOf setpoint measurement)
      (p.timeSteps setpoint measurement times) m.integral
      (p.after (held setpoint measurement times)).integral := by
    rw [htakes.integral_held]
    exact heeds_limit hlo hhi _ _
  refine ⟨fun now => ?_, hrun⟩
  have honce := hrun [now]
  rwa [timeSteps, hm] at honce

/-- No whole number comes of the first step, none of the second, in which no
time passes, and two of the third. -/
theorem follows_persistent_drift :
    ∃ p m, p = (ofConfig { (PidConfig.ofSignals ⟨0⟩ ⟨1⟩ ⟨2⟩).withGains 0 1000 0 with
        deadband := 5, resetOnSetpointChange := true }).after [.update 0 7 0] ∧
      p.memory = some m ∧ p.config.ki ≠ 0 ∧ p.config.integralMin.toInt < m.integral ∧
      m.integral < p.config.integralMax.toInt ∧
      p.config.deadband.toNat < (errorOf 0 7).natAbs ∧ clears p.config m 0 = false ∧
      p.timeSteps 0 7 [100000, 100000, 400000] = [100000, 0, 300000] ∧
      (p.after (held 0 7 [100000, 100000, 400000])).integral = -2 ∧
      (∀ now, Heeds (errorOf 0 7) [timeStep p.config m now] m.integral
        (p.update 0 7 now).1.integral) ∧
      ∀ times, Heeds (errorOf 0 7) (p.timeSteps 0 7 times) m.integral
        (p.after (held 0 7 times)).integral :=
  ⟨_, _, rfl, rfl, by decide, by decide, by decide, by decide, rfl, by decide, by decide,
    follows_persistent_error rfl (by decide) (by decide) (by decide) (by decide) rfl⟩

/-- The integral stays at zero in a millisecond of an error that no dead band
holds back. -/
theorem error_ignored :
    ∃ c p m, c = ((PidConfig.ofSignals ⟨0⟩ ⟨1⟩ ⟨2⟩).withGains 0 1000 0).withSampleTime 1000 ∧
      c.check 0 = .ok () ∧ c.ki ≠ 0 ∧ p = (ofConfig c).after [.update 999 0 0] ∧
      p.memory = some m ∧ c.integralMin.toInt < m.integral ∧
      m.integral < c.integralMax.toInt ∧ 0 < timeStep c m 1000 ∧
      c.deadband.toNat < (errorOf 999 0).natAbs ∧ clears c m 999 = false ∧
      ¬Follows (errorOf 999 0) m.integral (p.update 999 0 1000).1.integral := by
  refine ⟨_, _, _, rfl, rfl, by decide, rfl, rfl, ?_⟩
  decide

end Pid

end SignalGuard
