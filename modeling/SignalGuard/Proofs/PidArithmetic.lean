import SignalGuard.Proofs.PidRuns
import SignalGuard.Proofs.StrictOutputs
import SignalGuard.Proofs.WordArithmetic

/-!
# A controller's arithmetic in words

`Pid.InWords.update?` is an evaluation in words: errors in 64 bits, products,
sums and terms in 128, the integral and the output back in 64 after they have
been limited. It has no result where a number does not fit or a divisor is zero.
What a controller remembers stays small (`Pid.small_of_reached`), so that
nothing of this ever happens, and the output is the clamped sum of the three
terms over the integers (`Pid.update_exact`).
-/

namespace SignalGuard

open Words

namespace Pid

variable {c : PidConfig} {p : Pid} {m : PidMemory}

-- ---------------------------------------------------------------------------
-- What a controller remembers
-- ---------------------------------------------------------------------------

/-- The integral fits a word, and the last error is a difference of two. -/
structure Small (m : PidMemory) : Prop where
  integral : Within (2 ^ 31) m.integral
  lastError : Within (2 ^ 32) m.lastError

theorem errorOf_within (setpoint measurement : Int32) :
    Within (2 ^ 32) (errorOf setpoint measurement) :=
  (Within.word setpoint).sub (Within.word measurement)

theorem limit_within (lo hi : Int32) (i : Int) : Within (2 ^ 31) (limit lo hi i) := by
  have hlo := Within.word lo
  have hhi := Within.word hi
  rw [Within] at *
  unfold limit
  omega

theorem timeStep_le (c : PidConfig) (m : PidMemory) (now : Time) :
    timeStep c m now ≤ 2 ^ 64 := by
  have hsample := c.sampleTime.toNat_lt
  have hnow := now.toNat_lt
  unfold timeStep
  split <;> omega

theorem integralTerm_eq_zero (h : c.ki = 0) (integral : Int) : integralTerm c integral = 0 := by
  simp [integralTerm, h]

theorem derivative_eq_zero (h : c.kd = 0) (change : Int) (dt : Nat) :
    derivative c change dt = 0 := by
  simp [derivative, h]

theorem integrate_within (c : PidConfig) {integral : Int} (h : Within (2 ^ 31) integral)
    (error : Int) (dt : Nat) : Within (2 ^ 31) (integrate c integral error dt) := by
  unfold integrate
  split
  · exact limit_within ..
  · exact h

theorem Small.noteSetpoint (h : Small m) (c : PidConfig) (setpoint : Int32) :
    Small (noteSetpoint c setpoint m) := by
  refine ⟨?_, by simpa using h.lastError⟩
  rw [noteSetpoint_integral]
  split
  · exact .zero
  · exact h.integral

theorem Small.advance (h : Small m) (c : PidConfig) (setpoint measurement : Int32)
    (now : Time) : Small (advance c m setpoint measurement now) :=
  ⟨integrate_within c (h.noteSetpoint c setpoint).integral .., errorOf_within ..⟩

theorem small_of_reached (hp : p.ReachedFrom c) : ∀ m ∈ p.memory, Small m := by
  refine hp.induction (P := fun p => ∀ m ∈ p.memory, Small m) nofun fun p call hp => ?_
  cases call with
  | reset => nofun
  | update setpoint measurement now =>
    rw [answer]
    cases hm : p.memory with
    | none =>
      rw [update_primes _ _ _ hm]
      rintro m ⟨⟩
      exact ⟨.zero, .zero⟩
    | some m =>
      by_cases hdt : timeStep p.config m now = 0
      · rw [update_waits _ _ _ hm hdt]
        rintro m' ⟨⟩
        exact (hp m hm).noteSetpoint ..
      · rw [update_advances _ _ _ hm hdt]
        rintro m' ⟨⟩
        exact (hp m hm).advance ..

-- ---------------------------------------------------------------------------
-- Evaluations in words
-- ---------------------------------------------------------------------------

namespace InWords

def proportional? (c : PidConfig) (error : Int) : Option Int := do
  let product ← mul? 128 c.kp.toInt error
  div? 128 product 1000

def integrate? (c : PidConfig) (integral error : Int) (dt : Nat) : Option Int :=
  if c.ki ≠ 0 ∧ error.natAbs > c.deadband.toNat then do
    let product ← mul? 128 error dt
    let increment ← div? 128 product 1000000
    let total ← add? 128 integral increment
    limit? c.integralMin c.integralMax total
  else some integral

def integralTerm? (c : PidConfig) (integral : Int) : Option Int :=
  if c.ki ≠ 0 then do
    let product ← mul? 128 c.ki.toInt integral
    div? 128 product 1000
  else some 0

def derivative? (c : PidConfig) (error lastError : Int) (dt : Nat) : Option Int :=
  if c.kd ≠ 0 then do
    let change ← sub? 128 error lastError
    let product ← mul? 128 c.kd.toInt change
    let scaled ← mul? 128 product 1000000
    let divisor ← mul? 128 dt 1000
    div? 128 scaled divisor
  else some 0

def control? (c : PidConfig) (error integral lastError : Int) (dt : Nat) : Option Int32 := do
  let proportional ← proportional? c error
  let integralTerm ← integralTerm? c integral
  let derivative ← derivative? c error lastError dt
  let first ← add? 128 proportional integralTerm
  let total ← add? 128 first derivative
  let limited ← limit? c.outputMin c.outputMax total
  narrow? limited

/-- As `Pid.update`, in words. -/
def update? (p : Pid) (setpoint measurement : Int32) (now : Time) :
    Option (Pid × Option Int32) :=
  match p.memory with
  | none => some ({ p with memory := some ⟨0, 0, setpoint, now⟩ }, none)
  | some m => do
    let m := noteSetpoint p.config setpoint m
    let error ← sub? 64 setpoint.toInt measurement.toInt
    let dt := timeStep p.config m now
    if dt = 0 then some ({ p with memory := some m }, none)
    else do
      let integral ← integrate? p.config m.integral error dt
      let output ← control? p.config error integral m.lastError dt
      some ({ p with memory := some { m with integral, lastError := error, lastTime := now } },
        some output)

variable {error lastError integral : Int} {dt : Nat}

theorem proportional?_eq_some (c : PidConfig) (he : Within (2 ^ 32) error) :
    proportional? c error = some (proportional c error) := by
  have hkp := Within.word c.kp
  have hproduct : mul? 128 c.kp.toInt error = some (c.kp.toInt * error) :=
    mul?_eq_some hkp he (by decide)
  have hterm : div? 128 (c.kp.toInt * error) 1000 = some (proportional c error) :=
    div?_eq_some (hkp.mul he) (by decide) (by decide)
  rw [proportional?, hproduct, Option.bind_eq_bind, Option.bind_some, hterm]

theorem integrate?_eq_some (hv : c.Valid) (hi : Within (2 ^ 31) integral)
    (he : Within (2 ^ 32) error) (hdt : Within (2 ^ 64) dt) :
    integrate? c integral error dt = some (integrate c integral error dt) := by
  have hproduct : mul? 128 error dt = some (error * dt) := mul?_eq_some he hdt (by decide)
  have hincrement : div? 128 (error * dt) 1000000 = some ((error * dt).tdiv 1000000) :=
    div?_eq_some (he.mul hdt) (by decide) (by decide)
  have htotal : add? 128 integral ((error * dt).tdiv 1000000) =
      some (integral + (error * dt).tdiv 1000000) :=
    add?_eq_some hi ((he.mul hdt).tdiv 1000000) (by decide)
  unfold integrate? integrate
  split
  · simp only [hproduct, hincrement, htotal, limit?_eq_some hv.integralLimits,
      Option.bind_eq_bind, Option.bind_some]
  · rfl

theorem integralTerm?_eq_some (c : PidConfig) (hi : Within (2 ^ 31) integral) :
    integralTerm? c integral = some (integralTerm c integral) := by
  have hki := Within.word c.ki
  have hproduct : mul? 128 c.ki.toInt integral = some (c.ki.toInt * integral) :=
    mul?_eq_some hki hi (by decide)
  have hterm : div? 128 (c.ki.toInt * integral) 1000 = some (integralTerm c integral) :=
    div?_eq_some (hki.mul hi) (by decide) (by decide)
  unfold integralTerm?
  split
  · rw [hproduct, Option.bind_eq_bind, Option.bind_some, hterm]
  · next hzero => rw [integralTerm_eq_zero (Decidable.not_not.mp hzero)]

theorem derivative?_eq_some (c : PidConfig) (he : Within (2 ^ 32) error)
    (hl : Within (2 ^ 32) lastError) (hdt : Within (2 ^ 64) dt) (hpos : dt ≠ 0) :
    derivative? c error lastError dt = some (derivative c (error - lastError) dt) := by
  have hkd := Within.word c.kd
  have hchange := he.sub hl
  have hscale : Within 1000000 1000000 := .natCast (Nat.le_refl _)
  have hunit : Within 1000 1000 := .natCast (Nat.le_refl _)
  have hdifference : sub? 128 error lastError = some (error - lastError) :=
    sub?_eq_some he hl (by decide)
  have hproduct : mul? 128 c.kd.toInt (error - lastError) =
      some (c.kd.toInt * (error - lastError)) := mul?_eq_some hkd hchange (by decide)
  have hscaled : mul? 128 (c.kd.toInt * (error - lastError)) 1000000 =
      some (c.kd.toInt * (error - lastError) * 1000000) :=
    mul?_eq_some (hkd.mul hchange) hscale (by decide)
  have hdivisor : mul? 128 dt 1000 = some ((dt : Int) * 1000) := mul?_eq_some hdt hunit (by decide)
  have hterm : div? 128 (c.kd.toInt * (error - lastError) * 1000000) (dt * 1000) =
      some (derivative c (error - lastError) dt) :=
    div?_eq_some ((hkd.mul hchange).mul hscale) (by omega) (by decide)
  unfold derivative?
  split
  · simp only [hdifference, hproduct, hscaled, hdivisor, hterm, Option.bind_eq_bind,
      Option.bind_some]
  · next hzero => rw [derivative_eq_zero (Decidable.not_not.mp hzero)]

theorem control?_eq_some (hv : c.Valid) (he : Within (2 ^ 32) error)
    (hi : Within (2 ^ 31) integral) (hl : Within (2 ^ 32) lastError)
    (hdt : Within (2 ^ 64) dt) (hpos : dt ≠ 0) :
    control? c error integral lastError dt =
      some (control c error integral (error - lastError) dt) := by
  have hscale : Within 1000000 1000000 := .natCast (Nat.le_refl _)
  have hp := ((Within.word c.kp).mul he).tdiv 1000
  have hterm := ((Within.word c.ki).mul hi).tdiv 1000
  have hd := (((Within.word c.kd).mul (he.sub hl)).mul hscale).tdiv (dt * 1000)
  have hfirst : add? 128 (proportional c error) (integralTerm c integral) =
      some (proportional c error + integralTerm c integral) := add?_eq_some hp hterm (by decide)
  have htotal : add? 128 (proportional c error + integralTerm c integral)
        (derivative c (error - lastError) dt) =
      some (proportional c error + integralTerm c integral +
        derivative c (error - lastError) dt) := add?_eq_some (hp.add hterm) hd (by decide)
  have hlimited := Pid.control?_eq_some hv error integral (error - lastError) dt
  simp only [control?, proportional?_eq_some c he, integralTerm?_eq_some c hi,
    derivative?_eq_some c he hl hdt hpos, hfirst, htotal, Option.bind_eq_bind, Option.bind_some]
  exact hlimited

theorem update?_eq_some (hv : p.config.Valid) (hm : ∀ m ∈ p.memory, Small m)
    (setpoint measurement : Int32) (now : Time) :
    update? p setpoint measurement now = some (p.update setpoint measurement now) := by
  unfold update? update
  cases hmemory : p.memory with
  | none => rfl
  | some m =>
    have hsmall := (hm m hmemory).noteSetpoint p.config setpoint
    have he := errorOf_within setpoint measurement
    have hdifference : sub? 64 setpoint.toInt measurement.toInt =
        some (errorOf setpoint measurement) :=
      sub?_eq_some (Within.word setpoint) (Within.word measurement) (by decide)
    have hdt : Within (2 ^ 64) (timeStep p.config (noteSetpoint p.config setpoint m) now) :=
      .natCast (timeStep_le ..)
    simp only [hdifference, Option.bind_eq_bind, Option.bind_some]
    split
    · rfl
    · next hpos =>
      rw [integrate?_eq_some hv hsmall.integral he hdt, Option.bind_some,
        control?_eq_some hv he (integrate_within _ hsmall.integral ..) hsmall.lastError hdt hpos,
        Option.bind_some]

end InWords

-- ---------------------------------------------------------------------------
-- The formula
-- ---------------------------------------------------------------------------

/-- The clamped sum of the terms over the integers. A gain of zero has no term. -/
def formula (c : PidConfig) (error lastError integral : Int) (dt : Nat) : Int :=
  let proportional := (c.kp.toInt * error).tdiv 1000
  let integralTerm := if c.ki = 0 then 0 else (c.ki.toInt * integral).tdiv 1000
  let derivative := if c.kd = 0 then 0
    else (c.kd.toInt * (error - lastError) * 10 ^ 6).tdiv (dt * 1000)
  max c.outputMin.toInt (min (proportional + integralTerm + derivative) c.outputMax.toInt)

theorem formula_bounds (hv : c.Valid) (error lastError integral : Int) (dt : Nat) :
    c.outputMin.toInt ≤ formula c error lastError integral dt ∧
      formula c error lastError integral dt ≤ c.outputMax.toInt := by
  have hlimits := Int32.le_iff_toInt_le.mp hv.outputLimits
  exact ⟨Int.le_max_left .., Int.max_le.mpr ⟨hlimits, Int.min_le_right ..⟩⟩

theorem toInt_control (hv : c.Valid) (error lastError integral : Int) (dt : Nat) :
    (control c error integral (error - lastError) dt).toInt =
      formula c error lastError integral dt := by
  have hterm : integralTerm c integral =
      if c.ki = 0 then 0 else (c.ki.toInt * integral).tdiv 1000 := by
    split
    · next hzero => exact integralTerm_eq_zero hzero _
    · rfl
  have hderivative : derivative c (error - lastError) dt = if c.kd = 0 then 0
      else (c.kd.toInt * (error - lastError) * 10 ^ 6).tdiv (dt * 1000) := by
    split
    · next hzero => exact derivative_eq_zero hzero _ _
    · rfl
  have hsum : formula c error lastError integral dt = limit c.outputMin c.outputMax
      (proportional c error + integralTerm c integral + derivative c (error - lastError) dt) := by
    have hproportional : proportional c error = (c.kp.toInt * error).tdiv 1000 := rfl
    have hlimits := Int32.le_iff_toInt_le.mp hv.outputLimits
    rw [formula, ← hterm, ← hderivative, ← hproportional, limit]
    omega
  obtain ⟨hlo, hhi⟩ := formula_bounds hv error lastError integral dt
  obtain ⟨w, hw⟩ := Option.isSome_iff_exists.mp (isSome_narrow? hlo hhi)
  rw [narrow?_eq_some_iff] at hw
  rw [control, ← hsum, hw, Int32.ofIntClamp_toInt]

/-- The arithmetic of a reachable controller fits its words, and what it gives
out is the formula's value for the error, the error of the evaluation before and
the integral that it has brought up to date. -/
theorem update_exact {index : Nat} (hc : c.check index = .ok ()) (hp : p.ReachedFrom c)
    (setpoint measurement : Int32) (now : Time) :
    InWords.update? p setpoint measurement now = some (p.update setpoint measurement now) ∧
      ∀ output ∈ (p.update setpoint measurement now).2,
        ∃ m m', p.memory = some m ∧ (p.update setpoint measurement now).1.memory = some m' ∧
          m'.lastError = setpoint.toInt - measurement.toInt ∧ m'.lastTime = now ∧
          output.toInt = formula c (setpoint.toInt - measurement.toInt) m.lastError m'.integral
            (timeStep c m now) ∧
          c.outputMin ≤ output ∧ output ≤ c.outputMax := by
  have hv := (PidConfig.check_eq_ok_iff index c).mp hc
  have hconfig := hp.config_eq
  subst hconfig
  refine ⟨InWords.update?_eq_some hv (small_of_reached hp) setpoint measurement now, ?_⟩
  intro output houtput
  cases hm : p.memory with
  | none =>
    rw [update_primes _ _ _ hm] at houtput
    cases houtput
  | some m =>
    by_cases hdt : timeStep p.config m now = 0
    · rw [update_waits _ _ _ hm hdt] at houtput
      cases houtput
    · rw [update_advances _ _ _ hm hdt] at houtput ⊢
      cases houtput
      have hformula := toInt_control hv (errorOf setpoint measurement) m.lastError
        (advance p.config m setpoint measurement now).integral (timeStep p.config m now)
      have hbounds := formula_bounds hv (errorOf setpoint measurement) m.lastError
        (advance p.config m setpoint measurement now).integral (timeStep p.config m now)
      rw [← hformula] at hbounds
      exact ⟨m, _, rfl, rfl, rfl, rfl, hformula, Int32.le_iff_toInt_le.mpr hbounds.1,
        Int32.le_iff_toInt_le.mpr hbounds.2⟩

/-- Every gain is the least one, and time leaps while the error swings from one
end of its range to the other. -/
theorem update_exact_swing :
    ∃ c p, c = (PidConfig.ofSignals ⟨0⟩ ⟨1⟩ ⟨2⟩).withGains .minValue .minValue .minValue ∧
      c.check 0 = .ok () ∧ p.ReachedFrom c ∧
      InWords.update? p .maxValue .minValue 0xffffffffffffffff =
        some (p.update .maxValue .minValue 0xffffffffffffffff) ∧
      ∃ m m' output, p.memory = some m ∧ m.lastError = -0xffffffff ∧
        (p.update .maxValue .minValue 0xffffffffffffffff).1.memory = some m' ∧
        (p.update .maxValue .minValue 0xffffffffffffffff).2 = some output ∧
        output.toInt = formula c 0xffffffff m.lastError m'.integral
          (timeStep c m 0xffffffffffffffff) := by
  have hc : ((PidConfig.ofSignals ⟨0⟩ ⟨1⟩ ⟨2⟩).withGains .minValue .minValue .minValue).check 0 =
      .ok () := rfl
  refine ⟨_, _, rfl, hc, ⟨[.reset, .update 0 0 5, .update .minValue .maxValue 6], rfl⟩, ?_⟩
  obtain ⟨hwords, hformula⟩ := update_exact hc
    ⟨[.reset, .update 0 0 5, .update .minValue .maxValue 6], rfl⟩ .maxValue .minValue
    0xffffffffffffffff
  refine ⟨hwords, ?_⟩
  obtain ⟨m, m', hm, hm', -, -, houtput, -⟩ := hformula .minValue (by decide +kernel)
  cases hm
  exact ⟨_, m', .minValue, rfl, by decide +kernel, hm', by decide +kernel, houtput⟩

end Pid

end SignalGuard
