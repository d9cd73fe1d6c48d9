import SignalGuard.Proofs.PidRuns
import SignalGuard.Proofs.Validity

/-!
# Limits of the integral

The integral of a controller starts from zero, and a change of the setpoint may
put it back there. Neither looks at the limits of the integral, which apply
whenever an evaluation adds to it. So the integral keeps to limits that admit
zero, and to other limits once it has been added to
(`Pid.admits_iff_integrated`). Until then it lies outside of them
(`Pid.integral_unlimited`).
-/

namespace SignalGuard

/-- The limits that the configuration sets the integral admit the value. -/
def PidConfig.Admits (c : PidConfig) (integral : Int) : Prop :=
  c.integralMin.toInt ≤ integral ∧ integral ≤ c.integralMax.toInt

instance (c : PidConfig) (integral : Int) : Decidable (c.Admits integral) :=
  inferInstanceAs (Decidable (_ ∧ _))

namespace Pid

variable {c : PidConfig} {p : Pid} {m : PidMemory} {setpoint measurement : Int32} {now : Time}

-- ---------------------------------------------------------------------------
-- One evaluation
-- ---------------------------------------------------------------------------

/-- Whether an evaluation adds to the integral. -/
def integrates (c : PidConfig) (m : PidMemory) (setpoint measurement : Int32) (now : Time) : Bool :=
  c.ki ≠ 0 && (errorOf setpoint measurement).natAbs > c.deadband.toNat && timeStep c m now ≠ 0

theorem limit_admitted (h : c.integralMin.toInt ≤ c.integralMax.toInt) (i : Int) :
    c.Admits (limit c.integralMin c.integralMax i) := by
  unfold PidConfig.Admits limit
  omega

theorem admits_advance (hv : c.Valid) (h : integrates c m setpoint measurement now) :
    c.Admits (advance c m setpoint measurement now).integral := by
  simp only [integrates, Bool.and_eq_true, decide_eq_true_eq] at h
  rw [advance, integrate, if_pos h.1]
  exact limit_admitted (Int32.le_iff_toInt_le.mp hv.integralLimits) _

theorem advance_integral_of_not_integrates (hdt : timeStep c m now ≠ 0)
    (h : integrates c m setpoint measurement now = false) :
    (advance c m setpoint measurement now).integral = (noteSetpoint c setpoint m).integral := by
  rw [advance, integrate, if_neg]
  rintro ⟨hki, herror⟩
  simp [integrates, hki, herror, hdt] at h

-- ---------------------------------------------------------------------------
-- Runs
-- ---------------------------------------------------------------------------

def noteIntegration (p : Pid) (integrated : Bool) : PidCall → Bool
  | .reset => false
  | .update setpoint measurement now => p.memory.any fun m =>
    integrates p.config m setpoint measurement now || (integrated && !clears p.config m setpoint)

/-- Whether the integral was added to since it was last zero by decree: because
the controller was primed or the setpoint has changed. -/
def integrated (c : PidConfig) (calls : List PidCall) : Bool :=
  (ofConfig c).record noteIntegration false calls

/-- The integral is zero until it is added to, and admitted from then on. -/
structure Accounted (c : PidConfig) (p : Pid) (integrated : Bool) : Prop where
  config_eq : p.config = c
  integral : ∀ m ∈ p.memory, if integrated then c.Admits m.integral else m.integral = 0

/-- A look at the setpoint may put the integral to zero and otherwise leaves it
alone. -/
theorem Accounted.noteSetpoint {integrated : Bool} (h : Accounted c p integrated)
    (hm : p.memory = some m) (setpoint : Int32) :
    if integrated && !clears c m setpoint then c.Admits (noteSetpoint c setpoint m).integral
    else (noteSetpoint c setpoint m).integral = 0 := by
  rw [noteSetpoint_integral]
  cases clears c m setpoint with
  | true => simp
  | false => simpa using h.integral m hm

theorem Accounted.answer (hv : c.Valid) {integrated : Bool} (h : Accounted c p integrated)
    (call : PidCall) : Accounted c (p.answer call) (noteIntegration p integrated call) := by
  obtain rfl := h.config_eq
  cases call with
  | reset => exact ⟨rfl, nofun⟩
  | update setpoint measurement now =>
    refine ⟨p.update_config setpoint measurement now, ?_⟩
    rw [Pid.answer, noteIntegration]
    cases hm : p.memory with
    | none =>
      rw [update_primes _ _ _ hm]
      rintro m ⟨⟩
      rfl
    | some m =>
      have hnoted := h.noteSetpoint hm setpoint
      by_cases hdt : timeStep p.config m now = 0
      · have hidle : integrates p.config m setpoint measurement now = false := by
          simp [integrates, hdt]
        rw [update_waits _ _ _ hm hdt]
        rintro m' ⟨⟩
        simpa [hidle] using hnoted
      · rw [update_advances _ _ _ hm hdt]
        rintro m' ⟨⟩
        cases hadds : integrates p.config m setpoint measurement now with
        | true => simpa [hadds] using admits_advance hv hadds
        | false =>
          rw [advance_integral_of_not_integrates hdt hadds]
          simpa [hadds] using hnoted

/-- The integral of a primed controller lies within its limits exactly if they
admit zero or it was added to, and is zero as long as it was not. -/
theorem admits_iff_integrated {index : Nat} (hc : c.check index = .ok ()) (calls : List PidCall)
    (hprimed : ((ofConfig c).after calls).memory.isSome) :
    (c.Admits ((ofConfig c).after calls).integral ↔ c.Admits 0 ∨ integrated c calls) ∧
      (integrated c calls = false → ((ofConfig c).after calls).integral = 0) := by
  have hv := (PidConfig.check_eq_ok_iff index c).mp hc
  have haccounted : Accounted c ((ofConfig c).after calls) (integrated c calls) :=
    record_induction ⟨rfl, nofun⟩ (fun _ _ call h => h.answer hv call) calls
  obtain ⟨m, hm⟩ := Option.isSome_iff_exists.mp hprimed
  have hintegral := haccounted.integral m hm
  rw [Pid.integral, hm, Option.map_some, Option.getD_some]
  cases hadded : integrated c calls with
  | true => simpa [hadded] using hintegral
  | false =>
    simp only [hadded, Bool.false_eq_true, if_false] at hintegral
    simp [hintegral]

end Pid

/-- Zero is outside of the limits of the integral. -/
def PidConfig.biased : PidConfig :=
  { ((ofSignals ⟨0⟩ ⟨1⟩ ⟨2⟩).withGains 0 1000 0).withIntegralLimits 10 100 with
    sampleTime := 1000000, deadband := 5, resetOnSetpointChange := true }

namespace Pid

/-- The integral is wound up to its limit, put to zero by a new setpoint with an
error in the dead band, and then brought to the other limit. -/
theorem admits_iff_rewound :
    PidConfig.biased.check 0 = .ok () ∧
      ∃ first second, first = [.update 50 0 0, .update 50 0 1, .update 50 0 2, .update 60 57 3] ∧
        second = first ++ [.update 60 53 4] ∧
        ((ofConfig .biased).after first).memory.isSome ∧
        ((ofConfig .biased).after first).integral = 0 ∧
        ((ofConfig .biased).after second).memory.isSome ∧
        ((ofConfig .biased).after second).integral = 10 ∧
        (PidConfig.biased.Admits ((ofConfig .biased).after first).integral ↔
          PidConfig.biased.Admits 0 ∨ integrated .biased first) ∧
        (PidConfig.biased.Admits ((ofConfig .biased).after second).integral ↔
          PidConfig.biased.Admits 0 ∨ integrated .biased second) := by
  have hc : PidConfig.biased.check 0 = .ok () := rfl
  exact ⟨hc, _, _, rfl, rfl, rfl, by decide, rfl, by decide,
    (admits_iff_integrated hc _ rfl).1, (admits_iff_integrated hc _ rfl).1⟩

/-- Primed and evaluated, the controller has an integral below its limits. -/
theorem integral_unlimited :
    PidConfig.biased.check 0 = .ok () ∧
      ∃ p, p = (ofConfig .biased).after [.update 3 0 0, .update 3 0 1000000] ∧
        p.memory.isSome ∧ ¬PidConfig.biased.Admits p.integral :=
  ⟨rfl, _, rfl, rfl, by decide⟩

end Pid

end SignalGuard
