import Mathlib.Data.List.Induction
import SignalGuard.Proofs.GlitchFree
import SignalGuard.Proofs.StrictStep

/-!
# Firings over whole runs

`Engine.firingTimes` keeps the times of the steps in which an output has fired
since the engine was built or last reset. The deadline of the output belongs to
their number alone (`Engine.cyclic_after`), whenever the steps were taken, so
late steps do not add up.

A step emits one event for every output that is due, in order, and drops none
of them (`Engine.emits_on_schedule`).
-/

namespace SignalGuard

-- ---------------------------------------------------------------------------
-- Deadlines
-- ---------------------------------------------------------------------------

theorem Time.toNat_ofNatClamp (n : Nat) :
    (UInt64.ofNatClamp n : Time).toNat = min n (UInt64.size - 1) := by
  by_cases h : n < UInt64.size
  · rw [UInt64.toNat_ofNatClamp_of_lt h]
    exact (Nat.min_eq_left (Nat.le_sub_one_of_lt h)).symm
  · rw [UInt64.toNat_ofNatClamp_of_le (Nat.le_of_not_lt h)]
    exact (Nat.min_eq_right (Nat.le_trans (Nat.sub_le _ _) (Nat.le_of_not_lt h))).symm

namespace CyclicConfig

/-- The deadline after so many firings: one period later for each of them. -/
def deadlineAfter (c : CyclicConfig) (firings : Nat) : Time :=
  UInt64.ofNatClamp (c.initialDeadline.toNat + firings * c.period.toNat)

/-- The output after so many firings. -/
def after (c : CyclicConfig) (firings : Nat) : Cyclic := ⟨c, c.deadlineAfter firings⟩

theorem toNat_deadlineAfter (c : CyclicConfig) (firings : Nat) :
    (c.deadlineAfter firings).toNat =
      min (c.initialDeadline.toNat + firings * c.period.toNat) (UInt64.size - 1) :=
  Time.toNat_ofNatClamp _

theorem after_zero (c : CyclicConfig) : c.after 0 = Cyclic.ofConfig c := by
  simp [after, Cyclic.ofConfig, deadlineAfter]

theorem advance_after (c : CyclicConfig) (firings : Nat) :
    (c.after firings).advance = c.after (firings + 1) := by
  have hdeadline : (c.after firings).advance.deadline = c.deadlineAfter (firings + 1) := by
    refine UInt64.toNat_inj.mp ?_
    rw [Cyclic.advance, Time.toNat_ofNatClamp, after, toNat_deadlineAfter, toNat_deadlineAfter,
      Nat.succ_mul]
    dsimp only
    omega
  exact congrArg (Cyclic.mk c) hdeadline

theorem next_after (c : CyclicConfig) (now : Time) (firings : Nat) :
    (c.after firings).next now =
      c.after (if (c.after firings).due now then firings + 1 else firings) := by
  unfold Cyclic.next
  split
  · exact c.advance_after firings
  · rfl

end CyclicConfig

namespace Engine

-- ---------------------------------------------------------------------------
-- One step
-- ---------------------------------------------------------------------------

/-- A step of `e` at `now` has led to `e'` and emitted what was due: one event
for every enabled output whose deadline was not after `now`, in order, each with
the value that its source has in the end. The report counts the events. -/
structure EmitsDue (e : Engine) (now : Time) (e' : Engine) : Prop where
  events : e'.outputs.toList.map some =
    (e.cyclic.filter fun o => o.config.enabled && o.deadline ≤ now).map
      (Cyclic.emission? e'.table now)
  emitted : e'.lastReport.outputsEmitted.toNat = e'.outputs.toList.length
  dropped : e'.lastReport.outputsDropped = 0

variable {c : EngineConfig} {e : Engine} {i : Nat} {config : CyclicConfig}

theorem ConfiguredBy.exists_cyclic (hc : e.ConfiguredBy c) (hi : c.cyclic[i]? = some config) :
    ∃ o, e.cyclic[i]? = some o ∧ o.config = config := by
  rw [← hc.cyclic, List.getElem?_map] at hi
  exact Option.map_eq_some_iff.mp hi

theorem ConfiguredBy.cyclic_step (hc : e.ConfiguredBy c) (hv : c.Valid) (now : Time)
    (events : List Event) : (e.step now events).1.cyclic = e.cyclic.map (Cyclic.next now) := by
  refine Cyclic.sweepFrom_next 0 (fun o ho => ?_) ?_
  · obtain ⟨source, hsource⟩ :=
      (e.step now events).1.table.exists_get? (hc.cyclic_valid hv ho).source
    exact Option.isSome_map.trans (Option.isSome_of_eq_some hsource)
  · rw [OutputBuffer.toList, OutputBuffer.empty, List.length_nil, Nat.zero_add]
    exact hc.cyclic_fit hv

theorem ConfiguredBy.emitsDue (hc : e.ConfiguredBy c) (hv : c.Valid) (now : Time)
    (events : List Event) : e.EmitsDue now (e.step now events).1 where
  events := hc.outputs_emitted hv
  emitted := by
    have hstart := (e.checked_uncounted now events).1
    obtain ⟨n, hlength, hcount⟩ :
        ∃ n, (e.step now events).1.outputs.toList.length = 0 + n ∧
          (e.step now events).1.lastReport.outputsEmitted.toNat =
            min (UInt32.size - 1) ((e.checked now events).2.2.outputsEmitted.toNat + n) :=
      Cyclic.sweepFrom_outputsEmitted 0 e.cyclic
    have hfit : (e.step now events).1.outputs.toList.length ≤ bufferCapacity :=
      (e.step now events).1.outputs.size_le
    -- no counter is full, since the buffer holds too few events
    have hsmall : bufferCapacity < UInt32.size := by decide
    rw [hcount, hstart, UInt32.toNat_zero]
    omega
  dropped := hc.outputsDropped_step hv now events

-- ---------------------------------------------------------------------------
-- Runs
-- ---------------------------------------------------------------------------

/-- A step at `now` finds the output at position `i` due. -/
def fires (e : Engine) (i : Nat) (now : Time) : Bool := e.cyclic[i]?.any (·.due now)

def noteFiring (i : Nat) (e : Engine) (fired : List Time) : Call → List Time
  | .step now _ => if e.fires i now then fired ++ [now] else fired
  | .set .. => fired
  | .reset => []

/-- The times of the steps in which the output at position `i` has fired since
the engine was built or last reset. -/
def firingTimes (e : Engine) (i : Nat) (calls : List Call) : List Time :=
  e.record (noteFiring i) [] calls

theorem firingTimes_concat (e : Engine) (i : Nat) (calls : List Call) (call : Call) :
    e.firingTimes i (calls ++ [call]) = noteFiring i (e.after calls) (e.firingTimes i calls) call :=
  record_concat ..

theorem length_noteFiring {fired : List Time} (ho : e.cyclic[i]? = some (config.after fired.length))
    (now : Time) (events : List Event) :
    (noteFiring i e fired (.step now events)).length =
      if (config.after fired.length).due now then fired.length + 1 else fired.length := by
  rw [noteFiring, fires, ho, Option.any_some]
  split
  · rw [List.length_append, List.length_singleton]
  · rfl

/-- The deadline depends on the number of firings alone. -/
theorem cyclic_after (hv : c.Valid) (hi : c.cyclic[i]? = some config) (calls : List Call) :
    (c.toEngine.after calls).cyclic[i]? =
      some (config.after (c.toEngine.firingTimes i calls).length) := by
  induction calls using List.reverseRecOn with
  | nil => simp [Engine.after, EngineConfig.toEngine, hi, firingTimes, record, config.after_zero]
  | append_singleton calls call ih =>
    have hc := configuredBy_after (configuredBy_toEngine c) calls
    rw [after_concat, firingTimes_concat]
    cases call with
    | step now events =>
      rw [answer, hc.cyclic_step hv, List.getElem?_map, ih, Option.map_some, config.next_after,
        length_noteFiring ih]
    | set id value now => exact ih
    | reset =>
      obtain ⟨o, ho, rfl⟩ := hc.exists_cyclic hi
      simp [answer, Engine.reset, ho, Cyclic.reset, noteFiring, o.config.after_zero]

end Engine

-- ---------------------------------------------------------------------------
-- Main statement
-- ---------------------------------------------------------------------------

/-- The deadline lies one period per firing after the first one, which is one
period after time zero unless another is configured. It stays at the end of time
once it would lie beyond. -/
def Cyclic.OnSchedule (o : Cyclic) (firings : Nat) : Prop :=
  o.deadline.toNat =
    min ((o.config.firstDeadline.getD o.config.period).toNat + firings * o.config.period.toNat)
      (UInt64.size - 1)

namespace Engine

variable {c : EngineConfig} {e : Engine}

/-- Every step emits exactly what is due, and no run of calls moves a deadline
off its schedule. -/
theorem emits_on_schedule (hb : c.build = .ok e) (calls : List Call) :
    (∀ now events, (e.after calls).EmitsDue now ((e.after calls).step now events).1) ∧
      (e.after calls).cyclic.map Cyclic.config = c.cyclic ∧
      ∀ (i : Nat) (o : Cyclic), (e.after calls).cyclic[i]? = some o →
        o.OnSchedule (e.firingTimes i calls).length := by
  obtain ⟨hcheck, rfl⟩ := EngineConfig.build_eq_ok_iff.mp hb
  have hv := EngineConfig.check_eq_ok_iff.mp hcheck
  have hc := configuredBy_after (configuredBy_toEngine c) calls
  refine ⟨hc.emitsDue hv, hc.cyclic, fun i o ho => ?_⟩
  have hi : c.cyclic[i]? = some o.config := by
    rw [← hc.cyclic, List.getElem?_map, ho, Option.map_some]
  have hafter : o = o.config.after (c.toEngine.firingTimes i calls).length :=
    Option.some.inj (ho.symm.trans (cyclic_after hv hi calls))
  rw [Cyclic.OnSchedule, congrArg Cyclic.deadline hafter]
  exact o.config.toNat_deadlineAfter _

end Engine

/-- One output with the default start, one that starts two microseconds before
the end of time, and one that is off. -/
def EngineConfig.beacons : EngineConfig :=
  { EngineConfig.empty with cyclic := [
      .ofSignal ⟨8⟩ 256 100000,
      ((CyclicConfig.ofSignal ⟨9⟩ 257 7).on .gpio 1).startingAt 18446744073709551613,
      { CyclicConfig.ofSignal ⟨8⟩ 258 1 with enabled := false }] }

def Engine.beacons : Engine := EngineConfig.beacons.toEngine

theorem Engine.build_beacons : EngineConfig.beacons.build = .ok beacons :=
  EngineConfig.build_eq_ok_iff.mpr ⟨rfl, rfl⟩

/-- A late step, one that goes back in time and one at the end of time. -/
def Call.erratic : List Call :=
  [.step 100000 [], .reset, .set ⟨8⟩ 42 0, .step 250000 [], .step 10 [],
    .step 18446744073709551615 []]

theorem Engine.emits_erratic :
    EngineConfig.beacons.build = .ok beacons ∧
      beacons.firingTimes 0 Call.erratic = [250000, 18446744073709551615] ∧
      (beacons.after Call.erratic).cyclic.map Cyclic.deadline =
        [300000, 18446744073709551615, 1] ∧
      ((beacons.after Call.erratic).step 300000 []).1.outputs.toList.length = 1 ∧
      (∀ now events, (beacons.after Call.erratic).EmitsDue now
        ((beacons.after Call.erratic).step now events).1) ∧
      (beacons.after Call.erratic).cyclic.map Cyclic.config = EngineConfig.beacons.cyclic ∧
      ∀ (i : Nat) (o : Cyclic), (beacons.after Call.erratic).cyclic[i]? = some o →
        o.OnSchedule (beacons.firingTimes i Call.erratic).length :=
  ⟨build_beacons, by decide +kernel, by decide +kernel, by decide +kernel,
    emits_on_schedule build_beacons Call.erratic⟩

end SignalGuard
