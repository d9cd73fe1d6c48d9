import Mathlib.Data.List.Basic
import Mathlib.Order.Bounds.Basic
import SignalGuard.Proofs.Firings
import SignalGuard.Script.Schedule

/-!
# Schedules partition their scripts

The window of a step is left open: it ends with the period of the step and
begins after the end of the one before (`Schedule.InWindow`). The step of an
event is the one whose window its time lies in, so no event belongs to two
steps. `Schedule.partitions_script`: the entries of a schedule are the windows
of its steps, each with its events in the order of the script; without a number
of cycles no event is left out and no step could be spared.
-/

namespace SignalGuard

namespace Schedule

variable {period time : Time} {events : List Event} {step steps : Nat} {cycles : Option Time}
  {s : Schedule}

-- ---------------------------------------------------------------------------
-- Windows
-- ---------------------------------------------------------------------------

/-- The step takes events of the time. Time zero belongs to the first step. -/
def InWindow (period : Time) (step : Nat) (time : Time) : Prop :=
  step * period.toNat < time.toNat ∧ time.toNat ≤ (step + 1) * period.toNat ∨
    time.toNat = 0 ∧ step = 0

instance : Decidable (InWindow period step time) := inferInstanceAs (Decidable (_ ∨ _))

/-- One of so many steps takes events of the time. -/
def Reached (period : Time) (steps : Nat) (time : Time) : Prop :=
  ∃ step < steps, InWindow period step time

instance : Decidable (Reached period steps time) := inferInstanceAs (Decidable (∃ _, _))

/-- So many steps take all events. -/
def Covers (period : Time) (events : List Event) (steps : Nat) : Prop :=
  ∀ e ∈ events, Reached period steps e.timestamp

theorem stepOf_eq_iff (hp : period ≠ 0) :
    stepOf period time = step ↔ InWindow period step time := by
  have hpos : 0 < period.toNat := Nat.pos_of_ne_zero fun h => hp (UInt64.toNat_inj.mp h)
  unfold stepOf InWindow
  by_cases ht : time.toNat = 0
  · have hdiv : (period.toNat - 1) / period.toNat = 0 := Nat.div_eq_of_lt (by omega)
    simp [ht, hdiv, eq_comm]
  · have hup : (time.toNat + period.toNat - 1) / period.toNat =
        (time.toNat - 1) / period.toNat + 1 := by
      rw [← Nat.add_div_right _ hpos]
      congr 1
      omega
    rw [hup, Nat.add_sub_cancel, Nat.div_eq_iff hpos, Nat.succ_mul]
    omega

/-- No time lies in two windows. -/
theorem InWindow.unique (hp : period ≠ 0) {step' : Nat} (h : InWindow period step time)
    (h' : InWindow period step' time) : step = step' :=
  ((stepOf_eq_iff hp).mpr h).symm.trans ((stepOf_eq_iff hp).mpr h')

theorem reached_iff (hp : period ≠ 0) : Reached period steps time ↔ stepOf period time < steps := by
  constructor
  · rintro ⟨step, hlt, hwindow⟩
    rwa [(stepOf_eq_iff hp).mpr hwindow]
  · exact fun hlt => ⟨_, hlt, (stepOf_eq_iff hp).mp rfl⟩

-- ---------------------------------------------------------------------------
-- Numbers of steps
-- ---------------------------------------------------------------------------

theorem foldl_max_le_iff {α : Type} (f : α → Nat) (as : List α) (init n : Nat) :
    as.foldl (fun m a => max m (f a + 1)) init ≤ n ↔ init ≤ n ∧ ∀ a ∈ as, f a < n := by
  induction as generalizing init with
  | nil => simp
  | cons a as ih =>
    rw [List.foldl_cons, ih, Nat.max_le, List.forall_mem_cons, and_assoc, Nat.succ_le_iff]

theorem stepsNeeded_le_iff (hp : period ≠ 0) :
    stepsNeeded period events ≤ steps ↔ 0 < steps ∧ Covers period events steps := by
  simp only [stepsNeeded, foldl_max_le_iff, Covers, reached_iff hp, Nat.succ_le_iff]

theorem stepsNeeded_isLeast (hp : period ≠ 0) :
    IsLeast {n | 0 < n ∧ Covers period events n} (stepsNeeded period events) :=
  ⟨(stepsNeeded_le_iff hp).mp (Nat.le_refl _), fun _ h => (stepsNeeded_le_iff hp).mpr h⟩

/-- How many steps are asked for: as many as are given, or else the fewest that
take all events, one at least. -/
def StepCount (period : Time) (events : List Event) : Option Time → Nat → Prop
  | some cycles, n => n = cycles.toNat
  | none, n => IsLeast {n | 0 < n ∧ Covers period events n} n

def stepsAsked (period : Time) (events : List Event) (cycles : Option Time) : Nat :=
  cycles.elim (stepsNeeded period events) UInt64.toNat

theorem stepCount_iff (hp : period ≠ 0) :
    StepCount period events cycles steps ↔ steps = stepsAsked period events cycles := by
  cases cycles with
  | some cycles => rfl
  | none => exact ⟨fun h => IsLeast.unique h (stepsNeeded_isLeast hp),
      fun h => h ▸ stepsNeeded_isLeast hp⟩

theorem ofEvents_eq (hp : period ≠ 0) :
    ofEvents events period cycles =
      if maxReplaySteps < stepsAsked period events cycles then
        .error (.tooManySteps (stepsAsked period events cycles) period)
      else .ok ⟨period, stepsAsked period events cycles, group period events⟩ := by
  cases cycles <;> exact if_neg hp

theorem exists_error_iff :
    (∃ x, ofEvents events period cycles = .error x) ↔
      period = 0 ∨ ∃ n > maxReplaySteps, StepCount period events cycles n := by
  by_cases hp : period = 0
  · exact iff_of_true ⟨.zeroPeriod, if_pos hp⟩ (.inl hp)
  · rw [ofEvents_eq hp]
    simp only [hp, false_or, stepCount_iff hp, exists_eq_right]
    split
    · next hmany => exact iff_of_true ⟨_, rfl⟩ hmany
    · next hfew => exact iff_of_false nofun hfew

-- ---------------------------------------------------------------------------
-- Entries
-- ---------------------------------------------------------------------------

theorem filter_or_perm {α : Type} {p q : α → Bool} (h : ∀ a, p a → q a = false) (as : List α) :
    (as.filter p ++ as.filter q).Perm (as.filter fun a => p a || q a) := by
  have hp : (as.filter fun a => p a || q a).filter p = as.filter p := by
    rw [List.filter_filter]
    exact List.filter_congr fun a _ => by cases p a <;> rfl
  have hq : (as.filter fun a => p a || q a).filter (!p ·) = as.filter q := by
    rw [List.filter_filter]
    refine List.filter_congr fun a _ => ?_
    cases ha : p a with
    | false => simp
    | true => simp [h a ha]
  simpa only [hp, hq] using List.filter_append_perm p (as.filter fun a => p a || q a)

/-- The windows of so many steps hold the events whose times they reach. -/
theorem windows_perm (hp : period ≠ 0) (events : List Event) (steps : Nat) :
    ((List.range steps).flatMap fun step =>
      events.filter fun e => InWindow period step e.timestamp).Perm
      (events.filter fun e => Reached period steps e.timestamp) := by
  induction steps with
  | zero => simp [Reached]
  | succ n ih =>
    have hnext : ∀ e : Event, decide (Reached period (n + 1) e.timestamp) =
        (decide (Reached period n e.timestamp) || decide (InWindow period n e.timestamp)) := by
      intro e
      simp only [← Bool.decide_or, decide_eq_decide, reached_iff hp, ← stepOf_eq_iff hp]
      exact Nat.lt_succ_iff_lt_or_eq
    have hapart : ∀ e : Event, decide (Reached period n e.timestamp) →
        decide (InWindow period n e.timestamp) = false := by
      intro e hreached
      simp only [decide_eq_true_eq, decide_eq_false_iff_not, reached_iff hp,
        ← stepOf_eq_iff hp] at hreached ⊢
      exact Nat.ne_of_lt hreached
    rw [List.range_succ, List.flatMap_append, List.flatMap_singleton]
    simp only [hnext]
    exact (ih.append_right _).trans (filter_or_perm hapart events)

/-- Time and events of the step, as its window says. -/
def window (period : Time) (events : List Event) (step : Nat) : Nat × List Event :=
  (min ((step + 1) * period.toNat) (UInt64.size - 1),
    events.filter fun e => InWindow period step e.timestamp)

/-- The schedule takes the steps that are asked for. Its entries are their
windows, and together they hold every event that is reached, and none twice. -/
structure Partitions (s : Schedule) (period : Time) (events : List Event) (cycles : Option Time) :
    Prop where
  steps : StepCount period events cycles s.steps
  entries : s.entries.map (fun entry => (entry.1.toNat, entry.2)) =
    (List.range s.steps).map (window period events)
  apart : ∀ time step step', InWindow period step time → InWindow period step' time → step = step'
  once : (s.entries.flatMap (·.2)).Perm
    (events.filter fun e => Reached period s.steps e.timestamp)
  all : cycles = none → (s.entries.flatMap (·.2)).Perm events
  timely : ∀ entry ∈ s.entries, ∀ e ∈ entry.2, e.timestamp ≤ entry.1

theorem window_timely (period : Time) (events : List Event) (step : Nat) :
    ∀ e ∈ (window period events step).2, e.timestamp.toNat ≤ (window period events step).1 := by
  intro e h
  have hwindow := of_decide_eq_true (List.mem_filter.mp h).2
  have hbound := e.timestamp.toNat_lt_size
  unfold InWindow at hwindow
  unfold window
  omega

theorem entry_eq (hp : period ≠ 0) (step : Nat) :
    ((entry ⟨period, steps, group period events⟩ step).1.toNat,
      (entry ⟨period, steps, group period events⟩ step).2) = window period events step := by
  refine Prod.ext (Time.toNat_ofNatClamp _) ?_
  refine getD_group.trans ?_
  refine List.filter_congr fun e _ => Bool.eq_iff_iff.mpr ?_
  rw [beq_iff_eq, decide_eq_true_eq, stepOf_eq_iff hp]

theorem entries_eq (steps : Nat) (events : List Event) (hp : period ≠ 0) :
    (entries ⟨period, steps, group period events⟩).map (fun entry => (entry.1.toNat, entry.2)) =
      (List.range steps).map (window period events) := by
  rw [entries, List.map_map]
  exact List.map_congr_left fun step _ => entry_eq hp step

theorem partitions_of_stepCount (hp : period ≠ 0) (hsteps : StepCount period events cycles steps) :
    Partitions ⟨period, steps, group period events⟩ period events cycles := by
  have hentries := entries_eq steps events hp
  have honce : ((entries ⟨period, steps, group period events⟩).flatMap (·.2)).Perm
      (events.filter fun e => Reached period steps e.timestamp) := by
    have hflat := congrArg (List.flatMap Prod.snd) hentries
    rw [List.flatMap_map, List.flatMap_map] at hflat
    exact hflat ▸ windows_perm hp events steps
  exact {
    steps := hsteps
    entries := hentries
    apart := fun _ _ _ => InWindow.unique hp
    once := honce
    all := by
      rintro rfl
      have hcovers : Covers period events steps := hsteps.1.2
      exact honce.trans (.of_eq (List.filter_eq_self.mpr fun e he => decide_eq_true (hcovers e he)))
    timely := by
      intro entry hentry e he
      have hmem := List.mem_map_of_mem (f := fun entry : Time × List Event =>
        (entry.1.toNat, entry.2)) hentry
      rw [hentries] at hmem
      obtain ⟨step, -, hstep⟩ := List.mem_map.mp hmem
      have htimely := window_timely period events step e
      rw [hstep] at htimely
      exact UInt64.le_iff_toNat_le.mpr (htimely he) }

theorem partitions_of_ofEvents (h : ofEvents events period cycles = .ok s) :
    s.steps ≤ maxReplaySteps ∧ s.Partitions period events cycles := by
  by_cases hp : period = 0
  · subst hp
    cases h
  · rw [ofEvents_eq hp] at h
    split at h
    · cases h
    · next hfew =>
      cases h
      exact ⟨Nat.le_of_not_lt hfew, partitions_of_stepCount hp ((stepCount_iff hp).mpr rfl)⟩

/-- A schedule is refused exactly for a period of zero or for too many steps.
Otherwise it partitions the events. -/
theorem partitions_script (events : List Event) (period : Time) (cycles : Option Time) :
    ((∃ x, ofEvents events period cycles = .error x) ↔
      period = 0 ∨ ∃ n > 10000000, StepCount period events cycles n) ∧
    ∀ s, ofEvents events period cycles = .ok s → s.Partitions period events cycles :=
  ⟨exists_error_iff, fun _ h => (partitions_of_ofEvents h).2⟩

end Schedule

/-- Events at both ends of two windows, the second of which ends after the end
of time. -/
def Event.atBounds : List Event :=
  [.ok ⟨3⟩ 1 18446744073709551615, .ok ⟨3⟩ 2 9223372036854775809, .ok ⟨4⟩ 3 0,
    .ok ⟨3⟩ 4 9223372036854775810, .ok ⟨3⟩ 2 9223372036854775809]

theorem Schedule.partitions_atBounds :
    ∃ s, ofEvents Event.atBounds 9223372036854775809 none = .ok s ∧
      s.entries.map (fun entry => (entry.1, entry.2.map (·.value))) =
        [(9223372036854775809, [2, 3, 2]), (18446744073709551615, [1, 4])] ∧
      s.Partitions 9223372036854775809 Event.atBounds none :=
  ⟨_, rfl, by decide +kernel,
    (partitions_script Event.atBounds 9223372036854775809 none).2 _ rfl⟩

end SignalGuard
