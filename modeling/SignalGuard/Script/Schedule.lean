import Std.Data.TreeMap
import SignalGuard.Signal

/-!
# Replay schedules

A script is replayed in steps of one period. Step `k` runs at the end of its
period and takes the events since the end of the period before; an event at time
zero belongs to the first step. Without a number of cycles there are as many
steps as the last event needs, and one at least.
-/

namespace SignalGuard

/-- Most steps that a replay may take. -/
def maxReplaySteps : Nat := 10000000

/-- Events by the number of their step. -/
abbrev EventsByStep := Std.TreeMap Nat (List Event)

structure Schedule where
  period : Time
  steps : Nat
  /-- The events of a step stand in the order of the script. -/
  events : EventsByStep

inductive ScheduleError
  | zeroPeriod
  | tooManySteps (steps : Nat) (period : Time)
  deriving BEq, DecidableEq, Repr

def ScheduleError.message : ScheduleError → String
  | zeroPeriod => "--period-us must be greater than zero"
  | tooManySteps steps period =>
    s!"replay needs {steps} steps of {period} us, more than the limit of {maxReplaySteps}"

namespace Schedule

/-- The step that takes an event of the time. -/
def stepOf (period time : Time) : Nat := (time.toNat + period.toNat - 1) / period.toNat - 1

def group (period : Time) (events : List Event) : EventsByStep :=
  events.foldr (fun e m => m.alter (stepOf period e.timestamp) fun es => some (e :: es.getD [])) ∅

theorem getD_group {period : Time} {events : List Event} {step : Nat} :
    (group period events).getD step [] =
      events.filter fun e => stepOf period e.timestamp == step := by
  induction events with
  | nil => simp [group]
  | cons e es ih =>
    have h : group period (e :: es) = (group period es).alter (stepOf period e.timestamp)
      fun es => some (e :: es.getD []) := rfl
    rw [h, Std.TreeMap.getD_alter, List.filter_cons, ← ih]
    by_cases hs : stepOf period e.timestamp = step
    · simp [hs, Std.TreeMap.getD_eq_getD_getElem?]
    · simp [hs]

/-- Steps that the events need. -/
def stepsNeeded (period : Time) (events : List Event) : Nat :=
  events.foldl (fun n e => max n (stepOf period e.timestamp + 1)) 1

def ofEvents (events : List Event) (period : Time) (cycles : Option Time) :
    Except ScheduleError Schedule :=
  if period = 0 then .error .zeroPeriod
  else
    let steps : Nat := match cycles with
      | some n => n.toNat
      | none => stepsNeeded period events
    if maxReplaySteps < steps then .error (.tooManySteps steps period)
    else .ok ⟨period, steps, group period events⟩

/-- The time at which the step runs, at most the last time that can be told. -/
def timeOf (s : Schedule) (step : Nat) : Time := UInt64.ofNatClamp ((step + 1) * s.period.toNat)

/-- The events of the step, in the order of the script. -/
def eventsOf (s : Schedule) (step : Nat) : List Event := s.events.getD step []

/-- Time and events of the step. -/
def entry (s : Schedule) (step : Nat) : Time × List Event := (s.timeOf step, s.eventsOf step)

/-- All steps in order. -/
def entries (s : Schedule) : List (Time × List Event) := (List.range s.steps).map s.entry

end Schedule

end SignalGuard
