import SignalGuard.Engine
import SignalGuard.Script.Schedule

/-!
# Replays

A replay runs the engine through a schedule, step by step, and collects what it
emits.
-/

namespace SignalGuard

/-- What one step did. -/
structure ReplayStep where
  cycle : Nat
  now : Time
  events : List Event
  report : StepReport
  outputs : List OutputEvent
  deriving DecidableEq

namespace ReplayStep

/-- Whether events or outputs got lost. -/
def lostData (s : ReplayStep) : Bool :=
  s.report.eventsDiscarded != 0 || s.report.outputsDropped != 0

end ReplayStep

/-- An output with the time of the step that emitted it. -/
structure Emission where
  step : Time
  output : OutputEvent
  deriving BEq, DecidableEq, Repr

def ReplayStep.emissions (s : ReplayStep) : List Emission := s.outputs.map (⟨s.now, ·⟩)

namespace Engine

/-- Runs the step of the schedule with the number. -/
def replayStep (s : Schedule) (e : Engine) (cycle : Nat) : Engine × ReplayStep :=
  let (now, events) := s.entry cycle
  let e := (e.step now events).1
  (e, ⟨cycle, now, events, e.lastReport, e.outputs.toList⟩)

/-- Runs `n` steps from the one with the number on, and appends what they emit.
Before each step `await` is run, and afterwards `visit` is shown the step. -/
@[specialize] def replayFrom {m : Type → Type} [Monad m] (s : Schedule) (await : m Unit)
    (visit : ReplayStep → m Unit) (cycle : Nat) :
    Nat → Engine × Array Emission → m (Engine × Array Emission)
  | 0, done => return done
  | n + 1, (e, emitted) => do
    await
    let (e, step) := e.replayStep s cycle
    visit step
    replayFrom s await visit (cycle + 1) n (e, emitted ++ step.emissions)

/-- Runs the whole schedule and shows every step. -/
@[specialize] def replayWith {m : Type → Type} [Monad m] (s : Schedule) (await : m Unit)
    (visit : ReplayStep → m Unit) (e : Engine) : m (Engine × Array Emission) :=
  replayFrom s await visit 0 s.steps (e, #[])

/-- Runs the whole schedule. -/
def replay (s : Schedule) (e : Engine) : Engine × Array Emission :=
  Id.run (e.replayWith s (pure ()) fun _ => pure ())

end Engine

end SignalGuard
