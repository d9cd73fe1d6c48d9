import SignalGuard.Report
import SignalGuard.Signal.Table

/-!
# Staleness

A signal with a positive threshold times out once its age exceeds it. An
outage is counted where it begins: a signal that has timed out already is
marked again but not counted again.
-/

namespace SignalGuard

namespace Signal

/-- Whether the staleness check is on and the signal is too old. -/
def overdue (s : Signal) (now : Time) : Bool :=
  s.stalenessThreshold != 0 && s.age now > s.stalenessThreshold.toNat

/-- The slot after the staleness check. -/
def expire (now : Time) (s : Signal) : Signal :=
  if s.overdue now then { s with status := .timeout, updated := true } else s

/-- Whether the check is the one that times the signal out. -/
def expires (now : Time) (s : Signal) : Bool := s.overdue now && s.status != .timeout

end Signal

/-- Marks every overdue signal as timed out. -/
def applyStaleness (t : SignalTable) (now : Time) (r : StepReport) : SignalTable × StepReport :=
  (t.mapSlots (Signal.expire now),
    { r with signalsTimedOut :=
        r.signalsTimedOut.add (UInt32.ofNat (t.slots.toList.countP (Signal.expires now))) })

end SignalGuard
