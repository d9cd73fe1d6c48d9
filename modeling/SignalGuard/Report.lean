/-!
# Step reports

The step never logs and never fails. What is worth flagging is counted here
and left to the host. Every counter stops at the largest 32-bit word instead of
wrapping around.
-/

namespace SignalGuard

abbrev Counter := UInt32

namespace Counter

/-- The sum, stopped at the largest counter. -/
def add (a b : Counter) : Counter := UInt32.ofNatClamp (a.toNat + b.toNat)

def succ (c : Counter) : Counter := add c 1

/-- One more where the condition holds. -/
def succIf (condition : Bool) (c : Counter) : Counter := if condition then succ c else c

theorem toNat_add (a b : Counter) :
    (add a b).toNat = min (UInt32.size - 1) (a.toNat + b.toNat) := by
  unfold add
  by_cases h : a.toNat + b.toNat < UInt32.size
  · rw [UInt32.toNat_ofNatClamp_of_lt h]
    simp only [UInt32.size] at h ⊢
    omega
  · rw [UInt32.toNat_ofNatClamp_of_le (Nat.le_of_not_lt h)]
    simp only [UInt32.size] at h ⊢
    omega

theorem toNat_succ (c : Counter) : (succ c).toNat = min (UInt32.size - 1) (c.toNat + 1) :=
  toNat_add c 1

end Counter

/-- Counters of one step, or of many steps added up. -/
structure StepReport where
  eventsIngested : Counter
  /-- Events for ids without a slot. -/
  eventsDiscarded : Counter
  /-- Wakes for raw values, fired while events came in. -/
  fastPathWakes : Counter
  /-- Wakes for faults that were raised or cleared. -/
  monitorWakes : Counter
  /-- Signals that became overdue. -/
  signalsTimedOut : Counter
  /-- Merges that had something to vote on. -/
  mergesRun : Counter
  mergesWithoutInput : Counter
  monitorsFaulted : Counter
  limpEntries : Counter
  limpExits : Counter
  outputsEmitted : Counter
  /-- Firings that found the output buffer full. -/
  outputsDropped : Counter
  verificationsFailed : Counter
  deriving BEq, DecidableEq, Repr, Inhabited

namespace StepReport

def zero : StepReport := ⟨0, 0, 0, 0, 0, 0, 0, 0, 0, 0, 0, 0, 0⟩

/-- Adds two reports counter by counter. -/
def add (a b : StepReport) : StepReport where
  eventsIngested := a.eventsIngested.add b.eventsIngested
  eventsDiscarded := a.eventsDiscarded.add b.eventsDiscarded
  fastPathWakes := a.fastPathWakes.add b.fastPathWakes
  monitorWakes := a.monitorWakes.add b.monitorWakes
  signalsTimedOut := a.signalsTimedOut.add b.signalsTimedOut
  mergesRun := a.mergesRun.add b.mergesRun
  mergesWithoutInput := a.mergesWithoutInput.add b.mergesWithoutInput
  monitorsFaulted := a.monitorsFaulted.add b.monitorsFaulted
  limpEntries := a.limpEntries.add b.limpEntries
  limpExits := a.limpExits.add b.limpExits
  outputsEmitted := a.outputsEmitted.add b.outputsEmitted
  outputsDropped := a.outputsDropped.add b.outputsDropped
  verificationsFailed := a.verificationsFailed.add b.verificationsFailed

/-- Whether the host should be warned. -/
def hasAnomalies (r : StepReport) : Bool :=
  r.eventsDiscarded > 0 || r.outputsDropped > 0 || r.mergesWithoutInput > 0 ||
    r.monitorsFaulted > 0 || r.verificationsFailed > 0

/-- The counters under the names they are reported by, in declaration order. -/
def counters (r : StepReport) : List (String × Counter) :=
  [("events_ingested", r.eventsIngested), ("events_discarded", r.eventsDiscarded),
   ("fast_path_wakes", r.fastPathWakes), ("monitor_wakes", r.monitorWakes),
   ("signals_timed_out", r.signalsTimedOut), ("merges_run", r.mergesRun),
   ("merges_without_input", r.mergesWithoutInput), ("monitors_faulted", r.monitorsFaulted),
   ("limp_entries", r.limpEntries), ("limp_exits", r.limpExits),
   ("outputs_emitted", r.outputsEmitted), ("outputs_dropped", r.outputsDropped),
   ("verifications_failed", r.verificationsFailed)]

/-- The report with counters looked up by name. -/
def ofCounters (count : String → Counter) : StepReport where
  eventsIngested := count "events_ingested"
  eventsDiscarded := count "events_discarded"
  fastPathWakes := count "fast_path_wakes"
  monitorWakes := count "monitor_wakes"
  signalsTimedOut := count "signals_timed_out"
  mergesRun := count "merges_run"
  mergesWithoutInput := count "merges_without_input"
  monitorsFaulted := count "monitors_faulted"
  limpEntries := count "limp_entries"
  limpExits := count "limp_exits"
  outputsEmitted := count "outputs_emitted"
  outputsDropped := count "outputs_dropped"
  verificationsFailed := count "verifications_failed"

end StepReport

end SignalGuard
