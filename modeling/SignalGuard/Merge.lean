import SignalGuard.Report
import SignalGuard.Signal.Table
import SignalGuard.Vote

/-!
# Merges

A merge votes on the current values of its inputs and publishes the outcome on
its output signal. Inputs whose status is not `ok`, or that name no slot, take
no part. Without a single usable input the output keeps its value and turns
into an error.
-/

namespace SignalGuard

/-- Source signals of a merge, in vote order. -/
abbrev MergeInputs := { ids : List SignalId // ids.length ≤ voteCapacity }

structure Merge where
  inputs : MergeInputs
  output : SignalId
  method : VotingMethod
  /-- Largest spread of the values that still counts as agreement; zero turns
  the check off. -/
  tolerance : UInt32
  /-- Agreeing values that a majority needs, in place of the default. -/
  majorityQuorum : Option UInt8
  enabled : Bool
  deriving DecidableEq

namespace Merge

/-- The first inputs that fit. -/
def firstInputs (ids : List SignalId) : MergeInputs :=
  ⟨ids.take voteCapacity, List.length_take_le ..⟩

/-- An enabled merge without a tolerance check; inputs beyond the capacity are
left out. -/
def ofInputs (ids : List SignalId) (output : SignalId) (method : VotingMethod) : Merge :=
  ⟨firstInputs ids, output, method, 0, none, true⟩

/-- As `ofInputs`, but too many inputs fail with their number. -/
def ofInputs? (ids : List SignalId) (output : SignalId) (method : VotingMethod) :
    Except Nat Merge :=
  if ids.length ≤ voteCapacity then .ok (ofInputs ids output method) else .error ids.length

def withTolerance (m : Merge) (tolerance : UInt32) : Merge := { m with tolerance }

def withQuorum (m : Merge) (quorum : UInt8) : Merge := { m with majorityQuorum := some quorum }

/-- The value an input brings to the vote. -/
def ballot? (t : SignalTable) (id : SignalId) : Option Int32 :=
  (t.get? id).bind fun s => if s.status.isOk then some s.value else none

def ballots (m : Merge) (t : SignalTable) : List Int32 := m.inputs.val.filterMap (ballot? t)

def outcome? (m : Merge) (t : SignalTable) : Option VoteOutcome :=
  vote? (m.ballots t) m.method m.tolerance m.majorityQuorum

/-- The output slot after the vote. -/
def publish (outcome : Option VoteOutcome) (now : Time) (out : Signal) : Signal :=
  match outcome with
  | some o => { out with value := o.value, status := o.status, timestamp := now, updated := true }
  | none =>
    if out.status = .error then out else { out with status := .error, updated := true }

/-- Runs the merge, whether or not it is enabled. -/
def run (now : Time) (m : Merge) : SignalTable × StepReport → SignalTable × StepReport
  | (t, r) =>
    match t.get? m.output with
    | none => (t, r)
    | some _ =>
      let outcome := m.outcome? t
      (t.modify m.output (publish outcome now),
        match outcome with
        | some _ => { r with mergesRun := r.mergesRun.succ }
        | none => { r with mergesWithoutInput := r.mergesWithoutInput.succ })

theorem ofInputs?_ok_iff {ids : List SignalId} {output : SignalId} {method : VotingMethod}
    {m : Merge} : ofInputs? ids output method = .ok m ↔
      ids.length ≤ voteCapacity ∧ m = ofInputs ids output method := by
  unfold ofInputs?
  split
  · next h => simp [h, eq_comm]
  · next h => simp [h]

theorem length_ballots_le (m : Merge) (t : SignalTable) : (m.ballots t).length ≤ voteCapacity :=
  Nat.le_trans (List.length_filterMap_le _ _) m.inputs.property

end Merge

/-- Runs the enabled merges in order. -/
def runMerges (merges : List Merge) (now : Time) (t : SignalTable) (r : StepReport) :
    SignalTable × StepReport :=
  (merges.filter (·.enabled)).foldl (fun acc m => m.run now acc) (t, r)

end SignalGuard
