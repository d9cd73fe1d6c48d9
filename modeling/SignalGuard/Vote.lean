import SignalGuard.Signal
import SignalGuard.Vote.Median

/-!
# Redundancy voting

A vote fuses the values of redundant sources into one value with a status.
`majority` publishes the median and asks that a quorum of the values lies
within the tolerance of it. For every method, when more than one value took
part and the tolerance is positive, a spread above the tolerance makes the
outcome inconsistent.
-/

namespace SignalGuard

inductive VotingMethod
  | median
  | average
  | min
  | max
  | majority
  deriving BEq, DecidableEq, Repr, Inhabited, ReflBEq, LawfulBEq

def VotingMethod.all : List VotingMethod := [.median, .average, .min, .max, .majority]

def VotingMethod.spelling : VotingMethod → String
  | .median => "median"
  | .average => "average"
  | .min => "min"
  | .max => "max"
  | .majority => "majority"

structure VoteOutcome where
  value : Int32
  status : SignalStatus
  deriving BEq, DecidableEq, Repr

namespace Vote

/-- The sum, which may lie outside the words. -/
def total (values : List Int32) : Int := values.foldr (fun v sum => v.toInt + sum) 0

/-- Integer mean, truncated toward zero. -/
def average? (values : List Int32) : Option Int32 :=
  match values with
  | [] => none
  | _ => narrow? ((total values).tdiv values.length)

/-- Distance between the extremes; zero without values. -/
def spread (values : List Int32) : Int :=
  match values.min?, values.max? with
  | some lo, some hi => hi.toInt - lo.toInt
  | _, _ => 0

/-- Half of the voters, rounded up. -/
def defaultQuorum (voters : Nat) : Nat := (voters + 1) / 2

/-- Number of values within the tolerance of `mid`. -/
def agreeing (values : List Int32) (mid : Int32) (tolerance : UInt32) : Nat :=
  values.countP fun v => (v.toInt - mid.toInt).natAbs ≤ tolerance.toNat

/-- What the method alone says, before the spread is looked at. -/
def opinion? (values : List Int32) (method : VotingMethod) (tolerance : UInt32)
    (quorum : Option UInt8) : Option VoteOutcome :=
  match method with
  | .min => values.min?.map (⟨·, .ok⟩)
  | .max => values.max?.map (⟨·, .ok⟩)
  | .average => (average? values).map (⟨·, .ok⟩)
  | .median => (median? values).map (⟨·, .ok⟩)
  | .majority => (median? values).map fun mid =>
    let needed := (quorum.map UInt8.toNat).getD (defaultQuorum values.length)
    ⟨mid, if needed ≤ agreeing values mid tolerance then .ok else .inconsistent⟩

/-- Whether the values lie too far apart to be trusted. -/
def disagrees (values : List Int32) (tolerance : UInt32) : Bool :=
  values.length > 1 && tolerance > 0 && spread values > tolerance.toNat

end Vote

/-- Fuses the values; `none` when there is nothing to vote on. -/
def vote? (values : List Int32) (method : VotingMethod) (tolerance : UInt32)
    (quorum : Option UInt8) : Option VoteOutcome :=
  (Vote.opinion? values method tolerance quorum).map fun outcome =>
    if Vote.disagrees values tolerance then { outcome with status := .inconsistent } else outcome

end SignalGuard
