/-!
# Signals

A signal is one slot of the table: an engineering value with the status its
producer gave it, the time of the last write and a staleness threshold. Times
are microseconds in an unsigned 64-bit word. Ages are natural numbers, so a
timestamp that lies in the future has age zero.

Any byte is a signal id. Ids from `tableSize` up name no slot; every operation
on the table says what it does with them.
-/

namespace SignalGuard

/-- Monotonic time in microseconds. -/
abbrev Time := UInt64

/-- Number of signal slots. -/
def tableSize : Nat := 32

structure SignalId where
  raw : UInt8
  deriving BEq, DecidableEq, Hashable, Repr, Inhabited, ReflBEq, LawfulBEq

def SignalId.index (id : SignalId) : Nat := id.raw.toNat

/-- Whether the id names a slot of the table. -/
def SignalId.isValid (id : SignalId) : Bool := id.index < tableSize

def SignalId.toText (id : SignalId) : String := "#" ++ toString id.raw.toNat

theorem SignalId.ext_index {a b : SignalId} (h : a.index = b.index) : a = b := by
  cases a
  cases b
  exact congrArg SignalId.mk (UInt8.toNat_inj.mp h)

/-- Quality of a value. A status is data and never stops the engine: anything
but `ok` keeps the value out of votes and may trip a fault monitor. -/
inductive SignalStatus
  | ok
  | degraded
  | outOfRange
  | error
  | timeout
  | inconsistent
  deriving BEq, DecidableEq, Repr, Inhabited, ReflBEq, LawfulBEq

namespace SignalStatus

/-- All statuses in the order of their codes. -/
def all : List SignalStatus := [ok, degraded, outOfRange, error, timeout, inconsistent]

def code : SignalStatus → UInt8
  | ok => 0
  | degraded => 1
  | outOfRange => 2
  | error => 3
  | timeout => 4
  | inconsistent => 5

def ofCode? (code : UInt8) : Option SignalStatus := all[code.toNat]?

theorem ofCode?_code (s : SignalStatus) : ofCode? s.code = some s := by cases s <;> rfl

/-- The spelling in descriptions and event scripts. -/
def spelling : SignalStatus → String
  | ok => "ok"
  | degraded => "degraded"
  | outOfRange => "out_of_range"
  | error => "error"
  | timeout => "timeout"
  | inconsistent => "inconsistent"

/-- The spelling in running text. -/
def toText : SignalStatus → String
  | outOfRange => "out of range"
  | s => s.spelling

def isOk (s : SignalStatus) : Bool := s == ok

/-- Statuses that trip a monitor's status check. Stale and degraded values are
left to the staleness check and to the reader. -/
def isFault : SignalStatus → Bool
  | outOfRange | error | inconsistent => true
  | ok | degraded | timeout => false

theorem isOk_iff {s : SignalStatus} : s.isOk ↔ s = ok := by cases s <;> decide

end SignalStatus

/-- One slot of the table. -/
structure Signal where
  value : Int32
  status : SignalStatus
  /-- Time of the last write. -/
  timestamp : Time
  /-- Longest tolerated age in microseconds; zero turns the check off. -/
  stalenessThreshold : Time
  /-- Whether the slot changed in the current step. -/
  updated : Bool
  deriving BEq, DecidableEq, Repr, Inhabited

namespace Signal

/-- The untouched slot. -/
def zero : Signal := ⟨0, .ok, 0, 0, false⟩

/-- Age at `now`; zero for a timestamp in the future. -/
def age (s : Signal) (now : Time) : Nat := now.toNat - s.timestamp.toNat

end Signal

/-- An externally produced update of one signal. -/
structure Event where
  signal : SignalId
  value : Int32
  status : SignalStatus
  timestamp : Time
  deriving BEq, DecidableEq, Repr, Inhabited

/-- An update that carries the status `ok`. -/
def Event.ok (signal : SignalId) (value : Int32) (timestamp : Time) : Event :=
  ⟨signal, value, .ok, timestamp⟩

end SignalGuard
