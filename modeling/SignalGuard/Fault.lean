import SignalGuard.Transform

/-!
# Fault detection and limp-home actions

A monitor watches one signal for staleness, range and status, and reports a
level on a signal of its own. A limp-home action says which scale to degrade
while the fault lasts and how; whatever it leaves open keeps the scale's own
setting.
-/

namespace SignalGuard

/-- Severity on a fault signal. -/
inductive FaultLevel
  | clear
  | warning
  | error
  | critical
  deriving BEq, DecidableEq, Repr, Inhabited, ReflBEq, LawfulBEq

namespace FaultLevel

/-- All levels in the order of their values. -/
def all : List FaultLevel := [clear, warning, error, critical]

/-- The value that stands for the level on a fault signal. -/
def value : FaultLevel → Int32
  | clear => 0
  | warning => 1
  | error => 2
  | critical => 3

def ofValue? (value : Int32) : Option FaultLevel := all.find? (·.value == value)

theorem ofValue?_value (l : FaultLevel) : ofValue? l.value = some l := by cases l <;> rfl

def spelling : FaultLevel → String
  | clear => "clear"
  | warning => "warning"
  | error => "error"
  | critical => "critical"

end FaultLevel

/-- Overrides for a scale while a fault persists. -/
structure LimpAction where
  /-- Index of the scale to degrade. -/
  targetScale : UInt8
  scaleFactor : Option Int32
  clampMin : Option Int32
  clampMax : Option Int32
  /-- How long the fault has to stay clear, in milliseconds. -/
  restoreDelay : UInt32
  deriving BEq, DecidableEq, Repr

namespace LimpAction

/-- Overrides the scale factor alone. -/
def scaleTo (targetScale : UInt8) (scaleFactor : Int32) (restoreDelay : UInt32) : LimpAction :=
  ⟨targetScale, some scaleFactor, none, none, restoreDelay⟩

/-- The parameters with the overrides applied. -/
def degrade (a : LimpAction) (p : ScaleParams) : ScaleParams where
  scaleFactor := a.scaleFactor.getD p.scaleFactor
  clampMin := a.clampMin <|> p.clampMin
  clampMax := a.clampMax <|> p.clampMax

end LimpAction

structure MonitorConfig where
  watched : SignalId
  /-- Signal that receives the level. -/
  faultOutput : SignalId
  checkStaleness : Bool
  staleTimeout : Time
  checkRange : Bool
  minValue : Int32
  maxValue : Int32
  checkStatus : Bool
  /-- Level reported while faulted. -/
  faultLevel : FaultLevel
  limp : Option LimpAction
  enabled : Bool
  deriving BEq, DecidableEq, Repr

namespace MonitorConfig

/-- An enabled monitor without checks. -/
def ofSignals (watched faultOutput : SignalId) (faultLevel : FaultLevel) : MonitorConfig where
  watched
  faultOutput
  checkStaleness := false
  staleTimeout := 0
  checkRange := false
  minValue := 0
  maxValue := 0
  checkStatus := false
  faultLevel
  limp := none
  enabled := true

def withRange (c : MonitorConfig) (minValue maxValue : Int32) : MonitorConfig :=
  { c with checkRange := true, minValue, maxValue }

def withStaleness (c : MonitorConfig) (staleTimeout : Time) : MonitorConfig :=
  { c with checkStaleness := true, staleTimeout }

def withStatusCheck (c : MonitorConfig) : MonitorConfig := { c with checkStatus := true }

def withLimp (c : MonitorConfig) (limp : LimpAction) : MonitorConfig := { c with limp := some limp }

/-- Whether the range check is on and the value fails it. -/
def outOfRange (c : MonitorConfig) (value : Int32) : Bool :=
  c.checkRange && (value < c.minValue || value > c.maxValue)

/-- Whether the staleness check is on and the signal fails it. -/
def stale (c : MonitorConfig) (s : Signal) (now : Time) : Bool :=
  c.checkStaleness && s.age now > c.staleTimeout.toNat

/-- Whether any of the checks fails. -/
def detect (c : MonitorConfig) (s : Signal) (now : Time) : Bool :=
  c.stale s now || c.outOfRange s.value || (c.checkStatus && s.status.isFault)

/-- The level that belongs to a detection result. -/
def level (c : MonitorConfig) (faulted : Bool) : FaultLevel :=
  if faulted then c.faultLevel else .clear

end MonitorConfig

end SignalGuard
