import SignalGuard.Signal.Table

/-!
# Linear transforms

A remap applies a dead zone and an inversion, a scale multiplies, adds an
offset and clamps. Both read one signal and write another. A source that is
`ok` gives its transformed value; any other source hands on its status and
leaves the old value in place.

A scale's factor and clamps are its `ScaleParams`. They are what a limp-home
action overrides, so they can be read and replaced as a whole.
-/

namespace SignalGuard

/-- Writes `f` of the source's value to the output, or else the source's
status. Nothing happens when either id has no slot. -/
def SignalTable.relay (t : SignalTable) (input output : SignalId) (now : Time)
    (f : Int32 → Int32) : SignalTable :=
  match t.get? input with
  | none => t
  | some source => t.modify output fun out =>
    if source.status.isOk then
      { out with value := f source.value, status := .ok, timestamp := now, updated := true }
    else { out with status := source.status, timestamp := now, updated := true }

structure Remap where
  input : SignalId
  output : SignalId
  /-- Negate the value. -/
  invert : Bool
  /-- Values of at most this magnitude become zero; zero turns it off. -/
  deadzone : UInt32
  enabled : Bool
  deriving BEq, DecidableEq, Repr

namespace Remap

/-- A remap that passes values through. -/
def ofSignals (input output : SignalId) : Remap := ⟨input, output, false, 0, true⟩

/-- The negation of the least word is the greatest one. -/
def apply (r : Remap) (value : Int32) : Int32 :=
  if r.deadzone > 0 ∧ value.toInt.natAbs ≤ r.deadzone.toNat then 0
  else if r.invert then Int32.ofIntClamp (-value.toInt)
  else value

def run (now : Time) (t : SignalTable) (r : Remap) : SignalTable :=
  t.relay r.input r.output now r.apply

end Remap

/-- Runs the enabled remaps in order. -/
def runRemaps (remaps : List Remap) (now : Time) (t : SignalTable) : SignalTable :=
  (remaps.filter (·.enabled)).foldl (Remap.run now) t

/-- What a limp-home action may override in a scale. -/
structure ScaleParams where
  /-- Multiplier in thousandths. -/
  scaleFactor : Int32
  clampMin : Option Int32
  clampMax : Option Int32
  deriving BEq, DecidableEq, Repr, Inhabited

structure Scale where
  input : SignalId
  output : SignalId
  /-- Multiplier in thousandths. -/
  scaleFactor : Int32
  /-- Added after scaling. -/
  offset : Int32
  clampMin : Option Int32
  clampMax : Option Int32
  enabled : Bool
  deriving BEq, DecidableEq, Repr

namespace Scale

/-- A scale by one, without offset or clamps. -/
def ofSignals (input output : SignalId) : Scale := ⟨input, output, 1000, 0, none, none, true⟩

def withFactor (s : Scale) (scaleFactor : Int32) : Scale := { s with scaleFactor }

def withOffset (s : Scale) (offset : Int32) : Scale := { s with offset }

def withClamp (s : Scale) (clampMin clampMax : Option Int32) : Scale :=
  { s with clampMin, clampMax }

def params (s : Scale) : ScaleParams := ⟨s.scaleFactor, s.clampMin, s.clampMax⟩

def setParams (s : Scale) (p : ScaleParams) : Scale :=
  { s with scaleFactor := p.scaleFactor, clampMin := p.clampMin, clampMax := p.clampMax }

/-- Raises a value to the lower clamp, then lowers it to the upper one. -/
def clamp (lo hi : Option Int32) (value : Int32) : Int32 :=
  let raised := match lo with
    | some l => max value l
    | none => value
  match hi with
  | some h => min raised h
  | none => raised

/-- The scaled value over the unbounded integers. The product is divided
toward zero before the offset is added. -/
def exact (s : Scale) (value : Int32) : Int :=
  (value.toInt * s.scaleFactor.toInt).tdiv 1000 + s.offset.toInt

def apply (s : Scale) (value : Int32) : Int32 :=
  clamp s.clampMin s.clampMax (Int32.ofIntClamp (s.exact value))

def run (now : Time) (t : SignalTable) (s : Scale) : SignalTable :=
  t.relay s.input s.output now s.apply

@[simp] theorem params_setParams (s : Scale) (p : ScaleParams) : (s.setParams p).params = p := rfl

@[simp] theorem setParams_params (s : Scale) : s.setParams s.params = s := rfl

@[simp] theorem setParams_setParams (s : Scale) (p q : ScaleParams) :
    (s.setParams p).setParams q = s.setParams q := rfl

end Scale

/-- Runs the enabled scales in order. -/
def runScales (scales : List Scale) (now : Time) (t : SignalTable) : SignalTable :=
  (scales.filter (·.enabled)).foldl (Scale.run now) t

end SignalGuard
