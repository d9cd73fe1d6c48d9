import SignalGuard.Report
import SignalGuard.Signal.Table
import SignalGuard.Stage

/-!
# Cyclic outputs

Every cyclic output has an absolute deadline that moves by exactly one period
per firing, so late steps never add up to a drift. An output fires at most
once per step. When the buffer is full the firing is dropped and its deadline
stays, so that the next step tries again.
-/

namespace SignalGuard

/-- Number of output events one step can hold. -/
def bufferCapacity : Nat := 64

/-- Transport of an output event. -/
inductive OutputKind
  | can
  | j1939
  | canOpen
  | gpio
  | uart
  | spi
  | i2c
  | pwm
  | dac
  | modbus
  deriving BEq, DecidableEq, Repr, Inhabited, ReflBEq, LawfulBEq

namespace OutputKind

def all : List OutputKind := [can, j1939, canOpen, gpio, uart, spi, i2c, pwm, dac, modbus]

/-- The spelling in descriptions. -/
def spelling : OutputKind → String
  | can => "can"
  | j1939 => "j1939"
  | canOpen => "can_open"
  | gpio => "gpio"
  | uart => "uart"
  | spi => "spi"
  | i2c => "i2c"
  | pwm => "pwm"
  | dac => "dac"
  | modbus => "modbus"

/-- The spelling in running text. -/
def toText : OutputKind → String
  | canOpen => "canopen"
  | k => k.spelling

end OutputKind

/-- One emitted value, ready for a driver. -/
structure OutputEvent where
  kind : OutputKind
  /-- Address in the protocol of the transport. -/
  targetId : UInt32
  /-- Which instance of the transport. -/
  deviceIndex : UInt8
  value : Int32
  flags : UInt32
  timestamp : Time
  deriving BEq, DecidableEq, Repr

/-- The output events of one step. -/
structure OutputBuffer where
  events : Array OutputEvent
  size_le : events.size ≤ bufferCapacity
  deriving DecidableEq, Repr

namespace OutputBuffer

def empty : OutputBuffer := ⟨#[], Nat.zero_le _⟩

/-- Appends an event; `none` when the buffer is full. -/
def push? (b : OutputBuffer) (e : OutputEvent) : Option OutputBuffer :=
  if h : b.events.size < bufferCapacity then
    some ⟨b.events.push e, by rw [Array.size_push]; exact h⟩
  else none

def toList (b : OutputBuffer) : List OutputEvent := b.events.toList

theorem toList_push? {b c : OutputBuffer} {e : OutputEvent} (h : b.push? e = some c) :
    c.toList = b.toList ++ [e] := by
  unfold push? at h
  split at h
  · cases h
    simp [toList]
  · cases h

theorem push?_eq_none_iff {b : OutputBuffer} {e : OutputEvent} :
    b.push? e = none ↔ b.events.size = bufferCapacity := by
  have := b.size_le
  unfold push?
  split <;> simp <;> omega

end OutputBuffer

structure CyclicConfig where
  source : SignalId
  kind : OutputKind
  targetId : UInt32
  deviceIndex : UInt8
  period : Time
  /-- First deadline, in place of one period after time zero. -/
  firstDeadline : Option Time
  flags : UInt32
  enabled : Bool
  deriving BEq, DecidableEq, Repr

namespace CyclicConfig

/-- An enabled output to the first CAN device. -/
def ofSignal (source : SignalId) (targetId : UInt32) (period : Time) : CyclicConfig :=
  ⟨source, .can, targetId, 0, period, none, 0, true⟩

def on (c : CyclicConfig) (kind : OutputKind) (deviceIndex : UInt8) : CyclicConfig :=
  { c with kind, deviceIndex }

def startingAt (c : CyclicConfig) (firstDeadline : Time) : CyclicConfig :=
  { c with firstDeadline := some firstDeadline }

def initialDeadline (c : CyclicConfig) : Time := c.firstDeadline.getD c.period

/-- The event for a value of the source. -/
def event (c : CyclicConfig) (value : Int32) (now : Time) : OutputEvent where
  kind := c.kind
  targetId := c.targetId
  deviceIndex := c.deviceIndex
  value
  flags := c.flags
  timestamp := now

end CyclicConfig

/-- A configured cyclic output with its next deadline. -/
structure Cyclic where
  config : CyclicConfig
  deadline : Time
  deriving BEq, DecidableEq, Repr

namespace Cyclic

def ofConfig (config : CyclicConfig) : Cyclic := ⟨config, config.initialDeadline⟩

def reset (c : Cyclic) : Cyclic := ofConfig c.config

def due (c : Cyclic) (now : Time) : Bool := c.config.enabled && c.deadline ≤ now

/-- One period later; a deadline past the end of time stays at the end. -/
def advance (c : Cyclic) : Cyclic :=
  { c with deadline := UInt64.ofNatClamp (c.deadline.toNat + c.config.period.toNat) }

def visit (t : SignalTable) (now : Time) (_ : Nat) (c : Cyclic) :
    OutputBuffer × StepReport → Cyclic × OutputBuffer × StepReport
  | (buffer, r) =>
    if c.due now then
      match t.get? c.config.source with
      | none => (c, buffer, r)
      | some source =>
        match buffer.push? (c.config.event source.value now) with
        | some buffer' => (c.advance, buffer', { r with outputsEmitted := r.outputsEmitted.succ })
        | none => (c, buffer, { r with outputsDropped := r.outputsDropped.succ })
    else (c, buffer, r)

end Cyclic

/-- Fires the due outputs in order. -/
def runCyclic (outputs : List Cyclic) (t : SignalTable) (now : Time) (buffer : OutputBuffer)
    (r : StepReport) : List Cyclic × OutputBuffer × StepReport :=
  sweep (Cyclic.visit t now) outputs (buffer, r)

end SignalGuard
