import SignalGuard.Signal

/-!
# Configuration errors

Only the construction of an engine can fail. An error names its cause by
constructor; the wording is in `EngineError.message` alone.
-/

namespace SignalGuard

/-- The tables of an engine. -/
inductive EngineTable
  | signals
  | merges
  | remaps
  | scales
  | monitors
  | pids
  | verified
  | cyclic
  deriving BEq, DecidableEq, Repr

namespace EngineTable

/-- What one entry is called. -/
def entry : EngineTable → String
  | signals => "signal"
  | merges => "merge"
  | remaps => "remap"
  | scales => "scale"
  | monitors => "fault monitor"
  | pids => "pid"
  | verified => "verified output"
  | cyclic => "cyclic output"

/-- Number of entries that fit. -/
def capacity : EngineTable → Nat
  | signals => tableSize
  | merges | monitors | pids => 8
  | remaps | scales | verified | cyclic => 16

end EngineTable

/-- Places of a configuration that refer to a signal. -/
inductive SignalRole
  | signal
  | mergeInput
  | mergeOutput
  | remapInput
  | remapOutput
  | scaleInput
  | scaleOutput
  | monitorInput
  | monitorOutput
  | pidSetpoint
  | pidMeasurement
  | pidOutput
  | verifiedCommand
  | verifiedFeedback
  | verifiedOutput
  | cyclicSource
  deriving BEq, DecidableEq, Repr

def SignalRole.toText : SignalRole → String
  | signal => "signal"
  | mergeInput => "merge input"
  | mergeOutput => "merge output"
  | remapInput => "remap input"
  | remapOutput => "remap output"
  | scaleInput => "scale input"
  | scaleOutput => "scale output"
  | monitorInput => "fault monitor input"
  | monitorOutput => "fault monitor output"
  | pidSetpoint => "pid setpoint"
  | pidMeasurement => "pid measurement"
  | pidOutput => "pid output"
  | verifiedCommand => "verified output command"
  | verifiedFeedback => "verified output feedback"
  | verifiedOutput => "verified output"
  | cyclicSource => "cyclic output source"

/-- Places of a configuration that hold a pair of bounds. -/
inductive ClampOwner
  | scale
  | limpAction
  | pidOutput
  | pidIntegral
  deriving BEq, DecidableEq, Repr

def ClampOwner.toText : ClampOwner → String
  | scale => "scale"
  | limpAction => "limp action"
  | pidOutput => "pid output"
  | pidIntegral => "pid integral"

/-- Why a configuration is refused. Indices are positions in the table that
the message names. -/
inductive EngineError
  | signalOutOfRange (role : SignalRole) (id : SignalId)
  | capacityExceeded (table : EngineTable)
  | noMergeInputs (merge : Nat)
  | tooManyMergeInputs (merge count max : Nat)
  | mergeFeedsItself (merge : Nat) (signal : SignalId)
  | invalidQuorum (merge : Nat) (quorum : UInt8) (inputs : Nat)
  | faultOutputIsWatched (monitor : Nat) (signal : SignalId)
  | invalidRange (monitor : Nat) (min max : Int32)
  | zeroStaleTimeout (monitor : Nat)
  | unknownScale (monitor : Nat) (scale : UInt8)
  | sharedLimpTarget (first second : Nat) (scale : UInt8)
  | invertedClamp (owner : ClampOwner) (index : Nat) (min max : Int32)
  /-- A controller or verified output writes one of its own inputs. -/
  | outputIsInput (table : EngineTable) (index : Nat) (signal : SignalId)
  | zeroPeriod (output : Nat)
  deriving BEq, DecidableEq, Repr

def EngineError.message : EngineError → String
  | signalOutOfRange role id =>
    s!"{role.toText} references signal {id.index}, table holds {tableSize} signals"
  | capacityExceeded table => s!"too many {table.entry} entries (capacity {table.capacity})"
  | noMergeInputs merge => s!"merge {merge} has no inputs"
  | tooManyMergeInputs merge count max =>
    s!"merge {merge} has {count} inputs, at most {max} are supported"
  | mergeFeedsItself merge signal =>
    s!"merge {merge} writes signal {signal.index}, which is also one of its inputs"
  | invalidQuorum merge quorum inputs =>
    s!"merge {merge} majority quorum {quorum.toNat} must be between 1 and {inputs}"
  | faultOutputIsWatched monitor signal =>
    s!"fault monitor {monitor} uses signal {signal.index} as both input and fault output"
  | invalidRange monitor min max =>
    s!"fault monitor {monitor} range [{min.toInt}, {max.toInt}] is empty"
  | zeroStaleTimeout monitor => s!"fault monitor {monitor} checks staleness with a zero timeout"
  | unknownScale monitor scale =>
    s!"fault monitor {monitor} limp action targets unknown scale {scale.toNat}"
  | sharedLimpTarget first second scale =>
    s!"fault monitors {first} and {second} both target limp scale {scale.toNat}"
  | invertedClamp owner index min max =>
    s!"{owner.toText} {index} clamp [{min.toInt}, {max.toInt}] is inverted"
  | outputIsInput table index signal =>
    s!"{table.entry} {index} writes signal {signal.index}, which is also one of its inputs"
  | zeroPeriod output => s!"cyclic output {output} has a zero period"

end SignalGuard
