import SignalGuard.Engine

/-!
# Engine descriptions

A description is the file form of an engine configuration. It adds a schema
version, a label and signal names, and it does not bound the inputs of a merge,
so that a merge with too many is reported as such. Wake listeners cannot be
described; they are attached when the engine is built.
-/

namespace SignalGuard

/-- A signal slot with an optional name. -/
structure SignalDescription where
  id : SignalId
  /-- Usable in event scripts. -/
  name : Option String
  stalenessThreshold : Time
  deriving BEq, DecidableEq, Repr

structure MergeDescription where
  inputs : List SignalId
  output : SignalId
  method : VotingMethod
  tolerance : UInt32
  majorityQuorum : Option UInt8
  enabled : Bool
  deriving BEq, DecidableEq, Repr

namespace MergeDescription

def ofMerge (m : Merge) : MergeDescription :=
  ⟨m.inputs.val, m.output, m.method, m.tolerance, m.majorityQuorum, m.enabled⟩

/-- The merge, unless it has too many inputs. -/
def toMerge (index : Nat) (d : MergeDescription) : Except EngineError Merge :=
  if h : d.inputs.length ≤ voteCapacity then
    .ok ⟨⟨d.inputs, h⟩, d.output, d.method, d.tolerance, d.majorityQuorum, d.enabled⟩
  else .error (.tooManyMergeInputs index d.inputs.length voteCapacity)

end MergeDescription

structure EngineDescription where
  schemaVersion : UInt8
  name : Option String
  signals : List SignalDescription
  merges : List MergeDescription
  remaps : List Remap
  scales : List Scale
  monitors : List MonitorConfig
  pids : List PidConfig
  verified : List VerifiedConfig
  cyclic : List CyclicConfig
  deriving BEq, DecidableEq, Repr

/-- Entry counts of a description. -/
structure DescriptionSummary where
  signals : Nat
  merges : Nat
  remaps : Nat
  scales : Nat
  monitors : Nat
  pids : Nat
  verified : Nat
  cyclic : Nat
  /-- Monitors with a limp-home action. -/
  limpActions : Nat
  deriving BEq, DecidableEq, Repr

namespace EngineDescription

/-- The schema version that can be built. -/
def supportedSchema : UInt8 := 1

def empty : EngineDescription := ⟨supportedSchema, none, [], [], [], [], [], [], [], []⟩

def summary (d : EngineDescription) : DescriptionSummary where
  signals := d.signals.length
  merges := d.merges.length
  remaps := d.remaps.length
  scales := d.scales.length
  monitors := d.monitors.length
  pids := d.pids.length
  verified := d.verified.length
  cyclic := d.cyclic.length
  limpActions := d.monitors.countP fun m => m.limp.isSome

/-- The name of the first entry for the signal. -/
def signalName? (d : EngineDescription) (id : SignalId) : Option String :=
  (d.signals.find? fun s => s.id == id).bind (·.name)

/-- The named entries in order. -/
def namedSignals (d : EngineDescription) : List (String × SignalId) :=
  d.signals.filterMap fun s => s.name.map (·, s.id)

/-- The signal a name stands for; the last entry with the name decides. -/
def signalNamed? (d : EngineDescription) (name : String) : Option SignalId :=
  d.namedSignals.reverse.lookup name

end EngineDescription

end SignalGuard
