import SignalGuard.Description
import SignalGuard.Description.Error

/-!
# From a description to an engine

`EngineDescription.config` turns a description into an engine configuration. It
checks what a configuration no longer shows: the schema version, the signals
and their names, and the number of merge inputs. `EngineDescription.build` then
builds the engine. Settings that are legal but doubtful give warnings.
-/

namespace SignalGuard

/-- A table whose entries can be doubtful. -/
inductive WarningSubject
  | merge
  | monitor
  | pid
  deriving BEq, DecidableEq, Repr

def WarningSubject.name : WarningSubject → String
  | merge => "merge"
  | monitor => "monitor"
  | pid => "pid"

/-- Why an entry is doubtful. -/
inductive Doubt
  | singleInput
  | exactMajority
  | noChecks
  | noGains
  deriving BEq, DecidableEq, Repr

namespace Doubt

def subject : Doubt → WarningSubject
  | singleInput | exactMajority => .merge
  | noChecks => .monitor
  | noGains => .pid

def message : Doubt → String
  | singleInput => "merge has a single input and provides no redundancy"
  | exactMajority => "majority merge with zero tolerance requires exact agreement"
  | noChecks => "fault monitor has no checks enabled"
  | noGains => "pid controller has all gains at zero"

end Doubt

/-- A doubtful entry, by its position in its table. -/
structure Warning where
  doubt : Doubt
  index : Nat
  deriving BEq, DecidableEq, Repr

/-- The doubts of a list, given only where they hold. -/
def Doubt.holding (doubts : List (Bool × Doubt)) : List Doubt :=
  doubts.filterMap fun (holds, d) => if holds then some d else none

def MergeDescription.doubts (m : MergeDescription) : List Doubt := Doubt.holding [
  (m.inputs.length == 1, .singleInput),
  (m.method == .majority && m.tolerance == 0, .exactMajority)]

def MonitorConfig.doubts (c : MonitorConfig) : List Doubt := Doubt.holding [
  (!(c.checkRange || c.checkStaleness || c.checkStatus), .noChecks)]

def PidConfig.doubts (c : PidConfig) : List Doubt := Doubt.holding [
  (c.kp == 0 && c.ki == 0 && c.kd == 0, .noGains)]

/-- The warnings for a table. -/
def Warning.ofTable {α : Type} (doubts : α → List Doubt) (entries : List α) : List Warning :=
  entries.zipIdx.flatMap fun (entry, index) => (doubts entry).map (⟨·, index⟩)

namespace EngineDescription

def warnings (d : EngineDescription) : List Warning :=
  Warning.ofTable MergeDescription.doubts d.merges ++
    Warning.ofTable MonitorConfig.doubts d.monitors ++ Warning.ofTable PidConfig.doubts d.pids

/-- Checks that ids and names are not used twice. At each signal the id comes
first. -/
def checkSignals (ids : List SignalId) (names : List String) :
    List SignalDescription → Except DescriptionError Unit
  | [] => .ok ()
  | s :: rest =>
    if ids.contains s.id then .error (.duplicateSignal s.id)
    else match s.name with
      | none => checkSignals (s.id :: ids) names rest
      | some name =>
        if names.contains name then .error (.duplicateSignalName name)
        else checkSignals (s.id :: ids) (name :: names) rest

/-- The merges from position `index` on. -/
def toMerges (index : Nat) : List MergeDescription → Except EngineError (List Merge)
  | [] => .ok []
  | m :: rest => do return (← m.toMerge index) :: (← toMerges (index + 1) rest)

/-- The engine configuration, where `hasWake` says which monitors have a
listener. Engine invariants are not checked yet. -/
def config (d : EngineDescription) (hasWake : Nat → MonitorConfig → Bool) :
    Except DescriptionError EngineConfig := do
  if d.schemaVersion ≠ supportedSchema then
    throw (.unsupportedSchema d.schemaVersion supportedSchema)
  checkSignals [] [] d.signals
  let merges ← (toMerges 0 d.merges).mapError .engine
  return {
    signals := d.signals.map fun s => ⟨s.id, s.stalenessThreshold⟩
    merges, remaps := d.remaps, scales := d.scales
    monitors := d.monitors.zipIdx.map fun (c, index) => ⟨c, hasWake index c⟩
    pids := d.pids, verified := d.verified, cyclic := d.cyclic }

/-- Builds the engine. -/
def build (d : EngineDescription) (hasWake : Nat → MonitorConfig → Bool) :
    Except DescriptionError Engine := do
  (← d.config hasWake).build.mapError .engine

/-- Nobody listens to a monitor. -/
def silent : Nat → MonitorConfig → Bool := fun _ _ => false

/-- Finds the first problem of the description. -/
def validate (d : EngineDescription) : Except DescriptionError Unit :=
  (d.build silent).map fun _ => ()

end EngineDescription

end SignalGuard
