import SignalGuard.Cyclic
import SignalGuard.Engine.Error
import SignalGuard.Fault.Monitor
import SignalGuard.Merge
import SignalGuard.Pid
import SignalGuard.Verified

/-!
# Engine configurations and their validation

Everything that can be wrong with a configuration is found here, before an
engine exists. `EngineConfig.check` goes through the tables in a fixed order
and reports the first problem. Within a table an entry is checked before the
table's capacity, so an invalid surplus entry is reported as invalid.
-/

namespace SignalGuard

/-- Static settings of one signal. -/
structure SignalConfig where
  id : SignalId
  stalenessThreshold : Time
  deriving BEq, DecidableEq, Repr

/-- A monitor as configured, with or without a listener. -/
structure MonitorEntry where
  config : MonitorConfig
  hasWake : Bool
  deriving BEq, DecidableEq, Repr

structure EngineConfig where
  signals : List SignalConfig
  merges : List Merge
  remaps : List Remap
  /-- Limp-home actions refer to a scale by its position. -/
  scales : List Scale
  monitors : List MonitorEntry
  pids : List PidConfig
  verified : List VerifiedConfig
  cyclic : List CyclicConfig
  deriving DecidableEq

abbrev Check := Except EngineError Unit

namespace Check

/-- Fails with the error unless the condition holds. -/
def require (condition : Bool) (e : EngineError) : Check := if condition then .ok () else .error e

theorem require_eq_ok_iff {condition : Bool} {e : EngineError} :
    require condition e = .ok () ↔ condition := by
  cases condition <;> simp [require]

end Check

open Check (require)

def SignalId.check (role : SignalRole) (id : SignalId) : Check :=
  require id.isValid (.signalOutOfRange role id)

/-- Checks a pair of bounds. -/
def checkClamp (owner : ClampOwner) (index : Nat) (lo hi : Option Int32) : Check :=
  match lo, hi with
  | some l, some h => require (l ≤ h) (.invertedClamp owner index l h)
  | _, _ => .ok ()

def SignalConfig.check (_ : Nat) (s : SignalConfig) : Check := s.id.check .signal

def Merge.check (index : Nat) (m : Merge) : Check := do
  let inputs := m.inputs.val
  require (!inputs.isEmpty) (.noMergeInputs index)
  inputs.forM (SignalId.check .mergeInput)
  m.output.check .mergeOutput
  require (!inputs.contains m.output) (.mergeFeedsItself index m.output)
  match m.majorityQuorum with
  | none => pure ()
  | some quorum =>
    require (1 ≤ quorum.toNat && quorum.toNat ≤ inputs.length)
      (.invalidQuorum index quorum inputs.length)

def Remap.check (_ : Nat) (r : Remap) : Check := do
  r.input.check .remapInput
  r.output.check .remapOutput

def Scale.check (index : Nat) (s : Scale) : Check := do
  s.input.check .scaleInput
  s.output.check .scaleOutput
  checkClamp .scale index s.clampMin s.clampMax

def MonitorConfig.check (scaleCount index : Nat) (c : MonitorConfig) : Check := do
  c.watched.check .monitorInput
  c.faultOutput.check .monitorOutput
  require (c.watched != c.faultOutput) (.faultOutputIsWatched index c.watched)
  require (!c.checkRange || c.minValue ≤ c.maxValue) (.invalidRange index c.minValue c.maxValue)
  require (!c.checkStaleness || c.staleTimeout != 0) (.zeroStaleTimeout index)
  match c.limp with
  | none => pure ()
  | some action =>
    require (action.targetScale.toNat < scaleCount) (.unknownScale index action.targetScale)
    checkClamp .limpAction index action.clampMin action.clampMax

def PidConfig.check (index : Nat) (c : PidConfig) : Check := do
  c.setpoint.check .pidSetpoint
  c.measurement.check .pidMeasurement
  c.output.check .pidOutput
  require (c.output != c.setpoint && c.output != c.measurement)
    (.outputIsInput .pids index c.output)
  checkClamp .pidOutput index (some c.outputMin) (some c.outputMax)
  checkClamp .pidIntegral index (some c.integralMin) (some c.integralMax)

def VerifiedConfig.check (index : Nat) (c : VerifiedConfig) : Check := do
  c.command.check .verifiedCommand
  c.feedback.check .verifiedFeedback
  c.output.check .verifiedOutput
  require (c.output != c.command && c.output != c.feedback)
    (.outputIsInput .verified index c.output)

def CyclicConfig.check (index : Nat) (c : CyclicConfig) : Check := do
  c.source.check .cyclicSource
  require (c.period != 0) (.zeroPeriod index)

/-- Checks the entries of a table in order, each one before the capacity. -/
def checkTable {α : Type} (table : EngineTable) (check : Nat → α → Check) (entries : List α) :
    Check :=
  entries.zipIdx.forM fun (entry, index) => do
    check index entry
    require (index < table.capacity) (.capacityExceeded table)

/-- Position of the first monitor that degrades the scale. -/
def limpOwner? (monitors : List MonitorConfig) (scale : UInt8) : Option Nat :=
  monitors.findIdx? fun c => c.limp.any (·.targetScale == scale)

/-- Two monitors must not degrade the same scale: what one saves, the other
would have changed already. -/
def checkLimpTargets (monitors : List MonitorConfig) : Check :=
  monitors.zipIdx.forM fun (c, index) =>
    match c.limp with
    | none => .ok ()
    | some action =>
      match limpOwner? (monitors.take index) action.targetScale with
      | none => .ok ()
      | some first => .error (.sharedLimpTarget first index action.targetScale)

namespace EngineConfig

def empty : EngineConfig := ⟨[], [], [], [], [], [], [], []⟩

/-- Finds the first problem of the configuration. -/
def check (c : EngineConfig) : Check := do
  checkTable .signals SignalConfig.check c.signals
  checkTable .merges Merge.check c.merges
  checkTable .remaps Remap.check c.remaps
  checkTable .scales Scale.check c.scales
  let monitors := c.monitors.map (·.config)
  checkTable .monitors (MonitorConfig.check c.scales.length) monitors
  checkLimpTargets monitors
  checkTable .pids PidConfig.check c.pids
  checkTable .verified VerifiedConfig.check c.verified
  checkTable .cyclic CyclicConfig.check c.cyclic

end EngineConfig

end SignalGuard
