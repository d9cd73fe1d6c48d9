import SignalGuard.Engine.Config
import SignalGuard.Ingest
import SignalGuard.Staleness

/-!
# The engine

An engine owns the signal table, every configured stage and the outputs of the
last step. It comes from a checked configuration and cannot fail afterwards.

`Engine.step` runs one cycle: ingestion with the raw range check, staleness,
merges, fault monitors with limp-home, remaps, scales, controllers, verified
outputs, cyclic outputs. The wake calls of the cycle are returned beside the
next engine.
-/

namespace SignalGuard

structure Engine where
  table : SignalTable
  signals : List SignalConfig
  merges : List Merge
  remaps : List Remap
  /-- The scales with the overrides in effect. -/
  scales : List Scale
  monitors : List Monitor
  pids : List Pid
  verified : List Verified
  cyclic : List Cyclic
  /-- What the last step emitted. -/
  outputs : OutputBuffer
  lastReport : StepReport
  /-- Counters since the engine was built or reset. -/
  totals : StepReport
  deriving DecidableEq

/-- A zeroed table with the configured thresholds; a later entry for a signal
wins over an earlier one. -/
def SignalTable.ofConfigs (signals : List SignalConfig) : SignalTable :=
  signals.foldl (fun t c => t.modify c.id fun s =>
    { s with stalenessThreshold := c.stalenessThreshold }) .empty

namespace EngineConfig

/-- The engine of a configuration, valid or not. -/
def toEngine (c : EngineConfig) : Engine where
  table := .ofConfigs c.signals
  signals := c.signals
  merges := c.merges
  remaps := c.remaps
  scales := c.scales
  monitors := c.monitors.map fun m => .ofConfig m.config m.hasWake
  pids := c.pids.map .ofConfig
  verified := c.verified.map .ofConfig
  cyclic := c.cyclic.map .ofConfig
  outputs := .empty
  lastReport := .zero
  totals := .zero

/-- Builds an engine from a configuration without problems. -/
def build (c : EngineConfig) : Except EngineError Engine := c.check.map fun _ => c.toEngine

theorem build_eq_ok_iff {c : EngineConfig} {e : Engine} :
    c.build = .ok e ↔ c.check = .ok () ∧ e = c.toEngine := by
  unfold build
  cases h : c.check with
  | error x => simp [Except.map]
  | ok u => simp [Except.map, eq_comm]

end EngineConfig

namespace Engine

/-- Runs one cycle at time `now`. -/
def step (e : Engine) (now : Time) (events : List Event) : Engine × List Wake :=
  let ingested := ingestEvents e.monitors events ⟨e.table.clearUpdated, .zero, []⟩
  let (table, report) := applyStaleness ingested.table now ingested.report
  let (table, report) := runMerges e.merges now table report
  let (monitors, pass) := runMonitors e.monitors now ⟨table, e.scales, report, ingested.wakes⟩
  let table := runRemaps e.remaps now pass.table
  let table := runScales pass.scales now table
  let (pids, table) := runPids e.pids now table
  let (verified, table, report) := runVerified e.verified now table pass.report
  let (cyclic, outputs, report) := runCyclic e.cyclic table now .empty report
  ({ e with
      table, scales := pass.scales, monitors, pids, verified, cyclic, outputs
      lastReport := report, totals := e.totals.add report }, pass.wakes)

/-- Writes a signal directly with status `ok`; an id without a slot is
ignored. -/
def setSignal (e : Engine) (id : SignalId) (value : Int32) (now : Time) : Engine :=
  { e with table := (e.table.set? id value now).getD e.table }

/-- Goes back to the state after building; the configuration stays. -/
def reset (e : Engine) : Engine :=
  { e with
    scales := e.monitors.foldl (fun scales m => m.release scales) e.scales
    monitors := e.monitors.map Monitor.reset
    pids := e.pids.map Pid.reset
    verified := e.verified.map Verified.reset
    cyclic := e.cyclic.map Cyclic.reset
    table := .ofConfigs e.signals
    outputs := .empty
    lastReport := .zero
    totals := .zero }

def signal? (e : Engine) (id : SignalId) : Option Signal := e.table.get? id

def value? (e : Engine) (id : SignalId) : Option Int32 := (e.signal? id).map (·.value)

end Engine

end SignalGuard
