import SignalGuard.Fault.Monitor

/-!
# Ingestion

Events are written into the table in order. Before an event is written, every
enabled monitor that watches its signal compares the raw value with its range
and wakes its listener at once on a violation, so that a dangerous sample is
seen even when a later event of the same step overwrites it. An event for an
id without a slot is dropped and counted.
-/

namespace SignalGuard

/-- What ingestion changes. -/
structure Ingestion where
  table : SignalTable
  report : StepReport
  /-- Calls so far, the latest one last. -/
  wakes : List Wake
  deriving DecidableEq

namespace Ingestion

/-- The calls a monitor's listener receives for a raw value. -/
def rawCall (e : Event) (m : Monitor) (index : Nat) : List Wake :=
  m.call index (m.config.enabled && m.config.watched == e.signal && m.config.outOfRange e.value)
    e.value m.config.faultLevel

/-- The calls for one event, in monitor order. -/
def rawCalls (monitors : List Monitor) (e : Event) : List Wake :=
  monitors.zipIdx.flatMap fun (m, index) => rawCall e m index

def ingest (monitors : List Monitor) (s : Ingestion) (e : Event) : Ingestion :=
  match s.table.applyEvent? e with
  | none => { s with report := { s.report with eventsDiscarded := s.report.eventsDiscarded.succ } }
  | some table =>
    let calls := rawCalls monitors e
    { table
      wakes := s.wakes ++ calls
      report := { s.report with
        eventsIngested := s.report.eventsIngested.succ
        fastPathWakes := calls.foldl (fun n _ => n.succ) s.report.fastPathWakes } }

end Ingestion

/-- Copies the events into the table, in order. -/
def ingestEvents (monitors : List Monitor) (events : List Event) (s : Ingestion) : Ingestion :=
  events.foldl (Ingestion.ingest monitors) s

end SignalGuard
