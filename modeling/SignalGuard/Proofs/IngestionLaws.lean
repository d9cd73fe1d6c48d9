import SignalGuard.Proofs.CounterLaws
import SignalGuard.Proofs.Sampling

/-!
# What ingestion counts and calls

An event with a slot is written, and every listener with reason is called. An
event without one is counted and nothing else. So the counters and the calls of
a whole list of events have closed forms (`ingestEvents_counts`,
`ingestEvents_wakes`), in which no table occurs.
-/

namespace SignalGuard

-- ---------------------------------------------------------------------------
-- Ingestion
-- ---------------------------------------------------------------------------

namespace Ingestion

/-- The calls for the raw values of the events, one event after the other. -/
def calls (monitors : List Monitor) (events : List Event) : List Wake :=
  (events.filter (·.signal.isValid)).flatMap (rawCalls monitors)

variable {monitors : List Monitor} {s : Ingestion} {e : Event}

theorem ingest_valid (h : e.signal.isValid) :
    ingest monitors s e = {
      table := s.table.modify e.signal (·.receive e)
      wakes := s.wakes ++ rawCalls monitors e
      report := { s.report with
        eventsIngested := s.report.eventsIngested.addNat 1
        fastPathWakes := s.report.fastPathWakes.addNat (rawCalls monitors e).length } } := by
  obtain ⟨slot, hslot⟩ := s.table.exists_get? h
  rw [ingest, SignalTable.applyEvent?_eq, hslot, Option.map_some, ← Counter.succ_eq_addNat,
    ← Counter.foldl_succ]

theorem ingest_invalid (h : e.signal.isValid = false) :
    ingest monitors s e =
      { s with report := { s.report with
          eventsDiscarded := s.report.eventsDiscarded.addNat 1 } } := by
  rw [ingest, SignalTable.applyEvent?_eq, SignalTable.get?_eq_none_iff.mpr h, Option.map_none,
    ← Counter.succ_eq_addNat]

theorem calls_cons (monitors : List Monitor) (e : Event) (events : List Event) :
    calls monitors (e :: events) =
      (if e.signal.isValid then rawCalls monitors e else []) ++ calls monitors events := by
  unfold calls
  cases h : e.signal.isValid <;> simp [h]

end Ingestion

open Ingestion

theorem ingestEvents_wakes (monitors : List Monitor) (events : List Event) (s : Ingestion) :
    (ingestEvents monitors events s).wakes = s.wakes ++ calls monitors events := by
  induction events generalizing s with
  | nil => exact (List.append_nil _).symm
  | cons e events ih =>
    refine (ih _).trans ?_
    rw [calls_cons]
    cases h : e.signal.isValid with
    | true => rw [ingest_valid h, if_pos rfl, List.append_assoc]
    | false => rw [ingest_invalid h, if_neg (by simp), List.nil_append]

theorem ingestEvents_counts (monitors : List Monitor) (events : List Event) (s : Ingestion) :
    (ingestEvents monitors events s).report = { s.report with
      eventsIngested := s.report.eventsIngested.addNat (events.countP (·.signal.isValid))
      eventsDiscarded := s.report.eventsDiscarded.addNat (events.countP (!·.signal.isValid))
      fastPathWakes := s.report.fastPathWakes.addNat (calls monitors events).length } := by
  induction events generalizing s with
  | nil => simp [ingestEvents, calls]
  | cons e events ih =>
    refine (ih _).trans ?_
    rw [calls_cons]
    cases h : e.signal.isValid with
    | true =>
      simp [ingest_valid h, h, Counter.addNat_addNat, Nat.add_comm]
    | false =>
      simp [ingest_invalid h, h, Counter.addNat_addNat, Nat.add_comm]

end SignalGuard
