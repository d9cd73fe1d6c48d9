import SignalGuard.Proofs.Phases

/-!
# What a signal brings into a step

Before the stages run, a step lays its events over the table and marks what is
overdue. A slot sees of this only the events addressed to it
(`get?_ingestEvents`), of these the last one decides what it holds
(`Signal.receiveAll_concat`), and the staleness check may replace the status.
A signal that no enabled stage writes leaves the step as it came out of the
check (`Engine.ConfiguredBy.get?_step_of_ne`).
-/

namespace SignalGuard

def Event.addressed (id : SignalId) (events : List Event) : List Event :=
  events.filter (·.signal = id)

-- ---------------------------------------------------------------------------
-- One slot
-- ---------------------------------------------------------------------------

namespace Signal

/-- The slot after an event for its signal. -/
def receive (s : Signal) (e : Event) : Signal :=
  { s with
    value := e.value, status := e.status, timestamp := e.timestamp
    updated := s.value != e.value }

def receiveAll (s : Signal) (events : List Event) : Signal := events.foldl receive s

variable {s : Signal}

@[simp] theorem receiveAll_nil (s : Signal) : s.receiveAll [] = s := rfl

@[simp] theorem receiveAll_cons (s : Signal) (e : Event) (events : List Event) :
    s.receiveAll (e :: events) = (s.receive e).receiveAll events := rfl

theorem receiveAll_concat (s : Signal) (events : List Event) (e : Event) :
    s.receiveAll (events ++ [e]) = (s.receiveAll events).receive e := by
  simp [receiveAll]

@[simp] theorem expire_value (now : Time) (s : Signal) : (s.expire now).value = s.value := by
  unfold expire
  split <;> rfl

@[simp] theorem expire_timestamp (now : Time) (s : Signal) :
    (s.expire now).timestamp = s.timestamp := by
  unfold expire
  split <;> rfl

@[simp] theorem expire_stalenessThreshold (now : Time) (s : Signal) :
    (s.expire now).stalenessThreshold = s.stalenessThreshold := by
  unfold expire
  split <;> rfl

theorem expire_status (now : Time) (s : Signal) :
    (s.expire now).status = if s.overdue now then .timeout else s.status := by
  unfold expire
  split <;> rfl

end Signal

-- ---------------------------------------------------------------------------
-- Ingestion
-- ---------------------------------------------------------------------------

theorem SignalTable.applyEvent?_eq (t : SignalTable) (e : Event) :
    t.applyEvent? e = (t.get? e.signal).map fun _ => t.modify e.signal (·.receive e) := rfl

theorem Ingestion.get?_ingest (monitors : List Monitor) (s : Ingestion) (e : Event)
    (id : SignalId) :
    (ingest monitors s e).table.get? id =
      if e.signal = id then (s.table.get? id).map (·.receive e) else s.table.get? id := by
  unfold ingest
  rw [SignalTable.applyEvent?_eq]
  cases h : s.table.get? e.signal with
  | none =>
    simp only [Option.map_none]
    split
    · next heq => rw [← heq, h, Option.map_none]
    · rfl
  | some slot =>
    simp only [Option.map_some]
    exact s.table.get?_modify ..

theorem get?_ingestEvents (monitors : List Monitor) (events : List Event) (s : Ingestion)
    (id : SignalId) :
    (ingestEvents monitors events s).table.get? id =
      (s.table.get? id).map (·.receiveAll (Event.addressed id events)) := by
  induction events generalizing s with
  | nil => exact Option.map_id'.symm
  | cons e events ih =>
    refine (ih _).trans ?_
    rw [Ingestion.get?_ingest]
    by_cases he : e.signal = id
    · simp [Event.addressed, he, Function.comp_def]
    · simp [Event.addressed, he]

-- ---------------------------------------------------------------------------
-- Engines
-- ---------------------------------------------------------------------------

namespace Engine

variable {c : EngineConfig} {e : Engine} {id : SignalId}

theorem get?_ingested (e : Engine) (events : List Event) (id : SignalId) :
    (e.ingested events).table.get? id =
      (e.table.get? id).map fun s => s.clean.receiveAll (Event.addressed id events) := by
  have hclean : e.table.clearUpdated.get? id = (e.table.get? id).map Signal.clean :=
    e.table.get?_mapSlots ..
  rw [ingested, get?_ingestEvents, hclean, Option.map_map]
  rfl

theorem get?_sampled_ingested (e : Engine) (now : Time) (events : List Event) (id : SignalId) :
    (e.sampled now events).1.get? id =
      ((e.ingested events).table.get? id).map (Signal.expire now) :=
  (e.ingested events).table.get?_mapSlots ..

theorem ConfiguredBy.get?_step_of_ne (hc : e.ConfiguredBy c)
    (hfree : ∀ w ∈ c.wires, w.output ≠ id) (now : Time) (events : List Event) :
    (e.step now events).1.table.get? id = (e.sampled now events).1.get? id := by
  rw [step_table]
  refine Update.get?_runAll_of_ne fun u hu => hfree u.toWire ?_
  rw [← hc.wires (hc.step now events).scales now]
  exact List.mem_map_of_mem hu

end Engine

end SignalGuard
