import Mathlib.Algebra.Order.BigOperators.Group.List
import Mathlib.Algebra.Order.Ring.Nat
import SignalGuard.Proofs.Balance
import SignalGuard.Proofs.Partition
import SignalGuard.Replay

/-!
# What a replay emits and counts

A replay is a run of steps (`Schedule.calls`), whatever is done between them:
its result does not depend on the monad that it runs in
(`Engine.replayWith_eq`). What it collects are the outputs of the steps in
order, each under the time that the output carries itself. The totals count
these outputs and the scheduled events exactly, since no schedule is long
enough for a counter to stop (`Engine.Agrees`).
-/

namespace SignalGuard

variable {c : EngineConfig} {e : Engine} {s : Schedule}

/-- The calls of the first steps. -/
def Schedule.calls (s : Schedule) (steps : Nat) : List Call :=
  (List.range steps).map fun step => .step (s.timeOf step) (s.eventsOf step)

theorem Schedule.calls_succ (s : Schedule) (n : Nat) :
    s.calls (n + 1) = s.calls n ++ [.step (s.timeOf n) (s.eventsOf n)] := by
  simp [calls, List.range_succ]

namespace Engine

-- ---------------------------------------------------------------------------
-- Runs of a replay
-- ---------------------------------------------------------------------------

/-- What the step of the schedule does in a replay. -/
def shown (s : Schedule) (e : Engine) (step : Nat) : ReplayStep :=
  ((e.after (s.calls step)).replayStep s step).2

/-- What the first steps emit. -/
def emissions (s : Schedule) (e : Engine) (steps : Nat) : List Emission :=
  (List.range steps).flatMap fun step => (e.shown s step).emissions

theorem after_calls_succ (s : Schedule) (e : Engine) (n : Nat) :
    e.after (s.calls (n + 1)) = ((e.after (s.calls n)).step (s.timeOf n) (s.eventsOf n)).1 := by
  rw [s.calls_succ, after_concat, answer]

theorem replayStep_eq (s : Schedule) (e : Engine) (n : Nat) :
    (e.after (s.calls n)).replayStep s n = (e.after (s.calls (n + 1)), e.shown s n) :=
  Prod.ext (e.after_calls_succ s n).symm rfl

theorem replayFrom_eq {m : Type → Type} [Monad m] [LawfulMonad m] (s : Schedule) (await : m Unit)
    (visit : ReplayStep → m Unit) (e : Engine) (cycle n : Nat) (emitted : Array Emission) :
    replayFrom s await visit cycle n (e.after (s.calls cycle), emitted) =
      (List.range' cycle n).forM (fun step => await >>= fun _ => visit (e.shown s step)) >>= fun _ =>
        pure (e.after (s.calls (cycle + n)),
          emitted ++ ((List.range' cycle n).flatMap fun step =>
            (e.shown s step).emissions).toArray) := by
  induction n generalizing cycle emitted with
  | zero => simp [replayFrom]
  | succ n ih =>
    have hsum : cycle + 1 + n = cycle + (n + 1) := by omega
    have happend : ∀ first rest : List Emission,
        emitted ++ first ++ rest.toArray = emitted ++ (first ++ rest).toArray :=
      fun first rest => Array.toList_inj.mp (by simp)
    simp [replayFrom, replayStep_eq, ih, List.range'_succ, hsum, happend]

theorem replay_eq (s : Schedule) (e : Engine) :
    e.replay s = (e.after (s.calls s.steps), (e.emissions s s.steps).toArray) := by
  have hrun := replayFrom_eq (m := Id) s (pure ()) (fun _ => pure ()) e 0 s.steps #[]
  rw [Nat.zero_add, Array.empty_append, ← List.range_eq_range'] at hrun
  exact hrun

/-- A replay shows its steps one after the other, and its result is the same in
every monad. -/
theorem replayWith_eq {m : Type → Type} [Monad m] [LawfulMonad m] (s : Schedule) (await : m Unit)
    (visit : ReplayStep → m Unit) (e : Engine) :
    e.replayWith s await visit =
      (List.range s.steps).forM (fun step => await >>= fun _ => visit (e.shown s step)) >>= fun _ =>
        pure (e.replay s) := by
  have hrun := replayFrom_eq s await visit e 0 s.steps #[]
  rw [Nat.zero_add, Array.empty_append, ← List.range_eq_range'] at hrun
  rw [replay_eq]
  exact hrun

-- ---------------------------------------------------------------------------
-- Emissions
-- ---------------------------------------------------------------------------

theorem emissions_shown (s : Schedule) (e : Engine) (n : Nat) :
    (e.shown s n).emissions =
      (e.after (s.calls (n + 1))).outputs.toList.map (⟨s.timeOf n, ·⟩) := by
  rw [after_calls_succ]
  rfl

/-- Every output carries the time of its step. -/
theorem ConfiguredBy.timestamp_of_mem (hc : e.ConfiguredBy c) (hv : c.Valid) {now : Time}
    {events : List Event} {o : OutputEvent} (ho : o ∈ (e.step now events).1.outputs.toList) :
    o.timestamp = now := by
  have hmem := List.mem_map_of_mem (f := some) ho
  rw [(hc.emitsDue hv now events).events] at hmem
  obtain ⟨cyclic, -, hemission⟩ := List.mem_map.mp hmem
  obtain ⟨source, -, rfl⟩ := Option.map_eq_some_iff.mp hemission
  rfl

theorem stamped_of_mem (hv : c.Valid) {n : Nat} {x : Emission}
    (hx : x ∈ c.toEngine.emissions s n) : x.step = x.output.timestamp := by
  obtain ⟨step, -, hstep⟩ := List.mem_flatMap.mp hx
  rw [emissions_shown, after_calls_succ] at hstep
  obtain ⟨o, ho, rfl⟩ := List.mem_map.mp hstep
  have hc := configuredBy_after (configuredBy_toEngine c) (s.calls step)
  exact (hc.timestamp_of_mem hv ho).symm

theorem timeOf_mono {n n' : Nat} (h : n ≤ n') : s.timeOf n ≤ s.timeOf n' := by
  have hmul : (n + 1) * s.period.toNat ≤ (n' + 1) * s.period.toNat :=
    Nat.mul_le_mul_right _ (Nat.succ_le_succ h)
  rw [UInt64.le_iff_toNat_le, Schedule.timeOf, Schedule.timeOf, Time.toNat_ofNatClamp,
    Time.toNat_ofNatClamp]
  omega

theorem emissions_ordered (s : Schedule) (e : Engine) (n : Nat) :
    (e.emissions s n).Pairwise (·.step ≤ ·.step) := by
  have htime : ∀ {step x}, x ∈ (e.shown s step).emissions → x.step = s.timeOf step := by
    intro step x hx
    rw [emissions_shown] at hx
    obtain ⟨o, -, rfl⟩ := List.mem_map.mp hx
    rfl
  refine List.pairwise_flatMap.mpr ⟨fun step _ => ?_, ?_⟩
  · exact List.Pairwise.imp_of_mem (R := fun _ _ => True)
      (fun hx hy _ => by rw [htime hx, htime hy]; exact UInt64.le_refl _)
      (List.pairwise_of_forall fun _ _ => trivial)
  · refine List.pairwise_le_range.imp fun hle x hx y hy => ?_
    rw [htime hx, htime hy]
    exact timeOf_mono hle

-- ---------------------------------------------------------------------------
-- Totals
-- ---------------------------------------------------------------------------

theorem reports_calls (s : Schedule) (e : Engine) (n : Nat) :
    e.reports (s.calls n) = (List.range n).map fun step => (e.shown s step).report := by
  induction n with
  | zero => rfl
  | succ n ih =>
    rw [s.calls_succ, reports_concat, ih, List.range_succ, List.map_append]
    rfl

theorem sum_reports_calls (s : Schedule) (e : Engine) (n : Nat) (name : String) :
    StepReport.sum (e.reports (s.calls n)) name =
      ((List.range n).map fun step => (e.shown s step).report.count name).sum := by
  rw [reports_calls, StepReport.sum, List.map_map]
  rfl

/-- A total that a counter can hold is exact. -/
theorem totals_calls {n k : Nat} (name : String)
    (hsum : StepReport.sum (c.toEngine.reports (s.calls n)) name = k) (hfit : k < UInt32.size) :
    (c.toEngine.after (s.calls n)).totals.count name = k := by
  rw [totals_after, hsum]
  exact Nat.min_eq_right (Nat.le_sub_one_of_lt hfit)

theorem sum_outputsEmitted (hv : c.Valid) (s : Schedule) (n : Nat) :
    StepReport.sum (c.toEngine.reports (s.calls n)) "outputs_emitted" =
      (c.toEngine.emissions s n).length := by
  rw [sum_reports_calls, emissions, List.length_flatMap]
  refine congrArg List.sum (List.map_congr_left fun step _ => ?_)
  have hc := configuredBy_after (configuredBy_toEngine c) (s.calls step)
  rw [emissions_shown, after_calls_succ, List.length_map]
  exact (hc.emitsDue hv _ _).emitted

theorem sum_outputsDropped (hv : c.Valid) (s : Schedule) (n : Nat) :
    StepReport.sum (c.toEngine.reports (s.calls n)) "outputs_dropped" = 0 := by
  rw [sum_reports_calls]
  refine List.sum_eq_zero fun count hcount => ?_
  obtain ⟨step, -, rfl⟩ := List.mem_map.mp hcount
  have hc := configuredBy_after (configuredBy_toEngine c) (s.calls step)
  exact congrArg UInt32.toNat (hc.emitsDue hv (s.timeOf step) (s.eventsOf step)).dropped

theorem sum_events (s : Schedule) (e : Engine) {n : Nat}
    (hfit : ((List.range n).flatMap s.eventsOf).length < UInt32.size) :
    StepReport.sum (e.reports (s.calls n)) "events_ingested" +
        StepReport.sum (e.reports (s.calls n)) "events_discarded" =
      ((List.range n).flatMap s.eventsOf).length := by
  rw [sum_reports_calls, sum_reports_calls, ← List.sum_map_add, List.length_flatMap]
  refine congrArg List.sum (List.map_congr_left fun step hstep => ?_)
  have hsub : (s.eventsOf step).Sublist ((List.range n).flatMap s.eventsOf) :=
    List.sublist_flatten_of_mem (List.mem_map_of_mem hstep)
  exact eventsCounted_step _ (s.timeOf step) (Nat.lt_of_le_of_lt hsub.length_le hfit)

/-- No schedule is long enough for the counter of outputs to stop. -/
theorem length_emissions_lt (s : Schedule) (e : Engine) {n : Nat} (hn : n ≤ maxReplaySteps) :
    (e.emissions s n).length < UInt32.size := by
  have hstep : ∀ k ∈ (List.range n).map fun step => (e.shown s step).emissions.length,
      k ≤ bufferCapacity := by
    intro k hk
    obtain ⟨step, -, rfl⟩ := List.mem_map.mp hk
    rw [emissions_shown, List.length_map]
    exact (e.after (s.calls (step + 1))).outputs.size_le
  have hsum := List.sum_le_card_nsmul _ _ hstep
  rw [List.length_map, List.length_range, nsmul_eq_mul, Nat.cast_id] at hsum
  have hmul : n * bufferCapacity ≤ maxReplaySteps * bufferCapacity := Nat.mul_le_mul_right _ hn
  rw [emissions, List.length_flatMap]
  exact Nat.lt_of_le_of_lt (Nat.le_trans hsum hmul) (by decide)

-- ---------------------------------------------------------------------------
-- Main statement
-- ---------------------------------------------------------------------------

/-- What a replay of the events ends with tells what has happened on the way:
its outputs are those of the steps, and its totals count them and the events
that the steps were given. -/
structure Agrees (e : Engine) (s : Schedule) (events : List Event) (cycles : Option Time) :
    Prop where
  emitted : (e.replay s).2.toList = (List.range s.steps).flatMap fun step =>
    (e.after (s.calls (step + 1))).outputs.toList.map (⟨s.timeOf step, ·⟩)
  ordered : (e.replay s).2.toList.Pairwise (·.step ≤ ·.step)
  stamped : ∀ x ∈ (e.replay s).2.toList, x.step = x.output.timestamp
  outputs : (e.replay s).1.totals.outputsEmitted.toNat = (e.replay s).2.toList.length
  dropped : (e.replay s).1.totals.outputsDropped = 0
  given : (e.replay s).1.totals.eventsIngested.toNat +
    (e.replay s).1.totals.eventsDiscarded.toNat = (s.entries.flatMap (·.2)).length
  all : cycles = none → (s.entries.flatMap (·.2)).length = events.length

theorem agrees {period : Time} {events : List Event} {cycles : Option Time}
    (hb : c.build = .ok e) (hs : Schedule.ofEvents events period cycles = .ok s)
    (hfit : events.length < UInt32.size) : e.Agrees s events cycles := by
  obtain ⟨hcheck, rfl⟩ := EngineConfig.build_eq_ok_iff.mp hb
  have hv := EngineConfig.check_eq_ok_iff.mp hcheck
  obtain ⟨hsteps, hparts⟩ := Schedule.partitions_of_ofEvents hs
  have hentries : s.entries.flatMap (·.2) = (List.range s.steps).flatMap s.eventsOf :=
    List.flatMap_map ..
  have hscheduled : (s.entries.flatMap (·.2)).length < UInt32.size := by
    rw [hparts.once.length_eq]
    exact Nat.lt_of_le_of_lt (List.length_filter_le _ _) hfit
  have hgiven := sum_events s c.toEngine (hentries ▸ hscheduled)
  have hemitted : (c.toEngine.replay s).2.toList = c.toEngine.emissions s s.steps := by
    rw [replay_eq]
  have htotals : (c.toEngine.replay s).1 = c.toEngine.after (s.calls s.steps) := by
    rw [replay_eq]
  rw [← hentries] at hgiven
  exact {
    emitted := by
      rw [hemitted, emissions]
      exact List.flatMap_congr fun step _ => emissions_shown s _ step
    ordered := hemitted ▸ emissions_ordered s _ _
    stamped := fun x hx => stamped_of_mem hv (hemitted ▸ hx)
    outputs := by
      rw [hemitted, htotals]
      exact totals_calls _ (sum_outputsEmitted hv s _) (length_emissions_lt s _ hsteps)
    dropped := by
      rw [htotals]
      exact UInt32.toNat_inj.mp (totals_calls _ (sum_outputsDropped hv s _) (by decide))
    given := by
      rw [htotals, ← hgiven]
      exact congrArg₂ (· + ·) (totals_calls "events_ingested" rfl (by omega))
        (totals_calls "events_discarded" rfl (by omega))
    all := fun hcycles => (hparts.all hcycles).length_eq }

end Engine

end SignalGuard
