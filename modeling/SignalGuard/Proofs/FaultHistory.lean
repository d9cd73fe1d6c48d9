import Mathlib.Data.List.Induction
import SignalGuard.Proofs.LimpCounts
import SignalGuard.Proofs.LimpHome

/-!
# Limp-home follows the faults

A monitor remembers of its past no more than a state and one time.
`Engine.history` keeps all of it: a sighting for every step since the engine
was built or reset, the newest one first. `Monitor.Tracks` ties the two
together, and `Engine.tracks_after` carries it through every history of calls.

A monitor is in limp-home exactly as long as its last fault lingers
(`Engine.limp_follows_faults`), which is a statement about the history alone.
-/

namespace SignalGuard

-- ---------------------------------------------------------------------------
-- Sightings
-- ---------------------------------------------------------------------------

/-- What one step meant for a monitor. -/
structure Sighting where
  time : Time
  faulted : Bool
  turn : Option LimpTurn
  deriving DecidableEq, Repr

def Sighting.millis (s : Sighting) : Nat := s.time.toNat / 1000

/-- Sightings of one monitor, the newest one first. -/
abbrev FaultHistory := List Sighting

namespace FaultHistory

def lastFault? (h : FaultHistory) : Option Sighting := h.find? (·.faulted)

def sinceFault (h : FaultHistory) : FaultHistory := h.takeWhile fun s => !s.faulted

/-- `last` is the last fault, and every later sighting lies less than the delay
after it. Times are cut to milliseconds before they are compared. -/
def LingersFrom (h : FaultHistory) (delay : Nat) (last : Sighting) : Prop :=
  h.lastFault? = some last ∧ ∀ s ∈ h.sinceFault, s.millis - last.millis < delay

def Lingers (h : FaultHistory) (delay : Nat) : Prop := ∃ last, h.LingersFrom delay last

def turns (h : FaultHistory) : List LimpTurn := h.flatMap (·.turn.toList)

variable {h : FaultHistory} {delay : Nat} {s last : Sighting}

theorem lingersFrom_cons_faulted (hs : s.faulted = true) :
    LingersFrom (s :: h) delay last ↔ s = last := by
  simp [LingersFrom, lastFault?, sinceFault, hs]

theorem lingersFrom_cons_clear (hs : s.faulted = false) :
    LingersFrom (s :: h) delay last ↔
      h.LingersFrom delay last ∧ s.millis - last.millis < delay := by
  simp only [LingersFrom, lastFault?, sinceFault, hs, List.find?_cons, List.takeWhile_cons,
    Bool.not_false, if_true, List.forall_mem_cons]
  constructor
  · rintro ⟨hlast, hnew, hold⟩
    exact ⟨⟨hlast, hold⟩, hnew⟩
  · rintro ⟨⟨hlast, hold⟩, hnew⟩
    exact ⟨hlast, hnew, hold⟩

theorem LingersFrom.mem (hl : h.LingersFrom delay last) : last ∈ h :=
  List.mem_of_find?_eq_some hl.1

end FaultHistory

-- ---------------------------------------------------------------------------
-- One action and its history
-- ---------------------------------------------------------------------------

def LimpState.Follows (h : FaultHistory) (delay : Nat) : LimpState → Prop
  | .normal => ¬h.Lingers delay
  | .limp _ lastFault => ∃ last, h.LingersFrom delay last ∧ lastFault = last.millis

theorem LimpState.Follows.isLimp_iff {h : FaultHistory} {delay : Nat} {l : LimpState}
    (hl : l.Follows h delay) : l.isLimp ↔ h.Lingers delay := by
  cases l with
  | normal => exact iff_of_false Bool.false_ne_true hl
  | limp saved lastFault =>
    obtain ⟨last, hlast, -⟩ := hl
    exact iff_of_true rfl ⟨last, hlast⟩

open FaultHistory in
theorem LimpAction.step_follows {a : LimpAction} {h : FaultHistory} {l : LimpState}
    (hl : l.Follows h a.restoreDelay.toNat) (s : Sighting) (scale : Scale) :
    (a.step s.faulted s.millis l scale).1.Follows (s :: h) a.restoreDelay.toNat := by
  cases hs : s.faulted with
  | true =>
    -- either way the window starts over at `s`
    have hnew : LingersFrom (s :: h) a.restoreDelay.toNat s :=
      (lingersFrom_cons_faulted hs).mpr rfl
    cases l with
    | normal => exact ⟨s, hnew, rfl⟩
    | limp saved lastFault => exact ⟨s, hnew, rfl⟩
  | false =>
    cases l with
    | normal =>
      rintro ⟨last, hlast⟩
      exact hl ⟨last, ((lingersFrom_cons_clear hs).mp hlast).1⟩
    | limp saved lastFault =>
      obtain ⟨last, hlast, rfl⟩ := hl
      by_cases hdue : a.restoreDelay.toNat ≤ s.millis - last.millis
      · have hstep : (a.step false s.millis (.limp saved last.millis) scale).1 = .normal := by
          simp [step, hdue]
        rw [hstep]
        rintro ⟨other, hother⟩
        obtain ⟨hother, hlt⟩ := (lingersFrom_cons_clear hs).mp hother
        obtain rfl : other = last := Option.some.inj (hother.1.symm.trans hlast.1)
        omega
      · have hstep : (a.step false s.millis (.limp saved last.millis) scale).1 =
            .limp saved last.millis := by
          simp [step, hdue]
        rw [hstep]
        exact ⟨last, (lingersFrom_cons_clear hs).mpr ⟨hlast, by omega⟩, rfl⟩

-- ---------------------------------------------------------------------------
-- Engines and their histories
-- ---------------------------------------------------------------------------

namespace Engine

/-- The pass over the monitors as the one at position `i` takes it up. -/
def passAt (e : Engine) (now : Time) (events : List Event) (i : Nat) : MonitorPass :=
  (sweep (Monitor.visit now) (e.monitors.take i)
    ⟨(e.merged now events).1, e.scales, (e.merged now events).2, (e.ingested events).wakes⟩).2

def detects (e : Engine) (now : Time) (events : List Event) (i : Nat) : Bool :=
  e.monitors[i]?.any fun m =>
    ((e.passAt now events i).table.get? m.config.watched).any fun watched =>
      m.config.detect watched now

def sighting (e : Engine) (now : Time) (events : List Event) (i : Nat) : Sighting where
  time := now
  faulted := e.detects now events i
  turn := e.monitors[i]?.bind fun m =>
    (e.step now events).1.monitors[i]?.bind fun m' => m.turn? m'

def observe (e : Engine) (i : Nat) (h : FaultHistory) : Call → FaultHistory
  | .step now events => e.sighting now events i :: h
  | .set .. => h
  | .reset => []

def historyFrom (e : Engine) (i : Nat) (h : FaultHistory) : List Call → FaultHistory
  | [] => h
  | call :: calls => (e.answer call).1.historyFrom i (e.observe i h call) calls

/-- What the monitor at position `i` has seen since the engine was built or
last reset. -/
def history (e : Engine) (i : Nat) (calls : List Call) : FaultHistory := e.historyFrom i [] calls

variable {c : EngineConfig} {e : Engine} {i : Nat} {m : Monitor} {a : LimpAction}

theorem history_concat (e : Engine) (i : Nat) (calls : List Call) (call : Call) :
    e.history i (calls ++ [call]) = (e.after calls).observe i (e.history i calls) call := by
  unfold history
  generalize ([] : FaultHistory) = h
  induction calls generalizing e h with
  | nil => rfl
  | cons first calls ih => exact ih (e.answer first).1 (e.observe i h first)

theorem ConfiguredBy.exists_monitor (hc : e.ConfiguredBy c) {entry : MonitorEntry}
    (hi : c.monitors[i]? = some entry) : ∃ m, e.monitors[i]? = some m ∧ m.entry = entry := by
  rw [← hc.monitors, List.getElem?_map] at hi
  exact Option.map_eq_some_iff.mp hi

theorem monitor_visited (hm : e.monitors[i]? = some m) (now : Time) (events : List Event) :
    (e.step now events).1.monitors[i]? = some (m.visit now i (e.passAt now events i)).1 := by
  have hvisit : (e.step now events).1.monitors[i]? =
      e.monitors[i]?.map fun m => (m.visit now (0 + i) (e.passAt now events i)).1 :=
    getElem?_sweepFrom _ 0 e.monitors _ i
  rw [hvisit, hm, Option.map_some, Nat.zero_add]

theorem passAt_succ (hm : e.monitors[i]? = some m) {now : Time} {events : List Event} :
    e.passAt now events (i + 1) = (m.visit now i (e.passAt now events i)).2 := by
  have hnext := sweepFrom_take_succ (Monitor.visit now) 0
    ⟨(e.merged now events).1, e.scales, (e.merged now events).2, (e.ingested events).wakes⟩ hm
  rwa [Nat.zero_add] at hnext

theorem detects_eq (hm : e.monitors[i]? = some m) {now : Time} {events : List Event}
    {watched : Signal} (hw : (e.passAt now events i).table.get? m.config.watched = some watched) :
    e.detects now events i = m.config.detect watched now := by
  simp [detects, hm, hw]

theorem ConfiguredBy.monitor_step (hc : e.ConfiguredBy c) (hv : c.Valid)
    (hm : e.monitors[i]? = some m) (he : m.config.enabled) (ha : m.config.limp = some a)
    (now : Time) (events : List Event) :
    ∃ scale, (e.step now events).1.monitors[i]? = some { m with
      faulted := e.detects now events i
      limp := (a.step (e.detects now events i) (now.toNat / 1000) m.limp scale).1 } := by
  have hvalid := hc.monitor_valid hv (List.mem_of_getElem? hm)
  obtain ⟨watched, hwatched⟩ := (e.passAt now events i).table.exists_get? hvalid.watched
  -- the monitors before this one leave the target scale in place
  have hfixed : (e.passAt now events i).scales.map Scale.fixed = c.scales.map Scale.fixed := by
    refine Eq.trans ?_ hc.scales
    exact sweepFrom_preserves (P := fun p => p.scales.map Scale.fixed = e.scales.map Scale.fixed)
      (fun i m p hp => (Monitor.visit_fixed now i m p).trans hp) 0 _
      (s := ⟨_, e.scales, _, _⟩) rfl
  have htarget : a.targetScale.toNat < (e.passAt now events i).scales.length := by
    have hlength := congrArg List.length hfixed
    rw [List.length_map, List.length_map] at hlength
    exact hlength ▸ (hvalid.limp a ha).target
  refine ⟨(e.passAt now events i).scales[a.targetScale.toNat], ?_⟩
  rw [monitor_visited hm, Monitor.visit_monitor now i he hwatched, detects_eq hm hwatched]
  simp [Monitor.limpStep, ha, List.getElem?_eq_getElem htarget]

end Engine

/-- What a monitor remembers agrees with its history. -/
structure Monitor.Tracks (m : Monitor) (a : LimpAction) (h : FaultHistory) : Prop where
  limp : m.limp.Follows h a.restoreDelay.toNat
  turns : LimpTurn.LeadTo h.turns m.limp
  faulted : m.faulted = h.head?.any (·.faulted)

theorem Monitor.tracks_ofConfig (config : MonitorConfig) (hasWake : Bool) (a : LimpAction) :
    (ofConfig config hasWake).Tracks a [] where
  limp := by
    rintro ⟨last, hlast⟩
    cases hlast.mem
  turns := LimpTurn.leadTo_nil
  faulted := rfl

namespace Engine

variable {c : EngineConfig} {e : Engine} {i : Nat} {m : Monitor} {a : LimpAction}

theorem ConfiguredBy.tracks_step (hc : e.ConfiguredBy c) (hv : c.Valid)
    (hm : e.monitors[i]? = some m) (he : m.config.enabled) (ha : m.config.limp = some a)
    {h : FaultHistory} (ht : m.Tracks a h) (now : Time) (events : List Event) :
    ∃ m', (e.step now events).1.monitors[i]? = some m' ∧ m'.entry = m.entry ∧
      m'.Tracks a (e.sighting now events i :: h) := by
  obtain ⟨scale, hm'⟩ := hc.monitor_step hv hm he ha now events
  refine ⟨_, hm', rfl, ?_, ?_, rfl⟩
  · exact LimpAction.step_follows ht.limp (e.sighting now events i) scale
  · have hturn : (e.sighting now events i).turn = m.limp.turn?
        (a.step (e.detects now events i) (now.toNat / 1000) m.limp scale).1 := by
      simp [sighting, hm, hm', Monitor.turn?]
    rw [FaultHistory.turns, List.flatMap_cons, hturn]
    exact ht.turns.turn _

theorem ConfiguredBy.tracks_reset {entry : MonitorEntry} (hc : e.ConfiguredBy c)
    (hi : c.monitors[i]? = some entry) (a : LimpAction) :
    ∃ m, e.reset.monitors[i]? = some m ∧ m.entry = entry ∧ m.Tracks a [] := by
  obtain ⟨m, hm, rfl⟩ := hc.exists_monitor hi
  refine ⟨m.reset, ?_, rfl, Monitor.tracks_ofConfig _ _ a⟩
  simp [Engine.reset, hm]

theorem tracks_after (hv : c.Valid) {entry : MonitorEntry} (hi : c.monitors[i]? = some entry)
    (he : entry.config.enabled) (ha : entry.config.limp = some a) (calls : List Call) :
    ∃ m, (c.toEngine.after calls).monitors[i]? = some m ∧ m.entry = entry ∧
      m.Tracks a (c.toEngine.history i calls) := by
  induction calls using List.reverseRecOn with
  | nil =>
    refine ⟨_, ?_, ?_, Monitor.tracks_ofConfig entry.config entry.hasWake a⟩
    · simp [after, EngineConfig.toEngine, hi]
    · rfl
  | append_singleton calls call ih =>
    obtain ⟨m, hm, rfl, ht⟩ := ih
    have hc := configuredBy_after (configuredBy_toEngine c) calls
    rw [after_concat, history_concat]
    cases call with
    | step now events => exact hc.tracks_step hv hm he ha ht now events
    | set id value now => exact ⟨m, hm, rfl, ht⟩
    | reset => exact hc.tracks_reset hi a

end Engine

-- ---------------------------------------------------------------------------
-- Main statement
-- ---------------------------------------------------------------------------

/-- The history says whether the monitor is in limp-home. -/
structure Monitor.FollowsFaults (m : Monitor) (a : LimpAction) (h : FaultHistory) : Prop where
  limp_iff : m.limp.isLimp ↔ h.Lingers a.restoreDelay.toNat
  faulted_eq : m.faulted = h.head?.any (·.faulted)
  limp_of_faulted : m.faulted → m.limp.isLimp
  alternate : LimpTurn.Alternate h.turns

theorem Monitor.Tracks.followsFaults {m : Monitor} {a : LimpAction} {h : FaultHistory}
    (ht : m.Tracks a h) : m.FollowsFaults a h where
  limp_iff := ht.limp.isLimp_iff
  faulted_eq := ht.faulted
  limp_of_faulted := by
    intro hf
    rw [ht.limp.isLimp_iff]
    rw [ht.faulted] at hf
    cases h with
    | nil => cases hf
    | cons s h => exact ⟨s, (FaultHistory.lingersFrom_cons_faulted hf).mpr rfl⟩
  alternate := ht.turns.alternate

namespace Engine

/-- A fault that recurs in limp-home is no new entry, keeps what was saved and
starts the window over at the step. -/
def Rearms (e : Engine) (i : Nat) : Prop :=
  ∀ now events saved lastFault, e.monitors[i]?.map Monitor.limp = some (.limp saved lastFault) →
    e.detects now events i →
    (e.step now events).1.monitors[i]?.map Monitor.limp = some (.limp saved (now.toNat / 1000)) ∧
      (e.sighting now events i).turn = none

/-- The reports count the monitors that enter and leave limp-home. -/
def CountsTurns (e : Engine) : Prop :=
  ∀ now events kind, ((e.step now events).1.lastReport.turns kind).toNat =
    (e.monitors.zip (e.step now events).1.monitors).countP fun mm => mm.1.turn? mm.2 = some kind

variable {c : EngineConfig} {e : Engine} {i : Nat} {m : Monitor} {a : LimpAction}

theorem ConfiguredBy.rearms (hc : e.ConfiguredBy c) (hv : c.Valid) (hm : e.monitors[i]? = some m)
    (he : m.config.enabled) (ha : m.config.limp = some a) : e.Rearms i := by
  intro now events saved lastFault hl hd
  obtain ⟨scale, hm'⟩ := hc.monitor_step hv hm he ha now events
  have hlimp : m.limp = .limp saved lastFault := by simpa [hm] using hl
  rw [hd, hlimp] at hm'
  refine ⟨by rw [hm']; rfl, ?_⟩
  simp only [sighting, hm, hm', Option.bind_some, Monitor.turn?, hlimp]
  rfl

theorem ConfiguredBy.countsTurns (hc : e.ConfiguredBy c) (hv : c.Valid) : e.CountsTurns := by
  have hfit : e.monitors.length < UInt32.size :=
    Nat.lt_of_le_of_lt (hc.monitors_fit hv) (by decide)
  exact fun now events kind => e.turns_step hfit now events kind

/-- A monitor is in limp-home as long as its last fault lingers. Its entries
and exits, which the reports count, alternate. -/
theorem limp_follows_faults (hb : c.build = .ok e) {entry : MonitorEntry}
    (hi : c.monitors[i]? = some entry) (he : entry.config.enabled)
    (ha : entry.config.limp = some a) (calls : List Call) :
    ∃ m, (e.after calls).monitors[i]? = some m ∧ m.entry = entry ∧
      m.FollowsFaults a (e.history i calls) ∧ (e.after calls).Rearms i ∧
      (e.after calls).CountsTurns := by
  obtain ⟨hcheck, rfl⟩ := EngineConfig.build_eq_ok_iff.mp hb
  have hv := EngineConfig.check_eq_ok_iff.mp hcheck
  have hc := configuredBy_after (configuredBy_toEngine c) calls
  obtain ⟨m, hm, rfl, ht⟩ := tracks_after hv hi he ha calls
  exact ⟨m, hm, rfl, ht.followsFaults, hc.rearms hv hm he ha, hc.countsTurns hv⟩

end Engine

def Event.calm (now : Time) : List Event := [.ok ⟨0⟩ 100 now, .ok ⟨1⟩ 100 now]

/-- The fault recurs within the delay, and the clock goes back once. -/
def Call.blips : List Call :=
  [.step 0 (Event.excursion 0), .step 60000 (Event.calm 60000),
    .step 90000 (Event.excursion 90000), .step 80000 (Event.calm 80000),
    .step 189999 (Event.calm 189999)]

theorem Engine.limp_follows_blips :
    EngineConfig.cascade.build = .ok cascade ∧
      (cascade.history 0 Call.blips).map (fun s => (s.faulted, s.turn)) =
        [(false, none), (false, none), (true, none), (false, none), (true, some .entry)] ∧
      ∃ entry a, EngineConfig.cascade.monitors[0]? = some entry ∧ entry.config.enabled ∧
        entry.config.limp = some a ∧
        ∃ m, (cascade.after Call.blips).monitors[0]? = some m ∧ m.limp.isLimp ∧ m.entry = entry ∧
          m.FollowsFaults a (cascade.history 0 Call.blips) ∧ (cascade.after Call.blips).Rearms 0 ∧
          (cascade.after Call.blips).CountsTurns := by
  refine ⟨build_cascade, by decide +kernel, _, _, rfl, rfl, rfl, ?_⟩
  obtain ⟨m, hm, hrest⟩ := limp_follows_faults (i := 0) build_cascade rfl rfl rfl Call.blips
  have hlimp : (cascade.after Call.blips).monitors[0]?.all (·.limp.isLimp) := by decide +kernel
  exact ⟨m, hm, by simpa [hm] using hlimp, hrest⟩

end SignalGuard
