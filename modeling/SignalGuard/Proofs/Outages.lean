import SignalGuard.Proofs.Freshness
import SignalGuard.Proofs.ReportLaws

/-!
# How often an outage is counted

A run is `Unstamped` for a signal when nobody writes its timestamp between the
first staleness check of the run and the last one. So a signal that is overdue
stays overdue, and the checks of the run are about one and the same outage.

`Engine.counted_once`: in such a run a signal is counted as timed out at most
once, unless it is the output of a merge. A merge without usable inputs turns
its output into an error and keeps the timestamp, so that the next check finds
an overdue signal that is no timeout and counts it again
(`Engine.counted_twice`). There at most one overdue step goes uncounted.
-/

namespace SignalGuard

-- ---------------------------------------------------------------------------
-- Updates and timestamps
-- ---------------------------------------------------------------------------

namespace Signal

/-- The write keeps the timestamp of every slot. -/
def KeepsStamp (write : Signal → Signal) : Prop := ∀ s, (write s).timestamp = s.timestamp

/-- The write leaves the time `now` on every slot or does nothing. -/
def Stamps (now : Time) (write : Signal → Signal) : Prop :=
  (∀ s, (write s).timestamp = now) ∨ ∀ s, write s = s

variable {now : Time}

theorem stamps_id (now : Time) : Stamps now fun s => s := .inr fun _ => rfl

/-- Such a write has to do nothing in order to keep the timestamps. -/
theorem Stamps.preserves {write : Signal → Signal} (h : Stamps now write) {Q : Signal → Prop}
    (hkeeps : KeepsStamp write) (s : Signal) (hs : Q s) : Q (write s) := by
  rcases h with hstamps | hskips
  · -- a slot from another time tells the two apart
    have hnext := (hkeeps { s with timestamp := now + 1 }).symm.trans (hstamps _)
    simp at hnext
  · rw [hskips]
    exact hs

theorem relayed_stamps (source : Signal) (now : Time) (f : Int32 → Int32) :
    Stamps now (source.relayed now f) := by
  refine .inl fun s => ?_
  unfold relayed
  split <;> rfl

end Signal

open Signal (KeepsStamp Stamps)

theorem Monitor.publish_stamps (level : FaultLevel) (now : Time) :
    Stamps now (publish level now) := .inl fun _ => rfl

theorem Pid.publish_stamps (now : Time) (p : Pid) (setpoint measurement : Signal) :
    Stamps now (p.publish now setpoint measurement) := by
  unfold publish
  split
  · exact .inl fun _ => rfl
  · split
    · exact .inr fun _ => rfl
    · exact .inl fun _ => rfl

theorem Verified.publish_stamps (c : VerifiedConfig) (verdict : Verdict) (command : Int32)
    (feedback : Signal) (now : Time) : Stamps now (publish c verdict command feedback now) := by
  cases verdict with
  | pending => exact .inl fun _ => rfl
  | checked => exact .inl fun _ => rfl
  | standing => exact .inr fun _ => rfl

/-- A merge that keeps the timestamp has had nothing to vote on. -/
theorem Merge.publish_status {outcome : Option VoteOutcome} {now : Time}
    (h : KeepsStamp (publish outcome now)) (s : Signal) :
    (publish outcome now s).status = .error := by
  cases outcome with
  | some o =>
    have hnext := h { s with timestamp := now + 1 }
    simp [publish] at hnext
  | none =>
    dsimp only [publish]
    split
    · next herror => exact herror
    · rfl

theorem Merge.publish_none_keepsStamp (now : Time) : KeepsStamp (publish none now) := by
  intro s
  dsimp only [publish]
  split <;> rfl

namespace Update

/-- No update of the list writes the timestamp of the signal at its turn. -/
def AllSpare (id : SignalId) : List Update → SignalTable → Prop
  | [], _ => True
  | u :: us, t => (u.output = id → KeepsStamp (u.rewrite t)) ∧ AllSpare id us (u.run t)

variable {us : List Update} {u : Update} {t : SignalTable} {id : SignalId} {s s' : Signal}
  {P : Signal → Prop}

/-- What the updates keep of a slot while they spare its timestamp holds in the
end if it held before or one of them brings it about. -/
theorem AllSpare.holds (hspare : AllSpare id us t)
    (hkeeps : ∀ u ∈ us, u.output = id → ∀ t, KeepsStamp (u.rewrite t) →
      ∀ s, P s → P (u.rewrite t s))
    (hs : t.get? id = some s)
    (h : P s ∨ ∃ u ∈ us, u.output = id ∧ ∀ t, KeepsStamp (u.rewrite t) → ∀ s, P (u.rewrite t s))
    (hs' : (runAll us t).get? id = some s') : P s' := by
  induction us generalizing t s with
  | nil =>
    obtain rfl := Option.some.inj (hs.symm.trans hs')
    exact h.resolve_right (by simp)
  | cons u us ih =>
    obtain ⟨hu, hus⟩ := hspare
    rw [List.forall_mem_cons] at hkeeps
    rw [List.exists_mem_cons_iff] at h
    by_cases hid : u.output = id
    · refine ih hus hkeeps.2 (by rw [get?_run, if_pos hid, hs, Option.map_some]) ?_ hs'
      rcases h with h | ⟨-, hbrings⟩ | hlater
      · exact .inl (hkeeps.1 hid t (hu hid) s h)
      · exact .inl (hbrings t (hu hid) s)
      · exact .inr hlater
    · refine ih hus hkeeps.2 (by rw [get?_run, if_neg hid, hs]) ?_ hs'
      exact h.imp_right fun h => h.resolve_left fun h => hid h.1

end Update

-- ---------------------------------------------------------------------------
-- Runs
-- ---------------------------------------------------------------------------

namespace Engine

/-- The staleness check of the call counts the signal. -/
def timesOut (e : Engine) (id : SignalId) : Call → Bool
  | .step now events => ((e.ingested events).table.get? id).any (Signal.expires now)
  | .set .. | .reset => false

/-- The staleness check of the call finds that the signal has timed out before. -/
def staysOut (e : Engine) (id : SignalId) : Call → Bool
  | .step now events =>
    ((e.ingested events).table.get? id).any fun s => s.overdue now && s.status == .timeout
  | .set .. | .reset => false

/-- How many calls of the run have the property. -/
def countCalls (e : Engine) (p : Engine → Call → Bool) : List Call → Nat
  | [] => 0
  | call :: calls => (p e call).toNat + (e.answer call).1.countCalls p calls

/-- No stage writes the timestamp of the signal. -/
def StagesSpare (e : Engine) (id : SignalId) : Call → Prop
  | .step now events =>
    Update.AllSpare id (e.updates (e.step now events).1.scales now) (e.sampled now events).1
  | .set .. | .reset => True

/-- Nobody writes the timestamp of the signal between the first staleness check
and the last one: no stage before the last call, nothing from outside after the
first. -/
def Unstamped (e : Engine) (id : SignalId) : List Call → Prop
  | [] | [_] => True
  | call :: next :: calls =>
    e.StagesSpare id call ∧ next.LeavesAlone id ∧ (e.answer call).1.Unstamped id (next :: calls)

variable {c : EngineConfig} {e : Engine} {id : SignalId} {now : Time} {events : List Event}
  {scales : List Scale}

/-- If what is counted leads into `Q`, and in `Q` nothing is counted until the
timestamp is written, it is counted once. -/
theorem countCalls_le_one {p : Engine → Call → Bool} {Q : Engine → Prop}
    (henter : ∀ e call, e.ConfiguredBy c → p e call → e.StagesSpare id call → Q (e.answer call).1)
    (hstay : ∀ e call, e.ConfiguredBy c → Q e → call.LeavesAlone id →
      p e call = false ∧ (e.StagesSpare id call → Q (e.answer call).1))
    (hc : e.ConfiguredBy c) {calls : List Call} (h : e.Unstamped id calls) :
    e.countCalls p calls ≤ 1 := by
  suffices hboth : e.countCalls p calls ≤ 1 ∧
      (Q e → (∀ call ∈ calls.head?, call.LeavesAlone id) → e.countCalls p calls = 0) from hboth.1
  induction calls generalizing e with
  | nil => exact ⟨Nat.zero_le 1, fun _ _ => rfl⟩
  | cons call calls ih =>
    cases calls with
    | nil =>
      refine ⟨?_, fun hQ halone => ?_⟩
      · simpa [countCalls] using Bool.toNat_le (p e call)
      · simp [countCalls, (hstay e call hc hQ (halone call rfl)).1]
    | cons next calls =>
      obtain ⟨hspare, hnext, hrest⟩ := h
      obtain ⟨hle, hzero⟩ := ih (hc.answer call) hrest
      have halone : ∀ call ∈ (next :: calls).head?, call.LeavesAlone id := by simpa using hnext
      rw [countCalls]
      refine ⟨?_, fun hQ hcall => ?_⟩
      · cases hp : p e call with
        | false => simpa using hle
        | true => simp [hzero (henter e call hc hp hspare) halone]
      · obtain ⟨hp, hQ'⟩ := hstay e call hc hQ (hcall call rfl)
        rw [hp, hzero (hQ' hspare) halone]
        rfl

-- ---------------------------------------------------------------------------
-- Steps
-- ---------------------------------------------------------------------------

/-- Of the stages that spare the timestamp only a merge does anything. -/
theorem updates_preserve {Q : Signal → Prop}
    (hmerge : ∀ m ∈ e.merges, m.enabled → m.output = id →
      ∀ t, KeepsStamp (Merge.publish (m.outcome? t) now) →
        ∀ s, Q s → Q (Merge.publish (m.outcome? t) now s)) :
    ∀ u ∈ e.updates scales now, u.output = id → ∀ t, KeepsStamp (u.rewrite t) →
      ∀ s, Q s → Q (u.rewrite t s) :=
  forall_rewrites (P := fun write => KeepsStamp write → ∀ s, Q s → Q (write s))
    (Signal.stamps_id now).preserves hmerge
    (fun level => (Monitor.publish_stamps level now).preserves)
    (fun source f => (source.relayed_stamps now f).preserves)
    (fun p setpoint measurement => (p.publish_stamps now setpoint measurement).preserves)
    (fun v _ _ _ verdict command feedback =>
      (Verified.publish_stamps v.config verdict command feedback now).preserves)

theorem get?_ingested_of_leavesAlone (h : (Call.step now events).LeavesAlone id) :
    (e.ingested events).table.get? id = (e.signal? id).map Signal.clean := by
  have hevents : Event.addressed id events = [] := h.2
  rw [get?_ingested, hevents]
  rfl

theorem signal?_set_of_leavesAlone {other : SignalId} {value : Int32}
    (h : (Call.set other value now).LeavesAlone id) :
    (e.answer (.set other value now)).1.signal? id = e.signal? id := by
  have hne : other ≠ id := by
    rintro rfl
    simp [Call.LeavesAlone, Call.writes] at h
  rw [answer, signal?_setSignal, if_neg hne]

def StatusIs (e : Engine) (id : SignalId) (Q : SignalStatus → Prop) : Prop :=
  ∀ s ∈ e.signal? id, Q s.status

/-- What the stages keep of a slot while they spare its timestamp holds after the
step if the staleness check has left it so or a stage brings it about. -/
theorem StagesSpare.holds_step {P : Signal → Prop} (hspare : e.StagesSpare id (.step now events))
    (hmerge : ∀ m ∈ e.merges, m.enabled → m.output = id →
      ∀ t, KeepsStamp (Merge.publish (m.outcome? t) now) →
        ∀ s, P s → P (Merge.publish (m.outcome? t) now s))
    (h : (∀ s ∈ (e.ingested events).table.get? id, P (s.expire now)) ∨
      ∃ u ∈ e.updates (e.step now events).1.scales now, u.output = id ∧
        ∀ t, KeepsStamp (u.rewrite t) → ∀ s, P (u.rewrite t s)) :
    ∀ s ∈ (e.step now events).1.signal? id, P s := by
  intro s' hs'
  rw [signal?, step_table] at hs'
  have hid : id.isValid := by rw [← SignalTable.isSome_get?, hs', Option.isSome_some]
  obtain ⟨s, hs⟩ := (e.ingested events).table.exists_get? hid
  have hsampled : (e.sampled now events).1.get? id = some (s.expire now) := by
    rw [get?_sampled_ingested, hs, Option.map_some]
  exact Update.AllSpare.holds hspare (updates_preserve hmerge) hsampled
    (h.imp_left fun h => h s hs) hs'

/-- Without a merge on the signal, stages that spare the timestamp leave a
timeout as it is. -/
theorem timedOut_step (hfree : ∀ m ∈ e.merges, m.enabled → m.output ≠ id)
    (hspare : e.StagesSpare id (.step now events))
    (h : ∀ s ∈ (e.ingested events).table.get? id, s.overdue now ∨ s.status = .timeout) :
    (e.step now events).1.StatusIs id (· = .timeout) := by
  refine hspare.holds_step (P := fun s => s.status = .timeout)
    (fun m hm he hout => absurd hout (hfree m hm he)) (.inl fun s hs => ?_)
  rw [Signal.expire_status]
  split
  · rfl
  · next ho => exact (h s hs).resolve_left ho

/-- A merge on the signal that spares the timestamp leaves an error. -/
theorem error_step {m : Merge} (hm : m ∈ e.merges) (he : m.enabled) (hout : m.output = id)
    (hspare : e.StagesSpare id (.step now events)) :
    (e.step now events).1.StatusIs id (· = .error) := by
  have hmem : m.asUpdate now ∈ e.updates (e.step now events).1.scales now :=
    List.mem_append_left _ (List.mem_append_left _ (mem_map_filter _ hm he))
  exact hspare.holds_step (P := fun s => s.status = .error)
    (fun _ _ _ _ _ hkeeps s _ => Merge.publish_status hkeeps s)
    (.inr ⟨_, hmem, hout, fun _ hkeeps => Merge.publish_status hkeeps⟩)

/-- What only steps count needs to be looked at in steps only. A status that
nobody writes between two steps is the same when the next one checks it. -/
theorem ConfiguredBy.countSteps_le_one (hc : e.ConfiguredBy c) {p : Engine → Call → Bool}
    {Q : SignalStatus → Prop}
    (hset : ∀ e other value now, p e (.set other value now) = false)
    (hreset : ∀ e, p e .reset = false)
    (henter : ∀ (e : Engine) now events, e.ConfiguredBy c → p e (.step now events) →
      e.StagesSpare id (.step now events) → (e.step now events).1.StatusIs id Q)
    (hstay : ∀ (e : Engine) now events, e.ConfiguredBy c →
      (∀ s ∈ (e.ingested events).table.get? id, Q s.status) →
      p e (.step now events) = false ∧
        (e.StagesSpare id (.step now events) → (e.step now events).1.StatusIs id Q))
    {run : List Call} (h : e.Unstamped id run) : e.countCalls p run ≤ 1 := by
  refine countCalls_le_one (Q := fun e => e.StatusIs id Q) ?_ ?_ hc h
  · intro e call hc hcounted hspare
    cases call with
    | step now events => exact henter e now events hc hcounted hspare
    | set other value now => simp [hset] at hcounted
    | reset => simp [hreset] at hcounted
  · intro e call hc hQ halone
    cases call with
    | step now events =>
      refine hstay e now events hc fun s hs => ?_
      rw [get?_ingested_of_leavesAlone halone, Option.mem_def, Option.map_eq_some_iff] at hs
      obtain ⟨old, hold, rfl⟩ := hs
      exact hQ old hold
    | set other value now =>
      refine ⟨hset e other value now, fun _ => ?_⟩
      rw [StatusIs, signal?_set_of_leavesAlone halone]
      exact hQ
    | reset => exact absurd rfl halone.1

theorem ConfiguredBy.timesOut_once (hc : e.ConfiguredBy c)
    (hfree : ∀ m ∈ c.merges, m.enabled → m.output ≠ id) {run : List Call}
    (h : e.Unstamped id run) : e.countCalls (timesOut · id) run ≤ 1 := by
  refine hc.countSteps_le_one (Q := (· = .timeout)) (fun _ _ _ _ => rfl) (fun _ => rfl) ?_ ?_ h
  · intro e now events hc hcounted hspare
    refine timedOut_step (hc.merges ▸ hfree) hspare fun s hs => .inl ?_
    rw [Option.mem_def] at hs
    simp only [timesOut, hs, Option.any_some, Signal.expires, Bool.and_eq_true] at hcounted
    exact hcounted.1
  · intro e now events hc hstatus
    refine ⟨?_, fun hspare => timedOut_step (hc.merges ▸ hfree) hspare fun s hs =>
      .inr (hstatus s hs)⟩
    cases hs : (e.ingested events).table.get? id with
    | none => simp [timesOut, hs]
    | some s => simp [timesOut, hs, Signal.expires, hstatus s hs]

theorem ConfiguredBy.staysOut_once (hc : e.ConfiguredBy c)
    (hmerge : ∃ m ∈ c.merges, m.enabled ∧ m.output = id) {run : List Call}
    (h : e.Unstamped id run) : e.countCalls (staysOut · id) run ≤ 1 := by
  obtain ⟨m, hm, he, hout⟩ := hmerge
  have hleaves (e : Engine) (now : Time) (events : List Event) (hc : e.ConfiguredBy c)
      (hspare : e.StagesSpare id (.step now events)) :
      (e.step now events).1.StatusIs id (· ≠ .timeout) := by
    intro s hs
    rw [error_step (hc.merges ▸ hm) he hout hspare s hs]
    decide
  refine hc.countSteps_le_one (Q := (· ≠ .timeout)) (fun _ _ _ _ => rfl) (fun _ => rfl)
    (fun e now events hc _ => hleaves e now events hc) ?_ h
  intro e now events hc hstatus
  refine ⟨?_, hleaves e now events hc⟩
  cases hs : (e.ingested events).table.get? id with
  | none => simp [staysOut, hs]
  | some s => simp [staysOut, hs, hstatus s hs]

end Engine

-- ---------------------------------------------------------------------------
-- Reports
-- ---------------------------------------------------------------------------

/-- The ids that have a slot. -/
def SignalId.all : List SignalId := (List.range tableSize).map fun i => ⟨UInt8.ofNat i⟩

theorem SignalTable.get?_ofNat (t : SignalTable) {i : Nat} (hi : i < tableSize) :
    t.get? ⟨UInt8.ofNat i⟩ = some t.slots[i] := by
  have hbyte : i < UInt8.size := Nat.lt_of_lt_of_le hi (by decide)
  rw [get?, SignalId.index, UInt8.toNat_ofNat_of_lt' hbyte]
  exact Vector.getElem?_eq_getElem hi

theorem SignalTable.countP_slots (t : SignalTable) (p : Signal → Bool) :
    t.slots.toList.countP p = SignalId.all.countP fun id => (t.get? id).any p := by
  have hslots : SignalId.all.map t.get? = t.slots.toList.map some := by
    refine List.ext_getElem (by simp [SignalId.all]) fun i hi _ => ?_
    have hi : i < tableSize := by simpa [SignalId.all] using hi
    simpa [SignalId.all] using t.get?_ofNat hi
  calc t.slots.toList.countP p
    _ = (t.slots.toList.map some).countP fun s => s.any p := by
      simp [List.countP_map, Function.comp_def]
    _ = SignalId.all.countP fun id => (t.get? id).any p := by
      rw [← hslots, List.countP_map]
      rfl

namespace Engine

theorem signalsTimedOut_eq_countP (e : Engine) (now : Time) (events : List Event) :
    (e.step now events).1.lastReport.signalsTimedOut.toNat =
      SignalId.all.countP fun id => e.timesOut id (.step now events) := by
  obtain ⟨_, _, _, hreport⟩ := e.ingested_report events
  have hcount : (e.sampled now events).2.signalsTimedOut = Counter.add 0
      (UInt32.ofNat (SignalId.all.countP fun id => e.timesOut id (.step now events))) := by
    simp only [sampled, applyStaleness, hreport, SignalTable.countP_slots]
    rfl
  have hle : (SignalId.all.countP fun id => e.timesOut id (.step now events)) ≤ tableSize :=
    List.countP_le_length
  have hfit : tableSize < UInt32.size := by decide
  rw [lastReport_eq, hcount, Counter.toNat_add, UInt32.toNat_zero, Nat.zero_add,
    UInt32.toNat_ofNat_of_lt' (by omega)]
  exact Nat.min_eq_right (by omega)

variable {c : EngineConfig} {e : Engine} {id : SignalId}

/-- Between two writes of its timestamp a signal is counted at most once, unless
a merge writes it. Then at most one step finds it overdue without counting it. -/
theorem counted_once (hb : c.build = .ok e) (prior : List Call) {run : List Call}
    (h : (e.after prior).Unstamped id run) :
    ((∀ m ∈ c.merges, m.enabled → m.output ≠ id) →
      (e.after prior).countCalls (timesOut · id) run ≤ 1) ∧
    ((∃ m ∈ c.merges, m.enabled ∧ m.output = id) →
      (e.after prior).countCalls (staysOut · id) run ≤ 1) ∧
    ∀ now events, ((e.after prior).step now events).1.lastReport.signalsTimedOut.toNat =
      SignalId.all.countP fun id => (e.after prior).timesOut id (.step now events) := by
  obtain ⟨-, rfl⟩ := EngineConfig.build_eq_ok_iff.mp hb
  have hc := configuredBy_after (configuredBy_toEngine c) prior
  exact ⟨fun hfree => hc.timesOut_once hfree h, fun hmerge => hc.staysOut_once hmerge h,
    signalsTimedOut_eq_countP _⟩

end Engine

/-- A merge of one input. Both signals time out after 50 ms. -/
def EngineConfig.soleInput : EngineConfig :=
  { EngineConfig.empty with
    signals := [⟨⟨0⟩, 50000⟩, ⟨⟨2⟩, 50000⟩]
    merges := [.ofInputs [⟨0⟩] ⟨2⟩ .median] }

def Call.silence : List Call := [.step 100000 [], .step 200000 []]

namespace Engine

def soleInput : Engine := EngineConfig.soleInput.toEngine

theorem unstamped_silence (id : SignalId) :
    (soleInput.after [.step 0 []]).Unstamped id Call.silence := by
  have hnone : (Merge.ofInputs [⟨0⟩] ⟨2⟩ .median).outcome?
      ((soleInput.after [.step 0 []]).sampled 100000 []).1 = none := by decide +kernel
  refine ⟨⟨fun _ => ?_, trivial⟩, ⟨by decide, rfl⟩, trivial⟩
  have hkeeps := Merge.publish_none_keepsStamp 100000
  rwa [← hnone] at hkeeps

theorem counted_once_silence :
    EngineConfig.soleInput.build = .ok soleInput ∧
      (∀ id, (soleInput.after [.step 0 []]).Unstamped id Call.silence) ∧
      (∀ m ∈ EngineConfig.soleInput.merges, m.enabled → m.output ≠ ⟨0⟩) ∧
      (soleInput.after [.step 0 []]).countCalls (timesOut · ⟨0⟩) Call.silence ≤ 1 ∧
      (∃ m ∈ EngineConfig.soleInput.merges, m.enabled ∧ m.output = ⟨2⟩) ∧
      (soleInput.after [.step 0 []]).countCalls (staysOut · ⟨2⟩) Call.silence ≤ 1 := by
  have hb : EngineConfig.soleInput.build = .ok soleInput :=
    EngineConfig.build_eq_ok_iff.mpr ⟨rfl, rfl⟩
  have hfree : ∀ m ∈ EngineConfig.soleInput.merges, m.enabled → m.output ≠ ⟨0⟩ := by decide
  have hmerge : ∃ m ∈ EngineConfig.soleInput.merges, m.enabled ∧ m.output = ⟨2⟩ := by decide
  exact ⟨hb, unstamped_silence,
    hfree, (counted_once hb [.step 0 []] (unstamped_silence ⟨0⟩)).1 hfree,
    hmerge, (counted_once hb [.step 0 []] (unstamped_silence ⟨2⟩)).2.1 hmerge⟩

/-- The output of the merge is overdue in both steps and counted in both. -/
theorem counted_twice :
    ∃ e, EngineConfig.soleInput.build = .ok e ∧
      Call.Ordered (.step 0 [] :: Call.silence) ∧
      (e.after [.step 0 []]).Unstamped ⟨2⟩ Call.silence ∧
      (e.after [.step 0 []]).countCalls (timesOut · ⟨2⟩) Call.silence = 2 :=
  ⟨soleInput, EngineConfig.build_eq_ok_iff.mpr ⟨rfl, rfl⟩, by decide, unstamped_silence ⟨2⟩,
    by decide +kernel⟩

end Engine

end SignalGuard
