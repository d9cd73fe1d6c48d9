import SignalGuard.Proofs.Sampling

/-!
# Which changes the dirty flag shows

The flag of a slot is cleared when a step begins. Every single write flags the
change that it makes itself (`Signal.Flags`), and most writes also leave a flag
set that they find (`Signal.Marks`). An event and a settling verified output do
not: they set the flag anew, from a comparison with the value they find.

`Engine.updated_of_changed`: a changed value is flagged after the step, unless
the last event for the signal repeats the one before it or a verified output
comes second to another writer. A verified output that settles loses the change
of the other writer (`Engine.change_unflagged`). That an equal event takes the
flag back is the rule for events.
-/

namespace SignalGuard

-- ---------------------------------------------------------------------------
-- Writes
-- ---------------------------------------------------------------------------

namespace Signal

/-- The slot is flagged, or it holds the value `old`. -/
def Flags (old : Int32) (s : Signal) : Prop := s.value = old ∨ s.updated = true

def FlagsChange (write : Signal → Signal) : Prop := ∀ s, (write s).Flags s.value

/-- The write flags its own change and keeps the flag of an earlier one. -/
structure Marks (write : Signal → Signal) : Prop where
  flags : FlagsChange write
  keeps : ∀ s, s.updated = true → (write s).updated = true

theorem marks_id : Marks fun s => s := ⟨fun _ => .inl rfl, fun _ h => h⟩

theorem Marks.of_updated {write : Signal → Signal} (h : ∀ s, (write s).updated = true) :
    Marks write := ⟨fun s => .inr (h s), fun s _ => h s⟩

theorem Flags.expire {old : Int32} {s : Signal} (h : s.Flags old) (now : Time) :
    (s.expire now).Flags old := by
  unfold Signal.expire
  split
  · exact .inr rfl
  · exact h

theorem relayed_marks (source : Signal) (now : Time) (f : Int32 → Int32) :
    Marks (source.relayed now f) := by
  refine .of_updated fun s => ?_
  unfold relayed
  split <;> rfl

end Signal

open Signal (FlagsChange Marks)

theorem Merge.publish_marks (outcome : Option VoteOutcome) (now : Time) :
    Marks (publish outcome now) := by
  cases outcome with
  | some o => exact .of_updated fun _ => rfl
  | none =>
    refine ⟨fun s => .inl ?_, fun s hs => ?_⟩
    · dsimp only [publish]
      split <;> rfl
    · dsimp only [publish]
      split
      · exact hs
      · rfl

theorem Monitor.publish_marks (level : FaultLevel) (now : Time) : Marks (publish level now) where
  flags s := by
    by_cases hv : s.value = level.value
    · exact .inl hv.symm
    · exact .inr (by simp [publish, hv])
  keeps s hs := by simp [publish, hs]

theorem Pid.publish_marks (now : Time) (p : Pid) (setpoint measurement : Signal) :
    Marks (p.publish now setpoint measurement) := by
  unfold publish
  split
  · exact ⟨fun _ => .inl rfl, fun _ hs => by simp [hs]⟩
  · split
    · exact Signal.marks_id
    · exact .of_updated fun _ => rfl

-- a settling command sets the flag anew, so this is no `Marks`
theorem Verified.publish_flags (c : VerifiedConfig) (verdict : Verdict) (command : Int32)
    (feedback : Signal) (now : Time) : FlagsChange (publish c verdict command feedback now) := by
  intro s
  cases verdict with
  | checked => exact .inr rfl
  | standing => exact .inl rfl
  | pending =>
    by_cases hv : s.value = command
    · exact .inl hv.symm
    · exact .inr (by simp [publish, hv])

-- ---------------------------------------------------------------------------
-- Events
-- ---------------------------------------------------------------------------

/-- The last event for the signal brings another value than the one before it. -/
def Event.EndsFresh (id : SignalId) (events : List Event) : Prop :=
  ∀ last ∈ (addressed id events).getLast?, ∀ before ∈ (addressed id events).dropLast.getLast?,
    before.value ≠ last.value

instance (id : SignalId) (events : List Event) : Decidable (Event.EndsFresh id events) :=
  inferInstanceAs (Decidable (∀ last ∈ (Event.addressed id events).getLast?,
    ∀ before ∈ (Event.addressed id events).dropLast.getLast?, before.value ≠ last.value))

theorem Signal.receive_flags (s : Signal) (e : Event) : (s.receive e).Flags s.value := by
  by_cases hv : s.value = e.value
  · exact .inl hv.symm
  · exact .inr (by simp [receive, hv])

theorem Signal.receiveAll_flags {id : SignalId} {events : List Event}
    (h : Event.EndsFresh id events) (s : Signal) :
    (s.receiveAll (Event.addressed id events)).Flags s.value := by
  unfold Event.EndsFresh at h
  -- the last event has set the flag, from the value of the one before it
  rcases List.eq_nil_or_concat (Event.addressed id events) with hnil | ⟨es, last, hlast⟩
  · rw [hnil]
    exact .inl rfl
  · rw [List.concat_eq_append] at hlast
    rw [hlast, receiveAll_concat]
    rcases List.eq_nil_or_concat es with rfl | ⟨es, before, rfl⟩
    · exact s.receive_flags last
    · have hne : before.value ≠ last.value := h last (by simp [hlast]) before (by simp [hlast])
      rw [List.concat_eq_append, receiveAll_concat]
      exact .inr (by simp [receive, hne])

-- ---------------------------------------------------------------------------
-- Updates
-- ---------------------------------------------------------------------------

namespace Update

variable {us : List Update} {t : SignalTable} {id : SignalId} {s s' : Signal} {old : Int32}

theorem runAll_flags (hmarks : ∀ u ∈ us, u.output = id → ∀ t, Marks (u.rewrite t))
    (hs : t.get? id = some s) (h : s.Flags old) (hs' : (runAll us t).get? id = some s') :
    s'.Flags old := by
  induction us generalizing t s with
  | nil =>
    obtain rfl := Option.some.inj (hs.symm.trans hs')
    exact h
  | cons u us ih =>
    rw [List.forall_mem_cons] at hmarks
    by_cases hu : u.output = id
    · have hrun : (u.run t).get? id = some (u.rewrite t s) := by
        rw [get?_run, if_pos hu, hs, Option.map_some]
      refine ih hmarks.2 hrun ?_ hs'
      rcases h with rfl | h
      · exact (hmarks.1 hu t).flags s
      · exact .inr ((hmarks.1 hu t).keeps s h)
    · have hrun : (u.run t).get? id = some s := by rw [get?_run, if_neg hu, hs]
      exact ih hmarks.2 hrun h hs'

/-- A sole writer has no earlier flag to lose. -/
theorem runAll_flags_of_sole (hflags : ∀ u ∈ us, u.output = id → ∀ t, FlagsChange (u.rewrite t))
    (hsole : us.countP (·.output = id) ≤ 1) (hs : t.get? id = some s)
    (hs' : (runAll us t).get? id = some s') : s'.Flags s.value := by
  induction us generalizing t with
  | nil =>
    obtain rfl := Option.some.inj (hs.symm.trans hs')
    exact .inl rfl
  | cons u us ih =>
    rw [List.forall_mem_cons] at hflags
    rw [runAll_cons] at hs'
    by_cases hu : u.output = id
    · have hrest : ∀ v ∈ us, v.output ≠ id := by
        rw [List.countP_cons_of_pos (by simpa using hu)] at hsole
        have hcount : us.countP (·.output = id) = 0 := by omega
        simpa [List.countP_eq_zero] using hcount
      rw [get?_runAll_of_ne hrest, get?_run, if_pos hu, hs, Option.map_some] at hs'
      obtain rfl := Option.some.inj hs'
      exact hflags.1 hu t s
    · rw [List.countP_cons_of_neg (by simpa using hu)] at hsole
      exact ih hflags.2 hsole (by rw [get?_run, if_neg hu, hs]) hs'

end Update

-- ---------------------------------------------------------------------------
-- Engines
-- ---------------------------------------------------------------------------

/-- No write in the step takes back a flag that an earlier one has set: the
last event does not, and a verified output has its signal to itself. -/
structure EngineConfig.KeepsFlag (c : EngineConfig) (id : SignalId) (events : List Event) :
    Prop where
  endsFresh : Event.EndsFresh id events
  sole : ∀ v ∈ c.verified, v.enabled → v.output = id →
    Event.addressed id events = [] ∧ c.wires.countP (·.output = id) ≤ 1

/-- A verified output that hands on a command until its feedback is checked. -/
def EngineConfig.settling : EngineConfig :=
  { EngineConfig.empty with verified := [(VerifiedConfig.ofSignals ⟨5⟩ ⟨7⟩ ⟨8⟩).withTimeout 100] }

namespace Engine

variable {c : EngineConfig} {e : Engine} {now : Time} {scales : List Scale} {id : SignalId}

theorem updates_flagsChange : ∀ u ∈ e.updates scales now, u.output = id →
    ∀ t, FlagsChange (u.rewrite t) :=
  forall_rewrites Signal.marks_id.flags
    (fun m _ _ _ t => (Merge.publish_marks (m.outcome? t) now).flags)
    (fun level => (Monitor.publish_marks level now).flags)
    (fun source f => (source.relayed_marks now f).flags)
    (fun p setpoint measurement => (p.publish_marks now setpoint measurement).flags)
    (fun v _ _ _ verdict command feedback =>
      Verified.publish_flags v.config verdict command feedback now)

theorem updates_marks (hv : ∀ v ∈ e.verified, v.config.enabled → v.config.output ≠ id) :
    ∀ u ∈ e.updates scales now, u.output = id → ∀ t, Marks (u.rewrite t) :=
  forall_rewrites Signal.marks_id
    (fun m _ _ _ t => Merge.publish_marks (m.outcome? t) now)
    (fun level => Monitor.publish_marks level now)
    (fun source f => source.relayed_marks now f)
    (fun p setpoint measurement => p.publish_marks now setpoint measurement)
    (fun v hmem he hid => absurd hid (hv v hmem he))

theorem ConfiguredBy.countP_updates (hc : e.ConfiguredBy c) (now : Time) (events : List Event)
    (id : SignalId) : (e.updates (e.step now events).1.scales now).countP (·.output = id) =
      c.wires.countP (·.output = id) := by
  rw [← hc.wires (hc.step now events).scales now, List.countP_map]
  rfl

theorem ConfiguredBy.step_flags (hc : e.ConfiguredBy c) {id : SignalId} {events : List Event}
    (hk : c.KeepsFlag id events) {s s' : Signal} (hs : e.signal? id = some s)
    (hs' : (e.step now events).1.signal? id = some s') : s'.Flags s.value := by
  have hsampled : (e.sampled now events).1.get? id =
      some ((s.clean.receiveAll (Event.addressed id events)).expire now) := by
    have hs : e.table.get? id = some s := hs
    rw [get?_sampled_ingested, get?_ingested, hs, Option.map_some, Option.map_some]
  rw [signal?, step_table] at hs'
  by_cases hv : ∃ v ∈ c.verified, v.enabled ∧ v.output = id
  · obtain ⟨v, hv, he, hid⟩ := hv
    obtain ⟨hevents, hsole⟩ := hk.sole v hv he hid
    rw [← hc.countP_updates now events id] at hsole
    have hflags := Update.runAll_flags_of_sole updates_flagsChange hsole hsampled hs'
    rwa [hevents, Signal.expire_value] at hflags
  · refine Update.runAll_flags (updates_marks fun v hmem he hid => ?_) hsampled
      ((s.clean.receiveAll_flags hk.endsFresh).expire now) hs'
    exact hv ⟨v.config, hc.verified ▸ List.mem_map_of_mem hmem, he, hid⟩

/-- A step flags every signal whose value it has changed, if no write takes the
flag back. -/
theorem updated_of_changed (hb : c.build = .ok e) (calls : List Call) (now : Time)
    {events : List Event} {id : SignalId} (hk : c.KeepsFlag id events) {s s' : Signal}
    (hs : (e.after calls).signal? id = some s)
    (hs' : ((e.after calls).step now events).1.signal? id = some s') (hne : s'.value ≠ s.value) :
    s'.updated = true := by
  obtain ⟨-, rfl⟩ := EngineConfig.build_eq_ok_iff.mp hb
  have hc := configuredBy_after (configuredBy_toEngine c) calls
  exact (hc.step_flags hk hs hs').resolve_left hne

theorem updated_of_changed_cascade :
    EngineConfig.cascade.build = .ok cascade ∧
      EngineConfig.cascade.KeepsFlag ⟨2⟩ (Event.excursion 10) ∧
      ∃ s s', (cascade.after [.step 0 []]).signal? ⟨2⟩ = some s ∧
        ((cascade.after [.step 0 []]).step 10 (Event.excursion 10)).1.signal? ⟨2⟩ = some s' ∧
        s'.value ≠ s.value ∧ s'.updated = true := by
  have hk : EngineConfig.cascade.KeepsFlag ⟨2⟩ (Event.excursion 10) := ⟨by decide, by decide⟩
  have hs : (cascade.after [.step 0 []]).signal? ⟨2⟩ = some ⟨0, .ok, 0, 50000, true⟩ := by
    decide +kernel
  have hs' : ((cascade.after [.step 0 []]).step 10 (Event.excursion 10)).1.signal? ⟨2⟩ =
      some ⟨9000, .ok, 10, 50000, true⟩ := by decide +kernel
  exact ⟨build_cascade, hk, _, _, hs, hs', by decide,
    updated_of_changed build_cascade [.step 0 []] 10 hk hs hs' (by decide)⟩

-- of two equal events the second finds the value that it brings
example : (EngineConfig.empty.toEngine.step 20 [.ok ⟨3⟩ 42 10, .ok ⟨3⟩ 42 20]).1.signal? ⟨3⟩ =
    some ⟨42, .ok, 20, 0, false⟩ := by decide +kernel

/-- An event brings a command and another one its value for the output. The
output settles on the value that it finds, and takes back the flag. -/
theorem change_unflagged :
    ∃ e s s', EngineConfig.settling.build = .ok e ∧ e.signal? ⟨8⟩ = some s ∧
      (e.step 10 [.ok ⟨5⟩ 42 10, .ok ⟨8⟩ 42 10]).1.signal? ⟨8⟩ = some s' ∧
      s'.value ≠ s.value ∧ s'.updated = false :=
  ⟨EngineConfig.settling.toEngine, .zero, ⟨42, .ok, 10, 0, false⟩, rfl, by decide +kernel,
    by decide +kernel, by decide, rfl⟩

end Engine

end SignalGuard
