import SignalGuard.Proofs.FaultHistory

/-!
# How soon limp-home ends

The engine runs in microseconds, and limp-home compares times that were cut to
milliseconds. The parameters of a scale come back less than a millisecond
before the restore delay is over, and never before it is over if the step that
brings them back lies at least as far into its millisecond as the fault did
(`Engine.exit_after_delay`). The millisecond can be lost: a delay of a
millisecond may be over after a microsecond (`Engine.exit_before_delay`).
-/

namespace SignalGuard

namespace FaultHistory

def Ordered (h : FaultHistory) : Prop := h.Pairwise fun newer older => older.time ≤ newer.time

instance (h : FaultHistory) : Decidable h.Ordered :=
  inferInstanceAs (Decidable (h.Pairwise fun newer older => older.time ≤ newer.time))

theorem Ordered.time_le_lastFault {h : FaultHistory} (ho : h.Ordered) {last s : Sighting}
    (hlast : h.lastFault? = some last) (hs : s ∈ h) (hf : s.faulted = true) :
    s.time ≤ last.time := by
  induction h with
  | nil => cases hs
  | cons newest h ih =>
    obtain ⟨hnewest, ho⟩ := List.pairwise_cons.mp ho
    rw [lastFault?, List.find?_cons] at hlast
    cases hn : newest.faulted with
    | true =>
      simp only [hn, Option.some.injEq] at hlast
      subst hlast
      rcases List.mem_cons.mp hs with rfl | hs
      · exact UInt64.le_refl _
      · exact hnewest s hs
    | false =>
      simp only [hn] at hlast
      rcases List.mem_cons.mp hs with rfl | hs
      · rw [hn] at hf
        cases hf
      · exact ih ho hlast hs

end FaultHistory

theorem LimpAction.step_exit {a : LimpAction} {faulted : Bool} {now : Nat} {l : LimpState}
    {scale : Scale} (h : l.turn? (a.step faulted now l scale).1 = some .exit) :
    ∃ saved lastFault, l = .limp saved lastFault ∧ a.restoreDelay.toNat ≤ now - lastFault := by
  cases l with
  | normal => cases faulted <;> cases h
  | limp saved lastFault =>
    refine ⟨saved, lastFault, rfl, ?_⟩
    cases faulted with
    | true => cases h
    | false =>
      by_cases hdue : a.restoreDelay.toNat ≤ now - lastFault
      · exact hdue
      · simp [step, hdue, LimpState.turn?] at h

namespace Engine

variable {c : EngineConfig} {e : Engine} {i : Nat} {a : LimpAction}

theorem millis_of_exit (hv : c.Valid) {entry : MonitorEntry} (hi : c.monitors[i]? = some entry)
    (he : entry.config.enabled) (ha : entry.config.limp = some a) {calls : List Call}
    (ho : (c.toEngine.history i calls).Ordered) {now : Time} {events : List Event}
    (hexit : ((c.toEngine.after calls).sighting now events i).turn = some .exit) {s : Sighting}
    (hs : s ∈ c.toEngine.history i calls) (hf : s.faulted) :
    a.restoreDelay.toNat ≤ now.toNat / 1000 - s.millis := by
  have hc := configuredBy_after (configuredBy_toEngine c) calls
  obtain ⟨m, hm, rfl, ht⟩ := tracks_after hv hi he ha calls
  obtain ⟨scale, hm'⟩ := hc.monitor_step hv hm he ha now events
  simp only [sighting, hm, hm', Option.bind_some, Monitor.turn?] at hexit
  obtain ⟨saved, lastFault, hlimp, hdue⟩ := LimpAction.step_exit hexit
  have hfollows := ht.limp
  rw [hlimp] at hfollows
  obtain ⟨last, hlast, rfl⟩ := hfollows
  have hle : s.millis ≤ last.millis :=
    Nat.div_le_div_right (UInt64.le_iff_toNat_le.mp (ho.time_le_lastFault hlast.1 hs hf))
  omega

/-- The parameters come back less than a millisecond too early, and not too
early if the fault lay no further into its millisecond than the step does. -/
theorem exit_after_delay (hb : c.build = .ok e) {entry : MonitorEntry}
    (hi : c.monitors[i]? = some entry) (he : entry.config.enabled)
    (ha : entry.config.limp = some a) {calls : List Call} (ho : (e.history i calls).Ordered)
    {now : Time} {events : List Event}
    (hexit : ((e.after calls).sighting now events i).turn = some .exit) :
    ∀ s ∈ e.history i calls, s.faulted →
      1000 * a.restoreDelay.toNat < now.toNat - s.time.toNat + 1000 ∧
        (s.time.toNat % 1000 ≤ now.toNat % 1000 →
          1000 * a.restoreDelay.toNat ≤ now.toNat - s.time.toNat) := by
  intro s hs hf
  obtain ⟨hcheck, rfl⟩ := EngineConfig.build_eq_ok_iff.mp hb
  have hv := EngineConfig.check_eq_ok_iff.mp hcheck
  have hmillis := millis_of_exit hv hi he ha ho hexit hs hf
  rw [Sighting.millis] at hmillis
  constructor
  · omega
  · intro haligned
    omega

/-- The fault recurs, and the delay is over to the microsecond. -/
theorem exit_after_blip :
    EngineConfig.cascade.build = .ok cascade ∧
      ∃ entry a, EngineConfig.cascade.monitors[0]? = some entry ∧ entry.config.enabled ∧
        entry.config.limp = some a ∧
        ∃ calls, calls = [.step 500 (Event.excursion 500), .step 40500 (Event.calm 40500),
            .step 90500 (Event.excursion 90500)] ∧
          (cascade.history 0 calls).Ordered ∧
          ((cascade.after calls).sighting 190500 (Event.calm 190500) 0).turn = some .exit ∧
          ∀ s ∈ cascade.history 0 calls, s.faulted →
            1000 * a.restoreDelay.toNat < 190500 - s.time.toNat + 1000 ∧
              (s.time.toNat % 1000 ≤ 190500 % 1000 →
                1000 * a.restoreDelay.toNat ≤ 190500 - s.time.toNat) := by
  refine ⟨build_cascade, _, _, rfl, rfl, rfl, _, rfl, ?_⟩
  have ho : (cascade.history 0 [.step 500 (Event.excursion 500),
      .step 40500 (Event.calm 40500), .step 90500 (Event.excursion 90500)]).Ordered := by
    decide +kernel
  have hexit : ((cascade.after [.step 500 (Event.excursion 500), .step 40500 (Event.calm 40500),
      .step 90500 (Event.excursion 90500)]).sighting 190500 (Event.calm 190500) 0).turn =
        some .exit := by
    decide +kernel
  exact ⟨ho, hexit, exit_after_delay (i := 0) build_cascade rfl rfl rfl ho hexit⟩

end Engine

def EngineConfig.hasty : EngineConfig :=
  { EngineConfig.empty with
    scales := [(Scale.ofSignals ⟨10⟩ ⟨11⟩).withFactor 100]
    monitors := [⟨((MonitorConfig.ofSignals ⟨5⟩ ⟨20⟩ .error).withRange 0 5000).withLimp
      (.scaleTo 0 50 1), false⟩] }

/-- The fault of 999 µs is over at 1000 µs, and so is the delay of 1000 µs. -/
theorem Engine.exit_before_delay :
    ∃ e entry a, EngineConfig.hasty.build = .ok e ∧
      EngineConfig.hasty.monitors[0]? = some entry ∧ entry.config.enabled ∧
      entry.config.limp = some a ∧
      (e.history 0 [.step 999 [.ok ⟨5⟩ 9000 999], .step 1000 [.ok ⟨5⟩ 100 1000]]).Ordered ∧
      ((e.after [.step 999 [.ok ⟨5⟩ 9000 999]]).sighting 1000 [.ok ⟨5⟩ 100 1000] 0).turn =
        some .exit ∧
      ∃ s ∈ e.history 0 [.step 999 [.ok ⟨5⟩ 9000 999]], s.faulted ∧
        ¬1000 * a.restoreDelay.toNat ≤ 1000 - s.time.toNat := by
  refine ⟨EngineConfig.hasty.toEngine, _, _, EngineConfig.build_eq_ok_iff.mpr ⟨rfl, rfl⟩, rfl, rfl,
    rfl, ?_⟩
  decide +kernel

end SignalGuard
