import SignalGuard.Proofs.LimpHome
import SignalGuard.Proofs.Phases

/-!
# What the clamps of a scale hold back

A configuration is checked for ordered clamps in its scales and in its limp-home
actions. A degraded scale runs with a mix of both, which nobody has checked.
`Engine.clampsHold_after`: the upper clamp in effect is always respected, the
lower one wherever the mixes are ordered, and clamps are out of order only in a
scale that a monitor degrades by exactly one bound. Such a scale can write
values below its lower clamp (`Engine.clamp_inverted`).
-/

namespace SignalGuard

-- by cases: an instance that tries every word would not finish
instance : (lo hi : Option Int32) → Decidable (ClampOrdered lo hi)
  | some l, some h => decidable_of_iff (l ≤ h) (by simp [ClampOrdered])
  | none, _ => .isTrue (by simp [ClampOrdered])
  | some _, none => .isTrue (by simp [ClampOrdered])

-- ---------------------------------------------------------------------------
-- One scale
-- ---------------------------------------------------------------------------

namespace Scale

variable {s : Scale} {lo hi : Option Int32} {now : Time} {t : SignalTable}

theorem clamp_le {h : Int32} (hh : h ∈ hi) (value : Int32) : clamp lo hi value ≤ h := by
  cases hh
  exact Std.min_le_right

theorem le_raised (value l : Int32) : l ≤ max value l := by
  show l ≤ if value ≤ l then l else value
  split
  · exact Int32.le_refl l
  · next h => exact Int32.le_of_lt (Int32.not_le.mp h)

theorem le_clamp {l : Int32} (hl : l ∈ lo) (ho : ClampOrdered lo hi) (value : Int32) :
    l ≤ clamp lo hi value := by
  cases hl
  have hraised := le_raised value l
  cases hi with
  | none => exact hraised
  | some h => exact Std.le_min_iff.mpr ⟨hraised, ho l rfl h rfl⟩

/-- The value that a run of the scale writes. A source that is not `ok` hands
on its status and no value. -/
def written? (s : Scale) (now : Time) (t : SignalTable) : Option Int32 :=
  match t.get? s.input with
  | none => none
  | some source =>
    if source.status.isOk then ((s.run now t).get? s.output).map (·.value) else none

theorem written_eq_apply {value : Int32} (hw : s.written? now t = some value) :
    ∃ raw, value = s.apply raw := by
  unfold written? at hw
  split at hw
  · cases hw
  · next source hsource =>
    split at hw
    · next hok =>
      have hrun : (s.run now t).get? s.output = (t.get? s.output).map fun out =>
          { out with value := s.apply source.value, status := .ok, timestamp := now,
                     updated := true } := by
        simp [run, SignalTable.relay, hsource, hok, SignalTable.get?_modify]
      rw [hrun, Option.map_map] at hw
      obtain ⟨out, -, rfl⟩ := Option.map_eq_some_iff.mp hw
      exact ⟨source.value, rfl⟩
    · cases hw

theorem written_le {value h : Int32} (hw : s.written? now t = some value) (hh : h ∈ s.clampMax) :
    value ≤ h := by
  obtain ⟨raw, rfl⟩ := written_eq_apply hw
  exact clamp_le hh _

theorem le_written {value l : Int32} (hw : s.written? now t = some value)
    (ho : ClampOrdered s.clampMin s.clampMax) (hl : l ∈ s.clampMin) : l ≤ value := by
  obtain ⟨raw, rfl⟩ := written_eq_apply hw
  exact le_clamp hl ho _

end Scale

/-- The action overrides one of the clamps and leaves the other one as it is. -/
def LimpAction.Mixes (a : LimpAction) : Prop := a.clampMin.isSome ≠ a.clampMax.isSome

theorem LimpAction.degrade_ordered {a : LimpAction} {p : ScaleParams} (hm : ¬a.Mixes)
    (ha : ClampOrdered a.clampMin a.clampMax) (hp : ClampOrdered p.clampMin p.clampMax) :
    ClampOrdered (a.degrade p).clampMin (a.degrade p).clampMax := by
  unfold Mixes at hm
  unfold degrade
  cases hlo : a.clampMin with
  | none =>
    cases hhi : a.clampMax with
    | none => exact hp
    | some h => simp [hlo, hhi] at hm
  | some l =>
    cases hhi : a.clampMax with
    | none => simp [hlo, hhi] at hm
    | some h => rwa [hlo, hhi] at ha

-- ---------------------------------------------------------------------------
-- Scales in a step
-- ---------------------------------------------------------------------------

theorem runScales_append (ss ss' : List Scale) (now : Time) (t : SignalTable) :
    runScales (ss ++ ss') now t = runScales ss' now (runScales ss now t) := by
  simp [runScales]

namespace Engine

/-- The table on which the scale at position `j` runs. -/
def scaleTable (e : Engine) (now : Time) (events : List Event) (j : Nat) : SignalTable :=
  runScales ((e.step now events).1.scales.take j) now
    (runRemaps e.remaps now (e.monitored now events).2.table)

/-- It lies between the scales before and those after this one. -/
theorem transformed_scaleTable {e : Engine} {now : Time} {events : List Event} {j : Nat} {s : Scale}
    (hs : (e.step now events).1.scales[j]? = some s) :
    e.transformed now events = runScales ((e.step now events).1.scales.drop (j + 1)) now
      (runScales [s] now (e.scaleTable now events j)) := by
  obtain ⟨hlt, rfl⟩ := List.getElem?_eq_some_iff.mp hs
  rw [scaleTable, ← runScales_append, ← runScales_append, List.singleton_append,
    List.getElem_cons_drop, List.take_append_drop]
  rfl

def scaleWrites? (e : Engine) (now : Time) (events : List Event) (j : Nat) : Option Int32 :=
  ((e.step now events).1.scales[j]?.filter (·.enabled)).bind fun s =>
    s.written? now (e.scaleTable now events j)

end Engine

-- ---------------------------------------------------------------------------
-- Engines
-- ---------------------------------------------------------------------------

/-- Every limp-home action leaves its scale with ordered clamps. -/
def EngineConfig.MixesOrdered (c : EngineConfig) : Prop :=
  ∀ m ∈ c.monitors, ∀ a ∈ m.config.limp, ∀ own ∈ c.scales[a.targetScale.toNat]?,
    ClampOrdered (a.degrade own.params).clampMin (a.degrade own.params).clampMax

instance (c : EngineConfig) : Decidable c.MixesOrdered :=
  inferInstanceAs (Decidable (∀ m ∈ c.monitors, ∀ a ∈ m.config.limp,
    ∀ own ∈ c.scales[a.targetScale.toNat]?,
      ClampOrdered (a.degrade own.params).clampMin (a.degrade own.params).clampMax))

namespace Engine

variable {c : EngineConfig} {e : Engine}

theorem LimpHome.own_or_degraded (h : e.LimpHome c) {j : Nat} {s : Scale}
    (hs : e.scales[j]? = some s) :
    c.scales[j]? = some s ∨ ∃ m ∈ e.monitors, ∃ a own, m.Degrades j a own.params ∧
      c.scales[j]? = some own ∧ s = own.setParams (a.degrade own.params) := by
  by_cases hd : ∃ m ∈ e.monitors, ∃ a saved, m.Degrades j a saved
  · obtain ⟨m, hm, a, saved, hd⟩ := hd
    obtain ⟨own, hown, hs', rfl⟩ := (h.accounts m hm).degrades hd
    exact .inr ⟨m, hm, a, own, hd, hown, Option.some.inj (hs.symm.trans hs')⟩
  · push Not at hd
    refine .inl (Eq.trans (Eq.symm ?_) hs)
    by_cases hj : some j ∈ e.monitors.map Monitor.target?
    · obtain ⟨m, hm, ht⟩ := List.mem_map.mp hj
      exact (h.accounts m hm).idle ht (hd m hm)
    · exact h.other j hj

/-- What the clamps in effect promise in an engine of the configuration. -/
structure ClampsHold (c : EngineConfig) (e : Engine) : Prop where
  ordered : c.MixesOrdered → ∀ s ∈ e.scales, ClampOrdered s.clampMin s.clampMax
  mixed : ∀ (j : Nat) (s : Scale), e.scales[j]? = some s → ¬ClampOrdered s.clampMin s.clampMax →
    ∃ m ∈ e.monitors, ∃ a saved, m.Degrades j a saved ∧ a.Mixes
  upper : ∀ now events (j : Nat) s value, (e.step now events).1.scales[j]? = some s →
    e.scaleWrites? now events j = some value → ∀ h ∈ s.clampMax, value ≤ h
  lower : c.MixesOrdered → ∀ now events (j : Nat) s value,
    (e.step now events).1.scales[j]? = some s →
    e.scaleWrites? now events j = some value → ∀ l ∈ s.clampMin, l ≤ value

theorem LimpHome.clampOrdered (h : e.LimpHome c) (hc : e.ConfiguredBy c) (hv : c.Valid)
    (hmix : c.MixesOrdered) {s : Scale} (hs : s ∈ e.scales) :
    ClampOrdered s.clampMin s.clampMax := by
  obtain ⟨j, hj⟩ := List.mem_iff_getElem?.mp hs
  rcases h.own_or_degraded hj with hown | ⟨m, hm, a, own, ⟨ha, rfl, -⟩, hown, rfl⟩
  · exact (hv.scales s (List.mem_of_getElem? hown)).clamp
  · exact hmix m.entry (hc.monitors ▸ List.mem_map_of_mem hm) a ha own hown

theorem LimpHome.mixed (h : e.LimpHome c) (hc : e.ConfiguredBy c) (hv : c.Valid) {j : Nat}
    {s : Scale} (hj : e.scales[j]? = some s) (hs : ¬ClampOrdered s.clampMin s.clampMax) :
    ∃ m ∈ e.monitors, ∃ a saved, m.Degrades j a saved ∧ a.Mixes := by
  rcases h.own_or_degraded hj with hown | ⟨m, hm, a, own, hd, hown, rfl⟩
  · exact absurd (hv.scales s (List.mem_of_getElem? hown)).clamp hs
  · refine ⟨m, hm, a, own.params, hd, Classical.byContradiction fun hmix => hs ?_⟩
    exact LimpAction.degrade_ordered hmix ((hc.monitor_valid hv hm).limp a hd.1).clamp
      (hv.scales own (List.mem_of_getElem? hown)).clamp

theorem scaleWrites_eq_written {now : Time} {events : List Event} {j : Nat} {s : Scale}
    {value : Int32} (hs : (e.step now events).1.scales[j]? = some s)
    (hw : e.scaleWrites? now events j = some value) :
    s.written? now (e.scaleTable now events j) = some value := by
  rw [scaleWrites?, hs, Option.filter_some] at hw
  split at hw
  · exact hw
  · cases hw

/-- The clamps in effect hold in every step, whatever went before. The lower one
needs ordered mixes. -/
theorem clampsHold_after (hb : c.build = .ok e) (calls : List Call) :
    (e.after calls).ClampsHold c := by
  obtain ⟨hcheck, rfl⟩ := EngineConfig.build_eq_ok_iff.mp hb
  have hv := EngineConfig.check_eq_ok_iff.mp hcheck
  have hc := configuredBy_after (configuredBy_toEngine c) calls
  have hl := limpHome_after hv calls
  refine ⟨fun hmix s hs => hl.clampOrdered hc hv hmix hs, fun j s hj hs => hl.mixed hc hv hj hs,
    fun now events j s value hs hw h hh => ?_, fun hmix now events j s value hs hw l hl' => ?_⟩
  · exact Scale.written_le (scaleWrites_eq_written hs hw) hh
  · have hstep := hl.step (hc.apart hv) now events
    have hordered := hstep.clampOrdered (hc.step now events) hv hmix (List.mem_of_getElem? hs)
    exact Scale.le_written (scaleWrites_eq_written hs hw) hordered hl'

end Engine

/-- The scale brings an upper clamp of 100, the limp-home action a lower one. -/
def EngineConfig.raising (clampMin : Int32) : EngineConfig :=
  { EngineConfig.empty with
    scales := [(Scale.ofSignals ⟨10⟩ ⟨11⟩).withClamp none (some 100)]
    monitors := [⟨((MonitorConfig.ofSignals ⟨5⟩ ⟨20⟩ .error).withRange 0 5000).withLimp
      ⟨0, none, some clampMin, none, 0⟩, false⟩] }

def Event.raised (value : Int32) : List Event := [.ok ⟨5⟩ 9000 1000, .ok ⟨10⟩ value 1000]

theorem Engine.clampsHold_raised :
    (EngineConfig.raising 50).build = .ok (EngineConfig.raising 50).toEngine ∧
      (EngineConfig.raising 50).MixesOrdered ∧
      (EngineConfig.raising 50).toEngine.scaleWrites? 1000 (Event.raised 20) 0 = some 50 ∧
      ((EngineConfig.raising 50).toEngine.after [.step 1000 (Event.raised 20)]).ClampsHold
        (.raising 50) :=
  have hb : (EngineConfig.raising 50).build = .ok (EngineConfig.raising 50).toEngine :=
    EngineConfig.build_eq_ok_iff.mpr ⟨rfl, rfl⟩
  ⟨hb, by decide +kernel, by decide +kernel, clampsHold_after hb _⟩

/-- Limp-home leaves the scale between 200 and 100, and it writes 100. -/
theorem Engine.clamp_inverted :
    ∃ e s value l, (EngineConfig.raising 200).build = .ok e ∧
      (e.step 1000 (Event.raised 150)).1.scales[0]? = some s ∧
      ¬ClampOrdered s.clampMin s.clampMax ∧
      e.scaleWrites? 1000 (Event.raised 150) 0 = some value ∧ s.clampMin = some l ∧
      ¬l ≤ value := by
  refine ⟨(EngineConfig.raising 200).toEngine, _, 100, 200,
    EngineConfig.build_eq_ok_iff.mpr ⟨rfl, rfl⟩, rfl, ?_⟩
  decide +kernel

end SignalGuard
