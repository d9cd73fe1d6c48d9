import SignalGuard.Proofs.History

/-!
# Who owns the parameters of a scale

A limp-home action overrides the parameters of its scale and keeps the scale's
own ones with the monitor. `Monitor.Accounts` says for one monitor that the
scale and what was kept agree with the configuration. A visit preserves it
(`visit_accounts`) and leaves every scale but its target alone
(`visit_scales_other`). Since no two monitors share a target, a whole pass
preserves it for all monitors at once, and so does every history.
-/

namespace SignalGuard

-- ---------------------------------------------------------------------------
-- One action and its scale
-- ---------------------------------------------------------------------------

/-- The limp state and the scale that belong together, for a scale as
configured. -/
inductive LimpAction.Paired (a : LimpAction) (own : Scale) : LimpState → Scale → Prop
  | normal : Paired a own .normal own
  | limp (lastFault : Nat) :
      Paired a own (.limp own.params lastFault) (own.setParams (a.degrade own.params))

theorem LimpAction.Paired.step {a : LimpAction} {own scale : Scale} {l : LimpState}
    (h : a.Paired own l scale) (faulted : Bool) (now : Nat) :
    a.Paired own (a.step faulted now l scale).1 (a.step faulted now l scale).2 := by
  cases h with
  | normal =>
    cases faulted
    · exact .normal
    · exact .limp now
  | limp lastFault =>
    dsimp only [LimpAction.step]
    split
    · exact .limp now
    · split
      · rw [Scale.setParams_setParams, Scale.setParams_params]
        exact .normal
      · exact .limp lastFault

-- ---------------------------------------------------------------------------
-- One monitor
-- ---------------------------------------------------------------------------

namespace Monitor

/-- Position of the scale that the monitor degrades. -/
def target? (m : Monitor) : Option Nat := m.config.limp.map (·.targetScale.toNat)

/-- The monitor's state and the scales agree with the configured scales. -/
def Accounts (own scales : List Scale) (m : Monitor) : Prop :=
  match m.config.limp with
  | none => m.limp = .normal
  | some a => ∃ s s', own[a.targetScale.toNat]? = some s ∧ scales[a.targetScale.toNat]? = some s' ∧
      a.Paired s m.limp s'

variable {own scales : List Scale} {m : Monitor}

/-- The property depends on no scale but the target of the monitor. -/
def Framed (P : List Scale → Monitor → Prop) : Prop :=
  ∀ m scales scales', (∀ j, m.target? = some j → scales'[j]? = scales[j]?) →
    P scales m → P scales' m

theorem framed_accounts (own : List Scale) : Framed (Accounts own) := by
  intro m scales scales' heq h
  unfold Accounts at h ⊢
  split
  · next hl => simpa [hl] using h
  · next a hl =>
    simp only [hl] at h
    obtain ⟨s, s', hs, hs', hp⟩ := h
    exact ⟨s, s', hs, (heq _ (by simp [target?, hl])).trans hs', hp⟩

theorem accounts_ofConfig {config : MonitorConfig} {hasWake : Bool}
    (h : ∀ a ∈ config.limp, a.targetScale.toNat < own.length) :
    (ofConfig config hasWake).Accounts own own := by
  unfold Accounts
  split
  · rfl
  · next a hl =>
    have hlt := h a hl
    exact ⟨_, _, List.getElem?_eq_getElem hlt, List.getElem?_eq_getElem hlt, .normal⟩

theorem limpStep_accounts (h : m.Accounts own scales) (faulted : Bool) (now : Time) (f : Bool) :
    ({ m with faulted := f, limp := (m.limpStep faulted now scales).1 } : Monitor).Accounts own
      (m.limpStep faulted now scales).2 := by
  unfold Accounts at h ⊢
  unfold limpStep
  cases hl : m.config.limp with
  | none => simpa [hl] using h
  | some a =>
    simp only [hl] at h ⊢
    obtain ⟨s, s', hs, hs', hp⟩ := h
    obtain ⟨hlt, -⟩ := List.getElem?_eq_some_iff.mp hs'
    simp only [hs']
    exact ⟨s, _, hs, List.getElem?_set_self hlt, hp.step faulted (now.toNat / 1000)⟩

theorem limpStep_other {j : Nat} (hj : m.target? ≠ some j) (faulted : Bool) (now : Time) :
    (m.limpStep faulted now scales).2[j]? = scales[j]? := by
  unfold limpStep
  split
  · rfl
  · next a hl =>
    split
    · rfl
    · refine List.getElem?_set_ne fun heq => hj ?_
      simp [target?, hl, heq]

variable {p : MonitorPass}

theorem visit_accounts (h : m.Accounts own p.scales) (now : Time) (index : Nat) :
    (m.visit now index p).1.Accounts own (m.visit now index p).2.scales := by
  cases he : m.config.enabled with
  | false => rwa [visit_idle now index (.inl he)]
  | true =>
    cases hw : p.table.get? m.config.watched with
    | none => rwa [visit_idle now index (.inr hw)]
    | some watched =>
      rw [visit_monitor now index he hw, visit_scales now index he hw]
      exact limpStep_accounts h _ now _

theorem visit_scales_other {j : Nat} (hj : m.target? ≠ some j) (now : Time) (index : Nat) :
    (m.visit now index p).2.scales[j]? = p.scales[j]? := by
  cases he : m.config.enabled with
  | false => rw [visit_idle now index (.inl he)]
  | true =>
    cases hw : p.table.get? m.config.watched with
    | none => rw [visit_idle now index (.inr hw)]
    | some watched =>
      rw [visit_scales now index he hw]
      exact limpStep_other hj _ now

theorem visit_target? (now : Time) (index : Nat) (m : Monitor) (p : MonitorPass) :
    (m.visit now index p).1.target? = m.target? := by
  simp only [target?, visit_config]

/-- Releasing a monitor brings back its own scale and nothing else. -/
theorem getElem?_release (h : m.Accounts own scales) (j : Nat) :
    (m.release scales)[j]? = if m.target? = some j then own[j]? else scales[j]? := by
  unfold Accounts at h
  cases hl : m.config.limp with
  | none =>
    simp only [hl] at h
    simp [release, target?, hl, h]
  | some a =>
    simp only [hl] at h
    obtain ⟨s, s', hs, hs', hp⟩ := h
    generalize hm : m.limp = l at hp
    cases hp with
    | normal =>
      simp only [release, hm, target?, hl, Option.map_some, Option.some.injEq]
      split
      · next hj => rw [← hj, hs, hs']
      · rfl
    | limp lastFault =>
      simp only [release, hm, hl, target?, Option.map_some, Option.some.injEq,
        List.getElem?_modify]
      split
      · next hj =>
        subst hj
        rw [hs', hs]
        simp
      · simp

-- ---------------------------------------------------------------------------
-- All monitors
-- ---------------------------------------------------------------------------

/-- The monitors do not degrade the same scale. -/
def Apart (m n : Monitor) : Prop := ∀ j, m.target? = some j → n.target? ≠ some j

theorem apart_iff {m n : Monitor} : m.Apart n ↔ m.config.LimpApart n.config := by
  simp only [Apart, target?, MonitorConfig.LimpApart]
  cases m.config.limp <;> cases n.config.limp <;> simp [eq_comm, UInt8.toNat_inj]

theorem sweepFrom_scales_other {ms : List Monitor} {j : Nat} (hj : ∀ m ∈ ms, m.target? ≠ some j)
    (now : Time) (i : Nat) : (sweepFrom (visit now) i ms p).2.scales[j]? = p.scales[j]? := by
  induction ms generalizing i p with
  | nil => rfl
  | cons m ms ih =>
    obtain ⟨hm, hms⟩ := List.forall_mem_cons.mp hj
    rw [sweepFrom_cons, ih hms, visit_scales_other hm now i]

/-- What a visit brings about for its monitor out of the scales, a pass brings
about for every monitor. -/
theorem sweepFrom_each {P Q : List Scale → Monitor → Prop} (hP : Framed P) (hQ : Framed Q)
    {now : Time} (hvisit : ∀ i m p, P p.scales m → Q (visit now i m p).2.scales (visit now i m p).1)
    (i : Nat) {ms : List Monitor} (ha : ms.Pairwise Apart) (h : ∀ m ∈ ms, P p.scales m) :
    ∀ m ∈ (sweepFrom (visit now) i ms p).1, Q (sweepFrom (visit now) i ms p).2.scales m := by
  induction ms generalizing i p with
  | nil => simp
  | cons m ms ih =>
    obtain ⟨hm, ha⟩ := List.pairwise_cons.mp ha
    obtain ⟨hfirst, hlater⟩ := List.forall_mem_cons.mp h
    rw [sweepFrom_cons, List.forall_mem_cons]
    -- the visit to `m` is outside the targets of the others, and they of its own
    constructor
    · refine hQ _ _ _ (fun j hj => sweepFrom_scales_other (fun n hn => ?_) now (i + 1))
        (hvisit i m p hfirst)
      rw [visit_target?] at hj
      exact hm n hn j hj
    · refine ih (i + 1) ha fun n hn => hP _ _ _ (fun j hj => ?_) (hlater n hn)
      exact visit_scales_other (fun hmj => hm n hn j hmj hj) now i

theorem foldl_release {ms : List Monitor} (ha : ms.Pairwise Apart)
    (h : ∀ m ∈ ms, m.Accounts own scales)
    (hother : ∀ j, (∀ m ∈ ms, m.target? ≠ some j) → scales[j]? = own[j]?) :
    ms.foldl (fun scales m => m.release scales) scales = own := by
  induction ms generalizing scales with
  | nil => exact List.ext_getElem? fun j => hother j (by simp)
  | cons m ms ih =>
    obtain ⟨hm, ha⟩ := List.pairwise_cons.mp ha
    have hrel := getElem?_release (h m List.mem_cons_self)
    refine ih ha (fun n hn => ?_) fun j hj => ?_
    · refine framed_accounts own _ _ _ (fun j hj => ?_) (h n (List.mem_cons_of_mem _ hn))
      rw [hrel, if_neg fun hmj => hm n hn j hmj hj]
    · rw [hrel]
      split
      · rfl
      · next hmj =>
        refine hother j fun n hn => ?_
        rcases List.mem_cons.mp hn with rfl | hn
        · exact hmj
        · exact hj n hn

end Monitor

-- ---------------------------------------------------------------------------
-- Engines
-- ---------------------------------------------------------------------------

namespace Engine

variable {c : EngineConfig} {e : Engine}

theorem ConfiguredBy.apart (h : e.ConfiguredBy c) (hv : c.Valid) :
    e.monitors.Pairwise Monitor.Apart := by
  have hl := hv.limpTargets
  rw [← h.monitors, List.map_map, List.pairwise_map] at hl
  exact hl.imp Monitor.apart_iff.mpr

/-- Every monitor accounts for its scale, and the other scales are the
configured ones. -/
structure LimpHome (c : EngineConfig) (e : Engine) : Prop where
  accounts : ∀ m ∈ e.monitors, m.Accounts c.scales e.scales
  other : ∀ j, some j ∉ e.monitors.map Monitor.target? → e.scales[j]? = c.scales[j]?

theorem limpHome_toEngine (hv : c.Valid) : c.toEngine.LimpHome c where
  accounts := by
    simp only [EngineConfig.toEngine, List.mem_map]
    rintro _ ⟨entry, hentry, rfl⟩
    exact Monitor.accounts_ofConfig fun a ha => ((hv.monitors entry hentry).limp a ha).target
  other := fun _ _ => rfl

theorem LimpHome.step (h : e.LimpHome c) (ha : e.monitors.Pairwise Monitor.Apart) (now : Time)
    (events : List Event) : (e.step now events).1.LimpHome c := by
  have hframed := Monitor.framed_accounts c.scales
  refine ⟨Monitor.sweepFrom_each (p := ⟨_, e.scales, _, _⟩) hframed hframed
    (fun i m p hm => Monitor.visit_accounts hm now i) 0 ha h.accounts, fun j hj => ?_⟩
  have htargets : (e.step now events).1.monitors.map Monitor.target? =
      e.monitors.map Monitor.target? := map_sweepFrom (Monitor.visit_target? now) 0 _ _
  rw [htargets] at hj
  refine Eq.trans (Monitor.sweepFrom_scales_other (fun m hm hmj => hj ?_) now 0) (h.other j hj)
  exact hmj ▸ List.mem_map_of_mem hm

theorem LimpHome.reset_scales (h : e.LimpHome c) (ha : e.monitors.Pairwise Monitor.Apart) :
    e.reset.scales = c.scales :=
  Monitor.foldl_release ha h.accounts fun j hj => h.other j fun hmem => by
    obtain ⟨m, hm, hmj⟩ := List.mem_map.mp hmem
    exact hj m hm hmj

theorem LimpHome.reset (h : e.LimpHome c) (hc : e.ConfiguredBy c) (hv : c.Valid) :
    e.reset.LimpHome c := by
  have hscales := h.reset_scales (hc.apart hv)
  refine ⟨fun m hm => ?_, fun j _ => by rw [hscales]⟩
  obtain ⟨n, hn, rfl⟩ := List.mem_map.mp hm
  rw [hscales, Monitor.reset]
  exact Monitor.accounts_ofConfig fun a ha => ((hc.monitor_valid hv hn).limp a ha).target

/-- What every history of a built engine keeps. -/
theorem limpHome_after (hv : c.Valid) (calls : List Call) :
    (c.toEngine.after calls).LimpHome c := by
  refine (after_induction (P := fun e => e.ConfiguredBy c ∧ e.LimpHome c)
    ⟨configuredBy_toEngine c, limpHome_toEngine hv⟩ ?_ calls).2
  rintro e call ⟨hc, h⟩
  refine ⟨hc.answer call, ?_⟩
  cases call with
  | step now events => exact h.step (hc.apart hv) now events
  | set id value now => exact ⟨h.accounts, h.other⟩
  | reset => exact h.reset hc hv

end Engine

-- ---------------------------------------------------------------------------
-- Ownership
-- ---------------------------------------------------------------------------

/-- The monitor runs the scale at position `j` degraded and keeps its
parameters. -/
def Monitor.Degrades (m : Monitor) (j : Nat) (a : LimpAction) (saved : ScaleParams) : Prop :=
  m.config.limp = some a ∧ a.targetScale.toNat = j ∧ ∃ lastFault, m.limp = .limp saved lastFault

theorem Monitor.Accounts.degrades {own scales : List Scale} {m : Monitor}
    (h : m.Accounts own scales) {j : Nat} {a : LimpAction} {saved : ScaleParams}
    (hd : m.Degrades j a saved) :
    ∃ s, own[j]? = some s ∧ scales[j]? = some (s.setParams (a.degrade s.params)) ∧
      saved = s.params := by
  obtain ⟨ha, rfl, lastFault, hl⟩ := hd
  simp only [Accounts, ha, hl] at h
  obtain ⟨s, s', hs, hs', hp⟩ := h
  cases hp
  exact ⟨s, hs, hs', rfl⟩

theorem Monitor.Accounts.idle {own scales : List Scale} {m : Monitor} (h : m.Accounts own scales)
    {j : Nat} (ht : m.target? = some j) (hd : ∀ a saved, ¬m.Degrades j a saved) :
    scales[j]? = own[j]? := by
  obtain ⟨a, ha, rfl⟩ := Option.map_eq_some_iff.mp ht
  simp only [Accounts, ha] at h
  obtain ⟨s, s', hs, hs', hp⟩ := h
  generalize hl : m.limp = l at hp
  cases hp with
  | normal => rw [hs, hs']
  | limp lastFault => exact absurd ⟨ha, rfl, lastFault, hl⟩ (hd a s.params)

/-- The scales are the configured ones, with the parameters overridden exactly
where a monitor degrades the scale. That monitor keeps the configured ones. -/
structure Engine.OwnsScales (c : EngineConfig) (e : Engine) : Prop where
  monitors : e.monitors.map Monitor.entry = c.monitors
  length : e.scales.length = c.scales.length
  fixed : ∀ (j : Nat) (s s' : Scale), c.scales[j]? = some s → e.scales[j]? = some s' →
    s'.input = s.input ∧ s'.output = s.output ∧ s'.offset = s.offset ∧ s'.enabled = s.enabled
  degraded : ∀ (j : Nat) (s s' : Scale), c.scales[j]? = some s → e.scales[j]? = some s' →
    ∀ m ∈ e.monitors, ∀ a saved, m.Degrades j a saved →
      s'.params = a.degrade s.params ∧ saved = s.params
  own : ∀ (j : Nat) (s s' : Scale), c.scales[j]? = some s → e.scales[j]? = some s' →
    (∀ m ∈ e.monitors, ∀ a saved, ¬m.Degrades j a saved) → s'.params = s.params

theorem Engine.LimpHome.ownsScales {c : EngineConfig} {e : Engine} (h : e.LimpHome c)
    (hc : e.ConfiguredBy c) : e.OwnsScales c where
  monitors := hc.monitors
  length := by simpa using congrArg List.length hc.scales
  fixed := by
    intro j s s' hs hs'
    have hfixed := congrArg (·[j]?) hc.scales
    simp only [List.getElem?_map, hs, hs', Option.map_some, Option.some.injEq] at hfixed
    simpa [Scale.fixed, Scale.setParams] using hfixed
  degraded := by
    intro j s s' hs hs' m hm a saved hd
    obtain ⟨t, ht, ht', rfl⟩ := (h.accounts m hm).degrades hd
    obtain rfl : t = s := Option.some.inj (ht.symm.trans hs)
    obtain rfl := Option.some.inj (ht'.symm.trans hs')
    exact ⟨rfl, rfl⟩
  own := by
    intro j s s' hs hs' hd
    have heq : e.scales[j]? = c.scales[j]? := by
      by_cases hj : some j ∈ e.monitors.map Monitor.target?
      · obtain ⟨m, hm, ht⟩ := List.mem_map.mp hj
        exact (h.accounts m hm).idle ht (hd m hm)
      · exact h.other j hj
    rw [hs, hs'] at heq
    rw [Option.some.inj heq]

/-- No history of calls loses or corrupts the parameters of a scale. -/
theorem Engine.ownsScales_after {c : EngineConfig} {e : Engine} (hb : c.build = .ok e)
    (calls : List Call) : (e.after calls).OwnsScales c := by
  obtain ⟨hcheck, rfl⟩ := EngineConfig.build_eq_ok_iff.mp hb
  have hv := EngineConfig.check_eq_ok_iff.mp hcheck
  exact (limpHome_after hv calls).ownsScales (configuredBy_after (configuredBy_toEngine c) calls)

def EngineConfig.twoLimpHomes : EngineConfig :=
  let monitor (watched output target : UInt8) (factor : Int32) : MonitorEntry :=
    ⟨((MonitorConfig.ofSignals ⟨watched⟩ ⟨output⟩ .error).withRange 0 5000).withLimp
      (.scaleTo target factor 100), false⟩
  { EngineConfig.empty with
    scales := [(Scale.ofSignals ⟨10⟩ ⟨11⟩).withFactor 100,
      (Scale.ofSignals ⟨12⟩ ⟨13⟩).withFactor 200]
    monitors := [monitor 5 20 0 50, monitor 6 21 1 20] }

/-- The second fault begins before the first one is over and outlasts it. -/
def Call.overlapping : List Call :=
  [.step 0 [.ok ⟨5⟩ 9000 0], .step 10000 [.ok ⟨6⟩ 9000 10000], .step 20000 [.ok ⟨5⟩ 100 20000],
    .step 200000 []]

theorem Engine.ownsScales_overlapping :
    EngineConfig.twoLimpHomes.build = .ok EngineConfig.twoLimpHomes.toEngine ∧
      (EngineConfig.twoLimpHomes.toEngine.after Call.overlapping).scales.map Scale.scaleFactor =
        [100, 20] ∧
      (EngineConfig.twoLimpHomes.toEngine.after Call.overlapping).OwnsScales .twoLimpHomes :=
  have hb : EngineConfig.twoLimpHomes.build = .ok EngineConfig.twoLimpHomes.toEngine :=
    EngineConfig.build_eq_ok_iff.mpr ⟨rfl, rfl⟩
  ⟨hb, by decide +kernel, ownsScales_after hb Call.overlapping⟩

end SignalGuard
