import SignalGuard.Description.Build
import SignalGuard.Proofs.Results
import SignalGuard.Proofs.Validity

/-!
# Which descriptions are accepted

`EngineDescription.Valid` says what an acceptable description is, without an
order of checks. The description's own checks are the schema version, the
signals and the number of merge inputs; they decide about the list of merges,
and what they leave is the check of a configuration.
`EngineDescription.accepted_iff_valid`: the validation passes exactly the valid
descriptions, and listeners to the monitors change nothing about that.
-/

namespace SignalGuard

-- ---------------------------------------------------------------------------
-- Merges
-- ---------------------------------------------------------------------------

namespace MergeDescription

structure Valid (d : MergeDescription) : Prop where
  inputs_fit : 1 ≤ d.inputs.length ∧ d.inputs.length ≤ 8
  inputs : ∀ id ∈ d.inputs, id.isValid
  output : d.output.isValid
  output_not_input : d.output ∉ d.inputs
  quorum : ∀ q ∈ d.majorityQuorum, 1 ≤ q.toNat ∧ q.toNat ≤ d.inputs.length

theorem toMerge_eq_ok_iff {index : Nat} {d : MergeDescription} {m : Merge} :
    d.toMerge index = .ok m ↔ ofMerge m = d := by
  unfold toMerge
  split
  · next hfit =>
    constructor
    · rintro ⟨⟩
      rfl
    · rintro rfl
      rfl
  · next hfit =>
    refine iff_of_false (fun h => nomatch h) ?_
    rintro rfl
    exact hfit m.inputs.property

theorem valid_ofMerge_iff {m : Merge} : (ofMerge m).Valid ↔ m.Valid := by
  constructor
  · rintro ⟨hfit, hin, hout, hnot, hq⟩
    exact ⟨List.ne_nil_of_length_pos hfit.1, hin, hout, hnot, hq⟩
  · rintro ⟨hne, hin, hout, hnot, hq⟩
    exact ⟨⟨List.length_pos_iff.mpr hne, m.inputs.property⟩, hin, hout, hnot, hq⟩

theorem Valid.exists_merge {d : MergeDescription} (h : d.Valid) : ∃ m, ofMerge m = d :=
  ⟨⟨⟨d.inputs, h.inputs_fit.2⟩, d.output, d.method, d.tolerance, d.majorityQuorum, d.enabled⟩, rfl⟩

end MergeDescription

namespace EngineDescription

open MergeDescription (ofMerge toMerge_eq_ok_iff)

theorem toMerges_eq_ok_iff {index : Nat} {ds : List MergeDescription} {ms : List Merge} :
    toMerges index ds = .ok ms ↔ ms.map ofMerge = ds := by
  induction ds generalizing index ms with
  | nil => simp [toMerges, eq_comm]
  | cons d ds ih =>
    simp only [toMerges, Except.bind_eq_ok_iff, toMerge_eq_ok_iff, ih, pure, Except.pure,
      Except.ok.injEq]
    constructor
    · rintro ⟨m, rfl, ms, rfl, rfl⟩
      rfl
    · intro h
      obtain ⟨m, ms, rfl, rfl, rfl⟩ := List.map_eq_cons_iff.mp h
      exact ⟨m, rfl, ms, rfl, rfl⟩

theorem exists_merges_iff {ds : List MergeDescription} :
    (∃ ms : List Merge, ms.map ofMerge = ds ∧ ∀ m ∈ ms, m.Valid) ↔ ∀ d ∈ ds, d.Valid := by
  constructor
  · rintro ⟨ms, rfl, hms⟩
    exact List.forall_mem_map.mpr fun m hm => MergeDescription.valid_ofMerge_iff.mpr (hms m hm)
  · intro h
    induction ds with
    | nil => exact ⟨[], rfl, by simp⟩
    | cons d ds ih =>
      obtain ⟨hd, hds⟩ := List.forall_mem_cons.mp h
      obtain ⟨m, rfl⟩ := hd.exists_merge
      obtain ⟨ms, rfl, hms⟩ := ih hds
      exact ⟨m :: ms, rfl, List.forall_mem_cons.mpr ⟨MergeDescription.valid_ofMerge_iff.mp hd, hms⟩⟩

-- ---------------------------------------------------------------------------
-- Signals
-- ---------------------------------------------------------------------------

/-- The list repeats no entry and has none in use. -/
def Fresh {α : Type} (used entries : List α) : Prop :=
  entries.Nodup ∧ ∀ a ∈ entries, a ∉ used

theorem fresh_nil_iff {α : Type} {entries : List α} : Fresh [] entries ↔ entries.Nodup := by
  simp [Fresh]

theorem fresh_cons_iff {α : Type} {used entries : List α} {a : α} :
    Fresh used (a :: entries) ↔ a ∉ used ∧ Fresh (a :: used) entries := by
  constructor
  · rintro ⟨hnodup, hnot⟩
    obtain ⟨ha, hentries⟩ := List.nodup_cons.mp hnodup
    refine ⟨hnot a List.mem_cons_self, hentries, fun b hb => ?_⟩
    rintro (_ | hused)
    · exact ha hb
    · exact hnot b (List.mem_cons_of_mem a hb) ‹_›
  · rintro ⟨ha, hentries, hnot⟩
    refine ⟨List.nodup_cons.mpr ⟨fun h => hnot a h List.mem_cons_self, hentries⟩, ?_⟩
    refine List.forall_mem_cons.mpr ⟨ha, fun b hb => ?_⟩
    exact fun hused => hnot b hb (List.mem_cons_of_mem a hused)

/-- The names in use. -/
def names (signals : List SignalDescription) : List String := signals.filterMap (·.name)

theorem checkSignals_eq_ok_iff {ids : List SignalId} {used : List String}
    {signals : List SignalDescription} :
    checkSignals ids used signals = .ok () ↔
      Fresh ids (signals.map (·.id)) ∧ Fresh used (names signals) := by
  induction signals generalizing ids used with
  | nil => simp [checkSignals, names, Fresh]
  | cons s signals ih =>
    rw [List.map_cons, fresh_cons_iff]
    by_cases hid : s.id ∈ ids
    · simp [checkSignals, hid]
    cases hname : s.name with
    | none =>
      have hnames : names (s :: signals) = names signals := List.filterMap_cons_none hname
      simp [checkSignals, hid, hname, hnames, ih]
    | some name =>
      have hnames : names (s :: signals) = name :: names signals := List.filterMap_cons_some hname
      rw [hnames, fresh_cons_iff]
      by_cases hused : name ∈ used
      · simp [checkSignals, hid, hname, hused]
      · simp [checkSignals, hid, hname, hused, ih]

-- ---------------------------------------------------------------------------
-- Descriptions
-- ---------------------------------------------------------------------------

structure Valid (d : EngineDescription) : Prop where
  schemaVersion : d.schemaVersion = 1
  ids : (d.signals.map (·.id)).Nodup
  names : (names d.signals).Nodup
  signals_fit : d.signals.length ≤ 32
  signals : ∀ s ∈ d.signals, s.id.isValid
  merges_fit : d.merges.length ≤ 8
  merges : ∀ m ∈ d.merges, m.Valid
  remaps_fit : d.remaps.length ≤ 16
  remaps : ∀ r ∈ d.remaps, r.Valid
  scales_fit : d.scales.length ≤ 16
  scales : ∀ s ∈ d.scales, s.Valid
  monitors_fit : d.monitors.length ≤ 8
  monitors : ∀ m ∈ d.monitors, m.Valid d.scales.length
  limpTargets : d.monitors.Pairwise MonitorConfig.LimpApart
  pids_fit : d.pids.length ≤ 8
  pids : ∀ p ∈ d.pids, p.Valid
  verified_fit : d.verified.length ≤ 16
  verified : ∀ v ∈ d.verified, v.Valid
  cyclic_fit : d.cyclic.length ≤ 16
  cyclic : ∀ o ∈ d.cyclic, o.Valid

/-- The merges, if the description's own rules hold. -/
def checkedMerges (d : EngineDescription) : Except DescriptionError (List Merge) := do
  if d.schemaVersion ≠ supportedSchema then
    throw (.unsupportedSchema d.schemaVersion supportedSchema)
  checkSignals [] [] d.signals
  (toMerges 0 d.merges).mapError .engine

/-- The configuration with these merges. -/
def configWith (d : EngineDescription) (hasWake : Nat → MonitorConfig → Bool)
    (merges : List Merge) : EngineConfig where
  signals := d.signals.map fun s => ⟨s.id, s.stalenessThreshold⟩
  merges := merges
  remaps := d.remaps
  scales := d.scales
  monitors := d.monitors.zipIdx.map fun (c, index) => ⟨c, hasWake index c⟩
  pids := d.pids
  verified := d.verified
  cyclic := d.cyclic

theorem config_eq (d : EngineDescription) (hasWake : Nat → MonitorConfig → Bool) :
    d.config hasWake = d.checkedMerges.map (d.configWith hasWake) := by
  unfold config checkedMerges
  split
  · rfl
  · cases checkSignals [] [] d.signals with
    | error e => rfl
    | ok _ => cases (toMerges 0 d.merges).mapError DescriptionError.engine <;> rfl

theorem checkedMerges_eq_ok_iff {d : EngineDescription} {ms : List Merge} :
    d.checkedMerges = .ok ms ↔ d.schemaVersion = 1 ∧ (d.signals.map (·.id)).Nodup ∧
      (names d.signals).Nodup ∧ ms.map ofMerge = d.merges := by
  unfold checkedMerges
  by_cases hschema : d.schemaVersion = 1
  · have hsignals : (∃ u, checkSignals [] [] d.signals = .ok u) ↔
        (d.signals.map (·.id)).Nodup ∧ (names d.signals).Nodup := by
      rw [Except.exists_eq_ok_iff, checkSignals_eq_ok_iff, fresh_nil_iff, fresh_nil_iff]
    simp [hschema, supportedSchema, Except.bind_eq_ok_iff, Except.mapError_eq_ok_iff,
      toMerges_eq_ok_iff, hsignals, and_assoc]
  · simp [hschema, supportedSchema, throw, throwThe, MonadExceptOf.throw, bind, Except.bind]

theorem configWith_monitors {d : EngineDescription} {hasWake : Nat → MonitorConfig → Bool}
    {ms : List Merge} : (d.configWith hasWake ms).monitors.map (·.config) = d.monitors := by
  simp only [configWith, List.map_map]
  exact List.zipIdx_map_fst 0 d.monitors

/-- The listeners are not looked at. -/
theorem check_configWith {d : EngineDescription} {hasWake : Nat → MonitorConfig → Bool}
    {ms : List Merge} : (d.configWith hasWake ms).check = (d.configWith silent ms).check := by
  unfold EngineConfig.check
  rw [configWith_monitors, configWith_monitors]
  rfl

theorem build_map_eq (d : EngineDescription) (hasWake : Nat → MonitorConfig → Bool) :
    ((d.build hasWake).map fun _ => ()) =
      d.checkedMerges >>= fun ms => (d.configWith silent ms).check.mapError .engine := by
  rw [build, config_eq]
  cases d.checkedMerges with
  | error e => rfl
  | ok ms =>
    have hcheck : (d.configWith hasWake ms).check = (d.configWith silent ms).check :=
      check_configWith
    simp only [Except.map, bind, Except.bind, EngineConfig.build, hcheck]
    cases (d.configWith silent ms).check <;> rfl

theorem validate_eq_ok_iff_check {d : EngineDescription} :
    d.validate = .ok () ↔
      ∃ ms, d.checkedMerges = .ok ms ∧ (d.configWith silent ms).check = .ok () := by
  rw [validate, build_map_eq]
  simp only [Except.bind_eq_ok_iff, Except.mapError_eq_ok_iff]

theorem valid_of_configWith {d : EngineDescription} {hasWake : Nat → MonitorConfig → Bool}
    {ms : List Merge} (hms : d.checkedMerges = .ok ms) (hc : (d.configWith hasWake ms).Valid) :
    d.Valid := by
  obtain ⟨hschema, hids, hnames, hmerges⟩ := checkedMerges_eq_ok_iff.mp hms
  have hmonitors : (d.configWith hasWake ms).monitors.map (·.config) = d.monitors :=
    configWith_monitors
  exact {
    schemaVersion := hschema
    ids := hids
    names := hnames
    signals_fit := Nat.le_trans (Nat.le_of_eq (List.length_map _).symm) hc.signals_fit
    signals := List.forall_mem_map.mp hc.signals
    merges_fit := by rw [← hmerges, List.length_map]; exact hc.merges_fit
    merges := exists_merges_iff.mp ⟨ms, hmerges, hc.merges⟩
    remaps_fit := hc.remaps_fit
    remaps := hc.remaps
    scales_fit := hc.scales_fit
    scales := hc.scales
    monitors_fit := by rw [← hmonitors, List.length_map]; exact hc.monitors_fit
    monitors := by rw [← hmonitors]; exact List.forall_mem_map.mpr hc.monitors
    limpTargets := by rw [← hmonitors]; exact hc.limpTargets
    pids_fit := hc.pids_fit
    pids := hc.pids
    verified_fit := hc.verified_fit
    verified := hc.verified
    cyclic_fit := hc.cyclic_fit
    cyclic := hc.cyclic }

theorem Valid.configWith {d : EngineDescription} {hasWake : Nat → MonitorConfig → Bool}
    (h : d.Valid) :
    ∃ ms, d.checkedMerges = .ok ms ∧ (d.configWith hasWake ms).Valid := by
  obtain ⟨ms, hmap, hms⟩ := exists_merges_iff.mpr h.merges
  have hmonitors : (d.configWith hasWake ms).monitors.map (·.config) = d.monitors :=
    configWith_monitors
  refine ⟨ms, checkedMerges_eq_ok_iff.mpr ⟨h.schemaVersion, h.ids, h.names, hmap⟩, ?_⟩
  exact {
    signals_fit := Nat.le_trans (Nat.le_of_eq (List.length_map _)) h.signals_fit
    signals := List.forall_mem_map.mpr h.signals
    merges_fit := by
      have hfit := h.merges_fit
      rwa [← hmap, List.length_map] at hfit
    merges := hms
    remaps_fit := h.remaps_fit
    remaps := h.remaps
    scales_fit := h.scales_fit
    scales := h.scales
    monitors_fit := by
      rw [← List.length_map (·.config), hmonitors]
      exact h.monitors_fit
    monitors := by
      have hall := h.monitors
      rw [← hmonitors] at hall
      exact List.forall_mem_map.mp hall
    limpTargets := by rw [hmonitors]; exact h.limpTargets
    pids_fit := h.pids_fit
    pids := h.pids
    verified_fit := h.verified_fit
    verified := h.verified
    cyclic_fit := h.cyclic_fit
    cyclic := h.cyclic }

theorem validate_eq_ok_iff {d : EngineDescription} : d.validate = .ok () ↔ d.Valid := by
  rw [validate_eq_ok_iff_check]
  constructor
  · rintro ⟨ms, hms, hcheck⟩
    exact valid_of_configWith hms (EngineConfig.check_eq_ok_iff.mp hcheck)
  · intro h
    obtain ⟨ms, hms, hvalid⟩ := h.configWith
    exact ⟨ms, hms, EngineConfig.check_eq_ok_iff.mpr hvalid⟩

/-- The validation passes exactly the valid descriptions, and an engine can be
built exactly when it passes, whoever listens. -/
theorem accepted_iff_valid (d : EngineDescription) :
    (d.validate = .ok () ↔ d.Valid) ∧
      ∀ hasWake, ((d.build hasWake).map fun _ => ()) = d.validate := by
  refine ⟨validate_eq_ok_iff, fun hasWake => ?_⟩
  rw [validate, build_map_eq, build_map_eq]

end EngineDescription

end SignalGuard
