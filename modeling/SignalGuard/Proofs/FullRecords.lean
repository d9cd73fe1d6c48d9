import SignalGuard.Proofs.RecordLaws

/-!
# Records in full

A shape admits a datum that has every field of every record, in order, with a
value of the kind and range of the field. This is what a reader makes of a file
once the defaults are filled in. A typed view of a datum that its shape admits
loses nothing: no number wraps, no member is overlooked, no spelling is taken
for another, so the datum can be had back from the view.
-/

namespace SignalGuard

open Datum (ofNat ofOption)

-- -----------------------------------------------------------------------------
-- Admitted data
-- -----------------------------------------------------------------------------

mutual

def Shape.admits : Shape → Datum → Bool
  | .integer range, .int i => range.contains i
  | .flag, .flag _ => true
  | .text, .text _ => true
  | .choice spellings, .text s => spellings.contains s
  | .reference _, .text _ => true
  | .reference _, .int i => IntRange.u8.contains i
  | .optional shape, d => d.isNull || shape.admits d
  | .list shape, .list ds => ds.all shape.admits
  | .record _ fields, .record ms => fields.admits ms
  | _, _ => false

def Fields.admits : Fields → List (String × Datum) → Bool
  | .done, [] => true
  | .field name _ shape rest, (other, d) :: ms =>
    name == other && shape.admits d && rest.admits ms
  | _, _ => false

end

mutual

/-- Whether every default is a value of its field. -/
def Shape.furnished : Shape → Bool
  | .optional shape | .list shape => shape.furnished
  | .record _ fields => fields.furnished
  | _ => true

def Fields.furnished : Fields → Bool
  | .done => true
  | .field _ default? shape rest =>
    default?.all shape.admits && shape.furnished && rest.furnished

end

theorem Shape.admits_record {name : String} {fields : Fields} {d : Datum} :
    (Shape.record name fields).admits d ↔ ∃ ms, d = .record ms ∧ fields.admits ms := by
  constructor
  · intro h
    cases d with
    | record ms => exact ⟨ms, rfl, h⟩
    | _ => cases h
  · rintro ⟨ms, rfl, hms⟩
    exact hms

theorem Shape.admits_list {shape : Shape} {d : Datum} :
    (Shape.list shape).admits d ↔ ∃ ds, d = .list ds ∧ ∀ x ∈ ds, shape.admits x := by
  constructor
  · intro h
    cases d with
    | list ds => exact ⟨ds, rfl, List.all_eq_true.mp h⟩
    | _ => cases h
  · rintro ⟨ds, rfl, hds⟩
    exact List.all_eq_true.mpr hds

theorem Fields.admits_done {ms : List (String × Datum)} : Fields.done.admits ms ↔ ms = [] := by
  constructor
  · intro h
    cases ms with
    | nil => rfl
    | cons m ms => cases h
  · rintro rfl
    rfl

theorem Fields.admits_field {name : String} {default? : Option Datum} {shape : Shape}
    {rest : Fields} {ms : List (String × Datum)} :
    (Fields.field name default? shape rest).admits ms ↔
      ∃ d ms', ms = (name, d) :: ms' ∧ shape.admits d ∧ rest.admits ms' := by
  constructor
  · intro h
    cases ms with
    | nil => cases h
    | cons m ms =>
      obtain ⟨other, d⟩ := m
      have hall : (name == other && shape.admits d && rest.admits ms) = true := h
      simp only [Bool.and_eq_true, beq_iff_eq] at hall
      obtain ⟨⟨rfl, hd⟩, hms⟩ := hall
      exact ⟨d, ms, rfl, hd, hms⟩
  · rintro ⟨d, ms, rfl, hd, hms⟩
    have hall : (name == name && shape.admits d && rest.admits ms) = true := by
      simp only [BEq.rfl, hd, hms, Bool.and_self]
    exact hall

-- -----------------------------------------------------------------------------
-- Plain values
-- -----------------------------------------------------------------------------

namespace Datum

theorem eq_int_of_admits {range : IntRange} {d : Datum} (h : (Shape.integer range).admits d) :
    ∃ i, d = .int i ∧ range.least ≤ i ∧ i ≤ range.greatest := by
  cases d with
  | int i => exact ⟨i, rfl, IntRange.contains_iff.mp h⟩
  | _ => cases h

@[simp] theorem ofNat_toUInt8 {d : Datum} (h : Shape.u8.admits d) :
    ofNat d.toUInt8.toNat = d := by
  obtain ⟨i, rfl, hleast, hgreatest⟩ := eq_int_of_admits h
  have hmin : IntRange.u8.least = 0 := rfl
  have hmax : IntRange.u8.greatest = 255 := rfl
  have hnat : (UInt8.ofNat i.toNat).toNat = i.toNat := by
    refine UInt8.toNat_ofNat_of_lt ?_
    unfold UInt8.size
    omega
  simp only [ofNat, toUInt8, toInt, hnat, Datum.int.injEq]
  omega

@[simp] theorem ofNat_toUInt32 {d : Datum} (h : Shape.u32.admits d) :
    ofNat d.toUInt32.toNat = d := by
  obtain ⟨i, rfl, hleast, hgreatest⟩ := eq_int_of_admits h
  have hmin : IntRange.u32.least = 0 := rfl
  have hmax : IntRange.u32.greatest = 0xFFFFFFFF := rfl
  have hnat : (UInt32.ofNat i.toNat).toNat = i.toNat := by
    refine UInt32.toNat_ofNat_of_lt ?_
    unfold UInt32.size
    omega
  simp only [ofNat, toUInt32, toInt, hnat, Datum.int.injEq]
  omega

@[simp] theorem ofNat_toUInt64 {d : Datum} (h : Shape.u64.admits d) :
    ofNat d.toUInt64.toNat = d := by
  obtain ⟨i, rfl, hleast, hgreatest⟩ := eq_int_of_admits h
  have hmin : IntRange.u64.least = 0 := rfl
  have hmax : IntRange.u64.greatest = 0xFFFFFFFFFFFFFFFF := rfl
  have hnat : (UInt64.ofNat i.toNat).toNat = i.toNat := by
    refine UInt64.toNat_ofNat_of_lt ?_
    unfold UInt64.size
    omega
  simp only [ofNat, toUInt64, toInt, hnat, Datum.int.injEq]
  omega

@[simp] theorem int_toInt32 {d : Datum} (h : Shape.i32.admits d) : int d.toInt32.toInt = d := by
  obtain ⟨i, rfl, hleast, hgreatest⟩ := eq_int_of_admits h
  have hmin : IntRange.i32.least = -0x80000000 := rfl
  have hmax : IntRange.i32.greatest = 0x7FFFFFFF := rfl
  have hint : (Int32.ofInt i).toInt = i := Int32.toInt_ofInt_of_le (by omega) (by omega)
  simp only [toInt32, toInt, hint]

@[simp] theorem flag_toBool {d : Datum} (h : Shape.flag.admits d) : flag d.toBool = d := by
  cases d with
  | flag b => rfl
  | _ => cases h

theorem text_toText {d : Datum} (h : Shape.text.admits d) : text d.toText = d := by
  cases d with
  | text s => rfl
  | _ => cases h

/-- The value found for a spelling has that spelling. -/
theorem text_toChoice {α : Type} [Inhabited α] {all : List α} {spelling : α → String} {d : Datum}
    (h : (Shape.choice (all.map spelling)).admits d) :
    text (spelling (d.toChoice all spelling)) = d := by
  cases d with
  | text s =>
    obtain ⟨a, ha, hs⟩ := List.mem_map.mp (List.contains_iff_mem.mp h)
    have hsome : (all.find? (spelling · == s)).isSome :=
      List.find?_isSome.mpr ⟨a, ha, beq_iff_eq.mpr hs⟩
    obtain ⟨b, hfind⟩ := Option.isSome_iff_exists.mp hsome
    have hb : spelling b = s := by simpa using List.find?_some hfind
    simp [toChoice, toText, hfind, hb]
  | _ => cases h

theorem ofOption_toOption {α : Type} {shape : Shape} (f : α → Datum) (g : Datum → α)
    (hfg : ∀ {d}, shape.admits d → f (g d) = d) {d : Datum} (h : (Shape.optional shape).admits d) :
    ofOption f (d.toOption g) = d := by
  cases hnull : d.isNull with
  | true => cases d with
    | null => rfl
    | _ => cases hnull
  | false =>
    have hd : (d.isNull || shape.admits d) = true := h
    rw [hnull, Bool.false_or] at hd
    simp [toOption, hnull, ofOption, hfg hd]

@[simp] theorem ofOption_uint8 {d : Datum} (h : (Shape.optional .u8).admits d) :
    ofOption (ofNat ·.toNat) (d.toOption toUInt8) = d :=
  ofOption_toOption (ofNat ·.toNat) toUInt8 ofNat_toUInt8 h

@[simp] theorem ofOption_uint64 {d : Datum} (h : (Shape.optional .u64).admits d) :
    ofOption (ofNat ·.toNat) (d.toOption toUInt64) = d :=
  ofOption_toOption (ofNat ·.toNat) toUInt64 ofNat_toUInt64 h

@[simp] theorem ofOption_int32 {d : Datum} (h : (Shape.optional .i32).admits d) :
    ofOption (.int ·.toInt) (d.toOption toInt32) = d :=
  ofOption_toOption (.int ·.toInt) toInt32 int_toInt32 h

@[simp] theorem ofOption_text {d : Datum} (h : (Shape.optional .text).admits d) :
    ofOption .text (d.toOption toText) = d :=
  ofOption_toOption .text toText text_toText h

/-- A list of views that lose nothing. -/
theorem list_toList {α : Type} {shape : Shape} {f : α → Datum} {g : Datum → α}
    (hfg : ∀ {d}, shape.admits d → f (g d) = d) {d : Datum} (h : (Shape.list shape).admits d) :
    list (d.toList.map (f ∘ g)) = d := by
  obtain ⟨ds, rfl, hds⟩ := Shape.admits_list.mp h
  have hmap : ∀ x ∈ ds, (f ∘ g) x = id x := fun x hx => hfg (hds x hx)
  rw [toList_list, List.map_congr_left hmap, List.map_id]

end Datum

-- -----------------------------------------------------------------------------
-- Parts of a description
-- -----------------------------------------------------------------------------

@[simp] theorem SignalId.toDatum_ofDatum {d : Datum} (h : shape.admits d) :
    (ofDatum d).toDatum = d :=
  Datum.ofNat_toUInt8 h

@[simp] theorem FaultLevel.toDatum_ofDatum {d : Datum} (h : shape.admits d) :
    (ofDatum d).toDatum = d :=
  Datum.text_toChoice h

@[simp] theorem ActuatorKind.toDatum_ofDatum {d : Datum} (h : shape.admits d) :
    (ofDatum d).toDatum = d :=
  Datum.text_toChoice h

@[simp] theorem OutputKind.toDatum_ofDatum {d : Datum} (h : shape.admits d) :
    (ofDatum d).toDatum = d :=
  Datum.text_toChoice h

@[simp] theorem VotingMethod.toDatum_ofDatum {d : Datum} (h : shape.admits d) :
    (ofDatum d).toDatum = d :=
  Datum.text_toChoice h

-- An admitted record is taken apart field by field, in the order of its shape.

open Fields (required defaulted)

theorem Remap.toDatum_ofDatum {d : Datum} (h : shape.admits d) : (ofDatum d).toDatum = d := by
  simp only [shape, required, defaulted, enabledField, Shape.admits_record, Fields.admits_field,
    Fields.admits_done] at h
  obtain ⟨_, rfl, input, _, rfl, hinput, output, _, rfl, houtput, invert, _, rfl, hinvert,
    deadzone, _, rfl, hdeadzone, enabled, _, rfl, henabled, rfl⟩ := h
  simp [toDatum, ofDatum, *]

theorem Scale.toDatum_ofDatum {d : Datum} (h : shape.admits d) : (ofDatum d).toDatum = d := by
  simp only [shape, required, defaulted, enabledField, Shape.admits_record, Fields.admits_field,
    Fields.admits_done] at h
  obtain ⟨_, rfl, input, _, rfl, hinput, output, _, rfl, houtput, scaleFactor, _, rfl,
    hscaleFactor, offset, _, rfl, hoffset, clampMin, _, rfl, hclampMin, clampMax, _, rfl,
    hclampMax, enabled, _, rfl, henabled, rfl⟩ := h
  simp [toDatum, ofDatum, *]

theorem LimpAction.toDatum_ofDatum {d : Datum} (h : shape.admits d) : (ofDatum d).toDatum = d := by
  simp only [shape, required, defaulted, Shape.admits_record, Fields.admits_field,
    Fields.admits_done] at h
  obtain ⟨_, rfl, targetScale, _, rfl, htargetScale, scaleFactor, _, rfl, hscaleFactor, clampMin,
    _, rfl, hclampMin, clampMax, _, rfl, hclampMax, restoreDelay, _, rfl, hrestoreDelay, rfl⟩ := h
  simp [toDatum, ofDatum, *]

@[simp] theorem LimpAction.ofOption_toOption {d : Datum} (h : (Shape.optional shape).admits d) :
    ofOption toDatum (d.toOption ofDatum) = d :=
  Datum.ofOption_toOption toDatum ofDatum toDatum_ofDatum h

theorem MonitorConfig.toDatum_ofDatum {d : Datum} (h : shape.admits d) :
    (ofDatum d).toDatum = d := by
  simp only [shape, required, defaulted, enabledField, Shape.admits_record, Fields.admits_field,
    Fields.admits_done] at h
  obtain ⟨_, rfl, watched, _, rfl, hwatched, faultOutput, _, rfl, hfaultOutput, checkStaleness, _,
    rfl, hcheckStaleness, staleTimeout, _, rfl, hstaleTimeout, checkRange, _, rfl, hcheckRange,
    minValue, _, rfl, hminValue, maxValue, _, rfl, hmaxValue, checkStatus, _, rfl, hcheckStatus,
    faultLevel, _, rfl, hfaultLevel, limp, _, rfl, hlimp, enabled, _, rfl, henabled, rfl⟩ := h
  simp [toDatum, ofDatum, *]

theorem PidConfig.toDatum_ofDatum {d : Datum} (h : shape.admits d) : (ofDatum d).toDatum = d := by
  simp only [shape, required, defaulted, enabledField, Shape.admits_record, Fields.admits_field,
    Fields.admits_done] at h
  obtain ⟨_, rfl, setpoint, _, rfl, hsetpoint, measurement, _, rfl, hmeasurement, output, _, rfl,
    houtput, kp, _, rfl, hkp, ki, _, rfl, hki, kd, _, rfl, hkd, outputMin, _, rfl, houtputMin,
    outputMax, _, rfl, houtputMax, integralMin, _, rfl, hintegralMin, integralMax, _, rfl,
    hintegralMax, deadband, _, rfl, hdeadband, sampleTime, _, rfl, hsampleTime,
    resetOnSetpointChange, _, rfl, hresetOnSetpointChange, enabled, _, rfl, henabled, rfl⟩ := h
  simp [toDatum, ofDatum, *]

theorem VerifiedConfig.toDatum_ofDatum {d : Datum} (h : shape.admits d) :
    (ofDatum d).toDatum = d := by
  simp only [shape, required, defaulted, enabledField, Shape.admits_record, Fields.admits_field,
    Fields.admits_done] at h
  obtain ⟨_, rfl, command, _, rfl, hcommand, feedback, _, rfl, hfeedback, output, _, rfl, houtput,
    kind, _, rfl, hkind, tolerance, _, rfl, htolerance, verifyTimeout, _, rfl, hverifyTimeout,
    continuous, _, rfl, hcontinuous, enabled, _, rfl, henabled, rfl⟩ := h
  simp [toDatum, ofDatum, *]

theorem CyclicConfig.toDatum_ofDatum {d : Datum} (h : shape.admits d) :
    (ofDatum d).toDatum = d := by
  simp only [shape, required, defaulted, enabledField, Shape.admits_record, Fields.admits_field,
    Fields.admits_done] at h
  obtain ⟨_, rfl, source, _, rfl, hsource, kind, _, rfl, hkind, targetId, _, rfl, htargetId,
    deviceIndex, _, rfl, hdeviceIndex, period, _, rfl, hperiod, firstDeadline, _, rfl,
    hfirstDeadline, flags, _, rfl, hflags, enabled, _, rfl, henabled, rfl⟩ := h
  simp [toDatum, ofDatum, *]

theorem SignalDescription.toDatum_ofDatum {d : Datum} (h : shape.admits d) :
    (ofDatum d).toDatum = d := by
  simp only [shape, required, defaulted, Shape.admits_record, Fields.admits_field,
    Fields.admits_done] at h
  obtain ⟨_, rfl, id, _, rfl, hid, name, _, rfl, hname, stalenessThreshold, _, rfl,
    hstalenessThreshold, rfl⟩ := h
  simp [toDatum, ofDatum, *]

theorem MergeDescription.toDatum_ofDatum {d : Datum} (h : shape.admits d) :
    (ofDatum d).toDatum = d := by
  simp only [shape, required, defaulted, enabledField, Shape.admits_record, Fields.admits_field,
    Fields.admits_done] at h
  obtain ⟨_, rfl, inputs, _, rfl, hinputs, output, _, rfl, houtput, method, _, rfl, hmethod,
    tolerance, _, rfl, htolerance, majorityQuorum, _, rfl, hmajorityQuorum, enabled, _, rfl,
    henabled, rfl⟩ := h
  have hlist := Datum.list_toList SignalId.toDatum_ofDatum hinputs
  simp [toDatum, ofDatum, *]

theorem EngineDescription.toDatum_ofDatum {d : Datum} (h : shape.admits d) :
    (ofDatum d).toDatum = d := by
  simp only [shape, listField, defaulted, Shape.admits_record, Fields.admits_field,
    Fields.admits_done] at h
  obtain ⟨_, rfl, schemaVersion, _, rfl, hschemaVersion, name, _, rfl, hname, signals, _, rfl,
    hsignals, merges, _, rfl, hmerges, remaps, _, rfl, hremaps, scales, _, rfl, hscales, monitors,
    _, rfl, hmonitors, pids, _, rfl, hpids, verified, _, rfl, hverified, cyclic, _, rfl, hcyclic,
    rfl⟩ := h
  have hsignals' := Datum.list_toList SignalDescription.toDatum_ofDatum hsignals
  have hmerges' := Datum.list_toList MergeDescription.toDatum_ofDatum hmerges
  have hremaps' := Datum.list_toList Remap.toDatum_ofDatum hremaps
  have hscales' := Datum.list_toList Scale.toDatum_ofDatum hscales
  have hmonitors' := Datum.list_toList MonitorConfig.toDatum_ofDatum hmonitors
  have hpids' := Datum.list_toList PidConfig.toDatum_ofDatum hpids
  have hverified' := Datum.list_toList VerifiedConfig.toDatum_ofDatum hverified
  have hcyclic' := Datum.list_toList CyclicConfig.toDatum_ofDatum hcyclic
  simp [toDatum, ofDatum, *]

end SignalGuard
