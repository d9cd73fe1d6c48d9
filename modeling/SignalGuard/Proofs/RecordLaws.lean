import SignalGuard.Description.Records
import SignalGuard.Proofs.Abridgement

/-!
# Laws of the records

A codec is a type whose values are written as data of a shape, with the proof
that the view of a written datum is the value again. Every part of a
description has one. That what is written suits the shape, field by field, is
also what keeps the shape and the two views of a record from drifting apart.
-/

namespace SignalGuard

open Datum (ofNat ofOption)

-- -----------------------------------------------------------------------------
-- Views of plain values
-- -----------------------------------------------------------------------------

namespace IntRange

theorem contains_iff {range : IntRange} {i : Int} :
    range.contains i ↔ range.least ≤ i ∧ i ≤ range.greatest := by
  simp [contains]

theorem contains_u8 (n : UInt8) : u8.contains n.toNat :=
  contains_iff.mpr ⟨Int.natCast_nonneg _, Int.le_of_lt_add_one (Int.ofNat_lt.mpr n.toNat_lt)⟩

theorem contains_u32 (n : UInt32) : u32.contains n.toNat :=
  contains_iff.mpr ⟨Int.natCast_nonneg _, Int.le_of_lt_add_one (Int.ofNat_lt.mpr n.toNat_lt)⟩

theorem contains_u64 (n : UInt64) : u64.contains n.toNat :=
  contains_iff.mpr ⟨Int.natCast_nonneg _, Int.le_of_lt_add_one (Int.ofNat_lt.mpr n.toNat_lt)⟩

theorem contains_i32 (i : Int32) : i32.contains i.toInt :=
  contains_iff.mpr ⟨i.le_toInt, Int.le_of_lt_add_one i.toInt_lt⟩

end IntRange

namespace Datum

@[simp] theorem toBool_flag (b : Bool) : (flag b).toBool = b := rfl

@[simp] theorem toText_text (s : String) : (text s).toText = s := rfl

@[simp] theorem toList_list (ds : List Datum) : (list ds).toList = ds := rfl

@[simp] theorem toUInt8_ofNat (n : UInt8) : (ofNat n.toNat).toUInt8 = n := by
  simp [ofNat, toUInt8, toInt]

@[simp] theorem toUInt32_ofNat (n : UInt32) : (ofNat n.toNat).toUInt32 = n := by
  simp [ofNat, toUInt32, toInt]

@[simp] theorem toUInt64_ofNat (n : UInt64) : (ofNat n.toNat).toUInt64 = n := by
  simp [ofNat, toUInt64, toInt]

@[simp] theorem toInt32_int (i : Int32) : (int i.toInt).toInt32 = i := by
  simp [toInt32, toInt]

@[simp] theorem member_head (name : String) (d : Datum) (ms : List (String × Datum)) :
    (record ((name, d) :: ms)).member name = d := by
  simp [member]

@[simp] theorem member_tail {other name : String} (h : name ≠ other) (d : Datum)
    (ms : List (String × Datum)) :
    (record ((other, d) :: ms)).member name = (record ms).member name := by
  have hne : (name == other) = false := beq_eq_false_iff_ne.mpr h
  simp [member, List.lookup_cons, hne]

/-- A view of what may be missing, for a way of writing that never gives null. -/
theorem toOption_ofOption {α : Type} {f : α → Datum} {g : Datum → α}
    (hf : ∀ a, (f a).isNull = false) (hg : ∀ a, g (f a) = a) (o : Option α) :
    (ofOption f o).toOption g = o := by
  cases o with
  | none => rfl
  | some a => simp [ofOption, toOption, hf, hg]

@[simp] theorem toOption_uint8 (o : Option UInt8) :
    (ofOption (ofNat ·.toNat) o).toOption toUInt8 = o :=
  toOption_ofOption (fun _ => rfl) toUInt8_ofNat o

@[simp] theorem toOption_uint64 (o : Option UInt64) :
    (ofOption (ofNat ·.toNat) o).toOption toUInt64 = o :=
  toOption_ofOption (fun _ => rfl) toUInt64_ofNat o

@[simp] theorem toOption_int32 (o : Option Int32) :
    (ofOption (.int ·.toInt) o).toOption toInt32 = o :=
  toOption_ofOption (fun _ => rfl) toInt32_int o

@[simp] theorem toOption_text (o : Option String) : (ofOption .text o).toOption toText = o :=
  toOption_ofOption (fun _ => rfl) toText_text o

/-- Spellings that tell the values apart can be viewed as the values. -/
theorem toChoice_text {α : Type} [Inhabited α] {all : List α} {spelling : α → String} {a : α}
    (ha : a ∈ all) (hdistinct : (all.map spelling).Nodup) :
    (text (spelling a)).toChoice all spelling = a := by
  simp [toChoice, toText, find?_of_nodup hdistinct ha]

end Datum

-- -----------------------------------------------------------------------------
-- Codecs
-- -----------------------------------------------------------------------------

structure Codec (α : Type) where
  shape : Shape
  toDatum : α → Datum
  ofDatum : Datum → α
  proper : shape.proper
  /-- What is written says itself. -/
  suits : ∀ a, Abridged shape (toDatum a) (toDatum a)
  ofDatum_toDatum : ∀ a, ofDatum (toDatum a) = a

/-- The fields without a default. -/
def Fields.requiredNames : Fields → List String
  | .done => []
  | .field name none _ rest => name :: rest.requiredNames
  | .field _ (some _) _ rest => rest.requiredNames

/-- The members no record of the shape can leave out. -/
def Shape.requiredNames : Shape → List String
  | .record _ fields => fields.requiredNames
  | _ => []

namespace Codec

/-- `bare` are the members that cannot be left out, and in any order they say
`a`, since the defaults say the rest. -/
structure Bare {α : Type} (c : Codec α) (a : α) (bare : List (String × Datum)) : Prop where
  names : bare.map (·.1) = c.shape.requiredNames
  abridged : ∀ written, written.Perm bare → Abridged c.shape (c.toDatum a) (.record written)

def uint8 : Codec UInt8 where
  shape := .u8
  toDatum n := ofNat n.toNat
  ofDatum := Datum.toUInt8
  proper := by decide
  suits n := .integer (IntRange.contains_u8 n)
  ofDatum_toDatum := Datum.toUInt8_ofNat

def uint32 : Codec UInt32 where
  shape := .u32
  toDatum n := ofNat n.toNat
  ofDatum := Datum.toUInt32
  proper := by decide
  suits n := .integer (IntRange.contains_u32 n)
  ofDatum_toDatum := Datum.toUInt32_ofNat

def uint64 : Codec UInt64 where
  shape := .u64
  toDatum n := ofNat n.toNat
  ofDatum := Datum.toUInt64
  proper := by decide
  suits n := .integer (IntRange.contains_u64 n)
  ofDatum_toDatum := Datum.toUInt64_ofNat

def int32 : Codec Int32 where
  shape := .i32
  toDatum i := .int i.toInt
  ofDatum := Datum.toInt32
  proper := by decide
  suits i := .integer (IntRange.contains_i32 i)
  ofDatum_toDatum := Datum.toInt32_int

def bool : Codec Bool where
  shape := .flag
  toDatum := .flag
  ofDatum := Datum.toBool
  proper := rfl
  suits _ := .flag
  ofDatum_toDatum _ := rfl

def string : Codec String where
  shape := .text
  toDatum := .text
  ofDatum := Datum.toText
  proper := rfl
  suits _ := .text
  ofDatum_toDatum _ := rfl

/-- A finite type with different spellings of its values. -/
def choice {α : Type} [Inhabited α] (all : List α) (spelling : α → String) (hall : ∀ a, a ∈ all)
    (hdistinct : (all.map spelling).Nodup) : Codec α where
  shape := .choice (all.map spelling)
  toDatum a := .text (spelling a)
  ofDatum := Datum.toChoice all spelling
  proper := rfl
  suits a := .choice (List.mem_map_of_mem (hall a))
  ofDatum_toDatum a := Datum.toChoice_text (hall a) hdistinct

/-- A value that may be missing, which only null stands for. -/
def option {α : Type} (c : Codec α) (hnull : ∀ a, (c.toDatum a).isNull = false) :
    Codec (Option α) where
  shape := .optional c.shape
  toDatum := ofOption c.toDatum
  ofDatum := Datum.toOption c.ofDatum
  proper := c.proper
  suits
    | none => .absent
    | some a => .present (c.suits a)
  ofDatum_toDatum := Datum.toOption_ofOption hnull c.ofDatum_toDatum

def list {α : Type} (c : Codec α) : Codec (List α) where
  shape := .list c.shape
  toDatum as := .list (as.map c.toDatum)
  ofDatum d := d.toList.map c.ofDatum
  proper := c.proper
  suits as := .list (.map c.suits as)
  ofDatum_toDatum as := by simp [Function.comp_def, c.ofDatum_toDatum]

end Codec

-- -----------------------------------------------------------------------------
-- Parts of a description
-- -----------------------------------------------------------------------------

@[simp] theorem SignalId.ofDatum_toDatum (id : SignalId) : ofDatum id.toDatum = id :=
  congrArg SignalId.mk (Datum.toUInt8_ofNat id.raw)

def SignalId.codec : Codec SignalId where
  shape := SignalId.shape
  toDatum := SignalId.toDatum
  ofDatum := SignalId.ofDatum
  proper := Codec.uint8.proper
  suits id := Codec.uint8.suits id.raw
  ofDatum_toDatum := SignalId.ofDatum_toDatum

def FaultLevel.codec : Codec FaultLevel :=
  .choice all spelling (by intro l; cases l <;> decide) (by decide)

@[simp] theorem FaultLevel.ofDatum_toDatum (l : FaultLevel) : ofDatum l.toDatum = l :=
  codec.ofDatum_toDatum l

def ActuatorKind.codec : Codec ActuatorKind :=
  .choice all spelling (by intro k; cases k <;> decide) (by decide)

@[simp] theorem ActuatorKind.ofDatum_toDatum (k : ActuatorKind) : ofDatum k.toDatum = k :=
  codec.ofDatum_toDatum k

def OutputKind.codec : Codec OutputKind :=
  .choice all spelling (by intro k; cases k <;> decide) (by decide)

@[simp] theorem OutputKind.ofDatum_toDatum (k : OutputKind) : ofDatum k.toDatum = k :=
  codec.ofDatum_toDatum k

def VotingMethod.codec : Codec VotingMethod :=
  .choice all spelling (by intro m; cases m <;> decide) (by decide)

@[simp] theorem VotingMethod.ofDatum_toDatum (m : VotingMethod) : ofDatum m.toDatum = m :=
  codec.ofDatum_toDatum m

-- `suits` goes through the fields of a shape in their order, with the codec of
-- each. A bare entry goes through them in the same way and omits the rest.

namespace Remap

@[simp] theorem ofDatum_toDatum (r : Remap) : ofDatum r.toDatum = r := by
  simp [toDatum, ofDatum]

def codec : Codec Remap where
  shape := shape
  toDatum := toDatum
  ofDatum := ofDatum
  proper := by decide
  suits r := .record (by
    refine .kept (SignalId.codec.suits r.input) ?_
    refine .kept (SignalId.codec.suits r.output) ?_
    refine .kept (Codec.bool.suits r.invert) ?_
    refine .kept (Codec.uint32.suits r.deadzone) ?_
    refine .kept (Codec.bool.suits r.enabled) ?_
    exact .done) (.refl _)
  ofDatum_toDatum := ofDatum_toDatum

theorem bare_ofSignals (input output : SignalId) :
    codec.Bare (ofSignals input output) [
      ("input", input.toDatum),
      ("output", output.toDatum)] where
  names := rfl
  abridged _ h := .record (by
    refine .kept (SignalId.codec.suits input) ?_
    refine .kept (SignalId.codec.suits output) ?_
    iterate 3 refine .omitted ?_
    exact .done) h

end Remap

namespace Scale

@[simp] theorem ofDatum_toDatum (s : Scale) : ofDatum s.toDatum = s := by
  simp [toDatum, ofDatum]

def codec : Codec Scale where
  shape := shape
  toDatum := toDatum
  ofDatum := ofDatum
  proper := by decide
  suits s := .record (by
    refine .kept (SignalId.codec.suits s.input) ?_
    refine .kept (SignalId.codec.suits s.output) ?_
    refine .kept (Codec.int32.suits s.scaleFactor) ?_
    refine .kept (Codec.int32.suits s.offset) ?_
    refine .kept ((Codec.int32.option fun _ => rfl).suits s.clampMin) ?_
    refine .kept ((Codec.int32.option fun _ => rfl).suits s.clampMax) ?_
    refine .kept (Codec.bool.suits s.enabled) ?_
    exact .done) (.refl _)
  ofDatum_toDatum := ofDatum_toDatum

theorem bare_ofSignals (input output : SignalId) :
    codec.Bare (ofSignals input output) [
      ("input", input.toDatum),
      ("output", output.toDatum)] where
  names := rfl
  abridged _ h := .record (by
    refine .kept (SignalId.codec.suits input) ?_
    refine .kept (SignalId.codec.suits output) ?_
    iterate 5 refine .omitted ?_
    exact .done) h

end Scale

namespace LimpAction

@[simp] theorem ofDatum_toDatum (a : LimpAction) : ofDatum a.toDatum = a := by
  simp [toDatum, ofDatum]

def codec : Codec LimpAction where
  shape := shape
  toDatum := toDatum
  ofDatum := ofDatum
  proper := by decide
  suits a := .record (by
    refine .kept (Codec.uint8.suits a.targetScale) ?_
    refine .kept ((Codec.int32.option fun _ => rfl).suits a.scaleFactor) ?_
    refine .kept ((Codec.int32.option fun _ => rfl).suits a.clampMin) ?_
    refine .kept ((Codec.int32.option fun _ => rfl).suits a.clampMax) ?_
    refine .kept (Codec.uint32.suits a.restoreDelay) ?_
    exact .done) (.refl _)
  ofDatum_toDatum := ofDatum_toDatum

theorem bare_target (targetScale : UInt8) :
    codec.Bare ⟨targetScale, none, none, none, 0⟩ [("target_scale", ofNat targetScale.toNat)] where
  names := rfl
  abridged _ h := .record (by
    refine .kept (Codec.uint8.suits targetScale) ?_
    iterate 4 refine .omitted ?_
    exact .done) h

end LimpAction

@[simp] theorem LimpAction.toOption_ofOption (o : Option LimpAction) :
    (ofOption toDatum o).toOption ofDatum = o :=
  Datum.toOption_ofOption (fun _ => rfl) ofDatum_toDatum o

namespace MonitorConfig

@[simp] theorem ofDatum_toDatum (c : MonitorConfig) : ofDatum c.toDatum = c := by
  simp [toDatum, ofDatum]

def codec : Codec MonitorConfig where
  shape := shape
  toDatum := toDatum
  ofDatum := ofDatum
  proper := by decide
  suits c := .record (by
    refine .kept (SignalId.codec.suits c.watched) ?_
    refine .kept (SignalId.codec.suits c.faultOutput) ?_
    refine .kept (Codec.bool.suits c.checkStaleness) ?_
    refine .kept (Codec.uint64.suits c.staleTimeout) ?_
    refine .kept (Codec.bool.suits c.checkRange) ?_
    refine .kept (Codec.int32.suits c.minValue) ?_
    refine .kept (Codec.int32.suits c.maxValue) ?_
    refine .kept (Codec.bool.suits c.checkStatus) ?_
    refine .kept (FaultLevel.codec.suits c.faultLevel) ?_
    refine .kept ((LimpAction.codec.option fun _ => rfl).suits c.limp) ?_
    refine .kept (Codec.bool.suits c.enabled) ?_
    exact .done) (.refl _)
  ofDatum_toDatum := ofDatum_toDatum

theorem bare_ofSignals (watched faultOutput : SignalId) (faultLevel : FaultLevel) :
    codec.Bare (ofSignals watched faultOutput faultLevel) [
      ("watched", watched.toDatum),
      ("fault_output", faultOutput.toDatum),
      ("fault_level", faultLevel.toDatum)] where
  names := rfl
  abridged _ h := .record (by
    refine .kept (SignalId.codec.suits watched) ?_
    refine .kept (SignalId.codec.suits faultOutput) ?_
    iterate 6 refine .omitted ?_
    refine .kept (FaultLevel.codec.suits faultLevel) ?_
    iterate 2 refine .omitted ?_
    exact .done) h

end MonitorConfig

namespace PidConfig

@[simp] theorem ofDatum_toDatum (c : PidConfig) : ofDatum c.toDatum = c := by
  simp [toDatum, ofDatum]

def codec : Codec PidConfig where
  shape := shape
  toDatum := toDatum
  ofDatum := ofDatum
  proper := by decide
  suits c := .record (by
    refine .kept (SignalId.codec.suits c.setpoint) ?_
    refine .kept (SignalId.codec.suits c.measurement) ?_
    refine .kept (SignalId.codec.suits c.output) ?_
    refine .kept (Codec.int32.suits c.kp) ?_
    refine .kept (Codec.int32.suits c.ki) ?_
    refine .kept (Codec.int32.suits c.kd) ?_
    refine .kept (Codec.int32.suits c.outputMin) ?_
    refine .kept (Codec.int32.suits c.outputMax) ?_
    refine .kept (Codec.int32.suits c.integralMin) ?_
    refine .kept (Codec.int32.suits c.integralMax) ?_
    refine .kept (Codec.uint32.suits c.deadband) ?_
    refine .kept (Codec.uint64.suits c.sampleTime) ?_
    refine .kept (Codec.bool.suits c.resetOnSetpointChange) ?_
    refine .kept (Codec.bool.suits c.enabled) ?_
    exact .done) (.refl _)
  ofDatum_toDatum := ofDatum_toDatum

theorem bare_ofSignals (setpoint measurement output : SignalId) :
    codec.Bare (ofSignals setpoint measurement output) [
      ("setpoint", setpoint.toDatum),
      ("measurement", measurement.toDatum),
      ("output", output.toDatum)] where
  names := rfl
  abridged _ h := .record (by
    refine .kept (SignalId.codec.suits setpoint) ?_
    refine .kept (SignalId.codec.suits measurement) ?_
    refine .kept (SignalId.codec.suits output) ?_
    iterate 11 refine .omitted ?_
    exact .done) h

end PidConfig

namespace VerifiedConfig

@[simp] theorem ofDatum_toDatum (c : VerifiedConfig) : ofDatum c.toDatum = c := by
  simp [toDatum, ofDatum]

def codec : Codec VerifiedConfig where
  shape := shape
  toDatum := toDatum
  ofDatum := ofDatum
  proper := by decide
  suits c := .record (by
    refine .kept (SignalId.codec.suits c.command) ?_
    refine .kept (SignalId.codec.suits c.feedback) ?_
    refine .kept (SignalId.codec.suits c.output) ?_
    refine .kept (ActuatorKind.codec.suits c.kind) ?_
    refine .kept (Codec.uint32.suits c.tolerance) ?_
    refine .kept (Codec.uint64.suits c.verifyTimeout) ?_
    refine .kept (Codec.bool.suits c.continuous) ?_
    refine .kept (Codec.bool.suits c.enabled) ?_
    exact .done) (.refl _)
  ofDatum_toDatum := ofDatum_toDatum

theorem bare_ofSignals (command feedback output : SignalId) :
    codec.Bare (ofSignals command feedback output) [
      ("command", command.toDatum),
      ("feedback", feedback.toDatum),
      ("output", output.toDatum)] where
  names := rfl
  abridged _ h := .record (by
    refine .kept (SignalId.codec.suits command) ?_
    refine .kept (SignalId.codec.suits feedback) ?_
    refine .kept (SignalId.codec.suits output) ?_
    iterate 5 refine .omitted ?_
    exact .done) h

end VerifiedConfig

namespace CyclicConfig

@[simp] theorem ofDatum_toDatum (c : CyclicConfig) : ofDatum c.toDatum = c := by
  simp [toDatum, ofDatum]

def codec : Codec CyclicConfig where
  shape := shape
  toDatum := toDatum
  ofDatum := ofDatum
  proper := by decide
  suits c := .record (by
    refine .kept (SignalId.codec.suits c.source) ?_
    refine .kept (OutputKind.codec.suits c.kind) ?_
    refine .kept (Codec.uint32.suits c.targetId) ?_
    refine .kept (Codec.uint8.suits c.deviceIndex) ?_
    refine .kept (Codec.uint64.suits c.period) ?_
    refine .kept ((Codec.uint64.option fun _ => rfl).suits c.firstDeadline) ?_
    refine .kept (Codec.uint32.suits c.flags) ?_
    refine .kept (Codec.bool.suits c.enabled) ?_
    exact .done) (.refl _)
  ofDatum_toDatum := ofDatum_toDatum

theorem bare_ofSignal (source : SignalId) (targetId : UInt32) (period : Time) :
    codec.Bare (ofSignal source targetId period) [
      ("source", source.toDatum),
      ("target_id", ofNat targetId.toNat),
      ("period_us", ofNat period.toNat)] where
  names := rfl
  abridged _ h := .record (by
    refine .kept (SignalId.codec.suits source) ?_
    refine .omitted ?_
    refine .kept (Codec.uint32.suits targetId) ?_
    refine .omitted ?_
    refine .kept (Codec.uint64.suits period) ?_
    iterate 3 refine .omitted ?_
    exact .done) h

end CyclicConfig

namespace SignalDescription

@[simp] theorem ofDatum_toDatum (s : SignalDescription) : ofDatum s.toDatum = s := by
  simp [toDatum, ofDatum]

def codec : Codec SignalDescription where
  shape := shape
  toDatum := toDatum
  ofDatum := ofDatum
  proper := by decide
  suits s := .record (by
    refine .kept (SignalId.codec.suits s.id) ?_
    refine .kept ((Codec.string.option fun _ => rfl).suits s.name) ?_
    refine .kept (Codec.uint64.suits s.stalenessThreshold) ?_
    exact .done) (.refl _)
  ofDatum_toDatum := ofDatum_toDatum

theorem bare_id (id : SignalId) : codec.Bare ⟨id, none, 0⟩ [("id", id.toDatum)] where
  names := rfl
  abridged _ h := .record (by
    refine .kept (SignalId.codec.suits id) ?_
    iterate 2 refine .omitted ?_
    exact .done) h

end SignalDescription

namespace MergeDescription

@[simp] theorem ofDatum_toDatum (m : MergeDescription) : ofDatum m.toDatum = m := by
  simp [toDatum, ofDatum, Function.comp_def]

def codec : Codec MergeDescription where
  shape := shape
  toDatum := toDatum
  ofDatum := ofDatum
  proper := by decide
  suits m := .record (by
    refine .kept (SignalId.codec.list.suits m.inputs) ?_
    refine .kept (SignalId.codec.suits m.output) ?_
    refine .kept (VotingMethod.codec.suits m.method) ?_
    refine .kept (Codec.uint32.suits m.tolerance) ?_
    refine .kept ((Codec.uint8.option fun _ => rfl).suits m.majorityQuorum) ?_
    refine .kept (Codec.bool.suits m.enabled) ?_
    exact .done) (.refl _)
  ofDatum_toDatum := ofDatum_toDatum

theorem bare_inputs (inputs : List SignalId) (output : SignalId) :
    codec.Bare ⟨inputs, output, .median, 0, none, true⟩ [
      ("inputs", .list (inputs.map SignalId.toDatum)),
      ("output", output.toDatum)] where
  names := rfl
  abridged _ h := .record (by
    refine .kept (SignalId.codec.list.suits inputs) ?_
    refine .kept (SignalId.codec.suits output) ?_
    iterate 4 refine .omitted ?_
    exact .done) h

end MergeDescription

namespace EngineDescription

@[simp] theorem ofDatum_toDatum (d : EngineDescription) : ofDatum d.toDatum = d := by
  simp [toDatum, ofDatum, Function.comp_def]

def codec : Codec EngineDescription where
  shape := shape
  toDatum := toDatum
  ofDatum := ofDatum
  proper := by decide
  suits d := .record (by
    refine .kept (Codec.uint8.suits d.schemaVersion) ?_
    refine .kept ((Codec.string.option fun _ => rfl).suits d.name) ?_
    refine .kept (SignalDescription.codec.list.suits d.signals) ?_
    refine .kept (MergeDescription.codec.list.suits d.merges) ?_
    refine .kept (Remap.codec.list.suits d.remaps) ?_
    refine .kept (Scale.codec.list.suits d.scales) ?_
    refine .kept (MonitorConfig.codec.list.suits d.monitors) ?_
    refine .kept (PidConfig.codec.list.suits d.pids) ?_
    refine .kept (VerifiedConfig.codec.list.suits d.verified) ?_
    refine .kept (CyclicConfig.codec.list.suits d.cyclic) ?_
    exact .done) (.refl _)
  ofDatum_toDatum := ofDatum_toDatum

theorem bare_empty : codec.Bare empty [] where
  names := rfl
  abridged _ h := .record (by
    iterate 10 refine .omitted ?_
    exact .done) h

end EngineDescription

end SignalGuard
