import Mathlib.Data.List.Nodup
import SignalGuard.Data.Shape

/-!
# Abridged data

A file need not say everything. At a place of some shape it gives the members
of a record in any order and leaves out members that have their default.
`Abridged` relates a datum that is said in full, which is what a reader
produces and a writer is given, to the data a file may hold in its stead. It
knows nothing of file formats.
-/

namespace SignalGuard

-- -----------------------------------------------------------------------------
-- Different names
-- -----------------------------------------------------------------------------

/-- An element is found by its name where names are different. -/
theorem find?_of_nodup {α β : Type} [BEq β] [LawfulBEq β] {name : α → β} {as : List α} {a : α}
    (hnodup : (as.map name).Nodup) (ha : a ∈ as) : as.find? (name · == name a) = some a := by
  cases hfind : as.find? (name · == name a) with
  | none => exact absurd (List.find?_eq_none.mp hfind a ha) (by simp)
  | some b =>
    have hname : name b = name a := by simpa using List.find?_some hfind
    rw [List.inj_on_of_nodup_map hnodup (List.mem_of_find?_eq_some hfind) ha hname]

/-- A member is looked up by its name where names are different. -/
theorem lookup_of_nodup {β : Type} {members : List (String × β)} {e : String × β}
    (hnodup : (members.map (·.1)).Nodup) (he : e ∈ members) :
    members.lookup e.1 = some e.2 := by
  induction members with
  | nil => cases he
  | cons head tail ih =>
    obtain ⟨name, d⟩ := head
    obtain ⟨hname, htail⟩ := List.nodup_cons.mp hnodup
    rcases List.mem_cons.mp he with rfl | he
    · exact List.lookup_cons_self
    · have hne : e.1 ≠ name := fun h => hname (List.mem_map.mpr ⟨e, he, h⟩)
      rw [List.lookup_cons, beq_eq_false_iff_ne.mpr hne]
      exact ih htail he

theorem lookup_eq_none {β : Type} {members : List (String × β)} {name : String}
    (h : name ∉ members.map (·.1)) : members.lookup name = none :=
  List.lookup_eq_none_iff.mpr fun e he =>
    bne_iff_ne.mpr fun heq => h (List.mem_map.mpr ⟨e, he, heq.symm⟩)

/-- Some members of a record under different names: the other names are not
found among them. -/
theorem lookup_of_subset {seen full : List (String × Datum)} (hseen : (seen.map (·.1)).Nodup)
    (hfull : (full.map (·.1)).Nodup) (hsub : ∀ e ∈ seen, e ∈ full) {e : String × Datum}
    (he : e ∈ full) :
    seen.lookup e.1 = some e.2 ∨ seen.lookup e.1 = none ∧ e.1 ∉ seen.map (·.1) := by
  by_cases hname : e.1 ∈ seen.map (·.1)
  · obtain ⟨e', he', heq⟩ := List.mem_map.mp hname
    obtain rfl : e' = e := List.inj_on_of_nodup_map hfull (hsub e' he') he heq
    exact .inl (lookup_of_nodup hseen he')
  · exact .inr ⟨lookup_eq_none hname, hname⟩

-- -----------------------------------------------------------------------------
-- Proper shapes
-- -----------------------------------------------------------------------------

/-- Whether the numbers of the range fit into a 64-bit word, signed or not. -/
def IntRange.proper (range : IntRange) : Bool :=
  -0x8000000000000000 ≤ range.least && range.greatest < 0x10000000000000000

mutual

/-- Whether no record has two fields of one name and all integers are words. -/
def Shape.proper : Shape → Bool
  | .integer range => range.proper
  | .flag | .text | .choice _ | .reference _ => true
  | .optional shape | .list shape => shape.proper
  | .record _ fields => decide fields.names.Nodup && fields.proper

def Fields.proper : Fields → Bool
  | .done => true
  | .field _ _ shape rest => shape.proper && rest.proper

end

theorem IntRange.word_of_proper {range : IntRange} {i : Int} (hrange : range.proper)
    (hi : range.contains i) : -0x8000000000000000 ≤ i ∧ i < 0x10000000000000000 := by
  simp only [IntRange.proper, IntRange.contains, Bool.and_eq_true, decide_eq_true_eq] at hrange hi
  omega

-- -----------------------------------------------------------------------------
-- The relation
-- -----------------------------------------------------------------------------

mutual

/-- `Abridged shape full part`: where a value of the shape stands, a file that
holds `part` says `full`. -/
inductive Abridged : Shape → Datum → Datum → Prop
  | integer {range : IntRange} {i : Int} (within : range.contains i) :
      Abridged (.integer range) (.int i) (.int i)
  | flag {b : Bool} : Abridged .flag (.flag b) (.flag b)
  | text {s : String} : Abridged .text (.text s) (.text s)
  | choice {spellings : List String} {s : String} (spelt : s ∈ spellings) :
      Abridged (.choice spellings) (.text s) (.text s)
  | named {what s : String} : Abridged (.reference what) (.text s) (.text s)
  | numbered {what : String} {i : Int} (within : IntRange.u8.contains i) :
      Abridged (.reference what) (.int i) (.int i)
  | absent {shape : Shape} : Abridged (.optional shape) .null .null
  | present {shape : Shape} {full part : Datum} (value : Abridged shape full part) :
      Abridged (.optional shape) full part
  | list {shape : Shape} {fulls parts : List Datum} (items : AbridgedItems shape fulls parts) :
      Abridged (.list shape) (.list fulls) (.list parts)
  | record {name : String} {fields : Fields} {fulls parts written : List (String × Datum)}
      (members : AbridgedFields fields fulls parts) (order : written.Perm parts) :
      Abridged (.record name fields) (.record fulls) (.record written)

/-- The elements of a list, one by one. -/
inductive AbridgedItems : Shape → List Datum → List Datum → Prop
  | nil {shape : Shape} : AbridgedItems shape [] []
  | cons {shape : Shape} {full part : Datum} {fulls parts : List Datum}
      (item : Abridged shape full part) (items : AbridgedItems shape fulls parts) :
      AbridgedItems shape (full :: fulls) (part :: parts)

/-- The members of a record in the order of its fields. What is omitted is the
default of its field. -/
inductive AbridgedFields : Fields → List (String × Datum) → List (String × Datum) → Prop
  | done : AbridgedFields .done [] []
  | kept {name : String} {default? : Option Datum} {shape : Shape} {rest : Fields}
      {full part : Datum} {fulls parts : List (String × Datum)}
      (value : Abridged shape full part) (members : AbridgedFields rest fulls parts) :
      AbridgedFields (.field name default? shape rest) ((name, full) :: fulls)
        ((name, part) :: parts)
  | omitted {name : String} {shape : Shape} {rest : Fields} {full : Datum}
      {fulls parts : List (String × Datum)} (members : AbridgedFields rest fulls parts) :
      AbridgedFields (.field name (some full) shape rest) ((name, full) :: fulls) parts

end

/-- Only nothing is said by null, so a present value cannot be mistaken for an
absent one. -/
theorem Abridged.eq_null {shape : Shape} {full part : Datum} :
    Abridged shape full part → part = .null → full = .null
  | .absent, _ => rfl
  | .present value, h => value.eq_null h

namespace AbridgedFields

/-- A record in full has every field. -/
theorem names_full {fields : Fields} {fulls parts : List (String × Datum)} :
    AbridgedFields fields fulls parts → fulls.map (·.1) = fields.names
  | .done => rfl
  | .kept _ members => congrArg _ members.names_full
  | .omitted members => congrArg _ members.names_full

/-- A record in part has some of the fields. -/
theorem names_part {fields : Fields} {fulls parts : List (String × Datum)} :
    AbridgedFields fields fulls parts → (parts.map (·.1)).Sublist fields.names
  | .done => .slnil
  | .kept _ members => members.names_part.cons_cons _
  | .omitted members => members.names_part.cons _

/-- Once all entries were seen, a member of the full record is among them or was left
out. -/
theorem seen_or_omitted {fields : Fields} {fulls parts written seen : List (String × Datum)}
    (members : AbridgedFields fields fulls parts) (hnames : fields.names.Nodup)
    (order : written.Perm parts) (hseen : ∀ e ∈ seen, e ∈ fulls)
    (hkeys : (seen.map (·.1)).Perm (written.map (·.1))) :
    ∀ e ∈ fulls, seen.lookup e.1 = some e.2 ∨
      seen.lookup e.1 = none ∧ e.1 ∉ parts.map (·.1) := by
  intro e he
  have hfulls : (fulls.map (·.1)).Nodup := by rwa [members.names_full]
  have hall := hkeys.trans (order.map _)
  have hnodup : (seen.map (·.1)).Nodup := hall.nodup_iff.mpr (members.names_part.nodup hnames)
  exact (lookup_of_subset hnodup hfulls hseen he).imp_right fun ⟨hnone, hnot⟩ =>
    ⟨hnone, fun hpart => hnot (hall.mem_iff.mpr hpart)⟩

end AbridgedFields

/-- Elements that abridge one by one abridge as a list. -/
theorem AbridgedItems.map {α : Type} {shape : Shape} {full part : α → Datum}
    (h : ∀ a, Abridged shape (full a) (part a)) :
    ∀ as : List α, AbridgedItems shape (as.map full) (as.map part)
  | [] => .nil
  | a :: as => .cons (h a) (map h as)

end SignalGuard
