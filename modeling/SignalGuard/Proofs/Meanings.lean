import Mathlib.Data.List.Forall2
import SignalGuard.Proofs.Abridgement
import SignalGuard.Proofs.FullRecords

/-!
# What data mean

`Means` relates the datum that a file holds to what is read from it, in every
form in which a file may be written. It leaves no room for anything that is
ignored: a key is a field and stands once, an integer lies in the range of its
field, and a field without an entry has its default. What is meant is a datum in
full, since the defaults of a furnished shape suit their fields.
-/

namespace SignalGuard

-- -----------------------------------------------------------------------------
-- The relation
-- -----------------------------------------------------------------------------

mutual

/-- `Means shape part full`: where a value of the shape is expected, `part` means
`full` and nothing else. -/
inductive Means : Shape → Datum → Datum → Prop
  | integer {range : IntRange} {i : Int} (within : range.contains i) :
      Means (.integer range) (.int i) (.int i)
  | flag {b : Bool} : Means .flag (.flag b) (.flag b)
  | text {s : String} : Means .text (.text s) (.text s)
  | choice {spellings : List String} {s : String} (spelt : s ∈ spellings) :
      Means (.choice spellings) (.text s) (.text s)
  /-- A choice may be written as a map from its spelling to null. -/
  | keyed {spellings : List String} {s : String} (spelt : s ∈ spellings) :
      Means (.choice spellings) (.record [(s, .null)]) (.text s)
  | named {what s : String} : Means (.reference what) (.text s) (.text s)
  | numbered {what : String} {i : Int} (within : IntRange.u8.contains i) :
      Means (.reference what) (.int i) (.int i)
  | absent {shape : Shape} : Means (.optional shape) .null .null
  | present {shape : Shape} {part full : Datum} (value : Means shape part full) :
      Means (.optional shape) part full
  | list {shape : Shape} {parts fulls : List Datum} (items : MeansItems shape parts fulls) :
      Means (.list shape) (.list parts) (.list fulls)
  | record {name : String} {fields : Fields} {written fulls : List (String × Datum)}
      (known : ∀ e ∈ written, e.1 ∈ fields.names) (once : (written.map (·.1)).Nodup)
      (members : MeansFields fields written fulls) :
      Means (.record name fields) (.record written) (.record fulls)
  /-- A record may be written as a list of its fields in order. -/
  | positional {name : String} {fields : Fields} {parts : List Datum}
      {fulls : List (String × Datum)} (members : MeansPositions fields parts fulls) :
      Means (.record name fields) (.list parts) (.record fulls)

/-- The elements of a list, one by one. -/
inductive MeansItems : Shape → List Datum → List Datum → Prop
  | nil {shape : Shape} : MeansItems shape [] []
  | cons {shape : Shape} {part full : Datum} {parts fulls : List Datum}
      (item : Means shape part full) (items : MeansItems shape parts fulls) :
      MeansItems shape (part :: parts) (full :: fulls)

/-- The fields of a record, looked for among the entries that are written. -/
inductive MeansFields : Fields → List (String × Datum) → List (String × Datum) → Prop
  | done {written : List (String × Datum)} : MeansFields .done written []
  | given {name : String} {default? : Option Datum} {shape : Shape} {rest : Fields}
      {part full : Datum} {written fulls : List (String × Datum)}
      (entry : (name, part) ∈ written) (value : Means shape part full)
      (members : MeansFields rest written fulls) :
      MeansFields (.field name default? shape rest) written ((name, full) :: fulls)
  | left {name : String} {shape : Shape} {rest : Fields} {full : Datum}
      {written fulls : List (String × Datum)} (absent : name ∉ written.map (·.1))
      (members : MeansFields rest written fulls) :
      MeansFields (.field name (some full) shape rest) written ((name, full) :: fulls)

/-- The fields of a record by position. Those at the end may be left out. -/
inductive MeansPositions : Fields → List Datum → List (String × Datum) → Prop
  | done : MeansPositions .done [] []
  | given {name : String} {default? : Option Datum} {shape : Shape} {rest : Fields}
      {part full : Datum} {parts : List Datum} {fulls : List (String × Datum)}
      (value : Means shape part full) (members : MeansPositions rest parts fulls) :
      MeansPositions (.field name default? shape rest) (part :: parts) ((name, full) :: fulls)
  | left {name : String} {shape : Shape} {rest : Fields} {full : Datum}
      {fulls : List (String × Datum)} (members : MeansPositions rest [] fulls) :
      MeansPositions (.field name (some full) shape rest) [] ((name, full) :: fulls)

end

theorem MeansItems.of_forall₂ {shape : Shape} {parts fulls : List Datum}
    (h : List.Forall₂ (Means shape) parts fulls) : MeansItems shape parts fulls := by
  induction h with
  | nil => exact .nil
  | cons item _ ih => exact .cons item ih

/-- Only nothing is meant by null. -/
theorem Means.eq_null {shape : Shape} {part full : Datum} :
    Means shape part full → part = .null → full = .null
  | .absent, _ => rfl
  | .present value, h => value.eq_null h

/-- What is meant has every field. -/
theorem MeansFields.names_full {fields : Fields} {written fulls : List (String × Datum)} :
    MeansFields fields written fulls → fulls.map (·.1) = fields.names
  | .done => rfl
  | .given _ _ members | .left _ members => congrArg _ members.names_full

-- -----------------------------------------------------------------------------
-- What is meant is complete
-- -----------------------------------------------------------------------------

mutual

theorem Means.admits {shape : Shape} {part full : Datum} :
    Means shape part full → shape.furnished → shape.admits full
  | .integer within, _ => within
  | .flag, _ | .text, _ | .named, _ => rfl
  | .choice spelt, _ | .keyed spelt, _ => List.contains_iff_mem.mpr spelt
  | .numbered within, _ => within
  | .absent, _ => rfl
  | .present value, h => by
    simp only [Shape.admits, Bool.or_eq_true]
    exact .inr (value.admits h)
  | .list items, h => Shape.admits_list.mpr ⟨_, rfl, items.admits h⟩
  | .record _ _ members, h => Shape.admits_record.mpr ⟨_, rfl, members.admits h⟩
  | .positional members, h => Shape.admits_record.mpr ⟨_, rfl, members.admits h⟩

theorem MeansItems.admits {shape : Shape} {parts fulls : List Datum} :
    MeansItems shape parts fulls → shape.furnished → ∀ x ∈ fulls, shape.admits x
  | .nil, _ => by simp
  | .cons item items, h => List.forall_mem_cons.mpr ⟨item.admits h, items.admits h⟩

theorem MeansFields.admits {fields : Fields} {written fulls : List (String × Datum)} :
    MeansFields fields written fulls → fields.furnished → fields.admits fulls
  | .done, _ => rfl
  | .given _ value members, h => by
    simp only [Fields.furnished, Bool.and_eq_true] at h
    exact Fields.admits_field.mpr ⟨_, _, rfl, value.admits h.1.2, members.admits h.2⟩
  | .left _ members, h => by
    simp only [Fields.furnished, Option.all_some, Bool.and_eq_true] at h
    exact Fields.admits_field.mpr ⟨_, _, rfl, h.1.1, members.admits h.2⟩

theorem MeansPositions.admits {fields : Fields} {parts : List Datum}
    {fulls : List (String × Datum)} :
    MeansPositions fields parts fulls → fields.furnished → fields.admits fulls
  | .done, _ => rfl
  | .given value members, h => by
    simp only [Fields.furnished, Bool.and_eq_true] at h
    exact Fields.admits_field.mpr ⟨_, _, rfl, value.admits h.1.2, members.admits h.2⟩
  | .left members, h => by
    simp only [Fields.furnished, Option.all_some, Bool.and_eq_true] at h
    exact Fields.admits_field.mpr ⟨_, _, rfl, h.1.1, members.admits h.2⟩

end

-- -----------------------------------------------------------------------------
-- Abridged data
-- -----------------------------------------------------------------------------

mutual

/-- What abridges a datum means it. -/
theorem Abridged.means {shape : Shape} {full part : Datum} :
    Abridged shape full part → shape.proper → Means shape part full
  | .integer within, _ => .integer within
  | .flag, _ => .flag
  | .text, _ => .text
  | .choice spelt, _ => .choice spelt
  | .named, _ => .named
  | .numbered within, _ => .numbered within
  | .absent, _ => .absent
  | .present value, hproper => .present (value.means hproper)
  | .list items, hproper => .list (items.means hproper)
  | .record members order, hproper => by
    obtain ⟨hnames, hfields⟩ := by simpa [Shape.proper] using hproper
    have hparts := members.names_part
    refine .record (fun e he => ?_) ?_ ?_
    · exact hparts.subset (List.mem_map_of_mem (order.mem_iff.mp he))
    · exact (order.map _).nodup_iff.mpr (hparts.nodup hnames)
    · exact members.means hfields hnames (fun e he => order.mem_iff.mpr he)
        fun e he _ => order.mem_iff.mp he

theorem AbridgedItems.means {shape : Shape} {fulls parts : List Datum} :
    AbridgedItems shape fulls parts → shape.proper → MeansItems shape parts fulls
  | .nil, _ => .nil
  | .cons item items, hproper => .cons (item.means hproper) (items.means hproper)

theorem AbridgedFields.means {fields : Fields} {fulls parts written : List (String × Datum)} :
    AbridgedFields fields fulls parts → fields.proper → fields.names.Nodup →
    (∀ e ∈ parts, e ∈ written) → (∀ e ∈ written, e.1 ∈ fields.names → e ∈ parts) →
    MeansFields fields written fulls
  | .done, _, _, _, _ => .done
  | .kept value members, hproper, hnames, hparts, hwritten => by
    obtain ⟨hshape, hrest⟩ := by simpa [Fields.proper] using hproper
    obtain ⟨hname, hnames⟩ := List.nodup_cons.mp hnames
    obtain ⟨hentry, hparts⟩ := List.forall_mem_cons.mp hparts
    refine .given hentry (value.means hshape) (members.means hrest hnames hparts ?_)
    intro e he hmem
    rcases List.mem_cons.mp (hwritten e he (List.mem_cons_of_mem _ hmem)) with rfl | h
    · exact absurd hmem hname
    · exact h
  | .omitted members, hproper, hnames, hparts, hwritten => by
    obtain ⟨_, hrest⟩ := by simpa [Fields.proper] using hproper
    obtain ⟨hname, hnames⟩ := List.nodup_cons.mp hnames
    refine .left (fun hmem => ?_) (members.means hrest hnames hparts fun e he hmem =>
      hwritten e he (List.mem_cons_of_mem _ hmem))
    obtain ⟨e, he, rfl⟩ := List.mem_map.mp hmem
    have hpart := hwritten e he List.mem_cons_self
    exact hname (members.names_part.subset (List.mem_map_of_mem hpart))

end

end SignalGuard
