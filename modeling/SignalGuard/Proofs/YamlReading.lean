import SignalGuard.Proofs.Abridgement
import SignalGuard.Proofs.JsonLexemes
import SignalGuard.Proofs.YamlNodes
import SignalGuard.Yaml.Reader

/-!
# Reading abridged data back from nodes

The reader of a proper shape takes the node of an abridged datum for what the
datum says in full. Scalars are the point: the writer leaves off quotes only
where nothing but the text could be meant, and numbers, truth values and null
never have quotes.
-/

namespace SignalGuard

-- -----------------------------------------------------------------------------
-- Decimal numbers
-- -----------------------------------------------------------------------------

namespace Digits

theorem value?_digitChar : ∀ d < 10, value? 10 (Nat.digitChar d) = some d := by decide

theorem extend?_append (base : Nat) (cs : List Char) (c : Char) (n : Nat) :
    extend? base n (cs ++ [c]) =
      (extend? base n cs).bind fun m => (value? base c).map (m * base + ·) := by
  induction cs generalizing n with
  | nil => cases h : value? base c <;> simp [extend?, h]
  | cons d cs ih => cases h : value? base d <;> simp [extend?, h, ih]

theorem extend?_toDigits (n : Nat) : extend? 10 0 (Nat.toDigits 10 n) = some n := by
  induction n using Nat.strongRecOn with
  | _ n ih =>
    rw [Nat.toDigits_eq_if (by decide)]
    split
    · next hsmall => simp [extend?, value?_digitChar n hsmall]
    · next hlarge =>
      have hlast := value?_digitChar (n % 10) (Nat.mod_lt n (by decide))
      have hparts : n / 10 * 10 + n % 10 = n := Nat.div_add_mod' n 10
      rw [extend?_append, ih (n / 10) (by omega)]
      simp [hlast, hparts]

theorem number?_toDigits (n : Nat) : number? 10 (Nat.toDigits 10 n) = some n := by
  have hne : (Nat.toDigits 10 n).isEmpty = false := by simp [Nat.toDigits_ne_nil]
  rw [number?, hne]
  exact extend?_toDigits n

end Digits

namespace Yaml

namespace Spelling

open Json.Number (toDigits_eq_cons toDigits_head)

/-- Only zero starts with a zero, so no number looks as if it had a base. -/
theorem unsigned?_toDigits (n : Nat) : unsigned? (Nat.toDigits 10 n) = some n := by
  have hnumber := Digits.number?_toDigits n
  obtain ⟨d, ds, hds, hd⟩ := toDigits_eq_cons n
  by_cases hzero : d = '0'
  · obtain rfl : n = 0 := toDigits_head n (by simp [hds, hzero])
    rfl
  · rw [hds] at hnumber ⊢
    have hplain : hasSuperfluousZero (d :: ds) = false := by
      simp [hasSuperfluousZero, hzero]
    simp [unsigned?, hzero, hplain, hnumber]

theorem int?_toDigits (signed : Bool) (n : Nat) :
    int? signed (Nat.toDigits 10 n) = some (n : Int) := by
  have hnumber := unsigned?_toDigits n
  obtain ⟨d, ds, hds, hd⟩ := toDigits_eq_cons n
  have hplus : d ≠ '+' := by
    rintro rfl
    exact absurd hd (by decide)
  have hminus : d ≠ '-' := by
    rintro rfl
    exact absurd hd (by decide)
  rw [hds] at hnumber ⊢
  simp [int?, hplus, hminus, hnumber]

/-- A number says itself where its sign may stand. -/
theorem int?_toString {signed : Bool} {i : Int} (h : i < 0 → signed) :
    int? signed (toString i).toList = some i := by
  rw [Int.toString_eq_repr, Int.repr_eq_if]
  split
  · next hi =>
    rw [Nat.toList_repr, int?_toDigits, Int.toNat_of_nonneg hi]
  · next hi =>
    have hsigned : signed = true := h (Int.not_le.mp hi)
    obtain ⟨n, rfl⟩ : ∃ n : Nat, i = -n := ⟨(-i).toNat, by omega⟩
    have htext : ("-" ++ n.repr).toList = '-' :: Nat.toDigits 10 n := by
      rw [String.toList_append, Nat.toList_repr]
      rfl
    rw [Int.neg_neg, Int.toNat_natCast, htext]
    simp [int?, hsigned, unsigned?_toDigits]

/-- What spells null spells no number. -/
theorem int?_of_isNull {cs : List Char} (h : isNull cs) (signed : Bool) :
    int? signed cs = none := by
  simp only [isNull, List.any_cons, List.any_nil, Bool.or_false, Bool.or_eq_true, beq_iff_eq] at h
  rcases h with rfl | rfl | rfl | rfl <;> rfl

/-- Numbers without a minus sign are read alike. -/
theorem int?_of_unsigned {cs : List Char} {i : Int} (h : int? false cs = some i) :
    int? true cs = some i := by
  rw [int?.eq_def] at h ⊢
  split at h
  · exact h
  · cases h
  · exact h

theorem not_byte_of_isReserved {cs : List Char} {i : Int} (h : isReserved cs = false)
    (hi : int? IntRange.u8.signed cs = some i) : IntRange.u8.contains i = false := by
  simp only [isReserved, Bool.or_eq_false_iff] at h
  have hinteger := h.1.1.2
  rw [isInteger, int?_of_unsigned hi] at hinteger
  rw [← Bool.not_eq_true]
  intro hbyte
  obtain ⟨hleast, hgreatest⟩ := Bool.and_eq_true_iff.mp hbyte
  rw [Option.any_some, Bool.and_eq_false_iff] at hinteger
  rcases hinteger with hlow | hhigh
  · exact of_decide_eq_false hlow (Int.le_trans (by decide) (of_decide_eq_true hleast))
  · exact of_decide_eq_false hhigh
      (Int.lt_of_le_of_lt (of_decide_eq_true hgreatest) (by decide))

end Spelling

-- -----------------------------------------------------------------------------
-- Scalars
-- -----------------------------------------------------------------------------

namespace Reader

open Node (ofDatum ofItems ofMembers)

theorem followed_ofDatum (read : Reader) (d : Datum) :
    followed read (ofDatum d) = read (ofDatum d) := by
  cases d <;> rfl

theorem integer_int {range : IntRange} {i : Int} (within : range.contains i) :
    integer range (ofDatum (.int i)) = some (.int i) := by
  have hsigned : i < 0 → range.signed := fun hi =>
    decide_eq_true (Int.lt_of_le_of_lt (of_decide_eq_true (Bool.and_eq_true_iff.mp within).1) hi)
  have hint := Spelling.int?_toString hsigned
  rw [ofDatum, integer]
  simp only [spells, hint]
  simp [within]

/-- A text is no number: with quotes none is looked for, and without quotes it
does not look like one. -/
theorem integer_text (s : String) : integer .u8 (ofDatum (.text s)) = none := by
  rcases Layout.style_cases s.toList with ⟨hstyle, -, hreserved⟩ | ⟨hstyle, -⟩ | ⟨hstyle, -⟩ |
    hstyle
  · simp only [ofDatum, integer, hstyle, spells]
    cases hint : Spelling.int? IntRange.u8.signed s.toList with
    | none => rfl
    | some i => simp [Option.filter, Spelling.not_byte_of_isReserved hreserved hint]
  all_goals simp [ofDatum, integer, hstyle, spells]

/-- What is null has no quotes and spells null or nothing. -/
theorem optional_scalar {style : Style} {text : String}
    (h : style = .plain → text ≠ "" ∧ Spelling.isNull text.toList = false) (read : Reader) :
    optional read (.scalar ⟨none, style, text⟩) = read (.scalar ⟨none, style, text⟩) := by
  have hnull : isNull? ⟨none, style, text⟩ = some false := by
    rw [isNull?]
    split
    · rfl
    · next hplain =>
      obtain ⟨hempty, hspelling⟩ := h (not_not.mp hplain)
      simp [hempty, hspelling]
  simp [optional, hnull]

theorem optional_ofDatum {d : Datum} (h : d ≠ .null) (read : Reader) :
    optional read (ofDatum d) = read (ofDatum d) := by
  cases d with
  | null => exact absurd rfl h
  | flag b => cases b <;> rfl
  | int i =>
    have hnumber : Spelling.int? true (toString i).toList = some i :=
      Spelling.int?_toString fun _ => rfl
    refine optional_scalar (fun _ => ⟨fun hempty => ?_, ?_⟩) read
    · rw [hempty] at hnumber
      cases hnumber
    · rw [← Bool.not_eq_true]
      intro hnull
      rw [Spelling.int?_of_isNull hnull] at hnumber
      cases hnumber
  | text s =>
    refine optional_scalar (fun hplain => ?_) read
    rcases Layout.style_cases s.toList with ⟨-, -, hreserved⟩ | ⟨hstyle, -⟩ | ⟨hstyle, -⟩ | hstyle
    · refine ⟨?_, ?_⟩
      · rintro rfl
        cases hreserved
      · simp only [Spelling.isReserved, Bool.or_eq_false_iff] at hreserved
        exact hreserved.1.1.1.1.2
    all_goals cases hstyle.symm.trans hplain
  | list items => rfl
  | record members => rfl

-- -----------------------------------------------------------------------------
-- Records
-- -----------------------------------------------------------------------------

/-- What an entry says is a member of the full record, and one of the fields
reads it. -/
def Reads (members : List Member) (fulls : Members) (e : String × Datum) : Prop :=
  ∃ m ∈ members, ∃ d, m.name = e.1 ∧ (e.1, d) ∈ fulls ∧ m.read (ofDatum e.2) = some d

theorem Reads.cons {m : Member} {members : List Member} {full : String × Datum} {fulls : Members}
    {e : String × Datum} : Reads members fulls e → Reads (m :: members) (full :: fulls) e
  | ⟨m', hm', d, hname, hd, hread⟩ =>
    ⟨m', List.mem_cons_of_mem _ hm', d, hname, List.mem_cons_of_mem _ hd, hread⟩

theorem entry_eq {members : List Member} {fulls seen : Members} {name : String} {part : Datum}
    (hnames : (members.map (·.name)).Nodup) (hreads : Reads members fulls (name, part))
    (hfresh : seen.lookup name = none) :
    ∃ d, (name, d) ∈ fulls ∧
      entry members seen (.scalar ⟨none, .plain, name⟩, ofDatum part) =
        some ((name, d) :: seen) := by
  obtain ⟨m, hm, d, rfl, hd, hread⟩ := hreads
  have hfind := find?_of_nodup hnames hm
  refine ⟨d, hd, ?_⟩
  simp [entry, followed, text, hfind, hfresh, hread]

-- The induction is on the entries still to be read. What was seen so far are
-- members of the full record, and no entry to come has one of their names.

/-- Entries in any order are read into members of the full record, one for each
entry. -/
theorem entries_eq {members : List Member} {fulls written : Members}
    (hnames : (members.map (·.name)).Nodup) :
    ∀ seen : Members, (∀ e ∈ written, Reads members fulls e) →
      (written.map (·.1) ++ seen.map (·.1)).Nodup → (∀ e ∈ seen, e ∈ fulls) →
      ∃ seen', (ofMembers written).foldlM (entry members) seen = some seen' ∧
        (∀ e ∈ seen', e ∈ fulls) ∧
        (seen'.map (·.1)).Perm (written.map (·.1) ++ seen.map (·.1)) := by
  induction written with
  | nil => exact fun seen _ _ hseen => ⟨seen, rfl, hseen, .refl _⟩
  | cons e written ih =>
    obtain ⟨name, part⟩ := e
    intro seen hreads hnodup hseen
    have hfresh : seen.lookup name = none :=
      lookup_eq_none fun h => (List.nodup_cons.mp hnodup).1 (List.mem_append_right _ h)
    obtain ⟨d, hd, hentry⟩ := entry_eq hnames (hreads _ List.mem_cons_self) hfresh
    have hmove : (written.map (·.1) ++ ((name, d) :: seen).map (·.1)).Perm
        (((name, part) :: written).map (·.1) ++ seen.map (·.1)) := List.perm_middle
    obtain ⟨seen', hentries, hfulls, hkeys⟩ :=
      ih ((name, d) :: seen) (fun e he => hreads e (List.mem_cons_of_mem _ he))
        (hmove.nodup_iff.mpr hnodup) (List.forall_mem_cons.mpr ⟨hd, hseen⟩)
    refine ⟨seen', ?_, hfulls, hkeys.trans hmove⟩
    rw [ofMembers, List.foldlM_cons, hentry]
    exact hentries

/-- The fields of a record that were not seen have their defaults. -/
theorem complete_eq (seen : Members) {fulls parts : Members} {fields : Fields} :
    AbridgedFields fields fulls parts →
    (∀ e ∈ fulls, seen.lookup e.1 = some e.2 ∨
      seen.lookup e.1 = none ∧ e.1 ∉ parts.map (·.1)) →
    complete seen (ofFields fields) = some fulls
  | .done, _ => rfl
  | @AbridgedFields.kept name _ _ _ full _ fulls parts _ members, hseen => by
    have hhead : seen.lookup name = some full := by
      rcases hseen (name, full) List.mem_cons_self with h | ⟨_, h⟩
      · exact h
      · exact absurd List.mem_cons_self h
    have htail := complete_eq seen members fun e he =>
      (hseen e (List.mem_cons_of_mem _ he)).imp_right fun ⟨hnone, hnot⟩ =>
        ⟨hnone, fun h => hnot (List.mem_cons_of_mem _ h)⟩
    rw [complete] at htail ⊢
    rw [ofFields, List.mapM_cons, htail]
    simp [hhead]
  | @AbridgedFields.omitted name _ _ full fulls _ members, hseen => by
    have hhead : (seen.lookup name).orElse (fun _ => some full) = some full := by
      rcases hseen (name, full) List.mem_cons_self with h | ⟨h, _⟩
      · simp [h]
      · simp [h]
    have htail := complete_eq seen members fun e he =>
      hseen e (List.mem_cons_of_mem _ he)
    rw [complete] at htail ⊢
    rw [ofFields, List.mapM_cons, htail, hhead]
    rfl

theorem ofFields_names : ∀ fields, (ofFields fields).map (·.name) = fields.names
  | .done => rfl
  | .field name _ _ rest => congrArg (name :: ·) (ofFields_names rest)

/-- A record is read whatever the order of its entries. -/
theorem record_ofDatum {fields : Fields} {fulls parts written : Members}
    (hnames : fields.names.Nodup) (members : AbridgedFields fields fulls parts)
    (order : written.Perm parts) (hreads : ∀ e ∈ parts, Reads (ofFields fields) fulls e) :
    record (ofFields fields) (ofDatum (.record written)) = some (.record fulls) := by
  have hparts : (written.map (·.1)).Nodup :=
    (order.map _).nodup_iff.mpr (members.names_part.nodup hnames)
  obtain ⟨seen, hentries, hmem, hkeys⟩ :=
    entries_eq (by rwa [ofFields_names]) [] (fun e he => hreads e (order.mem_iff.mp he))
      (by simpa using hparts) (by simp)
  have hseen := members.seen_or_omitted hnames order hmem (by simpa using hkeys)
  simp [ofDatum, record, hentries, complete_eq seen members hseen]

-- -----------------------------------------------------------------------------
-- Data
-- -----------------------------------------------------------------------------

mutual

/-- The reader of a shape takes part of a datum for the whole. -/
theorem ofShape_ofDatum {shape : Shape} {full part : Datum} :
    Abridged shape full part → shape.proper → ofShape shape (ofDatum part) = some full
  | .integer within, _ => integer_int within
  | @Abridged.flag b, _ => by cases b <;> rfl
  | .text, _ => rfl
  | .choice spelt, _ => by
    rw [ofShape, followed_ofDatum]
    simp [ofDatum, choice, choice.variant, localTag?, spelt]
  | @Abridged.named _ s, _ => by
    rw [ofShape, followed_ofDatum, integer_text]
    rfl
  | .numbered within, _ => by
    rw [ofShape, followed_ofDatum, integer_int within]
    rfl
  | .absent, _ => rfl
  | @Abridged.present _ _ part value, hproper => by
    by_cases hnull : part = .null
    · obtain rfl := value.eq_null hnull
      subst hnull
      rfl
    · rw [ofShape, followed_ofDatum, optional_ofDatum hnull]
      exact ofShape_ofDatum value hproper
  | @Abridged.list _ _ parts items, hproper => by
    have hitems := items_ofDatum items hproper
    rw [ofShape, followed_ofDatum]
    simp [ofDatum, list, hitems]
  | .record members order, hproper => by
    obtain ⟨hnames, hfields⟩ := by simpa [Shape.proper] using hproper
    rw [ofShape, followed_ofDatum]
    exact record_ofDatum hnames members order (reads_ofDatum members hfields)

theorem items_ofDatum {shape : Shape} {fulls parts : List Datum} :
    AbridgedItems shape fulls parts → shape.proper →
    (ofItems parts).mapM (ofShape shape) = some fulls
  | .nil, _ => rfl
  | .cons item items, hproper => by
    have hhead := ofShape_ofDatum item hproper
    have htail := items_ofDatum items hproper
    simp [ofItems, hhead, htail]

/-- Every entry is read by its field. -/
theorem reads_ofDatum {fields : Fields} {fulls parts : Members} :
    AbridgedFields fields fulls parts → fields.proper →
    ∀ e ∈ parts, Reads (ofFields fields) fulls e
  | .done, _, e, he => by cases he
  | .kept value members, hproper, e, he => by
    obtain ⟨hshape, hrest⟩ := by simpa [Fields.proper] using hproper
    rcases List.mem_cons.mp he with rfl | he
    · exact ⟨_, List.mem_cons_self, _, rfl, List.mem_cons_self, ofShape_ofDatum value hshape⟩
    · exact (reads_ofDatum members hrest e he).cons
  | .omitted members, hproper, e, he => by
    obtain ⟨_, hrest⟩ := by simpa [Fields.proper] using hproper
    exact (reads_ofDatum members hrest e he).cons

end

end Reader

-- -----------------------------------------------------------------------------
-- Names
-- -----------------------------------------------------------------------------

end Yaml

mutual

/-- Whether every field has a name that can stand as a key. -/
def Shape.keyed : Shape → Bool
  | .optional shape | .list shape => shape.keyed
  | .record _ fields => fields.keyed
  | _ => true

def Fields.keyed : Fields → Bool
  | .done => true
  | .field name _ shape rest =>
    decide (Yaml.Layout.IsName name.toList) && shape.keyed && rest.keyed

end

namespace Yaml

theorem namedMembers_iff {members : List (String × Datum)} :
    NamedMembers members ↔ ∀ e ∈ members, Layout.IsName e.1.toList ∧ Named e.2 := by
  induction members with
  | nil => simp [NamedMembers]
  | cons e members ih => simp [NamedMembers, ih, and_assoc]

mutual

theorem named_of_abridged {shape : Shape} {full part : Datum} :
    Abridged shape full part → shape.keyed → Named part
  | .integer _, _ | .flag, _ | .text, _ | .choice _, _ | .named, _ | .numbered _, _
  | .absent, _ => trivial
  | .present value, h => named_of_abridged value h
  | .list items, h => namedItems_of_abridged items h
  | .record members order, h => by
    refine namedMembers_iff.mpr fun e he => ?_
    exact named_of_abridgedFields members h e (order.mem_iff.mp he)

theorem namedItems_of_abridged {shape : Shape} {fulls parts : List Datum} :
    AbridgedItems shape fulls parts → shape.keyed → NamedItems parts
  | .nil, _ => trivial
  | .cons item items, h => ⟨named_of_abridged item h, namedItems_of_abridged items h⟩

theorem named_of_abridgedFields {fields : Fields} {fulls parts : List (String × Datum)} :
    AbridgedFields fields fulls parts → fields.keyed →
    ∀ e ∈ parts, Layout.IsName e.1.toList ∧ Named e.2
  | .done, _, e, he => by cases he
  | .kept value members, h, e, he => by
    simp only [Fields.keyed, Bool.and_eq_true, decide_eq_true_eq] at h
    obtain ⟨⟨hname, hshape⟩, hrest⟩ := h
    rcases List.mem_cons.mp he with rfl | he
    · exact ⟨hname, named_of_abridged value hshape⟩
    · exact named_of_abridgedFields members hrest e he
  | .omitted members, h, e, he => by
    simp only [Fields.keyed, Bool.and_eq_true] at h
    exact named_of_abridgedFields members h.2 e he

end

-- -----------------------------------------------------------------------------
-- Whole texts
-- -----------------------------------------------------------------------------

mutual

/-- Nothing is written as an alias. -/
theorem repeats_ofDatum : ∀ d, (Node.ofDatum d).repeats = 0
  | .null | .flag _ | .int _ | .text _ => rfl
  | .list items => repeats_ofItems items
  | .record members => repeats_ofMembers members

theorem repeats_ofItems : ∀ ds, Node.repeatsOfItems (Node.ofItems ds) = 0
  | [] => rfl
  | d :: ds => by simp [Node.ofItems, Node.repeatsOfItems, repeats_ofDatum d, repeats_ofItems ds]

theorem repeats_ofMembers : ∀ members, Node.repeatsOfEntries (Node.ofMembers members) = 0
  | [] => rfl
  | (name, d) :: rest => by
    simp [Node.ofMembers, Node.repeatsOfEntries, Node.repeats, repeats_ofDatum d,
      repeats_ofMembers rest]

end

/-- A written record says what the datum in full says. -/
theorem read_write {shape : Shape} {full : Datum} {members : List (String × Datum)}
    (h : Abridged shape full (.record members)) (hne : members ≠ []) (hproper : shape.proper)
    (hkeyed : shape.keyed) : read shape (write (.record members)) = some full := by
  have hroot := document_write hne (named_of_abridged h hkeyed)
  simp [read, hroot, Reader.ofShape_ofDatum h hproper, repeats_ofDatum]

end Yaml

end SignalGuard
