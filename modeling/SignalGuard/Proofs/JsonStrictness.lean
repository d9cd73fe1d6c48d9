import SignalGuard.Description.Format
import SignalGuard.Proofs.JsonGrammar
import SignalGuard.Proofs.JsonScanning
import SignalGuard.Proofs.Meanings
import SignalGuard.Proofs.Results

/-!
# What is accepted is understood

Each reader is shown to take from the front of the tokens those of a datum that
means what the reader gives. So a text that is accepted is well formed and means
what was read. As a text holds one value only, a text with a key that is
misspelled or repeated, or with a number out of range, is refused, wherever in
the text that stands.
-/

namespace SignalGuard

-- -----------------------------------------------------------------------------
-- What the reader takes
-- -----------------------------------------------------------------------------

namespace Json

namespace Reader

/-- Whatever the reader gives stood in front, as a datum that means it. -/
def Takes (read : Reader Datum) (means : Datum → Datum → Prop) : Prop :=
  ∀ ⦃ts rest : List Token⦄ ⦃full : Datum⦄, read ts = .ok (full, rest) →
    ∃ part, ts = tokens part ++ rest ∧ means part full

theorem eq_of_skip {token : Token} {ts rest : List Token} (h : skip token ts = .ok ((), rest)) :
    ts = token :: rest := by
  cases ts with
  | nil => cases h
  | cons t ts =>
    simp only [skip] at h
    split at h
    · next ht =>
      obtain ⟨-, rfl⟩ := Prod.mk.inj (Except.ok.inj h)
      rw [ht]
    · cases h

theorem eq_of_unit {ts rest : List Token} (h : unit ts = .ok ((), rest)) : ts = .null :: rest := by
  unfold unit at h
  split at h
  · obtain ⟨-, rfl⟩ := Prod.mk.inj (Except.ok.inj h)
    rfl
  · cases h

/-- The first element has no separator, the others have one; a list ends with
its closing token. -/
theorem eq_of_more {close : Token} {first again : Bool} {ts rest : List Token}
    (h : more close first ts = .ok (again, rest)) :
    ts = if again then separator first ++ rest else close :: rest := by
  cases first with
  | true =>
    simp only [more, if_true] at h
    split at h
    · cases h
    · split at h
      · next ht =>
        obtain ⟨rfl, rfl⟩ := Prod.mk.inj (Except.ok.inj h)
        exact congrArg (· :: _) ht
      · obtain ⟨rfl, rfl⟩ := Prod.mk.inj (Except.ok.inj h)
        rfl
  | false =>
    simp only [more, Bool.false_eq_true, if_false] at h
    split at h
    · split at h
      · cases h
      · split at h
        · cases h
        · obtain ⟨rfl, rfl⟩ := Prod.mk.inj (Except.ok.inj h)
          rfl
    · obtain ⟨⟨_, _⟩, hskip, heq⟩ := Except.map_eq_ok_iff.mp h
      obtain ⟨rfl, rfl⟩ := Prod.mk.inj heq
      exact eq_of_skip hskip

theorem takes_integer (range : IntRange) : Takes (integer range) (Means (.integer range)) := by
  intro ts rest full h
  unfold integer at h
  split at h
  · next i _ =>
    split at h
    · next hwithin =>
      obtain ⟨rfl, rfl⟩ := Prod.mk.inj (Except.ok.inj h)
      exact ⟨.int i, rfl, .integer hwithin⟩
    · cases h
  · cases h

theorem takes_flag : Takes flag (Means .flag) := by
  intro ts rest full h
  unfold flag at h
  split at h
  · obtain ⟨rfl, rfl⟩ := Prod.mk.inj (Except.ok.inj h)
    exact ⟨.flag _, rfl, .flag⟩
  · cases h

theorem takes_text : Takes text (Means .text) := by
  intro ts rest full h
  unfold text at h
  split at h
  · obtain ⟨rfl, rfl⟩ := Prod.mk.inj (Except.ok.inj h)
    exact ⟨.text _, rfl, .text⟩
  · cases h

theorem eq_of_variant {spellings : List String} {s : String} {full : Datum}
    (h : variant spellings s = .ok full) : full = .text s ∧ s ∈ spellings := by
  unfold variant at h
  split at h
  · next hmem => exact ⟨(Except.ok.inj h).symm, List.contains_iff_mem.mp hmem⟩
  · cases h

theorem takes_choice (spellings : List String) :
    Takes (choice spellings) (Means (.choice spellings)) := by
  intro ts rest full h
  unfold choice at h
  split at h
  · next s _ =>
    obtain ⟨d, hvariant, h⟩ := Except.bind_eq_ok_iff.mp h
    obtain ⟨rfl, rfl⟩ := Prod.mk.inj (Except.ok.inj h)
    obtain ⟨rfl, hmem⟩ := eq_of_variant hvariant
    exact ⟨.text s, rfl, .choice hmem⟩
  · next s tail =>
    obtain ⟨d, hvariant, h⟩ := Except.bind_eq_ok_iff.mp h
    obtain ⟨⟨_, ts₁⟩, hcolon, h⟩ := Except.bind_eq_ok_iff.mp h
    obtain ⟨⟨_, ts₂⟩, hunit, h⟩ := Except.bind_eq_ok_iff.mp h
    obtain ⟨⟨_, ts₃⟩, hclose, h⟩ := Except.bind_eq_ok_iff.mp h
    obtain ⟨rfl, rfl⟩ := Prod.mk.inj (Except.ok.inj h)
    obtain ⟨rfl, hmem⟩ := eq_of_variant hvariant
    refine ⟨.record [(s, .null)], ?_, .keyed hmem⟩
    rw [eq_of_skip hcolon, eq_of_unit hunit, eq_of_skip hclose]
    rfl
  · cases h
  · cases h

theorem takes_optional {read : Reader Datum} {shape : Shape} (hread : Takes read (Means shape)) :
    Takes (optional read) (Means (.optional shape)) := by
  intro ts rest full h
  unfold optional at h
  split at h
  · obtain ⟨rfl, rfl⟩ := Prod.mk.inj (Except.ok.inj h)
    exact ⟨.null, rfl, .absent⟩
  · obtain ⟨part, hts, hmeans⟩ := hread h
    exact ⟨part, hts, .present hmeans⟩

/-- Where anything may stand, only texts and integers are read as themselves. -/
theorem eq_of_anything {limit depth : Nat} {ts rest : List Token} {d : Datum}
    (h : anything limit depth ts = .ok (d, rest)) (hd : d ≠ .null) : ts = tokens d ++ rest := by
  unfold anything at h
  split at h
  · split at h
    · cases h
    · obtain ⟨⟨_, _⟩, -, heq⟩ := Except.map_eq_ok_iff.mp h
      exact absurd (Prod.mk.inj heq).1.symm hd
  · split at h
    · cases h
    · obtain ⟨⟨_, _⟩, -, heq⟩ := Except.map_eq_ok_iff.mp h
      exact absurd (Prod.mk.inj heq).1.symm hd
  · obtain ⟨rfl, rfl⟩ := Prod.mk.inj (Except.ok.inj h)
    rfl
  · obtain ⟨rfl, rfl⟩ := Prod.mk.inj (Except.ok.inj h)
    rfl
  iterate 3 exact absurd (Prod.mk.inj (Except.ok.inj h)).1.symm hd
  · cases h

theorem takes_reference (limit : Nat) (name : String) :
    Takes (reference limit name) (Means (.reference name)) := by
  intro ts rest full h
  obtain ⟨⟨d, rest'⟩, hany, h⟩ := Except.bind_eq_ok_iff.mp h
  cases d with
  | text s =>
    obtain ⟨rfl, rfl⟩ := Prod.mk.inj (Except.ok.inj h)
    exact ⟨.text s, eq_of_anything hany (by simp), .named⟩
  | int i =>
    simp only at h
    split at h
    · next hwithin =>
      obtain ⟨rfl, rfl⟩ := Prod.mk.inj (Except.ok.inj h)
      exact ⟨.int i, eq_of_anything hany (by simp), .numbered hwithin⟩
    · cases h
  | _ => cases h

theorem items_take {read : Reader Datum} {means : Datum → Datum → Prop} (hread : Takes read means)
    {fuel : Nat} {first : Bool} {ts rest : List Token} {fulls : List Datum}
    (h : items read fuel first ts = .ok (fulls, rest)) :
    ∃ parts, ts = itemTokens first parts ++ rest ∧ List.Forall₂ means parts fulls := by
  induction fuel generalizing first ts fulls with
  | zero => cases h
  | succ fuel ih =>
    obtain ⟨⟨again, ts₁⟩, hmore, h⟩ := Except.bind_eq_ok_iff.mp h
    cases again with
    | false =>
      obtain ⟨rfl, rfl⟩ := Prod.mk.inj (Except.ok.inj h)
      exact ⟨[], eq_of_more hmore, .nil⟩
    | true =>
      obtain ⟨⟨d, ts₂⟩, hd, h⟩ := Except.bind_eq_ok_iff.mp h
      obtain ⟨⟨ds, ts₃⟩, hds, h⟩ := Except.bind_eq_ok_iff.mp h
      obtain ⟨rfl, rfl⟩ := Prod.mk.inj (Except.ok.inj h)
      obtain ⟨part, rfl, hpart⟩ := hread hd
      obtain ⟨parts, rfl, hparts⟩ := ih hds
      refine ⟨part :: parts, ?_, .cons hpart hparts⟩
      rw [eq_of_more hmore, if_pos rfl, itemTokens, List.append_assoc, List.append_assoc]

theorem takes_list {read : Reader Datum} {shape : Shape} (hread : Takes read (Means shape))
    (limit : Nat) : Takes (list limit read) (Means (.list shape)) := by
  intro ts rest full h
  unfold list at h
  split at h
  · obtain ⟨⟨fulls, _⟩, hitems, heq⟩ := Except.map_eq_ok_iff.mp h
    obtain ⟨rfl, rfl⟩ := Prod.mk.inj heq
    obtain ⟨parts, rfl, hparts⟩ := items_take hread hitems
    exact ⟨.list parts, rfl, .list (.of_forall₂ hparts)⟩
  · cases h

-- -----------------------------------------------------------------------------
-- Records
-- -----------------------------------------------------------------------------

/-- The shape of the first field with a name. -/
def shapeOf? : Fields → String → Option Shape
  | .done, _ => none
  | .field name _ shape rest, key => if name == key then some shape else shapeOf? rest key

theorem mem_names : ∀ {fields : Fields} {key : String} {shape : Shape},
    shapeOf? fields key = some shape → key ∈ fields.names
  | .field name _ _ rest, key, shape, h => by
    simp only [shapeOf?] at h
    split at h
    · next hname =>
      rw [← beq_iff_eq.mp hname]
      exact List.mem_cons_self
    · exact List.mem_cons_of_mem _ (mem_names h)

theorem shapeOf?_of_find? {limit : Nat} : ∀ {fields : Fields} {key : String} {m : Member},
    (ofFields limit fields).find? (·.name == key) = some m →
      ∃ shape, shapeOf? fields key = some shape ∧ m.read = ofShape limit shape
  | .field name _ shape rest, key, m, h => by
    simp only [ofFields, List.find?_cons] at h
    simp only [shapeOf?]
    split at h
    · next hname =>
      obtain rfl := Option.some.inj h
      exact ⟨shape, if_pos hname, rfl⟩
    · next hname =>
      rw [if_neg (by simp [hname])]
      exact shapeOf?_of_find? h

/-- What was seen is what the entries written so far say. -/
structure Understood (fields : Fields) (written seen : Members) : Prop where
  known : ∀ e ∈ written, e.1 ∈ fields.names
  once : (written.map (·.1)).Nodup
  meaning : ∀ key full, seen.lookup key = some full → ∃ part shape,
    (key, part) ∈ written ∧ shapeOf? fields key = some shape ∧ Means shape part full
  absent : ∀ key, seen.lookup key = none → key ∉ written.map (·.1)

namespace Understood

variable {fields : Fields} {written seen : Members}

theorem nil : Understood fields [] [] where
  known := by simp
  once := List.nodup_nil
  meaning _ _ h := by cases h
  absent := by simp

theorem add (h : Understood fields written seen) {key : String} {part full : Datum}
    {shape : Shape} (hfresh : seen.lookup key = none) (hshape : shapeOf? fields key = some shape)
    (hmeans : Means shape part full) :
    Understood fields (written ++ [(key, part)]) ((key, full) :: seen) where
  known := by
    simp only [List.forall_mem_append, List.forall_mem_singleton]
    exact ⟨h.known, mem_names hshape⟩
  once := by
    rw [List.map_append]
    refine List.nodup_append.mpr ⟨h.once, by simp, ?_⟩
    rintro key' hkey' _ hlast rfl
    obtain rfl : key' = key := by simpa using hlast
    exact h.absent key' hfresh hkey'
  meaning key' full' hlookup := by
    rw [List.lookup_cons] at hlookup
    split at hlookup
    · next hkey =>
      obtain rfl := beq_iff_eq.mp hkey
      obtain rfl := Option.some.inj hlookup
      exact ⟨part, shape, by simp, hshape, hmeans⟩
    · obtain ⟨part', shape', hmem, hshape', hmeans'⟩ := h.meaning key' full' hlookup
      exact ⟨part', shape', List.mem_append_left _ hmem, hshape', hmeans'⟩
  absent key' hlookup := by
    rw [List.lookup_cons] at hlookup
    split at hlookup
    · cases hlookup
    · next hkey =>
      have hne : key' ≠ key := by simpa using hkey
      simpa [hne] using h.absent key' hlookup

end Understood

theorem entry_take {limit : Nat} {fields : Fields}
    (hfields : ∀ key shape, shapeOf? fields key = some shape →
      Takes (ofShape limit shape) (Means shape))
    {seen seen' : Members} {ts rest : List Token}
    (h : entry (ofFields limit fields) seen ts = .ok (seen', rest)) :
    ∃ key part, ts = .text key :: .colon :: (tokens part ++ rest) ∧
      ∀ written, Understood fields written seen →
        Understood fields (written ++ [(key, part)]) seen' := by
  unfold entry at h
  split at h
  · next key tail =>
    split at h
    · cases h
    · next m hfind =>
      split at h
      · cases h
      · next hfresh =>
        obtain ⟨⟨_, ts₁⟩, hcolon, h⟩ := Except.bind_eq_ok_iff.mp h
        obtain ⟨⟨full, ts₂⟩, hvalue, h⟩ := Except.bind_eq_ok_iff.mp h
        obtain ⟨rfl, rfl⟩ := Prod.mk.inj (Except.ok.inj h)
        obtain ⟨shape, hshape, hread⟩ := shapeOf?_of_find? hfind
        rw [hread] at hvalue
        obtain ⟨part, rfl, hmeans⟩ := hfields key shape hshape hvalue
        refine ⟨key, part, by rw [eq_of_skip hcolon], fun written hwritten => ?_⟩
        have hnone : seen.lookup key = none := by
          rwa [Bool.not_eq_true, Option.isSome_eq_false_iff, Option.isNone_iff_eq_none] at hfresh
        exact hwritten.add hnone hshape hmeans
  · cases h

-- The induction is on the entries still to be read; those written before it are
-- arbitrary, as long as they are understood.

theorem entries_take {limit : Nat} {fields : Fields}
    (hfields : ∀ key shape, shapeOf? fields key = some shape →
      Takes (ofShape limit shape) (Means shape))
    {fuel : Nat} {first : Bool} {seen seen' : Members} {ts rest : List Token}
    (h : entries (ofFields limit fields) fuel first seen ts = .ok (seen', rest)) :
    ∃ written, ts = memberTokens first written ++ rest ∧
      ∀ earlier, Understood fields earlier seen →
        Understood fields (earlier ++ written) seen' := by
  induction fuel generalizing first seen ts with
  | zero => cases h
  | succ fuel ih =>
    obtain ⟨⟨again, ts₁⟩, hmore, h⟩ := Except.bind_eq_ok_iff.mp h
    cases again with
    | false =>
      obtain ⟨rfl, rfl⟩ := Prod.mk.inj (Except.ok.inj h)
      exact ⟨[], eq_of_more hmore, fun earlier hearlier => by rwa [List.append_nil]⟩
    | true =>
      obtain ⟨⟨seen₁, ts₂⟩, hentry, htail⟩ := Except.bind_eq_ok_iff.mp h
      obtain ⟨written, rfl, hall⟩ := ih htail
      obtain ⟨key, part, rfl, hadd⟩ := entry_take hfields hentry
      refine ⟨(key, part) :: written, ?_, fun earlier hearlier => ?_⟩
      · rw [eq_of_more hmore, if_pos rfl, memberTokens]
        simp only [List.append_assoc, List.cons_append]
      · have := hall _ (hadd earlier hearlier)
        rwa [List.append_assoc, List.singleton_append] at this

/-- A complete record has each field from its entry or by default. -/
theorem complete_means {limit : Nat} {fields : Fields} {written seen : Members}
    (hseen : Understood fields written seen) :
    ∀ {suffix : Fields} {fulls : Members},
      (∀ key shape, shapeOf? suffix key = some shape → shapeOf? fields key = some shape) →
      suffix.names.Nodup → complete seen (ofFields limit suffix) = .ok fulls →
      MeansFields suffix written fulls
  | .done, fulls, _, _, h => by
    obtain rfl := Except.ok.inj h
    exact .done
  | .field name default? shape rest, fulls, hsuffix, hnodup, h => by
    obtain ⟨hname, hnames⟩ := List.nodup_cons.mp hnodup
    have hrest : ∀ key shape', shapeOf? rest key = some shape' →
        shapeOf? fields key = some shape' := fun key shape' hkey => by
      have hne : name ≠ key := fun heq => hname (heq ▸ mem_names hkey)
      exact hsuffix key shape' (by simp [shapeOf?, hne, hkey])
    simp only [ofFields, complete] at h
    cases hlookup : seen.lookup name with
    | some full =>
      simp only [hlookup, Option.orElse_some] at h
      obtain ⟨fulls', htail, rfl⟩ := Except.map_eq_ok_iff.mp h
      obtain ⟨part, shape', hmem, hshape', hmeans⟩ := hseen.meaning name full hlookup
      obtain rfl : shape' = shape :=
        Option.some.inj (hshape'.symm.trans (hsuffix name shape (by simp [shapeOf?])))
      exact .given hmem hmeans (complete_means hseen hrest hnames htail)
    | none =>
      simp only [hlookup, Option.orElse_none] at h
      cases default? with
      | none => cases h
      | some full =>
        obtain ⟨fulls', htail, rfl⟩ := Except.map_eq_ok_iff.mp h
        exact .left (hseen.absent name hlookup) (complete_means hseen hrest hnames htail)

/-- The fields behind the last that is given have their defaults. -/
theorem remaining_means {limit : Nat} {record : String} {count : Nat} :
    ∀ {fields : Fields} {index : Nat} {fulls : Members},
      remaining record count index (ofFields limit fields) = .ok fulls →
      MeansPositions fields [] fulls
  | .done, _, _, h => by
    obtain rfl := Except.ok.inj h
    exact .done
  | .field _ none _ _, _, _, h => by cases h
  | .field _ (some _) _ _, _, _, h => by
    obtain ⟨fulls', htail, rfl⟩ := Except.map_eq_ok_iff.mp h
    exact .left (remaining_means htail)

mutual

/-- The reader of a proper shape understands what it takes. -/
theorem takes_ofShape (limit : Nat) : ∀ {shape : Shape}, shape.proper →
    Takes (ofShape limit shape) (Means shape)
  | .integer range, _ => takes_integer range
  | .flag, _ => takes_flag
  | .text, _ => takes_text
  | .choice spellings, _ => takes_choice spellings
  | .reference name, _ => takes_reference limit name
  | .optional shape, hproper =>
    have hshape : shape.proper := hproper
    takes_optional (takes_ofShape limit hshape)
  | .list shape, hproper =>
    have hshape : shape.proper := hproper
    takes_list (takes_ofShape limit hshape) limit
  | .record name fields, hproper => by
    obtain ⟨hnames, hfields⟩ := by simpa [Shape.proper] using hproper
    intro ts rest full h
    rw [ofShape] at h
    unfold record at h
    split at h
    · obtain ⟨⟨seen, ts₁⟩, hentries, h⟩ := Except.bind_eq_ok_iff.mp h
      obtain ⟨fulls, hcomplete, h⟩ := Except.bind_eq_ok_iff.mp h
      obtain ⟨rfl, rfl⟩ := Prod.mk.inj (Except.ok.inj h)
      obtain ⟨written, rfl, hwritten⟩ := entries_take (takes_ofFields limit hfields) hentries
      have hseen := hwritten [] .nil
      exact ⟨.record written, rfl, .record hseen.known hseen.once
        (complete_means hseen (fun _ _ h => h) hnames hcomplete)⟩
    · obtain ⟨⟨fulls, ts₁⟩, hpositional, h⟩ := Except.bind_eq_ok_iff.mp h
      obtain ⟨rfl, rfl⟩ := Prod.mk.inj (Except.ok.inj h)
      obtain ⟨parts, rfl, hparts⟩ := positional_takes limit hfields hpositional
      exact ⟨.list parts, rfl, .positional hparts⟩
    · cases h

theorem takes_ofFields (limit : Nat) : ∀ {fields : Fields}, fields.proper →
    ∀ key shape, shapeOf? fields key = some shape → Takes (ofShape limit shape) (Means shape)
  | .field name _ _ _, hproper, key, shape, h => by
    obtain ⟨hshape, hrest⟩ := by simpa [Fields.proper] using hproper
    simp only [shapeOf?] at h
    split at h
    · obtain rfl := Option.some.inj h
      exact takes_ofShape limit hshape
    · exact takes_ofFields limit hrest key shape h

theorem positional_takes (limit : Nat) {record : String} {count : Nat} :
    ∀ {fields : Fields}, fields.proper → ∀ {index : Nat} {ts rest : List Token}
      {fulls : Members},
      positional record count index (ofFields limit fields) ts = .ok (fulls, rest) →
      ∃ parts, ts = itemTokens (index == 0) parts ++ rest ∧ MeansPositions fields parts fulls
  | .done, _, index, ts, rest, fulls, h => by
    simp only [ofFields, positional] at h
    split at h
    · obtain ⟨rfl, rfl⟩ := Prod.mk.inj (Except.ok.inj h)
      exact ⟨[], rfl, .done⟩
    · cases h
  | .field name default? shape fields, hproper, index, ts, rest, fulls, h => by
    obtain ⟨hshape, hrest⟩ := by simpa [Fields.proper] using hproper
    obtain ⟨⟨again, ts₁⟩, hmore, h⟩ := Except.bind_eq_ok_iff.mp h
    cases again with
    | false =>
      obtain ⟨fulls', hremaining, h⟩ := Except.bind_eq_ok_iff.mp h
      obtain ⟨rfl, rfl⟩ := Prod.mk.inj (Except.ok.inj h)
      have hmembers : MeansPositions (.field name default? shape fields) [] fulls' :=
        remaining_means hremaining
      exact ⟨[], eq_of_more hmore, hmembers⟩
    | true =>
      obtain ⟨⟨full, ts₂⟩, hfull, h⟩ := Except.bind_eq_ok_iff.mp h
      obtain ⟨⟨fulls', ts₃⟩, hfulls, h⟩ := Except.bind_eq_ok_iff.mp h
      obtain ⟨rfl, rfl⟩ := Prod.mk.inj (Except.ok.inj h)
      obtain ⟨part, rfl, hpart⟩ := takes_ofShape limit hshape hfull
      obtain ⟨parts, rfl, hparts⟩ := positional_takes limit hrest hfulls
      refine ⟨part :: parts, ?_, .given hpart hparts⟩
      rw [eq_of_more hmore, if_pos rfl, itemTokens, List.append_assoc, List.append_assoc]
      rfl

end

end Reader

-- -----------------------------------------------------------------------------
-- Whole texts
-- -----------------------------------------------------------------------------

mutual

/-- The tokens of a datum have spellings. -/
theorem plain_tokens : ∀ (d : Datum), ∀ t ∈ tokens d, t.plain
  | .null | .flag _ | .int _ | .text _ => by simp [tokens, Token.plain]
  | .list ds => List.forall_mem_cons.mpr ⟨rfl, plain_itemTokens true ds⟩
  | .record ms => List.forall_mem_cons.mpr ⟨rfl, plain_memberTokens true ms⟩

theorem plain_itemTokens (first : Bool) : ∀ (ds : List Datum), ∀ t ∈ itemTokens first ds, t.plain
  | [] => by simp [itemTokens, Token.plain]
  | d :: ds => by
    simp only [itemTokens, List.forall_mem_append]
    refine ⟨?_, plain_tokens d, plain_itemTokens false ds⟩
    cases first <;> simp [separator, Token.plain]

theorem plain_memberTokens (first : Bool) : ∀ (ms : List (String × Datum)),
    ∀ t ∈ memberTokens first ms, t.plain
  | [] => by simp [memberTokens, Token.plain]
  | (_, d) :: ms => by
    simp only [memberTokens, List.forall_mem_append, List.forall_mem_cons]
    refine ⟨?_, rfl, rfl, plain_tokens d, plain_memberTokens false ms⟩
    cases first <;> simp [separator, Token.plain]

end

/-- A text that is read spells out a datum that means what was read. -/
theorem means_of_read {shape : Shape} {s : String} {full : Datum} (hproper : shape.proper)
    (h : read shape s = .ok full) :
    ∃ part, Means shape part full ∧ Spaced (tokens part) s.toList := by
  simp only [read] at h
  split at h
  · cases h
  · next d htokens =>
    obtain rfl := Except.ok.inj h
    obtain ⟨part, hts, hmeans⟩ := Reader.takes_ofShape _ hproper htokens
    rw [List.append_nil] at hts
    have hspaced := Token.spaced_of_ofString (s := s) (hts ▸ plain_tokens part)
    exact ⟨part, hmeans, hts ▸ hspaced⟩
  · cases h

/-- A text is accepted exactly if it spells out something with a meaning. -/
theorem read_eq_ok_iff {shape : Shape} {s : String} {full : Datum} (hproper : shape.proper) :
    read shape s = .ok full ↔ ∃ part, Means shape part full ∧ Spaced (tokens part) s.toList :=
  ⟨means_of_read hproper, fun ⟨_, hmeans, hspaced⟩ => read_spaced hmeans hproper hspaced⟩

end Json

-- -----------------------------------------------------------------------------
-- Main statement
-- -----------------------------------------------------------------------------

namespace EngineDescription

theorem furnished_shape : shape.furnished := by decide

/-- A text that is accepted holds one value, and what the value means, entry by
entry, is the description. -/
theorem ofJson_strict {s : String} {d : EngineDescription} (h : ofJson s = .ok d) :
    ∃ part, Means shape part d.toDatum ∧ (Json.Value.ofDatum part).Spells s ∧
      ∀ v : Json.Value, v.Spells s → v = .ofDatum part := by
  unfold ofJson at h
  split at h
  · next full hread =>
    obtain rfl := Except.ok.inj h
    obtain ⟨part, hmeans, hspaced⟩ := Json.means_of_read codec.proper hread
    have hspells := Json.Value.spells_ofDatum hspaced
    refine ⟨part, ?_, hspells, fun v hv => hv.unique hspells⟩
    rwa [toDatum_ofDatum (hmeans.admits furnished_shape)]
  · cases h

/-- A scale and a limp action by position, and a level as a key. -/
def terseText : String :=
  "\x7b\"scales\": [[1, 2, 1000, -5]], \"fault_monitors\": [\x7b\"limp\": [0, -500], " ++
    "\"fault_level\": \x7b\"error\": null\x7d, \"fault_output\": 4, \"watched\": 3\x7d]\x7d"

def terse : EngineDescription :=
  { empty with
    scales := [(Scale.ofSignals ⟨1⟩ ⟨2⟩).withOffset (-5)]
    monitors := [{ MonitorConfig.ofSignals ⟨3⟩ ⟨4⟩ .error with
      limp := some ⟨0, some (-500), none, none, 0⟩ }] }

theorem ofJson_terse :
    ofJson terseText = .ok terse ∧
      ∃ part, Means shape part terse.toDatum ∧ (Json.Value.ofDatum part).Spells terseText ∧
        ∀ v : Json.Value, v.Spells terseText → v = .ofDatum part :=
  have h : ofJson terseText = .ok terse := by decide +kernel
  ⟨h, ofJson_strict h⟩

end EngineDescription

end SignalGuard
