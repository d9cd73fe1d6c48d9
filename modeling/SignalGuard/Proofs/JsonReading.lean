import SignalGuard.Json.Reader
import SignalGuard.Proofs.JsonLexemes
import SignalGuard.Proofs.Meanings

/-!
# Reading data

`tokens` is a datum as JSON has it: commas between elements, keys before
members. The reader of a proper shape takes the tokens of a datum for what the
datum means, whatever follows. The induction is on the meaning; its cases are
those of the reader.
-/

namespace SignalGuard.Json

-- -----------------------------------------------------------------------------
-- Tokens of a datum
-- -----------------------------------------------------------------------------

/-- What stands before an element of a list or map. -/
def separator (first : Bool) : List Token := if first then [] else [.comma]

mutual

def tokens : Datum → List Token
  | .null => [.null]
  | .flag b => [.flag b]
  | .int i => [.number (.int i)]
  | .text s => [.text s]
  | .list ds => .openList :: itemTokens true ds
  | .record ms => .openMap :: memberTokens true ms

/-- Elements and the end of their list. -/
def itemTokens (first : Bool) : List Datum → List Token
  | [] => [.closeList]
  | d :: ds => separator first ++ (tokens d ++ itemTokens false ds)

/-- Entries and the end of their map. -/
def memberTokens (first : Bool) : List (String × Datum) → List Token
  | [] => [.closeMap]
  | (name, d) :: ms =>
    separator first ++ (.text name :: .colon :: (tokens d ++ memberTokens false ms))

end

/-- A datum does not begin with the end of a list. -/
theorem tokens_eq_cons (d : Datum) : ∃ t ts, tokens d = t :: ts ∧ t ≠ .closeList := by
  cases d <;> exact ⟨_, _, rfl, by simp⟩

theorem tokens_length_pos (d : Datum) : 0 < (tokens d).length := by
  obtain ⟨t, ts, h, _⟩ := tokens_eq_cons d
  rw [h]
  exact Nat.succ_pos _

theorem length_lt_itemTokens (first : Bool) (ds : List Datum) :
    ds.length < (itemTokens first ds).length := by
  induction ds generalizing first with
  | nil => exact Nat.one_pos
  | cons d ds ih =>
    have hd := tokens_length_pos d
    have hds := ih false
    simp only [itemTokens, List.length_append, List.length_cons]
    omega

theorem length_lt_memberTokens (first : Bool) (ms : List (String × Datum)) :
    ms.length < (memberTokens first ms).length := by
  induction ms generalizing first with
  | nil => exact Nat.one_pos
  | cons m ms ih =>
    have hms := ih false
    simp only [memberTokens, List.length_append, List.length_cons]
    omega

/-- The value of an entry is no longer than its map. -/
theorem length_le_memberTokens (first : Bool) {ms : List (String × Datum)} {e : String × Datum}
    (he : e ∈ ms) : (tokens e.2).length ≤ (memberTokens first ms).length := by
  induction ms generalizing first with
  | nil => cases he
  | cons m ms ih =>
    simp only [memberTokens, List.length_append, List.length_cons]
    rcases List.mem_cons.mp he with rfl | he
    · omega
    · have := ih false he
      omega

-- -----------------------------------------------------------------------------
-- Steps of the reader
-- -----------------------------------------------------------------------------

namespace Reader

/-- One more element stands behind its separator. -/
theorem more_separator {close t : Token} (h : t ≠ close) (first : Bool) (ts : List Token) :
    more close first (separator first ++ t :: ts) = .ok (true, t :: ts) := by
  cases first <;> simp [more, separator, h]

/-- No more element stands before the end. -/
theorem more_close {close : Token} (h : close ≠ .comma) (first : Bool) (ts : List Token) :
    more close first (close :: ts) = .ok (false, ts) := by
  cases first
  · cases close <;> simp_all [more, skip, Except.map]
  · simp [more]

/-- Only null is read as nothing. -/
theorem optional_tokens {d : Datum} (h : d ≠ .null) (read : Reader Datum) (rest : List Token) :
    optional read (tokens d ++ rest) = read (tokens d ++ rest) := by
  cases d with
  | null => exact absurd rfl h
  | _ => rfl

theorem more_itemTokens (first : Bool) (d : Datum) (ds : List Datum) (rest : List Token) :
    more .closeList first (itemTokens first (d :: ds) ++ rest) =
      .ok (true, tokens d ++ (itemTokens false ds ++ rest)) := by
  obtain ⟨t, ts, htokens, ht⟩ := tokens_eq_cons d
  simp only [itemTokens, List.append_assoc, htokens, List.cons_append]
  exact more_separator ht first _

theorem items_cons {read : Reader Datum} {full part : Datum} {fulls parts : List Datum}
    {first : Bool} {fuel : Nat} {rest : List Token}
    (hread : ∀ rest, read (tokens part ++ rest) = .ok (full, rest))
    (hitems : items read fuel false (itemTokens false parts ++ rest) = .ok (fulls, rest)) :
    items read (fuel + 1) first (itemTokens first (part :: parts) ++ rest) =
      .ok (full :: fulls, rest) := by
  simp only [items, more_itemTokens, bind, Except.bind, hread, hitems, pure, Except.pure]

theorem items_nil (read : Reader Datum) (fuel : Nat) (first : Bool) (rest : List Token) :
    items read (fuel + 1) first (itemTokens first [] ++ rest) = .ok ([], rest) := by
  have hmore : more .closeList first (itemTokens first [] ++ rest) = .ok (false, rest) :=
    more_close (by simp) first rest
  simp only [items, hmore, bind, Except.bind, pure, Except.pure]

/-- What an entry says is a member of the full record, and one of the fields
reads it. -/
def Reads (members : List Member) (fulls : Members) (e : String × Datum) : Prop :=
  ∃ m ∈ members, ∃ d, m.name = e.1 ∧ (e.1, d) ∈ fulls ∧
    ∀ rest, m.read (tokens e.2 ++ rest) = .ok (d, rest)

theorem Reads.cons {m : Member} {members : List Member} {full : String × Datum} {fulls : Members}
    {e : String × Datum} : Reads members fulls e → Reads (m :: members) (full :: fulls) e
  | ⟨m', hm', d, hname, hd, hread⟩ =>
    ⟨m', List.mem_cons_of_mem _ hm', d, hname, List.mem_cons_of_mem _ hd, hread⟩

theorem entry_eq {members : List Member} {fulls seen : Members} {e : String × Datum}
    (hnames : (members.map (·.name)).Nodup) (hreads : Reads members fulls e)
    (hfresh : seen.lookup e.1 = none) :
    ∃ d, (e.1, d) ∈ fulls ∧ ∀ rest,
      entry members seen (.text e.1 :: .colon :: (tokens e.2 ++ rest)) =
        .ok ((e.1, d) :: seen, rest) := by
  obtain ⟨m, hm, d, hname, hd, hread⟩ := hreads
  have hfind : members.find? (·.name == e.1) = some m := by
    rw [← hname]
    exact find?_of_nodup hnames hm
  refine ⟨d, hd, fun rest => ?_⟩
  simp [entry, hfind, hfresh, skip, hread, bind, Except.bind, pure, Except.pure]

-- The induction is on the entries still to be read. What was seen so far are
-- members of the full record, and no entry to come has one of their names.

/-- Entries in any order are read into members of the full record, one for each
entry. -/
theorem entries_eq {members : List Member} {fulls : Members}
    (hnames : (members.map (·.name)).Nodup) (rest : List Token) {written : Members} :
    ∀ (fuel : Nat) (first : Bool) (seen : Members), (∀ e ∈ written, Reads members fulls e) →
      (written.map (·.1) ++ seen.map (·.1)).Nodup → (∀ e ∈ seen, e ∈ fulls) →
      written.length < fuel →
      ∃ seen', entries members fuel first seen (memberTokens first written ++ rest) =
          .ok (seen', rest) ∧
        (∀ e ∈ seen', e ∈ fulls) ∧
        (seen'.map (·.1)).Perm (written.map (·.1) ++ seen.map (·.1)) := by
  induction written with
  | nil =>
    intro fuel first seen _ _ hseen hfuel
    obtain ⟨fuel, rfl⟩ : ∃ n, fuel = n + 1 := ⟨fuel - 1, by omega⟩
    have hmore : more .closeMap first (memberTokens first [] ++ rest) = .ok (false, rest) :=
      more_close (by simp) first rest
    exact ⟨seen, by simp only [entries, hmore, bind, Except.bind, pure, Except.pure], hseen,
      .refl _⟩
  | cons e written ih =>
    intro fuel first seen hreads hnodup hseen hfuel
    obtain ⟨fuel, rfl⟩ : ∃ n, fuel = n + 1 := ⟨fuel - 1, by omega⟩
    have hfresh : seen.lookup e.1 = none :=
      lookup_eq_none fun h => (List.nodup_cons.mp hnodup).1 (List.mem_append_right _ h)
    obtain ⟨d, hd, hentry⟩ := entry_eq hnames (hreads e List.mem_cons_self) hfresh
    have hmove : (written.map (·.1) ++ ((e.1, d) :: seen).map (·.1)).Perm
        ((e :: written).map (·.1) ++ seen.map (·.1)) := List.perm_middle
    obtain ⟨seen', hentries, hfulls, hkeys⟩ :=
      ih fuel false ((e.1, d) :: seen) (fun e' he' => hreads e' (List.mem_cons_of_mem _ he'))
        (hmove.nodup_iff.mpr hnodup)
        (by
          intro e' he'
          rcases List.mem_cons.mp he' with rfl | he'
          · exact hd
          · exact hseen e' he')
        (by simpa using hfuel)
    refine ⟨seen', ?_, hfulls, hkeys.trans hmove⟩
    have hmore : more .closeMap first (memberTokens first (e :: written) ++ rest) =
        .ok (true,
          .text e.1 :: .colon :: (tokens e.2 ++ (memberTokens false written ++ rest))) := by
      simp only [memberTokens, List.append_assoc, List.cons_append]
      exact more_separator (by simp) first _
    simp only [entries, hmore, bind, Except.bind, hentry, hentries]

theorem ofFields_names (limit : Nat) : ∀ fields, (ofFields limit fields).map (·.name) = fields.names
  | .done => rfl
  | .field name _ _ rest => congrArg (name :: ·) (ofFields_names limit rest)

/-- The fields of a record that were not seen have their defaults. -/
theorem complete_eq (limit : Nat) (seen : Members) {written fulls : Members} {fields : Fields} :
    MeansFields fields written fulls →
    (∀ e ∈ fulls, seen.lookup e.1 = some e.2 ∨
      seen.lookup e.1 = none ∧ e.1 ∉ written.map (·.1)) →
    complete seen (ofFields limit fields) = .ok fulls
  | .done, _ => rfl
  | @MeansFields.given name _ _ _ _ full _ fulls entry _ members, hseen => by
    obtain ⟨hhead, htail⟩ := List.forall_mem_cons.mp hseen
    have hlookup : seen.lookup name = some full := by
      rcases hhead with h | ⟨_, h⟩
      · exact h
      · exact absurd (List.mem_map_of_mem entry) h
    simp [ofFields, complete, hlookup, complete_eq limit seen members htail, Except.map]
  | @MeansFields.left name _ _ full _ fulls _ members, hseen => by
    obtain ⟨hhead, htail⟩ := List.forall_mem_cons.mp hseen
    have hlookup : (seen.lookup name).orElse (fun _ => some full) = some full := by
      rcases hhead with h | ⟨h, _⟩ <;> simp [h]
    simp only [ofFields, complete, hlookup, complete_eq limit seen members htail, Except.map]

/-- A record is read whatever the order of its entries. -/
theorem record_tokens {limit : Nat} {name : String} {fields : Fields} {written fulls : Members}
    (hnames : fields.names.Nodup) (once : (written.map (·.1)).Nodup)
    (members : MeansFields fields written fulls)
    (hreads : ∀ e ∈ written, Reads (ofFields limit fields) fulls e)
    (hlimit : (tokens (.record written)).length ≤ limit) (rest : List Token) :
    record limit name (ofFields limit fields) (tokens (.record written) ++ rest) =
      .ok (.record fulls, rest) := by
  obtain ⟨seen, hentries, hmem, hkeys⟩ :=
    entries_eq (by rwa [ofFields_names]) rest limit true [] hreads (by simpa using once) (by simp)
      (Nat.lt_of_lt_of_le (length_lt_memberTokens true written) (Nat.le_of_succ_le hlimit))
  rw [List.map_nil, List.append_nil] at hkeys
  have hfulls : (fulls.map (·.1)).Nodup := by rwa [members.names_full]
  have hseen : ∀ e ∈ fulls, seen.lookup e.1 = some e.2 ∨
      seen.lookup e.1 = none ∧ e.1 ∉ written.map (·.1) := fun e he =>
    (lookup_of_subset (hkeys.nodup_iff.mpr once) hfulls hmem he).imp_right fun ⟨hnone, hnot⟩ =>
      ⟨hnone, fun h => hnot (hkeys.mem_iff.mpr h)⟩
  simp [tokens, record, hentries, complete_eq limit seen members hseen, bind, Except.bind, pure,
    Except.pure]

/-- The fields that a list leaves out have their defaults. -/
theorem remaining_eq (limit : Nat) (record : String) (count : Nat) {fulls : Members}
    {fields : Fields} (index : Nat) : MeansPositions fields [] fulls →
    remaining record count index (ofFields limit fields) = .ok fulls
  | .done => rfl
  | .left members => by
    simp only [ofFields, remaining, remaining_eq limit record count (index + 1) members, Except.map]

-- The lengths are needed only because a reader goes around at most `limit`
-- times: a datum has fewer elements than tokens.

mutual

/-- The reader of a shape takes a datum for what it means. -/
theorem ofShape_tokens {limit : Nat} {shape : Shape} {part full : Datum} :
    Means shape part full → shape.proper → (tokens part).length ≤ limit →
    ∀ rest, ofShape limit shape (tokens part ++ rest) = .ok (full, rest)
  | .integer within, _, _, rest => by simp [ofShape, tokens, integer, within]
  | .flag, _, _, _ => rfl
  | .text, _, _, _ => rfl
  | .choice spelt, _, _, rest => by
    simp [ofShape, tokens, choice, variant, spelt, bind, Except.bind, pure, Except.pure]
  | .keyed spelt, _, _, rest => by
    simp [ofShape, tokens, memberTokens, separator, choice, variant, spelt, skip, unit, bind,
      Except.bind, pure, Except.pure]
  | .named, _, _, _ => rfl
  | .numbered within, _, _, rest => by
    simp [ofShape, tokens, reference, anything, within, bind, Except.bind, pure, Except.pure]
  | .absent, _, _, _ => rfl
  | @Means.present _ part _ value, hproper, hlimit, rest => by
    by_cases hnull : part = .null
    · obtain rfl := value.eq_null hnull
      subst hnull
      rfl
    · rw [ofShape, optional_tokens hnull]
      exact ofShape_tokens value hproper hlimit rest
  | @Means.list _ parts _ items, hproper, hlimit, rest => by
    have hitems := items_tokens items hproper (Nat.le_of_succ_le hlimit)
      (Nat.lt_of_lt_of_le (length_lt_itemTokens true parts) (Nat.le_of_succ_le hlimit)) rest
    simp [ofShape, tokens, list, hitems, Except.map]
  | .record known once members, hproper, hlimit, rest => by
    obtain ⟨hnames, hfields⟩ := by simpa [Shape.proper] using hproper
    have hreads := reads_tokens members hfields once fun e he =>
      Nat.le_trans (length_le_memberTokens true he) (Nat.le_of_succ_le hlimit)
    exact record_tokens hnames once members (fun e he => hreads e he (known e he)) hlimit rest
  | @Means.positional name fields parts fulls members, hproper, hlimit, rest => by
    obtain ⟨_, hfields⟩ := by simpa [Shape.proper] using hproper
    have hpositional : positional name (ofFields limit fields).length 0 (ofFields limit fields)
        (itemTokens true parts ++ rest) = .ok (fulls, rest) :=
      positional_tokens members hfields (Nat.le_of_succ_le hlimit) rest
    simp [ofShape, tokens, record, hpositional, bind, Except.bind, pure, Except.pure]

theorem items_tokens {limit : Nat} {shape : Shape} {parts fulls : List Datum} {first : Bool} :
    MeansItems shape parts fulls → shape.proper → (itemTokens first parts).length ≤ limit →
    ∀ {fuel : Nat}, parts.length < fuel →
    ∀ rest, items (ofShape limit shape) fuel first (itemTokens first parts ++ rest) =
      .ok (fulls, rest)
  | .nil, _, _, fuel, hfuel, rest => by
    obtain ⟨fuel, rfl⟩ : ∃ n, fuel = n + 1 := ⟨fuel - 1, by omega⟩
    exact items_nil _ fuel first rest
  | .cons item items, hproper, hlimit, fuel, hfuel, rest => by
    simp only [itemTokens, List.length_append] at hlimit
    obtain ⟨fuel, rfl⟩ : ∃ n, fuel = n + 1 := ⟨fuel - 1, by omega⟩
    exact items_cons (ofShape_tokens item hproper (by omega))
      (items_tokens items hproper (by omega) (by simpa using hfuel) rest)

/-- Every entry is read by its field. -/
theorem reads_tokens {limit : Nat} {fields : Fields} {written fulls : Members} :
    MeansFields fields written fulls → fields.proper → (written.map (·.1)).Nodup →
    (∀ e ∈ written, (tokens e.2).length ≤ limit) →
    ∀ e ∈ written, e.1 ∈ fields.names → Reads (ofFields limit fields) fulls e
  | .done, _, _, _, e, _, hname => by cases hname
  | @MeansFields.given name _ _ _ _ _ _ _ entry value members, hproper, once, hlimit, e, he,
    hname => by
    obtain ⟨hshape, hrest⟩ := by simpa [Fields.proper] using hproper
    rcases List.mem_cons.mp hname with hhead | hname
    · obtain rfl : e = (name, _) := List.inj_on_of_nodup_map once he entry hhead
      exact ⟨_, List.mem_cons_self, _, rfl, List.mem_cons_self,
        ofShape_tokens value hshape (hlimit _ entry)⟩
    · exact (reads_tokens members hrest once hlimit e he hname).cons
  | .left absent members, hproper, once, hlimit, e, he, hname => by
    obtain ⟨_, hrest⟩ := by simpa [Fields.proper] using hproper
    rcases List.mem_cons.mp hname with rfl | hname
    · exact absurd (List.mem_map_of_mem he) absent
    · exact (reads_tokens members hrest once hlimit e he hname).cons

/-- Fields in order are read one after another. -/
theorem positional_tokens {limit : Nat} {record : String} {count index : Nat} {fields : Fields}
    {parts : List Datum} {fulls : Members} :
    MeansPositions fields parts fulls → fields.proper →
    (itemTokens (index == 0) parts).length ≤ limit →
    ∀ rest, positional record count index (ofFields limit fields)
      (itemTokens (index == 0) parts ++ rest) = .ok (fulls, rest)
  | .done, _, _, _ => rfl
  | @MeansPositions.given _ _ _ _ part _ parts fulls value members, hproper, hlimit, rest => by
    obtain ⟨hshape, hrest⟩ := by simpa [Fields.proper] using hproper
    simp only [itemTokens, List.length_append] at hlimit
    have hpart : (tokens part).length ≤ limit := by omega
    have hmembers : positional record count (index + 1) (ofFields limit _)
        (itemTokens false parts ++ rest) = .ok (fulls, rest) :=
      positional_tokens members hrest (by simpa using (by omega)) rest
    simp only [ofFields, positional, more_itemTokens, bind, Except.bind, pure, Except.pure,
      ofShape_tokens value hshape hpart, hmembers]
  | @MeansPositions.left name shape others full fulls members, _, _, rest => by
    have hmore : more .closeList (index == 0) (itemTokens (index == 0) [] ++ rest) =
        .ok (false, rest) := more_close (by simp) _ rest
    have hall : MeansPositions (.field name (some full) shape others) [] ((name, full) :: fulls) :=
      .left members
    have hremaining := remaining_eq limit record count index hall
    rw [ofFields] at hremaining ⊢
    simp only [positional, hmore, hremaining, bind, Except.bind, pure, Except.pure]

end

end Reader

-- -----------------------------------------------------------------------------
-- Whole texts
-- -----------------------------------------------------------------------------

/-- Whether numbers end before the tokens. -/
def Closing (ts : List Token) : Prop := ∀ t ∈ ts.head?, t.closes

theorem closing_itemTokens (ds : List Datum) (rest : List Token) :
    Closing (itemTokens false ds ++ rest) := by
  cases ds <;> simp [Closing, itemTokens, separator, Token.closes]

theorem closing_memberTokens (ms : List (String × Datum)) (rest : List Token) :
    Closing (memberTokens false ms ++ rest) := by
  cases ms <;> simp [Closing, memberTokens, separator, Token.closes]

theorem legible_separator {first : Bool} {ts : List Token} (h : Legible ts) :
    Legible (separator first ++ ts) := by
  cases first <;> exact h

/-- Whether the tokens of the datum can be told apart from what closes them. -/
def Clear (d : Datum) : Prop :=
  ∀ rest, Closing rest → Legible rest → Legible (tokens d ++ rest)

theorem legible_itemTokens {ds : List Datum} (h : ∀ d ∈ ds, Clear d) :
    ∀ (first : Bool) {rest : List Token}, Legible rest →
      Legible (itemTokens first ds ++ rest) := by
  induction ds with
  | nil => exact fun _ _ hrest => hrest
  | cons d ds ih =>
    obtain ⟨hd, hds⟩ := List.forall_mem_cons.mp h
    intro first rest hrest
    have hhead := hd _ (closing_itemTokens ds rest) (ih hds false hrest)
    simp only [itemTokens, List.append_assoc]
    exact legible_separator hhead

theorem legible_memberTokens {ms : List (String × Datum)} (h : ∀ e ∈ ms, Clear e.2) :
    ∀ (first : Bool) {rest : List Token}, Legible rest →
      Legible (memberTokens first ms ++ rest) := by
  induction ms with
  | nil => exact fun _ _ hrest => hrest
  | cons e ms ih =>
    obtain ⟨he, hms⟩ := List.forall_mem_cons.mp h
    intro first rest hrest
    have hhead := he _ (closing_memberTokens ms rest) (ih hms false hrest)
    simp only [memberTokens, List.append_assoc, List.cons_append]
    exact legible_separator hhead

mutual

/-- The tokens of data that mean something can be told apart. -/
theorem clear_of_means {shape : Shape} {part full : Datum} :
    Means shape part full → shape.proper → Clear part
  | .integer within, hproper, _, hclosing, hrest =>
    ⟨IntRange.word_of_proper hproper within, hclosing, hrest⟩
  | .flag, _, _, _, hrest | .text, _, _, _, hrest | .choice _, _, _, _, hrest
  | .keyed _, _, _, _, hrest | .named, _, _, _, hrest | .absent, _, _, _, hrest => hrest
  | .numbered within, _, _, hclosing, hrest =>
    ⟨IntRange.word_of_proper (by decide) within, hclosing, hrest⟩
  | .present value, hproper, rest, hclosing, hrest =>
    clear_of_means value hproper rest hclosing hrest
  | .list items, hproper, _, _, hrest => legible_itemTokens (clear_items items hproper) true hrest
  | .record known once members, hproper, _, _, hrest => by
    obtain ⟨_, hfields⟩ := by simpa [Shape.proper] using hproper
    have hclear := clear_fields members hfields once
    exact legible_memberTokens (fun e he => hclear e he (known e he)) true hrest
  | .positional members, hproper, _, _, hrest => by
    obtain ⟨_, hfields⟩ := by simpa [Shape.proper] using hproper
    exact legible_itemTokens (clear_positions members hfields) true hrest

theorem clear_items {shape : Shape} {parts fulls : List Datum} :
    MeansItems shape parts fulls → shape.proper → ∀ d ∈ parts, Clear d
  | .nil, _ => by simp
  | .cons item items, hproper =>
    List.forall_mem_cons.mpr ⟨clear_of_means item hproper, clear_items items hproper⟩

theorem clear_fields {fields : Fields} {written fulls : List (String × Datum)} :
    MeansFields fields written fulls → fields.proper → (written.map (·.1)).Nodup →
    ∀ e ∈ written, e.1 ∈ fields.names → Clear e.2
  | .done, _, _, e, _, hname => by cases hname
  | @MeansFields.given name _ _ _ _ _ _ _ entry value members, hproper, once, e, he, hname => by
    obtain ⟨hshape, hrest⟩ := by simpa [Fields.proper] using hproper
    rcases List.mem_cons.mp hname with hhead | hname
    · obtain rfl : e = (name, _) := List.inj_on_of_nodup_map once he entry hhead
      exact clear_of_means value hshape
    · exact clear_fields members hrest once e he hname
  | .left absent members, hproper, once, e, he, hname => by
    obtain ⟨_, hrest⟩ := by simpa [Fields.proper] using hproper
    rcases List.mem_cons.mp hname with rfl | hname
    · exact absurd (List.mem_map_of_mem he) absent
    · exact clear_fields members hrest once e he hname

theorem clear_positions {fields : Fields} {parts : List Datum}
    {fulls : List (String × Datum)} :
    MeansPositions fields parts fulls → fields.proper → ∀ d ∈ parts, Clear d
  | .done, _ => by simp
  | .given value members, hproper => by
    obtain ⟨hshape, hrest⟩ := by simpa [Fields.proper] using hproper
    exact List.forall_mem_cons.mpr ⟨clear_of_means value hshape, clear_positions members hrest⟩
  | .left members, _ => by simp

end

/-- A text that spells out a datum says what the datum means. -/
theorem read_spaced {shape : Shape} {part full : Datum} {s : String}
    (h : Means shape part full) (hproper : shape.proper) (hs : Spaced (tokens part) s.toList) :
    read shape s = .ok full := by
  have hlegible : Legible (tokens part) := by
    simpa using clear_of_means h hproper [] (by simp [Closing]) trivial
  have htokens := Token.ofString_spaced hs hlegible
  have hread := Reader.ofShape_tokens h hproper (Nat.le_refl _) []
  rw [List.append_nil] at hread
  simp only [read, htokens, hread]

end SignalGuard.Json
