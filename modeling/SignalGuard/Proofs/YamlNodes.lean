import SignalGuard.Proofs.YamlLayout
import SignalGuard.Yaml.Document

/-!
# The nodes of written data

The tokens of a datum are read as the node with the same scalars and the same
collections. Four units of fuel are enough for every token.
-/

namespace SignalGuard.Yaml

open Layout (leafTokens)

namespace Node

mutual

/-- The node that a datum is written as. -/
def ofDatum : Datum → Node
  | .null => scalar ⟨none, .plain, "null"⟩
  | .flag b => scalar ⟨none, .plain, if b then "true" else "false"⟩
  | .int i => scalar ⟨none, .plain, toString i⟩
  | .text s => scalar ⟨none, Writer.style s.toList, s⟩
  | .list items => sequence (ofItems items)
  | .record members => mapping (ofMembers members)

def ofItems : List Datum → List Node
  | [] => []
  | d :: ds => ofDatum d :: ofItems ds

def ofMembers : List (String × Datum) → List (Node × Node)
  | [] => []
  | (name, d) :: rest => (scalar ⟨none, .plain, name⟩, ofDatum d) :: ofMembers rest

end

variable {place : Place} {rest ts : List Token}
  {names : List (String × Option Node)} {fuel : Nat} (handles : List TagHandle)

-- -----------------------------------------------------------------------------
-- Starts of nodes
-- -----------------------------------------------------------------------------

/-- A node that has neither anchor nor tag can start with the token anywhere in a
block. -/
inductive Starts : Token → Prop
  | scalar (style : Style) (text : String) : Starts (.scalar style text)
  | flowSequence : Starts .flowSequence
  | flowMapping : Starts .flowMapping
  | blockSequence : Starts .blockSequence
  | blockMapping : Starts .blockMapping

theorem Starts.endsBlockItem {t : Token} (h : Starts t) : endsBlockItem (some t) = false := by
  cases h <;> rfl

theorem Starts.endsIndentlessItem {t : Token} (h : Starts t) :
    endsIndentlessItem (some t) = false := by
  cases h <;> rfl

theorem read_bare {t : Token} (h : Starts t ∨ t = .blockEntry) :
    read handles place (fuel + 1) ⟨t :: ts, names⟩ =
      readContent handles place true none fuel ⟨t :: ts, names⟩ := by
  have hcontent : read handles place (fuel + 1) ⟨t :: ts, names⟩ =
      (readContent handles place true none fuel ⟨t :: ts, names⟩).bind some := by
    rcases h with h | rfl
    · cases h <;> rfl
    · rfl
  rw [hcontent]
  exact Option.bind_fun_some _

theorem itemTokens_starts (d : Datum) : ∃ t ts, itemTokens d = t :: ts ∧ Starts t := by
  cases d with
  | list items =>
    rw [itemTokens]
    split
    · exact ⟨_, _, rfl, .flowSequence⟩
    · exact ⟨_, _, rfl, .blockSequence⟩
  | record members =>
    rw [itemTokens]
    split
    · exact ⟨_, _, rfl, .flowMapping⟩
    · exact ⟨_, _, rfl, .blockMapping⟩
  | _ => exact ⟨_, _, rfl, .scalar _ _⟩

/-- The items of a member's list have no token in front of the first one. -/
theorem memberTokens_starts (d : Datum) :
    ∃ t ts, memberTokens d = t :: ts ∧ (Starts t ∨ t = .blockEntry) := by
  cases d with
  | list items =>
    cases items with
    | nil => exact ⟨_, _, rfl, .inl .flowSequence⟩
    | cons d ds => exact ⟨_, _, rfl, .inr rfl⟩
  | record members =>
    obtain ⟨t, ts, htokens, hstarts⟩ := itemTokens_starts (.record members)
    exact ⟨t, ts, htokens, .inl hstarts⟩
  | _ => exact ⟨_, _, rfl, .inl (.scalar _ _)⟩

theorem readOrEmpty_item {ends : Ends} (h : ∀ {t}, Starts t → ends (some t) = false) (d : Datum) :
    readOrEmpty handles place ends (fuel + 1) ⟨itemTokens d ++ rest, names⟩ =
      read handles place fuel ⟨itemTokens d ++ rest, names⟩ := by
  obtain ⟨t, ts, hts, hstarts⟩ := itemTokens_starts d
  simp [readOrEmpty, hts, Progress.peek?, h hstarts]

theorem readOrEmpty_member (d : Datum) :
    readOrEmpty handles place endsBlockValue (fuel + 1) ⟨memberTokens d ++ rest, names⟩ =
      read handles place fuel ⟨memberTokens d ++ rest, names⟩ := by
  obtain ⟨t, ts, hts, hstarts⟩ := memberTokens_starts d
  have hends : endsBlockValue (some t) = false := by
    rcases hstarts with h | rfl
    · cases h <;> rfl
    · rfl
  simp [readOrEmpty, hts, Progress.peek?, hends]

-- -----------------------------------------------------------------------------
-- Values
-- -----------------------------------------------------------------------------

theorem read_scalar (style : Style) (text : String) (hfuel : 2 ≤ fuel) :
    read handles place fuel ⟨.scalar style text :: ts, names⟩ =
      some (scalar ⟨none, style, text⟩, ⟨ts, names⟩) := by
  obtain ⟨fuel, rfl⟩ := Nat.exists_eq_add_of_le' hfuel
  rfl

theorem read_noItems (hfuel : 3 ≤ fuel) :
    read handles place fuel ⟨.flowSequence :: .flowSequenceEnd :: ts, names⟩ =
      some (sequence [], ⟨ts, names⟩) := by
  obtain ⟨fuel, rfl⟩ := Nat.exists_eq_add_of_le' hfuel
  rfl

theorem read_noEntries (hfuel : 3 ≤ fuel) :
    read handles place fuel ⟨.flowMapping :: .flowMappingEnd :: ts, names⟩ =
      some (mapping [], ⟨ts, names⟩) := by
  obtain ⟨fuel, rfl⟩ := Nat.exists_eq_add_of_le' hfuel
  rfl

theorem read_items {items : List Node} {p : Progress}
    (h : readBlockItems handles fuel ⟨ts, names⟩ = some (items, p)) :
    read handles .block (fuel + 2) ⟨.blockSequence :: ts, names⟩ = some (sequence items, p) := by
  rw [read_bare handles (.inl .blockSequence)]
  simp [readContent, Progress.peek?, Progress.skip, h]

theorem read_entries {entries : List (Node × Node)} {p : Progress} (hplace : place ≠ .flow)
    (h : readBlockEntries handles fuel ⟨ts, names⟩ = some (entries, p)) :
    read handles place (fuel + 2) ⟨.blockMapping :: ts, names⟩ = some (mapping entries, p) := by
  rw [read_bare handles (.inl .blockMapping)]
  simp [readContent, Progress.peek?, Progress.skip, hplace, h]

theorem read_indentless {items : List Node} {p : Progress}
    (h : readIndentlessItems handles fuel ⟨.blockEntry :: ts, names⟩ = some (items, p)) :
    read handles .blockEntry (fuel + 2) ⟨.blockEntry :: ts, names⟩ = some (sequence items, p) := by
  rw [read_bare handles (.inr rfl)]
  simp [readContent, Progress.peek?, h]

-- -----------------------------------------------------------------------------
-- Entries
-- -----------------------------------------------------------------------------

theorem readBlockItems_cons {n : Node} {ns : List Node} {p p' : Progress}
    (hitem : readOrEmpty handles .block endsBlockItem fuel ⟨ts, names⟩ = some (n, p))
    (hitems : readBlockItems handles fuel p = some (ns, p')) :
    readBlockItems handles (fuel + 1) ⟨.blockEntry :: ts, names⟩ = some (n :: ns, p') := by
  simp [readBlockItems, Progress.peek?, Progress.skip, hitem, hitems]

theorem readIndentlessItems_cons {n : Node} {ns : List Node} {p p' : Progress}
    (hitem : readOrEmpty handles .block endsIndentlessItem fuel ⟨ts, names⟩ = some (n, p))
    (hitems : readIndentlessItems handles fuel p = some (ns, p')) :
    readIndentlessItems handles (fuel + 1) ⟨.blockEntry :: ts, names⟩ = some (n :: ns, p') := by
  simp [readIndentlessItems, Progress.peek?, Progress.skip, hitem, hitems]

theorem readIndentlessItems_nil (hrest : rest.head? ≠ some .blockEntry) :
    readIndentlessItems handles (fuel + 1) ⟨rest, names⟩ = some ([], ⟨rest, names⟩) := by
  rw [readIndentlessItems]
  split
  · next h => exact absurd h hrest
  · rfl

theorem readBlockEntries_cons {name : String} {v : Node} {es : List (Node × Node)}
    {p p' : Progress}
    (hvalue : readOrEmpty handles .blockEntry endsBlockValue (fuel + 2) ⟨ts, names⟩ = some (v, p))
    (hentries : readBlockEntries handles (fuel + 3) p = some (es, p')) :
    readBlockEntries handles (fuel + 4) ⟨.key :: .scalar .plain name :: .value :: ts, names⟩ =
      some ((scalar ⟨none, .plain, name⟩, v) :: es, p') := by
  have hkey : readOrEmpty handles .blockEntry endsBlockValue (fuel + 3)
      ⟨.scalar .plain name :: .value :: ts, names⟩ =
      some (scalar ⟨none, .plain, name⟩, ⟨.value :: ts, names⟩) := rfl
  have hread : readValue handles .blockEntry endsBlockValue (fuel + 3) ⟨.value :: ts, names⟩ =
      some (v, p) := hvalue
  rw [readBlockEntries]
  simp [Progress.peek?, Progress.skip, hkey, hread, hentries]

theorem recordTokens_head (members : List (String × Datum)) :
    (recordTokens members ++ .blockEnd :: rest).head? ≠ some .blockEntry := by
  cases members <;> simp [recordTokens]

-- -----------------------------------------------------------------------------
-- Data
-- -----------------------------------------------------------------------------

-- Every call of a reader costs a unit of fuel. No token is reached by more than
-- four calls from the token before it.

theorem read_record {members : List (String × Datum)} (hplace : place ≠ .flow)
    (hfuel : 4 * (itemTokens (.record members)).length ≤ fuel)
    (h : ∀ {fuel}, 4 * (recordTokens members).length + 1 ≤ fuel →
      readBlockEntries handles fuel ⟨recordTokens members ++ .blockEnd :: rest, names⟩ =
        some (ofMembers members, ⟨rest, names⟩)) :
    read handles place fuel ⟨itemTokens (.record members) ++ rest, names⟩ =
      some (ofDatum (.record members), ⟨rest, names⟩) := by
  rw [itemTokens] at hfuel ⊢
  split
  · next hempty =>
    obtain rfl := List.isEmpty_iff.mp hempty
    exact read_noEntries handles (Nat.le_trans (by decide) hfuel)
  · next hne =>
    rw [if_neg hne, List.length_cons, List.length_append] at hfuel
    obtain ⟨fuel, rfl⟩ : ∃ n, fuel = n + 2 := ⟨fuel - 2, by omega⟩
    rw [List.cons_append, List.append_assoc]
    exact read_entries handles hplace (h (by omega))

mutual

theorem read_item (names : List (String × Option Node)) :
    ∀ (d : Datum) (rest : List Token) {fuel : Nat}, 4 * (itemTokens d).length ≤ fuel →
      read handles .block fuel ⟨itemTokens d ++ rest, names⟩ = some (ofDatum d, ⟨rest, names⟩)
  | .list items, rest, fuel, hfuel => by
    rw [itemTokens] at hfuel ⊢
    split
    · next hempty =>
      obtain rfl := List.isEmpty_iff.mp hempty
      exact read_noItems handles (Nat.le_trans (by decide) hfuel)
    · next hne =>
      rw [if_neg hne, List.length_cons, List.length_append] at hfuel
      obtain ⟨fuel, rfl⟩ : ∃ n, fuel = n + 2 := ⟨fuel - 2, by omega⟩
      rw [List.cons_append, List.append_assoc]
      exact read_items handles (readBlockItems_written names items rest (by omega))
  | .record members, rest, _, hfuel =>
    read_record handles (by decide) hfuel (readBlockEntries_written names members rest)
  | .null, _, _, hfuel => read_scalar handles _ _ (Nat.le_trans (by decide : 2 ≤ 4) hfuel)
  | .flag _, _, _, hfuel => read_scalar handles _ _ (Nat.le_trans (by decide : 2 ≤ 4) hfuel)
  | .int _, _, _, hfuel => read_scalar handles _ _ (Nat.le_trans (by decide : 2 ≤ 4) hfuel)
  | .text _, _, _, hfuel => read_scalar handles _ _ (Nat.le_trans (by decide : 2 ≤ 4) hfuel)

theorem readBlockItems_written (names : List (String × Option Node)) :
    ∀ (ds : List Datum) (rest : List Token) {fuel : Nat}, 4 * (listTokens ds).length + 1 ≤ fuel →
      readBlockItems handles fuel ⟨listTokens ds ++ .blockEnd :: rest, names⟩ =
        some (ofItems ds, ⟨rest, names⟩)
  | [], rest, fuel, hfuel => by
    obtain ⟨fuel, rfl⟩ := Nat.exists_eq_add_of_le' hfuel
    rfl
  | d :: ds, rest, fuel, hfuel => by
    rw [listTokens] at hfuel ⊢
    rw [List.length_cons, List.length_append] at hfuel
    obtain ⟨fuel, rfl⟩ : ∃ n, fuel = n + 2 := ⟨fuel - 2, by omega⟩
    rw [List.cons_append, List.append_assoc]
    refine readBlockItems_cons handles ?_ (readBlockItems_written names ds rest (by omega))
    rw [readOrEmpty_item handles Starts.endsBlockItem]
    exact read_item names d _ (by omega)

theorem readIndentlessItems_written (names : List (String × Option Node)) :
    ∀ (ds : List Datum) {rest : List Token} {fuel : Nat}, rest.head? ≠ some .blockEntry →
      4 * (listTokens ds).length + 1 ≤ fuel →
      readIndentlessItems handles fuel ⟨listTokens ds ++ rest, names⟩ =
        some (ofItems ds, ⟨rest, names⟩)
  | [], rest, fuel, hrest, hfuel => by
    obtain ⟨fuel, rfl⟩ := Nat.exists_eq_add_of_le' hfuel
    exact readIndentlessItems_nil handles hrest
  | d :: ds, rest, fuel, hrest, hfuel => by
    rw [listTokens] at hfuel ⊢
    rw [List.length_cons, List.length_append] at hfuel
    obtain ⟨fuel, rfl⟩ : ∃ n, fuel = n + 2 := ⟨fuel - 2, by omega⟩
    rw [List.cons_append, List.append_assoc]
    refine readIndentlessItems_cons handles ?_
      (readIndentlessItems_written names ds hrest (by omega))
    rw [readOrEmpty_item handles Starts.endsIndentlessItem]
    exact read_item names d _ (by omega)

theorem read_member (names : List (String × Option Node)) :
    ∀ (d : Datum) {rest : List Token} {fuel : Nat}, rest.head? ≠ some .blockEntry →
      4 * (memberTokens d).length + 3 ≤ fuel →
      read handles .blockEntry fuel ⟨memberTokens d ++ rest, names⟩ =
        some (ofDatum d, ⟨rest, names⟩)
  | .list [], _, _, _, hfuel => read_noItems handles (Nat.le_trans (by decide) hfuel)
  | .list (d :: ds), rest, fuel, hrest, hfuel => by
    have htokens : memberTokens (.list (d :: ds)) = listTokens (d :: ds) := rfl
    rw [htokens] at hfuel ⊢
    obtain ⟨fuel, rfl⟩ : ∃ n, fuel = n + 2 := ⟨fuel - 2, by omega⟩
    exact read_indentless handles (readIndentlessItems_written names (d :: ds) hrest (by omega))
  | .record members, rest, _, _, hfuel =>
    read_record handles (by decide) (Nat.le_of_add_right_le hfuel)
      (readBlockEntries_written names members rest)
  | .null, _, _, _, hfuel => read_scalar handles _ _ (Nat.le_trans (by decide : 2 ≤ 7) hfuel)
  | .flag _, _, _, _, hfuel => read_scalar handles _ _ (Nat.le_trans (by decide : 2 ≤ 7) hfuel)
  | .int _, _, _, _, hfuel => read_scalar handles _ _ (Nat.le_trans (by decide : 2 ≤ 7) hfuel)
  | .text _, _, _, _, hfuel => read_scalar handles _ _ (Nat.le_trans (by decide : 2 ≤ 7) hfuel)

theorem readBlockEntries_written (names : List (String × Option Node)) :
    ∀ (members : List (String × Datum)) (rest : List Token) {fuel : Nat},
      4 * (recordTokens members).length + 1 ≤ fuel →
      readBlockEntries handles fuel ⟨recordTokens members ++ .blockEnd :: rest, names⟩ =
        some (ofMembers members, ⟨rest, names⟩)
  | [], rest, fuel, hfuel => by
    obtain ⟨fuel, rfl⟩ := Nat.exists_eq_add_of_le' hfuel
    rfl
  | (name, d) :: members, rest, fuel, hfuel => by
    rw [recordTokens] at hfuel ⊢
    simp only [List.length_cons, List.length_append] at hfuel
    obtain ⟨fuel, rfl⟩ : ∃ n, fuel = n + 4 := ⟨fuel - 4, by omega⟩
    simp only [List.cons_append, List.append_assoc]
    refine readBlockEntries_cons handles ?_ (readBlockEntries_written names members rest (by omega))
    rw [readOrEmpty_member]
    exact read_member names d (recordTokens_head members) (by omega)

end

end Node

/-- A written record is one node. -/
theorem document_write {members : List (String × Datum)} (hne : members ≠ [])
    (h : NamedMembers members) :
    Document.ofString (write (.record members)) = some (.ofDatum (.record members)) := by
  have hroot : Document.readRoot [] (itemTokens (.record members)) =
      some (.ofDatum (.record members)) := by
    have hread := Node.read_item TagHandle.defaults [] (.record members) [] (Nat.le_add_right _ 4)
    rw [List.append_nil] at hread
    simp [Document.readRoot, hread]
  have hfull : ¬ members.isEmpty := by simpa using hne
  rw [Document.ofString, tokens_write hne h]
  rw [itemTokens, if_neg hfull] at hroot ⊢
  exact hroot

end SignalGuard.Yaml
