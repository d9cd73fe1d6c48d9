import SignalGuard.Proofs.YamlLiteral
import SignalGuard.Proofs.YamlPlain
import SignalGuard.Proofs.YamlQuoted
import SignalGuard.Proofs.YamlSteps

/-!
# The tokens of dashes, keys and values

A dash or a key stands at the column of its block, which it opens if it is the
first one there. A value ends with its line; what follows is indented no further
than the block that the value is in.
-/

namespace SignalGuard.Yaml.Layout

open Writer (pad)

variable {l : Layout} {cs behind : List Char} {column c k : Nat} {columns columns' base : List Nat}
  {tokens opened : List Token} {allowed : Bool}

-- -----------------------------------------------------------------------------
-- Opening blocks
-- -----------------------------------------------------------------------------

/-- An entry at the column either goes on with the innermost block or opens one
with the token. -/
inductive Opens (t : Token) (column : Nat) : List Nat → List Nat → List Token → Prop
  | stay {base : List Nat} : Opens t column (column :: base) (column :: base) []
  | push {columns : List Nat} (nested : ∀ top ∈ columns.head?, top < column) :
      Opens t column columns (column :: columns) [t]

theorem Opens.le {t : Token} (h : Opens t column columns columns' opened) :
    ∀ top ∈ columns.head?, top ≤ column := by
  cases h with
  | stay => simp
  | push nested => exact fun top htop => Nat.le_of_lt (nested top htop)

theorem Opens.exists_base {t : Token} (h : Opens t column columns columns' opened) :
    ∃ base, columns' = column :: base := by
  cases h with
  | stay => exact ⟨_, rfl⟩
  | push => exact ⟨_, rfl⟩

theorem toList_insertIdxIfInBounds (ts : Array Token) (t : Token) {before after : List Token}
    (h : ts.toList = before ++ after) :
    (ts.insertIdxIfInBounds before.length t).toList = before ++ t :: after := by
  have hsize : ts.size = before.length + after.length := by
    rw [← Array.length_toList, h, List.length_append]
  have hinsert : (before ++ after).insertIdx before.length t = before ++ t :: after := by
    clear h hsize
    induction before with
    | nil => rfl
    | cons b before ih => simpa using ih
  rw [Array.insertIdxIfInBounds, dif_pos (by omega), Array.toList_insertIdx, h, hinsert]

theorem openBlock_eq {t : Token} (houter : l.outer = [])
    (h : Opens t column l.columns columns' opened) {before after : List Token}
    (htokens : l.tokens.toList = before ++ after) :
    ∃ ts, l.openBlock column before.length t = { l with columns := columns', tokens := ts } ∧
      ts.toList = before ++ (opened ++ after) := by
  have hflow : l.inFlow = false := by simp [inFlow, houter]
  generalize hcolumns : l.columns = open? at h
  cases h with
  | stay =>
    have hmargin : ¬ l.margin ≤ column := by
      rw [margin, hcolumns]
      exact Nat.not_succ_le_self _
    refine ⟨l.tokens, ?_, htokens⟩
    simp [openBlock, hflow, hmargin]
    rw [← hcolumns]
  | push nested =>
    refine ⟨_, ?_, toList_insertIdxIfInBounds l.tokens t htokens⟩
    have hmargin : l.margin ≤ column := by
      cases open? with
      | nil => simp [margin, hcolumns]
      | cons top rest =>
        have := nested top rfl
        simp only [margin, hcolumns]
        omega
    simp [openBlock, hflow, hmargin, hcolumns]

-- -----------------------------------------------------------------------------
-- Dashes
-- -----------------------------------------------------------------------------

namespace Stands

theorem not_inFlow (h : Stands l cs column columns allowed tokens) : l.inFlow = false := by
  simp [inFlow, h.outer_eq]

theorem firm_dash (cs : List Char) : Firm ('-' :: cs) := by
  intro ch hch
  obtain rfl : '-' = ch := Option.some.inj hch
  decide

/-- A dash with what it announces behind it. -/
theorem dash (h : Stands l ('-' :: ' ' :: cs) column columns true tokens) (hcs : Firm cs)
    (hopens : Opens .blockSequence column columns columns' opened) :
    ∃ l', Leads l l' ∧
      Stands l' cs (column + 2) columns' true (tokens ++ opened ++ [.blockEntry]) := by
  have hadvance := h.advance_self (firm_dash _) hopens.le
  obtain ⟨cursor, columns, key, outer, keyAllowed, ts⟩ := l
  obtain ⟨hcursor, rfl, rfl, rfl, rfl, rfl⟩ := h
  dsimp only at hcursor hopens
  obtain ⟨ts', hopen, hts'⟩ := openBlock_eq (l := ⟨cursor, columns, none, [], true, ts⟩) rfl
    hopens (List.append_nil ts.toList).symm
  have hread : readToken '-' ⟨cursor, columns, none, [], true, ts⟩ =
      some ⟨cursor.skipMany 1, columns', none, [], true, ts'.push .blockEntry⟩ := by
    have hdash : cursor.atMarker '-' = false := hcursor.not_atMarker_next (by decide)
    have hdot : cursor.atMarker '.' = false := hcursor.not_atMarker (by simp)
    have hgap : isGap (cursor.peek? 1) = true := by
      rw [hcursor.peek_one]
      rfl
    rw [Array.length_toList] at hopen
    simp [readToken, hdash, hdot, hgap, readBlockEntry, openHere, inFlow, hcursor.column_eq, hopen,
      dropKey, take]
  have hstands : Stands ⟨cursor.skipMany 1, columns', none, [], true, ts'.push .blockEntry⟩
      (pad 1 ++ cs) (column + 1) columns' true (ts.toList ++ opened ++ [.blockEntry]) :=
    ⟨hcursor.skip, rfl, rfl, rfl, rfl, by simp [hts']⟩
  obtain ⟨l', hleads, hl'⟩ := hstands.skipSpaces hcs
  refine ⟨l', .trans (.token hadvance hcursor.rest_eq hread ?_) hleads, hl'⟩
  rw [hstands.cursor.rest_eq, hcursor.rest_eq]
  exact Nat.lt_succ_self _

end Stands

-- -----------------------------------------------------------------------------
-- Keys
-- -----------------------------------------------------------------------------

/-- What starts like a plain scalar is read as one. -/
theorem readToken_plain {ch : Char} (h : l.cursor.At (ch :: cs) column)
    (hmarker : l.cursor.atDocumentMarker = false) (hblank : isBlank ch = false)
    (hmark : Writer.isMark ch = false)
    (hdash : ch = '-' ∨ ch = '?' ∨ ch = ':' → isGap cs.head? = false)
    (hflow : l.inFlow = false) : l.readToken ch = l.readPlain := by
  have hne : ∀ d, Writer.isMark d → ch ≠ d := by
    rintro d hd rfl
    rw [hmark] at hd
    cases hd
  obtain ⟨hminus, hdot⟩ := Bool.or_eq_false_iff.mp hmarker
  have hparted : ∀ d, d = '-' ∨ d = '?' ∨ d = ':' →
      (decide (ch = d) && isGap (l.cursor.peek? 1)) = false := by
    rintro d hd
    rw [h.peek_one]
    by_cases hch : ch = d
    · subst hch
      simp [hdash hd]
    · simp [hch]
  have hlast : (isBlank ch || isIndicator ch && ch ≠ '-' && ch ≠ '?' && ch ≠ ':') = false := by
    rw [hblank]
    exact hmark
  simp only [readToken, hminus, hdot, hne '%' rfl, hne '[' rfl, hne ']' rfl, hne '\x7b' rfl,
    hne '\x7d' rfl, hne ',' rfl, hne '*' rfl, hne '&' rfl, hne '!' rfl, hne '|' rfl, hne '>' rfl,
    hne '\'' rfl, hne '"' rfl, hparted '-' (by simp), hparted '?' (by simp), hparted ':' (by simp),
    hflow, hlast, decide_false, Bool.false_and, Bool.false_eq_true, if_false, Bool.false_or]

/-- A name that can stand as a key wherever one may. -/
structure IsName (name : List Char) : Prop where
  nonempty : name ≠ []
  start : name.head? ≠ some '-'
  word : ∀ ch ∈ name, isWord ch
  short : name.length ≤ keyLength

instance (name : List Char) : Decidable (IsName name) :=
  decidable_of_iff
    (name ≠ [] ∧ name.head? ≠ some '-' ∧ name.all isWord ∧ name.length ≤ keyLength)
    ⟨fun ⟨nonempty, start, word, short⟩ =>
        ⟨nonempty, start, List.all_eq_true.mp word, short⟩,
      fun h => ⟨h.nonempty, h.start, List.all_eq_true.mpr h.word, h.short⟩⟩

theorem IsName.firm {name : List Char} (h : IsName name) : Firm name := by
  intro ch hch
  have hword := h.word ch (List.mem_of_head? hch)
  obtain ⟨hgap, -, hhash⟩ := Plain.of_isWord hword
  refine ⟨hgap, hhash, ?_⟩
  rintro rfl
  exact absurd hword (by decide)

theorem IsName.not_atDocumentMarker {name : List Char} (h : IsName name)
    (hcursor : l.cursor.At (name ++ cs) column) : l.cursor.atDocumentMarker = false := by
  obtain ⟨ch, name, rfl⟩ := List.exists_cons_of_ne_nil h.nonempty
  have hdot : ch ≠ '.' := by
    rintro rfl
    exact absurd (h.word _ List.mem_cons_self) (by decide)
  have hminus : l.cursor.atMarker '-' = false :=
    hcursor.not_atMarker h.start
  have hpoint : l.cursor.atMarker '.' = false := hcursor.not_atMarker (by simpa using hdot)
  rw [Cursor.atDocumentMarker, hminus, hpoint]
  rfl

/-- The key that a name may turn out to be. -/
def keyStart (l : Layout) : KeyStart :=
  ⟨l.tokens.size, l.cursor.index, l.cursor.line, l.cursor.column,
    !l.inFlow && l.margin = l.cursor.column + 1⟩

def key? (l : Layout) : Option KeyStart := if l.keyAllowed then some l.keyStart else none

/-- The layout behind a token that may turn out to be a key. -/
def past (l : Layout) (c : Cursor) (allowed : Bool) (t : Token) : Layout :=
  { l with cursor := c, key := l.key?, keyAllowed := allowed, tokens := l.tokens.push t }

section
variable (c : Cursor) (allowed : Bool)

@[simp] theorem past_cursor : (l.past c allowed t).cursor = c := rfl

@[simp] theorem past_columns : (l.past c allowed t).columns = l.columns := rfl

@[simp] theorem past_tokens : (l.past c allowed t).tokens = l.tokens.push t := rfl

end

theorem noteKey_eq (hkey : l.key = none) : l.noteKey = some { l with key := l.key? } := by
  rw [noteKey, key?]
  split
  · simp only [dropKey, hkey]
    rfl
  · rw [← hkey]

/-- A plain scalar that may turn out to be a key. -/
theorem readPlain_eq {text : String} {broken : Bool} {c' : Cursor} (hkey : l.key = none)
    (hflow : l.inFlow = false)
    (h : Plain.read false l.margin l.cursor = some (text, broken, c')) :
    l.readPlain = some (l.past c' broken (.scalar .plain text)) := by
  rw [readPlain, noteKey_eq hkey]
  change (Plain.read l.inFlow l.margin l.cursor).bind _ = _
  rw [hflow, h]
  rfl

theorem Stands.name {name : List Char} (h : Stands l (name ++ ':' :: cs) column columns true tokens)
    (hname : IsName name) (hgap : isGap cs.head?) (hcolumns : ∀ top ∈ columns.head?, top ≤ column) :
    Leads l
      (l.past (l.cursor.skipMany name.length) false (.scalar .plain (String.ofList name))) := by
  have hadvance := h.advance_self (hname.firm.append hname.nonempty _) hcolumns
  have hmarker := hname.not_atDocumentMarker h.cursor
  obtain ⟨ch, rest, hcons⟩ := List.exists_cons_of_ne_nil hname.nonempty
  have hcursor : l.cursor.At (ch :: (rest ++ ':' :: cs)) column := by
    have := h.cursor
    rwa [hcons] at this
  have hword := hname.word ch (by simp [hcons])
  obtain ⟨hsolid, hcolon, -⟩ := Plain.of_isWord hword
  have hminus : ch ≠ '-' := by simpa [hcons] using hname.start
  have hdash : ¬ (ch = '-' ∨ ch = '?' ∨ ch = ':') := by
    rintro (rfl | rfl | rfl)
    · exact hminus rfl
    · exact absurd hword (by decide)
    · exact hcolon rfl
  have hread := readToken_plain hcursor hmarker (Bool.or_eq_false_iff.mp hsolid).1
    (Plain.isMark_word hword) (fun h => absurd h hdash) h.not_inFlow
  refine .token hadvance hcursor.rest_eq (hread.trans ?_) ?_
  · exact readPlain_eq h.key_eq h.not_inFlow
      (Plain.read_key h.cursor hmarker hname.nonempty hname.word hgap)
  · have hend : (l.cursor.skipMany name.length).rest = ':' :: cs := h.cursor.skipMany.rest_eq
    have hpos := List.length_pos_iff.mpr hname.nonempty
    rw [past_cursor, hend, h.cursor.rest_eq, List.length_append]
    omega

theorem advance_key {q : KeyStart} (hcursor : l.cursor.At cs k) (hcs : Firm cs)
    (houter : l.outer = []) (hkey : l.key = some q) (hover : q.isOver l.cursor = false)
    (hcolumns : ∀ top ∈ l.columns.head?, top ≤ k) : l.advance = some l := by
  have hexpire : l.expireKeys = some l := by
    obtain ⟨cursor, columns, key, outer, keyAllowed, ts⟩ := l
    obtain ⟨rfl, rfl⟩ : key = some q ∧ outer = [] := ⟨hkey, houter⟩
    dsimp only at hover
    simp [expireKeys, hover]
  rw [advance, skipToToken_firm hcursor hcs, hexpire, Option.map_some, hcursor.column_eq,
    closeTo_of_le houter hcolumns]

/-- The colon behind a key. The tokens of the key come in front of it. -/
theorem colon {q : KeyStart} {t : Token} (hcursor : l.cursor.At (':' :: cs) k)
    (hgap : isGap cs.head?) (houter : l.outer = []) (hkey : l.key = some q)
    (hover : q.isOver l.cursor = false) (htokens : l.tokens.toList = tokens ++ [t])
    (hposition : q.position = tokens.length) (hk : q.column ≤ k)
    (hopens : Opens .blockMapping q.column l.columns columns' opened) :
    ∃ l', Leads l l' ∧
      Stands l' cs (k + 1) columns' false (tokens ++ opened ++ [.key, t, .value]) := by
  have hfirm : Firm (':' :: cs) := by
    intro ch hch
    obtain rfl : ':' = ch := Option.some.inj hch
    decide
  have hadvance := advance_key hcursor hfirm houter hkey hover
    fun top htop => Nat.le_trans (hopens.le top htop) hk
  have hinsert := toList_insertIdxIfInBounds l.tokens .key htokens
  rw [← hposition] at hinsert
  obtain ⟨ts, hopen, hts⟩ := openBlock_eq
    (l := { l with tokens := l.tokens.insertIdxIfInBounds q.position .key }) houter hopens hinsert
  rw [← hposition, hkey] at hopen
  have hread : l.readToken ':' =
      some ⟨l.cursor.skipMany 1, columns', none, l.outer, false, ts.push .value⟩ := by
    have hminus : l.cursor.atMarker '-' = false := hcursor.not_atMarker (by simp)
    have hdot : l.cursor.atMarker '.' = false := hcursor.not_atMarker (by simp)
    have hparted : isGap (l.cursor.peek? 1) = true := by
      rw [hcursor.peek_one]
      exact hgap
    have hvalue : l.readToken ':' = l.readValue := by simp [readToken, hminus, hdot, hparted]
    rw [hvalue, readValue, hkey]
    simp only [hopen]
    rfl
  refine ⟨_, .token hadvance hcursor.rest_eq hread ?_, hcursor.skip, rfl, rfl, houter, rfl, ?_⟩
  · have hend : (l.cursor.skipMany 1).rest = cs := hcursor.skip.rest_eq
    simp [hend, hcursor.rest_eq]
  · simp [hts]

/-- A name with its colon. -/
theorem Stands.key {name : List Char} (h : Stands l (name ++ ':' :: cs) column columns true tokens)
    (hname : IsName name) (hgap : isGap cs.head?)
    (hopens : Opens .blockMapping column columns columns' opened) :
    ∃ l', Leads l l' ∧ Stands l' cs (column + name.length + 1) columns' false
      (tokens ++ opened ++ [.key, .scalar .plain (String.ofList name), .value]) := by
  have hover : l.keyStart.isOver (l.cursor.skipMany name.length) = false := by
    have hindex := Cursor.skipMany_index name.length l.cursor
    have hshort := hname.short
    have hnext : ¬ l.cursor.index + keyLength < (l.cursor.skipMany name.length).index := by omega
    simp [KeyStart.isOver, keyStart, hnext]
  have hcolumn : l.keyStart.column = column := h.cursor.column_eq
  have hposition : l.keyStart.position = tokens.length := by
    rw [← h.tokens_eq, Array.length_toList]
    rfl
  have hopens' : Opens .blockMapping l.keyStart.column l.columns columns' opened := by
    rwa [hcolumn, h.columns_eq]
  have htokens : (l.tokens.push (.scalar .plain (String.ofList name))).toList =
      tokens ++ [.scalar .plain (String.ofList name)] := by simp [h.tokens_eq]
  have hkey : l.key? = some l.keyStart := if_pos h.allowed_eq
  obtain ⟨l', hleads, hl'⟩ := colon
    (l := l.past (l.cursor.skipMany name.length) false (.scalar .plain (String.ofList name)))
    h.cursor.skipMany hgap h.outer_eq hkey hover htokens hposition (by omega) hopens'
  exact ⟨l', .trans (h.name hname hgap hopens.le) hleads, hl'⟩

end SignalGuard.Yaml.Layout
