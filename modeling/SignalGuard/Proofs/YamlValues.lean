import SignalGuard.Proofs.YamlTokens

/-!
# The tokens of values

A value is one scalar or an empty collection. `Fills` says that its text, up to
the end of its last line, gives its tokens and nothing else, whatever stands
around it.
-/

namespace SignalGuard.Yaml.Layout

open Writer (pad)

variable {l : Layout} {cs behind : List Char} {column c k : Nat} {base : List Nat}
  {tokens : List Token} {allowed : Bool}

/-- The text is a value with these tokens, in a block at the column `c`. -/
structure Fills (c : Nat) (written : List Char) (ts : List Token) : Prop where
  nonempty : written ≠ []
  firm : Firm written
  allowed : ∀ ch ∈ written, isAllowed ch
  fills : ∀ {l : Layout} {behind : List Char} {k column : Nat} {base : List Nat} {allowed : Bool}
    {tokens : List Token},
    Stands l (written ++ (pad k ++ behind)) column (c :: base) allowed tokens → Firm behind →
    k ≤ c → c < column →
    ∃ l', Leads l l' ∧ Stands l' behind k (c :: base) true (tokens ++ ts)

theorem Stands.margin_eq (h : Stands l cs column (c :: base) allowed tokens) :
    l.margin = c + 1 := by
  rw [margin, h.columns_eq]

/-- A value further right than its block need not be a key. -/
theorem Stands.keyStart_value (h : Stands l cs column (c :: base) allowed tokens)
    (hc : c < column) : ∀ q ∈ l.key?, q.required = false ∧ q.line = l.cursor.line := by
  intro q hq
  rw [key?] at hq
  split at hq
  · obtain rfl : l.keyStart = q := Option.some.inj hq
    refine ⟨?_, rfl⟩
    have hne : c ≠ column := by omega
    simp [keyStart, h.margin_eq, h.cursor.column_eq, hne]
  · cases hq

theorem Stands.advance_value (h : Stands l cs column (c :: base) allowed tokens) (hcs : Firm cs)
    (hc : c < column) : l.advance = some l :=
  h.advance_self hcs (by simpa using Nat.le_of_lt hc)

-- -----------------------------------------------------------------------------
-- Plain scalars
-- -----------------------------------------------------------------------------

theorem dash_parted {ch : Char} {rest : List Char}
    (hmark : Writer.startsWithMark (ch :: rest) = false)
    (hkey : Writer.hasKeyEnd (ch :: rest) = false) (behind : List Char)
    (hch : ch = '-' ∨ ch = '?' ∨ ch = ':') : isGap (rest ++ behind).head? = false := by
  have hrest : isGap rest.head? = false := by
    simp only [Writer.startsWithMark, Writer.hasKeyEnd, Bool.or_eq_false_iff] at hmark hkey
    rcases hch with rfl | rfl | rfl
    · simpa using hmark.1.1.2
    · simpa using hmark.1.1.2
    · simpa using hkey.1
  cases rest with
  | nil => cases hrest
  | cons d rest => exact hrest

theorem Fills.plain (hfits : Plain.Fits cs) (hmark : Writer.startsWithMark cs = false) :
    Fills c (cs ++ ['\n']) [.scalar .plain (String.ofList cs)] := by
  obtain ⟨ch, rest, rfl⟩ := List.exists_cons_of_ne_nil hfits.nonempty
  have hprintable := hfits.printable ch List.mem_cons_self
  obtain ⟨hspace, hhash⟩ := hfits.first ch rfl
  have hgap := isGap_eq_false hprintable hspace (hfits.unbroken ch List.mem_cons_self)
  have hfirm : Firm (ch :: (rest ++ ['\n'])) := by
    intro d hd
    obtain rfl : ch = d := Option.some.inj hd
    refine ⟨hgap, hhash, ?_⟩
    rintro rfl
    exact absurd hprintable (by decide)
  have hallowed : ∀ d ∈ ch :: rest ++ ['\n'], isAllowed d :=
    List.forall_mem_append.mpr ⟨fun d hd => isAllowed_of_printable (hfits.printable d hd),
      List.forall_mem_singleton.mpr rfl⟩
  refine ⟨by simp, hfirm, hallowed, ?_⟩
  intro l behind k column base allowed tokens h hbehind hk hc
  have hadvance := h.advance_value (hfirm.append (by simp) _) hc
  rw [List.append_assoc, List.singleton_append] at h
  have hmarker := h.cursor.not_atDocumentMarker (by omega)
  have hstart : Writer.isMark ch = false := by
    simp only [Writer.startsWithMark, Bool.or_eq_false_iff] at hmark
    exact hmark.1.1.1
  have hread := readToken_plain h.cursor hmarker (Bool.or_eq_false_iff.mp hgap).1 hstart
    (dash_parted hmark hfits.keyEnd _) h.not_inFlow
  obtain ⟨c', hplain, hc', hline⟩ :=
    Plain.read_line hfits hbehind.solid (by omega : k < c + 1) h.cursor hc
  rw [← h.margin_eq] at hplain
  have hscalar := hread.trans (readPlain_eq h.key_eq h.not_inFlow hplain)
  have hkey : ∀ q ∈ l.key?, q.required = false ∧ q.line < c'.line := by
    intro q hq
    obtain ⟨hrequired, hsame⟩ := h.keyStart_value hc q hq
    exact ⟨hrequired, by omega⟩
  obtain ⟨l', hleads, hl'⟩ := settle
    (l := l.past c' true (.scalar .plain (String.ofList (ch :: rest)))) hc' hbehind rfl h.outer_eq
    hkey
  refine ⟨l', .trans (.token hadvance h.cursor.rest_eq hscalar ?_) hleads, ?_⟩
  · rw [past_cursor, hc'.rest_eq, h.cursor.rest_eq]
    simp only [List.length_append, List.length_cons]
    omega
  · simpa [h.columns_eq, h.tokens_eq] using hl'

-- -----------------------------------------------------------------------------
-- Quoted scalars
-- -----------------------------------------------------------------------------

theorem readWith_eq {read : Cursor → Option (Token × Cursor)} {t : Token} {c' : Cursor}
    (hkey : l.key = none) (h : read l.cursor = some (t, c')) :
    l.readWith read = some (l.past c' false t) := by
  rw [readWith, noteKey_eq hkey]
  change (read l.cursor).bind _ = _
  rw [h]
  rfl

/-- The characters that start a quoted scalar, with its style. -/
inductive Quote : Char → Style → Prop
  | single : Quote '\'' .singleQuoted
  | double : Quote '"' .doubleQuoted

theorem Quote.firm {quote : Char} {style : Style} (h : Quote quote style) (cs : List Char) :
    Firm (quote :: cs) := by
  intro ch hch
  obtain rfl : quote = ch := Option.some.inj hch
  cases h <;> decide

theorem Quote.readToken_eq {quote : Char} {style : Style} (h : Quote quote style)
    (hmarker : l.cursor.atDocumentMarker = false) :
    l.readToken quote = l.readQuoted quote style := by
  obtain ⟨hminus, hdot⟩ := Bool.or_eq_false_iff.mp hmarker
  cases h <;> simp [readToken, hminus, hdot]

theorem Fills.quoted {quote : Char} {style : Style} {written : List Char} {text : String}
    (hquote : Quote quote style) (hallowed : ∀ ch ∈ quote :: written, isAllowed ch)
    (hread : ∀ {cursor : Cursor} {behind : List Char} {column : Nat},
      cursor.At (quote :: written ++ '\n' :: behind) column →
      ∃ c' column', Quoted.read quote cursor = some (text, c') ∧ c'.At ('\n' :: behind) column' ∧
        cursor.line ≤ c'.line) :
    Fills c (quote :: written ++ ['\n']) [.scalar style text] := by
  refine ⟨by simp, hquote.firm _,
    List.forall_mem_append.mpr ⟨hallowed, List.forall_mem_singleton.mpr rfl⟩, ?_⟩
  intro l behind k column base allowed tokens h hbehind hk hc
  have hadvance := h.advance_value (hquote.firm _) hc
  rw [List.append_assoc, List.singleton_append] at h
  have hmarker := h.cursor.not_atDocumentMarker (by omega)
  obtain ⟨c', column', hquoted, hc', hline⟩ := hread h.cursor
  have hscalar : l.readToken quote = some (l.past c' false (.scalar style text)) := by
    rw [hquote.readToken_eq hmarker, readQuoted]
    exact readWith_eq h.key_eq (by rw [hquoted]; rfl)
  have hkey : ∀ q ∈ l.key?, q.required = false ∧ q.line ≤ c'.line := by
    intro q hq
    obtain ⟨hrequired, hsame⟩ := h.keyStart_value hc q hq
    exact ⟨hrequired, by omega⟩
  obtain ⟨l', hleads, hl'⟩ := settle_line (l := l.past c' false (.scalar style text)) hc' hbehind
    h.outer_eq hkey
  refine ⟨l', .trans (.token hadvance h.cursor.rest_eq hscalar ?_) hleads, ?_⟩
  · rw [past_cursor, hc'.rest_eq, h.cursor.rest_eq]
    simp only [List.length_append, List.length_cons]
    omega
  · simpa [h.columns_eq, h.tokens_eq] using hl'

-- -----------------------------------------------------------------------------
-- Literal scalars
-- -----------------------------------------------------------------------------

theorem Fills.literal (hne : cs ≠ []) (hprintable : ∀ ch ∈ cs, isPrintable ch) :
    Fills c (Writer.literal (c + 2) cs ++ Block.ending cs)
      [.scalar .literal (String.ofList cs)] := by
  obtain ⟨written, hwritten⟩ : ∃ written, Writer.literal (c + 2) cs ++ Block.ending cs =
      '|' :: written := ⟨_, rfl⟩
  have hfirm : Firm ('|' :: written) := by
    intro ch hch
    obtain rfl : '|' = ch := Option.some.inj hch
    decide
  have hallowed := Block.isAllowed_literal (n := c + 2) hprintable
  rw [hwritten] at hallowed ⊢
  refine ⟨by simp, hfirm, hallowed, ?_⟩
  intro l behind k column base allowed tokens h hbehind hk hc
  have hadvance := h.advance_value hfirm hc
  have hmarker := h.cursor.not_atDocumentMarker (by omega)
  obtain ⟨hminus, hdot⟩ := Bool.or_eq_false_iff.mp hmarker
  have hcursor := h.cursor
  rw [← hwritten] at hcursor
  obtain ⟨c', hblock, hc', hline⟩ :=
    Block.read_literal hne hprintable hbehind.solid (by omega : k < c + 1) hcursor
  have hscalar : l.readToken '|' = some ⟨c', l.columns, none, l.outer, true,
      l.tokens.push (.scalar .literal (String.ofList cs))⟩ := by
    have hread : l.readToken '|' = l.readBlock false .literal := by
      simp [readToken, hminus, hdot, h.not_inFlow]
    rw [hread, readBlock, dropKey, h.key_eq]
    change (Block.read false l.margin l.cursor).bind _ = _
    rw [h.margin_eq, hblock]
    rfl
  refine ⟨_, .token hadvance h.cursor.rest_eq hscalar ?_, hc', h.columns_eq, rfl, h.outer_eq, rfl,
    by simp [h.tokens_eq]⟩
  rw [hc'.rest_eq, h.cursor.rest_eq]
  simp only [List.length_append, List.length_cons]
  omega

-- -----------------------------------------------------------------------------
-- Empty collections
-- -----------------------------------------------------------------------------

/-- A pair of brackets with their tokens. -/
inductive Brackets : Char → Char → Token → Token → Prop
  | sequence : Brackets '[' ']' .flowSequence .flowSequenceEnd
  | mapping : Brackets '\x7b' '\x7d' .flowMapping .flowMappingEnd

section
variable {first last : Char} {start finish : Token}

theorem Brackets.firm (h : Brackets first last start finish) (cs : List Char) :
    Firm (first :: cs) ∧ Firm (last :: cs) := by
  constructor
  · intro ch hch
    obtain rfl : first = ch := Option.some.inj hch
    cases h <;> decide
  · intro ch hch
    obtain rfl : last = ch := Option.some.inj hch
    cases h <;> decide

theorem Brackets.readToken_first (h : Brackets first last start finish)
    (hmarker : l.cursor.atDocumentMarker = false) : l.readToken first = l.openFlow start := by
  obtain ⟨hminus, hdot⟩ := Bool.or_eq_false_iff.mp hmarker
  cases h <;> simp [readToken, hminus, hdot]

theorem Brackets.readToken_last (h : Brackets first last start finish)
    (hmarker : l.cursor.atDocumentMarker = false) : l.readToken last = l.closeFlow finish := by
  obtain ⟨hminus, hdot⟩ := Bool.or_eq_false_iff.mp hmarker
  cases h <;> simp [readToken, hminus, hdot]

theorem advance_flow {key : Option KeyStart} (hcursor : l.cursor.At cs column) (hcs : Firm cs)
    (hkey : l.key = none) (houter : l.outer = [key])
    (hover : ∀ q ∈ key, q.isOver l.cursor = false) : l.advance = some l := by
  have hexpire : l.expireKeys = some l := by
    obtain ⟨cursor, columns, key', outer, keyAllowed, ts⟩ := l
    obtain ⟨rfl, rfl⟩ : key' = none ∧ outer = [key] := ⟨hkey, houter⟩
    cases key with
    | none => simp [expireKeys]
    | some q =>
      have hq : q.isOver cursor = false := hover q rfl
      simp [expireKeys, hq]
  rw [advance, skipToToken_firm hcursor hcs, hexpire, Option.map_some]
  simp [closeTo, inFlow, houter]

/-- The layout behind an opening bracket, which may start a key. -/
def inside (l : Layout) (start : Token) : Layout :=
  ⟨l.cursor.skipMany 1, l.columns, none, [l.key?], true, l.tokens.push start⟩

theorem Brackets.open_eq (h : Brackets first last start finish) (hkey : l.key = none)
    (houter : l.outer = []) (hmarker : l.cursor.atDocumentMarker = false) :
    l.readToken first = some (l.inside start) := by
  rw [h.readToken_first hmarker, openFlow, noteKey_eq hkey]
  simp [take, houter, inside]

theorem Brackets.close_eq (h : Brackets first last start finish)
    (hmarker : (l.inside start).cursor.atDocumentMarker = false) :
    (l.inside start).readToken last = some
      ⟨(l.inside start).cursor.skipMany 1, l.columns, l.key?, [], false,
        (l.inside start).tokens.push finish⟩ := by
  rw [h.readToken_last hmarker, closeFlow]
  rfl

theorem isOver_inside : ∀ q ∈ l.key?, q.isOver (l.inside start).cursor = false := by
  intro q hq
  obtain ⟨-, rfl⟩ : l.keyAllowed = true ∧ l.keyStart = q := by simpa [key?] using hq
  have hindex := Cursor.skipMany_index 1 l.cursor
  have hnext : ¬ l.cursor.index + keyLength < (l.cursor.skipMany 1).index := by
    rw [keyLength]
    omega
  simp [KeyStart.isOver, keyStart, inside, hnext]

theorem Fills.empty (hbrackets : Brackets first last start finish) :
    Fills c [first, last, '\n'] [start, finish] := by
  have hallowed : [first, last, '\n'].all isAllowed := by cases hbrackets <;> rfl
  refine ⟨by simp, (hbrackets.firm _).1, List.all_eq_true.mp hallowed, ?_⟩
  intro l behind k column base allowed tokens h hbehind hk hc
  have hadvance := h.advance_value (hbrackets.firm _).1 hc
  have hopen := hbrackets.open_eq h.key_eq h.outer_eq (h.cursor.not_atDocumentMarker (by omega))
  have hinside : (l.inside start).cursor.At (last :: '\n' :: (pad k ++ behind)) (column + 1) :=
    h.cursor.skip
  have hadvance' := advance_flow hinside (hbrackets.firm _).2 rfl rfl isOver_inside
  have hclose := hbrackets.close_eq (hinside.not_atDocumentMarker (by omega))
  have hafter : ((l.inside start).cursor.skipMany 1).At ('\n' :: (pad k ++ behind)) (column + 2) :=
    hinside.skip
  have hkey : ∀ q ∈ l.key?,
      q.required = false ∧ q.line ≤ ((l.inside start).cursor.skipMany 1).line := by
    intro q hq
    obtain ⟨hrequired, hsame⟩ := h.keyStart_value hc q hq
    refine ⟨hrequired, Nat.le_of_eq ?_⟩
    rw [hsame, Cursor.skipMany_line]
    exact (l.cursor.skipMany_line 1).symm
  obtain ⟨l', hleads, hl'⟩ := settle_line
    (l := ⟨(l.inside start).cursor.skipMany 1, l.columns, l.key?, [], false,
      (l.inside start).tokens.push finish⟩) hafter hbehind rfl hkey
  refine ⟨l', .trans (.token hadvance h.cursor.rest_eq hopen ?_)
    (.trans (.token hadvance' hinside.rest_eq hclose ?_) hleads), ?_⟩
  · rw [hinside.rest_eq, h.cursor.rest_eq]
    simp
  · rw [hafter.rest_eq, hinside.rest_eq]
    simp
  · simpa [inside, h.columns_eq, h.tokens_eq] using hl'

end

-- -----------------------------------------------------------------------------
-- Values in general
-- -----------------------------------------------------------------------------

/-- What each style asks of a text. -/
theorem style_cases (cs : List Char) :
    Writer.style cs = .plain ∧ Writer.allowsPlain cs ∧ Spelling.isReserved cs = false ∨
      Writer.style cs = .singleQuoted ∧ Writer.allowsSingleQuoted cs ∧ '\n' ∉ cs ∨
      Writer.style cs = .literal ∧ Writer.allowsLiteral cs ∧ '\n' ∈ cs ∨
      Writer.style cs = .doubleQuoted := by
  unfold Writer.style
  split
  · next hfeed =>
    split
    · next hallowed => exact .inr (.inr (.inl ⟨rfl, hallowed, by simpa using hfeed⟩))
    · exact .inr (.inr (.inr rfl))
  · next hfeed =>
    split
    · next hplain =>
      obtain ⟨hallowed, hreserved⟩ := Bool.and_eq_true_iff.mp hplain
      exact .inl ⟨rfl, hallowed, by simpa using hreserved⟩
    split
    · next hallowed => exact .inr (.inl ⟨rfl, hallowed, by simpa using hfeed⟩)
    · exact .inr (.inr (.inr rfl))

theorem Fills.text (c : Nat) (s : String) :
    Fills c (Writer.text (c + 2) s).toList [.scalar (Writer.style s.toList) s] := by
  have hs : String.ofList s.toList = s := String.ofList_toList
  rw [Writer.text, String.toList_ofList]
  rcases style_cases s.toList with ⟨hstyle, hallowed, hreserved⟩ | ⟨hstyle, hallowed, hfeed⟩ |
    ⟨hstyle, hallowed, hfeed⟩ | hstyle
  · have hne : s.toList ≠ [] := by
      intro hnil
      rw [hnil] at hreserved
      cases hreserved
    have hmark : Writer.startsWithMark s.toList = false := by
      simp only [Writer.allowsPlain, Bool.not_eq_true', Bool.or_eq_false_iff] at hallowed
      exact hallowed.1.1.2
    have hplain := Fills.plain (c := c) (.of_allowsPlain hallowed hne) hmark
    rw [hs] at hplain
    rw [hstyle]
    exact hplain
  · have hprintable : ∀ ch ∈ s.toList, isPrintable ch := by
      simp only [Writer.allowsSingleQuoted, Writer.hasSpecial, Bool.not_eq_true',
        Bool.or_eq_false_iff] at hallowed
      simpa using hallowed.1.1
    rw [hstyle]
    refine .quoted .single (Quoted.isAllowed_singleQuoted hprintable) fun h => ?_
    rw [← hs]
    exact Quoted.read_singleQuoted (Nat.succ_pos _) hallowed hfeed h
  · have hprintable : ∀ ch ∈ s.toList, isPrintable ch := by
      simp only [Writer.allowsLiteral, Writer.hasSpecial, Bool.not_eq_true', Bool.or_eq_false_iff]
        at hallowed
      simpa using hallowed.1.1
    have hliteral := Fills.literal (c := c) (List.ne_nil_of_mem hfeed) hprintable
    rw [hs] at hliteral
    rw [hstyle]
    exact hliteral
  · rw [hstyle]
    refine .quoted .double (Quoted.isAllowed_doubleQuoted _) fun h => ?_
    rw [← hs]
    exact Quoted.read_doubleQuoted h

theorem Fills.word {s : String} {ch : Char} {w : List Char} (hs : s.toList = ch :: w)
    (h : ∀ d ∈ ch :: w, isWord d) (hdash : ch = '-' → ∃ d ds, w = d :: ds ∧ d ≠ '-') :
    Fills c (s ++ "\n").toList [.scalar .plain s] := by
  have hplain := Fills.plain (c := c) (.of_word (by simp) h) (Plain.startsWithMark_word h hdash)
  rw [← hs, String.ofList_toList] at hplain
  rw [String.toList_append]
  exact hplain

theorem isWord_digit {ch : Char} (h : ch.isDigit) : isWord ch ∧ ch ≠ '-' := by
  refine ⟨by simp [isWord, Char.isAlphanum, h], ?_⟩
  rintro rfl
  exact absurd h (by decide)

theorem toString_word (i : Int) : ∃ ch w, (toString i).toList = ch :: w ∧
    (∀ d ∈ ch :: w, isWord d) ∧ (ch = '-' → ∃ d ds, w = d :: ds ∧ d ≠ '-') := by
  have hdigits : ∀ n : Nat, ∃ d ds, Nat.toDigits 10 n = d :: ds ∧
      ∀ x ∈ d :: ds, isWord x ∧ x ≠ '-' := by
    intro n
    obtain ⟨d, ds, hds⟩ := List.exists_cons_of_ne_nil (Nat.toDigits_ne_nil (b := 10) (n := n))
    refine ⟨d, ds, hds, fun x hx => isWord_digit ?_⟩
    exact Nat.isDigit_of_mem_toDigits (by decide) (by decide) (hds ▸ hx)
  rw [Int.toString_eq_repr, Int.repr_eq_if]
  split
  · obtain ⟨d, ds, hds, hword⟩ := hdigits i.toNat
    exact ⟨d, ds, by rw [Nat.toList_repr, hds], fun x hx => (hword x hx).1,
      fun hminus => absurd hminus (hword d List.mem_cons_self).2⟩
  · obtain ⟨d, ds, hds, hword⟩ := hdigits (-i).toNat
    refine ⟨'-', d :: ds, by rw [String.toList_append, Nat.toList_repr, hds]; rfl, ?_,
      fun _ => ⟨d, ds, rfl, (hword d List.mem_cons_self).2⟩⟩
    exact List.forall_mem_cons.mpr ⟨rfl, fun x hx => (hword x hx).1⟩

theorem Fills.int (c : Nat) (i : Int) :
    Fills c (toString i ++ "\n").toList [.scalar .plain (toString i)] := by
  obtain ⟨ch, w, hcs, hword, hdash⟩ := toString_word i
  exact .word hcs hword hdash

/-- The tokens of a value that fits into the line of its key or dash. -/
def leafTokens : Datum → List Token
  | .null => [.scalar .plain "null"]
  | .flag b => [.scalar .plain (if b then "true" else "false")]
  | .int i => [.scalar .plain (toString i)]
  | .text s => [.scalar (Writer.style s.toList) s]
  | .list _ => [.flowSequence, .flowSequenceEnd]
  | .record _ => [.flowMapping, .flowMappingEnd]

theorem Fills.leaf (c : Nat) (d : Datum) :
    Fills c (Writer.leaf (c + 2) d).toList (leafTokens d) := by
  cases d with
  | null =>
    have hnull : "null".toList = 'n' :: ['u', 'l', 'l'] := rfl
    exact .word hnull (List.all_eq_true.mp rfl) (by simp)
  | flag b =>
    have htrue : "true".toList = 't' :: ['r', 'u', 'e'] := rfl
    have hfalse : "false".toList = 'f' :: ['a', 'l', 's', 'e'] := rfl
    cases b with
    | true => exact .word htrue (List.all_eq_true.mp rfl) (by simp)
    | false => exact .word hfalse (List.all_eq_true.mp rfl) (by simp)
  | int i => exact .int c i
  | text s => exact .text c s
  | list items =>
    have hempty : Fills c "[]\n".toList _ := .empty .sequence
    exact hempty
  | record members =>
    have hempty : Fills c "\x7b\x7d\n".toList _ := .empty .mapping
    exact hempty

end SignalGuard.Yaml.Layout
