import SignalGuard.Proofs.YamlCursor
import SignalGuard.Yaml.Layout

/-!
# From one token to the next

`Stands` is what is known of a layout between two tokens of written text: the
characters to come, the column, the open blocks and the tokens so far. A layout
leads to another one if reading from the first goes on as from the second. Going
over blanks and line ends and ending a block are such steps without a token.
-/

namespace SignalGuard.Yaml

open Writer (pad)

/-- Whether the text does not begin with something that is passed over in front
of a token. -/
def Firm (cs : List Char) : Prop :=
  ∀ ch ∈ cs.head?, isGap (some ch) = false ∧ ch ≠ '#' ∧ ch ≠ byteOrderMark

theorem Firm.solid {cs : List Char} (h : Firm cs) : Solid cs := fun ch hch => (h ch hch).1

theorem Firm.nil : Firm [] := by simp [Firm]

theorem Firm.append {cs : List Char} (h : Firm cs) (hne : cs ≠ []) (behind : List Char) :
    Firm (cs ++ behind) := by
  obtain ⟨ch, cs, rfl⟩ := List.exists_cons_of_ne_nil hne
  exact h

namespace Layout

variable {l l' l'' : Layout} {cs : List Char} {column k : Nat} {columns base : List Nat}
  {tokens : List Token} {allowed : Bool}

-- -----------------------------------------------------------------------------
-- Runs
-- -----------------------------------------------------------------------------

/-- Reading from the first layout goes on as from the second one, and every token
on the way takes a character. -/
def Leads (l l' : Layout) : Prop :=
  ∃ n, n + l'.cursor.rest.length ≤ l.cursor.rest.length ∧
    ∀ fuel, readAll (n + fuel) l = readAll fuel l'

theorem Leads.trans (h : Leads l l') (h' : Leads l' l'') : Leads l l'' := by
  obtain ⟨n, hn, hread⟩ := h
  obtain ⟨m, hm, hread'⟩ := h'
  refine ⟨n + m, by omega, fun fuel => ?_⟩
  rw [Nat.add_assoc, hread, hread']

/-- What is read depends on the next token only. -/
theorem Leads.of_advance (h : l.advance = l'.advance)
    (hrest : l'.cursor.rest.length ≤ l.cursor.rest.length) : Leads l l' := by
  refine ⟨0, by omega, fun fuel => ?_⟩
  rw [Nat.zero_add, readAll.eq_def, readAll.eq_def fuel l']
  simp only [h]

theorem Leads.token {ch : Char} (h : l.advance = some l') (hrest : l'.cursor.rest = ch :: cs)
    (hread : l'.readToken ch = some l'')
    (hless : l''.cursor.rest.length < l.cursor.rest.length) : Leads l l'' := by
  refine ⟨1, by omega, fun fuel => ?_⟩
  rw [Nat.add_comm 1 fuel, readAll.eq_def]
  simp [h, hrest, hread]

-- -----------------------------------------------------------------------------
-- In front of a token
-- -----------------------------------------------------------------------------

/-- The layout between two tokens. -/
structure Stands (l : Layout) (cs : List Char) (column : Nat) (columns : List Nat)
    (allowed : Bool) (tokens : List Token) : Prop where
  cursor : l.cursor.At cs column
  columns_eq : l.columns = columns
  key_eq : l.key = none
  outer_eq : l.outer = []
  allowed_eq : l.keyAllowed = allowed
  tokens_eq : l.tokens.toList = tokens

theorem skipByteOrderMark_eq (h : l.cursor.At cs column) (hcs : cs.head? ≠ some byteOrderMark) :
    l.skipByteOrderMark = l := by
  simp [skipByteOrderMark, h.peek_zero, hcs]

theorem not_isSpace {b : Bool} (hcs : Firm cs) :
    ∀ ch ∈ cs.head?, (decide (ch = ' ') || decide (ch = '\t') && b) = false := by
  intro ch hch
  obtain ⟨hgap, -, -⟩ := hcs ch hch
  have hblank : isBlank ch = false := (Bool.or_eq_false_iff.mp hgap).1
  simp only [isBlank, Bool.or_eq_false_iff, decide_eq_false_iff_not] at hblank
  simp [hblank]

theorem skipBlankLines_firm (h : l.cursor.At cs column) (hcs : Firm cs) (fuel : Nat) :
    skipBlankLines (fuel + 1) l = l := by
  have hpeek : l.cursor.peek? 0 ≠ some '#' := by
    rw [h.peek_zero]
    exact fun hhead => (hcs _ hhead).2.1 rfl
  simp only [skipBlankLines, h.skipWhile (not_isSpace hcs), if_neg hpeek, h.rest_eq]
  cases cs with
  | nil => rfl
  | cons ch cs =>
    have hbreak : isBreak ch = false := (Bool.or_eq_false_iff.mp (hcs ch rfl).1).2
    simp [hbreak]

theorem skipToToken_firm (h : l.cursor.At cs column) (hcs : Firm cs) : l.skipToToken = l := by
  have hmark : cs.head? ≠ some byteOrderMark := fun hhead => (hcs _ hhead).2.2 rfl
  rw [skipToToken, skipByteOrderMark_eq h hmark]
  exact skipBlankLines_firm h hcs _

theorem skipBlankLines_spaces {n : Nat} (h : l.cursor.At (pad n ++ cs) column)
    (hcs : Firm cs) (fuel : Nat) : ∃ c, skipBlankLines (fuel + 1) l = { l with cursor := c } ∧
      c.At cs (column + n) ∧ c.line = l.cursor.line := by
  obtain ⟨c, hspan, hc, -, hline⟩ :=
    h.span (p := fun ch => ch = ' ' || ch = '\t' && (l.inFlow || !l.keyAllowed))
      (fun ch hch => by simp [List.eq_of_mem_replicate hch]) (not_isSpace hcs)
  have hskip : l.cursor.skipWhile
      (fun ch => ch = ' ' || ch = '\t' && (l.inFlow || !l.keyAllowed)) = c :=
    congrArg Prod.snd hspan
  rw [pad, List.length_replicate] at hc
  have hpeek : c.peek? 0 ≠ some '#' := by
    rw [hc.peek_zero]
    exact fun hhead => (hcs _ hhead).2.1 rfl
  refine ⟨c, ?_, hc, hline⟩
  simp only [skipBlankLines, hskip, if_neg hpeek, hc.rest_eq]
  cases cs with
  | nil => rfl
  | cons ch cs =>
    have hbreak : isBreak ch = false := (Bool.or_eq_false_iff.mp (hcs ch rfl).1).2
    simp [hbreak]

theorem skipToToken_spaces {n : Nat} (h : l.cursor.At (pad n ++ cs) column) (hcs : Firm cs) :
    ∃ c, l.skipToToken = { l with cursor := c } ∧ c.At cs (column + n) ∧
      c.line = l.cursor.line := by
  have hmark : (pad n ++ cs).head? ≠ some byteOrderMark := by
    cases n with
    | zero => exact fun hhead => (hcs _ hhead).2.2 rfl
    | succ n => simp [pad, List.replicate_succ, byteOrderMark]
  rw [skipToToken, skipByteOrderMark_eq h hmark]
  exact skipBlankLines_spaces h hcs _

/-- At the end of a line a key may start again. -/
theorem skipToToken_line (h : l.cursor.At ('\n' :: (pad k ++ cs)) column) (hcs : Firm cs)
    (houter : l.outer = []) :
    ∃ c, l.skipToToken = { l with cursor := c, keyAllowed := true } ∧ c.At cs k ∧
      c.line = l.cursor.line + 1 := by
  obtain ⟨size, hsize⟩ : ∃ n, l.cursor.size = n + 1 := by
    have := h.room
    rw [List.length_cons] at this
    exact ⟨l.cursor.size - 1, by omega⟩
  have hskip : l.cursor.skipWhile
      (fun ch => ch = ' ' || ch = '\t' && (l.inFlow || !l.keyAllowed)) = l.cursor :=
    h.skipWhile (by simp)
  have hpeek : l.cursor.peek? 0 = some '\n' := h.peek_zero
  obtain ⟨hnext, hline⟩ := h.skipLine (by decide)
  have hspaces : ({ l with cursor := l.cursor.skipLine, keyAllowed := true } : Layout).cursor.At
      (pad k ++ cs) 0 := hnext
  obtain ⟨c, hread, hc, hsame⟩ := skipBlankLines_spaces hspaces hcs size
  rw [Nat.zero_add] at hc
  refine ⟨c, ?_, hc, hsame.trans hline⟩
  have hbreak : isBreak '\n' = true := rfl
  have hhash : some '\n' ≠ some '#' := by decide
  have hallowed : (l.keyAllowed || !l.inFlow) = true := by simp [inFlow, houter]
  rw [skipToToken, skipByteOrderMark_eq h (by simp [byteOrderMark]), hsize, ← hread,
    skipBlankLines]
  simp only [hskip, hpeek, if_neg hhash, h.rest_eq, hbreak, if_true, hallowed]

theorem expireKeys_eq (houter : l.outer = [])
    (hkey : ∀ q ∈ l.key, q.required = false ∧ q.line < l.cursor.line) :
    l.expireKeys = some { l with key := none } := by
  cases hk : l.key with
  | none => simp [expireKeys, hk, houter]
  | some q =>
    obtain ⟨hrequired, hline⟩ := hkey q hk
    simp [expireKeys, hk, houter, hrequired, KeyStart.isOver, hline]

theorem closeTo_eq (houter : l.outer = []) :
    l.closeTo k = l.closeWhile fun start => k < start := by
  simp [closeTo, inFlow, houter]

theorem closeTo_of_le (houter : l.outer = []) (hcolumns : ∀ top ∈ l.columns.head?, top ≤ k) :
    l.closeTo k = l := by
  have hnone : l.columns.takeWhile (k < ·) = [] ∧ l.columns.dropWhile (k < ·) = l.columns := by
    cases h : l.columns with
    | nil => exact ⟨rfl, rfl⟩
    | cons top rest => simp [hcolumns top (by rw [h]; rfl)]
  rw [closeTo_eq houter]
  simp [closeWhile, hnone]

namespace Stands

theorem withoutKey (h : Stands l cs column columns allowed tokens) :
    { l with key := none } = l := by
  rw [← h.key_eq]

theorem advance_eq (h : Stands l cs column columns allowed tokens) (hcs : Firm cs) :
    l.advance = some (l.closeTo column) := by
  have hkey : ∀ q ∈ l.key, q.required = false ∧ q.line < l.cursor.line := by simp [h.key_eq]
  rw [advance, skipToToken_firm h.cursor hcs, expireKeys_eq h.outer_eq hkey, h.withoutKey,
    Option.map_some, h.cursor.column_eq]

/-- With the open blocks further left nothing changes in front of a token. -/
theorem advance_self (h : Stands l cs column columns allowed tokens) (hcs : Firm cs)
    (hcolumns : ∀ top ∈ columns.head?, top ≤ column) : l.advance = some l := by
  rw [h.advance_eq hcs, closeTo_of_le h.outer_eq (by rwa [h.columns_eq])]

/-- A block that the next token lies left of ends. -/
theorem close (h : Stands l cs k (column :: base) allowed tokens) (hcs : Firm cs)
    (hk : k < column) :
    ∃ l', Leads l l' ∧ Stands l' cs k base allowed (tokens ++ [.blockEnd]) := by
  have hstands : Stands { l with columns := base, tokens := l.tokens.push .blockEnd } cs k base
      allowed (tokens ++ [.blockEnd]) :=
    ⟨h.cursor, rfl, h.key_eq, h.outer_eq, h.allowed_eq, by simp [h.tokens_eq]⟩
  refine ⟨_, ?_, hstands⟩
  refine Leads.of_advance ?_ (Nat.le_refl _)
  rw [h.advance_eq hcs, hstands.advance_eq hcs, closeTo_eq h.outer_eq, closeTo_eq hstands.outer_eq]
  have hpush : l.tokens ++ Array.replicate ((base.takeWhile (k < ·)).length + 1) Token.blockEnd =
      l.tokens.push .blockEnd ++ Array.replicate (base.takeWhile (k < ·)).length .blockEnd := by
    apply Array.toList_inj.mp
    simp [List.replicate_succ]
  simp only [closeWhile, h.columns_eq, List.takeWhile_cons, List.dropWhile_cons, hk, decide_true,
    if_true, List.length_cons, hpush]

/-- Spaces in front of a token are passed over. -/
theorem skipSpaces {n : Nat} (h : Stands l (pad n ++ cs) column columns allowed tokens)
    (hcs : Firm cs) : ∃ l', Leads l l' ∧ Stands l' cs (column + n) columns allowed tokens := by
  obtain ⟨c, hskip, hc, -⟩ := skipToToken_spaces h.cursor hcs
  have hstands : Stands { l with cursor := c } cs (column + n) columns allowed tokens :=
    ⟨hc, h.columns_eq, h.key_eq, h.outer_eq, h.allowed_eq, h.tokens_eq⟩
  refine ⟨_, Leads.of_advance ?_ ?_, hstands⟩
  · rw [advance, advance, hskip, skipToToken_firm hc hcs]
  · rw [hstands.cursor.rest_eq, h.cursor.rest_eq, List.length_append]
    omega

end Stands

/-- A token has ended its line, and the layout stands in front of the next one. -/
theorem settle (hcursor : l.cursor.At cs k) (hcs : Firm cs) (hallowed : l.keyAllowed = true)
    (houter : l.outer = [])
    (hkey : ∀ q ∈ l.key, q.required = false ∧ q.line < l.cursor.line) :
    ∃ l', Leads l l' ∧ Stands l' cs k l.columns true l.tokens.toList := by
  have hstands : Stands { l with key := none } cs k l.columns true l.tokens.toList :=
    ⟨hcursor, rfl, rfl, houter, hallowed, rfl⟩
  refine ⟨_, ?_, hstands⟩
  refine Leads.of_advance ?_ (Nat.le_refl _)
  rw [hstands.advance_eq hcs, advance, skipToToken_firm hcursor hcs, expireKeys_eq houter hkey,
    Option.map_some, hstands.cursor.column_eq]

/-- A token is followed by the end of its line. -/
theorem settle_line (hcursor : l.cursor.At ('\n' :: (pad k ++ cs)) column) (hcs : Firm cs)
    (houter : l.outer = [])
    (hkey : ∀ q ∈ l.key, q.required = false ∧ q.line ≤ l.cursor.line) :
    ∃ l', Leads l l' ∧ Stands l' cs k l.columns true l.tokens.toList := by
  obtain ⟨c, hskip, hc, hline⟩ := skipToToken_line hcursor hcs houter
  have hkey' : ∀ q ∈ l.key, q.required = false ∧ q.line < c.line := by
    intro q hq
    obtain ⟨hrequired, hle⟩ := hkey q hq
    exact ⟨hrequired, by omega⟩
  obtain ⟨l', hleads, hl'⟩ :=
    settle (l := { l with cursor := c, keyAllowed := true }) hc hcs rfl houter hkey'
  refine ⟨l', .trans (Leads.of_advance ?_ ?_) hleads, hl'⟩
  · rw [advance, advance, hskip, skipToToken_firm hc hcs]
  · rw [hc.rest_eq, hcursor.rest_eq, List.length_cons, List.length_append]
    omega

end Layout

end SignalGuard.Yaml
