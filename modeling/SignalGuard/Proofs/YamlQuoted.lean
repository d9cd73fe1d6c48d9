import SignalGuard.Proofs.YamlCursor
import SignalGuard.Yaml.Scalar.Quoted

/-!
# Quoted scalars are read back

A quoted scalar is runs of written characters with gaps between them. `Quotes`
says which text such a scalar holds; what both quoting styles write is of this
form, and everything of this form is read as the text it holds.
-/

namespace SignalGuard.Yaml.Quoted

open Writer (pad isSpace)

variable {quote : Char} {encode : Char → List Char} {c : Cursor} {cs behind : List Char}
  {column : Nat}

-- -----------------------------------------------------------------------------
-- Characters
-- -----------------------------------------------------------------------------

/-- The characters written for one, which are read as it wherever they stand. -/
structure ReadsAs (quote : Char) (ws : List Char) (ch : Char) : Prop where
  nonempty : ws ≠ []
  solid : Solid ws
  reads : ∀ {c : Cursor} {behind : List Char} {column : Nat}, c.At (ws ++ behind) column →
    ∃ c', readPart quote c = some (.char ch, c') ∧ c'.At behind (column + ws.length) ∧
      c'.line = c.line

theorem ReadsAs.solid_append {ws : List Char} {ch : Char} (h : ReadsAs quote ws ch)
    (rest : List Char) : Solid (ws ++ rest) := by
  obtain ⟨w, ws, rfl⟩ := List.exists_cons_of_ne_nil h.nonempty
  exact h.solid

theorem ReadsAs.self {ch : Char} (hgap : isGap (some ch) = false) (hquote : ch ≠ quote)
    (hescape : quote = '"' → ch ≠ '\\') : ReadsAs quote [ch] ch where
  nonempty := by simp
  solid := fun w hw => Option.some.inj hw ▸ hgap
  reads := by
    intro c behind column h
    have hescape' : ¬ (quote = '"' ∧ ch = '\\') := fun ⟨hq, hch⟩ => hescape hq hch
    have hgap' : (isBlank ch || isBreak ch) = false := hgap
    refine ⟨c.skip, ?_, h.skip, c.skip_line⟩
    simp [readPart, h.rest_eq, hgap', hquote, hescape']

theorem ReadsAs.doubled : ReadsAs '\'' ['\'', '\''] '\'' where
  nonempty := by simp
  solid := fun w hw => Option.some.inj hw ▸ rfl
  reads := by
    intro c behind column h
    refine ⟨c.skipMany 2, ?_, h.skipMany, c.skipMany_line 2⟩
    simp [readPart, h.rest_eq, isBlank, isBreak, nextLine, lineSeparator, paragraphSeparator]

theorem hex_succ (w n : Nat) :
    Writer.hex (w + 1) n = Digits.upper (n >>> (4 * w) % 16) :: Writer.hex w n := by
  simp [Writer.hex, List.range_succ]

theorem length_hex (w n : Nat) : (Writer.hex w n).length = w := by
  simp [Writer.hex]

/-- The digits go on where a number with the digits in front of them ends. -/
theorem extend?_hex (w n : Nat) :
    Digits.extend? 16 (n >>> (4 * w)) (Writer.hex w n) = some n := by
  induction w with
  | zero => rfl
  | succ w ih =>
    have hdigit := Digits.value?_upper (n >>> (4 * w) % 16) (Nat.mod_lt _ (by decide))
    have hshift : n >>> (4 * (w + 1)) = n >>> (4 * w) / 16 := by
      rw [Nat.mul_succ, Nat.shiftRight_add, Nat.shiftRight_eq_div_pow _ 4]
    have hvalue : n >>> (4 * (w + 1)) * 16 + n >>> (4 * w) % 16 = n >>> (4 * w) := by omega
    rw [hex_succ, Digits.extend?, hdigit]
    simpa [hvalue] using ih

theorem number?_hex {w n : Nat} (hpos : 0 < w) (hn : n >>> (4 * w) = 0) :
    Digits.number? 16 (Writer.hex w n) = some n := by
  have hne : (Writer.hex w n).isEmpty = false := by
    rw [List.isEmpty_eq_false_iff, ← List.length_pos_iff, length_hex]
    exact hpos
  have := extend?_hex w n
  rw [hn] at this
  simp [Digits.number?, hne, this]

/-- An escape is one letter, or a mark and the digits of the code point. -/
theorem escapeChar_cases (ch : Char) :
    (∃ letter, Writer.escapeChar ch = [letter] ∧ isBreak letter = false ∧
      hexLength? letter = none ∧ simpleEscape? letter = some ch) ∨
    (∃ mark w, Writer.escapeChar ch = mark :: Writer.hex w ch.toNat ∧ isBreak mark = false ∧
      hexLength? mark = some w ∧ 0 < w ∧ ch.toNat >>> (4 * w) = 0) := by
  have hmax : ch.toNat < 0x110000 := by
    rcases ch.valid with h | h
    · exact Nat.lt_trans h (by decide)
    · exact h.2
  unfold Writer.escapeChar
  split
  iterate 11 exact .inl ⟨_, rfl, rfl, rfl, rfl⟩
  dsimp only
  split
  · next h => exact .inl ⟨'N', rfl, rfl, rfl, by rw [h]; rfl⟩
  split
  · next h => exact .inl ⟨'L', rfl, rfl, rfl, by rw [h]; rfl⟩
  split
  · next h => exact .inl ⟨'P', rfl, rfl, rfl, by rw [h]; rfl⟩
  split
  · next h =>
    refine .inr ⟨'x', 2, rfl, rfl, rfl, by decide, ?_⟩
    rw [Nat.shiftRight_eq_div_pow]
    omega
  split
  · next h =>
    refine .inr ⟨'u', 4, rfl, rfl, rfl, by decide, ?_⟩
    rw [Nat.shiftRight_eq_div_pow]
    omega
  · refine .inr ⟨'U', 8, rfl, rfl, rfl, by decide, ?_⟩
    rw [Nat.shiftRight_eq_div_pow]
    omega

theorem charAt?_toNat (ch : Char) : charAt? ch.toNat = some ch := by
  have hvalid : ch.toNat.isValidChar := ch.valid
  rw [charAt?, if_pos hvalid, Char.ofNat_toNat]

theorem readPart_escape {mark : Char} (h : c.At ('\\' :: behind) column)
    (hmark : behind.head? = some mark) (hbreak : isBreak mark = false) :
    readPart '"' c = (readEscape c.skip).map fun (ch, c) => (.char ch, c) := by
  have hgap : (isBlank '\\' || isBreak '\\') = false := rfl
  simp [readPart, h.rest_eq, hgap, hmark, hbreak]

theorem ReadsAs.escape (ch : Char) : ReadsAs '"' ('\\' :: Writer.escapeChar ch) ch where
  nonempty := by simp
  solid := fun w hw => Option.some.inj hw ▸ rfl
  reads := by
    intro c behind column h
    rcases escapeChar_cases ch with ⟨letter, heq, hbreak, hlength, hsimple⟩ |
      ⟨mark, w, heq, hbreak, hlength, hpos, hfits⟩
    · rw [heq] at h ⊢
      have hskip := h.skip
      refine ⟨c.skip.skip, ?_, hskip.skip, by simp⟩
      rw [readPart_escape h rfl hbreak]
      simp [readEscape, hskip.peek_zero, hlength, hsimple]
    · rw [heq] at h ⊢
      have hskip := h.skip
      have hend := hskip.skip.skipMany
      rw [length_hex] at hend
      refine ⟨c.skip.skip.skipMany w, ?_, ?_, by simp⟩
      · have htake : c.skip.skip.rest.take w = Writer.hex w ch.toNat := by
          rw [hskip.skip.rest_eq]
          exact List.take_left' (length_hex w ch.toNat)
        rw [readPart_escape h rfl hbreak]
        simp only [readEscape, hskip.peek_zero, List.head?_cons, List.append_eq, List.cons_append,
          Option.bind_eq_bind, Option.bind_some, hlength, htake, length_hex, Nat.lt_irrefl,
          if_false, number?_hex hpos hfits, charAt?_toNat]
        rfl
      · have hcount : column + ('\\' :: mark :: Writer.hex w ch.toNat).length =
            column + 1 + 1 + w := by
          simp only [List.length_cons, length_hex]
          omega
        rwa [hcount]

-- -----------------------------------------------------------------------------
-- Runs and gaps
-- -----------------------------------------------------------------------------

/-- A run of characters ends in front of the text. -/
def Stops (quote : Char) (behind : List Char) : Prop :=
  ∀ {c : Cursor} {column : Nat}, c.At behind column → readPart quote c = some (.stop, c)

theorem Stops.of_gap {ch : Char} (hgap : isGap (some ch)) : Stops quote (ch :: behind) := by
  intro c column h
  have hgap' : (isBlank ch || isBreak ch) = true := hgap
  simp [readPart, h.rest_eq, hgap']

theorem Stops.of_quote (hquote : isGap (some quote) = false)
    (hsingle : quote = '\'' → behind.head? ≠ some '\'') : Stops quote (quote :: behind) := by
  intro c column h
  have hgap : (isBlank quote || isBreak quote) = false := hquote
  have hsingle' : ¬ (quote = '\'' ∧ behind.head? = some '\'') := fun ⟨hq, hb⟩ => hsingle hq hb
  simp [readPart, h.rest_eq, hgap, hsingle']

theorem readRun_append {run : List Char} (hstop : Stops quote behind)
    (hrun : ∀ ch ∈ run, ReadsAs quote (encode ch) ch) :
    ∀ {c : Cursor} {column fuel : Nat}, c.At (run.flatMap encode ++ behind) column →
      run.length ≤ fuel →
      ∃ c', readRun quote fuel c = some (run, false, c') ∧
        c'.At behind (column + (run.flatMap encode).length) ∧ c'.line = c.line := by
  induction run with
  | nil =>
    intro c column fuel h _
    refine ⟨c, ?_, h, rfl⟩
    cases fuel with
    | zero => rfl
    | succ fuel => simp [readRun, hstop h]
  | cons ch run ih =>
    intro c column fuel h hfuel
    obtain ⟨fuel, rfl⟩ : ∃ n, fuel = n + 1 := ⟨fuel - 1, by simp at hfuel; omega⟩
    obtain ⟨hch, hrest⟩ := List.forall_mem_cons.mp hrun
    rw [List.flatMap_cons, List.append_assoc] at h
    obtain ⟨c₁, hpart, h₁, hline₁⟩ := hch.reads h
    obtain ⟨c', hread, hc', hline⟩ := ih hrest h₁ (Nat.le_of_succ_le_succ hfuel)
    refine ⟨c', by simp [readRun, hpart, hread], ?_, hline.trans hline₁⟩
    rwa [List.flatMap_cons, List.length_append, ← Nat.add_assoc]

/-- A written gap counts as these characters. A line that starts in it is
indented. -/
structure Folds (written gap : List Char) : Prop where
  starts : ∃ ch rest, written = ch :: rest ∧ isGap (some ch)
  reads : ∀ {c : Cursor} {behind : List Char} {column fuel : Nat},
    c.At (written ++ behind) column → Solid behind → written.length ≤ fuel →
    ∃ g c' column', Gap.read 0 fuel .empty c = some (g, c') ∧ g.toList = gap ∧
      c'.At behind column' ∧ 0 < column' ∧ c.line ≤ c'.line

theorem Folds.spaces (n : Nat) :
    Folds (List.replicate (n + 1) ' ') (List.replicate (n + 1) ' ') where
  starts := ⟨' ', List.replicate n ' ', rfl, rfl⟩
  reads := by
    intro c behind column fuel h hbehind hfuel
    rw [List.length_replicate] at hfuel
    obtain ⟨c', hread, hc', hline⟩ := Gap.read_spaces h hbehind hfuel []
    exact ⟨_, c', _, hread, rfl, hc', by omega, Nat.le_of_eq hline.symm⟩

theorem Folds.breaks {b : Char} {bs : List Char} {n : Nat} (hn : 0 < n)
    (hbreaks : ∀ x ∈ b :: bs, isBreak x) (hprintable : ∀ x ∈ b :: bs, isPrintable x)
    (hfeed : b ≠ '\n') : Folds (b :: bs ++ pad n) (b :: bs) where
  starts := ⟨b, bs ++ pad n, rfl, by simp [isGap, hbreaks b List.mem_cons_self]⟩
  reads := by
    intro c behind column fuel h hbehind hfuel
    rw [List.append_assoc] at h
    rw [List.length_append, pad, List.length_replicate] at hfuel
    obtain ⟨c', hread, hc', hline⟩ := Gap.read_lines h hbreaks hprintable hbehind hfuel
    refine ⟨_, c', n, hread, ?_, hc', hn, Nat.le_of_lt hline⟩
    simp [Gap.toList]

/-- The written characters hold the text: runs of written characters with gaps
between them. -/
inductive Quotes (quote : Char) (encode : Char → List Char) : List Char → List Char → Prop
  | last {run : List Char} (reads : ∀ ch ∈ run, ReadsAs quote (encode ch) ch) :
      Quotes quote encode run (run.flatMap encode)
  | more {run gap written rest ws : List Char}
      (reads : ∀ ch ∈ run, ReadsAs quote (encode ch) ch) (folds : Folds written gap)
      (solid : Solid ws) (tail : Quotes quote encode rest ws) :
      Quotes quote encode (run ++ (gap ++ rest)) (run.flatMap encode ++ (written ++ ws))

theorem length_le_flatMap {run : List Char} (h : ∀ ch ∈ run, ReadsAs quote (encode ch) ch) :
    run.length ≤ (run.flatMap encode).length := by
  induction run with
  | nil => exact Nat.le_refl _
  | cons ch run ih =>
    obtain ⟨hch, hrun⟩ := List.forall_mem_cons.mp h
    have hpos := List.length_pos_iff.mpr hch.nonempty
    have := ih hrun
    rw [List.flatMap_cons, List.length_append, List.length_cons]
    omega

theorem readRuns_quote {run : List Char} (hrun : ∀ ch ∈ run, ReadsAs quote (encode ch) ch)
    (hquote : isGap (some quote) = false) (hsingle : quote = '\'' → behind.head? ≠ some '\'')
    (h : c.At (run.flatMap encode ++ quote :: behind) column) (hcolumn : 0 < column) (fuel : Nat) :
    ∃ c' column', readRuns quote (fuel + 1) c = some (run, c') ∧ c'.At behind column' ∧
      c.line ≤ c'.line := by
  have hroom := h.room
  rw [List.length_append] at hroom
  have hlength := length_le_flatMap hrun
  have hsize : run.length ≤ c.size := by omega
  obtain ⟨c', hread, hc', hline⟩ := readRun_append (Stops.of_quote hquote hsingle) hrun h hsize
  have hempty : c.rest.isEmpty = false := by simp [h.rest_eq]
  refine ⟨c'.skip, _, ?_, hc'.skip, by simp [hline]⟩
  simp [readRuns, h.not_atDocumentMarker hcolumn, hempty, hread, hc'.peek_zero]

theorem readRuns_gap {run written gap : List Char}
    (hrun : ∀ ch ∈ run, ReadsAs quote (encode ch) ch) (hfolds : Folds written gap)
    (hquote : isGap (some quote) = false) (hbehind : Solid behind)
    (h : c.At (run.flatMap encode ++ (written ++ behind)) column) (hcolumn : 0 < column)
    (fuel : Nat) :
    ∃ c' column', c'.At behind column' ∧ 0 < column' ∧ c.line ≤ c'.line ∧
      readRuns quote (fuel + 1) c =
        (readRuns quote fuel c').map fun (text, c) => (run ++ gap ++ text, c) := by
  obtain ⟨ch, written', hwritten, hgap⟩ := hfolds.starts
  have hroom := h.room
  simp only [List.length_append] at hroom
  have hlength := length_le_flatMap hrun
  have hsize : run.length ≤ c.size := by omega
  have hstop : Stops quote (written ++ behind) := by
    rw [hwritten, List.cons_append]
    exact Stops.of_gap hgap
  obtain ⟨c₁, hread₁, h₁, hline₁⟩ := readRun_append hstop hrun h hsize
  have hpeek : c₁.peek? 0 ≠ some quote := by
    rw [h₁.peek_zero, hwritten]
    rintro ⟨⟩
    rw [hgap] at hquote
    cases hquote
  have hroom₁ := h₁.room
  rw [List.length_append] at hroom₁
  have hsize₁ : written.length ≤ c₁.size := by omega
  obtain ⟨g, c₂, column₂, hread₂, rfl, h₂, hcolumn₂, hline₂⟩ := hfolds.reads h₁ hbehind hsize₁
  refine ⟨c₂, column₂, h₂, hcolumn₂, by omega, ?_⟩
  have hempty : c.rest.isEmpty = false := by simp [h.rest_eq, hwritten]
  cases htail : readRuns quote fuel c₂ <;>
    simp [readRuns, h.not_atDocumentMarker hcolumn, hempty, hread₁, hpeek, hread₂, htail]

theorem solid_quote {ws : List Char} (h : Solid ws) (hquote : isGap (some quote) = false)
    (behind : List Char) : Solid (ws ++ quote :: behind) := by
  cases ws with
  | nil => exact fun w hw => Option.some.inj hw ▸ hquote
  | cons w ws => exact h

-- The induction is on the runs; each gap is at least one character of the fuel.

theorem readRuns_append {ws : List Char} (hws : Quotes quote encode cs ws)
    (hquote : isGap (some quote) = false)
    (hsingle : quote = '\'' → behind.head? ≠ some '\'') :
    ∀ {c : Cursor} {column fuel : Nat}, c.At (ws ++ quote :: behind) column → 0 < column →
      ws.length < fuel →
      ∃ c' column', readRuns quote fuel c = some (cs, c') ∧ c'.At behind column' ∧
        c.line ≤ c'.line := by
  induction hws with
  | @last run hrun =>
    intro c column fuel h hcolumn hfuel
    obtain ⟨fuel, rfl⟩ : ∃ n, fuel = n + 1 := ⟨fuel - 1, by omega⟩
    exact readRuns_quote hrun hquote hsingle h hcolumn fuel
  | @more run gap written rest ws hrun hfolds hsolid _ ih =>
    intro c column fuel h hcolumn hfuel
    obtain ⟨fuel, rfl⟩ : ∃ n, fuel = n + 1 := ⟨fuel - 1, by omega⟩
    rw [List.append_assoc, List.append_assoc] at h
    obtain ⟨c₁, column₁, h₁, hcolumn₁, hline₁, hstep⟩ :=
      readRuns_gap hrun hfolds hquote (solid_quote hsolid hquote behind) h hcolumn fuel
    have hlength : ws.length < fuel := by
      obtain ⟨ch, written', hwritten, -⟩ := hfolds.starts
      simp only [hwritten, List.length_append, List.length_cons] at hfuel
      omega
    obtain ⟨c', column', hread, hc', hline⟩ := ih h₁ hcolumn₁ hlength
    refine ⟨c', column', ?_, hc', Nat.le_trans hline₁ hline⟩
    rw [hstep, hread]
    simp

theorem read_append {ws : List Char} (hws : Quotes quote encode cs ws)
    (hquote : isGap (some quote) = false)
    (hsingle : quote = '\'' → behind.head? ≠ some '\'')
    (h : c.At (quote :: (ws ++ quote :: behind)) column) :
    ∃ c' column', read quote c = some (String.ofList cs, c') ∧ c'.At behind column' ∧
      c.line ≤ c'.line := by
  have hroom := h.room
  simp only [List.length_append, List.length_cons] at hroom
  obtain ⟨c', column', hread, hc', hline⟩ :=
    readRuns_append hws hquote hsingle h.skip (Nat.succ_pos _) (by omega : ws.length < c.size)
  rw [Cursor.skip_line] at hline
  exact ⟨c', column', by simp [read, hread], hc', hline⟩

-- -----------------------------------------------------------------------------
-- Single quotes
-- -----------------------------------------------------------------------------

/-- A character between single quotes. -/
def double (ch : Char) : List Char := if ch = '\'' then [ch, ch] else [ch]

theorem ReadsAs.double {ch : Char} (hgap : isGap (some ch) = false) :
    ReadsAs '\'' (double ch) ch := by
  by_cases h : ch = '\''
  · subst h
    exact .doubled
  · rw [Quoted.double, if_neg h]
    exact .self hgap h (by simp)

section
variable {n : Nat} {write : Char → List Char}

theorem indentLines_run {run : List Char} (hrun : ∀ ch ∈ run, isBreak ch = false)
    (rest : List Char) : Writer.indentLines n write false (run ++ rest) =
      run.flatMap write ++ Writer.indentLines n write false rest := by
  induction run with
  | nil => rfl
  | cons ch run ih =>
    obtain ⟨hch, hrun⟩ := List.forall_mem_cons.mp hrun
    simp [Writer.indentLines, hch, ih hrun]

theorem indentLines_breaks {b : Char} {bs : List Char} (hbreaks : ∀ x ∈ b :: bs, isBreak x)
    (broken : Bool) (rest : List Char) : Writer.indentLines n write broken (b :: bs ++ rest) =
      b :: bs ++ Writer.indentLines n write true rest := by
  induction bs generalizing b broken with
  | nil => simp [Writer.indentLines, hbreaks b List.mem_cons_self]
  | cons d bs ih =>
    obtain ⟨hb, hbs⟩ := List.forall_mem_cons.mp hbreaks
    rw [List.cons_append, Writer.indentLines, if_pos hb, ih hbs]
    rfl

theorem indentLines_line {rest : List Char} (hrest : ∀ ch ∈ rest.head?, isBreak ch = false) :
    Writer.indentLines n write true rest = pad n ++ Writer.indentLines n write false rest := by
  cases rest with
  | nil => simp [Writer.indentLines]
  | cons ch rest => simp [Writer.indentLines, hrest ch rfl]

end

theorem flatMap_replicate_space {n : Nat} (h : encode ' ' = [' ']) :
    (List.replicate n ' ').flatMap encode = List.replicate n ' ' := by
  induction n with
  | zero => rfl
  | succ n ih => simp [List.replicate_succ, h, ih]

/-- A gap is spaces or breaks, not both. -/
theorem gap_cases {gap : List Char} (hgap : ∀ ch ∈ gap, isSpace ch || isBreak ch) (hne : gap ≠ [])
    (hspaceBreak : Writer.hasSpaceBreak gap = false)
    (hbreakSpace : Writer.hasBreakSpace gap = false) :
    (∃ m, gap = List.replicate (m + 1) ' ') ∨ ∀ ch ∈ gap, isBreak ch := by
  obtain ⟨b, bs, rfl⟩ := List.exists_cons_of_ne_nil hne
  cases hspace : isSpace b with
  | true =>
    have hspaces := Writer.all_of_head hgap hspaceBreak hspace
    exact .inl (exists_replicate_of_isSpace hspaces hne)
  | false =>
    have hclass : ∀ c ∈ b :: bs, isBreak c || isSpace c := fun c hc =>
      (Bool.or_comm _ _).trans (hgap c hc)
    have hbreak : isBreak b := by simpa [hspace] using hgap b List.mem_cons_self
    exact .inr (Writer.all_of_head hclass hbreakSpace hbreak)

theorem ReadsAs.double_run {run : List Char} (hprintable : ∀ ch ∈ run, isPrintable ch)
    (hrun : ∀ ch ∈ run, (isSpace ch || isBreak ch) = false) :
    ∀ ch ∈ run, ReadsAs '\'' (Quoted.double ch) ch := fun ch hch =>
  have ⟨hspace, hbreak⟩ := Bool.or_eq_false_iff.mp (hrun ch hch)
  .double (isGap_eq_false (hprintable ch hch) hspace hbreak)

theorem solid_indentLines {n : Nat} (hprintable : ∀ ch ∈ cs, isPrintable ch)
    (hfirst : ∀ ch ∈ cs.head?, (isSpace ch || isBreak ch) = false) :
    Solid (Writer.indentLines n double false cs) := by
  cases cs with
  | nil => exact fun w hw => by cases hw
  | cons ch cs =>
    obtain ⟨hspace, hbreak⟩ := Bool.or_eq_false_iff.mp (hfirst ch rfl)
    have hdouble := ReadsAs.double (isGap_eq_false (hprintable ch List.mem_cons_self) hspace hbreak)
    rw [Writer.indentLines, hbreak]
    exact hdouble.solid_append _

-- The induction is on the runs. Breaks need indentation behind them.

theorem Quotes.indentLines {n : Nat} (hn : 0 < n)
    (hcut : Cut (fun ch => isSpace ch || isBreak ch) cs) (hprintable : ∀ ch ∈ cs, isPrintable ch)
    (hfeed : '\n' ∉ cs) (hspaceBreak : Writer.hasSpaceBreak cs = false)
    (hbreakSpace : Writer.hasBreakSpace cs = false) :
    Quotes '\'' double cs (Writer.indentLines n double false cs) := by
  induction hcut with
  | @last run hrun =>
    have hlines : Writer.indentLines n double false (run ++ []) = run.flatMap double ++ [] :=
      indentLines_run (fun ch hch => (Bool.or_eq_false_iff.mp (hrun ch hch)).2) []
    rw [List.append_nil, List.append_nil] at hlines
    rw [hlines]
    exact .last (.double_run hprintable hrun)
  | @more run gap rest hrun hne hgap hedge _ ih =>
    obtain ⟨hprintable₁, hprintable'⟩ := List.forall_mem_append.mp hprintable
    obtain ⟨hprintable₂, hprintable₃⟩ := List.forall_mem_append.mp hprintable'
    have hspaceBreak' := Writer.anyNeighbours_append_right hspaceBreak
    have hbreakSpace' := Writer.anyNeighbours_append_right hbreakSpace
    simp only [List.mem_append, not_or] at hfeed
    have htail := ih hprintable₃ hfeed.2.2 (Writer.anyNeighbours_append_right hspaceBreak')
      (Writer.anyNeighbours_append_right hbreakSpace')
    have hruns := ReadsAs.double_run hprintable₁ hrun
    have hsolid := solid_indentLines (n := n) hprintable₃ hedge
    rw [indentLines_run fun ch hch => (Bool.or_eq_false_iff.mp (hrun ch hch)).2]
    rcases gap_cases hgap hne (Writer.anyNeighbours_append_left hspaceBreak')
      (Writer.anyNeighbours_append_left hbreakSpace') with ⟨m, rfl⟩ | hbreaks
    · have hunbroken : ∀ ch ∈ List.replicate (m + 1) ' ', isBreak ch = false := fun ch hch =>
        List.eq_of_mem_replicate hch ▸ rfl
      rw [indentLines_run hunbroken, flatMap_replicate_space rfl]
      exact .more hruns (.spaces m) hsolid htail
    · obtain ⟨b, bs, rfl⟩ := List.exists_cons_of_ne_nil hne
      have hb : b ≠ '\n' := fun hb => hfeed.2.1 (hb ▸ List.mem_cons_self)
      have hmore := Quotes.more hruns (.breaks hn hbreaks hprintable₂ hb) hsolid htail
      rw [List.append_assoc (b :: bs)] at hmore
      rwa [indentLines_breaks hbreaks,
        indentLines_line fun ch hch => (Bool.or_eq_false_iff.mp (hedge ch hch)).2]

/-- What is written between single quotes is read back. -/
theorem read_singleQuoted {n : Nat} (hn : 0 < n) (hallowed : Writer.allowsSingleQuoted cs)
    (hfeed : '\n' ∉ cs) (h : c.At (Writer.singleQuoted n cs ++ '\n' :: behind) column) :
    ∃ c' column', read '\'' c = some (String.ofList cs, c') ∧ c'.At ('\n' :: behind) column' ∧
      c.line ≤ c'.line := by
  simp only [Writer.allowsSingleQuoted, Bool.not_eq_true', Bool.or_eq_false_iff] at hallowed
  obtain ⟨⟨hspecial, hspaceBreak⟩, hbreakSpace⟩ := hallowed
  have hprintable : ∀ ch ∈ cs, isPrintable ch := by simpa [Writer.hasSpecial] using hspecial
  have hquotes := Quotes.indentLines hn (.of _ cs) hprintable hfeed hspaceBreak hbreakSpace
  have hwritten : Writer.singleQuoted n cs ++ '\n' :: behind =
      '\'' :: (Writer.indentLines n double false cs ++ '\'' :: '\n' :: behind) := by
    rw [Writer.singleQuoted, List.append_assoc]
    rfl
  rw [hwritten] at h
  exact read_append hquotes rfl (by simp) h

-- -----------------------------------------------------------------------------
-- Double quotes
-- -----------------------------------------------------------------------------

/-- A character between double quotes. -/
def escaped (ch : Char) : List Char :=
  if Writer.needsEscape ch then '\\' :: Writer.escapeChar ch else [ch]

theorem ReadsAs.escaped {ch : Char} (hspace : isSpace ch = false) :
    ReadsAs '"' (escaped ch) ch := by
  cases h : Writer.needsEscape ch with
  | true =>
    rw [Quoted.escaped, if_pos h]
    exact .escape ch
  | false =>
    rw [Quoted.escaped, h]
    simp only [Writer.needsEscape, Bool.or_eq_false_iff, Bool.not_eq_false',
      decide_eq_false_iff_not] at h
    obtain ⟨⟨⟨hprintable, hbreak⟩, hquote⟩, hbackslash⟩ := h
    exact .self (isGap_eq_false hprintable hspace hbreak) hquote fun _ => hbackslash

theorem Quotes.flatMap (hcut : Cut isSpace cs) : Quotes '"' escaped cs (cs.flatMap escaped) := by
  induction hcut with
  | last hrun => exact .last fun ch hch => .escaped (hrun ch hch)
  | @more run gap rest hrun hne hgap hedge _ ih =>
    have hsolid : Solid (rest.flatMap escaped) := by
      cases rest with
      | nil => exact fun w hw => by cases hw
      | cons d rest => exact (ReadsAs.escaped (hedge d rfl)).solid_append _
    obtain ⟨m, rfl⟩ := exists_replicate_of_isSpace hgap hne
    rw [List.flatMap_append, List.flatMap_append, flatMap_replicate_space rfl]
    exact .more (fun ch hch => .escaped (hrun ch hch)) (.spaces m) hsolid ih

/-- What is written between double quotes is read back. -/
theorem read_doubleQuoted (h : c.At (Writer.doubleQuoted cs ++ '\n' :: behind) column) :
    ∃ c' column', read '"' c = some (String.ofList cs, c') ∧ c'.At ('\n' :: behind) column' ∧
      c.line ≤ c'.line := by
  have hwritten : Writer.doubleQuoted cs ++ '\n' :: behind =
      '"' :: (cs.flatMap escaped ++ '"' :: '\n' :: behind) := by
    rw [Writer.doubleQuoted, List.append_assoc]
    rfl
  rw [hwritten] at h
  exact read_append (Quotes.flatMap (.of _ cs)) rfl (by simp) h

-- -----------------------------------------------------------------------------
-- Allowed characters
-- -----------------------------------------------------------------------------

theorem isAllowed_indentLines {n : Nat} {write : Char → List Char}
    (hcs : ∀ ch ∈ cs, isAllowed ch ∧ ∀ d ∈ write ch, isAllowed d) (broken : Bool) :
    ∀ d ∈ Writer.indentLines n write broken cs, isAllowed d := by
  induction cs generalizing broken with
  | nil =>
    cases broken with
    | true => exact isAllowed_pad n
    | false => simp [Writer.indentLines]
  | cons ch cs ih =>
    obtain ⟨⟨hch, hwrite⟩, hcs⟩ := List.forall_mem_cons.mp hcs
    rw [Writer.indentLines]
    split
    · exact List.forall_mem_cons.mpr ⟨hch, ih hcs true⟩
    · refine List.forall_mem_append.mpr ⟨List.forall_mem_append.mpr ⟨?_, hwrite⟩, ih hcs false⟩
      split
      · exact isAllowed_pad n
      · simp

theorem isAllowed_singleQuoted {n : Nat} (hprintable : ∀ ch ∈ cs, isPrintable ch) :
    ∀ d ∈ Writer.singleQuoted n cs, isAllowed d := by
  have hdouble : ∀ ch ∈ cs, isAllowed ch ∧ ∀ d ∈ double ch, isAllowed d := by
    intro ch hch
    have hallowed := isAllowed_of_printable (hprintable ch hch)
    refine ⟨hallowed, fun d hd => ?_⟩
    rw [double] at hd
    split at hd <;> simp_all
  have hlines := isAllowed_indentLines (n := n) hdouble false
  exact List.forall_mem_append.mpr ⟨List.forall_mem_cons.mpr ⟨rfl, hlines⟩,
    List.forall_mem_singleton.mpr rfl⟩

theorem isAllowed_hex (w n : Nat) : ∀ d ∈ Writer.hex w n, isAllowed d := by
  intro d hd
  obtain ⟨i, -, rfl⟩ := List.mem_map.mp hd
  have hdigit : ∀ m < 16, isAllowed (Digits.upper m) := by decide
  exact hdigit _ (Nat.mod_lt _ (by decide))

theorem isAllowed_escapeChar (ch : Char) : ∀ d ∈ Writer.escapeChar ch, isAllowed d := by
  unfold Writer.escapeChar
  split
  iterate 11 exact List.forall_mem_singleton.mpr rfl
  dsimp only
  repeat' split
  iterate 3 exact List.forall_mem_singleton.mpr rfl
  all_goals exact List.forall_mem_cons.mpr ⟨rfl, isAllowed_hex _ _⟩

theorem isAllowed_doubleQuoted (cs : List Char) : ∀ d ∈ Writer.doubleQuoted cs, isAllowed d := by
  have hescaped : ∀ ch, ∀ d ∈ escaped ch, isAllowed d := by
    intro ch d hd
    rw [escaped] at hd
    split at hd
    · have hescape : ∀ d ∈ '\\' :: Writer.escapeChar ch, isAllowed d :=
        List.forall_mem_cons.mpr ⟨rfl, isAllowed_escapeChar ch⟩
      exact hescape d hd
    · next h =>
      have hprintable : isPrintable ch := by
        simp only [Writer.needsEscape, Bool.or_eq_true, not_or] at h
        simpa using h.1.1.1
      rw [List.mem_singleton.mp hd]
      exact isAllowed_of_printable hprintable
  have hchars : ∀ d ∈ cs.flatMap escaped, isAllowed d := by
    intro d hd
    obtain ⟨ch, -, hd⟩ := List.mem_flatMap.mp hd
    exact hescaped ch d hd
  exact List.forall_mem_append.mpr ⟨List.forall_mem_cons.mpr ⟨rfl, hchars⟩,
    List.forall_mem_singleton.mpr rfl⟩

end SignalGuard.Yaml.Quoted
