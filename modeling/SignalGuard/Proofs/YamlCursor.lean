import SignalGuard.Yaml.Fold
import SignalGuard.Yaml.Writer

/-!
# Cursors before known characters

What a cursor meets is told by the characters behind it and by its column;
lines only ever go up. A scalar is cut into runs and the gaps between them, and
each kind of gap is read as what it stands for.
-/

namespace SignalGuard.Yaml

open Writer (pad)

-- -----------------------------------------------------------------------------
-- Runs and gaps
-- -----------------------------------------------------------------------------

/-- A list as runs of elements outside a class, with gaps of elements of the
class between them. Only the first and the last run may be empty. -/
inductive Cut {α : Type} (p : α → Bool) : List α → Prop
  | last {run : List α} (solid : ∀ a ∈ run, p a = false) : Cut p run
  | more {run gap rest : List α} (solid : ∀ a ∈ run, p a = false) (nonempty : gap ≠ [])
      (hollow : ∀ a ∈ gap, p a) (edge : ∀ a ∈ rest.head?, p a = false) (tail : Cut p rest) :
      Cut p (run ++ (gap ++ rest))

theorem Cut.of {α : Type} (p : α → Bool) (as : List α) : Cut p as := by
  induction as with
  | nil => exact .last (by simp)
  | cons a as ih =>
    cases hp : p a with
    | false =>
      cases ih with
      | last solid => exact .last (List.forall_mem_cons.mpr ⟨hp, solid⟩)
      | more solid nonempty hollow edge tail =>
        exact .more (List.forall_mem_cons.mpr ⟨hp, solid⟩) nonempty hollow edge tail
    | true =>
      have halone : ∀ b ∈ [a], p b := List.forall_mem_singleton.mpr hp
      have hnone : ∀ b ∈ ([] : List α), p b = false := by simp
      cases ih with
      | last solid =>
        show Cut p ([] ++ ([a] ++ as))
        exact .more hnone (by simp) halone (fun b hb => solid b (List.mem_of_mem_head? hb))
          (.last solid)
      | @more run gap rest solid nonempty hollow edge tail =>
        cases run with
        | nil =>
          show Cut p ([] ++ (a :: gap ++ rest))
          exact .more hnone (by simp) (List.forall_mem_cons.mpr ⟨hp, hollow⟩) edge tail
        | cons b run =>
          show Cut p ([] ++ ([a] ++ (b :: run ++ (gap ++ rest))))
          refine .more hnone (by simp) halone ?_ (.more solid nonempty hollow edge tail)
          simpa using solid b List.mem_cons_self

-- -----------------------------------------------------------------------------
-- Classes of characters
-- -----------------------------------------------------------------------------

/-- Whether the text does not begin with a blank or a break. -/
def Solid (cs : List Char) : Prop := ∀ c ∈ cs.head?, isGap (some c) = false

/-- The breaks that a text may hold in which every character is printable. -/
theorem eq_of_isBreak {c : Char} (hbreak : isBreak c) (hprintable : isPrintable c) :
    c = '\n' ∨ c = lineSeparator ∨ c = paragraphSeparator := by
  simp only [isBreak, Bool.or_eq_true, decide_eq_true_eq] at hbreak
  rcases hbreak with (((rfl | rfl) | rfl) | rfl) | rfl
  · exact .inl rfl
  · exact absurd hprintable (by decide)
  · exact absurd hprintable (by decide)
  · exact .inr (.inl rfl)
  · exact .inr (.inr rfl)

/-- What is visible may stand in a text. -/
theorem isAllowed_of_printable {c : Char} (h : isPrintable c) : isAllowed c := by
  have hvalid : c.toNat < 0xD800 ∨ 0xDFFF < c.toNat := by
    rcases c.valid with h | h
    · exact .inl h
    · exact .inr h.1
  simp only [isPrintable, Bool.or_eq_true, Bool.and_eq_true, decide_eq_true_eq] at h
  simp only [isAllowed, Bool.or_eq_true, Bool.and_eq_true, decide_eq_true_eq]
  omega

theorem isAllowed_pad (n : Nat) : ∀ ch ∈ Writer.pad n, isAllowed ch := fun ch hch => by
  rw [List.eq_of_mem_replicate hch]
  rfl

theorem isBlank_of_printable {c : Char} (h : isPrintable c) : isBlank c = Writer.isSpace c := by
  have htab : c ≠ '\t' := by
    rintro rfl
    exact absurd h (by decide)
  simp [isBlank, Writer.isSpace, htab]

theorem isGap_eq_false {ch : Char} (hprintable : isPrintable ch)
    (hspace : Writer.isSpace ch = false) (hbreak : isBreak ch = false) :
    isGap (some ch) = false := by
  rw [isGap, isBlank_of_printable hprintable, hspace, hbreak]
  rfl

theorem exists_replicate_of_isSpace {cs : List Char} (h : ∀ c ∈ cs, Writer.isSpace c)
    (hne : cs ≠ []) : ∃ n, cs = List.replicate (n + 1) ' ' := by
  obtain ⟨c, cs, rfl⟩ := List.exists_cons_of_ne_nil hne
  refine ⟨cs.length, List.eq_replicate_iff.mpr ⟨rfl, fun d hd => ?_⟩⟩
  simpa [Writer.isSpace] using h d hd

-- -----------------------------------------------------------------------------
-- Neighbours
-- -----------------------------------------------------------------------------

namespace Writer

variable {r : Char → Char → Bool}

theorem anyNeighbours_append_right {as bs : List Char}
    (h : anyNeighbours r (as ++ bs) = false) : anyNeighbours r bs = false := by
  induction as with
  | nil => exact h
  | cons a as ih =>
    cases hrest : as ++ bs with
    | nil =>
      obtain ⟨-, rfl⟩ := List.append_eq_nil_iff.mp hrest
      rfl
    | cons b rest =>
      rw [List.cons_append, hrest, anyNeighbours, Bool.or_eq_false_iff, ← hrest] at h
      exact ih h.2

theorem anyNeighbours_append_left {as bs : List Char}
    (h : anyNeighbours r (as ++ bs) = false) : anyNeighbours r as = false := by
  induction as with
  | nil => rfl
  | cons a as ih =>
    cases as with
    | nil => rfl
    | cons b as =>
      rw [List.cons_append, List.cons_append, anyNeighbours, Bool.or_eq_false_iff] at h
      rw [anyNeighbours, Bool.or_eq_false_iff]
      exact ⟨h.1, ih h.2⟩

theorem anyNeighbours_eq_false {as : List Char} (h : ∀ a b, b ∈ as → r a b = false) :
    anyNeighbours r as = false := by
  induction as with
  | nil => rfl
  | cons a as ih =>
    have htail := ih fun a b hb => h a b (List.mem_cons_of_mem _ hb)
    cases as with
    | nil => rfl
    | cons b as => simp [anyNeighbours, h a b (by simp), htail]

/-- The last of some characters and the first of others are neighbours. -/
theorem anyNeighbours_edge {as bs : List Char} {a b : Char}
    (h : anyNeighbours r (as ++ a :: b :: bs) = false) : r a b = false := by
  have := anyNeighbours_append_right h
  rw [anyNeighbours, Bool.or_eq_false_iff] at this
  exact this.1

/-- Characters of two classes that never change to the second are all of the first. -/
theorem all_of_head {p q : Char → Bool} {a : Char} {as : List Char}
    (hclass : ∀ c ∈ a :: as, p c || q c)
    (h : anyNeighbours (fun a b => p a && q b) (a :: as) = false) (ha : p a) :
    ∀ c ∈ a :: as, p c := by
  induction as generalizing a with
  | nil => simpa using ha
  | cons b as ih =>
    rw [anyNeighbours, ha, Bool.true_and, Bool.or_eq_false_iff] at h
    have hb : p b := by simpa [h.1] using hclass b (by simp)
    exact List.forall_mem_cons.mpr
      ⟨ha, ih (fun c hc => hclass c (List.mem_cons_of_mem _ hc)) h.2 hb⟩

end Writer

-- -----------------------------------------------------------------------------
-- Cursors
-- -----------------------------------------------------------------------------

namespace Cursor

/-- The cursor stands in the column, and these are the characters behind it. -/
structure At (c : Cursor) (cs : List Char) (column : Nat) : Prop where
  rest_eq : c.rest = cs
  column_eq : c.column = column
  room : cs.length ≤ c.size

@[simp] theorem skip_line (c : Cursor) : c.skip.line = c.line := by
  unfold skip
  split <;> rfl

@[simp] theorem skipMany_line (n : Nat) (c : Cursor) : (c.skipMany n).line = c.line := by
  induction n generalizing c with
  | zero => rfl
  | succ n ih => rw [skipMany, ih, skip_line]

@[simp] theorem skip_size (c : Cursor) : c.skip.size = c.size := by
  unfold skip
  split <;> rfl

@[simp] theorem skipMany_size (n : Nat) (c : Cursor) : (c.skipMany n).size = c.size := by
  induction n generalizing c with
  | zero => rfl
  | succ n ih => rw [skipMany, ih, skip_size]

theorem skipMany_index (n : Nat) (c : Cursor) : (c.skipMany n).index ≤ c.index + n := by
  induction n generalizing c with
  | zero => exact Nat.le_refl _
  | succ n ih =>
    have hskip : c.skip.index ≤ c.index + 1 := by
      unfold skip
      split <;> simp
    have := ih c.skip
    rw [skipMany]
    omega

namespace At

variable {c : Cursor} {cs : List Char} {column : Nat}

theorem peek_zero (h : c.At cs column) : c.peek? 0 = cs.head? := by
  rw [peek?, h.rest_eq, List.head?_eq_getElem?]

theorem peek_one {ch : Char} (h : c.At (ch :: cs) column) : c.peek? 1 = cs.head? := by
  rw [peek?, h.rest_eq, List.head?_eq_getElem?]
  rfl

theorem not_atMarker (h : c.At cs column) {mark : Char} (hmark : cs.head? ≠ some mark) :
    c.atMarker mark = false := by
  simp [atMarker, h.peek_zero, hmark]

theorem not_atMarker_next {ch d : Char} (h : c.At (ch :: d :: cs) column) {mark : Char}
    (hmark : d ≠ mark) : c.atMarker mark = false := by
  have hpeek : c.peek? 1 = some d := h.peek_one
  simp [atMarker, hpeek, hmark]

theorem not_atMarker_of_pos (h : c.At cs column) (hcolumn : 0 < column) (mark : Char) :
    c.atMarker mark = false := by
  have hzero : c.column ≠ 0 := by
    rw [h.column_eq]
    omega
  simp [atMarker, hzero]

theorem not_atDocumentMarker (h : c.At cs column) (hcolumn : 0 < column) :
    c.atDocumentMarker = false := by
  simp [atDocumentMarker, h.not_atMarker_of_pos hcolumn]

theorem skip {ch : Char} (h : c.At (ch :: cs) column) : c.skip.At cs (column + 1) := by
  obtain ⟨hrest, hcolumn, hroom⟩ := h
  have hskip : c.skip = { c with rest := cs, index := c.index + 1, column := c.column + 1 } := by
    simp only [Cursor.skip, hrest]
  rw [hskip]
  exact ⟨rfl, congrArg (· + 1) hcolumn, Nat.le_of_succ_le hroom⟩

theorem skipMany {taken : List Char} (h : c.At (taken ++ cs) column) :
    (c.skipMany taken.length).At cs (column + taken.length) := by
  induction taken generalizing c column with
  | nil => exact h
  | cons ch taken ih =>
    have := ih h.skip
    rwa [Nat.add_assoc, Nat.add_comm 1] at this

theorem skipLine {b : Char} (h : c.At (b :: cs) column) (hb : b ≠ '\r') :
    c.skipLine.At cs 0 ∧ c.skipLine.line = c.line + 1 := by
  obtain ⟨hrest, -, hroom⟩ := h
  have hskip : c.skipLine = ⟨c.size, cs, c.index + 1, c.line + 1, 0⟩ := by
    unfold Cursor.skipLine
    split
    · next hcrlf => exact absurd (List.cons.inj (hrest.symm.trans hcrlf)).1 hb
    · next hcons =>
      obtain ⟨rfl, rfl⟩ := List.cons.inj (hrest.symm.trans hcons)
      rfl
    · next hnil => cases hrest.symm.trans hnil
  rw [hskip]
  exact ⟨⟨rfl, rfl, Nat.le_of_succ_le hroom⟩, rfl⟩

theorem span {p : Char → Bool} {taken : List Char} (h : c.At (taken ++ cs) column)
    (htaken : ∀ ch ∈ taken, p ch) (hcs : ∀ ch ∈ cs.head?, p ch = false) :
    ∃ c', c.span p = (taken, c') ∧ c'.At cs (column + taken.length) ∧ c'.size = c.size ∧
      c'.line = c.line := by
  obtain ⟨hrest, hcolumn, hroom⟩ := h
  have hstop : cs.takeWhile p = [] ∧ cs.dropWhile p = cs := by
    cases cs with
    | nil => exact ⟨rfl, rfl⟩
    | cons ch cs => simp [hcs ch rfl]
  have htake : (taken ++ cs).takeWhile p = taken := by
    rw [List.takeWhile_append_of_pos htaken, hstop.1, List.append_nil]
  have hdrop : (taken ++ cs).dropWhile p = cs := by
    rw [List.dropWhile_append_of_pos htaken, hstop.2]
  simp only [Cursor.span, hrest, htake, hdrop]
  refine ⟨_, rfl, ⟨rfl, congrArg (· + taken.length) hcolumn, ?_⟩, rfl, rfl⟩
  rw [List.length_append] at hroom
  show cs.length ≤ c.size
  omega

theorem skipWhile {p : Char → Bool} (h : c.At cs column)
    (hcs : ∀ ch ∈ cs.head?, p ch = false) : c.skipWhile p = c := by
  have hrest : c.rest.takeWhile p = [] ∧ c.rest.dropWhile p = c.rest := by
    rw [h.rest_eq]
    cases cs with
    | nil => exact ⟨rfl, rfl⟩
    | cons ch cs => simp [hcs ch rfl]
  simp [Cursor.skipWhile, Cursor.span, hrest]

/-- A printable break counts as itself. -/
theorem breakChar {b : Char} (h : c.At (b :: cs) column) (hbreak : isBreak b)
    (hprintable : isPrintable b) : c.breakChar = b := by
  simp only [Cursor.breakChar, h.rest_eq]
  rcases eq_of_isBreak hbreak hprintable with rfl | rfl | rfl <;> rfl

end At

end Cursor

-- -----------------------------------------------------------------------------
-- Gaps
-- -----------------------------------------------------------------------------

namespace Gap

variable {c : Cursor} {cs : List Char} {column indent fuel : Nat}

theorem read_solid (h : c.At cs column) (hcs : Solid cs) (g : Gap) :
    read indent fuel g c = some (g, c) := by
  cases fuel with
  | zero => rfl
  | succ fuel =>
    rw [read, h.rest_eq]
    cases cs with
    | nil => rfl
    | cons ch cs =>
      obtain ⟨hblank, hbreak⟩ := Bool.or_eq_false_iff.mp (hcs ch rfl)
      simp [hblank, hbreak]

theorem read_space (h : c.At (' ' :: cs) column) (g : Gap) :
    read indent (fuel + 1) g c = read indent fuel (g.addBlank ' ') c.skip := by
  simp [read, h.rest_eq, isBlank]

theorem read_break {b : Char} (h : c.At (b :: cs) column) (hbreak : isBreak b)
    (hprintable : isPrintable b) (g : Gap) :
    read indent (fuel + 1) g c = read indent fuel (g.addBreak b) c.skipLine := by
  have hblank : isBlank b = false := by
    rcases eq_of_isBreak hbreak hprintable with rfl | rfl | rfl <;> rfl
  simp [read, h.rest_eq, hblank, hbreak, h.breakChar hbreak hprintable]

/-- Spaces within a line. -/
theorem read_spaces {n : Nat} (h : c.At (List.replicate n ' ' ++ cs) column) (hcs : Solid cs)
    (hfuel : n ≤ fuel) (blanks : List Char) :
    ∃ c', read indent fuel ⟨blanks, false, none, []⟩ c =
        some (⟨blanks ++ List.replicate n ' ', false, none, []⟩, c') ∧
      c'.At cs (column + n) ∧ c'.line = c.line := by
  induction n generalizing c column fuel blanks with
  | zero => exact ⟨c, by simpa using read_solid h hcs _, h, rfl⟩
  | succ n ih =>
    obtain ⟨fuel, rfl⟩ : ∃ m, fuel = m + 1 := ⟨fuel - 1, by omega⟩
    have hn : n ≤ fuel := Nat.le_of_succ_le_succ hfuel
    obtain ⟨c', hread, hc', hline⟩ := ih h.skip hn (blanks ++ [' '])
    refine ⟨c', ?_, by rwa [Nat.add_assoc, Nat.add_comm 1] at hc', by rw [hline, Cursor.skip_line]⟩
    rw [read_space h, List.replicate_succ, ← List.singleton_append, ← List.append_assoc]
    exact hread

/-- Spaces at the start of a line do not count. -/
theorem read_pad {n : Nat} (h : c.At (pad n ++ cs) column) (hcs : Solid cs) (hfuel : n ≤ fuel)
    {g : Gap} (hbroken : g.broken) :
    ∃ c', read indent fuel g c = some (g, c') ∧ c'.At cs (column + n) ∧ c'.line = c.line := by
  induction n generalizing c column fuel with
  | zero => exact ⟨c, read_solid h hcs g, h, rfl⟩
  | succ n ih =>
    obtain ⟨fuel, rfl⟩ : ∃ m, fuel = m + 1 := ⟨fuel - 1, by omega⟩
    have hn : n ≤ fuel := Nat.le_of_succ_le_succ hfuel
    obtain ⟨c', hread, hc', hline⟩ := ih h.skip hn
    refine ⟨c', ?_, by rwa [Nat.add_assoc, Nat.add_comm 1] at hc', by rw [hline, Cursor.skip_line]⟩
    rw [read_space h, addBlank, if_pos hbroken]
    exact hread

/-- Breaks behind the first one count as they are. -/
theorem read_breaks {bs : List Char} {n : Nat} (h : c.At (bs ++ (pad n ++ cs)) 0)
    (hbreaks : ∀ b ∈ bs, isBreak b) (hprintable : ∀ b ∈ bs, isPrintable b) (hcs : Solid cs)
    (hfuel : bs.length + n ≤ fuel) (first : Option Char) (others : List Char) :
    ∃ c', read indent fuel ⟨[], true, first, others⟩ c =
        some (⟨[], true, first, others ++ bs⟩, c') ∧
      c'.At cs n ∧ c.line ≤ c'.line := by
  induction bs generalizing c fuel others with
  | nil =>
    have hn : n ≤ fuel := by simpa using hfuel
    have hbroken : (⟨[], true, first, others⟩ : Gap).broken := rfl
    obtain ⟨c', hread, hc', hline⟩ := read_pad h hcs hn hbroken
    rw [Nat.zero_add] at hc'
    exact ⟨c', by rwa [List.append_nil], hc', Nat.le_of_eq hline.symm⟩
  | cons b bs ih =>
    obtain ⟨fuel, rfl⟩ : ∃ m, fuel = m + 1 := ⟨fuel - 1, by simp at hfuel; omega⟩
    have hb := hbreaks b List.mem_cons_self
    have hpb := hprintable b List.mem_cons_self
    have hcr : b ≠ '\r' := by
      rintro rfl
      exact absurd hpb (by decide)
    obtain ⟨hskip, hnext⟩ := h.skipLine hcr
    have hn : bs.length + n ≤ fuel := by simp at hfuel; omega
    obtain ⟨c', hread, hc', hline⟩ := ih hskip
      (fun x hx => hbreaks x (List.mem_cons_of_mem _ hx))
      (fun x hx => hprintable x (List.mem_cons_of_mem _ hx)) hn (others ++ [b])
    refine ⟨c', ?_, hc', by omega⟩
    rw [read_break h hb hpb]
    simpa [addBreak] using hread

/-- Line breaks with the indentation of the line after them. -/
theorem read_lines {b : Char} {bs : List Char} {n : Nat}
    (h : c.At (b :: bs ++ (pad n ++ cs)) column) (hbreaks : ∀ x ∈ b :: bs, isBreak x)
    (hprintable : ∀ x ∈ b :: bs, isPrintable x) (hcs : Solid cs)
    (hfuel : (b :: bs).length + n ≤ fuel) :
    ∃ c', read indent fuel .empty c = some (⟨[], true, some b, bs⟩, c') ∧ c'.At cs n ∧
      c.line < c'.line := by
  obtain ⟨fuel, rfl⟩ : ∃ m, fuel = m + 1 := ⟨fuel - 1, by simp at hfuel; omega⟩
  have hb := hbreaks b List.mem_cons_self
  have hpb := hprintable b List.mem_cons_self
  have hcr : b ≠ '\r' := by
    rintro rfl
    exact absurd hpb (by decide)
  obtain ⟨hskip, hnext⟩ := h.skipLine hcr
  have hn : bs.length + n ≤ fuel := by simp at hfuel; omega
  obtain ⟨c', hread, hc', hline⟩ := read_breaks hskip
    (fun x hx => hbreaks x (List.mem_cons_of_mem _ hx))
    (fun x hx => hprintable x (List.mem_cons_of_mem _ hx)) hcs hn (some b) []
  refine ⟨c', ?_, hc', by omega⟩
  rw [read_break h hb hpb]
  exact hread

end Gap

end SignalGuard.Yaml
