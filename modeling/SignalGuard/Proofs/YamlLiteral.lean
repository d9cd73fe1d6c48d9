import SignalGuard.Proofs.YamlCursor
import SignalGuard.Yaml.Scalar.Block

/-!
# Literal scalars are read back

The header of a literal scalar says how far its lines are indented, where the
text does not show it, and what becomes of the breaks at its end. The lines are
then read one after another, each with the breaks behind it.
-/

namespace SignalGuard.Yaml.Block

open Writer (pad isSpace)

variable {c : Cursor} {cs behind : List Char} {column : Nat} {chomp : Chomp}

-- -----------------------------------------------------------------------------
-- Headers
-- -----------------------------------------------------------------------------

/-- How a header says it. -/
def Chomp.mark : Chomp → List Char
  | strip => ['-']
  | clip => []
  | keep => ['+']

theorem readChomp_append {d : Char} (h : c.At (chomp.mark ++ d :: behind) column)
    (hd : Chomp.ofChar? d = none) : readChomp c = (chomp, c.skipMany chomp.mark.length) := by
  cases chomp with
  | strip =>
    have hpeek : c.peek? 0 = some '-' := h.peek_zero
    simp [readChomp, hpeek, Chomp.ofChar?, Chomp.mark, Cursor.skipMany]
  | clip =>
    have hpeek : c.peek? 0 = some d := h.peek_zero
    simp [readChomp, hpeek, hd, Chomp.mark, Cursor.skipMany]
  | keep =>
    have hpeek : c.peek? 0 = some '+' := h.peek_zero
    simp [readChomp, hpeek, Chomp.ofChar?, Chomp.mark, Cursor.skipMany]

theorem endLine?_break (h : c.At ('\n' :: behind) column) : c.endLine? = some c.skipLine := by
  have hblank : c.skipWhile isBlank = c := h.skipWhile (by simp [isBlank])
  have hpeek : c.peek? 0 = some '\n' := h.peek_zero
  simp [Cursor.endLine?, Cursor.skipComment, hblank, hpeek, h.rest_eq, isBreak]

theorem readHeader_given (h : c.At ('2' :: (chomp.mark ++ '\n' :: behind)) column) :
    ∃ c', readHeader c = some (chomp, 2, c') ∧ c'.At behind 0 ∧ c.line < c'.line := by
  have hbefore : readChomp c = (.clip, c) := by
    have hclip : c.At (Chomp.clip.mark ++ '2' :: (chomp.mark ++ '\n' :: behind)) column := h
    exact readChomp_append hclip rfl
  have hindentation : readIndentation c = some (2, c.skip) := by
    have hpeek : c.peek? 0 = some '2' := h.peek_zero
    simp [readIndentation, hpeek]
  have hafter := readChomp_append h.skip rfl
  have hend := h.skip.skipMany
  obtain ⟨hline, hnext⟩ := hend.skipLine (by decide)
  refine ⟨_, ?_, hline, ?_⟩
  · simp [readHeader, hbefore, hindentation, hafter, endLine?_break hend]
  · rw [hnext]
    simp

theorem readHeader_plain (h : c.At (chomp.mark ++ '\n' :: behind) column) :
    ∃ c', readHeader c = some (chomp, 0, c') ∧ c'.At behind 0 ∧ c.line < c'.line := by
  have hbefore := readChomp_append h rfl
  have hend := h.skipMany
  have hindentation : readIndentation (c.skipMany chomp.mark.length) =
      some (0, c.skipMany chomp.mark.length) := by
    have hpeek : (c.skipMany chomp.mark.length).peek? 0 = some '\n' := hend.peek_zero
    simp [readIndentation, hpeek]
  have hafter : (if chomp = .clip then readChomp (c.skipMany chomp.mark.length)
      else (chomp, c.skipMany chomp.mark.length)) = (chomp, c.skipMany chomp.mark.length) := by
    split
    · next hclip =>
      have hagain : (c.skipMany chomp.mark.length).At (Chomp.clip.mark ++ '\n' :: behind) _ := hend
      rw [readChomp_append hagain rfl, hclip]
      rfl
    · rfl
  obtain ⟨hline, hnext⟩ := hend.skipLine (by decide)
  refine ⟨_, ?_, hline, ?_⟩
  · simp [readHeader, hbefore, hindentation, hafter, endLine?_break hend]
  · rw [hnext]
    simp

-- -----------------------------------------------------------------------------
-- Empty lines
-- -----------------------------------------------------------------------------

/-- A line with text, or what comes after the scalar: neither empty nor told
apart from indentation. -/
def Starts (given : Option Nat) (n : Nat) (behind : List Char) : Prop :=
  (∀ ch ∈ behind.head?, isBreak ch = false ∧ ch ≠ '\t') ∧
    (behind.head? ≠ some ' ' ∨ given = some n) ∧ ∀ m ∈ given, n ≤ m

theorem takeWhile_space (h : behind.head? ≠ some ' ') : behind.takeWhile (· = ' ') = [] := by
  cases behind with
  | nil => rfl
  | cons ch behind => simp_all

theorem skipIndentation_pad {given : Option Nat} {n : Nat} (hbehind : Starts given n behind)
    (h : c.At (pad n ++ behind) 0) : (skipIndentation given c).At behind n := by
  have hspaces : c.rest.takeWhile (· = ' ') = pad n ++ behind.takeWhile (· = ' ') := by
    rw [h.rest_eq, List.takeWhile_append_of_pos]
    simp [pad]
  have hskip : skipIndentation given c = c.skipMany n := by
    obtain ⟨-, hspace, hgiven⟩ := hbehind
    unfold skipIndentation
    simp only [hspaces, h.column_eq, List.length_append, pad, List.length_replicate]
    congr 1
    cases given with
    | none =>
      have hother : behind.head? ≠ some ' ' := by simpa using hspace
      simp [takeWhile_space hother]
    | some m =>
      have hm := hgiven m rfl
      rcases hspace with hother | hm'
      · simp only [takeWhile_space hother, List.length_nil]
        omega
      · obtain rfl : m = n := Option.some.inj hm'
        show min _ (m - 0) = m
        omega
  have := h.skipMany
  rw [pad, List.length_replicate, Nat.zero_add] at this
  rwa [hskip]

theorem readEmptyLines_append {given : Option Nat} {n : Nat} {bs : List Char}
    (hbehind : Starts given n behind) (hbreaks : ∀ b ∈ bs, isBreak b)
    (hprintable : ∀ b ∈ bs, isPrintable b) :
    ∀ {c : Cursor} {fuel : Nat} (reach : Nat), c.At (bs ++ (pad n ++ behind)) 0 →
      bs.length ≤ fuel →
      ∃ c', readEmptyLines given reach fuel c = some (bs, max reach n, c') ∧ c'.At behind n ∧
        c.line ≤ c'.line := by
  induction bs with
  | nil =>
    intro c fuel reach h _
    have hskip := skipIndentation_pad hbehind h
    refine ⟨skipIndentation given c, ?_, hskip, ?_⟩
    · unfold readEmptyLines
      simp only [hskip.rest_eq, hskip.column_eq]
      cases behind with
      | nil => rfl
      | cons ch behind =>
        obtain ⟨hbreak, htab⟩ := hbehind.1 ch rfl
        simp [hbreak, htab]
    · simp [skipIndentation]
  | cons b bs ih =>
    intro c fuel reach h hfuel
    obtain ⟨fuel, rfl⟩ : ∃ m, fuel = m + 1 := ⟨fuel - 1, by simp at hfuel; omega⟩
    obtain ⟨hb, hbs⟩ := List.forall_mem_cons.mp hbreaks
    obtain ⟨hpb, hpbs⟩ := List.forall_mem_cons.mp hprintable
    have hother : b ≠ ' ' ∧ b ≠ '\t' ∧ b ≠ '\r' := by
      rcases eq_of_isBreak hb hpb with rfl | rfl | rfl <;> decide
    have hskip : skipIndentation given c = c := by
      have hspaces : c.rest.takeWhile (· = ' ') = [] := by simp [h.rest_eq, hother.1]
      cases given <;> simp [skipIndentation, hspaces, Cursor.skipMany]
    obtain ⟨hnext, hline⟩ := h.skipLine hother.2.2
    obtain ⟨c', hread, hc', hlines⟩ := ih hbs hpbs reach hnext (Nat.le_of_succ_le_succ hfuel)
    refine ⟨c', ?_, hc', by omega⟩
    unfold readEmptyLines
    simp [hskip, h.rest_eq, h.column_eq, hother.2.1, hb, hread, h.breakChar hb hpb]

-- -----------------------------------------------------------------------------
-- Lines
-- -----------------------------------------------------------------------------

/-- What ends the text of a literal scalar: a line feed unless it has a break
there itself. -/
def ending (cs : List Char) : List Char := if cs.getLast?.any isBreak then [] else ['\n']

/-- The lines from the first one that has text, whose indentation is left out. -/
def body (n : Nat) (cs : List Char) : List Char := Writer.literalLines n false cs ++ ending cs

/-- The text as the header's mark wants it: the breaks behind the last line are
what becomes of them. -/
def Keeps (chomp : Chomp) (cs : List Char) : Prop :=
  ∀ (before : List Char) (a : Char) (gap : List Char) (blank : Bool), cs = before ++ a :: gap →
    isBreak a = false → (∀ b ∈ gap, isBreak b) →
    (Joint.mk (some (gap.head?.getD '\n')) gap.tail blank).finish chomp = gap

theorem Keeps.finish {run gap : List Char} (h : Keeps chomp (run ++ gap)) (hne : run ≠ [])
    (hrun : ∀ ch ∈ run, isBreak ch = false) (hgap : ∀ b ∈ gap, isBreak b) (blank : Bool) :
    (Joint.mk (some (gap.head?.getD '\n')) gap.tail blank).finish chomp = gap := by
  refine h run.dropLast (run.getLast hne) gap blank ?_ (hrun _ (List.getLast_mem hne)) hgap
  rw [List.append_cons run.dropLast, List.dropLast_concat_getLast]

theorem Keeps.tail {init rest : List Char} (h : Keeps chomp (init ++ rest)) : Keeps chomp rest := by
  intro before a gap blank hrest
  exact h (init ++ before) a gap blank (by rw [hrest, List.append_assoc])

section
variable {n : Nat}

theorem literalLines_run {run : List Char} (hrun : ∀ ch ∈ run, isBreak ch = false)
    (rest : List Char) :
    Writer.literalLines n false (run ++ rest) = run ++ Writer.literalLines n false rest := by
  induction run with
  | nil => rfl
  | cons ch run ih =>
    obtain ⟨hch, hrun⟩ := List.forall_mem_cons.mp hrun
    simp [Writer.literalLines, hch, ih hrun]

theorem literalLines_breaks {bs : List Char} (hbreaks : ∀ b ∈ bs, isBreak b) (hne : bs ≠ [])
    (broken : Bool) (rest : List Char) :
    Writer.literalLines n broken (bs ++ rest) = bs ++ Writer.literalLines n true rest := by
  induction bs generalizing broken with
  | nil => exact absurd rfl hne
  | cons b bs ih =>
    obtain ⟨hb, hbs⟩ := List.forall_mem_cons.mp hbreaks
    cases bs with
    | nil => simp [Writer.literalLines, hb]
    | cons d bs =>
      rw [List.cons_append, Writer.literalLines, if_pos hb, ih hbs (by simp)]
      rfl

theorem literalLines_line {rest : List Char} (hne : rest ≠ [])
    (hrest : ∀ ch ∈ rest.head?, isBreak ch = false) :
    Writer.literalLines n true rest = pad n ++ Writer.literalLines n false rest := by
  cases rest with
  | nil => exact absurd rfl hne
  | cons ch rest => simp [Writer.literalLines, hrest ch rfl]

theorem length_le_literalLines (n : Nat) (broken : Bool) (cs : List Char) :
    cs.length ≤ (Writer.literalLines n broken cs).length := by
  induction cs generalizing broken with
  | nil => exact Nat.zero_le _
  | cons ch cs ih =>
    have htrue := ih true
    have hfalse := ih false
    rw [Writer.literalLines]
    split <;> simp only [List.length_append, List.length_cons] <;> omega

theorem ending_append {init rest : List Char} (hne : rest ≠ []) :
    ending (init ++ rest) = ending rest := by
  rw [ending, ending, List.getLast?_append, List.getLast?_eq_some_getLast hne]
  rfl

theorem ending_run {run : List Char} (hrun : ∀ ch ∈ run, isBreak ch = false) :
    ending run = ['\n'] := by
  have hlast : run.getLast?.any isBreak = false := by
    cases hlast : run.getLast? with
    | none => rfl
    | some ch => exact hrun ch (List.mem_of_getLast? hlast)
  rw [ending, hlast]
  rfl

theorem ending_breaks {bs : List Char} (hbreaks : ∀ b ∈ bs, isBreak b) (hne : bs ≠ []) :
    ending bs = [] := by
  have hlast : bs.getLast?.any isBreak := by
    rw [List.getLast?_eq_some_getLast hne]
    exact hbreaks _ (List.getLast_mem hne)
  rw [ending, if_pos hlast]

theorem body_last {run gap : List Char} (hrun : ∀ ch ∈ run, isBreak ch = false)
    (hgap : ∀ b ∈ gap, isBreak b) :
    body n (run ++ gap) = run ++ gap.head?.getD '\n' :: gap.tail := by
  rw [body, literalLines_run hrun]
  cases gap with
  | nil => simp [Writer.literalLines, ending_run hrun]
  | cons b bs =>
    have hlines : Writer.literalLines n false (b :: bs ++ []) = b :: bs ++ [] :=
      literalLines_breaks hgap (by simp) false []
    rw [List.append_nil] at hlines
    rw [hlines, ending_append (by simp), ending_breaks hgap (by simp), List.append_nil]
    rfl

theorem body_more {run gap rest : List Char} (hrun : ∀ ch ∈ run, isBreak ch = false)
    (hgap : ∀ b ∈ gap, isBreak b) (hne : gap ≠ []) (hrest : rest ≠ [])
    (hedge : ∀ ch ∈ rest.head?, isBreak ch = false) :
    body n (run ++ (gap ++ rest)) = run ++ (gap ++ (pad n ++ body n rest)) := by
  rw [body, literalLines_run hrun, literalLines_breaks hgap hne, literalLines_line hrest hedge,
    ending_append (by simp [hrest]), ending_append hrest, body]
  simp only [List.append_assoc]

end

/-- The first line with text may start with a space where its indentation is known. -/
theorem Starts.body {given : Option Nat} {n : Nat} (hne : cs ≠ [])
    (hfirst : ∀ ch ∈ cs.head?, isBreak ch = false) (hprintable : ∀ ch ∈ cs, isPrintable ch)
    (hgiven : given = some n ∨ given = none ∧ ∀ ch ∈ cs.head?, isSpace ch = false) :
    Starts given n (body n cs ++ behind) := by
  obtain ⟨d, rest, rfl⟩ := List.exists_cons_of_ne_nil hne
  have hbreak := hfirst d rfl
  have hhead : (Block.body n (d :: rest) ++ behind).head? = some d := by
    simp [Block.body, Writer.literalLines, hbreak]
  have htab : d ≠ '\t' := by
    rintro rfl
    exact absurd (hprintable _ List.mem_cons_self) (by decide)
  rw [Starts, hhead]
  refine ⟨by simpa using ⟨hbreak, htab⟩, ?_, ?_⟩
  · rcases hgiven with hgiven | ⟨-, hspace⟩
    · exact .inr hgiven
    · exact .inl (by simpa [isSpace] using hspace d rfl)
  · rcases hgiven with rfl | ⟨rfl, -⟩ <;> simp

theorem readLines_end {k n fuel : Nat} (h : c.At behind k) (hk : k ≠ n) (j : Joint) :
    readLines false chomp n fuel j c = some (j.finish chomp, c) := by
  cases fuel with
  | zero => rfl
  | succ fuel => simp [readLines, h.column_eq, hk]

/-- A line of text with the breaks behind it. -/
theorem readLines_line {run bs : List Char} {b : Char} {n m fuel : Nat}
    (h : c.At (run ++ (b :: bs ++ (pad m ++ behind))) n) (hrun : ∀ ch ∈ run, isBreak ch = false)
    (hbreaks : ∀ x ∈ b :: bs, isBreak x) (hprintable : ∀ x ∈ b :: bs, isPrintable x)
    (hbehind : Starts (some n) m behind) (j : Joint) :
    ∃ c' blank, readLines false chomp n (fuel + 1) j c =
        (readLines false chomp n fuel ⟨some b, bs, blank⟩ c').map (fun (text, c) =>
          (j.first.toList ++ j.others ++ run ++ text, c)) ∧
      c'.At behind m ∧ c.line < c'.line := by
  obtain ⟨hb, hbs⟩ := List.forall_mem_cons.mp hbreaks
  obtain ⟨hpb, hpbs⟩ := List.forall_mem_cons.mp hprintable
  have hcr : b ≠ '\r' := by
    rcases eq_of_isBreak hb hpb with rfl | rfl | rfl <;> decide
  obtain ⟨c₁, hspan, h₁, hsize, hsame⟩ := h.span (p := fun ch => !isBreak ch)
    (fun ch hch => by simp [hrun ch hch]) (by simp [hb])
  obtain ⟨hnext, hline⟩ := h₁.skipLine hcr
  have hroom := h.room
  simp only [List.length_append, List.length_cons] at hroom
  obtain ⟨c', hread, hc', hlines⟩ := readEmptyLines_append hbehind hbs hpbs 0 hnext
    (by omega : bs.length ≤ c₁.size)
  refine ⟨c', (c.peek? 0).any isBlank, ?_, hc', by omega⟩
  have hcondition : (decide (c.column = n) && !c.rest.isEmpty) = true := by
    simp [h.column_eq, h.rest_eq]
  have hnonempty : c₁.rest.isEmpty = false := by simp [h₁.rest_eq]
  simp only [readLines, hcondition, if_true, hspan, hnonempty, h₁.breakChar hb hpb, hread,
    Joint.toList, Bool.false_and, Bool.false_eq_true, if_false, Option.bind_eq_bind,
    Option.bind_some]
  cases readLines false chomp n fuel ⟨some b, bs, (c.peek? 0).any isBlank⟩ c' <;> rfl

/-- The last line with text, whose breaks are the end of the text. -/
theorem readLines_last {run gap : List Char} {k n : Nat} (hne : run ≠ [])
    (hrun : ∀ ch ∈ run, isBreak ch = false) (hgap : ∀ b ∈ gap, isBreak b)
    (hprintable : ∀ b ∈ gap, isPrintable b) (hkeeps : Keeps chomp (run ++ gap))
    (hbehind : Starts (some n) k behind) (hk : k < n)
    (h : c.At (body n (run ++ gap) ++ (pad k ++ behind)) n) (j : Joint) (fuel : Nat) :
    ∃ c', readLines false chomp n (fuel + 1) j c =
        some (j.first.toList ++ j.others ++ (run ++ gap), c') ∧
      c'.At behind k ∧ c.line < c'.line := by
  have hbreaks : ∀ b ∈ gap.head?.getD '\n' :: gap.tail, isBreak b ∧ isPrintable b := by
    cases gap with
    | nil => exact List.forall_mem_singleton.mpr ⟨rfl, rfl⟩
    | cons b bs => exact fun x hx => ⟨hgap x hx, hprintable x hx⟩
  rw [body_last hrun hgap, List.append_assoc] at h
  obtain ⟨c', blank, hread, hc', hline⟩ := readLines_line h hrun (fun x hx => (hbreaks x hx).1)
    (fun x hx => (hbreaks x hx).2) hbehind j
  refine ⟨c', ?_, hc', hline⟩
  rw [hread, readLines_end hc' (Nat.ne_of_lt hk), hkeeps.finish hne hrun hgap]
  simp

-- The induction is on the lines; the breaks behind one are what the next one starts
-- with.

theorem readLines_body {k n : Nat} (hcut : Cut isBreak cs) (hne : cs ≠ [])
    (hfirst : ∀ ch ∈ cs.head?, isBreak ch = false) (hprintable : ∀ ch ∈ cs, isPrintable ch)
    (hkeeps : Keeps chomp cs) (hbehind : Starts (some n) k behind) (hk : k < n) :
    ∀ {c : Cursor} {fuel : Nat} (j : Joint), c.At (body n cs ++ (pad k ++ behind)) n →
      cs.length ≤ fuel →
      ∃ c', readLines false chomp n fuel j c =
          some (j.first.toList ++ j.others ++ cs, c') ∧ c'.At behind k ∧ c.line < c'.line := by
  induction hcut with
  | @last run hrun =>
    intro c fuel j h hfuel
    obtain ⟨fuel, rfl⟩ := Nat.exists_eq_add_of_le'
      (Nat.le_trans (List.length_pos_iff.mpr hne) hfuel)
    rw [← List.append_nil run] at h hkeeps ⊢
    exact readLines_last hne hrun (by simp) (by simp) hkeeps hbehind hk h j fuel
  | @more run gap rest hrun hgapne hgap hedge hcut ih =>
    intro c fuel j h hfuel
    obtain ⟨b, bs, rfl⟩ := List.exists_cons_of_ne_nil hgapne
    have hrunne : run ≠ [] := by
      rintro rfl
      have hb := hfirst b rfl
      rw [hgap b List.mem_cons_self] at hb
      cases hb
    obtain ⟨fuel, rfl⟩ := Nat.exists_eq_add_of_le'
      (Nat.le_trans (List.length_pos_iff.mpr hne) hfuel)
    obtain ⟨-, hprintable'⟩ := List.forall_mem_append.mp hprintable
    obtain ⟨hprintableGap, hprintableRest⟩ := List.forall_mem_append.mp hprintable'
    by_cases hrestne : rest = []
    · subst hrestne
      rw [List.append_nil] at h hkeeps ⊢
      exact readLines_last hrunne hrun hgap hprintableGap hkeeps hbehind hk h j fuel
    · rw [body_more hrun hgap hgapne hrestne hedge] at h
      simp only [List.append_assoc] at h
      have hnext : Starts (some n) n (body n rest ++ (pad k ++ behind)) :=
        .body hrestne hedge hprintableRest (.inl rfl)
      obtain ⟨c₁, blank, hread₁, h₁, hline₁⟩ := readLines_line h hrun hgap hprintableGap hnext j
      rw [List.length_append, List.length_append, List.length_cons] at hfuel
      have hlength : rest.length ≤ fuel := by omega
      obtain ⟨c', hread, hc', hline⟩ := ih hrestne hedge hprintableRest hkeeps.tail.tail
        ⟨some b, bs, blank⟩ h₁ hlength
      refine ⟨c', ?_, hc', Nat.lt_trans hline₁ hline⟩
      rw [hread₁, hread]
      simp

-- -----------------------------------------------------------------------------
-- Whole scalars
-- -----------------------------------------------------------------------------

/-- What a text wants its breaks at the end to become, told from its last
characters. -/
def Chomp.ofReverse : List Char → Chomp
  | [] => strip
  | [c] => if isBreak c then keep else strip
  | last :: before :: _ => if !isBreak last then strip else if isBreak before then keep else clip

theorem literalHeader_eq (cs : List Char) :
    Writer.literalHeader cs = '|' :: ((if Writer.isLost cs.head? then ['2'] else []) ++
      (Chomp.ofReverse cs.reverse).mark) := by
  unfold Writer.literalHeader Chomp.ofReverse
  cases cs.reverse with
  | nil => rfl
  | cons last before =>
    cases before with
    | nil => cases h : isBreak last <;> simp [Chomp.mark, h]
    | cons before _ =>
      cases h : isBreak last <;> cases h' : isBreak before <;> simp [Chomp.mark, h, h']

theorem keeps_ofReverse (cs : List Char) : Keeps (.ofReverse cs.reverse) cs := by
  intro before a gap blank hcs ha hgap
  obtain ⟨last, rfl⟩ : ∃ last, gap = List.reverse last := ⟨gap.reverse, by simp⟩
  have hreverse : cs.reverse = last ++ a :: before.reverse := by simp [hcs]
  have hlast : ∀ b ∈ last, isBreak b := fun b hb => hgap b (by simpa using hb)
  rw [hreverse]
  match last with
  | [] => cases before.reverse <;> simp [Chomp.ofReverse, ha, Joint.finish]
  | [b] => simp [Chomp.ofReverse, ha, hlast b (by simp), Joint.finish]
  | b :: d :: more =>
    have hne : (b :: d :: more).reverse ≠ [] := by simp
    obtain ⟨x, xs, hx⟩ := List.exists_cons_of_ne_nil hne
    simp [Chomp.ofReverse, hlast b (by simp), hlast d (by simp), Joint.finish, hx]

theorem ofReverse_breaks (hne : cs ≠ []) (hbreaks : ∀ b ∈ cs, isBreak b) :
    Chomp.ofReverse cs.reverse = .keep := by
  have hreverse : ∀ b ∈ cs.reverse, isBreak b := fun b hb => hbreaks b (by simpa using hb)
  match h : cs.reverse with
  | [] => simp [hne] at h
  | [b] => simp [Chomp.ofReverse, hreverse b (by simp [h])]
  | b :: d :: more => simp [Chomp.ofReverse, hreverse b (by simp [h]), hreverse d (by simp [h])]

theorem Starts.of_solid {k n : Nat} (hbehind : Solid behind) (hk : k ≤ n) :
    Starts (some n) k behind := by
  have hhead : ∀ ch ∈ behind.head?, isBlank ch = false ∧ isBreak ch = false := fun ch hch =>
    Bool.or_eq_false_iff.mp (hbehind ch hch)
  refine ⟨fun ch hch => ⟨(hhead ch hch).2, ?_⟩, .inl fun hspace => ?_, by simpa using hk⟩
  · rintro rfl
    exact absurd (hhead _ hch).1 (by decide)
  · exact absurd (hhead _ hspace).1 (by decide)

theorem exists_breaks (cs : List Char) : ∃ bs rest, cs = bs ++ rest ∧ (∀ b ∈ bs, isBreak b) ∧
    ∀ ch ∈ rest.head?, isBreak ch = false := by
  refine ⟨cs.takeWhile isBreak, cs.dropWhile isBreak, List.takeWhile_append_dropWhile.symm,
    List.all_eq_true.mp List.all_takeWhile, fun ch hch => ?_⟩
  have := List.head?_dropWhile_not isBreak cs
  rwa [Option.mem_def.mp hch] at this

/-- The lines behind the header are read as the text: the empty ones in front, then
those from the first one with text. -/
def Reads (given : Option Nat) (margin n : Nat) (cs : List Char) (c c' : Cursor) : Prop :=
  ∃ others reach c₁, readEmptyLines given 0 c.size c = some (others, reach, c₁) ∧
    given.getD (max (max reach margin) 1) = n ∧
    readLines false (.ofReverse cs.reverse) n c₁.size ⟨none, others, false⟩ c₁ = some (cs, c')

section
variable {k n margin : Nat} {given : Option Nat}

/-- A text without any line of its own. -/
theorem reads_breaks (hne : cs ≠ []) (hbreaks : ∀ b ∈ cs, isBreak b)
    (hprintable : ∀ b ∈ cs, isPrintable b) (hbehind : Starts (some n) k behind) (hk : k < n)
    (h : c.At (Writer.literalLines n true cs ++ ending cs ++ (pad k ++ behind)) 0) :
    ∃ c', Reads (some n) margin n cs c c' ∧ c'.At behind k ∧ c.line ≤ c'.line := by
  have hlines : Writer.literalLines n true (cs ++ []) = cs ++ [] :=
    literalLines_breaks hbreaks hne true []
  rw [List.append_nil] at hlines
  rw [hlines, ending_breaks hbreaks hne, List.append_nil] at h
  have hroom := h.room
  rw [List.length_append] at hroom
  have hsize : cs.length ≤ c.size := by omega
  obtain ⟨c', hread, hc', hline⟩ := readEmptyLines_append hbehind hbreaks hprintable 0 h hsize
  refine ⟨c', ⟨cs, _, c', hread, rfl, ?_⟩, hc', hline⟩
  rw [readLines_end hc' (Nat.ne_of_lt hk), ofReverse_breaks hne hbreaks]
  rfl

theorem literalLines_body {bs rest : List Char} (hbreaks : ∀ b ∈ bs, isBreak b) (hrest : rest ≠ [])
    (hedge : ∀ ch ∈ rest.head?, isBreak ch = false) :
    Writer.literalLines n true (bs ++ rest) ++ ending (bs ++ rest) =
      bs ++ (pad n ++ body n rest) := by
  rw [ending_append hrest, body, ← List.append_assoc (pad n), ← literalLines_line hrest hedge,
    ← List.append_assoc]
  by_cases hbs : bs = []
  · rw [hbs, List.nil_append, List.nil_append]
  · rw [literalLines_breaks hbreaks hbs]

theorem reads_text {bs rest : List Char} (hbreaks : ∀ b ∈ bs, isBreak b) (hrest : rest ≠ [])
    (hedge : ∀ ch ∈ rest.head?, isBreak ch = false) (hprintable : ∀ ch ∈ bs ++ rest, isPrintable ch)
    (hbehind : Starts (some n) k behind) (hk : k < n) (hmargin : margin ≤ n)
    (hgiven : given = some n ∨ given = none ∧ ∀ ch ∈ rest.head?, isSpace ch = false)
    (h : c.At (Writer.literalLines n true (bs ++ rest) ++ ending (bs ++ rest) ++
      (pad k ++ behind)) 0) :
    ∃ c', Reads given margin n (bs ++ rest) c c' ∧ c'.At behind k ∧ c.line ≤ c'.line := by
  obtain ⟨hprintableBreaks, hprintableRest⟩ := List.forall_mem_append.mp hprintable
  rw [literalLines_body hbreaks hrest hedge, List.append_assoc, List.append_assoc] at h
  have hroom := h.room
  rw [List.length_append] at hroom
  have hsize : bs.length ≤ c.size := by omega
  have hstarts : Starts given n (body n rest ++ (pad k ++ behind)) :=
    .body hrest hedge hprintableRest hgiven
  obtain ⟨c₁, hread₁, h₁, hline₁⟩ :=
    readEmptyLines_append hstarts hbreaks hprintableBreaks 0 h hsize
  have hsize₁ : rest.length ≤ c₁.size := by
    have hroom₁ := h₁.room
    have := length_le_literalLines n false rest
    rw [List.length_append, body, List.length_append] at hroom₁
    omega
  obtain ⟨c', hread, hc', hline⟩ := readLines_body (.of _ rest) hrest hedge hprintableRest
    (keeps_ofReverse (bs ++ rest)).tail hbehind hk ⟨none, bs, false⟩ h₁ hsize₁
  refine ⟨c', ⟨bs, max 0 n, c₁, hread₁, ?_, hread⟩, hc', by omega⟩
  rcases hgiven with rfl | ⟨rfl, -⟩
  · rfl
  · rw [Nat.zero_max, Nat.max_eq_left hmargin]
    exact Nat.max_eq_left (by omega)

/-- The indentation is given wherever the text does not show it. -/
theorem reads_lines (hne : cs ≠ []) (hprintable : ∀ ch ∈ cs, isPrintable ch)
    (hbehind : Starts (some n) k behind) (hk : k < n) (hmargin : margin ≤ n)
    (hgiven : given = some n ∨ given = none ∧ Writer.isLost cs.head? = false)
    (h : c.At (Writer.literalLines n true cs ++ ending cs ++ (pad k ++ behind)) 0) :
    ∃ c', Reads given margin n cs c c' ∧ c'.At behind k ∧ c.line ≤ c'.line := by
  obtain ⟨bs, rest, rfl, hbreaks, hedge⟩ := exists_breaks cs
  -- Where the indentation is not given, the text starts with a line of its own.
  have hgiven' : given = some n ∨
      given = none ∧ bs = [] ∧ ∀ ch ∈ rest.head?, isSpace ch = false := by
    refine hgiven.imp_right fun ⟨hnone, hlost⟩ => ⟨hnone, ?_⟩
    cases bs with
    | nil =>
      refine ⟨rfl, fun ch hch => ?_⟩
      rw [List.nil_append, Option.mem_def.mp hch] at hlost
      exact (Bool.or_eq_false_iff.mp hlost).1
    | cons b bs =>
      have hb : isBreak b = false := (Bool.or_eq_false_iff.mp hlost).2
      rw [hbreaks b List.mem_cons_self] at hb
      cases hb
  by_cases hrest : rest = []
  · obtain rfl : given = some n := by
      refine hgiven'.resolve_right fun ⟨_, hbs, _⟩ => hne ?_
      rw [hbs, hrest]
      rfl
    rw [hrest, List.append_nil] at hne hprintable h ⊢
    exact reads_breaks hne hbreaks hprintable hbehind hk h
  · exact reads_text hbreaks hrest hedge hprintable hbehind hk hmargin
      (hgiven'.imp_right fun ⟨hnone, _, hspace⟩ => ⟨hnone, hspace⟩) h

end

theorem read_eq {c₁ c' : Cursor} {indentation n margin : Nat}
    (hheader : readHeader c.skip = some (.ofReverse cs.reverse, indentation, c₁))
    (hreads : Reads (if indentation = 0 then none else some (margin - 1 + indentation)) margin n cs
      c₁ c') :
    read false margin c = some (String.ofList cs, c') := by
  obtain ⟨others, reach, c₂, hempty, hcolumn, hlines⟩ := hreads
  simp only [read, hheader, Option.bind_eq_bind, Option.bind_some, hempty, hcolumn, hlines]
  rfl

/-- What is written as a literal scalar is read back. -/
theorem read_literal {k margin : Nat} (hne : cs ≠ []) (hprintable : ∀ ch ∈ cs, isPrintable ch)
    (hbehind : Solid behind) (hk : k < margin)
    (h : c.At (Writer.literal (margin + 1) cs ++ ending cs ++ (pad k ++ behind)) column) :
    ∃ c', read false margin c = some (String.ofList cs, c') ∧ c'.At behind k ∧
      c.line < c'.line := by
  have hstarts : Starts (some (margin + 1)) k behind := .of_solid hbehind (by omega)
  obtain ⟨m, rfl⟩ : ∃ m, margin = m + 1 := ⟨margin - 1, by omega⟩
  rw [Writer.literal, literalHeader_eq] at h
  simp only [List.cons_append, List.append_assoc] at h
  have hline₀ : c.skip.line = c.line := c.skip_line
  cases hlost : Writer.isLost cs.head? with
  | true =>
    rw [hlost, if_pos rfl] at h
    obtain ⟨c₁, hheader, h₁, hline₁⟩ := readHeader_given h.skip
    rw [← List.append_assoc] at h₁
    obtain ⟨c', hreads, hc', hline⟩ :=
      reads_lines hne hprintable hstarts (by omega) (Nat.le_succ (m + 1)) (.inl rfl) h₁
    exact ⟨c', read_eq hheader hreads, hc', by omega⟩
  | false =>
    rw [hlost] at h
    obtain ⟨c₁, hheader, h₁, hline₁⟩ := readHeader_plain h.skip
    rw [← List.append_assoc] at h₁
    obtain ⟨c', hreads, hc', hline⟩ :=
      reads_lines hne hprintable hstarts (by omega) (Nat.le_succ (m + 1)) (.inr ⟨rfl, hlost⟩) h₁
    exact ⟨c', read_eq hheader hreads, hc', by omega⟩

-- -----------------------------------------------------------------------------
-- Allowed characters
-- -----------------------------------------------------------------------------

theorem isAllowed_literalLines {n : Nat} (hcs : ∀ ch ∈ cs, isAllowed ch) (broken : Bool) :
    ∀ d ∈ Writer.literalLines n broken cs, isAllowed d := by
  induction cs generalizing broken with
  | nil => simp [Writer.literalLines]
  | cons ch cs ih =>
    obtain ⟨hch, hcs⟩ := List.forall_mem_cons.mp hcs
    rw [Writer.literalLines]
    split
    · exact List.forall_mem_cons.mpr ⟨hch, ih hcs true⟩
    · refine List.forall_mem_append.mpr ⟨?_, List.forall_mem_cons.mpr ⟨hch, ih hcs false⟩⟩
      split
      · exact isAllowed_pad n
      · simp

theorem isAllowed_literal {n : Nat} (hprintable : ∀ ch ∈ cs, isPrintable ch) :
    ∀ d ∈ Writer.literal n cs ++ ending cs, isAllowed d := by
  have hheader : ∀ d ∈ Writer.literalHeader cs, isAllowed d := by
    rw [literalHeader_eq]
    apply List.all_eq_true.mp
    cases Writer.isLost cs.head? <;> cases Chomp.ofReverse cs.reverse <;> rfl
  have hending : ∀ d ∈ ending cs, isAllowed d := by
    apply List.all_eq_true.mp
    rw [ending]
    split <;> rfl
  have hlines := isAllowed_literalLines (n := n)
    (fun ch hch => isAllowed_of_printable (hprintable ch hch)) true
  exact List.forall_mem_append.mpr
    ⟨List.forall_mem_append.mpr ⟨hheader, List.forall_mem_cons.mpr ⟨rfl, hlines⟩⟩, hending⟩

end SignalGuard.Yaml.Block
