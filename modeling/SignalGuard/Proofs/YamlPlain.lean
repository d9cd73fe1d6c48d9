import SignalGuard.Proofs.YamlCursor
import SignalGuard.Yaml.Scalar.Plain

/-!
# Plain scalars are read back

A plain scalar is read run by run, and the induction is on the runs of the text.
It ends with its line, because the next line is indented less than it would have
to be to go on, or before the colon that makes it a key.
-/

namespace SignalGuard.Yaml

open Writer (pad isSpace hasKeyEnd)

variable {c : Cursor} {cs behind : List Char} {column : Nat}

-- -----------------------------------------------------------------------------
-- Colons
-- -----------------------------------------------------------------------------

namespace Writer

theorem hasKeyEnd_append_right {as bs : List Char} (h : hasKeyEnd (as ++ bs) = false) :
    hasKeyEnd bs = false := by
  induction as with
  | nil => exact h
  | cons a as ih =>
    rw [List.cons_append, hasKeyEnd, Bool.or_eq_false_iff] at h
    exact ih h.2

theorem hasKeyEnd_append_left {as bs : List Char} (hbs : isGap bs.head?)
    (h : hasKeyEnd (as ++ bs) = false) : hasKeyEnd as = false := by
  induction as with
  | nil => rfl
  | cons a as ih =>
    rw [List.cons_append, hasKeyEnd, Bool.or_eq_false_iff] at h
    rw [hasKeyEnd, Bool.or_eq_false_iff]
    refine ⟨?_, ih h.2⟩
    cases as with
    | nil =>
      have hhead := h.1
      rw [List.nil_append, hbs] at hhead
      exact hhead
    | cons b as => exact h.1

end Writer

-- -----------------------------------------------------------------------------
-- Plain scalars
-- -----------------------------------------------------------------------------

namespace Plain

/-- A run of a plain scalar is read up to what ends it. -/
theorem chunk?_append (hbehind : chunk? false behind = some []) {w : List Char}
    (hsolid : ∀ ch ∈ w, isGap (some ch) = false) (hkey : hasKeyEnd w = false) :
    chunk? false (w ++ behind) = some w := by
  induction w with
  | nil => exact hbehind
  | cons ch w ih =>
    obtain ⟨hch, hw⟩ := List.forall_mem_cons.mp hsolid
    rw [hasKeyEnd, Bool.or_eq_false_iff] at hkey
    have hgap : (isBlank ch || isBreak ch) = false := hch
    have hcolon : (decide (ch = ':') && isGap (w ++ behind).head?) = false := by
      cases w with
      | nil =>
        have hne : decide (ch = ':') = false := by simpa [isGap] using hkey.1
        rw [hne, Bool.false_and]
      | cons d w => exact hkey.1
    rw [List.cons_append, chunk?]
    simp only [hgap, hcolon, Bool.false_and, Bool.false_eq_true, if_false, Bool.or_false,
      ih hw hkey.2, Option.map_some]

theorem chunk?_gap (h : isGap behind.head?) : chunk? false behind = some [] := by
  cases behind with
  | nil => rfl
  | cons ch behind =>
    have hgap : (isBlank ch || isBreak ch) = true := h
    simp [chunk?, hgap]

theorem chunk?_key (h : isGap behind.head?) : chunk? false (':' :: behind) = some [] := by
  simp [chunk?, h]

/-- What lets a text be a plain scalar on one line. -/
structure Fits (cs : List Char) : Prop where
  nonempty : cs ≠ []
  printable : ∀ ch ∈ cs, isPrintable ch
  unbroken : ∀ ch ∈ cs, isBreak ch = false
  first : ∀ ch ∈ cs.head?, isSpace ch = false ∧ ch ≠ '#'
  last : ∀ ch ∈ cs.getLast?, isSpace ch = false
  keyEnd : hasKeyEnd cs = false
  comment : Writer.hasComment cs = false

theorem Fits.of_allowsPlain (h : Writer.allowsPlain cs) (hne : cs ≠ []) : Fits cs := by
  simp only [Writer.allowsPlain, Bool.not_eq_true', Bool.or_eq_false_iff] at h
  obtain ⟨⟨⟨⟨⟨⟨hfirst, hlast⟩, hbreak⟩, hspecial⟩, hmark⟩, hkey⟩, hcomment⟩ := h
  have hprintable : ∀ ch ∈ cs, isPrintable ch := by simpa [Writer.hasSpecial] using hspecial
  refine ⟨hne, hprintable, by simpa using hbreak, fun ch hch => ⟨?_, ?_⟩, fun ch hch => ?_, hkey,
    hcomment⟩
  · rw [Option.mem_def.mp hch] at hfirst
    exact (Bool.or_eq_false_iff.mp hfirst).1
  · rintro rfl
    obtain ⟨rest, rfl⟩ := List.head?_eq_some_iff.mp hch
    simp [Writer.startsWithMark, Writer.isMark, isIndicator] at hmark
  · rw [Option.mem_def.mp hch] at hlast
    exact (Bool.or_eq_false_iff.mp hlast).1

theorem Fits.not_hash (h : Fits cs) : cs.head? ≠ some '#' := fun hhead =>
  (h.first '#' hhead).2 rfl

theorem Fits.not_gap (h : Fits cs) {ch : Char} (hch : ch ∈ cs) (hspace : isSpace ch = false) :
    isGap (some ch) = false :=
  isGap_eq_false (h.printable ch hch) hspace (h.unbroken ch hch)

theorem Fits.solid (h : Fits cs) (behind : List Char) : Solid (cs ++ behind) := by
  intro ch hch
  obtain ⟨d, rest, rfl⟩ := List.exists_cons_of_ne_nil h.nonempty
  obtain rfl : d = ch := Option.some.inj hch
  exact h.not_gap List.mem_cons_self (h.first d rfl).1

theorem Fits.run_ne_nil {run gap rest : List Char} (h : Fits (run ++ (gap ++ rest)))
    (hgap : ∀ ch ∈ gap, isSpace ch) (hne : gap ≠ []) : run ≠ [] := by
  rintro rfl
  obtain ⟨ch, gap, rfl⟩ := List.exists_cons_of_ne_nil hne
  have hspace : isSpace ch = false := (h.first ch rfl).1
  rw [hgap ch List.mem_cons_self] at hspace
  cases hspace

/-- What follows a gap fits as well. -/
theorem Fits.tail {run gap rest : List Char} (h : Fits (run ++ (gap ++ rest)))
    (hgap : ∀ ch ∈ gap, isSpace ch) (hne : gap ≠ [])
    (hedge : ∀ ch ∈ rest.head?, isSpace ch = false) : Fits rest := by
  obtain ⟨init, rfl⟩ : ∃ init, gap = init ++ [' '] := by
    refine ⟨gap.dropLast, ?_⟩
    have hlast : gap.getLast hne = ' ' := by
      simpa [isSpace] using hgap _ (List.getLast_mem hne)
    rw [← hlast, List.dropLast_concat_getLast]
  have hrest : rest ≠ [] := by
    rintro rfl
    have hspace : isSpace ' ' = false := h.last ' ' (by simp)
    cases hspace
  have hmem : ∀ ch ∈ rest, ch ∈ run ++ (init ++ [' '] ++ rest) := fun ch hch =>
    List.mem_append_right _ (List.mem_append_right _ hch)
  refine ⟨hrest, fun ch hch => h.printable ch (hmem ch hch),
    fun ch hch => h.unbroken ch (hmem ch hch), fun ch hch => ⟨hedge ch hch, ?_⟩,
    fun ch hch => h.last ch ?_, ?_, ?_⟩
  · rintro rfl
    obtain ⟨more, rfl⟩ : ∃ more, rest = '#' :: more := by
      cases rest with
      | nil => cases hch
      | cons d more => exact ⟨more, by rw [Option.some.inj hch]⟩
    have hsplit : run ++ (init ++ [' '] ++ '#' :: more) = (run ++ init) ++ ' ' :: '#' :: more := by
      simp
    have hedge : (isGap (some ' ') && decide ('#' = '#')) = false := by
      have hcomment := h.comment
      rw [hsplit] at hcomment
      exact Writer.anyNeighbours_edge hcomment
    cases hedge
  · rw [← List.append_assoc, List.getLast?_append, Option.mem_def.mp hch]
    rfl
  · exact Writer.hasKeyEnd_append_right (Writer.hasKeyEnd_append_right h.keyEnd)
  · exact Writer.anyNeighbours_append_right (Writer.anyNeighbours_append_right h.comment)

/-- A run with a gap behind it. -/
theorem readChunks_run {w : List Char} {indent fuel : Nat} {gap : Gap}
    (h : c.At (w ++ behind) column) (hmarker : c.atDocumentMarker = false) (hne : w ≠ [])
    (hcomment : w.head? ≠ some '#') (hchunk : chunk? false (w ++ behind) = some w) :
    readChunks false indent (fuel + 1) gap c =
      (Gap.read indent c.size .empty (c.skipMany w.length)).bind fun (g, c) =>
        if g = .empty ∨ c.column < indent then some (gap.toList ++ w, g, c)
        else (readChunks false indent fuel g c).map fun (text, g, c) =>
          (gap.toList ++ w ++ text, g, c) := by
  have hpeek : c.peek? 0 ≠ some '#' := by
    cases w with
    | nil => exact absurd rfl hne
    | cons ch w => rwa [h.peek_zero]
  have hempty : w.isEmpty = false := by simpa using hne
  simp only [readChunks, hmarker, Bool.false_or, decide_eq_true_eq, if_neg hpeek, h.rest_eq,
    hchunk, Option.bind_eq_bind, Option.bind_some, hempty, Bool.false_eq_true, if_false,
    Bool.not_false, Bool.true_and, Bool.or_eq_true]
  congr 1
  funext r
  split
  · rfl
  · cases readChunks false indent fuel r.1 r.2 <;> rfl

/-- The last run is followed by the end of the line. -/
theorem readChunks_last {w : List Char} {k indent : Nat} (hfits : Fits w)
    (hrun : ∀ ch ∈ w, isSpace ch = false) (hbehind : Solid behind) (hk : k < indent)
    (h : c.At (w ++ '\n' :: (pad k ++ behind)) column) (hcolumn : indent ≤ column) (gap : Gap)
    (fuel : Nat) :
    ∃ c', readChunks false indent (fuel + 1) gap c =
        some (gap.toList ++ w, ⟨[], true, some '\n', []⟩, c') ∧
      c'.At behind k ∧ c.line < c'.line := by
  have hmarker := h.not_atDocumentMarker (by omega)
  have hchunk : chunk? false (w ++ '\n' :: (pad k ++ behind)) = some w :=
    chunk?_append (chunk?_gap rfl) (fun ch hch => hfits.not_gap hch (hrun ch hch)) hfits.keyEnd
  have hroom : ['\n'].length + k ≤ c.size := by
    have := h.room
    simp only [List.length_append, List.length_cons, pad, List.length_replicate] at this
    rw [List.length_singleton]
    omega
  obtain ⟨c', hread, hc', hline⟩ := Gap.read_lines h.skipMany
    (List.forall_mem_singleton.mpr rfl) (List.forall_mem_singleton.mpr rfl) hbehind hroom
  refine ⟨c', ?_, hc', by simpa using hline⟩
  rw [readChunks_run h hmarker hfits.nonempty hfits.not_hash hchunk, hread]
  simp [hc'.column_eq, hk]

/-- Every other run is followed by spaces within the line. -/
theorem readChunks_more {w rest : List Char} {n indent fuel : Nat}
    (hfits : Fits (w ++ (List.replicate (n + 1) ' ' ++ rest)))
    (hrun : ∀ ch ∈ w, isSpace ch = false) (hrest : Fits rest)
    (h : c.At (w ++ (List.replicate (n + 1) ' ' ++ (rest ++ behind))) column)
    (hcolumn : indent ≤ column) (hpos : 0 < column) (gap : Gap) :
    ∃ c', c'.At (rest ++ behind) (column + w.length + (n + 1)) ∧ c'.line = c.line ∧
      readChunks false indent (fuel + 1) gap c =
        (readChunks false indent fuel ⟨List.replicate (n + 1) ' ', false, none, []⟩ c').map
          fun (text, g, c) => (gap.toList ++ w ++ text, g, c) := by
  have hspaces : ∀ ch ∈ List.replicate (n + 1) ' ', isSpace ch := fun ch hch =>
    List.eq_of_mem_replicate hch ▸ rfl
  have hw : w ≠ [] := hfits.run_ne_nil hspaces (by simp [List.replicate_succ])
  have hmarker := h.not_atDocumentMarker hpos
  have hhash : w.head? ≠ some '#' := by
    obtain ⟨d, w, rfl⟩ := List.exists_cons_of_ne_nil hw
    exact hfits.not_hash
  have hchunk : chunk? false (w ++ (List.replicate (n + 1) ' ' ++ (rest ++ behind))) = some w :=
    chunk?_append (chunk?_gap rfl)
      (fun ch hch => hfits.not_gap (List.mem_append_left _ hch) (hrun ch hch))
      (Writer.hasKeyEnd_append_left rfl hfits.keyEnd)
  have hroom : n + 1 ≤ c.size := by
    have := h.room
    simp only [List.length_append, List.length_replicate] at this
    omega
  obtain ⟨c', hread, hc', hline⟩ := Gap.read_spaces h.skipMany (hrest.solid behind) hroom []
  refine ⟨c', hc', hline.trans (Cursor.skipMany_line _ _), ?_⟩
  have hinside : ¬ c'.column < indent := by
    rw [hc'.column_eq]
    omega
  rw [readChunks_run h hmarker hw hhash hchunk, Gap.empty, hread]
  simp [List.replicate_succ, hinside]

-- The induction is on the runs of the text.

theorem readChunks_text {k indent : Nat} (hcut : Cut isSpace cs) (hfits : Fits cs)
    (hbehind : Solid behind) (hk : k < indent) :
    ∀ (gap : Gap) {c : Cursor} {column fuel : Nat},
      c.At (cs ++ '\n' :: (pad k ++ behind)) column → indent ≤ column → cs.length ≤ fuel →
      ∃ c', readChunks false indent fuel gap c =
          some (gap.toList ++ cs, ⟨[], true, some '\n', []⟩, c') ∧
        c'.At behind k ∧ c.line < c'.line := by
  induction hcut with
  | @last w hrun =>
    intro gap c column fuel h hcolumn hfuel
    obtain ⟨fuel, rfl⟩ := Nat.exists_eq_add_of_le'
      (Nat.le_trans (List.length_pos_iff.mpr hfits.nonempty) hfuel)
    exact readChunks_last hfits hrun hbehind hk h hcolumn gap fuel
  | @more w spaces rest hrun hne hgap hedge hcut ih =>
    intro gap c column fuel h hcolumn hfuel
    have hrest := hfits.tail hgap hne hedge
    obtain ⟨n, rfl⟩ := exists_replicate_of_isSpace hgap hne
    obtain ⟨fuel, rfl⟩ := Nat.exists_eq_add_of_le'
      (Nat.le_trans (List.length_pos_iff.mpr hfits.nonempty) hfuel)
    rw [List.append_assoc, List.append_assoc] at h
    obtain ⟨c', hc', hsame, hread⟩ :=
      readChunks_more hfits hrun hrest h hcolumn (by omega) gap
    simp only [List.length_append, List.length_replicate] at hfuel
    have hreach : indent ≤ column + w.length + (n + 1) := by omega
    have hlength : rest.length ≤ fuel := by omega
    obtain ⟨c'', htext, hc'', hline⟩ :=
      ih hrest ⟨List.replicate (n + 1) ' ', false, none, []⟩ hc' hreach hlength
    refine ⟨c'', ?_, hc'', hsame ▸ hline⟩
    rw [hread, htext]
    simp [Gap.toList]

/-- A plain scalar on a line of its own: the line after it is indented less. -/
theorem read_line {k indent : Nat} (hfits : Fits cs) (hbehind : Solid behind) (hk : k < indent)
    (h : c.At (cs ++ '\n' :: (pad k ++ behind)) column) (hcolumn : indent ≤ column) :
    ∃ c', read false indent c = some (String.ofList cs, true, c') ∧ c'.At behind k ∧
      c.line < c'.line := by
  have hroom := h.room
  rw [List.length_append] at hroom
  have hlength : cs.length ≤ c.size := by omega
  obtain ⟨c', hread, hc', hline⟩ :=
    readChunks_text (Cut.of isSpace cs) hfits hbehind hk .empty h hcolumn hlength
  refine ⟨c', ?_, hc', hline⟩
  rw [read, hread]
  rfl

-- -----------------------------------------------------------------------------
-- Words
-- -----------------------------------------------------------------------------

theorem of_isWord {ch : Char} (h : isWord ch) :
    isGap (some ch) = false ∧ ch ≠ ':' ∧ ch ≠ '#' := by
  refine ⟨?_, ?_, ?_⟩
  · rw [← Bool.not_eq_true]
    intro hgap
    simp only [isGap, isBlank, isBreak, Bool.or_eq_true, decide_eq_true_eq] at hgap
    rcases hgap with (rfl | rfl) | (((rfl | rfl) | rfl) | rfl) | rfl <;> exact absurd h (by decide)
  · rintro rfl
    exact absurd h (by decide)
  · rintro rfl
    exact absurd h (by decide)

theorem isPrintable_word {ch : Char} (h : isWord ch) : isPrintable ch := by
  have hval : ch.val.toNat = ch.toNat := rfl
  have hletter : ch.isAlpha = (ch.isUpper || ch.isLower) := rfl
  have hupper : ch.isUpper ↔ 'A'.val ≤ ch.val ∧ ch.val ≤ 'Z'.val := decide_eq_true_iff
  have hlower : ch.isLower = (decide ('a'.val ≤ ch.val) && decide (ch.val ≤ 'z'.val)) := rfl
  simp only [isWord, Char.isAlphanum, hletter, hupper, hlower, Char.isDigit, Bool.or_eq_true,
    Bool.and_eq_true, decide_eq_true_eq, UInt32.le_iff_toNat_le, ge_iff_le, UInt32.reduceToNat,
    Char.reduceVal, hval] at h
  simp only [isPrintable, Bool.or_eq_true, Bool.and_eq_true, decide_eq_true_eq]
  rcases h with (((h | h) | h) | rfl) | rfl
  · omega
  · omega
  · omega
  · decide
  · decide

theorem isMark_word {ch : Char} (h : isWord ch) : Writer.isMark ch = false := by
  rw [← Bool.not_eq_true]
  intro hmark
  simp only [Writer.isMark, isIndicator, isFlowIndicator, Bool.or_eq_true, Bool.and_eq_true,
    decide_eq_true_eq] at hmark
  obtain ⟨⟨⟨hmark, hminus⟩, -⟩, -⟩ := hmark
  rcases hmark with (((((((((((((((((rfl | rfl) | rfl) | rfl) | rfl) | rfl) | rfl) | rfl) | rfl) |
    rfl) | rfl) | rfl) | rfl) | rfl) | rfl) | rfl) | rfl) | rfl) | rfl
  all_goals first | exact hminus rfl | exact absurd h (by decide)

theorem hasKeyEnd_word {w : List Char} (h : ∀ ch ∈ w, isWord ch) : hasKeyEnd w = false := by
  induction w with
  | nil => rfl
  | cons ch w ih =>
    obtain ⟨hch, hw⟩ := List.forall_mem_cons.mp h
    simp [hasKeyEnd, (of_isWord hch).2.1, ih hw]

theorem hasComment_word {w : List Char} (h : ∀ ch ∈ w, isWord ch) :
    Writer.hasComment w = false := by
  have hnone : ∀ a b, b ∈ w → (isGap (some a) && b = '#') = false := fun a b hb => by
    simp [(of_isWord (h b hb)).2.2]
  exact Writer.anyNeighbours_eq_false hnone

theorem Fits.of_word {w : List Char} (hne : w ≠ []) (h : ∀ ch ∈ w, isWord ch) : Fits w := by
  have hgap : ∀ ch ∈ w, isSpace ch = false ∧ isBreak ch = false := fun ch hch => by
    obtain ⟨hblank, hbreak⟩ := Bool.or_eq_false_iff.mp (of_isWord (h ch hch)).1
    rw [isBlank_of_printable (isPrintable_word (h ch hch))] at hblank
    exact ⟨hblank, hbreak⟩
  refine ⟨hne, fun ch hch => isPrintable_word (h ch hch), fun ch hch => (hgap ch hch).2,
    fun ch hch => ?_, fun ch hch => (hgap ch (List.mem_of_getLast? hch)).1, hasKeyEnd_word h,
    hasComment_word h⟩
  exact ⟨(hgap ch (List.mem_of_head? hch)).1, (of_isWord (h ch (List.mem_of_head? hch))).2.2⟩

/-- A word starts like a plain scalar, dashes apart. -/
theorem startsWithMark_word {ch : Char} {w : List Char} (h : ∀ d ∈ ch :: w, isWord d)
    (hdash : ch = '-' → ∃ d ds, w = d :: ds ∧ d ≠ '-') :
    Writer.startsWithMark (ch :: w) = false := by
  have hch := h ch List.mem_cons_self
  have hne : ∀ d, isWord d = false → ch ≠ d := by
    rintro d hd rfl
    rw [hch] at hd
    cases hd
  by_cases hminus : ch = '-'
  · obtain ⟨d, ds, rfl, hd⟩ := hdash hminus
    subst hminus
    have hgap := (of_isWord (h d (by simp))).1
    simp [Writer.startsWithMark, isMark_word hch, hgap, hd]
  · simp [Writer.startsWithMark, isMark_word hch, hminus, hne '?' (by decide), hne '.' (by decide)]

/-- A word in front of a colon. -/
theorem read_key {name : List Char} {indent : Nat} (h : c.At (name ++ ':' :: behind) column)
    (hmarker : c.atDocumentMarker = false) (hne : name ≠ []) (hname : ∀ ch ∈ name, isWord ch)
    (hbehind : isGap behind.head?) :
    read false indent c = some (String.ofList name, false, c.skipMany name.length) := by
  have hhead : name.head? ≠ some '#' := fun hhead =>
    (of_isWord (hname _ (List.mem_of_head? hhead))).2.2 rfl
  have hchunk : chunk? false (name ++ ':' :: behind) = some name :=
    chunk?_append (chunk?_key hbehind) (fun ch hch => (of_isWord (hname ch hch)).1)
      (hasKeyEnd_word hname)
  obtain ⟨size, hsize⟩ : ∃ n, c.size = n + 1 := by
    have := h.room
    rw [List.length_append, List.length_cons] at this
    exact ⟨c.size - 1, by omega⟩
  have hsolid : Solid (':' :: behind) := by
    intro ch hch
    obtain rfl : ':' = ch := Option.some.inj hch
    rfl
  rw [read, hsize, readChunks_run h hmarker hne hhead hchunk,
    Gap.read_solid h.skipMany hsolid]
  rfl

end Plain

end SignalGuard.Yaml
