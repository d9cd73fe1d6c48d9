import SignalGuard.Proofs.ScriptRenaming

/-!
# Scripts line by line

A script that is made of two has the lines of the one and then the lines of the
other, so its events, or its first problem, are those of the parts. The
induction is on the first text for the lines and on the lines for the events.
-/

namespace SignalGuard

-- -----------------------------------------------------------------------------
-- Lines of a text
-- -----------------------------------------------------------------------------

namespace Text

/-- A line feed ends a line, also an empty one. -/
theorem lines_length (cs : List Char) : (lines (cs ++ ['\n'])).length = cs.count '\n' + 1 := by
  induction cs with
  | nil => rfl
  | cons c cs ih =>
    simp only [List.cons_append, lines]
    split
    · next hc => simp [hc, ih]
    · next hc =>
      rw [List.count_cons_of_ne hc, ← ih]
      cases hlines : lines (cs ++ ['\n']) with
      | nil => simp [hlines] at ih
      | cons line rest => rfl

theorem lines_append (cs cs' : List Char) :
    lines (cs ++ '\n' :: cs') = lines (cs ++ ['\n']) ++ lines cs' := by
  induction cs with
  | nil => rfl
  | cons c cs ih =>
    have hlength := lines_length cs
    simp only [List.cons_append, lines, ih]
    split
    · rfl
    · cases hlines : lines (cs ++ ['\n']) with
      | nil => simp [hlines] at hlength
      | cons line rest => rfl

/-- A line feed at the end adds one empty line at most. -/
theorem lines_feed (cs : List Char) :
    lines (cs ++ ['\n']) = lines cs ∨ lines (cs ++ ['\n']) = lines cs ++ [[]] := by
  induction cs with
  | nil => exact .inr rfl
  | cons c cs ih =>
    simp only [List.cons_append, lines]
    split
    · rcases ih with h | h <;> simp [h]
    · rcases ih with h | h
      · exact .inl (by rw [h])
      · cases hlines : lines cs with
        | nil => simp [h, hlines]
        | cons line rest => simp [h, hlines]

end Text

-- -----------------------------------------------------------------------------
-- Events of lines
-- -----------------------------------------------------------------------------

/-- The same problem so many lines further down. -/
def ScriptError.down (n : Nat) (e : ScriptError) : ScriptError := ⟨e.line + n, e.error⟩

namespace Script

variable {names : SignalNames}

theorem readLines_down (n number : Nat) (ls : List (List Char)) :
    readLines names (number + n) ls =
      (readLines names number ls).mapError (ScriptError.down n) := by
  induction ls generalizing number with
  | nil => rfl
  | cons line ls ih =>
    have htail := ih (number + 1)
    rw [Nat.add_right_comm] at htail
    simp only [readLines, htail]
    cases readLine names line with
    | error e => rfl
    | ok event? => cases readLines names (number + 1) ls <;> rfl

theorem readLines_append (number : Nat) (ls ls' : List (List Char)) :
    readLines names number (ls ++ ls') =
      match readLines names number ls with
      | .error e => .error e
      | .ok es => (readLines names (number + ls.length) ls').map (es ++ ·) := by
  induction ls generalizing number with
  | nil =>
    simp only [List.nil_append, readLines, List.length_nil, Nat.add_zero]
    cases readLines names number ls' <;> rfl
  | cons line ls ih =>
    have htail := ih (number + 1)
    rw [Nat.add_assoc, Nat.add_comm 1] at htail
    simp only [List.cons_append, readLines, htail, List.length_cons]
    cases readLine names line with
    | error e => rfl
    | ok event? =>
      cases readLines names (number + 1) ls with
      | error e => rfl
      | ok es =>
        cases readLines names (number + (ls.length + 1)) ls' with
        | error e => rfl
        | ok es' => simp [Except.map]

theorem readLines_feed (number : Nat) (cs : List Char) :
    readLines names number (Text.lines (cs ++ ['\n'])) =
      readLines names number (Text.lines cs) := by
  rcases Text.lines_feed cs with h | h
  · rw [h]
  · have hblank : readLines names (number + (Text.lines cs).length) [[]] = .ok [] := rfl
    rw [h, readLines_append, hblank]
    cases readLines names number (Text.lines cs) with
    | error e => rfl
    | ok es => simp [Except.map]

/-- A script of two parts. -/
theorem read_append (a b : String) :
    read names (a ++ "\n" ++ b) =
      match read names a with
      | .error e => .error e
      | .ok es =>
        ((read names b).mapError (ScriptError.down (a.toList.count '\n' + 1))).map (es ++ ·) := by
  have htext : (a ++ "\n" ++ b).toList = a.toList ++ '\n' :: b.toList := by simp
  rw [read, htext, Text.lines_append, readLines_append, readLines_feed, Text.lines_length,
    readLines_down]
  rfl

end Script

-- -----------------------------------------------------------------------------
-- Lines in order
-- -----------------------------------------------------------------------------

namespace Script

variable {names : SignalNames}

/-- Whether the line is left when blank lines and comments are taken out. -/
def remains (line : List Char) : Bool := !isSkipped (Text.trim line)

theorem readLine_eq {line : List Char} :
    readLine names line =
      if remains line then (readEvent names (Text.trim line)).map some else .ok none := by
  by_cases h : isSkipped (Text.trim line) <;> simp [readLine, remains, h]

/-- There is an event for each line that remains, in order. -/
theorem readLines_eq_ok_iff {number : Nat} {ls : List (List Char)} {es : List Event} :
    readLines names number ls = .ok es ↔ List.Forall₂ (Yields names) (ls.filter remains) es := by
  induction ls generalizing number es with
  | nil => simp [readLines, eq_comm]
  | cons line ls ih =>
    simp only [readLines, readLine_eq]
    cases hremains : remains line with
    | false =>
      simp only [List.filter_cons_of_neg (by simp [hremains] : ¬remains line = true)]
      simp only [Bool.false_eq_true, if_false, Except.map_eq_ok_iff, ih, Option.toList_none,
        List.nil_append, exists_eq_right]
    | true =>
      rw [List.filter_cons_of_pos hremains]
      simp only [if_true]
      cases hread : readEvent names (Text.trim line) with
      | error x =>
        refine iff_of_false nofun ?_
        rintro (_ | ⟨hyields, -⟩)
        simp [readEvent_eq_ok_iff.mpr hyields] at hread
      | ok e =>
        simp only [Except.map, Option.toList_some, List.singleton_append]
        constructor
        · intro h
          obtain ⟨es', htail, rfl⟩ := Except.map_eq_ok_iff.mp h
          exact .cons (readEvent_eq_ok_iff.mp hread) (ih.mp htail)
        · rintro (_ | ⟨hyields, htail⟩)
          obtain rfl := Except.ok.inj (hread.symm.trans (readEvent_eq_ok_iff.mpr hyields))
          exact Except.map_eq_ok_iff.mpr ⟨_, ih.mpr htail, rfl⟩

/-- The first line with a problem, and what its problem is. -/
def FirstFault (names : SignalNames) (ls : List (List Char)) (number : Nat) (x : LineError) :
    Prop :=
  ∃ before line after, ls = before ++ line :: after ∧ number = before.length + 1 ∧
    (∀ l ∈ before, remains l → ∃ e, Yields names l e) ∧ remains line ∧ Faulty names line x

theorem firstFault_cons_iff {line : List Char} {ls : List (List Char)} {n : Nat} {x : LineError} :
    FirstFault names (line :: ls) n x ↔
      n = 1 ∧ remains line ∧ Faulty names line x ∨
        ∃ m, n = m + 1 ∧ (remains line → ∃ e, Yields names line e) ∧ FirstFault names ls m x := by
  constructor
  · rintro ⟨before, bad, after, hls, rfl, hbefore, hremains, hfaulty⟩
    cases before with
    | nil =>
      obtain ⟨rfl, rfl⟩ := List.cons.inj hls
      exact .inl ⟨rfl, hremains, hfaulty⟩
    | cons head before =>
      obtain ⟨rfl, rfl⟩ := List.cons.inj hls
      obtain ⟨hhead, hbefore⟩ := List.forall_mem_cons.mp hbefore
      exact .inr ⟨_, rfl, hhead, before, bad, after, rfl, rfl, hbefore, hremains, hfaulty⟩
  · rintro (⟨rfl, hremains, hfaulty⟩ | ⟨_, rfl, hhead, before, bad, after, rfl, rfl, hbefore, hbad⟩)
    · exact ⟨[], line, ls, rfl, rfl, by simp, hremains, hfaulty⟩
    · exact ⟨line :: before, bad, after, rfl, rfl, List.forall_mem_cons.mpr ⟨hhead, hbefore⟩, hbad⟩

theorem readLines_eq_error_iff {number k : Nat} {ls : List (List Char)} {x : LineError} :
    readLines names number ls = .error ⟨k, x⟩ ↔
      ∃ n, k + 1 = number + n ∧ FirstFault names ls n x := by
  induction ls generalizing number with
  | nil =>
    refine iff_of_false nofun ?_
    rintro ⟨n, -, before, line, after, hls, -⟩
    simp at hls
  | cons line ls ih =>
    -- a line without a problem leaves the matter to the lines behind it
    have hlater (hfine : remains line → ∃ e, Yields names line e)
        (hgood : ¬(remains line ∧ Faulty names line x)) :
        readLines names (number + 1) ls = .error ⟨k, x⟩ ↔
          ∃ n, k + 1 = number + n ∧ FirstFault names (line :: ls) n x := by
      simp only [ih, firstFault_cons_iff]
      constructor
      · rintro ⟨m, hk, htail⟩
        exact ⟨m + 1, by omega, .inr ⟨m, rfl, hfine, htail⟩⟩
      · rintro ⟨_, hk, ⟨-, hbad⟩ | ⟨m, rfl, -, htail⟩⟩
        · exact absurd hbad hgood
        · exact ⟨m, by omega, htail⟩
    simp only [readLines, readLine_eq]
    cases hremains : remains line with
    | false =>
      rw [← hlater (by simp [hremains]) (by simp [hremains])]
      exact Except.map_eq_error_iff
    | true =>
      simp only [if_true]
      cases hread : readEvent names (Text.trim line) with
      | error y =>
        have hfaulty := readEvent_eq_error_iff.mp hread
        simp only [Except.map, Except.error.injEq, ScriptError.mk.injEq, firstFault_cons_iff]
        constructor
        · rintro ⟨rfl, rfl⟩
          exact ⟨1, rfl, .inl ⟨rfl, hremains, hfaulty⟩⟩
        · rintro ⟨_, hk, ⟨rfl, -, hfaulty'⟩ | ⟨_, rfl, hfine, -⟩⟩
          · have hread' := readEvent_eq_error_iff.mpr hfaulty'
            exact ⟨by omega, Except.error.inj (hread.symm.trans hread')⟩
          · obtain ⟨e, hyields⟩ := hfine hremains
            simp [readEvent_eq_ok_iff.mpr hyields] at hread
      | ok e =>
        rw [← hlater (fun _ => ⟨e, readEvent_eq_ok_iff.mp hread⟩)]
        · exact Except.map_eq_error_iff
        · rintro ⟨-, hfaulty⟩
          simp [readEvent_eq_error_iff.mpr hfaulty] at hread

theorem readLines_congr {number : Nat} {ls ls' : List (List Char)}
    (h : List.Forall₂ (fun line line' => readLine names line = readLine names line') ls ls') :
    readLines names number ls = readLines names number ls' := by
  induction h generalizing number with
  | nil => rfl
  | cons head _ ih => simp only [readLines, head, ih]

-- -----------------------------------------------------------------------------
-- Main statement
-- -----------------------------------------------------------------------------

/-- Scripts are read line by line: a script of two parts by the parts, with the
lines of the second counted on, and each part by its lines, of which every one
that is neither blank nor a comment has to say an event. -/
structure LineByLine (names : SignalNames) : Prop where
  first_fails : ∀ a b e, read names a = .error e → read names (a ++ "\n" ++ b) = .error e
  both_read : ∀ a b es es', read names a = .ok es → read names b = .ok es' →
    read names (a ++ "\n" ++ b) = .ok (es ++ es')
  second_fails : ∀ a b es e, read names a = .ok es → read names b = .error e →
    read names (a ++ "\n" ++ b) = .error ⟨e.line + a.toList.count '\n' + 1, e.error⟩
  /-- There is one event for each line that is neither blank nor a comment. -/
  accepts : ∀ text es, read names text = .ok es ↔
    List.Forall₂ (Yields names) ((Text.lines text.toList).filter remains) es
  rejects : ∀ text number x, read names text = .error ⟨number, x⟩ ↔
    FirstFault names (Text.lines text.toList) number x
  /-- A name that is known can be replaced wherever a line gives one. -/
  replaceable : ∀ line l name id, Says line l → l.signal = .name name → names name = some id →
    ∃ line', Renamed names line line'
  /-- In a line without an event as well, the number says what the name says. -/
  replaced : ∀ text text',
    List.Forall₂ (fun line line' => line = line' ∨ Renamed names line line')
      (Text.lines text.toList) (Text.lines text'.toList) →
    read names text = read names text'

/-- Whatever names are known, the events of a script or its first problem come
from its lines alone, and a name stands for its number. -/
theorem read_line_by_line (names : SignalNames) : LineByLine names where
  first_fails a b e ha := by rw [read_append, ha]
  both_read a b es es' ha hb := by
    rw [read_append, ha, hb]
    rfl
  second_fails a b es e ha hb := by
    rw [read_append, ha, hb]
    rfl
  accepts _ _ := readLines_eq_ok_iff
  rejects text number x := by
    rw [read, readLines_eq_error_iff]
    constructor
    · rintro ⟨n, hnumber, h⟩
      obtain rfl : number = n := by omega
      exact h
    · exact fun h => ⟨number, by omega, h⟩
  replaceable _ _ _ _ := exists_renamed
  replaced text text' h := by
    refine readLines_congr (h.imp fun line line' hline => ?_)
    rcases hline with rfl | hrenamed
    · rfl
    · exact hrenamed.readLine_eq

-- The comment and the blank line are counted, and the first of two problems is told.
example :
    read (fun name => if name = "pump" then some ⟨5⟩ else none)
      ("# pump\n\x7b\"t_us\": 1, \"signal\": \"pump\", \"value\": 7\x7d\r\n\n" ++
        "[2, \"fan\", 7]\nstop") = .error ⟨4, .unknownSignal "fan"⟩ := by
  decide +kernel

end Script

end SignalGuard
