import Mathlib.Data.List.Forall2
import SignalGuard.Json.Writer
import SignalGuard.Proofs.JsonReading

/-!
# Writing spells out tokens

What the writer writes for a datum are the tokens of the datum, one spelling for
each, with blanks and line ends between some of them. Lists and maps are written
in the same way, so both are an account of the lines between two brackets.
-/

namespace SignalGuard.Json

-- -----------------------------------------------------------------------------
-- Spaced texts
-- -----------------------------------------------------------------------------

theorem Spaced.nil : Spaced [] [] := .done (by simp)

/-- Blanks may be added in front. -/
theorem Spaced.gap {ts : List Token} {cs : List Char} (h : Spaced ts cs) (gap : List Char)
    (hgap : ∀ c ∈ gap, Token.isBlank c) : Spaced ts (gap ++ cs) := by
  have hboth {more : List Char} (hmore : ∀ c ∈ more, Token.isBlank c) :
      ∀ c ∈ gap ++ more, Token.isBlank c := fun c hc =>
    (List.mem_append.mp hc).elim (hgap c) (hmore c)
  cases h with
  | done blank => exact .done (hboth blank)
  | token blank spelling tokens =>
    rw [← List.append_assoc, ← List.append_assoc]
    exact .token (hboth blank) spelling tokens

theorem Spaced.blank {ts : List Token} {cs : List Char} (h : Spaced ts cs) (c : Char)
    (hc : Token.isBlank c) : Spaced ts (c :: cs) :=
  h.gap [c] (List.forall_mem_singleton.mpr hc)

/-- A token may be added in front. -/
theorem Spaced.lexeme {t : Token} {ts : List Token} {lexeme cs : List Char}
    (spelling : t.Spells lexeme) (h : Spaced ts cs) : Spaced (t :: ts) (lexeme ++ cs) :=
  .token (List.forall_mem_nil _) spelling h

/-- The characters spell the tokens before any others. -/
def Writes (ts : List Token) (cs : List Char) : Prop :=
  ∀ {ts' : List Token} {cs' : List Char}, Spaced ts' cs' → Spaced (ts ++ ts') (cs ++ cs')

-- -----------------------------------------------------------------------------
-- Texts
-- -----------------------------------------------------------------------------

namespace Text

/-- A control character is written by its two lowest hexadecimal digits. -/
theorem number?_control : ∀ n < 0x20,
    Digits.number? 16 ['0', '0', Digits.lower (n / 16), Digits.lower (n % 16)] = some n := by
  decide

theorem spells_writeChar (c : Char) : Spells c (writeChar c) := by
  unfold writeChar
  split
  case h_8 =>
    split
    · next hcontrol => exact .unit rfl (number?_control _ hcontrol)
    · next hcontrol => exact .plain ‹_› ‹_› (Nat.not_lt.mp hcontrol)
  all_goals exact .short (by decide)

theorem spellsAll_write (cs : List Char) : SpellsAll cs (cs.flatMap writeChar) := by
  induction cs with
  | nil => exact .nil
  | cons c cs ih => exact .cons (spells_writeChar c) ih

theorem spells_write (s : String) : Token.Spells (.text s) (write s) :=
  .text (spellsAll_write s.toList)

end Text

-- -----------------------------------------------------------------------------
-- Lists and maps
-- -----------------------------------------------------------------------------

/-- Groups of tokens with commas between them and the end of their list. -/
def joined (close : Token) (first : Bool) : List (List Token) → List Token
  | [] => [close]
  | group :: groups => separator first ++ (group ++ joined close false groups)

theorem itemTokens_eq (first : Bool) (ds : List Datum) :
    itemTokens first ds = joined .closeList first (ds.map tokens) := by
  induction ds generalizing first with
  | nil => rfl
  | cons d ds ih => simp only [itemTokens, List.map_cons, joined, ih]

def entryTokens (e : String × Datum) : List Token := .text e.1 :: .colon :: tokens e.2

theorem memberTokens_eq (first : Bool) (ms : List (String × Datum)) :
    memberTokens first ms = joined .closeMap first (ms.map entryTokens) := by
  induction ms generalizing first with
  | nil => rfl
  | cons m ms ih => simp only [memberTokens, List.map_cons, joined, entryTokens, ih,
      List.cons_append]

theorem eq_space_of_mem_pushn {n : Nat} {c : Char} (h : c ∈ ("".pushn ' ' n).toList) :
    c = ' ' := by
  rw [String.pushn_eq_repeat_push] at h
  induction n with
  | zero => simp [Nat.repeat] at h
  | succ n ih =>
    rw [Nat.repeat, String.toList_push, List.mem_append] at h
    rcases h with h | h
    · exact ih h
    · exact List.mem_singleton.mp h

theorem blank_indent (depth : Nat) : ∀ c ∈ (indent depth).toList, Token.isBlank c := by
  intro c hc
  obtain rfl := eq_space_of_mem_pushn hc
  rfl

/-- Lines that spell groups of tokens, with commas and line ends between them
and a closing bracket behind them, spell the groups up to their end. -/
theorem writes_lines {close : Token} {bracket : List Char} (hclose : close.Spells bracket)
    (depth : Nat) {groups : List (List Token)} {lines : List String}
    (h : List.Forall₂ (fun group line => Writes group line.toList) groups lines)
    (hne : lines ≠ []) :
    Writes (joined close true groups)
      ((",\n".intercalate (lines.map (indent (depth + 1) ++ ·))).toList ++
        ('\n' :: (indent depth).toList ++ bracket)) := by
  induction h with
  | nil => exact absurd rfl hne
  | @cons group line groups lines hline hlines ih =>
    intro ts' cs' hrest
    cases hlines with
    | nil =>
      have hend := ((hrest.lexeme hclose).gap _ (blank_indent depth)).blank '\n' rfl
      have hall := (hline hend).gap _ (blank_indent (depth + 1))
      simpa [joined, separator, String.toList_append] using hall
    | @cons _ _ groups lines hline' hlines =>
      have htail := (ih (by simp) hrest).blank '\n' rfl
      have hall := (hline (htail.lexeme .comma)).gap _ (blank_indent (depth + 1))
      simpa [joined, separator, String.toList_append] using hall

/-- A bracketed account of lines. -/
theorem writes_enclose {openToken close : Token} {opening closing : String}
    (hopen : openToken.Spells opening.toList) (hclose : close.Spells closing.toList) (depth : Nat)
    {groups : List (List Token)} {lines : List String}
    (h : List.Forall₂ (fun group line => Writes group line.toList) groups lines) :
    Writes (openToken :: joined close true groups)
      (enclose opening closing depth lines).toList := by
  intro ts' cs' hrest
  unfold enclose
  split
  · next hempty =>
    obtain rfl : lines = [] := by simpa using hempty
    cases h
    rw [String.toList_append, List.append_assoc]
    exact (hrest.lexeme hclose).lexeme hopen
  · next hempty =>
    have hlines := writes_lines hclose depth h (by simpa using hempty) hrest
    have hnewline := hlines.blank '\n' rfl
    have := hnewline.lexeme hopen
    simpa [String.toList_append] using this

theorem writes_entry (name : String) {d : Datum} {value : String}
    (h : Writes (tokens d) value.toList) :
    Writes (entryTokens (name, d)) (writeText name ++ ": " ++ value).toList := by
  intro ts' cs' hrest
  have hcolon := ((h hrest).blank ' ' rfl).lexeme .colon
  have hname := hcolon.lexeme (Text.spells_write name)
  simpa [entryTokens, writeText, String.toList_append] using hname

mutual

theorem writes_datum : ∀ (d : Datum) (depth : Nat), Writes (tokens d) (writeAt depth d).toList
  | .null, _, _, _, h => by
    rw [writeAt]
    exact h.lexeme .null
  | .flag true, _, _, _, h => by
    rw [writeAt]
    exact h.lexeme .yes
  | .flag false, _, _, _, h => by
    rw [writeAt]
    exact h.lexeme .no
  | .int i, _, _, _, h => by
    rw [writeAt]
    exact h.lexeme (.int i)
  | .text s, _, _, _, h => by
    rw [writeAt, writeText, String.toList_ofList]
    exact h.lexeme (Text.spells_write s)
  | .list ds, depth, _, _, h => by
    rw [tokens, itemTokens_eq]
    exact writes_enclose .openList .closeList depth (writes_items ds (depth + 1)) h
  | .record ms, depth, _, _, h => by
    rw [tokens, memberTokens_eq]
    exact writes_enclose .openMap .closeMap depth (writes_members ms (depth + 1)) h

theorem writes_items : ∀ (ds : List Datum) (depth : Nat),
    List.Forall₂ (fun group line => Writes group line.toList) (ds.map tokens) (writeItems depth ds)
  | [], _ => .nil
  | d :: ds, depth => .cons (writes_datum d depth) (writes_items ds depth)

theorem writes_members : ∀ (ms : List (String × Datum)) (depth : Nat),
    List.Forall₂ (fun group line => Writes group line.toList) (ms.map entryTokens)
      (writeMembers depth ms)
  | [], _ => .nil
  | (name, d) :: ms, depth => .cons (writes_entry name (writes_datum d depth))
    (writes_members ms depth)

end

end SignalGuard.Json
