import Mathlib.Data.List.TakeWhile
import SignalGuard.Json.Token

/-!
# Lexemes of JSON

`Token.Spells` lists the spellings of a token and `Spaced` puts blanks of any
length between them. The tokens of a spaced text are the ones it was spelled
from. Only the end of a number is not told by its own characters: what follows
a number has to be a comma, the end of a list or map, or the end of the text.
-/

namespace SignalGuard.Json

-- -----------------------------------------------------------------------------
-- Texts
-- -----------------------------------------------------------------------------

namespace Text

/-- The letters that stand for a character after a backslash. -/
def shortEscapes : List (Char × Char) :=
  [('"', '"'), ('\\', '\\'), ('/', '/'), ('b', '\x08'), ('f', '\x0c'), ('n', '\n'), ('r', '\r'),
    ('t', '\t')]

/-- The spellings of a character inside a text. -/
inductive Spells : Char → List Char → Prop
  | plain {c : Char} (quote : c ≠ '"') (backslash : c ≠ '\\') (printable : 0x20 ≤ c.toNat) :
      Spells c [c]
  | short {c letter : Char} (h : (letter, c) ∈ shortEscapes) : Spells c ['\\', letter]
  | unit {c : Char} {digits : List Char} (four : digits.length = 4)
      (h : Digits.number? 16 digits = some c.toNat) : Spells c ('\\' :: 'u' :: digits)
  | pair {c : Char} {high low : Nat} {highs lows : List Char} (fourHigh : highs.length = 4)
      (fourLow : lows.length = 4) (hhighs : Digits.number? 16 highs = some high)
      (hlows : Digits.number? 16 lows = some low) (hhigh : isHighSurrogate high)
      (hlow : isLowSurrogate low)
      (h : c.toNat = 0x10000 + (high - 0xD800) * 0x400 + (low - 0xDC00)) :
      Spells c ('\\' :: 'u' :: highs ++ '\\' :: 'u' :: lows)

/-- The characters of a text one after another. -/
inductive SpellsAll : List Char → List Char → Prop
  | nil : SpellsAll [] []
  | cons {c : Char} {cs spelling rest : List Char} (head : Spells c spelling)
      (tail : SpellsAll cs rest) : SpellsAll (c :: cs) (spelling ++ rest)

theorem readUnit_append {digits : List Char} {n : Nat} (four : digits.length = 4)
    (h : Digits.number? 16 digits = some n) (rest : List Char) :
    readUnit (digits ++ rest) = .ok (n, rest) := by
  match digits, four with
  | [a, b, c, d], _ => simp [readUnit, h]

/-- No character is half of a surrogate pair. -/
theorem not_surrogate (c : Char) :
    isHighSurrogate c.toNat = false ∧ isLowSurrogate c.toNat = false := by
  have hvalid : c.toNat < 0xD800 ∨ 0xDFFF < c.toNat := by
    rcases c.valid with h | h
    · exact .inl h
    · exact .inr h.1
  simp only [isHighSurrogate, isLowSurrogate, Bool.and_eq_false_iff, decide_eq_false_iff_not]
  omega

theorem readEscape_short {letter c : Char} (h : (letter, c) ∈ shortEscapes) (rest : List Char) :
    readEscape (letter :: rest) = .ok (c, rest) := by
  simp only [shortEscapes, List.mem_cons, Prod.mk.injEq, List.not_mem_nil, or_false] at h
  rcases h with ⟨rfl, rfl⟩ | ⟨rfl, rfl⟩ | ⟨rfl, rfl⟩ | ⟨rfl, rfl⟩ | ⟨rfl, rfl⟩ | ⟨rfl, rfl⟩ |
    ⟨rfl, rfl⟩ | ⟨rfl, rfl⟩ <;> rfl

theorem readChar_backslash (cs : List Char) :
    readChar ('\\' :: cs) = (readEscape cs).map fun (c, rest) => (some c, rest) := by
  simp [readChar]

/-- A spelled character is read whatever follows. -/
theorem readChar_append {c : Char} {spelling : List Char} (h : Spells c spelling)
    (rest : List Char) : readChar (spelling ++ rest) = .ok (some c, rest) := by
  cases h with
  | plain quote backslash printable =>
    simp [readChar, quote, backslash, Nat.not_lt.mpr printable]
  | short h =>
    rw [List.cons_append, readChar_backslash, List.cons_append, readEscape_short h]
    rfl
  | unit four h =>
    obtain ⟨hhigh, hlow⟩ := not_surrogate c
    simp [readChar_backslash, readEscape, readHex, readUnit_append four h, hhigh, hlow,
      Except.map]
  | pair fourHigh fourLow hhighs hlows hhigh hlow h =>
    have hnotLow : ∀ n, isHighSurrogate n → isLowSurrogate n = false := by
      intro n hn
      simp only [isHighSurrogate, isLowSurrogate, Bool.and_eq_true, Bool.and_eq_false_iff,
        decide_eq_true_eq, decide_eq_false_iff_not] at hn ⊢
      omega
    simp [readChar_backslash, readEscape, readHex, readUnit_append fourHigh hhighs, hhigh,
      hnotLow _ hhigh, readLowHalf, readUnit_append fourLow hlows, hlow, ← h, Except.map]

/-- A spelled text is read up to its closing quote. -/
theorem readBody_append {cs body : List Char} (h : SpellsAll cs body) (rest : List Char) :
    ∀ {fuel : Nat}, body.length < fuel → readBody fuel (body ++ '"' :: rest) = .ok (cs, rest) := by
  induction h with
  | nil =>
    intro fuel hfuel
    obtain ⟨fuel, rfl⟩ : ∃ n, fuel = n + 1 := ⟨fuel - 1, by omega⟩
    simp [readBody, readChar]
  | @cons c cs spelling tail head _ ih =>
    intro fuel hfuel
    have hpos : 0 < spelling.length := by cases head <;> simp
    rw [List.length_append] at hfuel
    obtain ⟨fuel, rfl⟩ : ∃ n, fuel = n + 1 := ⟨fuel - 1, by omega⟩
    simp [readBody, readChar_append head, ih (by omega : tail.length < fuel), Except.map]

end Text

-- -----------------------------------------------------------------------------
-- Numbers
-- -----------------------------------------------------------------------------

namespace Number

/-- Whether a number goes on with the character. -/
def continues (c : Char) : Bool := c.isDigit || c = '.' || c = 'e' || c = 'E'

theorem le_ofDigitChars (cs : List Char) (n : Nat) : n ≤ Nat.ofDigitChars 10 cs n := by
  rw [Nat.ofDigitChars_eq_ofDigitChars_zero]
  have hpow : n ≤ 10 ^ cs.length * n := Nat.le_mul_of_pos_left n (Nat.pow_pos (by decide))
  omega

/-- All digits of a number below the bound are appended. -/
theorem accumulate_eq {bound : Nat} {cs : List Char} {n : Nat}
    (h : Nat.ofDigitChars 10 cs n < bound) :
    accumulate bound n cs = (Nat.ofDigitChars 10 cs n, []) := by
  induction cs generalizing n with
  | nil => simp [accumulate]
  | cons c cs ih =>
    have hstep : 10 * n + (c.toNat - '0'.toNat) = n * 10 + digit c := by
      rw [Nat.mul_comm]
      rfl
    rw [Nat.ofDigitChars_cons, hstep] at h ⊢
    have hlt : n * 10 + digit c < bound := Nat.lt_of_le_of_lt (le_ofDigitChars cs _) h
    simp only [accumulate, hlt, if_true]
    exact ih h

theorem toDigits_eq_cons (n : Nat) : ∃ d ds, Nat.toDigits 10 n = d :: ds ∧ d.isDigit := by
  have hdigits : ∀ c ∈ Nat.toDigits 10 n, c.isDigit := fun _ hc =>
    Nat.isDigit_of_mem_toDigits (by decide) (by decide) hc
  cases hds : Nat.toDigits 10 n with
  | nil => exact absurd hds Nat.toDigits_ne_nil
  | cons d ds => exact ⟨d, ds, rfl, hdigits d (by simp [hds])⟩

/-- Only zero is written with a leading zero. -/
theorem toDigits_head (n : Nat) : (Nat.toDigits 10 n).head? = some '0' → n = 0 := by
  induction n using Nat.strongRecOn with
  | _ n ih =>
    intro h
    rw [Nat.toDigits_eq_if (by decide)] at h
    split at h
    · simpa using h
    · next hge =>
      have htens : n / 10 = 0 := by
        obtain ⟨d, ds, hds, _⟩ := toDigits_eq_cons (n / 10)
        exact ih (n / 10) (by omega) (by simpa [hds] using h)
      omega

theorem takeWhile_digits {ds rest : List Char} (hds : ∀ c ∈ ds, c.isDigit)
    (hrest : ∀ c ∈ rest.head?, continues c = false) :
    (ds ++ rest).takeWhile Char.isDigit = ds ∧ (ds ++ rest).dropWhile Char.isDigit = rest := by
  rw [List.takeWhile_append_of_pos hds, List.dropWhile_append_of_pos hds]
  cases rest with
  | nil => simp
  | cons c rest =>
    have hc : c.isDigit = false := by
      have := hrest c rfl
      simp only [continues, Bool.or_eq_false_iff] at this
      exact this.1.1.1
    simp [hc]

/-- The digits of a word are read up to the character that ends them. -/
theorem readUnsigned_toDigits {n : Nat} (hn : n < significandBound) (positive : Bool)
    {rest : List Char} (hrest : ∀ c ∈ rest.head?, continues c = false) :
    readUnsigned positive (Nat.toDigits 10 n ++ rest) = .ok (ofInteger positive n, rest) := by
  have hdigits : ∀ c ∈ Nat.toDigits 10 n, c.isDigit := fun _ hc =>
    Nat.isDigit_of_mem_toDigits (by decide) (by decide) hc
  obtain ⟨htake, hdrop⟩ := takeWhile_digits hdigits hrest
  have hacc : accumulate significandBound 0 (Nat.toDigits 10 n) = (n, []) := by
    have hvalue : Nat.ofDigitChars 10 (Nat.toDigits 10 n) 0 = n := Nat.ofDigitChars_ten_toDigits
    rw [accumulate_eq (by rwa [hvalue]), hvalue]
  have hzero : ¬((Nat.toDigits 10 n).head? = some '0' ∧ 1 < (Nat.toDigits 10 n).length) := by
    rintro ⟨hhead, hlength⟩
    rw [toDigits_head n hhead, Nat.toDigits_zero] at hlength
    exact absurd hlength (by decide)
  have hempty : (Nat.toDigits 10 n).isEmpty = false := by simp [Nat.toDigits_ne_nil]
  simp only [readUnsigned, htake, hdrop, hempty, hacc, hzero, if_false, Bool.false_eq_true,
    List.isEmpty_nil, if_true]
  split
  · next h => exact absurd (hrest '.' (by simp)) (by decide)
  · next h => exact absurd (hrest 'e' (by simp)) (by decide)
  · next h => exact absurd (hrest 'E' (by simp)) (by decide)
  · rfl

/-- Digits do not begin with a minus sign. -/
theorem read_toDigits (n : Nat) (rest : List Char) :
    read (Nat.toDigits 10 n ++ rest) = readUnsigned true (Nat.toDigits 10 n ++ rest) := by
  obtain ⟨d, ds, hds, hd⟩ := toDigits_eq_cons n
  have hminus : d ≠ '-' := by
    rintro rfl
    exact absurd hd (by decide)
  rw [hds]
  unfold read
  split
  · next h => exact absurd (List.cons.inj h).1 hminus
  · rfl

/-- An integer that fits into a word is read as itself. -/
theorem read_toString {i : Int} (hleast : -0x8000000000000000 ≤ i)
    (hgreatest : i < 0x10000000000000000) {rest : List Char}
    (hrest : ∀ c ∈ rest.head?, continues c = false) :
    read ((toString i).toList ++ rest) = .ok (.int i, rest) := by
  have hbound : significandBound = 0x10000000000000000 := rfl
  rw [Int.toString_eq_repr, Int.repr_eq_if]
  split
  · next h =>
    have hlt : i.toNat < significandBound := by omega
    rw [Nat.toList_repr, read_toDigits, readUnsigned_toDigits hlt true hrest]
    simp [ofInteger, Int.toNat_of_nonneg h]
  · next h =>
    have hlt : (-i).toNat < significandBound := by omega
    have hpos : 0 < (-i).toNat ∧ (-i).toNat ≤ 1 <<< 63 := by omega
    have hi : -((-i).toNat : Int) = i := by omega
    rw [String.toList_append, Nat.toList_repr]
    show readUnsigned false (Nat.toDigits 10 (-i).toNat ++ rest) = _
    rw [readUnsigned_toDigits hlt false hrest]
    simp only [ofInteger, Bool.false_eq_true, if_false, if_pos hpos, hi]

end Number

-- -----------------------------------------------------------------------------
-- Tokens
-- -----------------------------------------------------------------------------

namespace Token

/-- The spellings of a token. Only integers that are written without fraction
and exponent are spelled. -/
inductive Spells : Token → List Char → Prop
  | openMap : Spells openMap ['\x7b']
  | closeMap : Spells closeMap ['\x7d']
  | openList : Spells openList ['[']
  | closeList : Spells closeList [']']
  | colon : Spells colon [':']
  | comma : Spells comma [',']
  | null : Spells null ['n', 'u', 'l', 'l']
  | yes : Spells (flag true) ['t', 'r', 'u', 'e']
  | no : Spells (flag false) ['f', 'a', 'l', 's', 'e']
  | int (i : Int) : Spells (number (.int i)) (toString i).toList
  | text {s : String} {body : List Char} (h : Text.SpellsAll s.toList body) :
      Spells (text s) ('"' :: (body ++ ['"']))

/-- Whether the token may stand behind a number. -/
def closes : Token → Bool
  | closeMap | closeList | comma => true
  | _ => false

end Token

/-- Whether spelled tokens can be told apart: integers fit into words and are
closed by what follows. -/
def Legible : List Token → Prop
  | [] => True
  | .number (.int i) :: ts =>
    (-0x8000000000000000 ≤ i ∧ i < 0x10000000000000000) ∧ (∀ t ∈ ts.head?, t.closes) ∧ Legible ts
  | _ :: ts => Legible ts

theorem Legible.tail {t : Token} {ts : List Token} (h : Legible (t :: ts)) : Legible ts := by
  cases t with
  | number n =>
    cases n with
    | int i => exact h.2.2
    | float bits => exact h
  | _ => exact h

/-- Spelled tokens with blanks before, between and after them. -/
inductive Spaced : List Token → List Char → Prop
  | done {gap : List Char} (blank : ∀ c ∈ gap, Token.isBlank c) : Spaced [] gap
  | token {t : Token} {ts : List Token} {gap lexeme rest : List Char}
      (blank : ∀ c ∈ gap, Token.isBlank c) (spelling : t.Spells lexeme) (tokens : Spaced ts rest) :
      Spaced (t :: ts) (gap ++ lexeme ++ rest)

namespace Token

theorem not_continues_of_isBlank {c : Char} (h : isBlank c) : Number.continues c = false := by
  simp only [isBlank, Bool.or_eq_true, decide_eq_true_eq] at h
  rcases h with ((rfl | rfl) | rfl) | rfl <;> rfl

/-- Blanks and what closes a number do not continue it. -/
theorem not_continues {ts : List Token} {cs : List Char} (h : Spaced ts cs)
    (hts : ∀ t ∈ ts.head?, t.closes) : ∀ c ∈ cs.head?, Number.continues c = false := by
  intro c hc
  cases h with
  | done blank => exact not_continues_of_isBlank (blank c (List.mem_of_mem_head? hc))
  | @token t _ gap _ _ blank spelling _ =>
    have ht : t.closes := hts t rfl
    cases gap with
    | cons g _ =>
      obtain rfl : g = c := Option.some.inj hc
      exact not_continues_of_isBlank (blank g List.mem_cons_self)
    | nil =>
      cases spelling with
      | closeMap | closeList | comma =>
        obtain rfl := Option.some.inj hc
        rfl
      | _ => exact absurd ht (by simp [closes])

theorem toString_head (i : Int) :
    ∃ c cs, (toString i).toList = c :: cs ∧ (c = '-' ∨ c.isDigit) := by
  rw [Int.toString_eq_repr, Int.repr_eq_if]
  split
  · obtain ⟨d, ds, hds, hd⟩ := Number.toDigits_eq_cons i.toNat
    exact ⟨d, ds, by rw [Nat.toList_repr, hds], .inr hd⟩
  · exact ⟨'-', _, String.toList_append, .inl rfl⟩

theorem read_number {c : Char} (h : c = '-' ∨ c.isDigit) (fuel : Nat) (rest : List Char) :
    read fuel c rest = ofNumber (Number.read (c :: rest)) := by
  have hc : (c = '-' || c.isDigit) = true := by simpa using h
  unfold read
  split
  case h_11 => rw [if_pos hc]
  all_goals exact absurd hc (by decide)

def isNumber : Token → Bool
  | number _ => true
  | _ => false

/-- A spelled token that is no number is read whatever follows. -/
theorem read_other {t : Token} {lexeme : List Char} (fuel : Nat) (spelling : t.Spells lexeme)
    (other : t.isNumber = false) (hfuel : lexeme.length ≤ fuel + 1) (rest : List Char) :
    ∃ c cs, lexeme = c :: cs ∧ isBlank c = false ∧ read fuel c (cs ++ rest) = (t, rest) := by
  cases spelling with
  | openMap | closeMap | openList | closeList | colon | comma | null | yes | no =>
    exact ⟨_, _, rfl, rfl, rfl⟩
  | int i => cases other
  | @text s body h =>
    refine ⟨_, _, rfl, rfl, ?_⟩
    have hbody : body.length < fuel := by simp at hfuel; omega
    simp [read, Text.read, Text.readBody_append h rest hbody, Except.map, ofText]

theorem isBlank_of_number {c : Char} (h : c = '-' ∨ c.isDigit) : isBlank c = false := by
  rcases h with rfl | h
  · rfl
  · refine Bool.eq_false_iff.mpr fun hblank => ?_
    have := not_continues_of_isBlank hblank
    simp [Number.continues, h] at this

/-- A spelled token is read whatever follows, if it is no number, and up to a
character that does not continue it, if it is one. -/
theorem read_append {t : Token} {ts : List Token} {lexeme rest : List Char} (fuel : Nat)
    (spelling : t.Spells lexeme) (tokens : Spaced ts rest) (legible : Legible (t :: ts))
    (hfuel : lexeme.length ≤ fuel + 1) :
    ∃ c cs, lexeme = c :: cs ∧ isBlank c = false ∧ read fuel c (cs ++ rest) = (t, rest) := by
  cases hnumber : t.isNumber with
  | false => exact read_other fuel spelling hnumber hfuel rest
  | true =>
    cases spelling with
    | int i =>
      obtain ⟨⟨hleast, hgreatest⟩, hclosed, _⟩ := legible
      obtain ⟨c, cs, hlexeme, hc⟩ := toString_head i
      have hread := Number.read_toString hleast hgreatest (not_continues tokens hclosed)
      refine ⟨c, cs, hlexeme, isBlank_of_number hc, ?_⟩
      rw [hlexeme, List.cons_append] at hread
      rw [read_number hc, hread, ofNumber]
    | _ => cases hnumber

theorem Spells.length_pos {t : Token} {lexeme : List Char} (h : t.Spells lexeme) :
    0 < lexeme.length := by
  cases h with
  | int i =>
    obtain ⟨c, cs, hlexeme, _⟩ := toString_head i
    rw [hlexeme]
    exact Nat.succ_pos _
  | _ => simp

theorem readAll_spaced {ts : List Token} {cs : List Char} (h : Spaced ts cs) :
    ∀ {fuel : Nat}, Legible ts → cs.length ≤ fuel → readAll fuel cs = ts := by
  induction h with
  | @done gap blank =>
    intro fuel _ _
    cases fuel with
    | zero => rfl
    | succ fuel =>
      have hgap : gap.dropWhile isBlank = [] := List.dropWhile_eq_nil_iff.mpr blank
      simp [readAll, hgap]
  | @token t ts gap lexeme rest blank spelling tokens ih =>
    intro fuel legible hfuel
    have hpos := spelling.length_pos
    simp only [List.length_append] at hfuel
    obtain ⟨fuel, rfl⟩ : ∃ n, fuel = n + 1 := ⟨fuel - 1, by omega⟩
    obtain ⟨c, cs, rfl, hc, hread⟩ :=
      read_append fuel spelling tokens legible (by omega)
    have hgap : (gap ++ c :: cs ++ rest).dropWhile isBlank = c :: (cs ++ rest) := by
      rw [List.append_assoc, List.dropWhile_append_of_pos blank]
      simp [hc]
    simp only [readAll, hgap, hread]
    rw [ih legible.tail (by omega)]

theorem ofString_spaced {ts : List Token} {s : String} (h : Spaced ts s.toList)
    (legible : Legible ts) : ofString s = ts :=
  readAll_spaced h legible (Nat.le_refl _)

end Token

end SignalGuard.Json
