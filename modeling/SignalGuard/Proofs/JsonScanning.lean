import SignalGuard.Proofs.JsonLexemes
import SignalGuard.Proofs.Results

/-!
# Scanning finds spellings only

The converse of reading spelled tokens: whatever the scanner takes for a text,
an integer or a mark was spelled as one, character by character. A text whose
tokens are all plain is therefore these tokens with blanks between them, and an
integer in it was written without leading zeros, fraction or exponent.
-/

namespace SignalGuard

namespace Digits

theorem value?_lt {base : Nat} {c : Char} {n : Nat} (h : value? base c = some n) : n < base := by
  simp only [value?, Option.filter_eq_some_iff, decide_eq_true_eq] at h
  exact h.2

theorem extend?_cons {base n m : Nat} {c : Char} {cs : List Char}
    (h : extend? base n (c :: cs) = some m) :
    ∃ d < base, extend? base (n * base + d) cs = some m := by
  obtain ⟨d, hd, hrest⟩ := Option.bind_eq_some_iff.mp h
  exact ⟨d, value?_lt hd, hrest⟩

/-- Four hexadecimal digits make a number of sixteen bits. -/
theorem number?_lt {a b c d : Char} {n : Nat} (h : number? 16 [a, b, c, d] = some n) :
    n < 0x10000 := by
  obtain ⟨w, hw, h⟩ := extend?_cons h
  obtain ⟨x, hx, h⟩ := extend?_cons h
  obtain ⟨y, hy, h⟩ := extend?_cons h
  obtain ⟨z, hz, h⟩ := extend?_cons h
  obtain rfl := Option.some.inj h
  omega

end Digits

namespace Json

-- -----------------------------------------------------------------------------
-- Texts
-- -----------------------------------------------------------------------------

namespace Text

theorem unit_of_readUnit {cs rest : List Char} {n : Nat} (h : readUnit cs = .ok (n, rest)) :
    ∃ digits, digits.length = 4 ∧ Digits.number? 16 digits = some n ∧ n < 0x10000 ∧
      cs = digits ++ rest := by
  unfold readUnit at h
  split at h
  · next a b c d tail =>
    split at h
    · next k hk =>
      obtain ⟨rfl, rfl⟩ := Prod.mk.inj (Except.ok.inj h)
      exact ⟨_, rfl, hk, Digits.number?_lt hk, rfl⟩
    · cases h
  · cases h

theorem toNat_ofNat {n : Nat} (h : n.isValidChar) : (Char.ofNat n).toNat = n := by
  rw [Char.ofNat, dif_pos h]
  rfl

/-- A number that is no half of a pair is that of a character. -/
theorem toNat_ofNat_unit {n : Nat} (hn : n < 0x10000) (hhigh : isHighSurrogate n = false)
    (hlow : isLowSurrogate n = false) : (Char.ofNat n).toNat = n := by
  simp only [isHighSurrogate, isLowSurrogate, Bool.and_eq_false_iff, decide_eq_false_iff_not]
    at hhigh hlow
  refine toNat_ofNat ?_
  unfold Nat.isValidChar
  omega

/-- The two halves of a pair make up a character beyond the first plane. -/
theorem toNat_ofNat_pair {high low : Nat} (hhigh : isHighSurrogate high)
    (hlow : isLowSurrogate low) :
    (Char.ofNat (0x10000 + (high - 0xD800) * 0x400 + (low - 0xDC00))).toNat =
      0x10000 + (high - 0xD800) * 0x400 + (low - 0xDC00) := by
  simp only [isHighSurrogate, isLowSurrogate, Bool.and_eq_true, decide_eq_true_eq] at hhigh hlow
  refine toNat_ofNat ?_
  unfold Nat.isValidChar
  omega

theorem spells_of_readHex {cs rest : List Char} {c : Char} (h : readHex cs = .ok (c, rest)) :
    ∃ spelling, Spells c ('\\' :: 'u' :: spelling) ∧ cs = spelling ++ rest := by
  unfold readHex at h
  split at h
  · cases h
  · next n rest' hunit =>
    obtain ⟨digits, hfour, hdigits, hn, rfl⟩ := unit_of_readUnit hunit
    split at h
    · cases h
    · next hlow =>
      split at h
      · next hhigh =>
        -- the first half of a pair, with the second behind it
        unfold readLowHalf at h
        split at h
        · cases h
        · cases h
        · next tail =>
          split at h
          · cases h
          · next low rest'' hunit' =>
            obtain ⟨digits', hfour', hdigits', _, rfl⟩ := unit_of_readUnit hunit'
            split at h
            · next hlow' =>
              obtain ⟨rfl, rfl⟩ := Prod.mk.inj (Except.ok.inj h)
              exact ⟨digits ++ '\\' :: 'u' :: digits', .pair hfour hfour' hdigits hdigits' hhigh
                hlow' (toNat_ofNat_pair hhigh hlow'), by simp⟩
            · cases h
        · cases h
      · next hhigh =>
        obtain ⟨rfl, rfl⟩ := Prod.mk.inj (Except.ok.inj h)
        have hc := toNat_ofNat_unit hn (Bool.eq_false_iff.mpr hhigh) (Bool.eq_false_iff.mpr hlow)
        exact ⟨digits, .unit hfour (by rw [hc, hdigits]), rfl⟩

theorem spells_of_readEscape {cs rest : List Char} {c : Char}
    (h : readEscape cs = .ok (c, rest)) :
    ∃ spelling, Spells c ('\\' :: spelling) ∧ cs = spelling ++ rest := by
  unfold readEscape at h
  split at h
  · cases h
  · next letter tail =>
    split at h
    case h_9 =>
      obtain ⟨spelling, hspells, rfl⟩ := spells_of_readHex h
      exact ⟨'u' :: spelling, hspells, rfl⟩
    case h_10 => cases h
    all_goals
      obtain ⟨rfl, rfl⟩ := Prod.mk.inj (Except.ok.inj h)
      exact ⟨[_], .short (by decide), rfl⟩

theorem spells_of_readChar {cs rest : List Char} {c : Char}
    (h : readChar cs = .ok (some c, rest)) :
    ∃ spelling, Spells c spelling ∧ cs = spelling ++ rest := by
  unfold readChar at h
  split at h
  · cases h
  · next first tail =>
    split at h
    · cases h
    · next hquote =>
      split at h
      · next hbackslash =>
        obtain ⟨⟨_, _⟩, hescape, heq⟩ := Except.map_eq_ok_iff.mp h
        obtain ⟨rfl, rfl⟩ := by simpa using heq
        obtain ⟨spelling, hspells, rfl⟩ := spells_of_readEscape hescape
        exact ⟨_, hspells, by rw [hbackslash, List.cons_append]⟩
      · next hbackslash =>
        split at h
        · cases h
        · next hcontrol =>
          obtain ⟨rfl, rfl⟩ : first = c ∧ tail = rest := by simpa using h
          exact ⟨[first], .plain hquote hbackslash (Nat.not_lt.mp hcontrol), rfl⟩

theorem quote_of_readChar {cs rest : List Char} (h : readChar cs = .ok (none, rest)) :
    cs = '"' :: rest := by
  unfold readChar at h
  split at h
  · cases h
  · split at h
    · next hquote =>
      obtain ⟨-, rfl⟩ := Prod.mk.inj (Except.ok.inj h)
      rw [hquote]
    · split at h
      · obtain ⟨_, _, heq⟩ := Except.map_eq_ok_iff.mp h
        cases heq
      · split at h <;> cases h

theorem spellsAll_of_readBody {fuel : Nat} {cs body rest : List Char}
    (h : readBody fuel cs = .ok (body, rest)) :
    ∃ spelling, SpellsAll body spelling ∧ cs = spelling ++ '"' :: rest := by
  induction fuel generalizing cs body with
  | zero => cases h
  | succ fuel ih =>
    rw [readBody] at h
    split at h
    · cases h
    · next hread =>
      obtain ⟨rfl, rfl⟩ := Prod.mk.inj (Except.ok.inj h)
      exact ⟨[], .nil, quote_of_readChar hread⟩
    · next c tail hread =>
      obtain ⟨⟨body', _⟩, hbody, heq⟩ := Except.map_eq_ok_iff.mp h
      obtain ⟨rfl, rfl⟩ := Prod.mk.inj heq
      obtain ⟨spelling, hspells, rfl⟩ := spells_of_readChar hread
      obtain ⟨spellings, hall, rfl⟩ := ih hbody
      exact ⟨spelling ++ spellings, .cons hspells hall, by simp⟩

end Text

-- -----------------------------------------------------------------------------
-- Numbers
-- -----------------------------------------------------------------------------

namespace Number

/-- Whether the number is read as a binary64 number if it is read at all. -/
def Floats (r : Except Fault (Number × List Char)) : Prop :=
  ∀ n rest, r = .ok (n, rest) → ∃ bits, n = .float bits

theorem floats_ofParts (positive : Bool) (significand : Nat) (exponent : Int)
    (rest : List Char) : Floats ((ofParts positive significand exponent).map (·, rest)) := by
  intro n rest' h
  obtain ⟨_, hparts, heq⟩ := Except.map_eq_ok_iff.mp h
  obtain ⟨rfl, -⟩ := Prod.mk.inj heq
  obtain ⟨f, -, rfl⟩ := Except.map_eq_ok_iff.mp hparts
  exact ⟨_, rfl⟩

theorem floats_readExponent (positive : Bool) (significand : Nat) (start : Int)
    (cs : List Char) : Floats (readExponent positive significand start cs) := by
  intro n rest h
  simp only [readExponent] at h
  -- with either sign or none
  split at h
  all_goals
    split at h
    · cases h
    · split at h
      · exact floats_ofParts _ _ _ _ n rest h
      · split at h
        · cases h
        · obtain ⟨rfl, -⟩ := Prod.mk.inj (Except.ok.inj h)
          exact ⟨_, rfl⟩

theorem floats_readTail (positive : Bool) (significand : Nat) (exponent : Int)
    (cs : List Char) : Floats (readTail positive significand exponent cs) := by
  intro n rest h
  unfold readTail at h
  split at h
  · exact floats_readExponent _ _ _ _ n rest h
  · exact floats_readExponent _ _ _ _ n rest h
  · exact floats_ofParts _ _ _ _ n rest h

theorem floats_readFraction (positive : Bool) (significand : Nat) (exponent : Int)
    (cs : List Char) : Floats (readFraction positive significand exponent cs) := by
  intro n rest h
  simp only [readFraction] at h
  split at h
  · cases h
  · exact floats_readTail _ _ _ _ n rest h

/-- If no digit is left, all were appended. -/
theorem ofDigitChars_of_accumulate {bound : Nat} {cs : List Char} {n m : Nat}
    (h : accumulate bound n cs = (m, [])) : m = Nat.ofDigitChars 10 cs n := by
  induction cs generalizing n with
  | nil =>
    obtain ⟨rfl, -⟩ := Prod.mk.inj h
    simp
  | cons c cs ih =>
    rw [accumulate] at h
    split at h
    · rw [ih h, Nat.ofDigitChars_cons, Nat.mul_comm 10 n]
      rfl
    · cases h

theorem digitChar_of_isDigit {c : Char} (h : c.isDigit) :
    c.toNat - '0'.toNat < 10 ∧ Nat.digitChar (c.toNat - '0'.toNat) = c := by
  obtain ⟨hleast, hgreatest⟩ := Char.isDigit_iff_toNat.mp h
  have hzero : '0'.toNat = 48 := rfl
  have hnine : '9'.toNat = 57 := rfl
  refine ⟨by omega, Char.toNat_inj.mp ?_⟩
  rw [Nat.toNat_digitChar_of_lt_ten (by omega)]
  omega

/-- Digits behind a number that is not zero are the last digits of what they
continue it to. -/
theorem toDigits_append {cs : List Char} (hdigits : ∀ c ∈ cs, c.isDigit) {n : Nat} (hn : 0 < n) :
    Nat.toDigits 10 n ++ cs = Nat.toDigits 10 (Nat.ofDigitChars 10 cs n) := by
  induction cs generalizing n with
  | nil => simp
  | cons c cs ih =>
    obtain ⟨hlt, hchar⟩ := digitChar_of_isDigit (hdigits c List.mem_cons_self)
    have hstep := Nat.toDigits_append_toDigits (by decide : 1 < 10) hn hlt
    rw [Nat.toDigits_of_lt_base hlt, hchar] at hstep
    rw [Nat.ofDigitChars_cons, ← ih (fun d hd => hdigits d (List.mem_cons_of_mem _ hd)) (by omega),
      ← hstep, List.append_assoc, List.singleton_append]

/-- Digits without leading zeros are those of their number. -/
theorem toDigits_ofDigitChars {cs : List Char} (hne : cs ≠ []) (hdigits : ∀ c ∈ cs, c.isDigit)
    (hzero : ¬(cs.head? = some '0' ∧ 1 < cs.length)) :
    Nat.toDigits 10 (Nat.ofDigitChars 10 cs 0) = cs := by
  cases cs with
  | nil => exact absurd rfl hne
  | cons c cs =>
    obtain ⟨hlt, hchar⟩ := digitChar_of_isDigit (hdigits c List.mem_cons_self)
    have hdigit := Nat.toDigits_of_lt_base hlt
    rw [hchar] at hdigit
    rw [Nat.ofDigitChars_cons, Nat.mul_zero, Nat.zero_add]
    rcases Nat.eq_zero_or_pos (c.toNat - '0'.toNat) with hc | hc
    · obtain rfl : c = '0' := by
        rw [← hchar, hc]
        rfl
      obtain rfl : cs = [] := by
        cases cs with
        | nil => rfl
        | cons d ds => exact absurd ⟨rfl, by simp⟩ hzero
      rfl
    · rw [← toDigits_append (fun d hd => hdigits d (List.mem_cons_of_mem _ hd)) hc, hdigit,
        List.singleton_append]

/-- An integer without its sign was written by its digits. -/
theorem digits_of_readUnsigned {positive : Bool} {cs rest : List Char} {i : Int}
    (h : readUnsigned positive cs = .ok (.int i, rest)) :
    ∃ n, ofInteger positive n = .int i ∧ cs = Nat.toDigits 10 n ++ rest := by
  simp only [readUnsigned] at h
  split at h
  · cases h
  · next hne =>
    split at h
    · cases h
    · next hzero =>
      split at h
      · next hrest =>
        obtain ⟨bits, hbits⟩ := floats_readFraction _ _ _ _ _ _ h
        cases hbits
      · obtain ⟨bits, hbits⟩ := floats_readTail _ _ _ _ _ _ h
        cases hbits
      · obtain ⟨bits, hbits⟩ := floats_readTail _ _ _ _ _ _ h
        cases hbits
      · split at h
        · next hleft =>
          obtain ⟨hint, rfl⟩ := Prod.mk.inj (Except.ok.inj h)
          refine ⟨_, hint, ?_⟩
          have hacc : accumulate significandBound 0 (cs.takeWhile Char.isDigit) =
              ((accumulate significandBound 0 (cs.takeWhile Char.isDigit)).1, []) :=
            Prod.ext rfl (List.isEmpty_iff.mp hleft)
          rw [ofDigitChars_of_accumulate hacc,
            toDigits_ofDigitChars (by simpa using hne) (fun c hc => List.mem_takeWhile_imp hc)
              hzero,
            List.takeWhile_append_dropWhile]
        · obtain ⟨bits, hbits⟩ := floats_readTail _ _ _ _ _ _ h
          cases hbits

/-- What is read as an integer was written as one. -/
theorem toString_of_read {cs rest : List Char} {i : Int} (h : read cs = .ok (.int i, rest)) :
    cs = (toString i).toList ++ rest := by
  unfold read at h
  split at h
  · obtain ⟨n, hint, rfl⟩ := digits_of_readUnsigned h
    unfold ofInteger at hint
    split at hint
    · next hpositive => cases hpositive
    · split at hint
      · next hn =>
        obtain rfl := Number.int.inj hint
        have hneg : ¬ 0 ≤ -(n : Int) := by omega
        rw [Int.toString_eq_repr, Int.repr_eq_if, if_neg hneg, String.toList_append,
          Nat.toList_repr, Int.neg_neg, Int.toNat_natCast]
        rfl
      · cases hint
  · obtain ⟨n, hint, rfl⟩ := digits_of_readUnsigned h
    obtain rfl := Number.int.inj hint
    rw [Int.toString_eq_repr, Int.repr_eq_if, if_pos (Int.natCast_nonneg n), Nat.toList_repr,
      Int.toNat_natCast]

end Number

-- -----------------------------------------------------------------------------
-- Tokens
-- -----------------------------------------------------------------------------

namespace Token

/-- Whether the token is one a spelling of which is listed. -/
def plain : Token → Bool
  | .broken _ _ | .number (.float _) => false
  | _ => true

theorem eq_of_readWord {token t : Token} {word cs rest : List Char}
    (h : readWord token word cs = (t, rest)) (ht : t.plain) : t = token ∧ cs = word ++ rest := by
  induction word generalizing cs with
  | nil =>
    obtain ⟨rfl, rfl⟩ := Prod.mk.inj h
    exact ⟨rfl, rfl⟩
  | cons w word ih =>
    cases cs with
    | nil =>
      obtain ⟨rfl, -⟩ := Prod.mk.inj h
      cases ht
    | cons c cs =>
      rw [readWord] at h
      split at h
      · next hc =>
        obtain ⟨htoken, rfl⟩ := ih h
        exact ⟨htoken, by rw [hc, List.cons_append]⟩
      · obtain ⟨rfl, -⟩ := Prod.mk.inj h
        cases ht

/-- A plain token was spelled by the characters that it was read from. -/
theorem spells_of_read {fuel : Nat} {c : Char} {cs rest : List Char} {t : Token}
    (h : read fuel c cs = (t, rest)) (ht : t.plain) :
    ∃ lexeme, t.Spells lexeme ∧ c :: cs = lexeme ++ rest := by
  unfold read at h
  split at h
  case h_1 | h_2 | h_3 | h_4 | h_5 | h_6 =>
    obtain ⟨rfl, rfl⟩ := Prod.mk.inj h
    exact ⟨[_], by constructor, rfl⟩
  case h_7 =>
    obtain ⟨rfl, rfl⟩ := eq_of_readWord h ht
    exact ⟨_, .null, rfl⟩
  case h_8 =>
    obtain ⟨rfl, rfl⟩ := eq_of_readWord h ht
    exact ⟨_, .yes, rfl⟩
  case h_9 =>
    obtain ⟨rfl, rfl⟩ := eq_of_readWord h ht
    exact ⟨_, .no, rfl⟩
  case h_10 =>
    unfold Text.read at h
    cases hbody : Text.readBody fuel cs with
    | error f =>
      obtain ⟨rfl, -⟩ : broken f true = t ∧ [] = rest := by
        simpa [hbody, Except.map, ofText] using h
      cases ht
    | ok r =>
      obtain ⟨body, rest'⟩ := r
      obtain ⟨rfl, rfl⟩ : text (String.ofList body) = t ∧ rest' = rest := by
        simpa [hbody, Except.map, ofText] using h
      obtain ⟨spelling, hspells, rfl⟩ := Text.spellsAll_of_readBody hbody
      exact ⟨_, .text (by rwa [String.toList_ofList]), by simp⟩
  case h_11 =>
    split at h
    · cases hnumber : Number.read (c :: cs) with
      | error f =>
        obtain ⟨rfl, -⟩ : broken f false = t ∧ [] = rest := by
          simpa [hnumber, ofNumber] using h
        cases ht
      | ok r =>
        obtain ⟨n, rest'⟩ := r
        obtain ⟨rfl, rfl⟩ : number n = t ∧ rest' = rest := by simpa [hnumber, ofNumber] using h
        cases n with
        | int i => exact ⟨_, .int i, Number.toString_of_read hnumber⟩
        | float bits => cases ht
    · obtain ⟨rfl, -⟩ := Prod.mk.inj h
      cases ht

/-- Plain tokens were spelled, with blanks between them. -/
theorem spaced_of_readAll {fuel : Nat} {cs : List Char} (hfuel : cs.length ≤ fuel)
    (hplain : ∀ t ∈ readAll fuel cs, t.plain) : Spaced (readAll fuel cs) cs := by
  induction fuel generalizing cs with
  | zero =>
    obtain rfl := List.length_eq_zero_iff.mp (Nat.le_zero.mp hfuel)
    exact .done (by simp)
  | succ fuel ih =>
    have hgap : ∀ c ∈ cs.takeWhile isBlank, isBlank c := fun c hc => List.mem_takeWhile_imp hc
    rw [readAll] at hplain ⊢
    split
    · next hdrop =>
      rw [← List.takeWhile_append_dropWhile (p := isBlank) (l := cs), hdrop, List.append_nil]
      exact .done hgap
    · next c tail hdrop =>
      rcases hread : read fuel c tail with ⟨t, rest⟩
      simp only [hdrop, hread] at hplain ⊢
      obtain ⟨lexeme, hspells, heq⟩ := spells_of_read hread (hplain t List.mem_cons_self)
      have hcs : cs = cs.takeWhile isBlank ++ lexeme ++ rest := by
        rw [List.append_assoc, ← heq, ← hdrop, List.takeWhile_append_dropWhile]
      have hlength : rest.length ≤ fuel := by
        have := congrArg List.length hcs
        have := hspells.length_pos
        simp only [List.length_append] at *
        omega
      rw [hcs]
      exact .token hgap hspells
        (ih hlength fun t' ht' => hplain t' (List.mem_cons_of_mem _ ht'))

theorem spaced_of_ofString {s : String} (hplain : ∀ t ∈ ofString s, t.plain) :
    Spaced (ofString s) s.toList :=
  spaced_of_readAll (Nat.le_refl _) hplain

end Token

end Json

end SignalGuard
