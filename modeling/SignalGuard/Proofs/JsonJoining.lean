import SignalGuard.Proofs.JsonScanning

/-!
# Tokens of joined texts

A text that ends with a token that is no number is cut into the same tokens
whatever follows, and what follows is cut into its own. The induction is on the
tokens of the first text. A number needs a character behind it, which it has,
since it is not the last token.
-/

namespace SignalGuard.Json

theorem takeWhile_append_more {p : Char → Bool} {cs : List Char} (h : cs.dropWhile p ≠ [])
    (more : List Char) :
    (cs ++ more).takeWhile p = cs.takeWhile p ∧
      (cs ++ more).dropWhile p = cs.dropWhile p ++ more := by
  induction cs with
  | nil => exact absurd rfl h
  | cons c cs ih =>
    cases hc : p c with
    | false => simp [hc]
    | true =>
      rw [List.dropWhile_cons_of_pos hc] at h
      obtain ⟨htake, hdrop⟩ := ih h
      simp [hc, htake, hdrop]

-- -----------------------------------------------------------------------------
-- Numbers
-- -----------------------------------------------------------------------------

namespace Number

/-- What is left is the end of the text, and more of it is left if the text goes on, as
long as the number has ended. -/
def EndsInside (read : List Char → Except Fault (Number × List Char)) : Prop :=
  ∀ ⦃cs : List Char⦄ ⦃n : Number⦄ ⦃rest : List Char⦄, read cs = .ok (n, rest) →
    rest <:+ cs ∧ (rest ≠ [] → ∀ more, read (cs ++ more) = .ok (n, rest ++ more))

theorem map_rest {x : Except Fault Number} {n : Number} {rest rest' : List Char}
    (h : x.map (·, rest) = .ok (n, rest')) :
    rest' = rest ∧ ∀ more, x.map (·, rest ++ more) = .ok (n, rest ++ more) := by
  obtain ⟨m, rfl, heq⟩ := Except.map_eq_ok_iff.mp h
  obtain ⟨rfl, rfl⟩ := Prod.mk.inj heq
  exact ⟨rfl, fun _ => rfl⟩

/-- Reads the digits of an exponent. -/
def readPower (positive : Bool) (significand : Nat) (start : Int) (grows : Bool)
    (cs : List Char) : Except Fault (Number × List Char) :=
  let ds := cs.takeWhile Char.isDigit
  let rest := cs.dropWhile Char.isDigit
  if ds.isEmpty then .error (digitMissing cs)
  else
    let (power, left) := accumulate exponentBound 0 ds
    if left.isEmpty then
      (ofParts positive significand (if grows then start + power else start - power)).map (·, rest)
    else if significand ≠ 0 ∧ grows then .error .malformed
    else .ok (applySign positive 0, rest)

/-- Whether an exponent is added, and what follows its sign. -/
def exponentSign (cs : List Char) : Bool × List Char :=
  match cs with
  | '+' :: rest => (true, rest)
  | '-' :: rest => (false, rest)
  | _ => (true, cs)

theorem readExponent_eq (positive : Bool) (significand : Nat) (start : Int) (cs : List Char) :
    readExponent positive significand start cs =
      readPower positive significand start (exponentSign cs).1 (exponentSign cs).2 := rfl

theorem exponentSign_append {cs : List Char} (h : cs ≠ []) (more : List Char) :
    exponentSign (cs ++ more) = ((exponentSign cs).1, (exponentSign cs).2 ++ more) := by
  obtain ⟨c, tail, rfl⟩ := List.exists_cons_of_ne_nil h
  by_cases hplus : c = '+'
  · subst hplus
    rfl
  by_cases hminus : c = '-'
  · subst hminus
    rfl
  simp [exponentSign, hplus, hminus]

theorem exponentSign_suffix (cs : List Char) : (exponentSign cs).2 <:+ cs := by
  unfold exponentSign
  split
  · exact List.suffix_cons _ _
  · exact List.suffix_cons _ _
  · exact List.suffix_rfl

theorem endsInside_power (positive : Bool) (significand : Nat) (start : Int) (grows : Bool) :
    EndsInside (readPower positive significand start grows) := by
  intro cs n rest h
  have hends (hrest : rest = cs.dropWhile Char.isDigit)
      (hmore : rest ≠ [] → ∀ more, readPower positive significand start grows (cs ++ more) =
        .ok (n, rest ++ more)) :
      rest <:+ cs ∧ (rest ≠ [] → ∀ more, readPower positive significand start grows (cs ++ more) =
        .ok (n, rest ++ more)) :=
    ⟨hrest ▸ List.dropWhile_suffix _, hmore⟩
  simp only [readPower] at h
  split at h
  · cases h
  · next hds =>
    split at h
    · next hleft =>
      obtain ⟨rfl, hmap⟩ := map_rest h
      refine hends rfl fun hne more => ?_
      obtain ⟨htake, hdrop⟩ := takeWhile_append_more hne more
      simp only [readPower, htake, hdrop, if_neg hds, if_pos hleft, hmap]
    · next hleft =>
      split at h
      · cases h
      · next hbig =>
        obtain ⟨rfl, rfl⟩ := Prod.mk.inj (Except.ok.inj h)
        refine hends rfl fun hne more => ?_
        obtain ⟨htake, hdrop⟩ := takeWhile_append_more hne more
        simp only [readPower, htake, hdrop, if_neg hds, if_neg hleft, if_neg hbig]

theorem endsInside_exponent (positive : Bool) (significand : Nat) (start : Int) :
    EndsInside (readExponent positive significand start) := by
  intro cs n rest h
  rw [readExponent_eq] at h
  obtain ⟨hsuffix, hmore⟩ := endsInside_power _ _ _ _ h
  refine ⟨hsuffix.trans (exponentSign_suffix cs), fun hne more => ?_⟩
  have hcs : cs ≠ [] := by
    rintro rfl
    exact hne (List.suffix_nil.mp hsuffix)
  rw [readExponent_eq, exponentSign_append hcs]
  exact hmore hne more

theorem endsInside_tail (positive : Bool) (significand : Nat) (exponent : Int) :
    EndsInside (readTail positive significand exponent) := by
  intro cs n rest h
  unfold readTail at h
  split at h
  · obtain ⟨hsuffix, hmore⟩ := endsInside_exponent _ _ _ h
    exact ⟨hsuffix.trans (List.suffix_cons _ _), hmore⟩
  · obtain ⟨hsuffix, hmore⟩ := endsInside_exponent _ _ _ h
    exact ⟨hsuffix.trans (List.suffix_cons _ _), hmore⟩
  · next hlower hupper =>
    obtain ⟨rfl, hmap⟩ := map_rest h
    refine ⟨List.suffix_rfl, fun hne more => ?_⟩
    obtain ⟨c, tail, rfl⟩ := List.exists_cons_of_ne_nil hne
    have hc : c ≠ 'e' ∧ c ≠ 'E' :=
      ⟨fun hc => hlower tail (by rw [hc]), fun hc => hupper tail (by rw [hc])⟩
    rw [← hmap more, List.cons_append]
    simp [readTail, hc]

theorem endsInside_fraction (positive : Bool) (significand : Nat) (exponent : Int) :
    EndsInside (readFraction positive significand exponent) := by
  intro cs n rest h
  simp only [readFraction] at h
  split at h
  · cases h
  · next hds =>
    obtain ⟨hsuffix, hmore⟩ := endsInside_tail _ _ _ h
    refine ⟨hsuffix.trans (List.dropWhile_suffix _), fun hne more => ?_⟩
    have hdrop : cs.dropWhile Char.isDigit ≠ [] := fun hnil =>
      hne (List.suffix_nil.mp (hnil ▸ hsuffix))
    obtain ⟨htake, hdrop⟩ := takeWhile_append_more hdrop more
    simp only [readFraction, htake, hdrop, if_neg hds]
    exact hmore hne more

/-- Reads what follows the digits before the decimal point. -/
def readPoint (positive : Bool) (significand : Nat) (left cs : List Char) :
    Except Fault (Number × List Char) :=
  match cs with
  | '.' :: rest => readFraction positive significand left.length rest
  | 'e' :: _ | 'E' :: _ => readTail positive significand left.length cs
  | _ =>
    if left.isEmpty then .ok (ofInteger positive significand, cs)
    else readTail positive significand left.length cs

theorem endsInside_point (positive : Bool) (significand : Nat) (left : List Char) :
    EndsInside (readPoint positive significand left) := by
  intro cs n rest h
  unfold readPoint at h
  split at h
  · obtain ⟨hsuffix, hmore⟩ := endsInside_fraction _ _ _ h
    exact ⟨hsuffix.trans (List.suffix_cons _ _), hmore⟩
  · exact endsInside_tail _ _ _ h
  · exact endsInside_tail _ _ _ h
  · next hpoint hlower hupper =>
    have hother (c : Char) (tail : List Char) (hcs : cs = c :: tail) :
        c ≠ '.' ∧ c ≠ 'e' ∧ c ≠ 'E' :=
      ⟨fun hc => hpoint tail (hc ▸ hcs), fun hc => hlower tail (hc ▸ hcs),
        fun hc => hupper tail (hc ▸ hcs)⟩
    split at h
    · next hleft =>
      obtain ⟨rfl, rfl⟩ := Prod.mk.inj (Except.ok.inj h)
      refine ⟨List.suffix_rfl, fun hne more => ?_⟩
      obtain ⟨c, tail, rfl⟩ := List.exists_cons_of_ne_nil hne
      simp [readPoint, hother c tail rfl, hleft]
    · next hleft =>
      obtain ⟨hsuffix, hmore⟩ := endsInside_tail _ _ _ h
      refine ⟨hsuffix, fun hne more => ?_⟩
      rw [← hmore hne more]
      cases cs with
      | nil => exact absurd (List.suffix_nil.mp hsuffix) hne
      | cons c tail => simp [readPoint, hother c tail rfl, hleft]

theorem readUnsigned_eq (positive : Bool) (cs : List Char) :
    readUnsigned positive cs =
      if (cs.takeWhile Char.isDigit).isEmpty then .error (digitMissing cs)
      else if (cs.takeWhile Char.isDigit).head? = some '0' ∧ 1 < (cs.takeWhile Char.isDigit).length
      then .error .malformed
      else
        readPoint positive (accumulate significandBound 0 (cs.takeWhile Char.isDigit)).1
          (accumulate significandBound 0 (cs.takeWhile Char.isDigit)).2
          (cs.dropWhile Char.isDigit) := rfl

theorem endsInside_unsigned (positive : Bool) : EndsInside (readUnsigned positive) := by
  intro cs n rest h
  rw [readUnsigned_eq] at h
  split at h
  · cases h
  · next hds =>
    split at h
    · cases h
    · next hzero =>
      obtain ⟨hsuffix, hmore⟩ := endsInside_point _ _ _ h
      refine ⟨hsuffix.trans (List.dropWhile_suffix _), fun hne more => ?_⟩
      have hdrop : cs.dropWhile Char.isDigit ≠ [] := fun hnil =>
        hne (List.suffix_nil.mp (hnil ▸ hsuffix))
      obtain ⟨htake, hdrop⟩ := takeWhile_append_more hdrop more
      rw [readUnsigned_eq, htake, hdrop, if_neg hds, if_neg hzero]
      exact hmore hne more

theorem length_lt_of_readUnsigned {positive : Bool} {cs rest : List Char} {n : Number}
    (h : readUnsigned positive cs = .ok (n, rest)) : rest.length < cs.length := by
  rw [readUnsigned_eq] at h
  split at h
  · cases h
  · next hds =>
    split at h
    · cases h
    · have hrest := (endsInside_point _ _ _ h).1.length_le
      have hpos : 0 < (cs.takeWhile Char.isDigit).length :=
        List.length_pos_iff.mpr fun hnil => hds (List.isEmpty_iff.mpr hnil)
      have hsplit : (cs.takeWhile Char.isDigit ++ cs.dropWhile Char.isDigit).length = _ :=
        congrArg List.length List.takeWhile_append_dropWhile
      rw [List.length_append] at hsplit
      omega

theorem length_lt_of_read {cs rest : List Char} {n : Number} (h : read cs = .ok (n, rest)) :
    rest.length < cs.length := by
  unfold read at h
  split at h
  · exact Nat.lt_succ_of_lt (length_lt_of_readUnsigned h)
  · exact length_lt_of_readUnsigned h

theorem endsInside_read : EndsInside read := by
  intro cs n rest h
  unfold read at h
  split at h
  · obtain ⟨hsuffix, hmore⟩ := endsInside_unsigned _ h
    exact ⟨hsuffix.trans (List.suffix_cons _ _), hmore⟩
  · next hminus =>
    obtain ⟨hsuffix, hmore⟩ := endsInside_unsigned _ h
    refine ⟨hsuffix, fun hne more => ?_⟩
    rw [← hmore hne more]
    cases cs with
    | nil => exact absurd (List.suffix_nil.mp hsuffix) hne
    | cons c tail =>
      have hc : c ≠ '-' := fun hc => hminus tail (by rw [hc])
      simp [read, hc]

end Number

-- -----------------------------------------------------------------------------
-- Fuel
-- -----------------------------------------------------------------------------

theorem Text.Spells.length_pos {c : Char} {spelling : List Char} (h : Text.Spells c spelling) :
    0 < spelling.length := by
  cases h <;> simp

/-- A text is read in the same way with any fuel that covers it. -/
theorem Text.readBody_congr {fuel fuel' : Nat} {cs : List Char} (h : cs.length ≤ fuel)
    (h' : cs.length ≤ fuel') : readBody fuel cs = readBody fuel' cs := by
  induction fuel generalizing fuel' cs with
  | zero =>
    obtain rfl := List.length_eq_zero_iff.mp (Nat.le_zero.mp h)
    cases fuel' <;> rfl
  | succ fuel ih =>
    cases fuel' with
    | zero =>
      obtain rfl := List.length_eq_zero_iff.mp (Nat.le_zero.mp h')
      rfl
    | succ fuel' =>
      rw [readBody, readBody]
      cases hread : readChar cs with
      | error f => rfl
      | ok r =>
        obtain ⟨c?, rest⟩ := r
        cases c? with
        | none => rfl
        | some c =>
          obtain ⟨spelling, hspells, rfl⟩ := spells_of_readChar hread
          have hpos := hspells.length_pos
          rw [List.length_append] at h h'
          have htail : readBody fuel rest = readBody fuel' rest := ih (by omega) (by omega)
          simp only [htail]

namespace Token

theorem read_congr {fuel fuel' : Nat} {cs : List Char} (h : cs.length ≤ fuel)
    (h' : cs.length ≤ fuel') (c : Char) : read fuel c cs = read fuel' c cs := by
  unfold read
  rw [Text.read, Text.read, Text.readBody_congr h h']

theorem readWord_cases {token t : Token} {word cs rest : List Char}
    (h : readWord token word cs = (t, rest)) :
    t = token ∨ (∃ f, t = broken f false) ∧ rest = [] := by
  induction word generalizing cs with
  | nil =>
    obtain ⟨rfl, -⟩ := Prod.mk.inj h
    exact .inl rfl
  | cons w word ih =>
    cases cs with
    | nil =>
      obtain ⟨rfl, rfl⟩ := Prod.mk.inj h
      exact .inr ⟨⟨_, rfl⟩, rfl⟩
    | cons c cs =>
      rw [readWord] at h
      split at h
      · exact ih h
      · obtain ⟨rfl, rfl⟩ := Prod.mk.inj h
        exact .inr ⟨⟨_, rfl⟩, rfl⟩

/-- What the first token is: one that ends by itself, a number, or broken, in which case it
takes everything. -/
theorem read_cases {fuel : Nat} {c : Char} {cs rest : List Char} {t : Token}
    (h : read fuel c cs = (t, rest)) :
    t.plain ∧ t.isNumber = false ∨
      (∃ n, t = number n ∧ (c = '-' ∨ c.isDigit) ∧ Number.read (c :: cs) = .ok (n, rest)) ∨
      (∃ f inText, t = broken f inText) ∧ rest = [] := by
  have hword {token : Token} {word : List Char} (hplain : token.plain)
      (hother : token.isNumber = false) (h : readWord token word cs = (t, rest)) :
      t.plain ∧ t.isNumber = false ∨
        (∃ n, t = number n ∧ (c = '-' ∨ c.isDigit) ∧ Number.read (c :: cs) = .ok (n, rest)) ∨
        (∃ f inText, t = broken f inText) ∧ rest = [] := by
    rcases readWord_cases h with rfl | ⟨⟨f, rfl⟩, hrest⟩
    · exact .inl ⟨hplain, hother⟩
    · exact .inr (.inr ⟨⟨f, _, rfl⟩, hrest⟩)
  unfold read at h
  split at h
  case h_1 | h_2 | h_3 | h_4 | h_5 | h_6 =>
    obtain ⟨rfl, -⟩ := Prod.mk.inj h
    exact .inl ⟨rfl, rfl⟩
  case h_7 | h_8 | h_9 => exact hword rfl rfl h
  case h_10 =>
    cases htext : Text.read fuel cs with
    | error f =>
      obtain ⟨rfl, rfl⟩ : broken f true = t ∧ [] = rest := by simpa [htext, ofText] using h
      exact .inr (.inr ⟨⟨f, true, rfl⟩, rfl⟩)
    | ok r =>
      obtain ⟨rfl, -⟩ : text r.1 = t ∧ r.2 = rest := by simpa [htext, ofText] using h
      exact .inl ⟨rfl, rfl⟩
  case h_11 =>
    split at h
    · next hc =>
      cases hnumber : Number.read (c :: cs) with
      | error f =>
        obtain ⟨rfl, rfl⟩ : broken f false = t ∧ [] = rest := by
          simpa [hnumber, ofNumber] using h
        exact .inr (.inr ⟨⟨f, false, rfl⟩, rfl⟩)
      | ok r =>
        obtain ⟨n, rest'⟩ := r
        obtain ⟨rfl, rfl⟩ : number n = t ∧ rest' = rest := by simpa [hnumber, ofNumber] using h
        exact .inr (.inl ⟨n, rfl, by simpa using hc, rfl⟩)
    · obtain ⟨rfl, rfl⟩ := Prod.mk.inj h
      exact .inr (.inr ⟨⟨_, _, rfl⟩, rfl⟩)

theorem length_le_of_read {fuel : Nat} {c : Char} {cs rest : List Char} {t : Token}
    (h : read fuel c cs = (t, rest)) : rest.length ≤ cs.length := by
  rcases read_cases h with ⟨hplain, -⟩ | ⟨n, -, hc, hnumber⟩ | ⟨-, rfl⟩
  · obtain ⟨lexeme, hspells, heq⟩ := spells_of_read h hplain
    have hlength := congrArg List.length heq
    have hpos := hspells.length_pos
    simp only [List.length_cons, List.length_append] at hlength
    omega
  · exact Nat.le_of_lt_succ (Number.length_lt_of_read hnumber)
  · simp

/-- The first token is the same whatever follows, if it ends before that. -/
theorem read_append_more {fuel fuel' : Nat} {c : Char} {cs rest more : List Char} {t : Token}
    (h : read fuel c cs = (t, rest)) (hends : rest ≠ [] ∨ t.plain ∧ t.isNumber = false)
    (hfuel : (cs ++ more).length ≤ fuel') : read fuel' c (cs ++ more) = (t, rest ++ more) := by
  have hplain (hp : t.plain ∧ t.isNumber = false) :
      read fuel' c (cs ++ more) = (t, rest ++ more) := by
    obtain ⟨lexeme, hspells, heq⟩ := spells_of_read h hp.1
    have hlength : lexeme.length ≤ fuel' + 1 := by
      have := congrArg List.length heq
      simp only [List.length_append, List.length_cons] at this hfuel
      omega
    obtain ⟨d, ds, rfl, -, hread⟩ := read_other fuel' hspells hp.2 hlength (rest ++ more)
    obtain ⟨rfl, htail⟩ := List.cons.inj heq
    rw [htail]
    exact (congrArg _ (List.append_assoc ds rest more)).trans hread
  rcases read_cases h with hp | ⟨n, rfl, hc, hnumber⟩ | ⟨⟨f, inText, rfl⟩, rfl⟩
  · exact hplain hp
  · rcases hends with hne | hp
    · rw [read_number hc, ← List.cons_append, (Number.endsInside_read hnumber).2 hne]
      rfl
    · exact hplain hp
  · simp [plain] at hends

-- -----------------------------------------------------------------------------
-- Whole texts
-- -----------------------------------------------------------------------------

theorem readAll_congr {fuel fuel' : Nat} {cs : List Char} (h : cs.length ≤ fuel)
    (h' : cs.length ≤ fuel') : readAll fuel cs = readAll fuel' cs := by
  induction fuel generalizing fuel' cs with
  | zero =>
    obtain rfl := List.length_eq_zero_iff.mp (Nat.le_zero.mp h)
    cases fuel' <;> rfl
  | succ fuel ih =>
    cases fuel' with
    | zero =>
      obtain rfl := List.length_eq_zero_iff.mp (Nat.le_zero.mp h')
      rfl
    | succ fuel' =>
      rw [readAll, readAll]
      have hdrop := (List.dropWhile_suffix isBlank (l := cs)).length_le
      cases hcs : cs.dropWhile isBlank with
      | nil => rfl
      | cons c rest =>
        rw [hcs, List.length_cons] at hdrop
        have hlength : rest.length ≤ fuel ∧ rest.length ≤ fuel' := by omega
        simp only
        rw [read_congr hlength.1 hlength.2 c]
        rcases hread : read fuel' c rest with ⟨t, left⟩
        have hrest := length_le_of_read hread
        have htail : readAll fuel left = readAll fuel' left := ih (by omega) (by omega)
        simp only [htail]

/-- The tokens of a text. -/
def ofChars (cs : List Char) : List Token := readAll cs.length cs

theorem ofString_ofList (cs : List Char) : ofString (String.ofList cs) = ofChars cs := by
  simp only [ofString, ofChars, String.toList_ofList]

theorem ofChars_blank {cs : List Char} (h : cs.dropWhile isBlank = []) : ofChars cs = [] := by
  unfold ofChars
  cases cs.length with
  | zero => rfl
  | succ fuel => simp only [readAll, h]

theorem ofChars_cons {fuel : Nat} {cs cs' rest : List Char} {c : Char} {t : Token}
    (h : cs.dropWhile isBlank = c :: cs') (hread : read fuel c cs' = (t, rest))
    (hfuel : cs'.length ≤ fuel) : ofChars cs = t :: ofChars rest := by
  have hlength := (List.dropWhile_suffix isBlank (l := cs)).length_le
  have hrest := length_le_of_read hread
  rw [h, List.length_cons] at hlength
  obtain ⟨n, hn⟩ : ∃ n, cs.length = n + 1 := ⟨cs.length - 1, by omega⟩
  have hn' : cs'.length ≤ n := by omega
  simp only [ofChars, hn, readAll, h, read_congr hn' hfuel, hread]
  rw [readAll_congr (Nat.le_trans hrest hn') (Nat.le_refl _)]

/-- Blanks in front do not matter. -/
theorem ofChars_congr {cs cs' : List Char} (h : cs.dropWhile isBlank = cs'.dropWhile isBlank) :
    ofChars cs = ofChars cs' := by
  cases hcs : cs.dropWhile isBlank with
  | nil => rw [ofChars_blank hcs, ofChars_blank (h.symm.trans hcs)]
  | cons c rest =>
    rcases hread : read rest.length c rest with ⟨t, left⟩
    have hcs' := h.symm.trans hcs
    rw [ofChars_cons hcs hread (Nat.le_refl _), ofChars_cons hcs' hread (Nat.le_refl _)]

/-- What ends with a token that ends by itself is cut before what follows. -/
theorem ofChars_append {cs : List Char}
    (h : ∀ t ∈ (ofChars cs).getLast?, t.plain ∧ t.isNumber = false) (more : List Char) :
    ofChars (cs ++ more) = ofChars cs ++ ofChars more := by
  induction hn : cs.length using Nat.strongRecOn generalizing cs with
  | _ n ih =>
    cases hcs : cs.dropWhile isBlank with
    | nil =>
      rw [ofChars_blank hcs, List.nil_append]
      refine ofChars_congr ?_
      rw [List.dropWhile_append, hcs]
      rfl
    | cons c tail =>
      rcases hread : read tail.length c tail with ⟨t, rest⟩
      have hlength := (List.dropWhile_suffix isBlank (l := cs)).length_le
      have hrest := length_le_of_read hread
      rw [hcs, List.length_cons] at hlength
      rw [ofChars_cons hcs hread (Nat.le_refl _)] at h ⊢
      have hends : rest ≠ [] ∨ t.plain ∧ t.isNumber = false := by
        rcases Decidable.em (rest = []) with rfl | hne
        · exact .inr (h t rfl)
        · exact .inl hne
      have hmore : (cs ++ more).dropWhile isBlank = c :: (tail ++ more) := by
        rw [(takeWhile_append_more (by simp [hcs]) more).2, hcs, List.cons_append]
      rw [ofChars_cons hmore (read_append_more hread hends (Nat.le_refl _)) (Nat.le_refl _),
        List.cons_append]
      refine congrArg (t :: ·) (ih rest.length (by omega) (fun u hu => h u ?_) rfl)
      rw [List.getLast?_cons]
      simp_all

theorem ofChars_text {name : String} {spelling : List Char} (h : (text name).Spells spelling)
    (more : List Char) : ofChars (spelling ++ more) = text name :: ofChars more := by
  obtain ⟨c, cs, rfl, hc, hread⟩ :=
    read_other (spelling ++ more).length h rfl (by simp; omega) more
  refine ofChars_cons ?_ hread (by simp)
  simp [hc]

theorem ofChars_int {i : Int} (hleast : -0x8000000000000000 ≤ i)
    (hgreatest : i < 0x10000000000000000) {more : List Char}
    (hmore : ∀ c ∈ more.head?, Number.continues c = false) :
    ofChars ((toString i).toList ++ more) = number (.int i) :: ofChars more := by
  have hnumber := Number.read_toString hleast hgreatest hmore
  obtain ⟨c, cs, hcs, hc⟩ := toString_head i
  rw [hcs, List.cons_append] at hnumber ⊢
  have hread : read (cs ++ more).length c (cs ++ more) = (number (.int i), more) := by
    rw [read_number hc, hnumber, ofNumber]
  refine ofChars_cons ?_ hread (Nat.le_refl _)
  simp [isBlank_of_number hc]

end Token

end SignalGuard.Json
