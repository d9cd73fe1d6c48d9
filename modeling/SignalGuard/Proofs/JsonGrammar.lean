import SignalGuard.Proofs.JsonReading

/-!
# The grammar of JSON

A text is well formed if it spells a value: the lexemes of the value one after
another, with blanks before, between and after them. Any number of the format
may stand in a value, and is kept as it is written. A text spells one value at
most, so what a text says is not a matter of how it is read.
-/

namespace SignalGuard.Json

-- -----------------------------------------------------------------------------
-- Numerals
-- -----------------------------------------------------------------------------

/-- The digits before the decimal point, without leading zeros. -/
inductive Whole : List Char → Prop
  | zero : Whole ['0']
  | positive {d : Char} {ds : List Char} (first : d.isDigit) (nonzero : d ≠ '0')
      (digits : ∀ c ∈ ds, c.isDigit) : Whole (d :: ds)

inductive Fraction : List Char → Prop
  | absent : Fraction []
  | digits {ds : List Char} (nonempty : ds ≠ []) (digits : ∀ c ∈ ds, c.isDigit) :
      Fraction ('.' :: ds)

inductive Exponent : List Char → Prop
  | absent : Exponent []
  | digits {mark : Char} {sign ds : List Char} (hmark : mark = 'e' ∨ mark = 'E')
      (hsign : sign = [] ∨ sign = ['+'] ∨ sign = ['-']) (nonempty : ds ≠ [])
      (digits : ∀ c ∈ ds, c.isDigit) : Exponent (mark :: (sign ++ ds))

inductive Numeral : List Char → Prop
  | parts {sign whole fraction exponent : List Char} (hsign : sign = [] ∨ sign = ['-'])
      (hwhole : Whole whole) (hfraction : Fraction fraction) (hexponent : Exponent exponent) :
      Numeral (sign ++ whole ++ fraction ++ exponent)

/-- The characters that a numeral is made of. -/
def isPart (c : Char) : Bool := Number.continues c || c = '-' || c = '+'

theorem isPart_of_isDigit {c : Char} (h : c.isDigit) : isPart c := by
  simp [isPart, Number.continues, h]

theorem Whole.isPart {cs : List Char} (h : Whole cs) : ∀ c ∈ cs, isPart c := by
  cases h with
  | zero => exact List.forall_mem_singleton.mpr rfl
  | positive first _ digits =>
    exact List.forall_mem_cons.mpr
      ⟨isPart_of_isDigit first, fun c hc => isPart_of_isDigit (digits c hc)⟩

theorem Fraction.isPart {cs : List Char} (h : Fraction cs) : ∀ c ∈ cs, isPart c := by
  cases h with
  | absent => simp
  | digits _ digits =>
    exact List.forall_mem_cons.mpr ⟨rfl, fun c hc => isPart_of_isDigit (digits c hc)⟩

theorem Exponent.isPart {cs : List Char} (h : Exponent cs) : ∀ c ∈ cs, isPart c := by
  cases h with
  | absent => simp
  | @digits mark sign ds hmark hsign _ digits =>
    have hparts : ∀ c ∈ sign, Json.isPart c := by
      rcases hsign with rfl | rfl | rfl <;> simp [Json.isPart]
    refine List.forall_mem_cons.mpr ⟨by rcases hmark with rfl | rfl <;> rfl, ?_⟩
    exact List.forall_mem_append.mpr ⟨hparts, fun c hc => isPart_of_isDigit (digits c hc)⟩

namespace Numeral

theorem isPart {cs : List Char} (h : Numeral cs) : ∀ c ∈ cs, isPart c := by
  obtain ⟨hsign, hwhole, hfraction, hexponent⟩ := h
  simp only [List.forall_mem_append]
  refine ⟨⟨⟨?_, hwhole.isPart⟩, hfraction.isPart⟩, hexponent.isPart⟩
  rcases hsign with rfl | rfl <;> simp [Json.isPart]

theorem eq_cons {cs : List Char} (h : Numeral cs) :
    ∃ c rest, cs = c :: rest ∧ (c = '-' ∨ c.isDigit) := by
  obtain ⟨hsign, hwhole, -, -⟩ := h
  rcases hsign with rfl | rfl
  · cases hwhole with
    | zero => exact ⟨_, _, rfl, .inr rfl⟩
    | positive first _ _ => exact ⟨_, _, rfl, .inr first⟩
  · exact ⟨_, _, rfl, .inl rfl⟩

/-- The digits of a number, with or without a sign. -/
theorem of_toDigits (sign : List Char) (hsign : sign = [] ∨ sign = ['-']) (n : Nat) :
    Numeral (sign ++ Nat.toDigits 10 n) := by
  have hwhole : Whole (Nat.toDigits 10 n) := by
    obtain ⟨d, ds, hds, hd⟩ := Number.toDigits_eq_cons n
    by_cases hzero : d = '0'
    · obtain rfl : n = 0 := Number.toDigits_head n (by simp [hds, hzero])
      exact .zero
    · have hdigits : ∀ c ∈ d :: ds, c.isDigit := fun c hc =>
        Nat.isDigit_of_mem_toDigits (by decide) (by decide) (hds ▸ hc)
      rw [hds]
      exact .positive hd hzero fun c hc => hdigits c (List.mem_cons_of_mem _ hc)
  simpa using Numeral.parts hsign hwhole .absent .absent

theorem toString (i : Int) : Numeral (toString i).toList := by
  rw [Int.toString_eq_repr, Int.repr_eq_if]
  split
  · rw [Nat.toList_repr]
    exact of_toDigits [] (.inl rfl) i.toNat
  · rw [String.toList_append, Nat.toList_repr]
    exact of_toDigits ['-'] (.inr rfl) (-i).toNat

end Numeral

-- -----------------------------------------------------------------------------
-- Lexemes
-- -----------------------------------------------------------------------------

/-- A token that is no number, or a numeral. -/
inductive Lexeme
  | token (t : Token)
  | numeral (cs : List Char)

namespace Lexeme

inductive Spells : Lexeme → List Char → Prop
  | token {t : Token} {cs : List Char} (spelling : t.Spells cs) (other : t.isNumber = false) :
      Spells (token t) cs
  | numeral {cs : List Char} (h : Numeral cs) : Spells (numeral cs) cs

/-- Whether the lexeme may stand behind a numeral. -/
def closes : Lexeme → Bool
  | token t => t.closes
  | numeral _ => false

/-- The lexeme of a token. Of numbers, only integers have one. -/
def ofToken : Token → Lexeme
  | .number (.int i) => numeral (toString i).toList
  | t => token t

theorem spells_ofToken {t : Token} {cs : List Char} (h : t.Spells cs) : (ofToken t).Spells cs := by
  cases h with
  | int i => exact .numeral (.toString i)
  | openMap | closeMap | openList | closeList | colon | comma | null | yes | no =>
    exact .token (by constructor) rfl
  | text h => exact .token (.text h) rfl

/-- A lexeme begins with a character that is not blank. -/
theorem Spells.eq_cons {l : Lexeme} {cs : List Char} (h : l.Spells cs) :
    ∃ c rest, cs = c :: rest ∧ Token.isBlank c = false := by
  cases h with
  | token spelling other =>
    obtain ⟨c, rest, rfl, hc, -⟩ :=
      Token.read_other cs.length spelling other (Nat.le_succ _) []
    exact ⟨c, rest, rfl, hc⟩
  | numeral h =>
    obtain ⟨c, rest, rfl, hc⟩ := h.eq_cons
    exact ⟨c, rest, rfl, Token.isBlank_of_number hc⟩

/-- No numeral begins as another token does. -/
theorem not_numeral {t : Token} {cs as rest bs : List Char} (spelling : t.Spells as)
    (other : t.isNumber = false) (hcs : Numeral cs) : as ++ rest ≠ cs ++ bs := by
  intro heq
  obtain ⟨c, as', rfl, -, hread⟩ :=
    Token.read_other as.length spelling other (Nat.le_succ _) rest
  obtain ⟨d, cs', rfl, hd⟩ := hcs.eq_cons
  obtain ⟨rfl, -⟩ := List.cons.inj heq
  rw [Token.read_number hd] at hread
  cases hnumber : Number.read (c :: (as' ++ rest)) with
  | error f =>
    obtain ⟨rfl, -⟩ := Prod.mk.inj (hread.symm.trans (by rw [hnumber, Token.ofNumber]))
    cases spelling
  | ok r =>
    obtain ⟨rfl, -⟩ := Prod.mk.inj (hread.symm.trans (by rw [hnumber, Token.ofNumber]))
    cases other

/-- A numeral ends where no part of one follows. -/
theorem takeWhile_numeral {cs rest : List Char} (h : Numeral cs)
    (hrest : ∀ c ∈ rest.head?, isPart c = false) : (cs ++ rest).takeWhile isPart = cs := by
  rw [List.takeWhile_append_of_pos h.isPart]
  cases rest with
  | nil => simp
  | cons c rest => simp [hrest c rfl]

/-- The lexeme at the front of a text is told by the text. -/
theorem Spells.unique {l l' : Lexeme} {as as' rest rest' : List Char} (h : l.Spells as)
    (h' : l'.Spells as') (heq : as ++ rest = as' ++ rest')
    (hrest : ∀ cs, l = .numeral cs → ∀ c ∈ rest.head?, isPart c = false)
    (hrest' : ∀ cs, l' = .numeral cs → ∀ c ∈ rest'.head?, isPart c = false) :
    l = l' ∧ rest = rest' := by
  cases h with
  | token spelling other =>
    cases h' with
    | token spelling' other' =>
      have hfuel : as.length ≤ as.length + as'.length + 1 := by omega
      have hfuel' : as'.length ≤ as.length + as'.length + 1 := by omega
      obtain ⟨c, cs, hcs, -, hread⟩ := Token.read_other _ spelling other hfuel rest
      obtain ⟨c', cs', hcs', -, hread'⟩ := Token.read_other _ spelling' other' hfuel' rest'
      rw [hcs, hcs', List.cons_append, List.cons_append] at heq
      obtain ⟨rfl, htail⟩ := List.cons.inj heq
      rw [htail, hread'] at hread
      obtain ⟨rfl, rfl⟩ := Prod.mk.inj hread
      exact ⟨rfl, rfl⟩
    | numeral hnumeral => exact absurd heq (not_numeral spelling other hnumeral)
  | numeral hnumeral =>
    cases h' with
    | token spelling' other' => exact absurd heq.symm (not_numeral spelling' other' hnumeral)
    | numeral hnumeral' =>
      have hsame : as = as' := by
        rw [← takeWhile_numeral hnumeral (hrest _ rfl), heq,
          takeWhile_numeral hnumeral' (hrest' _ rfl)]
      subst hsame
      exact ⟨rfl, List.append_cancel_left heq⟩

end Lexeme

-- -----------------------------------------------------------------------------
-- Texts
-- -----------------------------------------------------------------------------

/-- Spelled lexemes with blanks before, between and after them. -/
inductive Spelt : List Lexeme → List Char → Prop
  | done {gap : List Char} (blank : ∀ c ∈ gap, Token.isBlank c) : Spelt [] gap
  | lexeme {l : Lexeme} {ls : List Lexeme} {gap spelling rest : List Char}
      (blank : ∀ c ∈ gap, Token.isBlank c) (head : l.Spells spelling) (tail : Spelt ls rest) :
      Spelt (l :: ls) (gap ++ spelling ++ rest)

theorem Spaced.spelt {ts : List Token} {cs : List Char} (h : Spaced ts cs) :
    Spelt (ts.map Lexeme.ofToken) cs := by
  induction h with
  | done blank => exact .done blank
  | token blank spelling _ ih => exact .lexeme blank (Lexeme.spells_ofToken spelling) ih

/-- Whether every numeral is closed by what follows. -/
def Closed : List Lexeme → Prop
  | [] => True
  | .numeral _ :: ls => (∀ l ∈ ls.head?, l.closes) ∧ Closed ls
  | _ :: ls => Closed ls

theorem Closed.tail {l : Lexeme} {ls : List Lexeme} (h : Closed (l :: ls)) : Closed ls := by
  cases l with
  | token t => exact h
  | numeral cs => exact h.2

theorem isPart_of_isBlank {c : Char} (h : Token.isBlank c) : isPart c = false := by
  simp only [Token.isBlank, Bool.or_eq_true, decide_eq_true_eq] at h
  rcases h with ((rfl | rfl) | rfl) | rfl <;> rfl

namespace Spelt

/-- Blanks and what closes a numeral are no part of one. -/
theorem not_isPart {ls : List Lexeme} {cs : List Char} (h : Spelt ls cs)
    (hls : ∀ l ∈ ls.head?, l.closes) : ∀ c ∈ cs.head?, isPart c = false := by
  intro c hc
  cases h with
  | done blank => exact isPart_of_isBlank (blank c (List.mem_of_mem_head? hc))
  | @lexeme l _ gap _ _ blank head _ =>
    cases gap with
    | cons g _ =>
      obtain rfl : g = c := Option.some.inj hc
      exact isPart_of_isBlank (blank g List.mem_cons_self)
    | nil =>
      have hl : l.closes := hls l rfl
      cases head with
      | numeral => cases hl
      | token spelling _ =>
        cases spelling with
        | closeMap | closeList | comma =>
          obtain rfl := Option.some.inj hc
          rfl
        | _ => cases hl

theorem dropWhile_gap {gap spelling : List Char} {l : Lexeme}
    (blank : ∀ c ∈ gap, Token.isBlank c) (h : l.Spells spelling) (rest : List Char) :
    (gap ++ spelling ++ rest).dropWhile Token.isBlank = spelling ++ rest := by
  obtain ⟨c, cs, rfl, hc⟩ := h.eq_cons
  rw [List.append_assoc, List.dropWhile_append_of_pos blank]
  simp [hc]

/-- A text is cut into closed lexemes in one way only. -/
theorem unique {ls ls' : List Lexeme} {cs : List Char} (h : Spelt ls cs) (h' : Spelt ls' cs)
    (hclosed : Closed ls) (hclosed' : Closed ls') : ls = ls' := by
  induction h generalizing ls' with
  | @done gap blank =>
    have hdrop : gap.dropWhile Token.isBlank = [] := List.dropWhile_eq_nil_iff.mpr blank
    cases h' with
    | done => rfl
    | lexeme blank' head' _ =>
      obtain ⟨c, cs, rfl, -⟩ := head'.eq_cons
      rw [dropWhile_gap blank' head'] at hdrop
      cases hdrop
  | @lexeme l ls gap spelling rest blank head tail ih =>
    have hdrop := dropWhile_gap blank head rest
    generalize hcs : gap ++ spelling ++ rest = cs at h' hdrop
    cases h' with
    | done blank' =>
      rw [List.dropWhile_eq_nil_iff.mpr blank'] at hdrop
      obtain ⟨c, cs, rfl, -⟩ := head.eq_cons
      cases hdrop
    | @lexeme l' ls' gap' spelling' rest' blank' head' tail' =>
      rw [dropWhile_gap blank' head'] at hdrop
      obtain ⟨rfl, rfl⟩ := head.unique head' hdrop.symm
        (fun cs hl => tail.not_isPart (by subst hl; exact hclosed.1))
        (fun cs hl => tail'.not_isPart (by subst hl; exact hclosed'.1))
      rw [ih tail' hclosed.tail hclosed'.tail]

end Spelt

-- -----------------------------------------------------------------------------
-- Values
-- -----------------------------------------------------------------------------

/-- What a well-formed text holds. -/
inductive Value
  | null
  | flag (b : Bool)
  | number (numeral : List Char)
  | text (s : String)
  | list (items : List Value)
  | map (entries : List (String × Value))

namespace Value

def separator (first : Bool) : List Lexeme := if first then [] else [.token .comma]

mutual

def lexemes : Value → List Lexeme
  | null => [.token .null]
  | flag b => [.token (.flag b)]
  | number numeral => [.numeral numeral]
  | text s => [.token (.text s)]
  | list vs => .token .openList :: itemLexemes true vs
  | map es => .token .openMap :: entryLexemes true es

/-- Elements and the end of their list. -/
def itemLexemes (first : Bool) : List Value → List Lexeme
  | [] => [.token .closeList]
  | v :: vs => separator first ++ (v.lexemes ++ itemLexemes false vs)

/-- Entries and the end of their map. -/
def entryLexemes (first : Bool) : List (String × Value) → List Lexeme
  | [] => [.token .closeMap]
  | (key, v) :: es =>
    separator first ++
      (.token (.text key) :: .token .colon :: (v.lexemes ++ entryLexemes false es))

end

/-- The text is well formed and holds the value, and nothing after it. -/
def Spells (v : Value) (s : String) : Prop := Spelt v.lexemes s.toList

theorem lexemes_eq_cons (v : Value) : ∃ l ls, v.lexemes = l :: ls ∧ l ≠ .token .closeList := by
  cases v <;> exact ⟨_, _, rfl, by simp⟩

-- A numeral is the last lexeme of its value, so it is what follows the value
-- that has to close it.

/-- Whether numerals end before the lexemes, which are closed themselves. -/
def Follows (ls : List Lexeme) : Prop := (∀ l ∈ ls.head?, l.closes) ∧ Closed ls

theorem closed_separator {first : Bool} {ls : List Lexeme} (h : Closed ls) :
    Closed (separator first ++ ls) := by
  cases first <;> exact h

theorem follows_itemLexemes {vs : List Value} {rest : List Lexeme}
    (h : Closed (itemLexemes false vs ++ rest)) : Follows (itemLexemes false vs ++ rest) := by
  refine ⟨?_, h⟩
  cases vs <;> simp [itemLexemes, separator, Lexeme.closes, Token.closes]

theorem follows_entryLexemes {es : List (String × Value)} {rest : List Lexeme}
    (h : Closed (entryLexemes false es ++ rest)) : Follows (entryLexemes false es ++ rest) := by
  refine ⟨?_, h⟩
  cases es <;> simp [entryLexemes, separator, Lexeme.closes, Token.closes]

mutual

theorem closed_lexemes : ∀ (v : Value) {rest : List Lexeme}, Follows rest →
    Closed (v.lexemes ++ rest)
  | null, _, h | flag _, _, h | text _, _, h => h.2
  | number _, _, h => h
  | list vs, _, h => closed_itemLexemes vs true h.2
  | map es, _, h => closed_entryLexemes es true h.2

theorem closed_itemLexemes : ∀ (vs : List Value) (first : Bool) {rest : List Lexeme},
    Closed rest → Closed (itemLexemes first vs ++ rest)
  | [], _, _, h => h
  | v :: vs, first, rest, h => by
    have htail := follows_itemLexemes (closed_itemLexemes vs false h)
    simp only [itemLexemes, List.append_assoc]
    exact closed_separator (closed_lexemes v htail)

theorem closed_entryLexemes : ∀ (es : List (String × Value)) (first : Bool)
    {rest : List Lexeme}, Closed rest → Closed (entryLexemes first es ++ rest)
  | [], _, _, h => h
  | (key, v) :: es, first, rest, h => by
    have htail := follows_entryLexemes (closed_entryLexemes es false h)
    simp only [entryLexemes, List.append_assoc, List.cons_append]
    exact closed_separator (closed_lexemes v htail)

end

mutual

/-- Lexemes begin with those of one value only. -/
theorem lexemes_inj : ∀ {v w : Value} {rest rest' : List Lexeme},
    v.lexemes ++ rest = w.lexemes ++ rest' → v = w ∧ rest = rest'
  | null, w, _, _, h => by cases w <;> simp_all [lexemes]
  | flag _, w, _, _, h => by cases w <;> simp_all [lexemes]
  | number _, w, _, _, h => by cases w <;> simp_all [lexemes]
  | text _, w, _, _, h => by cases w <;> simp_all [lexemes]
  | list vs, w, _, _, h => by
    cases w with
    | list ws =>
      obtain ⟨rfl, hrest⟩ := itemLexemes_inj (List.cons.inj h).2
      exact ⟨rfl, hrest⟩
    | _ => simp [lexemes] at h
  | map es, w, _, _, h => by
    cases w with
    | map es' =>
      obtain ⟨rfl, hrest⟩ := entryLexemes_inj (List.cons.inj h).2
      exact ⟨rfl, hrest⟩
    | _ => simp [lexemes] at h

theorem itemLexemes_inj : ∀ {first : Bool} {vs ws : List Value} {rest rest' : List Lexeme},
    itemLexemes first vs ++ rest = itemLexemes first ws ++ rest' → vs = ws ∧ rest = rest'
  | _, [], [], _, _, h => ⟨rfl, (List.cons.inj h).2⟩
  | first, [], w :: ws, _, _, h => by
    obtain ⟨l, ls, hl, hne⟩ := w.lexemes_eq_cons
    cases first <;> simp_all [itemLexemes, separator]
  | first, v :: vs, [], _, _, h => by
    obtain ⟨l, ls, hl, hne⟩ := v.lexemes_eq_cons
    cases first <;> simp_all [itemLexemes, separator]
  | first, v :: vs, w :: ws, _, _, h => by
    simp only [itemLexemes, List.append_assoc] at h
    obtain ⟨rfl, htail⟩ := lexemes_inj (List.append_cancel_left h)
    obtain ⟨rfl, hrest⟩ := itemLexemes_inj htail
    exact ⟨rfl, hrest⟩

theorem entryLexemes_inj : ∀ {first : Bool} {es es' : List (String × Value)}
    {rest rest' : List Lexeme},
    entryLexemes first es ++ rest = entryLexemes first es' ++ rest' → es = es' ∧ rest = rest'
  | _, [], [], _, _, h => ⟨rfl, (List.cons.inj h).2⟩
  | first, [], _ :: _, _, _, h => by
    cases first <;> simp [entryLexemes, separator] at h
  | first, _ :: _, [], _, _, h => by
    cases first <;> simp [entryLexemes, separator] at h
  | first, (key, v) :: es, (key', v') :: es', _, _, h => by
    simp only [entryLexemes, List.append_assoc, List.cons_append] at h
    obtain ⟨hkey, hvalue⟩ := List.cons.inj (List.append_cancel_left h)
    obtain ⟨rfl, htail⟩ := lexemes_inj (List.cons.inj hvalue).2
    obtain ⟨rfl, hrest⟩ := entryLexemes_inj htail
    obtain rfl : key = key' := by simpa using hkey
    exact ⟨rfl, hrest⟩

end

/-- A text holds one value at most. -/
theorem Spells.unique {v w : Value} {s : String} (hv : v.Spells s) (hw : w.Spells s) : v = w := by
  have hend : Follows [] := ⟨by simp, trivial⟩
  have hclosed (u : Value) : Closed u.lexemes := by
    simpa using u.closed_lexemes hend
  have hlexemes : v.lexemes ++ [] = w.lexemes ++ [] :=
    congrArg (· ++ []) (Spelt.unique hv hw (hclosed v) (hclosed w))
  exact (lexemes_inj hlexemes).1

-- -----------------------------------------------------------------------------
-- Data as values
-- -----------------------------------------------------------------------------

mutual

/-- A datum as a value, in which integers have no fraction and no exponent. -/
def ofDatum : Datum → Value
  | .null => null
  | .flag b => flag b
  | .int i => number (toString i).toList
  | .text s => text s
  | .list ds => list (ofItems ds)
  | .record ms => map (ofMembers ms)

def ofItems : List Datum → List Value
  | [] => []
  | d :: ds => ofDatum d :: ofItems ds

def ofMembers : List (String × Datum) → List (String × Value)
  | [] => []
  | (name, d) :: ms => (name, ofDatum d) :: ofMembers ms

end

theorem map_separator (first : Bool) :
    (Json.separator first).map Lexeme.ofToken = separator first := by
  cases first <;> rfl

mutual

theorem map_tokens : ∀ d : Datum, (tokens d).map Lexeme.ofToken = (ofDatum d).lexemes
  | .null | .flag _ | .int _ | .text _ => rfl
  | .list ds => congrArg _ (map_itemTokens true ds)
  | .record ms => congrArg _ (map_memberTokens true ms)

theorem map_itemTokens (first : Bool) : ∀ ds : List Datum,
    (itemTokens first ds).map Lexeme.ofToken = itemLexemes first (ofItems ds)
  | [] => rfl
  | d :: ds => by
    simp only [itemTokens, List.map_append, map_separator, map_tokens d,
      map_itemTokens false ds, ofItems, itemLexemes]

theorem map_memberTokens (first : Bool) : ∀ ms : List (String × Datum),
    (memberTokens first ms).map Lexeme.ofToken = entryLexemes first (ofMembers ms)
  | [] => rfl
  | (name, d) :: ms => by
    simp only [memberTokens, List.map_append, List.map_cons, map_separator, map_tokens d,
      map_memberTokens false ms, ofMembers, entryLexemes, Lexeme.ofToken]

end

/-- A text that spells out the tokens of a datum holds the datum. -/
theorem spells_ofDatum {d : Datum} {s : String} (h : Spaced (tokens d) s.toList) :
    (ofDatum d).Spells s := by
  rw [Spells, ← map_tokens]
  exact h.spelt

end Value

end SignalGuard.Json
