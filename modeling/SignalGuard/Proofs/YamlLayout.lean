import SignalGuard.Proofs.YamlValues

/-!
# The tokens of written data

An entry of a block gives the same tokens wherever the block stands. The entries
of a block follow one another at one column; what an entry holds is a value or
a block further right, whose end shows when a line starts left of it. The items
of a member's list are the one exception: they stand at the column of the key
and have no block of their own.
-/

namespace SignalGuard.Yaml

open Writer (pad)

-- -----------------------------------------------------------------------------
-- Tokens of data
-- -----------------------------------------------------------------------------

open Layout (leafTokens)

mutual

/-- The tokens of an item, or of a whole document. -/
def itemTokens : Datum → List Token
  | .list items =>
    if items.isEmpty then leafTokens (.list items)
    else .blockSequence :: (listTokens items ++ [.blockEnd])
  | .record members =>
    if members.isEmpty then leafTokens (.record members)
    else .blockMapping :: (recordTokens members ++ [.blockEnd])
  | d => leafTokens d

def listTokens : List Datum → List Token
  | [] => []
  | d :: ds => .blockEntry :: (itemTokens d ++ listTokens ds)

/-- The tokens of the value of a member. -/
def memberTokens : Datum → List Token
  | .list items => if items.isEmpty then leafTokens (.list items) else listTokens items
  | .record members =>
    if members.isEmpty then leafTokens (.record members)
    else .blockMapping :: (recordTokens members ++ [.blockEnd])
  | d => leafTokens d

def recordTokens : List (String × Datum) → List Token
  | [] => []
  | (name, d) :: rest =>
    .key :: .scalar .plain name :: .value :: (memberTokens d ++ recordTokens rest)

end

mutual

/-- Whether the names of all members can stand as keys. -/
def Named : Datum → Prop
  | .list items => NamedItems items
  | .record members => NamedMembers members
  | _ => True

def NamedItems : List Datum → Prop
  | [] => True
  | d :: ds => Named d ∧ NamedItems ds

def NamedMembers : List (String × Datum) → Prop
  | [] => True
  | (name, d) :: rest => Layout.IsName name.toList ∧ Named d ∧ NamedMembers rest

end

namespace Layout

variable {l : Layout} {behind : List Char} {c k : Nat} {base : List Nat} {tokens ts : List Token}
  {t : Token}

-- -----------------------------------------------------------------------------
-- Entries
-- -----------------------------------------------------------------------------

/-- The text is one or more entries at a column, in a block that starts with the
token `t`, and has these tokens. -/
structure Scans (t : Token) (c : Nat) (written : List Char) (ts : List Token) : Prop where
  nonempty : written ≠ []
  firm : Firm written
  allowed : ∀ ch ∈ written, isAllowed ch
  scans : ∀ {l : Layout} {behind : List Char} {k : Nat} {columns columns' : List Nat}
    {opened tokens : List Token},
    Stands l (written ++ (pad k ++ behind)) c columns true tokens →
    Opens t c columns columns' opened → Firm behind → k ≤ c →
    ∃ l', Leads l l' ∧ Stands l' behind k columns' true (tokens ++ opened ++ ts)

/-- Entries one after another, each with its tokens. -/
inductive Entries (t : Token) (c : Nat) : List String → List Token → Prop
  | nil : Entries t c [] []
  | cons {e : String} {es : List String} {ts ts' : List Token} (head : Scans t c e.toList ts)
      (tail : Entries t c es ts') : Entries t c (e :: es) (ts ++ ts')

theorem toList_stack (c : Nat) (es : List String) :
    (Writer.stack c es).toList = es.flatMap fun e => pad c ++ e.toList := by
  simp [Writer.stack, List.flatMap_map]

theorem isAllowed_line {written : List Char} (n : Nat) (h : ∀ ch ∈ written, isAllowed ch) :
    ∀ ch ∈ '\n' :: (pad n ++ written), isAllowed ch :=
  List.forall_mem_cons.mpr ⟨rfl, List.forall_mem_append.mpr ⟨isAllowed_pad n, h⟩⟩

theorem Entries.hang {es : List String} (h : Entries t c es ts) (hne : es ≠ []) :
    Scans t c (Writer.hang c es).toList ts := by
  induction h with
  | nil => exact absurd rfl hne
  | @cons e es ts ts' head tail ih =>
    rw [Writer.hang, String.toList_append]
    cases es with
    | nil =>
      cases tail
      simpa [Writer.stack] using head
    | cons e' es =>
      have hrest := ih (by simp)
      have hstack : (Writer.stack c (e' :: es)).toList =
          pad c ++ (Writer.hang c (e' :: es)).toList := by
        simp [Writer.hang, toList_stack]
      have hallowed : ∀ ch ∈ (Writer.stack c (e' :: es)).toList, isAllowed ch := by
        rw [hstack]
        exact List.forall_mem_append.mpr ⟨isAllowed_pad c, hrest.allowed⟩
      refine ⟨by simp [head.nonempty], head.firm.append head.nonempty _,
        List.forall_mem_append.mpr ⟨head.allowed, hallowed⟩, ?_⟩
      intro l behind k columns columns' opened tokens h hopens hbehind hk
      rw [hstack, List.append_assoc, List.append_assoc] at h
      obtain ⟨base, hbase⟩ := hopens.exists_base
      obtain ⟨l₁, hleads₁, h₁⟩ := head.scans h hopens
        (hrest.firm.append hrest.nonempty _) (Nat.le_refl c)
      rw [hbase] at h₁
      obtain ⟨l', hleads, hl'⟩ := hrest.scans h₁ .stay hbehind hk
      refine ⟨l', .trans hleads₁ hleads, ?_⟩
      rw [hbase]
      simpa using hl'

-- -----------------------------------------------------------------------------
-- Behind a dash
-- -----------------------------------------------------------------------------

/-- The text stands behind a dash at the column `c` and has these tokens. -/
structure Follows (c : Nat) (written : List Char) (ts : List Token) : Prop where
  nonempty : written ≠ []
  firm : Firm written
  allowed : ∀ ch ∈ written, isAllowed ch
  follows : ∀ {l : Layout} {behind : List Char} {k : Nat} {base : List Nat} {tokens : List Token},
    Stands l (written ++ (pad k ++ behind)) (c + 2) (c :: base) true tokens → Firm behind →
    k ≤ c → ∃ l', Leads l l' ∧ Stands l' behind k (c :: base) true (tokens ++ ts)

theorem Fills.behind_dash {written : List Char} (h : Fills c written ts) : Follows c written ts :=
  ⟨h.nonempty, h.firm, h.allowed,
    fun hstands hbehind hk => h.fills hstands hbehind hk (by omega)⟩

/-- A block with a column of its own, further right. -/
theorem Scans.nested {written : List Char} (h : Scans t (c + 2) written ts)
    (hstands : Stands l (written ++ (pad k ++ behind)) (c + 2) (c :: base) true tokens)
    (hbehind : Firm behind) (hk : k ≤ c) :
    ∃ l', Leads l l' ∧
      Stands l' behind k (c :: base) true (tokens ++ t :: (ts ++ [.blockEnd])) := by
  obtain ⟨l₁, hleads₁, h₁⟩ := h.scans hstands (.push (by simp)) hbehind (by omega)
  obtain ⟨l', hleads, hl'⟩ := h₁.close hbehind (by omega)
  exact ⟨l', .trans hleads₁ hleads, by simpa using hl'⟩

theorem Scans.behind_dash {written : List Char} (h : Scans t (c + 2) written ts) :
    Follows c written (t :: (ts ++ [.blockEnd])) :=
  ⟨h.nonempty, h.firm, h.allowed, fun hstands hbehind hk => h.nested hstands hbehind hk⟩

theorem Follows.entry {written : List Char} (h : Follows c written ts) :
    Scans .blockSequence c ('-' :: ' ' :: written) (.blockEntry :: ts) := by
  have hallowed : ∀ ch ∈ '-' :: ' ' :: written, isAllowed ch :=
    List.forall_mem_cons.mpr ⟨rfl, List.forall_mem_cons.mpr ⟨rfl, h.allowed⟩⟩
  refine ⟨by simp, Stands.firm_dash _, hallowed, ?_⟩
  intro l behind k columns columns' opened tokens hstands hopens hbehind hk
  obtain ⟨base, rfl⟩ := hopens.exists_base
  obtain ⟨l₁, hleads₁, h₁⟩ := hstands.dash (h.firm.append h.nonempty _) hopens
  obtain ⟨l', hleads, hl'⟩ := h.follows h₁ hbehind hk
  exact ⟨l', .trans hleads₁ hleads, by simpa using hl'⟩

-- -----------------------------------------------------------------------------
-- Behind a colon
-- -----------------------------------------------------------------------------

/-- The text stands behind the colon of a key at the column `c` and has these
tokens. -/
structure Answers (c : Nat) (written : List Char) (ts : List Token) : Prop where
  nonempty : written ≠ []
  parted : isGap written.head?
  allowed : ∀ ch ∈ written, isAllowed ch
  answers : ∀ {l : Layout} {behind : List Char} {k column : Nat} {base : List Nat}
    {tokens : List Token},
    Stands l (written ++ (pad k ++ behind)) column (c :: base) false tokens → Firm behind →
    k ≤ c → c < column → ∃ l', Leads l l' ∧ Stands l' behind k (c :: base) true (tokens ++ ts)

theorem Fills.behind_colon {written : List Char} (h : Fills c written ts) :
    Answers c (' ' :: written) ts := by
  refine ⟨by simp, rfl, List.forall_mem_cons.mpr ⟨rfl, h.allowed⟩, ?_⟩
  intro l behind k column base tokens hstands hbehind hk hc
  have hspace : Stands l (pad 1 ++ (written ++ (pad k ++ behind))) column (c :: base) false
    tokens := hstands
  obtain ⟨l₁, hleads₁, h₁⟩ := hspace.skipSpaces (h.firm.append h.nonempty _)
  obtain ⟨l', hleads, hl'⟩ := h.fills h₁ hbehind hk (by omega)
  exact ⟨l', .trans hleads₁ hleads, hl'⟩

theorem Stands.skipLine {cs : List Char} {column n : Nat} {columns : List Nat} {allowed : Bool}
    (h : Stands l ('\n' :: (pad n ++ cs)) column columns allowed tokens) (hcs : Firm cs) :
    ∃ l', Leads l l' ∧ Stands l' cs n columns true tokens := by
  have hnext := settle_line h.cursor hcs h.outer_eq (by simp [h.key_eq])
  rwa [h.columns_eq, h.tokens_eq] at hnext

theorem Scans.behind_colon {written : List Char} (h : Scans t (c + 2) written ts) :
    Answers c ('\n' :: (pad (c + 2) ++ written)) (t :: (ts ++ [.blockEnd])) := by
  refine ⟨by simp, rfl, isAllowed_line _ h.allowed, ?_⟩
  intro l behind k column base tokens hstands hbehind hk hc
  rw [List.cons_append, List.append_assoc] at hstands
  obtain ⟨l₁, hleads₁, h₁⟩ := hstands.skipLine (h.firm.append h.nonempty _)
  obtain ⟨l', hleads, hl'⟩ := h.nested h₁ hbehind hk
  exact ⟨l', .trans hleads₁ hleads, hl'⟩

/-- Items at the column of the key belong to its block. -/
theorem Scans.indentless {written : List Char} (h : Scans t c written ts) :
    Answers c ('\n' :: (pad c ++ written)) ts := by
  refine ⟨by simp, rfl, isAllowed_line _ h.allowed, ?_⟩
  intro l behind k column base tokens hstands hbehind hk hc
  rw [List.cons_append, List.append_assoc] at hstands
  obtain ⟨l₁, hleads₁, h₁⟩ := hstands.skipLine (h.firm.append h.nonempty _)
  obtain ⟨l', hleads, hl'⟩ := h.scans h₁ .stay hbehind hk
  exact ⟨l', .trans hleads₁ hleads, by simpa using hl'⟩

theorem Answers.entry {name written : List Char} (hname : IsName name)
    (h : Answers c written ts) :
    Scans .blockMapping c (name ++ ':' :: written)
      (.key :: .scalar .plain (String.ofList name) :: .value :: ts) := by
  have hletters : ∀ ch ∈ name, isAllowed ch := fun ch hch =>
    isAllowed_of_printable (Plain.isPrintable_word (hname.word ch hch))
  have hallowed : ∀ ch ∈ name ++ ':' :: written, isAllowed ch :=
    List.forall_mem_append.mpr ⟨hletters, List.forall_mem_cons.mpr ⟨rfl, h.allowed⟩⟩
  refine ⟨by simp, hname.firm.append hname.nonempty _, hallowed, ?_⟩
  intro l behind k columns columns' opened tokens hstands hopens hbehind hk
  obtain ⟨base, rfl⟩ := hopens.exists_base
  rw [List.append_assoc, List.cons_append] at hstands
  have hparted : isGap (written ++ (pad k ++ behind)).head? := by
    obtain ⟨ch, rest, rfl⟩ := List.exists_cons_of_ne_nil h.nonempty
    exact h.parted
  obtain ⟨l₁, hleads₁, h₁⟩ := hstands.key hname hparted hopens
  obtain ⟨l', hleads, hl'⟩ := h.answers h₁ hbehind hk (by omega)
  exact ⟨l', .trans hleads₁ hleads, by simpa using hl'⟩

-- -----------------------------------------------------------------------------
-- Data
-- -----------------------------------------------------------------------------

theorem Answers.leaf (c : Nat) (d : Datum) :
    Answers c (" " ++ Writer.leaf (c + 2) d).toList (leafTokens d) := by
  rw [String.toList_append]
  exact (Fills.leaf c d).behind_colon

theorem listItems_ne_nil {c : Nat} {ds : List Datum} (h : ¬ ds.isEmpty) :
    Writer.listItems c ds ≠ [] := by
  cases ds with
  | nil => exact absurd rfl h
  | cons d ds => simp [Writer.listItems]

theorem recordMembers_ne_nil {c : Nat} {members : List (String × Datum)} (h : ¬ members.isEmpty) :
    Writer.recordMembers c members ≠ [] := by
  cases members with
  | nil => exact absurd rfl h
  | cons m members => simp [Writer.recordMembers]

/-- Entries of a block on lines of their own. -/
theorem toList_stack_eq {c : Nat} {es : List String} (hne : es ≠ []) :
    ("\n" ++ Writer.stack c es).toList = '\n' :: (pad c ++ (Writer.hang c es).toList) := by
  obtain ⟨e, es, rfl⟩ := List.exists_cons_of_ne_nil hne
  simp [Writer.hang, toList_stack]

mutual

theorem Follows.item (c : Nat) : ∀ d, Named d → Follows c (Writer.item c d).toList (itemTokens d)
  | .list items, h => by
    rw [Writer.item, itemTokens]
    split
    · exact (Fills.leaf c (.list items)).behind_dash
    · next hne =>
      have hentries := Entries.items (c + 2) items h
      exact (hentries.hang (listItems_ne_nil hne)).behind_dash
  | .record members, h => by
    rw [Writer.item, itemTokens]
    split
    · exact (Fills.leaf c (.record members)).behind_dash
    · next hne =>
      have hentries := Entries.members (c + 2) members h
      exact (hentries.hang (recordMembers_ne_nil hne)).behind_dash
  | .null, _ => (Fills.leaf c .null).behind_dash
  | .flag b, _ => (Fills.leaf c (.flag b)).behind_dash
  | .int i, _ => (Fills.leaf c (.int i)).behind_dash
  | .text s, _ => (Fills.leaf c (.text s)).behind_dash

theorem Entries.items (c : Nat) :
    ∀ ds, NamedItems ds → Entries .blockSequence c (Writer.listItems c ds) (listTokens ds)
  | [], _ => .nil
  | d :: ds, ⟨hd, hds⟩ => by
    have hentry := (Follows.item c d hd).entry
    have hwritten : ("- " ++ Writer.item c d).toList = '-' :: ' ' :: (Writer.item c d).toList := by
      rw [String.toList_append]
      rfl
    rw [← hwritten] at hentry
    exact .cons hentry (Entries.items c ds hds)

theorem Answers.member (c : Nat) :
    ∀ d, Named d → Answers c (Writer.member c d).toList (memberTokens d)
  | .list items, h => by
    rw [Writer.member, memberTokens]
    split
    · exact .leaf c (.list items)
    · next hne =>
      have hentries := Entries.items c items h
      rw [toList_stack_eq (listItems_ne_nil hne)]
      exact (hentries.hang (listItems_ne_nil hne)).indentless
  | .record members, h => by
    rw [Writer.member, memberTokens]
    split
    · exact .leaf c (.record members)
    · next hne =>
      have hentries := Entries.members (c + 2) members h
      rw [toList_stack_eq (recordMembers_ne_nil hne)]
      exact (hentries.hang (recordMembers_ne_nil hne)).behind_colon
  | .null, _ => .leaf c .null
  | .flag b, _ => .leaf c (.flag b)
  | .int i, _ => .leaf c (.int i)
  | .text s, _ => .leaf c (.text s)

theorem Entries.members (c : Nat) : ∀ members, NamedMembers members →
    Entries .blockMapping c (Writer.recordMembers c members) (recordTokens members)
  | [], _ => .nil
  | (name, d) :: rest, ⟨hname, hd, hrest⟩ => by
    have hentry := (Answers.member c d hd).entry hname
    have hwritten : (name ++ ":" ++ Writer.member c d).toList =
        name.toList ++ ':' :: (Writer.member c d).toList := by
      rw [String.toList_append, String.toList_append, List.append_assoc]
      rfl
    rw [← hwritten, String.ofList_toList] at hentry
    exact .cons hentry (Entries.members c rest hrest)

end

-- -----------------------------------------------------------------------------
-- Whole texts
-- -----------------------------------------------------------------------------

theorem Stands.readAll_end {allowed : Bool} (h : Stands l [] 0 [0] allowed tokens) (fuel : Nat) :
    (readAll fuel l).map (·.toList) = some (tokens ++ [.blockEnd]) := by
  have hadvance := h.advance_self Firm.nil (by simp)
  have hleave : l.leave = some ⟨l.cursor, [], none, [], false, l.tokens.push .blockEnd⟩ := by
    obtain ⟨cursor, columns, key, outer, keyAllowed, ts⟩ := l
    obtain ⟨-, rfl, rfl, rfl, -, -⟩ := h
    simp [leave, closeAll, inFlow, closeWhile, dropKey]
  rw [readAll.eq_def]
  simp [hadvance, h.cursor.rest_eq, hleave, h.tokens_eq]

/-- A text that is one block, from its first line to its last. -/
theorem Scans.ofString {s : String} (h : Scans t 0 s.toList ts) :
    Token.ofString s = some (t :: (ts ++ [.blockEnd])) := by
  have hstart : Stands (.start s) (s.toList ++ (pad 0 ++ [])) 0 [] true [] :=
    ⟨⟨(List.append_nil _).symm, rfl, by simp [start, Cursor.start, pad]⟩, rfl, rfl, rfl, rfl, rfl⟩
  obtain ⟨l', ⟨n, hn, hleads⟩, hl'⟩ := h.scans hstart (.push (by simp)) Firm.nil (Nat.le_refl 0)
  have hsize : (start s).cursor.rest.length = (start s).cursor.size := rfl
  obtain ⟨fuel, hfuel⟩ : ∃ fuel, (start s).cursor.size = n + fuel :=
    ⟨(start s).cursor.size - n, by omega⟩
  have hallowed : (start s).cursor.rest.all isAllowed = true := List.all_eq_true.mpr h.allowed
  simp only [Token.ofString, hallowed, if_true, hfuel, hleads, hl'.readAll_end]
  rfl

end Layout

/-- The tokens of a written record. -/
theorem tokens_write {members : List (String × Datum)} (hne : members ≠ [])
    (h : NamedMembers members) :
    Token.ofString (write (.record members)) = some (itemTokens (.record members)) := by
  have hfull : ¬ members.isEmpty := by simpa using hne
  have hentries := Layout.recordMembers_ne_nil (c := 0) hfull
  have hscans := (Layout.Entries.members 0 members h).hang hentries
  have hwritten : write (.record members) = Writer.hang 0 (Writer.recordMembers 0 members) := by
    obtain ⟨e, es, hes⟩ := List.exists_cons_of_ne_nil hentries
    apply String.toList_inj.mp
    simp [write, hne, hes, Writer.hang, Layout.toList_stack, pad]
  rw [hwritten, hscans.ofString, itemTokens, if_neg hfull]

end SignalGuard.Yaml
