import SignalGuard.Proofs.JsonJoining
import SignalGuard.Proofs.JsonSubstitution
import SignalGuard.Proofs.ScriptEvents

/-!
# Names and numbers in scripts

Where a line refers to its signal by a name, the number of the signal can stand
instead. Both lines then have one event or one fault, also if the fault is of
another kind and lies before or behind the place.
-/

namespace SignalGuard

namespace ScriptLine

open Json Json.Reader

/-- A name of a signal and its number. -/
def substitution (name : String) (id : SignalId) : Substitution := ⟨"signal", name, id.raw.toNat⟩

variable {name : String} {id : SignalId}

/-- The readers of the fields. -/
def members (limit : Nat) : List Member :=
  [⟨"t_us", none, integer .u64⟩, ⟨"signal", none, reference limit "SignalRef"⟩,
    ⟨"value", none, integer .i32⟩,
    ⟨"status", some SignalStatus.ok.toDatum, choice (SignalStatus.all.map SignalStatus.spelling)⟩]

theorem ofShape_shape (limit : Nat) :
    ofShape limit shape = record limit "ScriptLine" (members limit) := rfl

theorem takesBoth_signal (limit : Nat) :
    TakesBoth (substitution name id) (reference limit "SignalRef") := by
  refine takesBoth_reference limit _ ?_
  have hlt := id.raw.toNat_lt
  have hle : (id.raw.toNat : Int) ≤ 255 := by omega
  simp [substitution, IntRange.contains, IntRange.u8, hle]

theorem forall_members {limit : Nat} {P : Member → Prop} (time : P ⟨"t_us", none, integer .u64⟩)
    (signal : P ⟨"signal", none, reference limit "SignalRef"⟩)
    (value : P ⟨"value", none, integer .i32⟩)
    (status : P ⟨"status", some SignalStatus.ok.toDatum,
      choice (SignalStatus.all.map SignalStatus.spelling)⟩) :
    ∀ m ∈ members limit, P m := by
  simp [members, time, signal, value, status]

theorem tolerant_members (limit : Nat) :
    Tolerant (substitution name id) (members limit) where
  uniform :=
    forall_members (ofOne_integer _).uniform (uniform_reference _ _) (ofOne_integer _).uniform
      (uniform_choice (show "signal" ∉ SignalStatus.all.map SignalStatus.spelling by decide))
  takesBoth := by
    have hother {key : String} (hkey : key ≠ "signal") (read : Reader Datum)
        (h : key = (substitution name id).key) : TakesBoth (substitution name id) read :=
      absurd h hkey
    exact forall_members (hother (by decide) _) (fun _ => takesBoth_signal limit)
      (hother (by decide) _) (hother (by decide) _)

/-- The tokens that stand before the signal: its key, or the bracket and the time of a
list. -/
inductive Opening : List Token → Prop
  | keyed (ts : List Token) : Opening (ts ++ [.text "signal", .colon])
  | listed (time : Token) : Opening [.openList, time, .comma]

namespace Opening

variable {opening : List Token}

theorem two_le_length (h : Opening opening) : 2 ≤ opening.length := by
  cases h <;> simp

/-- The last token ends by itself. -/
theorem last (h : Opening opening) :
    ∀ t ∈ opening.getLast?, t.plain ∧ t.isNumber = false := by
  cases h with
  | keyed ts => simp [Token.plain, Token.isNumber]
  | listed time => simp [Token.plain, Token.isNumber]

end Opening

theorem shape_agree {opening : List Token} (h : Opening opening) (limit : Nat) (rest : List Token) :
    Agree (substitution name id) (SameRecord (substitution name id))
      (ofShape limit shape (opening ++ .text name :: rest))
      (ofShape limit shape (opening ++ .number (.int id.raw.toNat) :: rest)) := by
  rw [ofShape_shape]
  cases h with
  | keyed ts =>
    have hplace := Substitution.Ahead.key (σ := substitution name id) rest
    rw [List.append_assoc, List.append_assoc]
    exact record_agree limit "ScriptLine" (tolerant_members limit) (hplace.append ts)
  | listed time =>
    exact record_second_agree limit "ScriptLine" (ofOne_integer _) rfl rfl (takesBoth_signal limit)
      time rest

/-- Lines that are the same but for the way the signal is given. -/
theorem ofDatum_congr {d d' : Datum} (h : SameRecord (substitution name id) d d') :
    (ofDatum d).time = (ofDatum d').time ∧ (ofDatum d).value = (ofDatum d').value ∧
      (ofDatum d).status = (ofDatum d').status ∧
      ((ofDatum d).signal = (ofDatum d').signal ∨
        (ofDatum d).signal = .name name ∧ (ofDatum d').signal = .id id) := by
  obtain ⟨ms, ms', rfl, rfl, hms⟩ := h
  have hother {key : String} (hkey : key ≠ "signal") :
      (Datum.record ms).member key = (Datum.record ms').member key := by
    rcases hms.lookup key with heq | ⟨hsignal, -⟩
    · simp only [Datum.member, heq]
    · exact absurd hsignal hkey
  refine ⟨?_, ?_, ?_, ?_⟩
  · simp only [ofDatum, hother (by decide : "t_us" ≠ "signal")]
  · simp only [ofDatum, hother (by decide : "value" ≠ "signal")]
  · simp only [ofDatum, hother (by decide : "status" ≠ "signal")]
  · rcases hms.lookup "signal" with heq | ⟨-, hname, hid⟩
    · exact .inl (by simp only [ofDatum, Datum.member, heq])
    · refine .inr ⟨?_, ?_⟩
      · simp [ofDatum, Datum.member, hname, SignalReference.ofDatum, substitution]
      · simp [ofDatum, Datum.member, hid, SignalReference.ofDatum, substitution, SignalId.ofDatum,
          Datum.toUInt8, Datum.toInt]

end ScriptLine

-- -----------------------------------------------------------------------------
-- Lines
-- -----------------------------------------------------------------------------

namespace Text

/-- Cuts blank characters off the end. -/
def trimEnd (cs : List Char) : List Char := (cs.reverse.dropWhile isBlank).reverse

theorem trim_eq (cs : List Char) : trim cs = trimEnd (cs.dropWhile isBlank) := rfl

theorem dropWhile_append_cons {c : Char} (hc : isBlank c = false) (cs cs' : List Char) :
    (cs ++ c :: cs').dropWhile isBlank = cs.dropWhile isBlank ++ c :: cs' := by
  rw [List.dropWhile_append]
  split
  · next hcs => simp [List.isEmpty_iff.mp hcs, hc]
  · rfl

/-- Whether nothing is cut off at either end. -/
structure Solid (cs : List Char) : Prop where
  first : ∃ c rest, cs = c :: rest ∧ isBlank c = false
  last : ∃ c front, cs = front ++ [c] ∧ isBlank c = false

/-- What is solid keeps apart what is cut off before and behind it. -/
theorem trim_append {middle : List Char} (h : Solid middle) (before after : List Char) :
    trim (before ++ middle ++ after) = before.dropWhile isBlank ++ middle ++ trimEnd after := by
  obtain ⟨c, rest, hfirst, hc⟩ := h.first
  obtain ⟨d, front, hlast, hd⟩ := h.last
  have hstart : (before ++ middle ++ after).dropWhile isBlank =
      before.dropWhile isBlank ++ middle ++ after := by
    rw [hfirst, List.append_assoc, List.cons_append, dropWhile_append_cons hc, List.append_assoc,
      List.cons_append]
  rw [trim_eq, hstart, hlast, trimEnd, trimEnd]
  simp [dropWhile_append_cons hd]

theorem head?_trimEnd {cs : List Char} {c : Char} (h : c ∈ (trimEnd cs).head?) : c ∈ cs.head? := by
  have hprefix : trimEnd cs <+: cs := by
    have h := List.reverse_prefix.mpr (List.dropWhile_suffix isBlank (l := cs.reverse))
    rwa [List.reverse_reverse] at h
  obtain ⟨rest, hcs⟩ := hprefix
  rw [← hcs, List.head?_append, Option.mem_def.mp h]
  rfl

theorem isBlank_of_isDigit {c : Char} (h : c.isDigit) : isBlank c = false := by
  obtain ⟨hleast, hgreatest⟩ := Char.isDigit_iff_toNat.mp h
  have hzero : '0'.toNat = 48 := rfl
  have hnine : '9'.toNat = 57 := rfl
  simp [isBlank]
  omega

end Text

namespace Script

open Json

def digits (id : SignalId) : List Char := (toString id.raw.toNat).toList

/-- The second line has the number of a signal where the first has its name. What follows must not
go on with the digits, as it would make another number of them. -/
inductive Renamed (names : SignalNames) : List Char → List Char → Prop
  | mk {before spelling after : List Char} {name : String} {id : SignalId}
      (place : ScriptLine.Opening (Token.ofString (String.ofList (before.dropWhile Text.isBlank))))
      (spelled : (Token.text name).Spells spelling) (known : names name = some id)
      (next : ∀ c ∈ after.head?, Number.continues c = false) :
      Renamed names (before ++ spelling ++ after) (before ++ digits id ++ after)

theorem solid_spelling {name : String} {spelling : List Char}
    (h : (Token.text name).Spells spelling) : Text.Solid spelling := by
  cases h with
  | text h => exact ⟨⟨_, _, rfl, by decide⟩, ⟨_, _, (List.cons_append).symm, by decide⟩⟩

theorem solid_digits (id : SignalId) : Text.Solid (digits id) := by
  have hdigits : ∀ c ∈ digits id, c.isDigit := fun c hc => by
    rw [digits, Nat.toString_eq_repr, Nat.toList_repr] at hc
    exact Nat.isDigit_of_mem_toDigits (by decide) (by decide) hc
  have hne : digits id ≠ [] := by
    rw [digits, Nat.toString_eq_repr, Nat.toList_repr]
    exact Nat.toDigits_ne_nil
  constructor
  · obtain ⟨c, rest, hcs⟩ := List.exists_cons_of_ne_nil hne
    exact ⟨c, rest, hcs, Text.isBlank_of_isDigit (hdigits c (by simp [hcs]))⟩
  · obtain ⟨front, c, hcs⟩ := (List.eq_nil_or_concat (digits id)).resolve_left hne
    rw [List.concat_eq_append] at hcs
    exact ⟨c, front, hcs, Text.isBlank_of_isDigit (hdigits c (by simp [hcs]))⟩

/-- A line that gives a signal is not skipped: a hash sign begins no token. -/
theorem isSkipped_of_opening {before : List Char}
    (h : ScriptLine.Opening (Token.ofString (String.ofList before))) (rest : List Char) :
    isSkipped (before ++ rest) = false := by
  rw [Token.ofString_ofList] at h
  cases before with
  | nil => exact absurd h.two_le_length (by decide)
  | cons c tail =>
    have hc : c ≠ '#' := by
      rintro rfl
      have hread : Token.read tail.length '#' tail = (.broken .malformed false, []) := rfl
      rw [Token.ofChars_cons rfl hread (Nat.le_refl _)] at h
      exact absurd h.two_le_length (by decide)
    simp [isSkipped, hc]

theorem ofString_opening {before : List Char}
    (h : ScriptLine.Opening (Token.ofString (String.ofList before))) (rest : List Char) :
    Token.ofString (String.ofList (before ++ rest)) =
      Token.ofString (String.ofList before) ++ Token.ofChars rest := by
  rw [Token.ofString_ofList] at h ⊢
  rw [Token.ofString_ofList]
  exact Token.ofChars_append h.last rest

/-- Lines with the same tokens but for the signal have one event or one fault. -/
theorem readEvent_congr {names : SignalNames} {name : String} {id : SignalId}
    (known : names name = some id) {opening rest : List Token} (place : ScriptLine.Opening opening)
    {cs cs' : List Char} (hcs : Token.ofString (String.ofList cs) = opening ++ .text name :: rest)
    (hcs' : Token.ofString (String.ofList cs') = opening ++ .number (.int id.raw.toNat) :: rest) :
    readEvent names cs = readEvent names cs' := by
  have hlength : (opening ++ .text name :: rest).length =
      (opening ++ .number (.int id.raw.toNat) :: rest).length := by simp
  have hagree := @ScriptLine.shape_agree name id opening place
    (opening ++ .text name :: rest).length rest
  simp only [readEvent, Json.read, hcs, hcs', ← hlength]
  generalize Reader.ofShape _ ScriptLine.shape (opening ++ .text name :: rest) = x,
    Reader.ofShape _ ScriptLine.shape (opening ++ .number (.int id.raw.toNat) :: rest) = y at hagree
  cases hagree with
  | error f => rfl
  | @ok d d' ts ts' hrecord halike =>
    have hnil := halike.nil_iff
    cases ts with
    | cons t ts =>
      cases ts' with
      | nil => simp at hnil
      | cons t' ts' => rfl
    | nil =>
      obtain rfl := hnil.mp rfl
      obtain ⟨htime, hvalue, hstatus, hsignal⟩ := ScriptLine.ofDatum_congr hrecord
      have hresolve : (ScriptLine.ofDatum d).signal.resolve names =
          (ScriptLine.ofDatum d').signal.resolve names := by
        rcases hsignal with heq | ⟨hname, hid⟩
        · rw [heq]
        · rw [hname, hid]
          simp only [SignalReference.resolve, known]
      simp only [htime, hvalue, hstatus, hresolve]

/-- A name and its number have the same result. -/
theorem Renamed.readLine_eq {names : SignalNames} {line line' : List Char}
    (h : Renamed names line line') : readLine names line = readLine names line' := by
  obtain ⟨place, spelled, known, next⟩ := h
  rename_i before spelling after name id
  have hword := id.raw.toNat_lt
  have hnext : ∀ c ∈ (Text.trimEnd after).head?, Number.continues c = false := fun c hc =>
    next c (Text.head?_trimEnd hc)
  have hdigits : digits id = (toString (id.raw.toNat : Int)).toList := rfl
  simp only [readLine, Text.trim_append (solid_spelling spelled),
    Text.trim_append (solid_digits id)]
  simp only [List.append_assoc, isSkipped_of_opening place, Bool.false_eq_true, if_false]
  have hname := ofString_opening place (spelling ++ Text.trimEnd after)
  rw [Token.ofChars_text spelled] at hname
  have hid := ofString_opening place (digits id ++ Text.trimEnd after)
  rw [hdigits, Token.ofChars_int (by omega) (by omega) hnext] at hid
  exact congrArg (Except.map some) (readEvent_congr known place hname hid)

end Script

-- -----------------------------------------------------------------------------
-- Lines that name a signal
-- -----------------------------------------------------------------------------

namespace Json

theorem Legible.of_append {ts us : List Token} (h : Legible (ts ++ us)) : Legible ts := by
  induction ts with
  | nil => trivial
  | cons t ts ih =>
    cases t with
    | number n =>
      cases n with
      | int i =>
        obtain ⟨hword, hclosed, htail⟩ := h
        refine ⟨hword, ?_, ih htail⟩
        cases ts with
        | nil => simp
        | cons u ts => exact hclosed
      | float bits => exact ih h
    | _ => exact ih h

/-- A spaced text can be divided at each of its tokens. -/
theorem Spaced.divide {ts us : List Token} {t : Token} {cs : List Char}
    (h : Spaced (ts ++ t :: us) cs) :
    ∃ before lexeme after, cs = before ++ lexeme ++ after ∧ Spaced ts before ∧ t.Spells lexeme ∧
      Spaced us after := by
  induction ts generalizing cs with
  | nil =>
    cases h with
    | token blank spelling tokens => exact ⟨_, _, _, rfl, .done blank, spelling, tokens⟩
  | cons u ts ih =>
    cases h with
    | token blank spelling tokens =>
      obtain ⟨before, lexeme, after, rfl, hbefore, hlexeme, hafter⟩ := ih tokens
      exact ⟨_, lexeme, after, by simp [List.append_assoc], .token blank spelling hbefore, hlexeme,
        hafter⟩

/-- The tokens around the value of an entry. -/
theorem memberTokens_append (first : Bool) (ms : List (String × Datum)) (key : String) (d : Datum)
    (ms' : List (String × Datum)) :
    ∃ ts, memberTokens first (ms ++ (key, d) :: ms') =
      ts ++ [.text key, .colon] ++ tokens d ++ memberTokens false ms' := by
  induction ms generalizing first with
  | nil => exact ⟨separator first, by simp [memberTokens]⟩
  | cons e ms ih =>
    obtain ⟨ts, hts⟩ := ih false
    exact ⟨separator first ++ (.text e.1 :: .colon :: (tokens e.2 ++ ts)), by
      simp [memberTokens, hts]⟩

end Json

namespace ScriptLine

open Json

/-- The second field is a name only if it is written as one. -/
theorem eq_text {time part full : Datum} {rest : List (String × Datum)} {what name : String}
    (h : Means (.reference what) part full)
    (named : (ofDatum (.record (("t_us", time) :: ("signal", full) :: rest))).signal = .name name) :
    part = .text name := by
  have hsignal : SignalReference.ofDatum full = .name name := named
  cases h with
  | named => exact congrArg Datum.text (SignalReference.name.inj hsignal)
  | numbered within => cases hsignal

theorem opening_of_means {part full : Datum} {name : String} (h : Means shape part full)
    (named : (ofDatum full).signal = .name name) :
    ∃ opening rest, Opening opening ∧ tokens part = opening ++ .text name :: rest ∧
      Closing rest := by
  cases h with
  | @record _ _ written _ known once members =>
    cases members with
    | given _ _ members =>
      cases members with
      | given entry value members =>
        obtain rfl := eq_text value named
        obtain ⟨ms, ms', rfl⟩ := List.append_of_mem entry
        obtain ⟨ts, hts⟩ := memberTokens_append true ms "signal" (.text name) ms'
        refine ⟨.openMap :: ts ++ [.text "signal", .colon], _, .keyed _, ?_,
          (List.append_nil _) ▸ closing_memberTokens ms' []⟩
        simp [tokens, hts]
  | positional members =>
    cases members with
    | given time members =>
      cases members with
      | @given _ _ _ _ _ _ parts _ value members =>
        obtain rfl := eq_text value named
        cases time with
        | @integer _ i within =>
          refine ⟨[.openList, .number (.int i), .comma], _, .listed _, ?_,
            (List.append_nil _) ▸ closing_itemTokens parts []⟩
          simp [tokens, itemTokens, separator]

end ScriptLine

namespace Text

/-- What is cut off is blank. -/
theorem trim_split (cs : List Char) :
    ∃ lead trail, cs = lead ++ trim cs ++ trail ∧ (∀ c ∈ lead, isBlank c) ∧
      (∀ c ∈ trail, isBlank c) ∧ ∀ c ∈ (trim cs).head?, isBlank c = false := by
  have hsplit (cs : List Char) : cs.takeWhile isBlank ++ cs.dropWhile isBlank = cs :=
    List.takeWhile_append_dropWhile
  refine ⟨cs.takeWhile isBlank, ((cs.dropWhile isBlank).reverse.takeWhile isBlank).reverse, ?_,
    fun c hc => List.mem_takeWhile_imp hc, fun c hc => ?_, fun c hc => ?_⟩
  · rw [trim, List.append_assoc, ← List.reverse_append, hsplit, List.reverse_reverse, hsplit]
  · exact List.mem_takeWhile_imp (List.mem_reverse.mp hc)
  · have hhead := List.head?_dropWhile_not isBlank cs
    rw [Option.mem_def.mp (head?_trimEnd hc)] at hhead
    simpa using hhead

theorem not_continues {c : Char} (h : isBlank c) : Json.Number.continues c = false := by
  refine Bool.eq_false_iff.mpr fun hcontinues => ?_
  simp only [Json.Number.continues, Bool.or_eq_true, decide_eq_true_eq] at hcontinues
  rcases hcontinues with ((hdigit | rfl) | rfl) | rfl
  · simp [isBlank_of_isDigit hdigit] at h
  all_goals exact absurd h (by decide)

end Text

namespace Script

open Json

/-- In every line that says an event, the name of a signal can be replaced. -/
theorem exists_renamed {names : SignalNames} {line : List Char} {l : ScriptLine} {name : String}
    {id : SignalId} (said : Says line l) (named : l.signal = .name name)
    (known : names name = some id) : ∃ line', Renamed names line line' := by
  obtain ⟨part, hmeans, hspaced⟩ := said
  rw [← l.ofDatum_toDatum] at named
  obtain ⟨opening, rest, hopening, htokens, hclosing⟩ := ScriptLine.opening_of_means hmeans named
  have hlegible : Legible (tokens part) := by
    simpa using clear_of_means hmeans (by decide) [] (by simp [Closing]) trivial
  rw [htokens] at hspaced hlegible
  obtain ⟨before, spelling, after, hcs, hbefore, hspelling, hafter⟩ := hspaced.divide
  have hplace : Token.ofString (String.ofList before) = opening :=
    Token.ofString_spaced (by rwa [String.toList_ofList]) hlegible.of_append
  obtain ⟨lead, trail, hline, hlead, htrail, hhead⟩ := Text.trim_split line
  have hdrop : (lead ++ before).dropWhile Text.isBlank = before := by
    rw [List.dropWhile_append_of_pos hlead]
    cases before with
    | nil =>
      rw [← hplace] at hopening
      exact absurd hopening.two_le_length (by decide)
    | cons c tail =>
      have hc : Text.isBlank c = false := hhead c (by simp [hcs])
      simp [hc]
  have hnext : ∀ c ∈ (after ++ trail).head?, Number.continues c = false := by
    intro c hc
    cases after with
    | nil => exact Text.not_continues (htrail c (List.mem_of_mem_head? hc))
    | cons d after =>
      obtain rfl := Option.some.inj hc
      exact Token.not_continues hafter hclosing d rfl
  refine ⟨(lead ++ before) ++ digits id ++ (after ++ trail), ?_⟩
  have hname : line = (lead ++ before) ++ spelling ++ (after ++ trail) := by
    rw [hline, hcs]
    simp [List.append_assoc]
  rw [hname]
  exact .mk (by rwa [hdrop, hplace]) hspelling known hnext

end Script

end SignalGuard
