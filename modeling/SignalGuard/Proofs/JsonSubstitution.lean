import Mathlib.Data.List.Forall2
import SignalGuard.Json.Reader

/-!
# A value that is given in another way

Two lists of tokens are alike if they differ at one place at most: behind some
key, one has a text and the other an integer. No reader but that of the value
notices. Each one fails on both with the same fault, or takes the same from both
and leaves lists that are alike again (`Reader.Uniform`). A record then comes out
the same up to the member with the key (`Reader.record_agree`).
-/

namespace SignalGuard.Json

-- -----------------------------------------------------------------------------
-- Lists that are alike
-- -----------------------------------------------------------------------------

/-- A value under a key, once as a text and once as an integer. -/
structure Substitution where
  key : String
  text : String
  int : Int

namespace Substitution

variable {σ : Substitution} {t : Token} {ts ts' : List Token}

/-- The place is still to come, and the key before it as well. -/
inductive Ahead (σ : Substitution) : List Token → List Token → Prop
  | key (rest : List Token) :
      Ahead σ (.text σ.key :: .colon :: .text σ.text :: rest)
        (.text σ.key :: .colon :: .number (.int σ.int) :: rest)
  | cons (t : Token) {ts ts' : List Token} (tail : Ahead σ ts ts') : Ahead σ (t :: ts) (t :: ts')

/-- The place is still to come, or there is no difference (any more). -/
inductive Alike (σ : Substitution) : List Token → List Token → Prop
  | same (ts : List Token) : Alike σ ts ts
  | colon (rest : List Token) :
      Alike σ (.colon :: .text σ.text :: rest) (.colon :: .number (.int σ.int) :: rest)
  | ahead {ts ts' : List Token} (h : Ahead σ ts ts') : Alike σ ts ts'

theorem Ahead.eq_cons (h : Ahead σ ts ts') : ∃ t us us', ts = t :: us ∧ ts' = t :: us' := by
  cases h with
  | key rest => exact ⟨_, _, _, rfl, rfl⟩
  | cons t tail => exact ⟨t, _, _, rfl, rfl⟩

theorem Ahead.append (pre : List Token) (h : Ahead σ ts ts') :
    Ahead σ (pre ++ ts) (pre ++ ts') := by
  induction pre with
  | nil => exact h
  | cons t pre ih => exact .cons t ih

theorem Alike.nil_iff (h : Alike σ ts ts') : ts = [] ↔ ts' = [] := by
  rcases h with _ | _ | h
  · exact Iff.rfl
  · simp
  · cases h <;> simp

/-- The key is what the lists have in common to the last. -/
theorem Ahead.tail_alike (h : Ahead σ (t :: ts) (t :: ts')) : Alike σ ts ts' := by
  cases h with
  | key rest => exact .colon rest
  | cons _ tail => exact .ahead tail

/-- Members that are the same but for the value under the key. -/
def SameButOne (σ : Substitution) : List (String × Datum) → List (String × Datum) → Prop :=
  List.Forall₂ fun e e' => e = e' ∨ e = (σ.key, .text σ.text) ∧ e' = (σ.key, .int σ.int)

theorem SameButOne.refl (ms : List (String × Datum)) : σ.SameButOne ms ms :=
  List.forall₂_same.mpr fun _ _ => .inl rfl

/-- What a member says in both lists. -/
theorem SameButOne.lookup {ms ms' : List (String × Datum)} (h : σ.SameButOne ms ms')
    (name : String) :
    ms.lookup name = ms'.lookup name ∨
      name = σ.key ∧ ms.lookup name = some (.text σ.text) ∧
        ms'.lookup name = some (.int σ.int) := by
  induction h with
  | nil => exact .inl rfl
  | @cons e e' _ _ head _ ih =>
    rcases head with rfl | ⟨rfl, rfl⟩
    · rw [List.lookup_cons, List.lookup_cons]
      split
      · exact .inl rfl
      · exact ih
    · rw [List.lookup_cons, List.lookup_cons]
      split
      · next hname => exact .inr ⟨beq_iff_eq.mp hname, rfl, rfl⟩
      · exact ih

end Substitution

-- -----------------------------------------------------------------------------
-- Readers on lists that are alike
-- -----------------------------------------------------------------------------

namespace Reader

open Substitution

variable {σ : Substitution} {α β : Type} {t : Token} {ts ts' : List Token}

/-- Both fail with one fault, or give related results and leave lists that are
alike. -/
inductive Agree (σ : Substitution) (R : α → β → Prop) :
    Except Fault (α × List Token) → Except Fault (β × List Token) → Prop
  | ok {a : α} {b : β} {ts ts' : List Token} (result : R a b) (rest : Alike σ ts ts') :
      Agree σ R (.ok (a, ts)) (.ok (b, ts'))
  | error (f : Fault) : Agree σ R (.error f) (.error f)

def Uniform (σ : Substitution) (read : Reader α) : Prop :=
  ∀ ⦃ts ts' : List Token⦄, Alike σ ts ts' → Agree σ Eq (read ts) (read ts')

theorem Agree.of_eq {R : α → α → Prop} (hrefl : ∀ a, R a a)
    {x y : Except Fault (α × List Token)} (h : x = y) : Agree σ R x y := by
  subst h
  rcases x with f | ⟨a, ts⟩
  · exact .error f
  · exact .ok (hrefl a) (.same ts)

theorem Agree.bind {α' β' : Type} {R : α → β → Prop} {S : α' → β' → Prop}
    {x : Except Fault (α × List Token)} {y : Except Fault (β × List Token)}
    {f : α × List Token → Except Fault (α' × List Token)}
    {g : β × List Token → Except Fault (β' × List Token)} (h : Agree σ R x y)
    (hf : ∀ a b ts ts', R a b → Alike σ ts ts' → Agree σ S (f (a, ts)) (g (b, ts'))) :
    Agree σ S (x >>= f) (y >>= g) := by
  cases h with
  | ok result rest => exact hf _ _ _ _ result rest
  | error f => exact .error f

theorem Agree.map {α' β' : Type} {R : α → β → Prop} {S : α' → β' → Prop}
    {x : Except Fault (α × List Token)} {y : Except Fault (β × List Token)}
    {f : α → α'} {g : β → β'} (h : Agree σ R x y) (hf : ∀ a b, R a b → S (f a) (g b)) :
    Agree σ S (x.map fun (a, ts) => (f a, ts)) (y.map fun (b, ts) => (g b, ts)) := by
  cases h with
  | ok result rest => exact .ok (hf _ _ result) rest
  | error f => exact .error f

-- -----------------------------------------------------------------------------
-- Readers of one token
-- -----------------------------------------------------------------------------

/-- A reader that goes by the first token and does not take a colon. -/
structure OfOne (read : Reader α) : Prop where
  head : ∀ t, (∃ a, ∀ ts, read (t :: ts) = .ok (a, ts)) ∨ ∃ f, ∀ ts, read (t :: ts) = .error f
  colon : ∃ f, ∀ ts, read (.colon :: ts) = .error f

theorem OfOne.uniform {read : Reader α} (h : OfOne read) : Uniform σ read := by
  intro ts ts' halike
  rcases halike with _ | rest | hahead
  · exact .of_eq (fun _ => rfl) rfl
  · obtain ⟨f, hf⟩ := h.colon
    rw [hf, hf]
    exact .error f
  · obtain ⟨t, us, us', rfl, rfl⟩ := hahead.eq_cons
    rcases h.head t with ⟨a, ha⟩ | ⟨f, hf⟩
    · rw [ha, ha]
      exact .ok rfl hahead.tail_alike
    · rw [hf, hf]
      exact .error f

theorem ofOne_integer (range : IntRange) : OfOne (integer range) where
  head t := by
    cases t with
    | number n =>
      cases n with
      | int i =>
        by_cases hwithin : range.contains i
        · exact .inl ⟨.int i, fun ts => by simp [integer, hwithin]⟩
        · exact .inr ⟨_, fun ts => by simp only [integer, hwithin]; rfl⟩
      | float bits => exact .inr ⟨_, fun ts => rfl⟩
    | _ => exact .inr ⟨_, fun ts => rfl⟩
  colon := ⟨_, fun _ => rfl⟩

theorem ofOne_unit : OfOne unit where
  head t := by
    cases t with
    | null => exact .inl ⟨(), fun _ => rfl⟩
    | number n => cases n <;> exact .inr ⟨_, fun _ => rfl⟩
    | _ => exact .inr ⟨_, fun _ => rfl⟩
  colon := ⟨_, fun _ => rfl⟩

theorem ofOne_skip {token : Token} (h : token ≠ .colon) : OfOne (skip token) where
  head t := by
    by_cases ht : t = token
    · exact .inl ⟨(), fun _ => if_pos ht⟩
    · exact .inr ⟨.malformed, fun _ => if_neg ht⟩
  colon := ⟨.malformed, fun _ => if_neg h.symm⟩

/-- A colon does not lead to the place as long as the key is to come. -/
theorem skip_colon_agree {R : α → β → Prop} {f : Unit × List Token → Except Fault (α × List Token)}
    {g : Unit × List Token → Except Fault (β × List Token)} (h : Ahead σ ts ts')
    (hf : ∀ us us', Ahead σ us us' → Agree σ R (f ((), us)) (g ((), us'))) :
    Agree σ R (skip .colon ts >>= f) (skip .colon ts' >>= g) := by
  cases h with
  | key rest => exact .error .malformed
  | cons t tail =>
    by_cases ht : t = .colon
    · subst ht
      exact hf _ _ tail
    · rw [skip, skip, if_neg ht, if_neg ht]
      exact .error .malformed

theorem uniform_choice {spellings : List String} (h : σ.key ∉ spellings) :
    Uniform σ (choice spellings) := by
  have hkey : variant spellings σ.key = .error (.mismatch (.unknownVariant σ.key spellings)) :=
    if_neg (by simpa using h)
  intro ts ts' halike
  rcases halike with _ | rest | hahead
  · exact .of_eq (fun _ => rfl) rfl
  · exact .error _
  · cases hahead with
    | key rest =>
      simp only [choice, hkey]
      exact .error _
    | @cons t us us' tail =>
      cases t with
      | text s =>
        simp only [choice]
        cases variant spellings s with
        | error f => exact .error f
        | ok d => exact .ok rfl (.ahead tail)
      | openMap =>
        cases tail with
        | key rest =>
          simp only [choice, hkey]
          exact .error _
        | @cons t us us' tail =>
          cases t with
          | text s =>
            simp only [choice]
            cases variant spellings s with
            | error f => exact .error f
            | ok d =>
              refine skip_colon_agree tail fun us us' hus => ?_
              refine (ofOne_unit.uniform (.ahead hus)).bind fun _ _ us us' _ hus => ?_
              refine ((ofOne_skip (by simp)).uniform hus).bind fun _ _ us us' _ hus => ?_
              exact .ok rfl hus
          | number n => cases n <;> exact .error _
          | _ => exact .error _
      | broken f inText => cases inText <;> exact .error _
      | _ => exact .error _

-- -----------------------------------------------------------------------------
-- Readers of lists and maps
-- -----------------------------------------------------------------------------

theorem more_of_ne_comma {close : Token} (h : t ≠ .comma) (ts : List Token) :
    more close false (t :: ts) =
      (skip close (t :: ts)).map fun ((), rest) => (false, rest) := by
  cases t with
  | comma => exact absurd rfl h
  | _ => rfl

theorem uniform_more_first {close : Token} (hcolon : close ≠ .colon)
    (hkey : close ≠ .text σ.key) : Uniform σ (more close true) := by
  intro ts ts' halike
  rcases halike with _ | rest | hahead
  · exact .of_eq (fun _ => rfl) rfl
  · simp only [more, if_true, if_neg hcolon.symm]
    exact .ok rfl (.colon rest)
  · simp only [more, if_true]
    cases hahead with
    | key rest =>
      simp only [if_neg hkey.symm]
      exact .ok rfl (.ahead (.key rest))
    | cons t tail =>
      dsimp only
      split
      · exact .ok rfl (.ahead tail)
      · exact .ok rfl (.ahead (.cons t tail))

/-- What follows a comma is another element, not the closing token. -/
theorem more_comma_agree {close : Token} (hkey : close ≠ .text σ.key) (tail : Ahead σ ts ts') :
    Agree σ Eq (more close false (.comma :: ts)) (more close false (.comma :: ts')) := by
  simp only [more, Bool.false_eq_true, if_false]
  cases tail with
  | key rest =>
    simp only [if_neg hkey.symm]
    exact .ok rfl (.ahead (.key rest))
  | cons t tail =>
    dsimp only
    split
    · exact .error _
    · exact .ok rfl (.ahead (.cons t tail))

theorem uniform_more {close : Token} (hcolon : close ≠ .colon) (hkey : close ≠ .text σ.key)
    (first : Bool) :
    Uniform σ (more close first) := by
  cases first with
  | true => exact uniform_more_first hcolon hkey
  | false =>
    intro ts ts' halike
    rcases halike with _ | rest | hahead
    · exact .of_eq (fun _ => rfl) rfl
    · simp only [more, Bool.false_eq_true, if_false, skip, if_neg hcolon.symm]
      exact .error _
    · cases hahead with
      | key rest =>
        rw [more_of_ne_comma (by simp), more_of_ne_comma (by simp), skip, skip, if_neg hkey.symm,
          if_neg hkey.symm]
        exact .error _
      | @cons t us us' tail =>
        by_cases ht : t = .comma
        · subst ht
          exact more_comma_agree hkey tail
        · rw [more_of_ne_comma ht, more_of_ne_comma ht]
          have hclose := (ofOne_skip hcolon).uniform (σ := σ) (.ahead (.cons t tail))
          exact hclose.map (f := fun _ => false) (g := fun _ => false) fun _ _ _ => rfl

theorem misplaced_eq (h : Alike σ ts ts') : misplaced ts = misplaced ts' := by
  have hnil := h.nil_iff
  cases ts <;> cases ts' <;> simp_all [misplaced]

theorem uniform_items {read : Reader Datum} (hread : Uniform σ read) (fuel : Nat) (first : Bool) :
    Uniform σ (items read fuel first) := by
  induction fuel generalizing first with
  | zero =>
    intro ts ts' h
    rw [items, items, misplaced_eq h]
    exact .error _
  | succ fuel ih =>
    intro ts ts' h
    refine (uniform_more (by simp) (by simp) first h).bind ?_
    rintro again _ us us' rfl hus
    cases again with
    | false => exact .ok rfl hus
    | true =>
      refine (hread hus).bind ?_
      rintro d _ us us' rfl hus
      refine (ih false hus).bind ?_
      rintro ds _ us us' rfl hus
      exact .ok rfl hus

/-- The value is read as it is given. -/
def TakesBoth (σ : Substitution) (read : Reader Datum) : Prop :=
  ∀ rest, read (.text σ.text :: rest) = .ok (.text σ.text, rest) ∧
    read (.number (.int σ.int) :: rest) = .ok (.int σ.int, rest)

theorem uniform_anyEntries {read : Reader Datum} (hread : Uniform σ read) (hboth : TakesBoth σ read)
    (fuel : Nat) (first : Bool) : Uniform σ (anyEntries read fuel first) := by
  induction fuel generalizing first with
  | zero =>
    intro ts ts' h
    rw [anyEntries, anyEntries, misplaced_eq h]
    exact .error _
  | succ fuel ih =>
    intro ts ts' h
    refine (uniform_more (by simp) (by simp) first h).bind ?_
    rintro again _ us us' rfl hus
    cases again with
    | false => exact .ok rfl hus
    | true =>
      rcases hus with _ | rest | hahead
      · exact .of_eq (fun _ => rfl) rfl
      · exact .error _
      · cases hahead with
        | key rest =>
          obtain ⟨htext, hint⟩ := hboth rest
          refine .of_eq (fun _ => rfl) ?_
          simp only [skip, if_true, bind, Except.bind, htext, hint]
        | @cons t us us' tail =>
          cases t with
          | text s =>
            refine skip_colon_agree tail fun us us' hus => ?_
            refine (hread (.ahead hus)).bind ?_
            rintro _ _ us us' - hus
            exact ih false hus
          | broken f inText => cases inText <;> exact .error _
          | _ => exact .error _

theorem takesBoth_anything (limit depth : Nat) : TakesBoth σ (anything limit depth) := by
  intro rest
  constructor <;> simp [anything]

/-- Below the brackets, anything is one token. -/
theorem anything_head (limit depth : Nat) (hlist : t ≠ .openList) (hmap : t ≠ .openMap) :
    (∃ d, ∀ ts, anything limit depth (t :: ts) = .ok (d, ts)) ∨
      ∃ f, ∀ ts, anything limit depth (t :: ts) = .error f := by
  cases t with
  | openList => exact absurd rfl hlist
  | openMap => exact absurd rfl hmap
  | number n =>
    cases n with
    | int i => exact .inl ⟨.int i, fun ts => by simp only [anything]⟩
    | float bits => exact .inl ⟨.null, fun ts => by simp only [anything]⟩
  | text s => exact .inl ⟨.text s, fun ts => by simp only [anything]⟩
  | flag b => exact .inl ⟨.null, fun ts => by simp only [anything]⟩
  | null => exact .inl ⟨.null, fun ts => by simp only [anything]⟩
  | _ => exact .inr ⟨_, fun ts => by simp only [anything]; rfl⟩

theorem uniform_anything (limit depth : Nat) : Uniform σ (anything limit depth) := by
  induction depth with
  | zero =>
    refine (OfOne.mk (fun t => ?_) ⟨_, fun _ => by simp only [anything]; rfl⟩).uniform
    by_cases hlist : t = .openList
    · exact .inr ⟨.malformed, fun _ => by simp only [hlist, anything]⟩
    by_cases hmap : t = .openMap
    · exact .inr ⟨.malformed, fun _ => by simp only [hmap, anything]⟩
    exact anything_head limit 0 hlist hmap
  | succ depth ih =>
    intro ts ts' halike
    rcases halike with _ | rest | hahead
    · exact .of_eq (fun _ => rfl) rfl
    · simp only [anything]
      exact .error _
    · obtain ⟨t, us, us', rfl, rfl⟩ := hahead.eq_cons
      by_cases hlist : t = .openList
      · subst hlist
        simp only [anything]
        exact (uniform_items ih limit true hahead.tail_alike).map
          (f := fun _ => Datum.null) (g := fun _ => Datum.null) fun _ _ _ => rfl
      by_cases hmap : t = .openMap
      · subst hmap
        simp only [anything]
        exact (uniform_anyEntries ih (takesBoth_anything limit depth) limit true
          hahead.tail_alike).map
          (f := fun _ => Datum.null) (g := fun _ => Datum.null) fun _ _ _ => rfl
      rcases anything_head limit (depth + 1) hlist hmap with ⟨d, hd⟩ | ⟨f, hf⟩
      · rw [hd, hd]
        exact .ok rfl hahead.tail_alike
      · rw [hf, hf]
        exact .error f

theorem uniform_reference (limit : Nat) (name : String) : Uniform σ (reference limit name) := by
  intro ts ts' halike
  refine (uniform_anything limit freeDepth halike).bind ?_
  rintro d _ us us' rfl hus
  cases d with
  | text s => exact .ok rfl hus
  | int i =>
    dsimp only
    split
    · exact .ok rfl hus
    · exact .error _
  | _ => exact .error _

-- -----------------------------------------------------------------------------
-- Records
-- -----------------------------------------------------------------------------

theorem takesBoth_reference (limit : Nat) (name : String) (h : IntRange.u8.contains σ.int) :
    TakesBoth σ (reference limit name) := by
  intro rest
  obtain ⟨htext, hint⟩ := takesBoth_anything (σ := σ) limit freeDepth rest
  constructor
  · simp only [reference, htext, bind, Except.bind, pure, Except.pure]
  · simp only [reference, hint, bind, Except.bind, pure, Except.pure, h, if_true]

/-- No member but the one under the key depends on how the value is given. -/
structure Tolerant (σ : Substitution) (members : List Member) : Prop where
  uniform : ∀ m ∈ members, Uniform σ m.read
  takesBoth : ∀ m ∈ members, m.name = σ.key → TakesBoth σ m.read

variable {members : List Member} {seen seen' : Members}

/-- An entry with a key is a duplicate in both lists of members or in neither, so
the lists may only come apart behind the key. -/
theorem entry_text_agree (hseen : σ.SameButOne seen seen') {key : String} {us us' : List Token}
    (hrest : ∀ m ∈ members, m.name = key → Agree σ σ.SameButOne
      (skip .colon us >>= fun p => m.read p.2 >>= fun q => .ok ((key, q.1) :: seen, q.2))
      (skip .colon us' >>= fun p => m.read p.2 >>= fun q => .ok ((key, q.1) :: seen', q.2))) :
    Agree σ σ.SameButOne (entry members seen (.text key :: us))
      (entry members seen' (.text key :: us')) := by
  have hdup : (seen.lookup key).isSome = (seen'.lookup key).isSome := by
    rcases hseen.lookup key with h | ⟨-, h, h'⟩ <;> simp [*]
  simp only [entry]
  cases hfind : members.find? (·.name == key) with
  | none => exact .error _
  | some m =>
    dsimp only
    rw [hdup]
    split
    · exact .error _
    · have hname := List.find?_some hfind
      exact hrest m (List.mem_of_find?_eq_some hfind) (beq_iff_eq.mp hname)

theorem entry_agree (hmembers : Tolerant σ members) (hseen : σ.SameButOne seen seen')
    (halike : Alike σ ts ts') :
    Agree σ σ.SameButOne (entry members seen ts) (entry members seen' ts') := by
  have hcons (key : String) (d : Datum) : σ.SameButOne ((key, d) :: seen) ((key, d) :: seen') :=
    .cons (.inl rfl) hseen
  rcases halike with _ | rest | hahead
  · cases ts with
    | nil => exact .error _
    | cons t us =>
      cases t with
      | text key =>
        refine entry_text_agree hseen fun m hm _ => ?_
        refine (Agree.of_eq (R := Eq) (fun _ => rfl) rfl).bind fun _ _ vs vs' _ hvs => ?_
        refine (hmembers.uniform m hm hvs).bind ?_
        rintro d _ vs vs' rfl hvs
        exact .ok (hcons key d) hvs
      | broken f inText => cases inText <;> exact .error _
      | _ => exact .error _
  · exact .error _
  · cases hahead with
    | key rest =>
      refine entry_text_agree hseen fun m hm hname => ?_
      obtain ⟨htext, hint⟩ := hmembers.takesBoth m hm hname rest
      simp only [skip, if_true, bind, Except.bind, htext, hint]
      exact .ok (.cons (.inr ⟨rfl, rfl⟩) hseen) (.same rest)
    | @cons t us us' tail =>
      cases t with
      | text key =>
        refine entry_text_agree hseen fun m hm _ => ?_
        refine skip_colon_agree tail fun vs vs' hvs => ?_
        refine (hmembers.uniform m hm (.ahead hvs)).bind ?_
        rintro d _ vs vs' rfl hvs
        exact .ok (hcons key d) hvs
      | broken f inText => cases inText <;> exact .error _
      | _ => exact .error _

theorem entries_agree (hmembers : Tolerant σ members) (fuel : Nat) (first : Bool)
    (hseen : σ.SameButOne seen seen') (halike : Alike σ ts ts') :
    Agree σ σ.SameButOne (entries members fuel first seen ts)
      (entries members fuel first seen' ts') := by
  induction fuel generalizing first seen seen' ts ts' with
  | zero =>
    rw [entries, entries, misplaced_eq halike]
    exact .error _
  | succ fuel ih =>
    refine (uniform_more (by simp) (by simp) first halike).bind ?_
    rintro again _ us us' rfl hus
    cases again with
    | false => exact .ok hseen hus
    | true =>
      refine (entry_agree hmembers hseen hus).bind ?_
      intro seen seen' us us' hseen hus
      exact ih false hseen hus

/-- The same fault, or members that are the same but for the one under the key. -/
inductive Completed (σ : Substitution) : Except Fault Members → Except Fault Members → Prop
  | ok {ms ms' : Members} (h : σ.SameButOne ms ms') : Completed σ (.ok ms) (.ok ms')
  | error (f : Fault) : Completed σ (.error f) (.error f)

theorem complete_agree (hseen : σ.SameButOne seen seen') (members : List Member) :
    Completed σ (complete seen members) (complete seen' members) := by
  induction members with
  | nil => exact .ok .nil
  | cons m ms ih =>
    have hcons {d d' : Datum}
        (h : (m.name, d) = (m.name, d') ∨
          (m.name, d) = (σ.key, .text σ.text) ∧ (m.name, d') = (σ.key, .int σ.int)) :
        Completed σ ((complete seen ms).map ((m.name, d) :: ·))
          ((complete seen' ms).map ((m.name, d') :: ·)) := by
      generalize complete seen ms = x, complete seen' ms = y at ih
      cases ih with
      | ok hms => exact .ok (.cons h hms)
      | error f => exact .error f
    simp only [complete]
    rcases hseen.lookup m.name with heq | ⟨hname, htext, hint⟩
    · rw [heq]
      cases (seen'.lookup m.name).orElse fun _ => m.default? with
      | none => exact .error _
      | some d => exact hcons (.inl rfl)
    · rw [htext, hint]
      exact hcons (.inr (by simp [hname]))

theorem positional_done (record : String) (count index : Nat) :
    positional record count index [] =
      fun ts => (skip .closeList ts).map fun ((), rest) => ([], rest) := by
  funext ts
  cases ts with
  | nil => rfl
  | cons t rest =>
    by_cases ht : t = .closeList
    · subst ht; rfl
    · simp only [skip, if_neg ht]
      cases t <;> first | rfl | exact absurd rfl ht

theorem uniform_positional (record : String) (count : Nat)
    (hmembers : ∀ m ∈ members, Uniform σ m.read) (index : Nat) :
    Uniform σ (positional record count index members) := by
  induction members generalizing index with
  | nil =>
    intro ts ts' h
    rw [positional_done]
    exact ((ofOne_skip (by simp)).uniform h).map fun _ _ _ => rfl
  | cons m ms ih =>
    obtain ⟨hm, hms⟩ := List.forall_mem_cons.mp hmembers
    intro ts ts' h
    refine (uniform_more (by simp) (by simp) (index == 0) h).bind ?_
    rintro again _ us us' rfl hus
    cases again with
    | false =>
      dsimp only
      cases remaining record count index (m :: ms) with
      | error f => exact .error f
      | ok ds => exact .ok rfl hus
    | true =>
      refine (hm hus).bind ?_
      rintro d _ us us' rfl hus
      refine (ih hms (index + 1) hus).bind ?_
      rintro ds _ us us' rfl hus
      exact .ok rfl hus

/-- Records with members that are the same but for the one under the key. -/
def SameRecord (σ : Substitution) (d d' : Datum) : Prop :=
  ∃ ms ms', d = .record ms ∧ d' = .record ms' ∧ σ.SameButOne ms ms'

/-- A record behind brackets comes out the same but for the member under the key. -/
theorem record_agree (limit : Nat) (name : String) (hmembers : Tolerant σ members)
    (h : Ahead σ ts ts') :
    Agree σ (SameRecord σ) (record limit name members ts) (record limit name members ts') := by
  cases h with
  | key rest => exact .error _
  | @cons t us us' tail =>
    cases t with
    | openMap =>
      refine (entries_agree hmembers limit true .nil (.ahead tail)).bind ?_
      intro seen seen' us us' hseen hus
      have hcomplete := complete_agree hseen members
      dsimp only
      generalize complete seen members = x, complete seen' members = y at hcomplete
      cases hcomplete with
      | ok hms => exact .ok ⟨_, _, rfl, rfl, hms⟩ hus
      | error f => exact .error f
    | openList =>
      refine (uniform_positional name members.length hmembers.uniform 0 (.ahead tail)).bind ?_
      rintro ds _ us us' rfl hus
      exact .ok ⟨_, _, rfl, rfl, .refl ds⟩ hus
    | number n => cases n <;> exact .error _
    | _ => exact .error _

/-- In a list, the second field stands behind the first comma. -/
theorem record_second_agree (limit : Nat) (name : String) {first second : Member}
    {others : List Member} (hfirst : OfOne first.read) (hdefault : first.default? = none)
    (hname : second.name = σ.key) (hsecond : TakesBoth σ second.read) (t : Token)
    (rest : List Token) :
    Agree σ (SameRecord σ)
      (record limit name (first :: second :: others)
        (.openList :: t :: .comma :: .text σ.text :: rest))
      (record limit name (first :: second :: others)
        (.openList :: t :: .comma :: .number (.int σ.int) :: rest)) := by
  obtain ⟨htext, hint⟩ := hsecond rest
  by_cases hclose : t = .closeList
  · subst hclose
    simp only [record, positional, more, remaining, hdefault, bind, Except.bind, BEq.rfl, if_true]
    exact .error _
  rcases hfirst.head t with ⟨d, hd⟩ | ⟨f, hf⟩
  · simp only [record, positional, more, BEq.rfl, if_true, if_neg hclose, bind, Except.bind, hd]
    simp only [beq_eq_false_iff_ne.mpr (show 0 + 1 ≠ 0 by decide), Bool.false_eq_true, if_false,
      reduceCtorEq, htext, hint]
    cases positional name (first :: second :: others).length (0 + 1 + 1) others rest with
    | error f => exact .error f
    | ok r =>
      have hms : σ.SameButOne ((first.name, d) :: (second.name, .text σ.text) :: r.1)
          ((first.name, d) :: (second.name, .int σ.int) :: r.1) :=
        .cons (.inl rfl) (.cons (.inr (by simp [hname])) (SameButOne.refl r.1))
      exact .ok ⟨_, _, rfl, rfl, hms⟩ (.same r.2)
  · simp only [record, positional, more, BEq.rfl, if_true, if_neg hclose, bind, Except.bind, hf]
    exact .error f

end Reader

end SignalGuard.Json
