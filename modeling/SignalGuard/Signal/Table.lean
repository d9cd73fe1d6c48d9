import SignalGuard.Signal

/-!
# The signal table

A fixed vector of slots addressed by id. `get?` is the view that the laws are
stated in: a write at one id changes what `get?` says there and nowhere else.
-/

namespace SignalGuard

structure SignalTable where
  slots : Vector Signal tableSize
  deriving BEq, DecidableEq, Repr

namespace SignalTable

/-- Every slot untouched. -/
def empty : SignalTable := ⟨Vector.replicate tableSize .zero⟩

def get? (t : SignalTable) (id : SignalId) : Option Signal := t.slots[id.index]?

/-- Changes the slot at `id`; a table without that slot stays as it is. -/
def modify (t : SignalTable) (id : SignalId) (f : Signal → Signal) : SignalTable :=
  if h : id.index < tableSize then ⟨t.slots.set id.index (f t.slots[id.index])⟩ else t

def mapSlots (t : SignalTable) (f : Signal → Signal) : SignalTable := ⟨t.slots.map f⟩

/-- Overwrites a slot with an event; `none` for an id without a slot. The slot
counts as updated when the event brought another value. -/
def applyEvent? (t : SignalTable) (e : Event) : Option SignalTable :=
  (t.get? e.signal).map fun _ => t.modify e.signal fun s =>
    { s with
      value := e.value, status := e.status, timestamp := e.timestamp
      updated := s.value != e.value }

/-- Writes a value with status `ok`, as the host does; `none` for an id without
a slot. -/
def set? (t : SignalTable) (id : SignalId) (value : Int32) (now : Time) : Option SignalTable :=
  (t.get? id).map fun _ => t.modify id fun s =>
    { s with value, status := .ok, timestamp := now, updated := true }

def clearUpdated (t : SignalTable) : SignalTable := t.mapSlots fun s => { s with updated := false }

/-- The slots with their ids, in id order. -/
def toList (t : SignalTable) : List (SignalId × Signal) :=
  t.slots.toList.zipIdx.map fun (s, i) => (⟨UInt8.ofNat i⟩, s)

def updatedIds (t : SignalTable) : List SignalId :=
  (t.toList.filter fun (_, s) => s.updated).map Prod.fst

theorem get?_eq_none_iff {t : SignalTable} {id : SignalId} :
    t.get? id = none ↔ id.isValid = false := by
  simp [get?, SignalId.isValid]

theorem isSome_get? (t : SignalTable) (id : SignalId) : (t.get? id).isSome = id.isValid := by
  rw [Bool.eq_iff_iff, ← Option.ne_none_iff_isSome]
  simp [get?_eq_none_iff]

theorem exists_get? {id : SignalId} (h : id.isValid) (t : SignalTable) :
    ∃ s, t.get? id = some s := by
  rw [← Option.isSome_iff_exists, isSome_get?]
  exact h

theorem get?_modify (t : SignalTable) (id other : SignalId) (f : Signal → Signal) :
    (t.modify id f).get? other = if id = other then (t.get? other).map f else t.get? other := by
  by_cases h : id.index < tableSize
  · have hne : id.index = other.index ↔ id = other :=
      ⟨SignalId.ext_index, congrArg SignalId.index⟩
    simp only [modify, h, get?, ↓reduceDIte, Vector.getElem?_set, hne]
    split
    · next heq => subst heq; simp [h]
    · rfl
  · by_cases he : id = other
    · subst he
      simp [modify, h, get?]
    · simp [modify, h, he]

theorem get?_mapSlots (t : SignalTable) (id : SignalId) (f : Signal → Signal) :
    (t.mapSlots f).get? id = (t.get? id).map f := by
  simp [mapSlots, get?]

theorem ext_get? {t u : SignalTable} (h : ∀ id, t.get? id = u.get? id) : t = u := by
  cases t with
  | mk t =>
    cases u with
    | mk u =>
      congr 1
      ext i hi
      have := h ⟨UInt8.ofNat i⟩
      have hb : i < 2 ^ 8 := Nat.lt_of_lt_of_le hi (by decide)
      simp only [get?, SignalId.index, UInt8.toNat_ofNat_of_lt' hb] at this
      simpa [hi] using this

theorem modify_of_none {t : SignalTable} {id : SignalId} (h : t.get? id = none)
    (f : Signal → Signal) : t.modify id f = t := by
  refine ext_get? fun other => ?_
  rw [get?_modify]
  split
  · next heq => rw [← heq, h, Option.map_none]
  · rfl

theorem modify_id (t : SignalTable) (id : SignalId) : t.modify id (fun s => s) = t := by
  refine ext_get? fun other => ?_
  rw [get?_modify]
  split
  · exact Option.map_id'
  · rfl

end SignalTable

end SignalGuard
