import SignalGuard.Proofs.JsonStrictness
import SignalGuard.Script

/-!
# What a line says

A line of a script says an event if it spells out a datum that means the record
of its time, its signal, its value and its status. That does not refer to the
reader, which is shown to agree: it gives the event of a line that says one, and
a fault of the right kind otherwise.
-/

namespace SignalGuard

open Datum (ofNat)

-- -----------------------------------------------------------------------------
-- Signals
-- -----------------------------------------------------------------------------

/-- The signal that is meant. -/
def SignalReference.Denotes (names : SignalNames) : SignalReference → SignalId → Prop
  | .id i, j => i = j
  | .name n, j => names n = some j

theorem SignalReference.resolve_eq_ok_iff {names : SignalNames} {r : SignalReference}
    {id : SignalId} : r.resolve names = .ok id ↔ r.Denotes names id := by
  cases r with
  | id i => simp [resolve, Denotes]
  | name n =>
    simp only [resolve, Denotes]
    cases names n <;> simp

theorem SignalReference.resolve_eq_error_iff {names : SignalNames} {r : SignalReference}
    {x : LineError} :
    r.resolve names = .error x ↔ ∃ n, r = .name n ∧ names n = none ∧ x = .unknownSignal n := by
  cases r with
  | id i => simp [resolve]
  | name n =>
    simp only [resolve]
    cases hn : names n with
    | some i => simp [hn]
    | none => simp [hn, eq_comm]

-- -----------------------------------------------------------------------------
-- Records of lines
-- -----------------------------------------------------------------------------

@[simp] theorem SignalStatus.ofDatum_toDatum (s : SignalStatus) : ofDatum s.toDatum = s :=
  Datum.toChoice_text (by cases s <;> decide) (by decide)

theorem SignalStatus.toDatum_ofDatum {d : Datum} (h : shape.admits d) :
    (ofDatum d).toDatum = d :=
  Datum.text_toChoice h

namespace SignalReference

/-- A number or a name. -/
def toDatum : SignalReference → Datum
  | .id i => ofNat i.raw.toNat
  | .name n => .text n

@[simp] theorem ofDatum_toDatum (r : SignalReference) : ofDatum r.toDatum = r := by
  cases r with
  | id i => exact congrArg SignalReference.id (SignalId.ofDatum_toDatum i)
  | name n => rfl

theorem toDatum_ofDatum {what : String} {d : Datum} (h : (Shape.reference what).admits d) :
    (ofDatum d).toDatum = d := by
  cases d with
  | int i => exact Datum.ofNat_toUInt8 h
  | text s => rfl
  | _ => cases h

end SignalReference

namespace ScriptLine

/-- The line in full, with its status also where that is `ok`. -/
def toDatum (l : ScriptLine) : Datum := .record [
  ("t_us", ofNat l.time.toNat),
  ("signal", l.signal.toDatum),
  ("value", .int l.value.toInt),
  ("status", .text l.status.spelling)]

theorem ofDatum_toDatum (l : ScriptLine) : ofDatum l.toDatum = l := by
  have hstatus : Datum.text l.status.spelling = l.status.toDatum := rfl
  simp [toDatum, ofDatum, hstatus]

theorem toDatum_ofDatum {d : Datum} (h : shape.admits d) : (ofDatum d).toDatum = d := by
  simp only [shape, Fields.required, Fields.defaulted, Shape.admits_record, Fields.admits_field,
    Fields.admits_done] at h
  obtain ⟨_, rfl, time, _, rfl, htime, signal, _, rfl, hsignal, value, _, rfl, hvalue, status, _,
    rfl, hstatus, rfl⟩ := h
  have hreference := SignalReference.toDatum_ofDatum hsignal
  have hspelling := SignalStatus.toDatum_ofDatum hstatus
  rw [SignalStatus.toDatum] at hspelling
  simp [toDatum, ofDatum, *]

end ScriptLine

-- -----------------------------------------------------------------------------
-- Lines
-- -----------------------------------------------------------------------------

namespace Script

variable {names : SignalNames}

/-- The line spells out a datum that means the record, and nothing besides. -/
def Says (line : List Char) (l : ScriptLine) : Prop :=
  ∃ part, Means ScriptLine.shape part l.toDatum ∧ Json.Spaced (Json.tokens part) (Text.trim line)

/-- The line says the event; if it names the signal, the name is known. -/
def Yields (names : SignalNames) (line : List Char) (e : Event) : Prop :=
  ∃ l, Says line l ∧ l.signal.Denotes names e.signal ∧ e.value = l.value ∧ e.status = l.status ∧
    e.timestamp = l.time

/-- What is wrong with a line that yields no event. -/
inductive Faulty (names : SignalNames) (line : List Char) : LineError → Prop
  | malformed {f : Json.Fault}
      (fault : Json.read ScriptLine.shape (String.ofList (Text.trim line)) = .error f)
      (nothing : ∀ l, ¬Says line l) : Faulty names line (.malformed f)
  | unknown {l : ScriptLine} {name : String} (said : Says line l) (named : l.signal = .name name)
      (unknown : names name = none) : Faulty names line (.unknownSignal name)

theorem says_iff {line : List Char} {l : ScriptLine} :
    Says line l ↔ ∃ full, Json.read ScriptLine.shape (String.ofList (Text.trim line)) = .ok full ∧
      ScriptLine.ofDatum full = l := by
  have hproper : ScriptLine.shape.proper := by decide
  have hfurnished : ScriptLine.shape.furnished := by decide
  simp only [Says, Json.read_eq_ok_iff hproper, String.toList_ofList]
  constructor
  · rintro ⟨part, hmeans, hspaced⟩
    exact ⟨_, ⟨part, hmeans, hspaced⟩, l.ofDatum_toDatum⟩
  · rintro ⟨full, ⟨part, hmeans, hspaced⟩, rfl⟩
    rw [ScriptLine.toDatum_ofDatum (hmeans.admits hfurnished)]
    exact ⟨part, hmeans, hspaced⟩

theorem readEvent_eq_ok_iff {line : List Char} {e : Event} :
    readEvent names (Text.trim line) = .ok e ↔ Yields names line e := by
  simp only [Yields, says_iff, readEvent]
  cases hread : Json.read ScriptLine.shape (String.ofList (Text.trim line)) with
  | error f => simp
  | ok full =>
    simp only [Except.bind_eq_ok_iff, SignalReference.resolve_eq_ok_iff]
    constructor
    · rintro ⟨id, hid, h⟩
      obtain rfl := Except.ok.inj h
      exact ⟨_, ⟨full, rfl, rfl⟩, hid, rfl, rfl, rfl⟩
    · rintro ⟨_, ⟨_, h, rfl⟩, hid, hvalue, hstatus, htime⟩
      obtain rfl := Except.ok.inj h
      refine ⟨e.signal, hid, congrArg Except.ok ?_⟩
      rw [← hvalue, ← hstatus, ← htime]

theorem readEvent_eq_error_iff {line : List Char} {x : LineError} :
    readEvent names (Text.trim line) = .error x ↔ Faulty names line x := by
  simp only [readEvent]
  cases hread : Json.read ScriptLine.shape (String.ofList (Text.trim line)) with
  | error f =>
    have hnothing : ∀ l, ¬Says line l := by simp [says_iff, hread]
    constructor
    · intro h
      obtain rfl := Except.error.inj h
      exact .malformed hread hnothing
    · rintro (⟨fault, -⟩ | ⟨said, -, -⟩)
      · obtain rfl := Except.error.inj (hread.symm.trans fault)
        rfl
      · exact absurd said (hnothing _)
  | ok full =>
    have hsaid : Says line (ScriptLine.ofDatum full) := says_iff.mpr ⟨full, hread, rfl⟩
    cases hresolve : (ScriptLine.ofDatum full).signal.resolve names with
    | ok id =>
      simp only [hresolve, bind, Except.bind, pure, Except.pure]
      refine iff_of_false nofun ?_
      rintro (⟨-, nothing⟩ | ⟨said, named, unknown⟩)
      · exact nothing _ hsaid
      · obtain ⟨full', hread', rfl⟩ := says_iff.mp said
        obtain rfl := Except.ok.inj (hread.symm.trans hread')
        simp [named, SignalReference.resolve, unknown] at hresolve
    | error y =>
      obtain ⟨name, named, unknown, rfl⟩ := SignalReference.resolve_eq_error_iff.mp hresolve
      simp only [hresolve, bind, Except.bind]
      constructor
      · intro h
        obtain rfl := Except.error.inj h
        exact .unknown hsaid named unknown
      · rintro (⟨-, nothing⟩ | ⟨said, named', -⟩)
        · exact absurd hsaid (nothing _)
        · obtain ⟨full', hread', rfl⟩ := says_iff.mp said
          obtain rfl := Except.ok.inj (hread.symm.trans hread')
          obtain rfl := SignalReference.name.inj (named.symm.trans named')
          rfl

end Script

end SignalGuard
