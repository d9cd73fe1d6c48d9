import Mathlib.Data.List.Forall2
import SignalGuard.Cli.Program
import SignalGuard.Proofs.Renderings

/-!
# What the lines of a run show

`Display.Tells` says what printed lines show of a run: its steps, what it has
emitted and its totals. As JSON that is one text, whose members are given here
one by one. People get a line for every emission, and at the end the number of
steps and a row for every counter. None of this refers to the functions that
write the lines, which are shown to write such lines (`Display.tells`).
-/

namespace SignalGuard

open Datum (ofNat)

-- ---------------------------------------------------------------------------
-- The JSON form
-- ---------------------------------------------------------------------------

/-- An emission with its members in alphabetical order. -/
def Emission.toRecord (e : Emission) : Datum := .record [
  ("device_index", ofNat e.output.deviceIndex.toNat),
  ("flags", ofNat e.output.flags.toNat),
  ("kind", .text e.output.kind.spelling),
  ("step_us", ofNat e.step.toNat),
  ("target_id", ofNat e.output.targetId.toNat),
  ("timestamp", ofNat e.output.timestamp.toNat),
  ("value", .int e.output.value.toInt)]

/-- The counters in alphabetical order. -/
def StepReport.toRecord (r : StepReport) : Datum := .record [
  ("events_discarded", ofNat r.eventsDiscarded.toNat),
  ("events_ingested", ofNat r.eventsIngested.toNat),
  ("fast_path_wakes", ofNat r.fastPathWakes.toNat),
  ("limp_entries", ofNat r.limpEntries.toNat),
  ("limp_exits", ofNat r.limpExits.toNat),
  ("merges_run", ofNat r.mergesRun.toNat),
  ("merges_without_input", ofNat r.mergesWithoutInput.toNat),
  ("monitor_wakes", ofNat r.monitorWakes.toNat),
  ("monitors_faulted", ofNat r.monitorsFaulted.toNat),
  ("outputs_dropped", ofNat r.outputsDropped.toNat),
  ("outputs_emitted", ofNat r.outputsEmitted.toNat),
  ("signals_timed_out", ofNat r.signalsTimedOut.toNat),
  ("verifications_failed", ofNat r.verificationsFailed.toNat)]

namespace Datum

@[simp] theorem sorted_ofNat (n : Nat) : (ofNat n).sorted = ofNat n := rfl

theorem sortedItems_eq_map (ds : List Datum) : sortedItems ds = ds.map sorted := by
  induction ds with
  | nil => rfl
  | cons d ds ih => rw [sortedItems, ih, List.map_cons]

end Datum

namespace Cli

/-- What a run tells as JSON. -/
def runRecord (steps : Nat) (emissions : List Emission) (totals : StepReport) : Datum := .record [
  ("outputs", .list (emissions.map Emission.toRecord)),
  ("steps", ofNat steps),
  ("success", .flag true),
  ("totals", totals.toRecord)]

theorem sorted_emissionDatum (e : Emission) : (emissionDatum e).sorted = e.toRecord := by
  have hkind : e.output.kind.toDatum.sorted = .text e.output.kind.spelling := rfl
  simp [emissionDatum, Datum.sorted, Datum.sortedMembers, Datum.insertMember, Emission.toRecord,
    hkind]

theorem sorted_totals (totals : StepReport) : totals.toDatum.sorted = totals.toRecord := by
  simp [StepReport.toDatum, StepReport.counters, Datum.sorted, Datum.sortedMembers,
    Datum.insertMember, StepReport.toRecord]

theorem sorted_runDatum (steps : Nat) (emissions : List Emission) (totals : StepReport) :
    (runDatum steps emissions totals).sorted = runRecord steps emissions totals := by
  have hemissions : emissions.map (Datum.sorted ∘ emissionDatum) =
      emissions.map Emission.toRecord :=
    List.map_congr_left fun e _ => sorted_emissionDatum e
  simp [runDatum, Datum.sorted, Datum.sortedMembers, Datum.insertMember, runRecord,
    Datum.sortedItems_eq_map, sorted_totals, hemissions]

-- ---------------------------------------------------------------------------
-- The form for people
-- ---------------------------------------------------------------------------

/-- What is shown is the text. Where colours are wanted, an ink may be taken up
before it and put away behind it. -/
inductive Painted (coloured : Bool) (text : String) : String → Prop
  | plain : Painted coloured text text
  | inked (ink : Ink) (wanted : coloured) :
      Painted coloured text ("\x1b[" ++ ink.code ++ "m" ++ text ++ "\x1b[0m")

/-- The line shows the emission. -/
inductive ShowsEmission (coloured : Bool) (e : Emission) : String → Prop
  | line {gap time kind value flags : String} (blank : ∀ c ∈ gap.toList, c = ' ')
      (htime : Painted coloured ("[" ++ (gap ++ toString e.step.toNat) ++ " us]") time)
      (hkind : Painted coloured e.output.kind.toText kind)
      (hvalue : Painted coloured (toString e.output.value.toInt) value)
      (hflags : Painted coloured
        ("flags " ++ ("0x" ++ String.ofList (Nat.toDigits 16 e.output.flags.toNat))) flags) :
      ShowsEmission coloured e (" ".intercalate [
        time,
        kind ++ ":" ++ ("0x" ++ String.ofList (Nat.toDigits 16 e.output.targetId.toNat)),
        "dev " ++ toString e.output.deviceIndex.toNat,
        "value " ++ value,
        flags])

/-- The row shows the counter with its label. -/
inductive ShowsCount (coloured : Bool) : String × Counter → String → Prop
  | row {label count : String} {counter : Counter}
      (hcount : Painted coloured (toString counter.toNat) count) :
      ShowsCount coloured (label, counter) ("  " ++ label ++ ": " ++ count)

/-- The counters in the order in which people are told them. -/
def labelledTotals (r : StepReport) : List (String × Counter) := [
  ("Events ingested", r.eventsIngested),
  ("Events discarded", r.eventsDiscarded),
  ("Fast-path wakes", r.fastPathWakes),
  ("Monitor wakes", r.monitorWakes),
  ("Signals timed out", r.signalsTimedOut),
  ("Merges run", r.mergesRun),
  ("Merges without input", r.mergesWithoutInput),
  ("Monitor faults", r.monitorsFaulted),
  ("Limp entries", r.limpEntries),
  ("Limp exits", r.limpExits),
  ("Outputs emitted", r.outputsEmitted),
  ("Outputs dropped", r.outputsDropped),
  ("Verifications failed", r.verificationsFailed)]

/-- The printed lines show the steps, the emissions and the totals. -/
structure Display.Tells (display : Display) (steps : Nat) (emissions : List Emission)
    (totals : StepReport) (lines : List String) : Prop where
  json : display.json → ∃ text, lines = [text] ∧
    Json.Spaced (Json.tokens (runRecord steps emissions totals)) text.toList
  people : display.json = false → ∃ outputs heading counts,
    lines = outputs ++ "" :: (heading ++ " " ++ toString steps) :: counts ∧
      List.Forall₂ (ShowsEmission display.coloured) emissions outputs ∧
      Painted display.coloured "Steps run:" heading ∧
      List.Forall₂ (ShowsCount display.coloured) (labelledTotals totals) counts

-- ---------------------------------------------------------------------------
-- Inks
-- ---------------------------------------------------------------------------

/-- The text takes no ink up and puts none away. -/
def Inkless (text : String) : Prop := '\x1b' ∉ text.toList

instance (text : String) : Decidable (Inkless text) :=
  inferInstanceAs (Decidable ('\x1b' ∉ text.toList))

theorem Inkless.append {s t : String} (hs : Inkless s) (ht : Inkless t) : Inkless (s ++ t) := by
  rw [Inkless, String.toList_append, List.mem_append]
  exact not_or_intro hs ht

theorem inkless_digits {base : Nat} (hbase : 1 < base) (n : Nat) :
    Inkless (String.ofList (Nat.toDigits base n)) := by
  rw [Inkless, String.toList_ofList]
  -- the last digit comes off the end
  induction n using Nat.strongRecOn with
  | ind n ih =>
    rw [Nat.toDigits_eq_if hbase]
    split
    · simp
    · next hn =>
      have hlt : n / base < n := Nat.div_lt_self (by omega) hbase
      simp [ih _ hlt]

theorem inkless_nat (n : Nat) : Inkless (toString n) := by
  have h := inkless_digits (by decide : 1 < 10) n
  rwa [Inkless, String.toList_ofList, ← Nat.toList_repr] at h

theorem inkless_int (i : Int) : Inkless (toString i) := by
  rw [Int.toString_eq_repr, Int.repr_eq_if]
  split
  · exact inkless_nat i.toNat
  · exact Inkless.append (by decide) (inkless_nat (-i).toNat)

theorem Ink.resume_of_not_mem (ink : Ink) {cs : List Char} (h : '\x1b' ∉ cs) :
    ink.resume cs = cs := by
  induction cs with
  | nil => rfl
  | cons c cs ih =>
    rw [List.mem_cons, not_or] at h
    rw [resume, ih h.2]
    -- the clause for a reset, which comes before, does not apply
    rintro cs' rfl -
    exact h.1 rfl

theorem painted_paint (ink : Ink) (coloured : Bool) {text : String} (h : Inkless text) :
    Painted coloured text (ink.paint coloured text) := by
  cases coloured with
  | false => exact .plain
  | true =>
    rw [Ink.paint, if_pos rfl, ink.resume_of_not_mem h, String.ofList_toList]
    exact .inked ink rfl

theorem Painted.mono {coloured coloured' : Bool} {text shown : String}
    (h : Painted coloured text shown) (himp : coloured → coloured') :
    Painted coloured' text shown := by
  cases h with
  | plain => exact .plain
  | inked ink wanted => exact .inked ink (himp wanted)

-- ---------------------------------------------------------------------------
-- Lines
-- ---------------------------------------------------------------------------

theorem inkless_kind (k : OutputKind) : Inkless k.toText := by cases k <;> decide

theorem inkless_pushn (n : Nat) : Inkless ("".pushn ' ' n) :=
  fun h => absurd (Json.eq_space_of_mem_pushn h) (by decide)

theorem showsEmission_emissionLine (coloured : Bool) (e : Emission) :
    ShowsEmission coloured e (emissionLine coloured e) := by
  have hstep := (inkless_pushn (10 - (toString e.step).length)).append (inkless_nat e.step.toNat)
  have hflags : Inkless ("flags " ++ ("0x" ++ _)) :=
    Inkless.append (by decide)
      (Inkless.append (by decide) (inkless_digits (by decide : 1 < 16) e.output.flags.toNat))
  unfold emissionLine alignRight hex
  exact .line (fun _ => Json.eq_space_of_mem_pushn)
    (painted_paint .dimmed coloured ((Inkless.append (by decide) hstep).append (by decide)))
    (painted_paint .cyan coloured (inkless_kind e.output.kind))
    (painted_paint .bold coloured (inkless_int e.output.value.toInt))
    (painted_paint .dimmed coloured hflags)

example : emissionLine false ⟨2000, ⟨.canOpen, 31, 0, -5, 2, 2000⟩⟩ =
    "[      2000 us] canopen:0x1f dev 0 value -5 flags 0x2" := by decide +kernel

theorem forall₂_emissionLine (coloured : Bool) (es : List Emission) :
    List.Forall₂ (ShowsEmission coloured) es (es.map (emissionLine coloured)) := by
  rw [List.forall₂_map_right_iff, List.forall₂_same]
  exact fun e _ => showsEmission_emissionLine coloured e

theorem forall₂_totalRows (coloured : Bool) (totals : StepReport) :
    List.Forall₂ (ShowsCount coloured) (labelledTotals totals)
      ((totalRows totals).map fun (label, count, notable) => countLine label
        (Ink.yellow.paint (coloured && notable && count != 0) (toString count))) := by
  have hlabels : labelledTotals totals = (totalRows totals).map fun row => (row.1, row.2.1) := rfl
  rw [hlabels, List.forall₂_map_left_iff, List.forall₂_map_right_iff, List.forall₂_same]
  rintro ⟨label, count, notable⟩ -
  refine .row ((painted_paint .yellow _ (inkless_nat count.toNat)).mono fun h => ?_)
  rw [Bool.and_eq_true, Bool.and_eq_true] at h
  exact h.1.1

/-- What a run prints, in either form, shows what it has come to. -/
theorem Display.tells (display : Display) (steps : Nat) (emissions : List Emission)
    (totals : StepReport) :
    display.Tells steps emissions totals
      (if display.json then [writeSorted (runDatum steps emissions totals)]
        else emissions.map (emissionLine display.coloured) ++
          runLines display.coloured steps totals) where
  json h := by
    rw [if_pos h]
    refine ⟨_, rfl, ?_⟩
    rw [writeSorted, sorted_runDatum]
    exact Json.spaced_write _
  people h := by
    rw [if_neg (Bool.eq_false_iff.mp h)]
    refine ⟨_, _, _, ?_, forall₂_emissionLine _ emissions,
      painted_paint .bold _ (by decide), forall₂_totalRows _ totals⟩
    rw [String.append_assoc]
    rfl

end Cli

end SignalGuard
