import SignalGuard.Cli.Error
import SignalGuard.Description.Records
import SignalGuard.Json.Writer
import SignalGuard.Replay

/-!
# Output

Results are written for people, in colour if wanted, or as JSON with the members
of every object in alphabetical order.
-/

namespace SignalGuard

namespace Datum

/-- Puts a member in front of those with a greater name. -/
def insertMember (m : String × Datum) : List (String × Datum) → List (String × Datum)
  | [] => [m]
  | n :: rest => if m.1 ≤ n.1 then m :: n :: rest else n :: insertMember m rest

mutual

/-- Orders the members of all records by name. -/
def sorted : Datum → Datum
  | .list items => .list (sortedItems items)
  | .record members => .record (sortedMembers members)
  | d => d

def sortedItems : List Datum → List Datum
  | [] => []
  | d :: ds => sorted d :: sortedItems ds

def sortedMembers : List (String × Datum) → List (String × Datum)
  | [] => []
  | (name, d) :: rest => insertMember (name, sorted d) (sortedMembers rest)

end

end Datum

namespace Cli

inductive Ink
  | bold
  | dimmed
  | green
  | yellow
  | cyan
  | alarm
  deriving BEq, DecidableEq, Repr

namespace Ink

def code : Ink → String
  | bold => "1"
  | dimmed => "2"
  | green => "32"
  | yellow => "33"
  | cyan => "36"
  | alarm => "1;31"

def reset : String := "\x1b[0m"

def start (ink : Ink) : String := "\x1b[" ++ ink.code ++ "m"

/-- Takes up the ink again after every reset in a text. -/
def resume (ink : Ink) : List Char → List Char
  | [] => []
  | '\x1b' :: '[' :: '0' :: 'm' :: cs => reset.toList ++ ink.start.toList ++ ink.resume cs
  | c :: cs => c :: ink.resume cs

/-- Paints a text. A reset inside the text does not end the ink. -/
def paint (ink : Ink) (coloured : Bool) (text : String) : String :=
  if coloured then ink.start ++ String.ofList (ink.resume text.toList) ++ reset else text

end Ink

open Datum (ofNat ofOption)

/-- The lines that tell people of an error. -/
def errorLines (coloured : Bool) (e : RunError) : List String :=
  (Ink.alarm.paint coloured "Error:" ++ " " ++ e.message) ::
    (e.cause?.map fun cause =>
      "  " ++ Ink.yellow.paint coloured "Caused by:" ++ " " ++ cause).toList

def errorDatum (e : RunError) : Datum := .record [
  ("success", .flag false),
  ("error", .record [
    ("message", .text e.message),
    ("exit_code", ofNat e.exitCode.toNat)])]

def countLine (label : String) (count : String) : String := s!"  {label}: {count}"

def summaryLines (coloured : Bool) (name : Option String) (s : DescriptionSummary) :
    List String :=
  let subject := match name with
    | some n => "Engine description '" ++ Ink.bold.paint coloured n ++ "'"
    | none => "Engine description"
  (Ink.green.paint coloured "✓" ++ " " ++ subject ++ " is valid") :: [
    ("Signals", s.signals),
    ("Merges", s.merges),
    ("Remaps", s.remaps),
    ("Scales", s.scales),
    ("Fault monitors", s.monitors),
    ("Limp actions", s.limpActions),
    ("PID controllers", s.pids),
    ("Verified outputs", s.verified),
    ("Cyclic outputs", s.cyclic)].map fun (label, count) => countLine label (toString count)

def summaryDatum (name : Option String) (s : DescriptionSummary) : Datum := .record [
  ("success", .flag true),
  ("name", ofOption .text name),
  ("summary", s.toDatum)]

/-- A number in hexadecimal digits behind the mark of their base. -/
def hex (n : UInt32) : String := "0x" ++ String.ofList (Nat.toDigits 16 n.toNat)

/-- Fills up with blanks on the left. -/
def alignRight (width : Nat) (s : String) : String := "".pushn ' ' (width - s.length) ++ s

def emissionLine (coloured : Bool) (e : Emission) : String :=
  let o := e.output
  " ".intercalate [
    Ink.dimmed.paint coloured s!"[{alignRight 10 (toString e.step)} us]",
    Ink.cyan.paint coloured o.kind.toText ++ ":" ++ hex o.targetId,
    s!"dev {o.deviceIndex}",
    "value " ++ Ink.bold.paint coloured (toString o.value.toInt),
    Ink.dimmed.paint coloured ("flags " ++ hex o.flags)]

def emissionDatum (e : Emission) : Datum := .record [
  ("step_us", ofNat e.step.toNat),
  ("kind", e.output.kind.toDatum),
  ("target_id", ofNat e.output.targetId.toNat),
  ("device_index", ofNat e.output.deviceIndex.toNat),
  ("value", .int e.output.value.toInt),
  ("flags", ofNat e.output.flags.toNat),
  ("timestamp", ofNat e.output.timestamp.toNat)]

/-- The counters of a run with their labels, and whether one that is not zero
stands out. -/
def totalRows (r : StepReport) : List (String × Counter × Bool) := [
  ("Events ingested", r.eventsIngested, false),
  ("Events discarded", r.eventsDiscarded, true),
  ("Fast-path wakes", r.fastPathWakes, false),
  ("Monitor wakes", r.monitorWakes, false),
  ("Signals timed out", r.signalsTimedOut, false),
  ("Merges run", r.mergesRun, false),
  ("Merges without input", r.mergesWithoutInput, false),
  ("Monitor faults", r.monitorsFaulted, false),
  ("Limp entries", r.limpEntries, false),
  ("Limp exits", r.limpExits, false),
  ("Outputs emitted", r.outputsEmitted, false),
  ("Outputs dropped", r.outputsDropped, true),
  ("Verifications failed", r.verificationsFailed, true)]

def runLines (coloured : Bool) (steps : Nat) (totals : StepReport) : List String :=
  "" :: (Ink.bold.paint coloured "Steps run:" ++ s!" {steps}") ::
    (totalRows totals).map fun (label, count, notable) =>
      countLine label (Ink.yellow.paint (coloured && notable && count != 0) (toString count))

def runDatum (steps : Nat) (emitted : List Emission) (totals : StepReport) : Datum := .record [
  ("success", .flag true),
  ("steps", ofNat steps),
  ("outputs", .list (emitted.map emissionDatum)),
  ("totals", totals.toDatum)]

/-- The JSON form of a result. -/
def writeSorted (d : Datum) : String := Json.write d.sorted

end Cli

end SignalGuard
