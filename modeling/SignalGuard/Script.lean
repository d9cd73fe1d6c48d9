import SignalGuard.Description.Records
import SignalGuard.Json.Reader
import SignalGuard.Text.Blank

/-!
# Event scripts

A script holds one event per line, written as a JSON object. Blank lines and
lines that start with a hash sign are skipped. A signal is given by its id or by
a name. Reading stops at the first line with a problem.
-/

namespace SignalGuard

/-- How a line refers to a signal. -/
inductive SignalReference
  | id (i : SignalId)
  | name (name : String)
  deriving BEq, DecidableEq, Repr

def SignalReference.ofDatum (d : Datum) : SignalReference :=
  match d with
  | .text s => .name s
  | _ => .id (.ofDatum d)

/-- An event whose signal is not looked up yet. -/
structure ScriptLine where
  time : Time
  signal : SignalReference
  value : Int32
  status : SignalStatus
  deriving BEq, DecidableEq, Repr

namespace ScriptLine

def shape : Shape := .record "ScriptLine" <|
  .required "t_us" .u64 <|
  .required "signal" (.reference "SignalRef") <|
  .required "value" .i32 <|
  .defaulted "status" SignalStatus.ok.toDatum SignalStatus.shape .done

def ofDatum (d : Datum) : ScriptLine where
  time := (d.member "t_us").toUInt64
  signal := .ofDatum (d.member "signal")
  value := (d.member "value").toInt32
  status := .ofDatum (d.member "status")

end ScriptLine

/-- What is wrong with a line. -/
inductive LineError
  | malformed (f : Json.Fault)
  | unknownSignal (name : String)
  deriving BEq, DecidableEq, Repr

/-- The first line with a problem; lines count from one. -/
structure ScriptError where
  line : Nat
  error : LineError
  deriving BEq, DecidableEq, Repr

/-- Gives a signal for a name. -/
abbrev SignalNames := String → Option SignalId

/-- The signal that is meant. -/
def SignalReference.resolve (names : SignalNames) : SignalReference → Except LineError SignalId
  | .id i => .ok i
  | .name n =>
    match names n with
    | some i => .ok i
    | none => .error (.unknownSignal n)

namespace ScriptError

def message (e : ScriptError) : String :=
  match e.error with
  | .malformed f => s!"Event script line {e.line}: {f.message}"
  | .unknownSignal name => s!"Event script line {e.line}: unknown signal '{name}'"

end ScriptError

namespace Script

/-- Whether the trimmed line holds no event. -/
def isSkipped (cs : List Char) : Bool := cs.isEmpty || cs.head? = some '#'

/-- The event of a trimmed line. -/
def readEvent (names : SignalNames) (cs : List Char) : Except LineError Event :=
  match Json.read ScriptLine.shape (String.ofList cs) with
  | .error f => .error (.malformed f)
  | .ok d => do
    let line := ScriptLine.ofDatum d
    return ⟨← line.signal.resolve names, line.value, line.status, line.time⟩

/-- The event of a line, if it holds one. -/
def readLine (names : SignalNames) (line : List Char) : Except LineError (Option Event) :=
  let cs := Text.trim line
  if isSkipped cs then .ok none else (readEvent names cs).map some

/-- The events of lines, the first of which has the number. -/
def readLines (names : SignalNames) (number : Nat) :
    List (List Char) → Except ScriptError (List Event)
  | [] => .ok []
  | line :: rest =>
    match readLine names line with
    | .error error => .error ⟨number, error⟩
    | .ok event? => (readLines names (number + 1) rest).map (event?.toList ++ ·)

/-- The events of a script in order. -/
def read (names : SignalNames) (text : String) : Except ScriptError (List Event) :=
  readLines names 1 (Text.lines text.toList)

end Script

end SignalGuard
