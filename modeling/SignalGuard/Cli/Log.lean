import SignalGuard.Description.Build
import SignalGuard.Replay
import SignalGuard.Text.Quoted

/-!
# Logs

A log entry has a level, a message and named fields. The verbosity of the
invocation decides which levels are shown.
-/

namespace SignalGuard.Cli

inductive LogLevel
  | warn
  | info
  | debug
  deriving BEq, DecidableEq, Repr

namespace LogLevel

def name : LogLevel → String
  | warn => "WARN"
  | info => "INFO"
  | debug => "DEBUG"

/-- The verbosity from which on the level is shown. -/
def threshold : LogLevel → Nat
  | warn => 0
  | info => 1
  | debug => 2

end LogLevel

structure LogEntry where
  level : LogLevel
  message : String
  fields : List (String × String)
  deriving BEq, DecidableEq, Repr

namespace LogEntry

def toText (e : LogEntry) : String :=
  let fields := e.fields.map fun (name, value) => s!"{name}={value}"
  " ".intercalate (e.level.name :: e.message :: fields)

def isShown (verbosity : Nat) (e : LogEntry) : Bool := e.level.threshold ≤ verbosity

def loaded (path formatName : String) (s : DescriptionSummary) : LogEntry :=
  ⟨.info, "loaded engine description", [("path", path), ("format", formatName),
    ("signals", toString s.signals), ("merges", toString s.merges),
    ("monitors", toString s.monitors)]⟩

def validated (s : DescriptionSummary) : LogEntry :=
  ⟨.debug, "engine configuration validated", [("signals", toString s.signals),
    ("merges", toString s.merges), ("remaps", toString s.remaps), ("scales", toString s.scales),
    ("monitors", toString s.monitors), ("pids", toString s.pids),
    ("verified", toString s.verified), ("cyclic", toString s.cyclic)]⟩

def ofWarning (w : Warning) : LogEntry :=
  ⟨.warn, w.doubt.message, [(w.doubt.subject.name, toString w.index)]⟩

def valid (path : String) : LogEntry := ⟨.info, "description valid", [("path", path)]⟩

def replaying (events steps : Nat) (period : Time) : LogEntry :=
  ⟨.info, "replaying event script", [("events", toString events), ("steps", toString steps),
    ("period_us", toString period)]⟩

def built (name : Option String) : LogEntry :=
  let text := match name with
    | some n => "Some(" ++ Quoted.quote n ++ ")"
    | none => "None"
  ⟨.debug, "engine built from description", [("name", text)]⟩

def stepped (s : ReplayStep) : LogEntry :=
  ⟨.debug, "step", [("cycle", toString s.cycle), ("now_us", toString s.now),
    ("events", toString s.events.length), ("outputs", toString s.outputs.length)]⟩

def lostData (s : ReplayStep) : LogEntry :=
  ⟨.warn, "step lost data", [("cycle", toString s.cycle), ("now_us", toString s.now),
    ("discarded", toString s.report.eventsDiscarded),
    ("dropped", toString s.report.outputsDropped)]⟩

/-- What is logged about a step. -/
def ofStep (s : ReplayStep) : List LogEntry :=
  stepped s :: if s.lostData then [lostData s] else []

end LogEntry

end SignalGuard.Cli
