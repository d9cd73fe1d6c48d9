import SignalGuard.Signal
import SignalGuard.Text.Digits

/-!
# Arguments

A command line names a command and gives it options. Options of the whole
program may stand before the command or behind it. Short options without a value
can be joined; a value stands in the next argument, behind an equals sign or
right behind a short option. Behind a double dash there are no more options.
-/

namespace SignalGuard.Cli

inductive Flag
  | json
  | verbose
  | help
  | version
  | realtime
  deriving BEq, DecidableEq, Repr

/-- Options with a value. -/
inductive Setting
  | events
  | period
  | cycles
  deriving BEq, DecidableEq, Repr

inductive Choice
  | flag (f : Flag)
  | setting (s : Setting)
  deriving BEq, DecidableEq, Repr

structure Choice.Spelling where
  short : Option Char
  long : String
  choice : Choice

/-- Options that every command takes. -/
def commonOptions : List Choice.Spelling := [
  ⟨none, "json", .flag .json⟩,
  ⟨some 'v', "verbose", .flag .verbose⟩,
  ⟨some 'h', "help", .flag .help⟩]

def programOptions : List Choice.Spelling :=
  ⟨some 'V', "version", .flag .version⟩ :: commonOptions

def runOptions : List Choice.Spelling := [
  ⟨some 'e', "events", .setting .events⟩,
  ⟨none, "period-us", .setting .period⟩,
  ⟨none, "cycles", .setting .cycles⟩,
  ⟨none, "realtime", .flag .realtime⟩] ++ commonOptions

/-- Why a command line is not carried out. -/
inductive Stop
  | help
  | version
  | invalid
  deriving BEq, DecidableEq, Repr

/-- What a part of the command line says. -/
structure Said where
  json : Bool
  verbosity : Nat
  realtime : Bool
  events : Option String
  period : Option Time
  cycles : Option Time
  words : List String

namespace Said

def nothing : Said := ⟨false, 0, false, none, none, none, []⟩

/-- Only the verbosity flag may be repeated. -/
def addFlag (said : Said) : Flag → Except Stop Said
  | .json => if said.json then .error .invalid else .ok { said with json := true }
  | .verbose => .ok { said with verbosity := said.verbosity + 1 }
  | .help => .error .help
  | .version => .error .version
  | .realtime => if said.realtime then .error .invalid else .ok { said with realtime := true }

/-- A path must not be empty. -/
def path (s : String) : Except Stop String := if s.isEmpty then .error .invalid else .ok s

/-- A decimal number that fits into a word, with an optional plus sign. -/
def number (s : String) : Except Stop Time :=
  let digits := match s.toList with
    | '+' :: rest => rest
    | cs => cs
  match Digits.number? 10 digits with
  | some n => if n < UInt64.size then .ok (UInt64.ofNat n) else .error .invalid
  | none => .error .invalid

/-- A setting must not be repeated. -/
def set (said : Said) (value : String) : Setting → Except Stop Said
  | .events =>
    if said.events.isSome then .error .invalid
    else return { said with events := ← path value }
  | .period =>
    if said.period.isSome then .error .invalid
    else return { said with period := ← number value }
  | .cycles =>
    if said.cycles.isSome then .error .invalid
    else return { said with cycles := ← number value }

def addWord (said : Said) (limit : Nat) (word : String) : Except Stop Said := do
  if limit ≤ said.words.length then throw .invalid
  return { said with words := said.words ++ [← path word] }

/-- Reads joined short options. Also gives the setting whose value is still to
come. -/
def addShort (options : List Choice.Spelling) (said : Said) :
    List Char → Except Stop (Said × Option Setting)
  | [] => .ok (said, none)
  | c :: rest =>
    match options.find? (·.short == some c) with
    | none => .error .invalid
    | some o =>
      match o.choice with
      | .flag f => do addShort options (← said.addFlag f) rest
      | .setting s =>
        match rest with
        | [] => .ok (said, some s)
        | '=' :: value | value => do return (← said.set (String.ofList value) s, none)

/-- Reads a long option. -/
def addLong (options : List Choice.Spelling) (said : Said) (cs : List Char) :
    Except Stop (Said × Option Setting) :=
  let name := String.ofList (cs.takeWhile (· ≠ '='))
  match options.find? (·.long == name), cs.dropWhile (· ≠ '=') with
  | none, _ => .error .invalid
  | some ⟨_, _, .flag f⟩, [] => do return (← said.addFlag f, none)
  | some ⟨_, _, .flag _⟩, _ :: _ => .error .invalid
  | some ⟨_, _, .setting s⟩, [] => .ok (said, some s)
  | some ⟨_, _, .setting s⟩, _ :: value => do return (← said.set (String.ofList value) s, none)

/-- Reads the arguments of a command that takes a number of words. The setting
still waits for its value. -/
def read (options : List Choice.Spelling) (limit : Nat) :
    Option Setting → Said → List String → Except Stop Said
  | none, said, [] => .ok said
  | some _, _, [] => .error .invalid
  | waiting, said, arg :: rest =>
    match arg.toList, waiting with
    | ['-', '-'], none => rest.foldlM (·.addWord limit) said
    | '-' :: '-' :: name, none => do
      let (said, waiting) ← said.addLong options name
      read options limit waiting said rest
    | '-' :: c :: cs, none => do
      let (said, waiting) ← said.addShort options (c :: cs)
      read options limit waiting said rest
    | '-' :: _ :: _, some _ => .error .invalid
    | _, some s => do read options limit none (← said.set arg s) rest
    | _, none => do read options limit none (← said.addWord limit arg) rest

/-- Reads the arguments in front of the command; gives the command and what
follows it. -/
def readFront : Said → List String → Except Stop (Said × String × List String)
  | _, [] => .error .invalid
  | said, arg :: rest =>
    match arg.toList with
    | '-' :: '-' :: name => do
      let (said, _) ← said.addLong programOptions name
      readFront said rest
    | '-' :: c :: cs => do
      let (said, _) ← said.addShort programOptions (c :: cs)
      readFront said rest
    | _ => .ok (said, arg, rest)

end Said

structure RunRequest where
  description : String
  events : String
  period : Time
  cycles : Option Time
  realtime : Bool
  deriving BEq, DecidableEq, Repr

inductive Command
  | validate (description : String)
  | run (r : RunRequest)
  deriving BEq, DecidableEq, Repr

structure Invocation where
  json : Bool
  verbosity : Nat
  command : Command
  deriving BEq, DecidableEq, Repr

namespace Invocation

def defaultPeriod : Time := 1000

/-- Combines what stands before the command and behind it; the verbosity behind
it counts if there is one. -/
def combine (front said : Said) (command : Command) : Invocation where
  json := front.json || said.json
  verbosity := if said.verbosity = 0 then front.verbosity else said.verbosity
  command

def ofValidate (front said : Said) : Except Stop Invocation :=
  match said.words with
  | [description] => .ok (combine front said (.validate description))
  | _ => .error .invalid

def ofRun (front said : Said) : Except Stop Invocation :=
  match said.words, said.events with
  | [description], some events =>
    .ok (combine front said (.run {
      description, events
      period := said.period.getD defaultPeriod
      cycles := said.cycles
      realtime := said.realtime }))
  | _, _ => .error .invalid

def commands : List String := ["validate", "run", "help"]

/-- Reads a command line. -/
def read (args : List String) : Except Stop Invocation := do
  let (front, command, rest) ← Said.readFront .nothing args
  match command with
  | "validate" => ofValidate front (← Said.read commonOptions 1 none .nothing rest)
  | "run" => ofRun front (← Said.read runOptions 1 none .nothing rest)
  | "help" => throw (if rest.all commands.contains then .help else .invalid)
  | _ => throw .invalid

end Invocation

end SignalGuard.Cli
