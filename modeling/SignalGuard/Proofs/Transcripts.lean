import SignalGuard.Cli.Program
import SignalGuard.Proofs.Acceptance
import SignalGuard.Proofs.Printouts
import SignalGuard.Proofs.Replays

/-!
# What a run of the program does

A recorder is a host that reads from given files and takes down what it is asked
to do. A run first prepares: it loads the description, reads the script, makes
the schedule and builds the engine. Until then it only logs, and where one of
these fails, the run ends with that error (`runs_run`). Otherwise it steps
through the schedule and prints what the replay has come to; people see the
outputs step by step, and the JSON form lists them at the end
(`run_tells_replay`).
-/

namespace SignalGuard.Cli

-- ---------------------------------------------------------------------------
-- Recorders
-- ---------------------------------------------------------------------------

/-- What a host is asked to do. -/
inductive Deed
  | print (line : String)
  | report (line : String)
  | await (period : Time)
  deriving DecidableEq, Repr

namespace Deed

def line? : Deed → Option String
  | print line => some line
  | report _ | await _ => none

/-- The lines that are printed. -/
def lines (deeds : List Deed) : List String := deeds.filterMap line?

@[simp] theorem lines_nil : lines [] = [] := rfl

@[simp] theorem lines_append (deeds deeds' : List Deed) :
    lines (deeds ++ deeds') = lines deeds ++ lines deeds' := List.filterMap_append ..

@[simp] theorem lines_map_print (ls : List String) : lines (ls.map print) = ls := by
  simp [lines, Function.comp_def, line?]

theorem lines_flatMap {α : Type} (as : List α) (deeds : α → List Deed) :
    lines (as.flatMap deeds) = as.flatMap fun a => lines (deeds a) := List.filterMap_flatMap ..

/-- Nothing but log entries, none of which is about a step. -/
def Quiet (deeds : List Deed) : Prop :=
  ∀ deed ∈ deeds, ∃ entry : LogEntry,
    deed = .report entry.toText ∧ ∀ s : ReplayStep, entry ∉ LogEntry.ofStep s

theorem Quiet.append {deeds deeds' : List Deed} (h : Quiet deeds) (h' : Quiet deeds') :
    Quiet (deeds ++ deeds') := List.forall_mem_append.mpr ⟨h, h'⟩

theorem Quiet.lines_eq {deeds : List Deed} (h : Quiet deeds) : lines deeds = [] := by
  refine List.filterMap_eq_nil_iff.mpr fun deed hdeed => ?_
  obtain ⟨entry, rfl, -⟩ := h deed hdeed
  rfl

end Deed

abbrev Recorder := StateM (List Deed)

/-- Reads from the files and takes down everything else. -/
def Host.recorder (files : FileReader Id) : Host Recorder where
  fetch path := pure (files path)
  print line := modify (· ++ [.print line])
  report line := modify (· ++ [.report line])
  await period := modify (· ++ [.await period])

/-- The action asks for the deeds and comes to the result. -/
def Does {α : Type} (x : Recorder α) (deeds : List Deed) (a : α) : Prop :=
  ∀ before, x.run before = (a, before ++ deeds)

namespace Does

variable {α β : Type} {x : Recorder α} {f : α → Recorder β} {deeds deeds' : List Deed} {a : α}
  {b : β}

theorem pure (a : α) : Does (Pure.pure a) [] a := by
  intro before
  rw [List.append_nil]
  rfl

theorem bind (hx : Does x deeds a) (hf : Does (f a) deeds' b) :
    Does (x >>= f) (deeds ++ deeds') b := by
  intro before
  rw [StateT.run_bind, hx before]
  exact (hf _).trans (by rw [List.append_assoc])

theorem forM (as : List α) {f : α → Recorder Unit} {deeds : α → List Deed}
    (h : ∀ a, Does (f a) (deeds a) ()) : Does (as.forM f) (as.flatMap deeds) () := by
  induction as with
  | nil => exact pure ()
  | cons a as ih => exact (h a).bind ih

end Does

theorem forIn_eq_forM {m : Type → Type} [Monad m] [LawfulMonad m] {α : Type} (as : List α)
    (f : α → m Unit) :
    (forIn as PUnit.unit fun a _ => f a >>= fun _ => pure (ForInStep.yield PUnit.unit)) =
      as.forM f := by
  induction as with
  | nil => rfl
  | cons a as ih =>
    rw [List.forIn_cons, bind_assoc]
    exact bind_congr fun _ => (pure_bind _ _).trans ih

-- ---------------------------------------------------------------------------
-- What is shown
-- ---------------------------------------------------------------------------

namespace Display

variable (display : Display)

def logged (entry : LogEntry) : List Deed :=
  if display.verbosity.any (entry.isShown ·) then [.report entry.toText] else []

/-- The lines of a result in the form that is wanted. -/
def result (lines : List String) (d : Datum) : List String :=
  if display.json then [writeSorted d] else lines

/-- The lines of a step. -/
def emitted (s : ReplayStep) : List String :=
  if display.json then [] else s.emissions.map (emissionLine display.coloured)

/-- What is done about a step once it is over. -/
def stepped (s : ReplayStep) : List Deed :=
  (LogEntry.ofStep s).flatMap display.logged ++ (display.emitted s).map .print

theorem quiet_logged {entry : LogEntry} (h : ∀ s, entry ∉ LogEntry.ofStep s) :
    Deed.Quiet (display.logged entry) := by
  unfold logged
  split
  · exact List.forall_mem_singleton.mpr ⟨entry, rfl, h⟩
  · exact List.forall_mem_nil _

@[simp] theorem lines_logged (entry : LogEntry) : Deed.lines (display.logged entry) = [] := by
  unfold logged
  split <;> rfl

@[simp] theorem lines_stepped (s : ReplayStep) :
    Deed.lines (display.stepped s) = display.emitted s := by
  simp [stepped, Deed.lines_flatMap]

end Display

section
variable (files : FileReader Id) (display : Display)

theorem does_log (entry : LogEntry) :
    Does ((Host.recorder files).log display entry) (display.logged entry) () := by
  unfold Host.log Display.logged
  split
  · exact fun _ => rfl
  · exact .pure ()

theorem does_printAll (lines : List String) :
    Does ((Host.recorder files).printAll lines) (lines.map .print) () := by
  rw [List.map_eq_flatMap]
  exact .forM _ fun line _ => rfl

theorem does_result (lines : List String) (d : Datum) :
    Does ((Host.recorder files).result display lines d)
      ((display.result lines d).map .print) () := by
  unfold Host.result Display.result
  split
  · exact fun _ => rfl
  · exact does_printAll files lines

theorem does_showStep (s : ReplayStep) :
    Does (showStep (Host.recorder files) display s) (display.stepped s) () := by
  unfold showStep
  rw [forIn_eq_forM]
  refine .bind (.forM _ fun entry => does_log files display entry) ?_
  unfold Display.emitted
  cases display.json with
  | true => exact .pure ()
  | false => exact does_printAll files _

end

-- ---------------------------------------------------------------------------
-- Preparation
-- ---------------------------------------------------------------------------

/-- What has to be at hand before the first step. -/
structure Preparation where
  description : EngineDescription
  events : List Event
  schedule : Schedule
  engine : Engine

def loadFrom (files : FileReader Id) (path : String) : Except RunError EngineDescription :=
  ((Id.run (EngineDescription.load files path)).mapError .description).map (·.2)

def scriptFrom (files : FileReader Id) (path : String) (names : SignalNames) :
    Except RunError (List Event) :=
  (((files path).bind decodeText).mapError (.scriptFile path)) >>= fun text =>
    (Script.read names text).mapError .script

/-- Loads the description, reads the script, makes the schedule and builds the
engine, and gives the first error on the way. -/
def Preparation.ofFiles (files : FileReader Id) (r : RunRequest) : Except RunError Preparation := do
  let description ← loadFrom files r.description
  let events ← scriptFrom files r.events description.signalNamed?
  let schedule ← (Schedule.ofEvents events r.period r.cycles).mapError .schedule
  let engine ← (description.build EngineDescription.silent).mapError .description
  return { description, events, schedule, engine }

/-- The action only logs and comes to the result. -/
def Prepares {α : Type} (x : ExceptT RunError Recorder α) (result : Except RunError α) : Prop :=
  ∃ deeds, Deed.Quiet deeds ∧ Does x.run deeds result

/-- The action only logs until it either fails or goes on to the deeds, with
which it ends. -/
def Runs (x : ExceptT RunError Recorder Unit) : Except RunError (List Deed) → Prop
  | .error e => ∃ quiet, Deed.Quiet quiet ∧ Does x.run quiet (.error e)
  | .ok deeds => ∃ quiet, Deed.Quiet quiet ∧ Does x.run (quiet ++ deeds) (.ok ())

section
variable {α β : Type} {x : ExceptT RunError Recorder α} {f : α → ExceptT RunError Recorder β}
  {deeds deeds' : List Deed} {a : α} {e : RunError} {result : Except RunError α}

theorem Does.run_bind_ok {result : Except RunError β} (hx : Does x.run deeds (.ok a))
    (hf : Does (f a).run deeds' result) : Does (x >>= f).run (deeds ++ deeds') result := by
  rw [ExceptT.run_bind]
  exact hx.bind hf

theorem Does.run_bind_error (hx : Does x.run deeds (.error e)) :
    Does (x >>= f).run deeds (.error e) := by
  rw [ExceptT.run_bind, ← List.append_nil deeds]
  exact hx.bind (.pure _)

theorem Does.run_lift {x : Recorder α} (hx : Does x deeds a) :
    Does (liftM x : ExceptT RunError Recorder α).run deeds (.ok a) := by
  intro before
  show (Except.ok <$> x).run before = _
  rw [StateT.run_map, hx before]
  rfl

theorem Prepares.ofExcept (result : Except RunError α) :
    Prepares (liftM result : ExceptT RunError Recorder α) result :=
  ⟨[], List.forall_mem_nil _, .pure result⟩

theorem Prepares.bind {g : α → Except RunError β} (hx : Prepares x result)
    (hf : ∀ a, Prepares (f a) (g a)) : Prepares (x >>= f) (result >>= g) := by
  obtain ⟨deeds, hquiet, hdoes⟩ := hx
  cases result with
  | error e => exact ⟨deeds, hquiet, hdoes.run_bind_error⟩
  | ok a =>
    obtain ⟨deeds', hquiet', hdoes'⟩ := hf a
    exact ⟨deeds ++ deeds', hquiet.append hquiet', hdoes.run_bind_ok hdoes'⟩

theorem Prepares.runs_bind {f : α → ExceptT RunError Recorder Unit}
    {g : α → Except RunError (List Deed)} (hx : Prepares x result) (hf : ∀ a, Runs (f a) (g a)) :
    Runs (x >>= f) (result >>= g) := by
  obtain ⟨deeds, hquiet, hdoes⟩ := hx
  cases result with
  | error e => exact ⟨deeds, hquiet, hdoes.run_bind_error⟩
  | ok a =>
    have hrest := hf a
    show Runs (x >>= f) (g a)
    cases hg : g a with
    | error e =>
      rw [hg] at hrest
      obtain ⟨deeds', hquiet', hdoes'⟩ := hrest
      exact ⟨deeds ++ deeds', hquiet.append hquiet', hdoes.run_bind_ok hdoes'⟩
    | ok rest =>
      rw [hg] at hrest
      obtain ⟨deeds', hquiet', hdoes'⟩ := hrest
      exact ⟨deeds ++ deeds', hquiet.append hquiet',
        List.append_assoc .. ▸ hdoes.run_bind_ok hdoes'⟩

end

theorem LogEntry.message_of_mem_ofStep {entry : LogEntry} {s : ReplayStep}
    (h : entry ∈ LogEntry.ofStep s) :
    entry.message = "step" ∨ entry.message = "step lost data" := by
  unfold ofStep at h
  split at h
  · obtain rfl | rfl := List.mem_pair.mp h
    · exact .inl rfl
    · exact .inr rfl
  · obtain rfl := List.mem_singleton.mp h
    exact .inl rfl

/-- Files that are at hand can be read anywhere. -/
theorem load_pure {m : Type → Type} [Monad m] [LawfulMonad m] (files : FileReader Id)
    (path : String) :
    EngineDescription.load (fun path => (pure (files path) : m _)) path =
      pure (Id.run (EngineDescription.load files path)) := by
  unfold EngineDescription.load
  cases Format.ofPath? path with
  | none => rfl
  | some format =>
    change pure (files path) >>= _ = pure (Id.run ((pure (files path) : Id _) >>= _))
    rw [pure_bind, pure_bind]
    cases (files path).bind decodeText <;> rfl

section
variable (files : FileReader Id) (display : Display)

theorem prepares_log {entry : LogEntry}
    (h : entry.message ≠ "step" ∧ entry.message ≠ "step lost data") :
    Prepares (liftM ((Host.recorder files).log display entry)) (.ok ()) := by
  refine ⟨_, display.quiet_logged fun s hs => ?_, (does_log files display entry).run_lift⟩
  exact (LogEntry.message_of_mem_ofStep hs).elim h.1 h.2

theorem prepares_loadDescription (path : String) :
    Prepares (loadDescription (Host.recorder files) display path) (loadFrom files path) := by
  have hload : Prepares (ExceptT.lift (EngineDescription.load (Host.recorder files).fetch path))
      (.ok (Id.run (EngineDescription.load files path))) := by
    have hpure : EngineDescription.load (Host.recorder files).fetch path = _ :=
      load_pure files path
    rw [hpure]
    exact .ofExcept (.ok _)
  refine hload.bind (g := fun result => (result.mapError RunError.description).map (·.2))
    fun result => ?_
  match result with
  | .error e => exact .ofExcept (.error _)
  | .ok (format, d) =>
    exact (prepares_log files display (by simp [LogEntry.loaded])).bind
      (g := fun _ => .ok d) fun _ => .ofExcept (.ok d)

theorem prepares_readScript (path : String) (names : SignalNames) :
    Prepares (readScript (Host.recorder files) path names) (scriptFrom files path names) := by
  have hfetch : Prepares (liftM ((Host.recorder files).fetch path)) (.ok (files path)) :=
    .ofExcept (.ok _)
  refine hfetch.bind (g := fun bytes => ((bytes.bind decodeText).mapError (.scriptFile path)) >>=
    fun text => (Script.read names text).mapError .script) fun bytes => ?_
  cases bytes.bind decodeText with
  | error e => exact .ofExcept (.error _)
  | ok text => exact .ofExcept _

theorem prepares_warnings (ws : List Warning) :
    Prepares (ws.forM fun w => liftM ((Host.recorder files).log display (.ofWarning w)))
      (.ok ()) := by
  induction ws with
  | nil => exact .ofExcept (.ok ())
  | cons w ws ih =>
    refine (prepares_log files display ?_).bind (g := fun _ => .ok ()) fun _ => ih
    cases hdoubt : w.doubt <;> simp [LogEntry.ofWarning, hdoubt, Doubt.message]

theorem prepares_buildEngine (d : EngineDescription) :
    Prepares (buildEngine (Host.recorder files) display d)
      ((d.build EngineDescription.silent).mapError .description) := by
  unfold buildEngine
  rw [forIn_eq_forM]
  refine (prepares_warnings files display d.warnings).bind
    (g := fun _ => (d.build EngineDescription.silent).mapError .description) fun _ => ?_
  cases d.build EngineDescription.silent with
  | error e => exact .ofExcept (.error _)
  | ok engine =>
    refine (prepares_log files display (by simp [LogEntry.validated])).bind
      (g := fun _ => .ok engine) fun _ => ?_
    exact (prepares_log files display (by simp [LogEntry.built])).bind
      (g := fun _ => .ok engine) fun _ => .ofExcept (.ok engine)

end

-- ---------------------------------------------------------------------------
-- Runs
-- ---------------------------------------------------------------------------

namespace Preparation

/-- What is done about the steps and the result. -/
def deeds (p : Preparation) (display : Display) (realtime : Bool) : List Deed :=
  ((List.range p.schedule.steps).flatMap fun step =>
    (if realtime then [.await p.schedule.period] else []) ++
      display.stepped (p.engine.shown p.schedule step)) ++
  (display.result (runLines display.coloured p.schedule.steps (p.engine.replay p.schedule).1.totals)
    (runDatum p.schedule.steps (p.engine.replay p.schedule).2.toList
      (p.engine.replay p.schedule).1.totals)).map .print

/-- What is printed. -/
def lines (p : Preparation) (display : Display) : List String :=
  let (engine, emitted) := p.engine.replay p.schedule
  if display.json then [writeSorted (runDatum p.schedule.steps emitted.toList engine.totals)]
  else emitted.toList.map (emissionLine display.coloured) ++
    runLines display.coloured p.schedule.steps engine.totals

theorem lines_deeds (p : Preparation) (display : Display) (realtime : Bool) :
    Deed.lines (p.deeds display realtime) = p.lines display := by
  have hawait : Deed.lines (if realtime then [.await p.schedule.period] else []) = [] := by
    cases realtime <;> rfl
  have hemitted : (p.engine.replay p.schedule).2.toList =
      (List.range p.schedule.steps).flatMap fun step =>
        (p.engine.shown p.schedule step).emissions := by
    rw [Engine.replay_eq]
    rfl
  simp only [deeds, lines, Deed.lines_append, Deed.lines_flatMap, Deed.lines_map_print, hawait,
    Display.lines_stepped, List.nil_append, hemitted, List.map_flatMap, Display.emitted,
    Display.result]
  cases display.json <;> simp

end Preparation

/-- A run prepares, and does what has to be done if that succeeds. -/
theorem runs_run (files : FileReader Id) (display : Display) (r : RunRequest) :
    Runs (run (Host.recorder files) display r)
      ((Preparation.ofFiles files r).map (·.deeds display r.realtime)) := by
  simp only [run, Preparation.ofFiles, Except.map_bind]
  refine (prepares_loadDescription files display _).runs_bind fun d => ?_
  refine (prepares_readScript files _ _).runs_bind fun events => ?_
  refine (Prepares.ofExcept _).runs_bind fun s => ?_
  refine (prepares_log files display (by simp [LogEntry.replaying])).runs_bind
    (g := fun _ => _) fun _ => ?_
  refine (prepares_buildEngine files display d).runs_bind fun engine => ?_
  have hawait : Does (if r.realtime then (Host.recorder files).await s.period else pure ())
      (if r.realtime then [.await s.period] else []) () := by
    cases r.realtime with
    | true => exact fun _ => rfl
    | false => exact .pure ()
  have hstep := fun step =>
    hawait.bind (f := fun _ => showStep (Host.recorder files) display (engine.shown s step))
      (does_showStep files display _)
  have hsteps := Does.forM (List.range s.steps) hstep
  have hreplay := hsteps.bind (f := fun _ => pure (engine.replay s)) (.pure _)
  rw [← Engine.replayWith_eq, List.append_nil] at hreplay
  exact ⟨[], List.forall_mem_nil _,
    hreplay.run_lift.run_bind_ok (does_result files display _ _).run_lift⟩

-- ---------------------------------------------------------------------------
-- Main statement
-- ---------------------------------------------------------------------------

theorem Preparation.engine_built {files : FileReader Id} {r : RunRequest} {p : Preparation}
    (h : ofFiles files r = .ok p) :
    (∃ c : EngineConfig, c.build = .ok p.engine) ∧
      Schedule.ofEvents p.events r.period r.cycles = .ok p.schedule := by
  simp only [ofFiles, Except.bind_eq_ok_iff, Except.mapError_eq_ok_iff] at h
  obtain ⟨d, -, events, -, s, hs, engine, hengine, ⟨⟩⟩ := h
  obtain ⟨c, -, hc⟩ := Except.bind_eq_ok_iff.mp hengine
  exact ⟨⟨c, Except.mapError_eq_ok_iff.mp hc⟩, hs⟩

/-- A run that cannot prepare ends with that error and has taken no step, and
nothing has been printed. Any other run succeeds, and what it prints shows the
steps, the outputs of the replay and its totals, which agree with what has
happened. -/
theorem run_tells_replay (files : FileReader Id) (display : Display) (r : RunRequest) :
    (∀ x, Preparation.ofFiles files r = .error x →
      ∃ deeds, (run (Host.recorder files) display r).run.run [] = (.error x, deeds) ∧
        Deed.Quiet deeds ∧ Deed.lines deeds = []) ∧
    ∀ p, Preparation.ofFiles files r = .ok p → p.events.length < 4294967296 →
      ∃ deeds, (run (Host.recorder files) display r).run.run [] = (.ok (), deeds) ∧
        Deed.lines deeds = p.lines display ∧
        display.Tells p.schedule.steps (p.engine.replay p.schedule).2.toList
          (p.engine.replay p.schedule).1.totals (Deed.lines deeds) ∧
        p.engine.Agrees p.schedule p.events r.cycles := by
  have hruns := runs_run files display r
  constructor
  · intro x hx
    rw [hx] at hruns
    obtain ⟨deeds, hquiet, hdoes⟩ := hruns
    exact ⟨deeds, hdoes [], hquiet, hquiet.lines_eq⟩
  · intro p hp hfit
    rw [hp] at hruns
    obtain ⟨quiet, hquiet, hdoes⟩ := hruns
    obtain ⟨⟨c, hc⟩, hs⟩ := Preparation.engine_built hp
    have hlines : Deed.lines ([] ++ (quiet ++ p.deeds display r.realtime)) = p.lines display := by
      rw [List.nil_append, Deed.lines_append, hquiet.lines_eq, List.nil_append, p.lines_deeds]
    refine ⟨_, hdoes [], hlines, ?_, Engine.agrees hc hs hfit⟩
    rw [hlines]
    exact display.tells ..

/-- A description with one output, and a script whose second event has no slot. -/
def rigFiles : FileReader Id := fun path =>
  match path with
  | "rig.json" => .ok
    "\x7b\"cyclic_outputs\":[\x7b\"source\":3,\"target_id\":16,\"period_us\":2000\x7d]\x7d".toUTF8
  | "rig.jsonl" => .ok
    "\x7b\"t_us\":0,\"signal\":3,\"value\":5\x7d\n\x7b\"t_us\":4000,\"signal\":99,\"value\":6\x7d".toUTF8
  | _ => .error .missing

def rigRun : RunRequest := ⟨"rig.json", "rig.jsonl", 1000, none, false⟩

def rigDisplay : Display := ⟨true, false, some 2⟩

/-- Four steps, of which two emit. -/
def Preparation.isRig (p : Preparation) : Bool :=
  p.events.length == 2 && p.schedule.steps == 4 &&
    (p.engine.replay p.schedule).2.toList.map (fun x => (x.step, x.output.value)) ==
      [(2000, 5), (4000, 5)]

/-- The same run with a script that is not there. -/
def rigRunAstray : RunRequest := { rigRun with events := "rig.txt" }

theorem run_tells_rig :
    (∃ p, Preparation.ofFiles rigFiles rigRun = .ok p ∧ p.isRig ∧ p.events.length < 4294967296 ∧
      ∃ deeds, (run (Host.recorder rigFiles) rigDisplay rigRun).run.run [] = (.ok (), deeds) ∧
        Deed.lines deeds = p.lines rigDisplay ∧
        rigDisplay.Tells p.schedule.steps (p.engine.replay p.schedule).2.toList
          (p.engine.replay p.schedule).1.totals (Deed.lines deeds) ∧
        p.engine.Agrees p.schedule p.events rigRun.cycles) ∧
    ∃ x, Preparation.ofFiles rigFiles rigRunAstray = .error x ∧
      ∃ deeds, (run (Host.recorder rigFiles) rigDisplay rigRunAstray).run.run [] =
          (.error x, deeds) ∧
        Deed.Quiet deeds ∧ Deed.lines deeds = [] := by
  have hrig : (Preparation.ofFiles rigFiles rigRun).toOption.any (·.isRig) = true := by
    decide +kernel
  have hastray : (Preparation.ofFiles rigFiles rigRunAstray).toOption.isNone = true := by
    decide +kernel
  constructor
  · cases hp : Preparation.ofFiles rigFiles rigRun with
    | error x =>
      rw [hp] at hrig
      cases hrig
    | ok p =>
      rw [hp] at hrig
      have hlength : p.events.length = 2 := by
        simp only [Except.toOption, Option.any_some, Preparation.isRig, Bool.and_eq_true,
          beq_iff_eq] at hrig
        exact hrig.1.1
      have hfit : p.events.length < 4294967296 := by omega
      exact ⟨p, rfl, hrig, hfit, (run_tells_replay rigFiles rigDisplay rigRun).2 p hp hfit⟩
  · cases hx : Preparation.ofFiles rigFiles rigRunAstray with
    | error x => exact ⟨x, rfl, (run_tells_replay rigFiles rigDisplay rigRunAstray).1 x hx⟩
    | ok p =>
      rw [hx] at hastray
      cases hastray

end SignalGuard.Cli
