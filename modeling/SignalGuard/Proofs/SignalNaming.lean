import SignalGuard.Proofs.ScriptLines
import SignalGuard.Proofs.Transcripts

/-!
# Names of signals

A description that passes the validation repeats no name and no id. So it does
not matter that the name of an id is taken from the first entry that fits and
the id of a name from the last one. A run resolves the names of its script with
a description that has not been validated yet, but it takes no step unless the
engine can be built, and then the description was valid all along.
-/

namespace SignalGuard

namespace EngineDescription

variable {d : EngineDescription}

theorem mem_namedSignals_iff {name : String} {id : SignalId} :
    (name, id) ∈ d.namedSignals ↔ ∃ s ∈ d.signals, s.name = some name ∧ s.id = id := by
  simp [namedSignals]

theorem map_fst_namedSignals (d : EngineDescription) :
    d.namedSignals.map (·.1) = names d.signals := by
  simp [namedSignals, names, List.map_filterMap, Function.comp_def]

/-- Where no name is repeated, a name stands for the signal of its entry. -/
theorem signalNamed?_eq_some_iff (h : (names d.signals).Nodup) {name : String} {id : SignalId} :
    d.signalNamed? name = some id ↔ ∃ s ∈ d.signals, s.name = some name ∧ s.id = id := by
  have hnodup : (d.namedSignals.reverse.map (·.1)).Nodup := by
    rw [List.map_reverse, List.nodup_reverse, map_fst_namedSignals]
    exact h
  rw [← mem_namedSignals_iff, signalNamed?]
  constructor
  · intro hlookup
    obtain ⟨before, after, hsplit, -⟩ := List.lookup_eq_some_iff.mp hlookup
    exact List.mem_reverse.mp (by simp [hsplit])
  · intro hmem
    exact lookup_of_nodup hnodup (e := (name, id)) (List.mem_reverse.mpr hmem)

/-- Names and ids correspond one to one. -/
structure NamesOnce (d : EngineDescription) : Prop where
  named : ∀ s ∈ d.signals, ∀ name, s.name = some name →
    d.signalNamed? name = some s.id ∧ d.signalName? s.id = some name
  declared : ∀ name id, d.signalNamed? name = some id →
    ∃ s ∈ d.signals, s.name = some name ∧ s.id = id
  different : ∀ name name' id, d.signalNamed? name = some id → d.signalNamed? name' = some id →
    name = name'
  absent : ∀ name, d.signalNamed? name = none → ∀ s ∈ d.signals, s.name ≠ some name

theorem Valid.namesOnce (h : d.Valid) : d.NamesOnce where
  named s hs name hname := by
    refine ⟨(signalNamed?_eq_some_iff h.names).mpr ⟨s, hs, hname, rfl⟩, ?_⟩
    simp [signalName?, find?_of_nodup h.ids hs, hname]
  declared _ _ := (signalNamed?_eq_some_iff h.names).mp
  different name name' id hn hn' := by
    obtain ⟨s, hs, hname, rfl⟩ := (signalNamed?_eq_some_iff h.names).mp hn
    obtain ⟨s', hs', hname', hid⟩ := (signalNamed?_eq_some_iff h.names).mp hn'
    obtain rfl := List.inj_on_of_nodup_map h.ids hs' hs hid
    exact Option.some.inj (hname.symm.trans hname')
  absent name hnone s hs hname := by
    simp [(signalNamed?_eq_some_iff h.names).mpr ⟨s, hs, hname, rfl⟩] at hnone

end EngineDescription

-- ---------------------------------------------------------------------------
-- Scripts
-- ---------------------------------------------------------------------------

namespace Script

/-- The line says the event, and a name that it uses belongs to one entry, which has the one slot
that is meant. -/
def Addresses (d : EngineDescription) (line : List Char) (e : Event) : Prop :=
  ∃ l, Says line l ∧ e.value = l.value ∧ e.status = l.status ∧ e.timestamp = l.time ∧
    match l.signal with
    | .id i => e.signal = i
    | .name name => ∃ s ∈ d.signals, s.name = some name ∧ e.signal = s.id ∧ s.id.isValid ∧
        ∀ s' ∈ d.signals, s'.name = some name ∨ s'.id = s.id → s' = s

theorem Yields.addresses {d : EngineDescription} (h : d.Valid) {line : List Char} {e : Event}
    (hyields : Yields d.signalNamed? line e) : Addresses d line e := by
  obtain ⟨l, said, denotes, hvalue, hstatus, htime⟩ := hyields
  refine ⟨l, said, hvalue, hstatus, htime, ?_⟩
  cases hsignal : l.signal with
  | id i =>
    rw [hsignal] at denotes
    exact denotes.symm
  | name name =>
    rw [hsignal] at denotes
    obtain ⟨s, hs, hname, hid⟩ :=
      (EngineDescription.signalNamed?_eq_some_iff h.names).mp denotes
    refine ⟨s, hs, hname, hid.symm, h.signals s hs, fun s' hs' hsame => ?_⟩
    have hid' : s'.id = s.id := by
      rcases hsame with hname' | hid'
      · have hnamed := (h.namesOnce.named s hs name hname).1
        have hnamed' := (h.namesOnce.named s' hs' name hname').1
        exact Option.some.inj (hnamed'.symm.trans hnamed)
      · exact hid'
    exact List.inj_on_of_nodup_map h.ids hs' hs hid'

end Script

-- ---------------------------------------------------------------------------
-- Runs
-- ---------------------------------------------------------------------------

namespace Cli

/-- Only a run that can prepare succeeds. -/
theorem exists_preparation {files : FileReader Id} {display : Display} {r : RunRequest}
    {deeds : List Deed}
    (h : (run (Host.recorder files) display r).run.run [] = (.ok (), deeds)) :
    ∃ p, Preparation.ofFiles files r = .ok p := by
  have hruns := runs_run files display r
  cases hp : Preparation.ofFiles files r with
  | ok p => exact ⟨p, rfl⟩
  | error x =>
    rw [hp] at hruns
    obtain ⟨quiet, -, hdoes⟩ := hruns
    have hresult := (hdoes []).symm.trans h
    cases (Prod.mk.inj hresult).1

/-- What is at hand before the first step comes from a valid description and a script that was
read with its names. -/
theorem Preparation.valid_and_read {files : FileReader Id} {r : RunRequest} {p : Preparation}
    (h : Preparation.ofFiles files r = .ok p) :
    p.description.validate = .ok () ∧
      ∃ text, (files r.events).bind decodeText = .ok text ∧
        Script.read p.description.signalNamed? text = .ok p.events := by
  simp only [ofFiles, Except.bind_eq_ok_iff, Except.mapError_eq_ok_iff, scriptFrom] at h
  obtain ⟨d, -, events, ⟨text, htext, hread⟩, s, -, engine, hengine, ⟨⟩⟩ := h
  refine ⟨?_, text, htext, hread⟩
  rw [← (EngineDescription.accepted_iff_valid d).2 EngineDescription.silent, hengine]
  rfl

/-- In a valid description names and ids correspond one to one, and in a run that comes to the
replay, a line that names a signal is for the one slot with the name. -/
theorem run_addresses_named_signals :
    (∀ d : EngineDescription, d.validate = .ok () → d.NamesOnce) ∧
    ∀ (files : FileReader Id) (display : Display) (r : RunRequest) (deeds : List Deed),
      (run (Host.recorder files) display r).run.run [] = (.ok (), deeds) →
      ∃ p text, Preparation.ofFiles files r = .ok p ∧ p.description.validate = .ok () ∧
        (files r.events).bind decodeText = .ok text ∧
        List.Forall₂ (Script.Addresses p.description)
          ((Text.lines text.toList).filter Script.remains) p.events := by
  constructor
  · intro d hvalidate
    exact (EngineDescription.validate_eq_ok_iff.mp hvalidate).namesOnce
  · intro files display r deeds hrun
    obtain ⟨p, hp⟩ := exists_preparation hrun
    obtain ⟨hvalidate, text, htext, hread⟩ := Preparation.valid_and_read hp
    have hvalid := EngineDescription.validate_eq_ok_iff.mp hvalidate
    refine ⟨p, text, hp, hvalidate, htext, ?_⟩
    exact (Script.readLines_eq_ok_iff.mp hread).imp fun _ _ =>
      Script.Yields.addresses hvalid

/-- Two signals with names and one without, and a script that names both. -/
def namedFiles : FileReader Id := fun path =>
  match path with
  | "named.json" => .ok ("\x7b\"signals\":[\x7b\"id\":7,\"name\":\"fan\"\x7d,\x7b\"id\":3\x7d," ++
      "\x7b\"id\":5,\"name\":\"pump\"\x7d]\x7d").toUTF8
  | "named.jsonl" => .ok ("\x7b\"t_us\":0,\"signal\":\"pump\",\"value\":5\x7d\n# fan\n" ++
      "[1,\"fan\",6]").toUTF8
  | _ => .error .missing

def namedRun : RunRequest := ⟨"named.json", "named.jsonl", 1000, none, false⟩

theorem run_addresses_fan_and_pump :
    (∃ d, loadFrom namedFiles namedRun.description = .ok d ∧ d.validate = .ok () ∧
      d.signalNamed? "pump" = some ⟨5⟩ ∧ d.NamesOnce) ∧
    ∃ deeds, (run (Host.recorder namedFiles) rigDisplay namedRun).run.run [] = (.ok (), deeds) ∧
      ∃ p text, Preparation.ofFiles namedFiles namedRun = .ok p ∧
        p.description.validate = .ok () ∧
        (namedFiles namedRun.events).bind decodeText = .ok text ∧
        List.Forall₂ (Script.Addresses p.description)
          ((Text.lines text.toList).filter Script.remains) p.events := by
  have hload : (loadFrom namedFiles namedRun.description).toOption.any (fun d =>
      d.validate.toOption.isSome && d.signalNamed? "pump" == some ⟨5⟩) = true := by
    decide +kernel
  have hsuccess : ((run (Host.recorder namedFiles) rigDisplay namedRun).run.run
      []).1.toOption.isSome = true := by
    decide +kernel
  constructor
  · cases hd : loadFrom namedFiles namedRun.description with
    | error x =>
      rw [hd] at hload
      cases hload
    | ok d =>
      rw [hd] at hload
      simp only [Except.toOption, Option.any_some, Bool.and_eq_true, beq_iff_eq] at hload
      obtain ⟨hvalid, hpump⟩ := hload
      have hvalidate : d.validate = .ok () := by
        cases h : d.validate with
        | error e =>
          rw [h] at hvalid
          cases hvalid
        | ok _ => rfl
      exact ⟨d, rfl, hvalidate, hpump, run_addresses_named_signals.1 d hvalidate⟩
  · rcases hrun : (run (Host.recorder namedFiles) rigDisplay namedRun).run.run [] with
      ⟨result, deeds⟩
    rw [hrun] at hsuccess
    cases result with
    | error x => cases hsuccess
    | ok _ =>
      exact ⟨deeds, rfl, run_addresses_named_signals.2 namedFiles rigDisplay namedRun deeds hrun⟩

end Cli

end SignalGuard
