import SignalGuard.Proofs.Renderings
import SignalGuard.Proofs.YamlReading

/-!
# Both formats

A description is written in full in either format, and either text is read back
as the description, whatever its names hold.
-/

namespace SignalGuard.EngineDescription

theorem read_toYaml (d : EngineDescription) : Yaml.read shape d.toYaml = some d.toDatum := by
  have hkeyed : shape.keyed := by decide +kernel
  have hsuits : Abridged shape d.toDatum d.toDatum := codec.suits d
  exact Yaml.read_write hsuits (List.cons_ne_nil _ _) codec.proper hkeyed

/-- A description is read back from its YAML, which therefore says what its JSON
says. -/
theorem ofYaml_toYaml (d : EngineDescription) :
    ofYaml d.toYaml = .ok d ∧ ofYaml d.toYaml = ofJson d.toJson := by
  have hyaml : ofYaml d.toYaml = .ok d := by
    rw [ofYaml, read_toYaml]
    exact congrArg Except.ok (ofDatum_toDatum d)
  have hjson : ofJson d.toJson = .ok d := ofJson_of_renders (codec.renders_write d)
  exact ⟨hyaml, hyaml.trans hjson.symm⟩

example : ({ empty with name := some "0x1F" } : EngineDescription).toYaml =
    "schema_version: 1\nname: '0x1F'\nsignals: []\nmerges: []\nremaps: []\nscales: []\n" ++
      "fault_monitors: []\npids: []\nverified_outputs: []\ncyclic_outputs: []\n" := by
  decide +kernel

end SignalGuard.EngineDescription
