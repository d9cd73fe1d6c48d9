import SignalGuard.Description.Format
import SignalGuard.Proofs.JsonWriting
import SignalGuard.Proofs.RecordLaws

/-!
# Renderings of a description

A text renders a value if it spells out an abridgement of the value: members in
any order, defaults given or not, blanks anywhere between the tokens. A value is
read back from each of its renderings, and what the writer writes is one of
them. The renderings with nothing but required members stand for what the
constructors give.
-/

namespace SignalGuard

open Datum (ofNat)

-- -----------------------------------------------------------------------------
-- Renderings
-- -----------------------------------------------------------------------------

namespace Json

theorem spaced_write (d : Datum) : Spaced (tokens d) (write d).toList := by
  have h := writes_datum d 0 Spaced.nil
  rwa [List.append_nil, List.append_nil] at h

end Json

namespace Codec

variable {α : Type} {c : Codec α} {a : α}

/-- Reads a text that holds one value. -/
def parse (c : Codec α) (s : String) : Except Json.Fault α := (Json.read c.shape s).map c.ofDatum

/-- The text writes the value out, in nested maps whose members stand in any
order and are left out at will where they have their default. -/
def Renders (c : Codec α) (s : String) (a : α) : Prop :=
  ∃ part, Abridged c.shape (c.toDatum a) part ∧ Json.Spaced (Json.tokens part) s.toList

theorem Renders.read_eq {s : String} (h : c.Renders s a) :
    Json.read c.shape s = .ok (c.toDatum a) := by
  obtain ⟨part, habridged, hspaced⟩ := h
  exact Json.read_spaced (habridged.means c.proper) c.proper hspaced

theorem Renders.parse_eq {s : String} (h : c.Renders s a) : c.parse s = .ok a := by
  rw [parse, h.read_eq]
  exact congrArg Except.ok (c.ofDatum_toDatum a)

/-- What is written in full is a rendering. -/
theorem renders_write (c : Codec α) (a : α) : c.Renders (Json.write (c.toDatum a)) a :=
  ⟨c.toDatum a, c.suits a, Json.spaced_write _⟩

/-- Alone and as a part of something else, the required members say the value. -/
structure Decodes (c : Codec α) (bare : List (String × Datum)) (a : α) : Prop
    extends c.Bare a bare where
  parsed : ∀ written s, written.Perm bare →
    Json.Spaced (Json.tokens (.record written)) s.toList → c.parse s = .ok a

theorem Bare.decodes {bare : List (String × Datum)} (h : c.Bare a bare) : c.Decodes bare a where
  toBare := h
  parsed _ _ order hs := Renders.parse_eq ⟨_, h.abridged _ order, hs⟩

end Codec

-- -----------------------------------------------------------------------------
-- Main statements
-- -----------------------------------------------------------------------------

namespace EngineDescription

theorem ofJson_of_renders {d : EngineDescription} {s : String} (h : codec.Renders s d) :
    ofJson s = .ok d := by
  have hread : Json.read shape s = .ok d.toDatum := h.read_eq
  rw [ofJson, hread]
  exact congrArg Except.ok (ofDatum_toDatum d)

/-- A description is read back from the text it is written as. -/
theorem ofJson_toJson (d : EngineDescription) : ofJson d.toJson = .ok d :=
  ofJson_of_renders (codec.renders_write d)

/-- What the required members of an entry say is what its constructor gives. -/
structure BareEntries : Prop where
  remap : ∀ input output : SignalId, Remap.codec.Decodes
    [("input", input.toDatum), ("output", output.toDatum)] (.ofSignals input output)
  scale : ∀ input output : SignalId, Scale.codec.Decodes
    [("input", input.toDatum), ("output", output.toDatum)] (.ofSignals input output)
  monitor : ∀ (watched faultOutput : SignalId) (level : FaultLevel), MonitorConfig.codec.Decodes
    [("watched", watched.toDatum), ("fault_output", faultOutput.toDatum),
      ("fault_level", level.toDatum)] (.ofSignals watched faultOutput level)
  pid : ∀ setpoint measurement output : SignalId, PidConfig.codec.Decodes
    [("setpoint", setpoint.toDatum), ("measurement", measurement.toDatum),
      ("output", output.toDatum)] (.ofSignals setpoint measurement output)
  verified : ∀ command feedback output : SignalId, VerifiedConfig.codec.Decodes
    [("command", command.toDatum), ("feedback", feedback.toDatum), ("output", output.toDatum)]
    (.ofSignals command feedback output)
  cyclic : ∀ (source : SignalId) (targetId : UInt32) (period : Time), CyclicConfig.codec.Decodes
    [("source", source.toDatum), ("target_id", ofNat targetId.toNat),
      ("period_us", ofNat period.toNat)] (.ofSignal source targetId period)
  limp : ∀ targetScale : UInt8, LimpAction.codec.Decodes
    [("target_scale", ofNat targetScale.toNat)] ⟨targetScale, none, none, none, 0⟩
  signal : ∀ id : SignalId, SignalDescription.codec.Decodes [("id", id.toDatum)] ⟨id, none, 0⟩
  merge : ∀ (inputs : List SignalId) (output : SignalId), MergeDescription.codec.Decodes
    [("inputs", .list (inputs.map SignalId.toDatum)), ("output", output.toDatum)]
    ⟨inputs, output, .median, 0, none, true⟩
  description : codec.Decodes [] empty

theorem ofJson_rendering :
    (∀ (d : EngineDescription) (s : String), codec.Renders s d → ofJson s = .ok d) ∧
      BareEntries :=
  ⟨fun _ _ h => ofJson_of_renders h, {
    remap := fun input output => (Remap.bare_ofSignals input output).decodes
    scale := fun input output => (Scale.bare_ofSignals input output).decodes
    monitor := fun watched faultOutput level =>
      (MonitorConfig.bare_ofSignals watched faultOutput level).decodes
    pid := fun setpoint measurement output =>
      (PidConfig.bare_ofSignals setpoint measurement output).decodes
    verified := fun command feedback output =>
      (VerifiedConfig.bare_ofSignals command feedback output).decodes
    cyclic := fun source targetId period =>
      (CyclicConfig.bare_ofSignal source targetId period).decodes
    limp := fun targetScale => (LimpAction.bare_target targetScale).decodes
    signal := fun id => (SignalDescription.bare_id id).decodes
    merge := fun inputs output => (MergeDescription.bare_inputs inputs output).decodes
    description := bare_empty.decodes }⟩

/-- One scale, for which only the offset is no default, and a name. -/
def pumpStation : EngineDescription :=
  { empty with name := some "é/1", scales := [(Scale.ofSignals ⟨1⟩ ⟨2⟩).withOffset (-5)] }

/-- The scales before the name, the offset first, and no two gaps alike. -/
def pumpStationText : String :=
  "\x7b\t\"scales\" : [\n\x7b\"offset\":-5,\"output\":2, \"input\":1\x7d]," ++
    "\"name\":\"\\u00e9\\/1\"\x7d\n"

def pumpStationPart : Datum := .record [
  ("scales", .list [.record [("offset", .int (-5)), ("output", .int 2), ("input", .int 1)]]),
  ("name", .text "é/1")]

theorem abridged_pumpStation : Abridged shape pumpStation.toDatum pumpStationPart := by
  have horder : List.Perm [("offset", Datum.int (-5)), ("output", .int 2), ("input", .int 1)]
      [("input", .int 1), ("output", .int 2), ("offset", .int (-5))] :=
    List.reverse_perm [("input", Datum.int 1), ("output", .int 2), ("offset", .int (-5))]
  have hscale : AbridgedItems Scale.shape (pumpStation.scales.map Scale.toDatum)
      [.record [("offset", .int (-5)), ("output", .int 2), ("input", .int 1)]] := by
    refine .cons (.record ?_ horder) .nil
    refine .kept (SignalId.codec.suits ⟨1⟩) (.kept (SignalId.codec.suits ⟨2⟩) ?_)
    refine .omitted (.kept (Codec.int32.suits (-5)) ?_)
    exact .omitted (.omitted (.omitted .done))
  refine .record ?_ (.swap _ _ _)
  refine .omitted (.kept (.present .text) ?_)
  iterate 3 refine .omitted ?_
  refine .kept (.list hscale) ?_
  iterate 4 refine .omitted ?_
  exact .done

theorem spaced_pumpStation : Json.Spaced (Json.tokens pumpStationPart) pumpStationText.toList := by
  have hletter : Json.Text.Spells 'é' ['\\', 'u', '0', '0', 'e', '9'] := .unit rfl (by decide)
  have hslash : Json.Text.Spells '/' ['\\', '/'] := .short (by decide)
  have hdigit : Json.Text.Spells '1' ['1'] := .plain (by decide) (by decide) (by decide)
  have hname : Json.Token.Spells (.text "é/1") _ :=
    .text (.cons hletter (.cons hslash (.cons hdigit .nil)))
  have hend : Json.Spaced [] ['\n'] := Json.Spaced.nil.blank '\n' rfl
  have hlabel := (((hend.lexeme .closeMap).lexeme hname).lexeme .colon).lexeme
    (Json.Text.spells_write "name")
  have hinput := (((((hlabel.lexeme .comma).lexeme .closeList).lexeme .closeMap).lexeme
    (.int 1)).lexeme .colon).lexeme (Json.Text.spells_write "input")
  have houtput := ((((hinput.blank ' ' rfl).lexeme .comma).lexeme (.int 2)).lexeme
    .colon).lexeme (Json.Text.spells_write "output")
  have hoffset := (((houtput.lexeme .comma).lexeme (.int (-5))).lexeme .colon).lexeme
    (Json.Text.spells_write "offset")
  have hscales := (((((hoffset.lexeme .openMap).blank '\n' rfl).lexeme .openList).blank ' '
    rfl).lexeme .colon).blank ' ' rfl |>.lexeme (Json.Text.spells_write "scales")
  have hall := (hscales.blank '\t' rfl).lexeme .openMap
  refine (congrArg (Json.Spaced _) ?_).mpr hall
  decide +kernel

theorem ofJson_pumpStation :
    codec.Renders pumpStationText pumpStation ∧ ofJson pumpStationText = .ok pumpStation :=
  have h : codec.Renders pumpStationText pumpStation :=
    ⟨_, abridged_pumpStation, spaced_pumpStation⟩
  ⟨h, ofJson_rendering.1 _ _ h⟩

end EngineDescription

end SignalGuard
