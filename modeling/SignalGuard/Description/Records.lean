import SignalGuard.Data.Shape
import SignalGuard.Description

/-!
# Records of a description

For every part of a description its shape, the datum it is written as, and the
view of a datum of that shape. The views are total; on a datum that a reader
produced from the shape they return exactly what was read.
-/

namespace SignalGuard

open Datum (ofNat ofOption)

def SignalId.shape : Shape := .integer .u8

def SignalId.toDatum (id : SignalId) : Datum := ofNat id.raw.toNat

def SignalId.ofDatum (d : Datum) : SignalId := ⟨d.toUInt8⟩

namespace Shape

def u8 : Shape := .integer .u8

def u32 : Shape := .integer .u32

def u64 : Shape := .integer .u64

def i32 : Shape := .integer .i32

end Shape

open Fields (required defaulted)

/-- The last field of most records; entries are enabled unless they say no. -/
def enabledField : Fields := defaulted "enabled" (.flag true) .flag .done

namespace Remap

def shape : Shape := .record "RemapConfig" <|
  required "input" SignalId.shape <|
  required "output" SignalId.shape <|
  defaulted "invert" (.flag false) .flag <|
  defaulted "deadzone" (.int 0) .u32 enabledField

def toDatum (r : Remap) : Datum := .record [
  ("input", r.input.toDatum),
  ("output", r.output.toDatum),
  ("invert", .flag r.invert),
  ("deadzone", ofNat r.deadzone.toNat),
  ("enabled", .flag r.enabled)]

def ofDatum (d : Datum) : Remap where
  input := .ofDatum (d.member "input")
  output := .ofDatum (d.member "output")
  invert := (d.member "invert").toBool
  deadzone := (d.member "deadzone").toUInt32
  enabled := (d.member "enabled").toBool

end Remap

namespace Scale

def shape : Shape := .record "ScaleConfig" <|
  required "input" SignalId.shape <|
  required "output" SignalId.shape <|
  defaulted "scale_factor" (.int 1000) .i32 <|
  defaulted "offset" (.int 0) .i32 <|
  defaulted "clamp_min" .null (.optional .i32) <|
  defaulted "clamp_max" .null (.optional .i32) enabledField

def toDatum (s : Scale) : Datum := .record [
  ("input", s.input.toDatum),
  ("output", s.output.toDatum),
  ("scale_factor", .int s.scaleFactor.toInt),
  ("offset", .int s.offset.toInt),
  ("clamp_min", ofOption (.int ·.toInt) s.clampMin),
  ("clamp_max", ofOption (.int ·.toInt) s.clampMax),
  ("enabled", .flag s.enabled)]

def ofDatum (d : Datum) : Scale where
  input := .ofDatum (d.member "input")
  output := .ofDatum (d.member "output")
  scaleFactor := (d.member "scale_factor").toInt32
  offset := (d.member "offset").toInt32
  clampMin := (d.member "clamp_min").toOption Datum.toInt32
  clampMax := (d.member "clamp_max").toOption Datum.toInt32
  enabled := (d.member "enabled").toBool

end Scale

namespace LimpAction

def shape : Shape := .record "LimpAction" <|
  required "target_scale" .u8 <|
  defaulted "scale_factor" .null (.optional .i32) <|
  defaulted "clamp_min" .null (.optional .i32) <|
  defaulted "clamp_max" .null (.optional .i32) <|
  defaulted "restore_delay_ms" (.int 0) .u32 .done

def toDatum (a : LimpAction) : Datum := .record [
  ("target_scale", ofNat a.targetScale.toNat),
  ("scale_factor", ofOption (.int ·.toInt) a.scaleFactor),
  ("clamp_min", ofOption (.int ·.toInt) a.clampMin),
  ("clamp_max", ofOption (.int ·.toInt) a.clampMax),
  ("restore_delay_ms", ofNat a.restoreDelay.toNat)]

def ofDatum (d : Datum) : LimpAction where
  targetScale := (d.member "target_scale").toUInt8
  scaleFactor := (d.member "scale_factor").toOption Datum.toInt32
  clampMin := (d.member "clamp_min").toOption Datum.toInt32
  clampMax := (d.member "clamp_max").toOption Datum.toInt32
  restoreDelay := (d.member "restore_delay_ms").toUInt32

end LimpAction

namespace FaultLevel

def shape : Shape := .choice (all.map spelling)

def toDatum (l : FaultLevel) : Datum := .text l.spelling

def ofDatum (d : Datum) : FaultLevel := d.toChoice all spelling

end FaultLevel

namespace MonitorConfig

def shape : Shape := .record "FaultMonitorConfig" <|
  required "watched" SignalId.shape <|
  required "fault_output" SignalId.shape <|
  defaulted "check_staleness" (.flag false) .flag <|
  defaulted "stale_timeout_us" (.int 0) .u64 <|
  defaulted "check_range" (.flag false) .flag <|
  defaulted "min_value" (.int 0) .i32 <|
  defaulted "max_value" (.int 0) .i32 <|
  defaulted "check_status" (.flag false) .flag <|
  required "fault_level" FaultLevel.shape <|
  defaulted "limp" .null (.optional LimpAction.shape) enabledField

def toDatum (c : MonitorConfig) : Datum := .record [
  ("watched", c.watched.toDatum),
  ("fault_output", c.faultOutput.toDatum),
  ("check_staleness", .flag c.checkStaleness),
  ("stale_timeout_us", ofNat c.staleTimeout.toNat),
  ("check_range", .flag c.checkRange),
  ("min_value", .int c.minValue.toInt),
  ("max_value", .int c.maxValue.toInt),
  ("check_status", .flag c.checkStatus),
  ("fault_level", c.faultLevel.toDatum),
  ("limp", ofOption LimpAction.toDatum c.limp),
  ("enabled", .flag c.enabled)]

def ofDatum (d : Datum) : MonitorConfig where
  watched := .ofDatum (d.member "watched")
  faultOutput := .ofDatum (d.member "fault_output")
  checkStaleness := (d.member "check_staleness").toBool
  staleTimeout := (d.member "stale_timeout_us").toUInt64
  checkRange := (d.member "check_range").toBool
  minValue := (d.member "min_value").toInt32
  maxValue := (d.member "max_value").toInt32
  checkStatus := (d.member "check_status").toBool
  faultLevel := .ofDatum (d.member "fault_level")
  limp := (d.member "limp").toOption LimpAction.ofDatum
  enabled := (d.member "enabled").toBool

end MonitorConfig

namespace PidConfig

def shape : Shape := .record "PidConfig" <|
  required "setpoint" SignalId.shape <|
  required "measurement" SignalId.shape <|
  required "output" SignalId.shape <|
  defaulted "kp" (.int 0) .i32 <|
  defaulted "ki" (.int 0) .i32 <|
  defaulted "kd" (.int 0) .i32 <|
  defaulted "output_min" (.int Int32.minValue.toInt) .i32 <|
  defaulted "output_max" (.int Int32.maxValue.toInt) .i32 <|
  defaulted "integral_min" (.int Int32.minValue.toInt) .i32 <|
  defaulted "integral_max" (.int Int32.maxValue.toInt) .i32 <|
  defaulted "deadband" (.int 0) .u32 <|
  defaulted "sample_time_us" (.int 0) .u64 <|
  defaulted "reset_on_setpoint_change" (.flag false) .flag enabledField

def toDatum (c : PidConfig) : Datum := .record [
  ("setpoint", c.setpoint.toDatum),
  ("measurement", c.measurement.toDatum),
  ("output", c.output.toDatum),
  ("kp", .int c.kp.toInt),
  ("ki", .int c.ki.toInt),
  ("kd", .int c.kd.toInt),
  ("output_min", .int c.outputMin.toInt),
  ("output_max", .int c.outputMax.toInt),
  ("integral_min", .int c.integralMin.toInt),
  ("integral_max", .int c.integralMax.toInt),
  ("deadband", ofNat c.deadband.toNat),
  ("sample_time_us", ofNat c.sampleTime.toNat),
  ("reset_on_setpoint_change", .flag c.resetOnSetpointChange),
  ("enabled", .flag c.enabled)]

def ofDatum (d : Datum) : PidConfig where
  setpoint := .ofDatum (d.member "setpoint")
  measurement := .ofDatum (d.member "measurement")
  output := .ofDatum (d.member "output")
  kp := (d.member "kp").toInt32
  ki := (d.member "ki").toInt32
  kd := (d.member "kd").toInt32
  outputMin := (d.member "output_min").toInt32
  outputMax := (d.member "output_max").toInt32
  integralMin := (d.member "integral_min").toInt32
  integralMax := (d.member "integral_max").toInt32
  deadband := (d.member "deadband").toUInt32
  sampleTime := (d.member "sample_time_us").toUInt64
  resetOnSetpointChange := (d.member "reset_on_setpoint_change").toBool
  enabled := (d.member "enabled").toBool

end PidConfig

namespace ActuatorKind

def shape : Shape := .choice (all.map spelling)

def toDatum (k : ActuatorKind) : Datum := .text k.spelling

def ofDatum (d : Datum) : ActuatorKind := d.toChoice all spelling

end ActuatorKind

namespace VerifiedConfig

def shape : Shape := .record "VerifiedOutputConfig" <|
  required "command" SignalId.shape <|
  required "feedback" SignalId.shape <|
  required "output" SignalId.shape <|
  defaulted "kind" (ActuatorKind.toDatum .gpio) ActuatorKind.shape <|
  defaulted "tolerance" (.int 0) .u32 <|
  defaulted "verify_timeout_us" (.int 0) .u64 <|
  defaulted "continuous" (.flag false) .flag enabledField

def toDatum (c : VerifiedConfig) : Datum := .record [
  ("command", c.command.toDatum),
  ("feedback", c.feedback.toDatum),
  ("output", c.output.toDatum),
  ("kind", c.kind.toDatum),
  ("tolerance", ofNat c.tolerance.toNat),
  ("verify_timeout_us", ofNat c.verifyTimeout.toNat),
  ("continuous", .flag c.continuous),
  ("enabled", .flag c.enabled)]

def ofDatum (d : Datum) : VerifiedConfig where
  command := .ofDatum (d.member "command")
  feedback := .ofDatum (d.member "feedback")
  output := .ofDatum (d.member "output")
  kind := .ofDatum (d.member "kind")
  tolerance := (d.member "tolerance").toUInt32
  verifyTimeout := (d.member "verify_timeout_us").toUInt64
  continuous := (d.member "continuous").toBool
  enabled := (d.member "enabled").toBool

end VerifiedConfig

namespace OutputKind

def shape : Shape := .choice (all.map spelling)

def toDatum (k : OutputKind) : Datum := .text k.spelling

def ofDatum (d : Datum) : OutputKind := d.toChoice all spelling

end OutputKind

namespace CyclicConfig

def shape : Shape := .record "CyclicOutputConfig" <|
  required "source" SignalId.shape <|
  defaulted "kind" (OutputKind.toDatum .can) OutputKind.shape <|
  required "target_id" .u32 <|
  defaulted "device_index" (.int 0) .u8 <|
  required "period_us" .u64 <|
  defaulted "first_deadline_us" .null (.optional .u64) <|
  defaulted "flags" (.int 0) .u32 enabledField

def toDatum (c : CyclicConfig) : Datum := .record [
  ("source", c.source.toDatum),
  ("kind", c.kind.toDatum),
  ("target_id", ofNat c.targetId.toNat),
  ("device_index", ofNat c.deviceIndex.toNat),
  ("period_us", ofNat c.period.toNat),
  ("first_deadline_us", ofOption (ofNat ·.toNat) c.firstDeadline),
  ("flags", ofNat c.flags.toNat),
  ("enabled", .flag c.enabled)]

def ofDatum (d : Datum) : CyclicConfig where
  source := .ofDatum (d.member "source")
  kind := .ofDatum (d.member "kind")
  targetId := (d.member "target_id").toUInt32
  deviceIndex := (d.member "device_index").toUInt8
  period := (d.member "period_us").toUInt64
  firstDeadline := (d.member "first_deadline_us").toOption Datum.toUInt64
  flags := (d.member "flags").toUInt32
  enabled := (d.member "enabled").toBool

end CyclicConfig

namespace SignalConfig

def shape : Shape := .record "SignalConfig" <|
  required "id" SignalId.shape <|
  defaulted "staleness_threshold_us" (.int 0) .u64 .done

def toDatum (c : SignalConfig) : Datum := .record [
  ("id", c.id.toDatum),
  ("staleness_threshold_us", ofNat c.stalenessThreshold.toNat)]

def ofDatum (d : Datum) : SignalConfig where
  id := .ofDatum (d.member "id")
  stalenessThreshold := (d.member "staleness_threshold_us").toUInt64

end SignalConfig

namespace SignalDescription

def shape : Shape := .record "SignalDescription" <|
  required "id" SignalId.shape <|
  defaulted "name" .null (.optional .text) <|
  defaulted "staleness_threshold_us" (.int 0) .u64 .done

def toDatum (s : SignalDescription) : Datum := .record [
  ("id", s.id.toDatum),
  ("name", ofOption .text s.name),
  ("staleness_threshold_us", ofNat s.stalenessThreshold.toNat)]

def ofDatum (d : Datum) : SignalDescription where
  id := .ofDatum (d.member "id")
  name := (d.member "name").toOption Datum.toText
  stalenessThreshold := (d.member "staleness_threshold_us").toUInt64

end SignalDescription

namespace VotingMethod

def shape : Shape := .choice (all.map spelling)

def toDatum (m : VotingMethod) : Datum := .text m.spelling

def ofDatum (d : Datum) : VotingMethod := d.toChoice all spelling

end VotingMethod

namespace MergeDescription

def shape : Shape := .record "MergeDescription" <|
  required "inputs" (.list SignalId.shape) <|
  required "output" SignalId.shape <|
  defaulted "method" (VotingMethod.toDatum .median) VotingMethod.shape <|
  defaulted "tolerance" (.int 0) .u32 <|
  defaulted "majority_quorum" .null (.optional .u8) enabledField

def toDatum (m : MergeDescription) : Datum := .record [
  ("inputs", .list (m.inputs.map SignalId.toDatum)),
  ("output", m.output.toDatum),
  ("method", m.method.toDatum),
  ("tolerance", ofNat m.tolerance.toNat),
  ("majority_quorum", ofOption (ofNat ·.toNat) m.majorityQuorum),
  ("enabled", .flag m.enabled)]

def ofDatum (d : Datum) : MergeDescription where
  inputs := (d.member "inputs").toList.map SignalId.ofDatum
  output := .ofDatum (d.member "output")
  method := .ofDatum (d.member "method")
  tolerance := (d.member "tolerance").toUInt32
  majorityQuorum := (d.member "majority_quorum").toOption Datum.toUInt8
  enabled := (d.member "enabled").toBool

end MergeDescription

namespace EngineDescription

/-- A list of records, empty when left out. -/
def listField (name : String) (shape : Shape) (rest : Fields) : Fields :=
  defaulted name (.list []) (.list shape) rest

def shape : Shape := .record "EngineDescription" <|
  defaulted "schema_version" (ofNat supportedSchema.toNat) .u8 <|
  defaulted "name" .null (.optional .text) <|
  listField "signals" SignalDescription.shape <|
  listField "merges" MergeDescription.shape <|
  listField "remaps" Remap.shape <|
  listField "scales" Scale.shape <|
  listField "fault_monitors" MonitorConfig.shape <|
  listField "pids" PidConfig.shape <|
  listField "verified_outputs" VerifiedConfig.shape <|
  listField "cyclic_outputs" CyclicConfig.shape .done

def toDatum (d : EngineDescription) : Datum := .record [
  ("schema_version", ofNat d.schemaVersion.toNat),
  ("name", ofOption .text d.name),
  ("signals", .list (d.signals.map SignalDescription.toDatum)),
  ("merges", .list (d.merges.map MergeDescription.toDatum)),
  ("remaps", .list (d.remaps.map Remap.toDatum)),
  ("scales", .list (d.scales.map Scale.toDatum)),
  ("fault_monitors", .list (d.monitors.map MonitorConfig.toDatum)),
  ("pids", .list (d.pids.map PidConfig.toDatum)),
  ("verified_outputs", .list (d.verified.map VerifiedConfig.toDatum)),
  ("cyclic_outputs", .list (d.cyclic.map CyclicConfig.toDatum))]

def ofDatum (d : Datum) : EngineDescription where
  schemaVersion := (d.member "schema_version").toUInt8
  name := (d.member "name").toOption Datum.toText
  signals := (d.member "signals").toList.map SignalDescription.ofDatum
  merges := (d.member "merges").toList.map MergeDescription.ofDatum
  remaps := (d.member "remaps").toList.map Remap.ofDatum
  scales := (d.member "scales").toList.map Scale.ofDatum
  monitors := (d.member "fault_monitors").toList.map MonitorConfig.ofDatum
  pids := (d.member "pids").toList.map PidConfig.ofDatum
  verified := (d.member "verified_outputs").toList.map VerifiedConfig.ofDatum
  cyclic := (d.member "cyclic_outputs").toList.map CyclicConfig.ofDatum

end EngineDescription

namespace SignalStatus

def shape : Shape := .choice (all.map spelling)

def toDatum (s : SignalStatus) : Datum := .text s.spelling

def ofDatum (d : Datum) : SignalStatus := d.toChoice all spelling

end SignalStatus

namespace DescriptionSummary

def toDatum (s : DescriptionSummary) : Datum := .record [
  ("signals", ofNat s.signals),
  ("merges", ofNat s.merges),
  ("remaps", ofNat s.remaps),
  ("scales", ofNat s.scales),
  ("fault_monitors", ofNat s.monitors),
  ("pids", ofNat s.pids),
  ("verified_outputs", ofNat s.verified),
  ("cyclic_outputs", ofNat s.cyclic),
  ("limp_actions", ofNat s.limpActions)]

end DescriptionSummary

namespace StepReport

def toDatum (r : StepReport) : Datum :=
  .record (r.counters.map fun (name, count) => (name, ofNat count.toNat))

end StepReport

end SignalGuard
