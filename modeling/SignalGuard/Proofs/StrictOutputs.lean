import SignalGuard.Proofs.CyclicLaws
import SignalGuard.Proofs.StageUpdates
import SignalGuard.Proofs.StrictReadings

/-!
# Transforms, controllers and outputs without fallbacks

The strict stages that run after the monitors. A strict controller also has no
result where its limits are inverted, where a limited term does not fit 64
bits, and where the output does not fit a word. A strict cyclic output has none
where the buffer is full. There is always room, because the buffer holds more
events than there are outputs (`runCyclic?_eq_some`).
-/

namespace SignalGuard

-- ---------------------------------------------------------------------------
-- Transforms
-- ---------------------------------------------------------------------------

/-- As `relay`, for ids that have to have slots. -/
def SignalTable.relay? (t : SignalTable) (input output : SignalId) (now : Time)
    (f : Int32 → Int32) : Option SignalTable := do
  let source ← t.get? input
  t.write? output (source.relayed now f)

theorem SignalTable.relay?_eq_some {input output : SignalId} (hin : input.isValid)
    (hout : output.isValid) (t : SignalTable) (now : Time) (f : Int32 → Int32) :
    t.relay? input output now f = some (t.relay input output now f) := by
  obtain ⟨source, hsource⟩ := t.exists_get? hin
  simp only [relay?, relay, hsource, t.write?_eq_some hout, Option.bind_eq_bind, Option.bind_some]
  rfl

def runRemaps? (remaps : List Remap) (now : Time) (t : SignalTable) : Option SignalTable :=
  (remaps.filter (·.enabled)).foldlM (fun t r => t.relay? r.input r.output now r.apply) t

theorem runRemaps?_eq_some {remaps : List Remap} (hv : ∀ r ∈ remaps, r.Valid) (now : Time)
    (t : SignalTable) : runRemaps? remaps now t = some (runRemaps remaps now t) := by
  refine foldlM_eq_some (fun r hr t => ?_) t
  have hvalid := hv r (List.mem_filter.mp hr).1
  exact t.relay?_eq_some hvalid.input hvalid.output now r.apply

def runScales? (scales : List Scale) (now : Time) (t : SignalTable) : Option SignalTable :=
  (scales.filter (·.enabled)).foldlM (fun t s => t.relay? s.input s.output now s.apply) t

theorem runScales?_eq_some {scales : List Scale}
    (hv : ∀ s ∈ scales, s.input.isValid ∧ s.output.isValid) (now : Time) (t : SignalTable) :
    runScales? scales now t = some (runScales scales now t) := by
  refine foldlM_eq_some (fun s hs t => ?_) t
  obtain ⟨hin, hout⟩ := hv s (List.mem_filter.mp hs).1
  exact t.relay?_eq_some hin hout now s.apply

-- ---------------------------------------------------------------------------
-- Controllers
-- ---------------------------------------------------------------------------

namespace Pid

/-- As `limit`, for bounds that have to be in order and a result that has to
fit 64 bits. -/
def limit? (lo hi : Int32) (i : Int) : Option Int :=
  if lo ≤ hi ∧ Int64.minValue.toInt ≤ limit lo hi i ∧ limit lo hi i ≤ Int64.maxValue.toInt then
    some (limit lo hi i)
  else none

def integrate? (c : PidConfig) (integral error : Int) (dt : Nat) : Option Int :=
  if c.ki ≠ 0 ∧ error.natAbs > c.deadband.toNat then
    limit? c.integralMin c.integralMax (integral + (error * dt).tdiv 1000000)
  else some integral

/-- As `control`, for a limited sum that has to fit a word. -/
def control? (c : PidConfig) (error integral change : Int) (dt : Nat) : Option Int32 := do
  let total ← limit? c.outputMin c.outputMax
    (proportional c error + integralTerm c integral + derivative c change dt)
  narrow? total

def update? (p : Pid) (setpoint measurement : Int32) (now : Time) : Option (Pid × Option Int32) :=
  match p.memory with
  | none => some ({ p with memory := some ⟨0, 0, setpoint, now⟩ }, none)
  | some m =>
    let m := noteSetpoint p.config setpoint m
    let error := errorOf setpoint measurement
    let dt := timeStep p.config m now
    if dt = 0 then some ({ p with memory := some m }, none)
    else do
      let integral ← integrate? p.config m.integral error dt
      let output ← control? p.config error integral (error - m.lastError) dt
      some ({ p with memory := some { m with integral, lastError := error, lastTime := now } },
        some output)

def visit? (now : Time) (_ : Nat) (p : Pid) (t : SignalTable) : Option (Pid × SignalTable) :=
  if p.config.enabled then do
    let setpoint ← t.get? p.config.setpoint
    let measurement ← t.get? p.config.measurement
    match badInput? setpoint measurement with
    | some status =>
      let t' ← t.write? p.config.output fun out =>
        { out with status, timestamp := now, updated := out.updated || out.status != status }
      some (p.reset, t')
    | none =>
      let (p', output) ← p.update? setpoint.value measurement.value now
      let t' ← t.write? p.config.output fun out => output.elim out fun value =>
        { out with value, status := .ok, timestamp := now, updated := true }
      some (p', t')
  else some (p, t)

theorem limit_bounds {lo hi : Int32} (h : lo ≤ hi) (i : Int) :
    lo.toInt ≤ limit lo hi i ∧ limit lo hi i ≤ hi.toInt := by
  rw [Int32.le_iff_toInt_le] at h
  unfold limit
  omega

/-- What lies between two words fits 64 bits. -/
theorem limit?_eq_some {lo hi : Int32} (h : lo ≤ hi) (i : Int) :
    limit? lo hi i = some (limit lo hi i) := by
  obtain ⟨hlo, hhi⟩ := limit_bounds h i
  have hmin := lo.le_toInt
  have hmax := hi.toInt_lt
  rw [limit?, if_pos]
  rw [Int64.toInt_minValue, Int64.toInt_maxValue]
  exact ⟨h, by omega, by omega⟩

theorem integrate?_eq_some {c : PidConfig} (hv : c.Valid) (integral error : Int) (dt : Nat) :
    integrate? c integral error dt = some (integrate c integral error dt) := by
  unfold integrate? integrate
  split
  · exact limit?_eq_some hv.integralLimits _
  · rfl

theorem control?_eq_some {c : PidConfig} (hv : c.Valid) (error integral change : Int) (dt : Nat) :
    control? c error integral change dt = some (control c error integral change dt) := by
  unfold control? control
  generalize proportional c error + integralTerm c integral + derivative c change dt = total
  obtain ⟨hlo, hhi⟩ := limit_bounds hv.outputLimits total
  obtain ⟨w, hw⟩ := Option.isSome_iff_exists.mp (isSome_narrow? hlo hhi)
  rw [limit?_eq_some hv.outputLimits, Option.bind_eq_bind, Option.bind_some, hw,
    narrow?_eq_some_iff.mp hw, Int32.ofIntClamp_toInt]

theorem update?_eq_some {p : Pid} (hv : p.config.Valid) (setpoint measurement : Int32)
    (now : Time) :
    p.update? setpoint measurement now = some (p.update setpoint measurement now) := by
  unfold update? update
  cases p.memory with
  | none => rfl
  | some m =>
    simp only [integrate?_eq_some hv, control?_eq_some hv, Option.bind_eq_bind, Option.bind_some]
    split <;> rfl

theorem visit?_eq_some {p : Pid} (hv : p.config.Valid) (now : Time) (index : Nat)
    (t : SignalTable) : p.visit? now index t = some (p.visit now index t) := by
  unfold visit? visit
  split
  · obtain ⟨setpoint, hsetpoint⟩ := t.exists_get? hv.setpoint
    obtain ⟨measurement, hmeasurement⟩ := t.exists_get? hv.measurement
    simp only [run, hsetpoint, hmeasurement, Option.bind_eq_bind, Option.bind_some,
      t.write?_eq_some hv.output, update?_eq_some hv]
    cases badInput? setpoint measurement with
    | some status => rfl
    | none =>
      obtain ⟨p', output⟩ := p.update setpoint.value measurement.value now
      cases output with
      | none => simp [t.modify_id]
      | some value => rfl
  · rfl

end Pid

def runPids? (pids : List Pid) (now : Time) (t : SignalTable) : Option (List Pid × SignalTable) :=
  sweepFrom? (Pid.visit? now) 0 pids t

theorem runPids?_eq_some {pids : List Pid} (hv : ∀ p ∈ pids, p.config.Valid) (now : Time)
    (t : SignalTable) : runPids? pids now t = some (runPids pids now t) :=
  (sweepFrom?_eq_some (P := fun _ _ => True)
    (fun j t p hp _ _ => ⟨Pid.visit?_eq_some (hv p hp) now j t, trivial⟩) trivial).1

-- ---------------------------------------------------------------------------
-- Verified outputs
-- ---------------------------------------------------------------------------

namespace Verified

def visit? (now : Time) (_ : Nat) (v : Verified) :
    SignalTable × StepReport → Option (Verified × SignalTable × StepReport)
  | (t, r) =>
    if v.config.enabled then do
      let command ← t.get? v.config.command
      let feedback ← t.get? v.config.feedback
      let (verdict, pursuit) := judge v.config (v.follow command.value now) now
      let failed := verdict == .checked && !confirms v.config command.value feedback
      let t' ← t.write? v.config.output (publish v.config verdict command.value feedback now)
      some ({ v with pursuit := some pursuit }, t',
        { r with verificationsFailed := r.verificationsFailed.succIf failed })
    else some (v, t, r)

theorem visit?_eq_some {v : Verified} (hv : v.config.Valid) (now : Time) (index : Nat)
    (s : SignalTable × StepReport) : v.visit? now index s = some (v.visit now index s) := by
  obtain ⟨t, r⟩ := s
  simp only [visit?, visit]
  split
  · obtain ⟨command, hcommand⟩ := t.exists_get? hv.command
    obtain ⟨feedback, hfeedback⟩ := t.exists_get? hv.feedback
    obtain ⟨out, hout⟩ := t.exists_get? hv.output
    simp [run, hcommand, hfeedback, hout, t.write?_eq_some hv.output]
  · rfl

end Verified

def runVerified? (outputs : List Verified) (now : Time) (t : SignalTable) (r : StepReport) :
    Option (List Verified × SignalTable × StepReport) :=
  sweepFrom? (Verified.visit? now) 0 outputs (t, r)

theorem runVerified?_eq_some {outputs : List Verified} (hv : ∀ v ∈ outputs, v.config.Valid)
    (now : Time) (t : SignalTable) (r : StepReport) :
    runVerified? outputs now t r = some (runVerified outputs now t r) :=
  (sweepFrom?_eq_some (P := fun _ _ => True)
    (fun j s v hmem _ _ => ⟨Verified.visit?_eq_some (hv v hmem) now j s, trivial⟩) trivial).1

-- ---------------------------------------------------------------------------
-- Cyclic outputs
-- ---------------------------------------------------------------------------

namespace Cyclic

def visit? (t : SignalTable) (now : Time) (_ : Nat) (c : Cyclic) :
    OutputBuffer × StepReport → Option (Cyclic × OutputBuffer × StepReport)
  | (buffer, r) =>
    if c.due now then do
      let source ← t.get? c.config.source
      let buffer' ← buffer.push? (c.config.event source.value now)
      some (c.advance, buffer', { r with outputsEmitted := r.outputsEmitted.succ })
    else some (c, buffer, r)

/-- At position `j` the buffer holds at most `j` events, and nothing has been
dropped. -/
def Roomy (dropped : Counter) (j : Nat) (s : OutputBuffer × StepReport) : Prop :=
  s.1.events.size ≤ j ∧ s.2.outputsDropped = dropped

theorem visit?_eq_some {t : SignalTable} {c : Cyclic} (hv : c.config.Valid) (now : Time)
    {dropped : Counter} {j : Nat} (hj : j < bufferCapacity) {s : OutputBuffer × StepReport}
    (hs : Roomy dropped j s) :
    c.visit? t now j s = some (c.visit t now j s) ∧
      Roomy dropped (j + 1) (c.visit t now j s).2 := by
  obtain ⟨b, r⟩ := s
  obtain ⟨hsize, hdropped⟩ := hs
  cases hdue : c.due now with
  | false =>
    rw [visit_idle j hdue]
    exact ⟨by simp [visit?, hdue], Nat.le_succ_of_le hsize, hdropped⟩
  | true =>
    obtain ⟨source, hsource⟩ := t.exists_get? hv.source
    have hroom : b.events.size < bufferCapacity := Nat.lt_of_le_of_lt hsize hj
    have hpush : b.push? (c.config.event source.value now) =
        some ⟨b.events.push (c.config.event source.value now), by
          rw [Array.size_push]; exact hroom⟩ := dif_pos hroom
    have hemission : c.emission? t now = some (c.config.event source.value now) := by
      rw [emission?, hsource]
      rfl
    rw [visit_fires j hdue hemission hpush]
    refine ⟨by simp [visit?, hdue, hsource, hpush], ?_, hdropped⟩
    rw [Array.size_push]
    exact Nat.succ_le_succ hsize

end Cyclic

def runCyclic? (outputs : List Cyclic) (t : SignalTable) (now : Time) (b : OutputBuffer)
    (r : StepReport) : Option (List Cyclic × OutputBuffer × StepReport) :=
  sweepFrom? (Cyclic.visit? t now) 0 outputs (b, r)

theorem runCyclic?_eq_some {outputs : List Cyclic} (hv : ∀ o ∈ outputs, o.config.Valid)
    (hfit : outputs.length ≤ bufferCapacity) (t : SignalTable) (now : Time) (r : StepReport) :
    runCyclic? outputs t now .empty r = some (runCyclic outputs t now .empty r) ∧
      (runCyclic outputs t now .empty r).2.2.outputsDropped = r.outputsDropped := by
  obtain ⟨hrun, -, hdropped⟩ := sweepFrom?_eq_some (P := Cyclic.Roomy r.outputsDropped)
    (fun j s o ho hj hs => Cyclic.visit?_eq_some (t := t) (hv o ho) now (by omega) hs)
    (s := (.empty, r)) ⟨Nat.le_refl 0, rfl⟩
  exact ⟨hrun, hdropped⟩

end SignalGuard
