import SignalGuard.Engine.Config

/-!
# What the check of a configuration accepts

`EngineConfig.check_eq_ok_iff`: the check passes exactly the configurations
that are `Valid`. The rules say for every table what its entries have to be,
without positions and without an order of checks. Each lemma reads one checking
function's success as the rule it decides.
-/

namespace SignalGuard

-- ---------------------------------------------------------------------------
-- The check monad
-- ---------------------------------------------------------------------------

namespace Check

theorem bind_eq_ok_iff {x : Check} {f : Unit → Check} :
    x >>= f = .ok () ↔ x = .ok () ∧ f () = .ok () := by
  cases x <;> simp [bind, Except.bind]

theorem forM_eq_ok_iff {α : Type} {f : α → Check} {l : List α} :
    l.forM f = .ok () ↔ ∀ a ∈ l, f a = .ok () := by
  induction l with
  | nil => simp [pure, Except.pure]
  | cons a l ih =>
    rw [List.forall_mem_cons, ← ih]
    exact bind_eq_ok_iff

end Check

open Check (bind_eq_ok_iff forM_eq_ok_iff require_eq_ok_iff)

theorem SignalId.check_eq_ok_iff {role : SignalRole} {id : SignalId} :
    id.check role = .ok () ↔ id.isValid := require_eq_ok_iff

/-- The lower bound does not exceed the upper one, where both are given. -/
def ClampOrdered (lo hi : Option Int32) : Prop := ∀ l ∈ lo, ∀ h ∈ hi, l ≤ h

theorem checkClamp_eq_ok_iff {owner : ClampOwner} {index : Nat} {lo hi : Option Int32} :
    checkClamp owner index lo hi = .ok () ↔ ClampOrdered lo hi := by
  cases lo <;> cases hi <;> simp [checkClamp, ClampOrdered, require_eq_ok_iff]

theorem checkTable_eq_ok_iff {α : Type} {table : EngineTable} {check : Nat → α → Check}
    {rule : α → Prop} (h : ∀ i a, check i a = .ok () ↔ rule a) {entries : List α} :
    checkTable table check entries = .ok () ↔
      entries.length ≤ table.capacity ∧ ∀ a ∈ entries, rule a := by
  simp only [checkTable, forM_eq_ok_iff, bind_eq_ok_iff, require_eq_ok_iff, h, decide_eq_true_eq,
    Prod.forall, List.mem_zipIdx_iff_getElem?]
  constructor
  · intro hall
    refine ⟨?_, fun a ha => ?_⟩
    · -- the last entry lies below the capacity
      cases hl : entries.length with
      | zero => exact Nat.zero_le _
      | succ n =>
        have hn : n < entries.length := by omega
        exact (hall entries[n] n (List.getElem?_eq_getElem hn)).2
    · obtain ⟨i, hi⟩ := List.mem_iff_getElem?.mp ha
      exact (hall a i hi).1
  · rintro ⟨hlen, hrule⟩ a i hi
    obtain ⟨hlt, -⟩ := List.getElem?_eq_some_iff.mp hi
    exact ⟨hrule a (List.mem_of_getElem? hi), Nat.lt_of_lt_of_le hlt hlen⟩

-- ---------------------------------------------------------------------------
-- Entries
-- ---------------------------------------------------------------------------

structure Merge.Valid (m : Merge) : Prop where
  inputs_ne_nil : m.inputs.val ≠ []
  inputs : ∀ id ∈ m.inputs.val, id.isValid
  output : m.output.isValid
  output_not_input : m.output ∉ m.inputs.val
  quorum : ∀ q ∈ m.majorityQuorum, 1 ≤ q.toNat ∧ q.toNat ≤ m.inputs.val.length

theorem Merge.check_eq_ok_iff (index : Nat) (m : Merge) : m.check index = .ok () ↔ m.Valid := by
  simp only [Merge.check, bind_eq_ok_iff, require_eq_ok_iff, forM_eq_ok_iff,
    SignalId.check_eq_ok_iff]
  constructor
  · rintro ⟨hne, hin, hout, hnot, hq⟩
    refine ⟨by simpa using hne, hin, hout, by simpa using hnot, fun q hmem => ?_⟩
    rw [Option.mem_def] at hmem
    simpa [hmem, require_eq_ok_iff] using hq
  · rintro ⟨hne, hin, hout, hnot, hq⟩
    refine ⟨by simpa using hne, hin, hout, by simpa using hnot, ?_⟩
    cases h : m.majorityQuorum with
    | none => rfl
    | some q => simpa [require_eq_ok_iff] using hq q h

structure Remap.Valid (r : Remap) : Prop where
  input : r.input.isValid
  output : r.output.isValid

theorem Remap.check_eq_ok_iff (index : Nat) (r : Remap) : r.check index = .ok () ↔ r.Valid := by
  simp only [Remap.check, bind_eq_ok_iff, SignalId.check_eq_ok_iff]
  exact ⟨fun ⟨hi, ho⟩ => ⟨hi, ho⟩, fun ⟨hi, ho⟩ => ⟨hi, ho⟩⟩

structure Scale.Valid (s : Scale) : Prop where
  input : s.input.isValid
  output : s.output.isValid
  clamp : ClampOrdered s.clampMin s.clampMax

theorem Scale.check_eq_ok_iff (index : Nat) (s : Scale) : s.check index = .ok () ↔ s.Valid := by
  simp only [Scale.check, bind_eq_ok_iff, SignalId.check_eq_ok_iff, checkClamp_eq_ok_iff]
  exact ⟨fun ⟨hi, ho, hc⟩ => ⟨hi, ho, hc⟩, fun ⟨hi, ho, hc⟩ => ⟨hi, ho, hc⟩⟩

structure LimpAction.Valid (scaleCount : Nat) (a : LimpAction) : Prop where
  target : a.targetScale.toNat < scaleCount
  clamp : ClampOrdered a.clampMin a.clampMax

structure MonitorConfig.Valid (scaleCount : Nat) (c : MonitorConfig) : Prop where
  watched : c.watched.isValid
  faultOutput : c.faultOutput.isValid
  watched_ne_output : c.watched ≠ c.faultOutput
  range : c.checkRange → c.minValue ≤ c.maxValue
  timeout : c.checkStaleness → c.staleTimeout ≠ 0
  limp : ∀ a ∈ c.limp, a.Valid scaleCount

theorem MonitorConfig.check_eq_ok_iff (scaleCount index : Nat) (c : MonitorConfig) :
    c.check scaleCount index = .ok () ↔ c.Valid scaleCount := by
  have hrange (b : Bool) (l h : Int32) : (!b || decide (l ≤ h)) = true ↔ (b → l ≤ h) := by
    cases b <;> simp
  have htimeout (b : Bool) (t : Time) : (!b || t != 0) = true ↔ (b → t ≠ 0) := by
    cases b <;> simp
  simp only [MonitorConfig.check, bind_eq_ok_iff, require_eq_ok_iff, SignalId.check_eq_ok_iff,
    bne_iff_ne, hrange, htimeout]
  constructor
  · rintro ⟨hw, ho, hne, hr, ht, hl⟩
    refine ⟨hw, ho, hne, hr, ht, fun a hmem => ?_⟩
    rw [Option.mem_def] at hmem
    simp only [hmem, bind_eq_ok_iff, require_eq_ok_iff, checkClamp_eq_ok_iff,
      decide_eq_true_eq] at hl
    exact ⟨hl.1, hl.2⟩
  · rintro ⟨hw, ho, hne, hr, ht, hl⟩
    refine ⟨hw, ho, hne, hr, ht, ?_⟩
    cases h : c.limp with
    | none => rfl
    | some a =>
      obtain ⟨htarget, hclamp⟩ := hl a h
      simpa [bind_eq_ok_iff, require_eq_ok_iff, checkClamp_eq_ok_iff] using
        And.intro htarget hclamp

structure PidConfig.Valid (c : PidConfig) : Prop where
  setpoint : c.setpoint.isValid
  measurement : c.measurement.isValid
  output : c.output.isValid
  output_not_input : c.output ≠ c.setpoint ∧ c.output ≠ c.measurement
  outputLimits : c.outputMin ≤ c.outputMax
  integralLimits : c.integralMin ≤ c.integralMax

theorem PidConfig.check_eq_ok_iff (index : Nat) (c : PidConfig) :
    c.check index = .ok () ↔ c.Valid := by
  simp only [PidConfig.check, bind_eq_ok_iff, require_eq_ok_iff, SignalId.check_eq_ok_iff,
    checkClamp_eq_ok_iff, Bool.and_eq_true, bne_iff_ne, ClampOrdered, Option.mem_some,
    forall_eq']
  exact ⟨fun ⟨hs, hm, ho, hn, hout, hint⟩ => ⟨hs, hm, ho, hn, hout, hint⟩,
    fun ⟨hs, hm, ho, hn, hout, hint⟩ => ⟨hs, hm, ho, hn, hout, hint⟩⟩

structure VerifiedConfig.Valid (c : VerifiedConfig) : Prop where
  command : c.command.isValid
  feedback : c.feedback.isValid
  output : c.output.isValid
  output_not_input : c.output ≠ c.command ∧ c.output ≠ c.feedback

theorem VerifiedConfig.check_eq_ok_iff (index : Nat) (c : VerifiedConfig) :
    c.check index = .ok () ↔ c.Valid := by
  simp only [VerifiedConfig.check, bind_eq_ok_iff, require_eq_ok_iff, SignalId.check_eq_ok_iff,
    Bool.and_eq_true, bne_iff_ne]
  exact ⟨fun ⟨hc, hf, ho, hn⟩ => ⟨hc, hf, ho, hn⟩, fun ⟨hc, hf, ho, hn⟩ => ⟨hc, hf, ho, hn⟩⟩

structure CyclicConfig.Valid (c : CyclicConfig) : Prop where
  source : c.source.isValid
  period : c.period ≠ 0

theorem CyclicConfig.check_eq_ok_iff (index : Nat) (c : CyclicConfig) :
    c.check index = .ok () ↔ c.Valid := by
  simp only [CyclicConfig.check, bind_eq_ok_iff, require_eq_ok_iff, SignalId.check_eq_ok_iff,
    bne_iff_ne]
  exact ⟨fun ⟨hs, hp⟩ => ⟨hs, hp⟩, fun ⟨hs, hp⟩ => ⟨hs, hp⟩⟩

-- ---------------------------------------------------------------------------
-- Limp targets
-- ---------------------------------------------------------------------------

/-- The monitors do not degrade the same scale. -/
def MonitorConfig.LimpApart (c d : MonitorConfig) : Prop :=
  ∀ a ∈ c.limp, ∀ b ∈ d.limp, a.targetScale ≠ b.targetScale

theorem limpOwner?_eq_none_iff {monitors : List MonitorConfig} {scale : UInt8} :
    limpOwner? monitors scale = none ↔ ∀ c ∈ monitors, ∀ a ∈ c.limp, a.targetScale ≠ scale := by
  simp only [limpOwner?, List.findIdx?_eq_none_iff]
  refine forall₂_congr fun c _ => ?_
  cases c.limp <;> simp

theorem checkLimpTargets_eq_ok_iff {monitors : List MonitorConfig} :
    checkLimpTargets monitors = .ok () ↔ monitors.Pairwise MonitorConfig.LimpApart := by
  simp only [checkLimpTargets, forM_eq_ok_iff, Prod.forall, List.mem_zipIdx_iff_getElem?,
    List.pairwise_iff_getElem]
  constructor
  · intro h i j hi hj hlt a ha b hb
    have hentry := h monitors[j] j (List.getElem?_eq_getElem hj)
    rw [Option.mem_def] at hb
    simp only [hb] at hentry
    cases ho : limpOwner? (monitors.take j) b.targetScale with
    | none =>
      have hmem : monitors[i] ∈ monitors.take j :=
        List.mem_take_iff_getElem.mpr ⟨i, by omega, rfl⟩
      exact limpOwner?_eq_none_iff.mp ho _ hmem a ha
    | some first => simp [ho] at hentry
  · intro h c j hc
    obtain ⟨hj, rfl⟩ := List.getElem?_eq_some_iff.mp hc
    cases hl : monitors[j].limp with
    | none => rfl
    | some b =>
      have hnone : limpOwner? (monitors.take j) b.targetScale = none := by
        refine limpOwner?_eq_none_iff.mpr fun d hd a ha => ?_
        obtain ⟨i, hi, rfl⟩ := List.mem_take_iff_getElem.mp hd
        exact h i j (by omega) hj (by omega) a ha b hl
      simp [hnone]

-- ---------------------------------------------------------------------------
-- Configurations
-- ---------------------------------------------------------------------------

structure EngineConfig.Valid (c : EngineConfig) : Prop where
  signals_fit : c.signals.length ≤ EngineTable.signals.capacity
  signals : ∀ s ∈ c.signals, s.id.isValid
  merges_fit : c.merges.length ≤ EngineTable.merges.capacity
  merges : ∀ m ∈ c.merges, m.Valid
  remaps_fit : c.remaps.length ≤ EngineTable.remaps.capacity
  remaps : ∀ r ∈ c.remaps, r.Valid
  scales_fit : c.scales.length ≤ EngineTable.scales.capacity
  scales : ∀ s ∈ c.scales, s.Valid
  monitors_fit : c.monitors.length ≤ EngineTable.monitors.capacity
  monitors : ∀ m ∈ c.monitors, m.config.Valid c.scales.length
  limpTargets : (c.monitors.map (·.config)).Pairwise MonitorConfig.LimpApart
  pids_fit : c.pids.length ≤ EngineTable.pids.capacity
  pids : ∀ p ∈ c.pids, p.Valid
  verified_fit : c.verified.length ≤ EngineTable.verified.capacity
  verified : ∀ v ∈ c.verified, v.Valid
  cyclic_fit : c.cyclic.length ≤ EngineTable.cyclic.capacity
  cyclic : ∀ o ∈ c.cyclic, o.Valid

namespace EngineConfig

theorem check_eq_ok_iff {c : EngineConfig} : c.check = .ok () ↔ c.Valid := by
  have hsignal (i : Nat) (s : SignalConfig) : s.check i = .ok () ↔ s.id.isValid :=
    SignalId.check_eq_ok_iff
  simp only [check, bind_eq_ok_iff]
  rw [checkTable_eq_ok_iff hsignal, checkTable_eq_ok_iff Merge.check_eq_ok_iff,
    checkTable_eq_ok_iff Remap.check_eq_ok_iff, checkTable_eq_ok_iff Scale.check_eq_ok_iff,
    checkTable_eq_ok_iff (MonitorConfig.check_eq_ok_iff _), checkLimpTargets_eq_ok_iff,
    checkTable_eq_ok_iff PidConfig.check_eq_ok_iff,
    checkTable_eq_ok_iff VerifiedConfig.check_eq_ok_iff,
    checkTable_eq_ok_iff CyclicConfig.check_eq_ok_iff, List.length_map, List.forall_mem_map]
  constructor
  · rintro ⟨⟨hs, hs'⟩, ⟨hm, hm'⟩, ⟨hr, hr'⟩, ⟨hc, hc'⟩, ⟨ho, ho'⟩, hl, ⟨hp, hp'⟩, ⟨hv, hv'⟩,
      hy, hy'⟩
    exact ⟨hs, hs', hm, hm', hr, hr', hc, hc', ho, ho', hl, hp, hp', hv, hv', hy, hy'⟩
  · rintro ⟨hs, hs', hm, hm', hr, hr', hc, hc', ho, ho', hl, hp, hp', hv, hv', hy, hy'⟩
    exact ⟨⟨hs, hs'⟩, ⟨hm, hm'⟩, ⟨hr, hr'⟩, ⟨hc, hc'⟩, ⟨ho, ho'⟩, hl, ⟨hp, hp'⟩, ⟨hv, hv'⟩, hy, hy'⟩

end EngineConfig

end SignalGuard
