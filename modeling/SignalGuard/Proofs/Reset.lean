import SignalGuard.Proofs.LimpHome

/-!
# A reset undoes every history

`Engine.reset_after`: after any calls, a reset gives back the engine that was
built, in every component. What a stage remembers is dropped with the stage, so
only the scales need an argument. Their own parameters are in the monitors'
keeping, which `Engine.LimpHome` accounts for.
-/

namespace SignalGuard

namespace Engine

variable {c : EngineConfig} {e : Engine}

/-- A reset goes back to the configuration in all but the scales. -/
theorem ConfiguredBy.reset_eq (h : e.ConfiguredBy c) :
    e.reset = { c.toEngine with scales := e.reset.scales } := by
  have hmonitors : e.monitors.map Monitor.reset = c.toEngine.monitors := by
    simp only [EngineConfig.toEngine, ← h.monitors, List.map_map]
    rfl
  have hpids : e.pids.map Pid.reset = c.toEngine.pids := by
    simp only [EngineConfig.toEngine, ← h.pids, List.map_map]
    rfl
  have hverified : e.verified.map Verified.reset = c.toEngine.verified := by
    simp only [EngineConfig.toEngine, ← h.verified, List.map_map]
    rfl
  have hcyclic : e.cyclic.map Cyclic.reset = c.toEngine.cyclic := by
    simp only [EngineConfig.toEngine, ← h.cyclic, List.map_map]
    rfl
  rw [Engine.reset, hmonitors, hpids, hverified, hcyclic, h.signals, h.merges, h.remaps]
  rfl

/-- A reset gives back the engine that was built, so that it also answers every
further call as that engine does. -/
theorem reset_after (hb : c.build = .ok e) (calls : List Call) :
    (e.after calls).reset = e ∧ ∀ more, (e.after calls).reset.trace more = e.trace more := by
  obtain ⟨hcheck, rfl⟩ := EngineConfig.build_eq_ok_iff.mp hb
  have hv := EngineConfig.check_eq_ok_iff.mp hcheck
  have hc := configuredBy_after (configuredBy_toEngine c) calls
  have hscales := (limpHome_after hv calls).reset_scales (hc.apart hv)
  have heq : (c.toEngine.after calls).reset = c.toEngine := by
    rw [hc.reset_eq, hscales]
    rfl
  exact ⟨heq, fun more => by rw [heq]⟩

theorem reset_cascade :
    EngineConfig.cascade.build = .ok cascade ∧
      (cascade.after [.step 0 (Event.excursion 0)]).scales.map Scale.scaleFactor = [50] ∧
      (cascade.after [.step 0 (Event.excursion 0)]).reset = cascade ∧
      (cascade.after [.step 0 (Event.excursion 0)]).reset.trace [.step 10 []] =
        cascade.trace [.step 10 []] :=
  ⟨build_cascade, by decide +kernel,
    (reset_after build_cascade [.step 0 (Event.excursion 0)]).1,
    (reset_after build_cascade [.step 0 (Event.excursion 0)]).2 [.step 10 []]⟩

end Engine

end SignalGuard
