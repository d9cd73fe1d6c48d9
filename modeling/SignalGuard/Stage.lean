/-!
# Stages with a state of their own

Monitors, controllers, verified and cyclic outputs keep a state from step to
step and share the signal table, so a phase visits them in order and threads
the shared part through. `sweep` is that visit. Every stage learns its position
in the configuration.
-/

namespace SignalGuard

variable {α σ : Type}

/-- Visits the stages from position `i` on. -/
def sweepFrom (visit : Nat → α → σ → α × σ) (i : Nat) : List α → σ → List α × σ
  | [], s => ([], s)
  | a :: as, s =>
    let (a', s') := visit i a s
    let (as', s'') := sweepFrom visit (i + 1) as s'
    (a' :: as', s'')

def sweep (visit : Nat → α → σ → α × σ) (as : List α) (s : σ) : List α × σ := sweepFrom visit 0 as s

@[simp] theorem sweepFrom_nil (visit : Nat → α → σ → α × σ) (i : Nat) (s : σ) :
    sweepFrom visit i [] s = ([], s) := rfl

theorem sweepFrom_cons (visit : Nat → α → σ → α × σ) (i : Nat) (a : α) (as : List α) (s : σ) :
    sweepFrom visit i (a :: as) s =
      ((visit i a s).1 :: (sweepFrom visit (i + 1) as (visit i a s).2).1,
        (sweepFrom visit (i + 1) as (visit i a s).2).2) := rfl

theorem length_sweepFrom (visit : Nat → α → σ → α × σ) (i : Nat) (as : List α) (s : σ) :
    (sweepFrom visit i as s).1.length = as.length := by
  induction as generalizing i s with
  | nil => rfl
  | cons a as ih => simp [sweepFrom_cons, ih]

/-- Position `k` is visited once the stages before it have been. -/
theorem getElem?_sweepFrom (visit : Nat → α → σ → α × σ) (i : Nat) (as : List α) (s : σ) (k : Nat) :
    (sweepFrom visit i as s).1[k]? =
      as[k]?.map fun a => (visit (i + k) a (sweepFrom visit i (as.take k) s).2).1 := by
  induction as generalizing i s k with
  | nil => simp
  | cons a as ih =>
    cases k with
    | zero => simp [sweepFrom_cons]
    | succ k =>
      have hnext : i + 1 + k = i + (k + 1) := by omega
      simp [sweepFrom_cons, ih, hnext]

/-- A sweep that goes one position further visits one stage more. -/
theorem sweepFrom_take_succ (visit : Nat → α → σ → α × σ) (i : Nat) {as : List α} {a : α} (s : σ)
    {k : Nat} (h : as[k]? = some a) :
    (sweepFrom visit i (as.take (k + 1)) s).2 =
      (visit (i + k) a (sweepFrom visit i (as.take k) s).2).2 := by
  induction as generalizing i s k with
  | nil => simp at h
  | cons b as ih =>
    cases k with
    | zero =>
      obtain rfl : b = a := by simpa using h
      simp [sweepFrom_cons]
    | succ k =>
      have hnext : i + 1 + k = i + (k + 1) := by omega
      rw [List.take_succ_cons, List.take_succ_cons, sweepFrom_cons, sweepFrom_cons,
        ih (i + 1) _ (by simpa using h), hnext]

/-- What every visit keeps of the shared part, the sweep keeps. -/
theorem sweepFrom_preserves {visit : Nat → α → σ → α × σ} {P : σ → Prop}
    (h : ∀ i a s, P s → P (visit i a s).2) (i : Nat) (as : List α) {s : σ} (hs : P s) :
    P (sweepFrom visit i as s).2 := by
  induction as generalizing i s with
  | nil => exact hs
  | cons a as ih => exact ih (i + 1) (h i a s hs)

/-- What every visit keeps of its stage, the sweep keeps of all of them. -/
theorem map_sweepFrom {β : Type} {visit : Nat → α → σ → α × σ} {f : α → β}
    (h : ∀ i a s, f (visit i a s).1 = f a) (i : Nat) (as : List α) (s : σ) :
    (sweepFrom visit i as s).1.map f = as.map f := by
  induction as generalizing i s with
  | nil => rfl
  | cons a as ih => rw [sweepFrom_cons, List.map_cons, h, ih, List.map_cons]

/-- Two passes of the same stages over related shared parts stay related where
every visit keeps the relation and leaves equal stages behind. -/
theorem sweepFrom_rel {visit : Nat → α → σ → α × σ} {R : σ → σ → Prop}
    (h : ∀ i a s s', R s s' → (visit i a s).1 = (visit i a s').1 ∧
      R (visit i a s).2 (visit i a s').2)
    (i : Nat) (as : List α) {s s' : σ} (hs : R s s') :
    (sweepFrom visit i as s).1 = (sweepFrom visit i as s').1 ∧
      R (sweepFrom visit i as s).2 (sweepFrom visit i as s').2 := by
  induction as generalizing i s s' with
  | nil => exact ⟨rfl, hs⟩
  | cons a as ih =>
    obtain ⟨hstage, hshared⟩ := h i a s s' hs
    obtain ⟨hstages, hshared⟩ := ih (i + 1) hshared
    refine ⟨?_, hshared⟩
    rw [sweepFrom_cons, sweepFrom_cons, hstage, hstages]

/-- A change of the stages and of the shared part that every visit commutes
with commutes with the sweep. -/
theorem sweepFrom_map {visit : Nat → α → σ → α × σ} {f : α → α} {g : σ → σ}
    (h : ∀ i a s, visit i (f a) (g s) = (f (visit i a s).1, g (visit i a s).2))
    (i : Nat) (as : List α) (s : σ) :
    sweepFrom visit i (as.map f) (g s) =
      ((sweepFrom visit i as s).1.map f, g (sweepFrom visit i as s).2) := by
  induction as generalizing i s with
  | nil => rfl
  | cons a as ih => rw [List.map_cons, sweepFrom_cons, h, ih, sweepFrom_cons, List.map_cons]

/-- Stages whose visit does nothing can be left out where visits do not depend
on positions. -/
theorem sweepFrom_filter {visit : Nat → α → σ → α × σ} {p : α → Bool}
    (hposition : ∀ i j, visit i = visit j) (hkept : ∀ i a s, p (visit i a s).1 = p a)
    (hidle : ∀ i a s, p a = false → visit i a s = (a, s)) (i j : Nat) (as : List α) (s : σ) :
    sweepFrom visit j (as.filter p) s =
      ((sweepFrom visit i as s).1.filter p, (sweepFrom visit i as s).2) := by
  induction as generalizing i j s with
  | nil => rfl
  | cons a as ih =>
    cases ha : p a with
    | true =>
      rw [List.filter_cons_of_pos ha, sweepFrom_cons, hposition j i, ih (i + 1), sweepFrom_cons,
        List.filter_cons_of_pos ((hkept i a s).trans ha)]
    | false =>
      rw [List.filter_cons_of_neg (by simp [ha]), ih (i + 1), sweepFrom_cons, hidle i a s ha,
        List.filter_cons_of_neg (by simp [ha])]

end SignalGuard
