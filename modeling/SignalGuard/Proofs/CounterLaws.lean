import Mathlib.Data.List.Basic
import SignalGuard.Report
import SignalGuard.Stage

/-!
# How counters add up

A phase counts one by one, stage after stage, and the totals add the reports of
the steps. Neither wraps around: both come to the exact sum stopped at the
largest counter (`Counter.toNat_addNat`, `StepReport.count_add`).
-/

namespace SignalGuard

-- ---------------------------------------------------------------------------
-- Counters
-- ---------------------------------------------------------------------------

namespace Counter

/-- The counter after so many more. -/
def addNat (c : Counter) (n : Nat) : Counter := UInt32.ofNatClamp (c.toNat + n)

theorem toNat_addNat (c : Counter) (n : Nat) :
    (c.addNat n).toNat = min (UInt32.size - 1) (c.toNat + n) := by
  unfold addNat
  by_cases h : c.toNat + n < UInt32.size
  · rw [UInt32.toNat_ofNatClamp_of_lt h]
    exact (Nat.min_eq_right (Nat.le_sub_one_of_lt h)).symm
  · rw [UInt32.toNat_ofNatClamp_of_le (Nat.le_of_not_lt h)]
    exact (Nat.min_eq_left (Nat.le_trans (Nat.sub_le _ _) (Nat.le_of_not_lt h))).symm

theorem toNat_zero_addNat {n : Nat} (h : n < UInt32.size) : (addNat 0 n).toNat = n := by
  rw [toNat_addNat, UInt32.toNat_zero, Nat.zero_add]
  exact Nat.min_eq_right (Nat.le_sub_one_of_lt h)

@[simp] theorem addNat_zero (c : Counter) : c.addNat 0 = c := by
  have hlt := c.toNat_lt_size
  refine UInt32.toNat_inj.mp ?_
  rw [toNat_addNat]
  omega

theorem addNat_addNat (c : Counter) (m n : Nat) : (c.addNat m).addNat n = c.addNat (m + n) := by
  refine UInt32.toNat_inj.mp ?_
  rw [toNat_addNat, toNat_addNat, toNat_addNat]
  omega

theorem succ_eq_addNat (c : Counter) : c.succ = c.addNat 1 := by
  refine UInt32.toNat_inj.mp ?_
  rw [toNat_succ, toNat_addNat]

theorem succIf_eq_addNat (condition : Bool) (c : Counter) :
    c.succIf condition = c.addNat (if condition then 1 else 0) := by
  cases condition with
  | true => exact c.succ_eq_addNat
  | false => exact c.addNat_zero.symm

theorem foldl_succ {α : Type} (as : List α) (c : Counter) :
    as.foldl (fun n _ => n.succ) c = c.addNat as.length := by
  induction as generalizing c with
  | nil => exact c.addNat_zero.symm
  | cons a as ih =>
    rw [List.foldl_cons, ih, succ_eq_addNat, addNat_addNat, List.length_cons, Nat.add_comm]

end Counter

/-- A counter to which every visit adds one if something holds of the stage
before and after it. -/
theorem sweepFrom_counts {α σ : Type} {visit : Nat → α → σ → α × σ} (count : σ → Counter)
    (p : α → α → Bool) {as : List α}
    (h : ∀ a ∈ as, ∀ i s, count (visit i a s).2 = (count s).succIf (p a (visit i a s).1))
    (i : Nat) (s : σ) :
    count (sweepFrom visit i as s).2 =
      (count s).addNat ((as.zip (sweepFrom visit i as s).1).countP fun aa => p aa.1 aa.2) := by
  induction as generalizing i s with
  | nil => exact (Counter.addNat_zero _).symm
  | cons a as ih =>
    have hvisit := h a List.mem_cons_self i s
    rw [sweepFrom_cons, ih (fun b hb => h b (List.mem_cons_of_mem a hb)), hvisit,
      Counter.succIf_eq_addNat, Counter.addNat_addNat, List.zip_cons_cons, List.countP_cons,
      Nat.add_comm]

-- ---------------------------------------------------------------------------
-- Reports
-- ---------------------------------------------------------------------------

/-- The count under a name, zero for any other name. -/
def Counter.lookup (name : String) (counters : List (String × Counter)) : Nat :=
  (counters.lookup name).elim 0 UInt32.toNat

theorem Counter.lookup_eq_zero {counters : List (String × Counter)}
    (h : ∀ c ∈ counters, c.2 = 0) (name : String) : lookup name counters = 0 := by
  unfold lookup
  induction counters with
  | nil => rfl
  | cons c counters ih =>
    obtain ⟨hc, hrest⟩ := List.forall_mem_cons.mp h
    rw [List.lookup_cons]
    cases name == c.1 with
    | true => exact congrArg UInt32.toNat hc
    | false => exact ih hrest

theorem Counter.lookup_zipWith_add (name : String) (as bs : List (String × Counter))
    (h : as.map Prod.fst = bs.map Prod.fst) :
    lookup name (as.zipWith (fun a b => (a.1, a.2.add b.2)) bs) =
      min (UInt32.size - 1) (lookup name as + lookup name bs) := by
  induction as generalizing bs with
  | nil =>
    obtain rfl : bs = [] := by simpa using h
    rfl
  | cons a as ih =>
    obtain ⟨n, x⟩ := a
    cases bs with
    | nil => simp at h
    | cons b bs =>
      obtain ⟨n', y⟩ := b
      obtain ⟨rfl, htail⟩ : n = n' ∧ as.map Prod.fst = bs.map Prod.fst := by simpa using h
      unfold lookup at ih ⊢
      rw [List.zipWith_cons_cons, List.lookup_cons, List.lookup_cons, List.lookup_cons]
      cases name == n with
      | true => exact toNat_add x y
      | false => exact ih bs htail

/-- The counter that is reported by the name. -/
def StepReport.count (r : StepReport) (name : String) : Nat := Counter.lookup name r.counters

theorem StepReport.count_zero (name : String) : zero.count name = 0 :=
  Counter.lookup_eq_zero (by simp [counters, zero]) name

theorem StepReport.count_add (r r' : StepReport) (name : String) :
    (r.add r').count name = min (UInt32.size - 1) (r.count name + r'.count name) :=
  Counter.lookup_zipWith_add name r.counters r'.counters rfl

end SignalGuard
