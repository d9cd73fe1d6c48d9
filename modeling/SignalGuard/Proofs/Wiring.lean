import SignalGuard.Signal.Table
import SignalGuard.Stage

/-!
# Updates of a table and their wiring

Every stage rewrites one slot of the table and reads some others. An `Update`
is such a rewrite without what the stage remembers, and its `Wire` says which
slots. In a feed-forward list of wires every slot has one writer, and nobody
reads what is still to be written.

`Update.get?_runAll_output`: after a feed-forward list of updates, every output
is the rewrite of its old slot under the final table. The final table therefore
satisfies the equations of all updates at once. `map_sweepFrom_final` says the
same about what the stages remember.
-/

namespace SignalGuard

-- ---------------------------------------------------------------------------
-- Tables up to the dirty flag
-- ---------------------------------------------------------------------------

/-- The slot without its dirty flag, which no stage looks at in its inputs. -/
def Signal.clean (s : Signal) : Signal := { s with updated := false }

@[simp] theorem Signal.clean_clean (s : Signal) : s.clean.clean = s.clean := rfl

namespace SignalTable

/-- The tables agree at a signal, except perhaps for the dirty flag. -/
def SameAt (t u : SignalTable) (id : SignalId) : Prop :=
  (t.get? id).map Signal.clean = (u.get? id).map Signal.clean

variable {t u : SignalTable} {id : SignalId}

theorem SameAt.of_eq (h : t.get? id = u.get? id) : t.SameAt u id := congrArg _ h

/-- What looks only at clean slots cannot tell the tables apart. -/
theorem SameAt.elim_eq {α : Type} (h : t.SameAt u id) {a : α} {f : Signal → α}
    (hf : ∀ s, f s.clean = f s) : (t.get? id).elim a f = (u.get? id).elim a f := by
  have helim (o : Option Signal) : o.elim a f = (o.map Signal.clean).elim a f := by
    cases o <;> simp [hf]
  rw [helim, helim (u.get? id), h]

theorem SameAt.elim_elim_eq {α : Type} {id' : SignalId} (h : t.SameAt u id) (h' : t.SameAt u id')
    {a : α} {f : Signal → Signal → α} (hf : ∀ r s, f r.clean s.clean = f r s) :
    ((t.get? id).elim a fun r => (t.get? id').elim a (f r)) =
      (u.get? id).elim a fun r => (u.get? id').elim a (f r) := by
  have helim (o o' : Option Signal) : (o.elim a fun r => o'.elim a (f r)) =
      (o.map Signal.clean).elim a fun r => (o'.map Signal.clean).elim a (f r) := by
    cases o <;> cases o' <;> simp [hf]
  rw [helim, helim (u.get? id), h, h']

end SignalTable

-- ---------------------------------------------------------------------------
-- Wires
-- ---------------------------------------------------------------------------

/-- The signals that a stage reads and the one that it writes. -/
structure Wire where
  inputs : List SignalId
  output : SignalId
  deriving DecidableEq, Repr

namespace Wire

/-- The second wire may run after the first one. -/
def Before (v w : Wire) : Prop := v.output ≠ w.output ∧ w.output ∉ v.inputs

instance (v w : Wire) : Decidable (v.Before w) :=
  inferInstanceAs (Decidable (v.output ≠ w.output ∧ w.output ∉ v.inputs))

/-- For wires in the order in which they run: no two write the same signal, and
none reads what it writes itself or what a later one writes. -/
def FeedForward (wires : List Wire) : Prop :=
  wires.Pairwise Before ∧ ∀ w ∈ wires, w.output ∉ w.inputs

instance (wires : List Wire) : Decidable (FeedForward wires) :=
  inferInstanceAs (Decidable (wires.Pairwise Before ∧ ∀ w ∈ wires, w.output ∉ w.inputs))

variable {v : Wire} {vs ws : List Wire}

theorem feedForward_cons :
    FeedForward (v :: ws) ↔
      (∀ w ∈ ws, v.Before w) ∧ v.output ∉ v.inputs ∧ FeedForward ws := by
  simp only [FeedForward, List.pairwise_cons, List.forall_mem_cons]
  constructor
  · rintro ⟨⟨hv, hp⟩, ho, hs⟩
    exact ⟨hv, ho, hp, hs⟩
  · rintro ⟨hv, ho, hp, hs⟩
    exact ⟨⟨hv, hp⟩, ho, hs⟩

theorem FeedForward.of_append_right (h : FeedForward (vs ++ ws)) : FeedForward ws :=
  ⟨(List.pairwise_append.mp h.1).2.1, fun w hw => h.2 w (List.mem_append_right vs hw)⟩

theorem FeedForward.of_append_left (h : FeedForward (vs ++ ws)) : FeedForward vs :=
  ⟨(List.pairwise_append.mp h.1).1, fun w hw => h.2 w (List.mem_append_left ws hw)⟩

end Wire

-- ---------------------------------------------------------------------------
-- Updates
-- ---------------------------------------------------------------------------

/-- A rewrite of the output slot that depends on the inputs alone. -/
structure Update extends Wire where
  rewrite : SignalTable → Signal → Signal
  rewrite_congr : ∀ t u, (∀ id ∈ inputs, t.SameAt u id) → rewrite t = rewrite u

namespace Update

def run (u : Update) (t : SignalTable) : SignalTable := t.modify u.output (u.rewrite t)

def runAll (us : List Update) (t : SignalTable) : SignalTable := us.foldl (fun t u => u.run t) t

variable {u : Update} {us vs : List Update} {t : SignalTable} {id : SignalId}

theorem get?_run (u : Update) (t : SignalTable) (id : SignalId) :
    (u.run t).get? id = if u.output = id then (t.get? id).map (u.rewrite t) else t.get? id :=
  t.get?_modify ..

@[simp] theorem runAll_nil (t : SignalTable) : runAll [] t = t := rfl

@[simp] theorem runAll_cons (u : Update) (us : List Update) (t : SignalTable) :
    runAll (u :: us) t = runAll us (u.run t) := rfl

theorem runAll_append (us vs : List Update) (t : SignalTable) :
    runAll (us ++ vs) t = runAll vs (runAll us t) := List.foldl_append

theorem get?_runAll_of_ne (h : ∀ u ∈ us, u.output ≠ id) : (runAll us t).get? id = t.get? id := by
  induction us generalizing t with
  | nil => rfl
  | cons u us ih =>
    rw [runAll_cons, ih fun v hv => h v (List.mem_cons_of_mem _ hv), get?_run,
      if_neg (h u List.mem_cons_self)]

theorem sameAt_runAll_of_ne (h : ∀ u ∈ us, u.output ≠ id) : (runAll us t).SameAt t id :=
  .of_eq (get?_runAll_of_ne h)

/-- Nobody later, and not `u` itself, writes what `u` has read. -/
theorem sameAt_input (hf : Wire.FeedForward ((u :: us).map toWire)) (hid : id ∈ u.inputs) :
    (runAll (u :: us) t).SameAt t id := by
  obtain ⟨hbefore, hself, -⟩ := Wire.feedForward_cons.mp hf
  refine sameAt_runAll_of_ne fun v hv heq => ?_
  rcases List.mem_cons.mp hv with rfl | hv
  · exact hself (heq ▸ hid)
  · exact (hbefore v.toWire (List.mem_map_of_mem hv)).2 (heq ▸ hid)

/-- The equations of the updates hold together once all have run. -/
theorem get?_runAll_output (hf : Wire.FeedForward (us.map toWire)) (hu : u ∈ us) :
    (runAll us t).get? u.output = (t.get? u.output).map (u.rewrite (runAll us t)) := by
  induction us generalizing t with
  | nil => cases hu
  | cons v us ih =>
    obtain ⟨hbefore, -, hrest⟩ := Wire.feedForward_cons.mp hf
    simp only [List.forall_mem_map] at hbefore
    rcases List.mem_cons.mp hu with rfl | hu
    · have hin := u.rewrite_congr _ _ fun id hid => sameAt_input (t := t) hf hid
      rw [hin, runAll_cons, get?_runAll_of_ne fun w hw => (hbefore w hw).1.symm, get?_run,
        if_pos rfl]
    · rw [runAll_cons, ih hrest hu, get?_run, if_neg (hbefore u hu).1]

end Update

-- ---------------------------------------------------------------------------
-- Sweeps
-- ---------------------------------------------------------------------------

section Sweep

variable {α σ β : Type} {visit : Nat → α → σ → α × σ} (table : σ → SignalTable)
  {enabled : α → Bool} {update : α → Update}

theorem table_sweepFrom
    (h : ∀ i a s, table (visit i a s).2 =
      if enabled a then (update a).run (table s) else table s)
    (i : Nat) (as : List α) (s : σ) :
    table (sweepFrom visit i as s).2 =
      Update.runAll ((as.filter enabled).map update) (table s) := by
  induction as generalizing i s with
  | nil => rfl
  | cons a as ih =>
    rw [sweepFrom_cons, ih, h]
    cases he : enabled a with
    | true => simp [he]
    | false => simp [he]

/-- What every stage makes of the table at its turn it would also make of the
table after the sweep and whatever runs `later`. -/
theorem map_sweepFrom_final {g : α → β} {f : α → SignalTable → β} {later : List Update}
    (h : ∀ i a s, table (visit i a s).2 =
      if enabled a then (update a).run (table s) else table s)
    (hg : ∀ i a s, g (visit i a s).1 = f a (table s))
    (hf : ∀ a t u, (enabled a → ∀ id ∈ (update a).inputs, t.SameAt u id) → f a t = f a u)
    {i : Nat} {as : List α} {s : σ}
    (hff : Wire.FeedForward (((as.filter enabled).map update ++ later).map Update.toWire)) :
    (sweepFrom visit i as s).1.map g =
      as.map fun a => f a (Update.runAll ((as.filter enabled).map update ++ later) (table s)) := by
  induction as generalizing i s with
  | nil => rfl
  | cons a as ih =>
    rw [sweepFrom_cons, List.map_cons, List.map_cons, hg]
    cases he : enabled a with
    | true =>
      rw [List.filter_cons_of_pos he, List.map_cons, List.cons_append] at hff ⊢
      have hhead := hf a _ _ fun _ id hid => Update.sameAt_input (t := table s) hff hid
      have htail := ih (i := i + 1) (s := (visit i a s).2) (Wire.feedForward_cons.mp hff).2.2
      rw [hhead, htail, h, if_pos he, Update.runAll_cons]
    | false =>
      rw [List.filter_cons_of_neg (by simp [he])] at hff ⊢
      have hhead := hf a (table s)
        (Update.runAll ((as.filter enabled).map update ++ later) (table s)) (by simp [he])
      have htail := ih (i := i + 1) (s := (visit i a s).2) hff
      rw [hhead, htail, h, if_neg (by simp [he])]

end Sweep

end SignalGuard
