import SignalGuard.Proofs.History
import SignalGuard.Proofs.VoteLaws

/-!
# Ingestion, merges and monitors without fallbacks

A strict stage has no result where the stage itself would pass something over
or put in a substitute: a lookup by a configured id that finds no slot, a
ballot without room, a vote without an outcome, a monitor's number past the
last byte, a limp target that is no scale. Only an event without a slot is
discarded as before.

For every kind of stage there is a lemma that a valid one is strict already.
Loops lift it, `sweepFrom?_eq_some` with what the pass so far guarantees.
-/

namespace SignalGuard

-- ---------------------------------------------------------------------------
-- Loops
-- ---------------------------------------------------------------------------

section Loops

variable {α σ : Type}

/-- As `sweepFrom`, with visits that can fail. -/
def sweepFrom? (visit : Nat → α → σ → Option (α × σ)) (i : Nat) : List α → σ → Option (List α × σ)
  | [], s => some ([], s)
  | a :: as, s => do
    let (a', s') ← visit i a s
    let (as', s'') ← sweepFrom? visit (i + 1) as s'
    some (a' :: as', s'')

theorem foldlM_eq_some {f : σ → α → σ} {f? : σ → α → Option σ} {as : List α}
    (h : ∀ a ∈ as, ∀ s, f? s a = some (f s a)) (s : σ) :
    as.foldlM f? s = some (as.foldl f s) := by
  induction as generalizing s with
  | nil => rfl
  | cons a as ih =>
    obtain ⟨ha, has⟩ := List.forall_mem_cons.mp h
    rw [List.foldlM_cons, ha]
    exact ih has (f s a)

theorem sweepFrom?_eq_some {visit : Nat → α → σ → α × σ} {visit? : Nat → α → σ → Option (α × σ)}
    {P : Nat → σ → Prop} {as : List α} {i : Nat}
    (h : ∀ j s, ∀ a ∈ as, j < i + as.length → P j s →
      visit? j a s = some (visit j a s) ∧ P (j + 1) (visit j a s).2)
    {s : σ} (hs : P i s) :
    sweepFrom? visit? i as s = some (sweepFrom visit i as s) ∧
      P (i + as.length) (sweepFrom visit i as s).2 := by
  induction as generalizing i s with
  | nil => exact ⟨rfl, hs⟩
  | cons a as ih =>
    rw [List.length_cons] at h ⊢
    obtain ⟨hvisit, hnext⟩ := h i s a List.mem_cons_self (by omega) hs
    obtain ⟨hrest, hend⟩ := ih (i := i + 1) (s := (visit i a s).2)
      (fun j s b hb hj => h j s b (List.mem_cons_of_mem _ hb) (by omega)) hnext
    have hlength : i + (as.length + 1) = i + 1 + as.length := by omega
    rw [sweepFrom_cons, hlength]
    exact ⟨by simp [sweepFrom?, hvisit, hrest], hend⟩

end Loops

-- ---------------------------------------------------------------------------
-- Slots
-- ---------------------------------------------------------------------------

/-- As `modify`, for an id that has to have a slot. -/
def SignalTable.write? (t : SignalTable) (id : SignalId) (f : Signal → Signal) :
    Option SignalTable :=
  (t.get? id).map fun _ => t.modify id f

theorem SignalTable.write?_eq_some {id : SignalId} (h : id.isValid) (t : SignalTable)
    (f : Signal → Signal) : t.write? id f = some (t.modify id f) := by
  obtain ⟨s, hs⟩ := t.exists_get? h
  rw [write?, hs, Option.map_some]

-- ---------------------------------------------------------------------------
-- Ingestion
-- ---------------------------------------------------------------------------

namespace Monitor

/-- As `number`, for an index that has to fit a byte. -/
def number? (index : Nat) : Option UInt8 :=
  if index < UInt8.size then some (UInt8.ofNat index) else none

def call? (m : Monitor) (index : Nat) (reason : Bool) (value : Int32) (level : FaultLevel) :
    Option (List Wake) :=
  if reason then (number? index).map fun n => if m.hasWake then [⟨n, value, level⟩] else []
  else some []

theorem call?_eq_some (m : Monitor) {index : Nat} (h : index < UInt8.size) (reason : Bool)
    (value : Int32) (level : FaultLevel) :
    m.call? index reason value level = some (m.call index reason value level) := by
  have hnumber : UInt8.ofNat index = number index := by
    rw [← UInt8.toNat_inj, number, UInt8.toNat_ofNat_of_lt' h, UInt8.toNat_ofNatClamp_of_lt h]
  cases reason with
  | false => simp [call?, call]
  | true => cases hw : m.hasWake <;> simp [call?, call, number?, h, hw, hnumber]

end Monitor

namespace Ingestion

def rawCall? (e : Event) (m : Monitor) (index : Nat) : Option (List Wake) :=
  m.call? index (m.config.enabled && m.config.watched == e.signal && m.config.outOfRange e.value)
    e.value m.config.faultLevel

def rawCalls? (monitors : List Monitor) (e : Event) : Option (List Wake) :=
  monitors.zipIdx.foldlM
    (fun calls (m, index) => (rawCall? e m index).map fun more => calls ++ more) []

/-- The only stage that may leave something out: an event without a slot. -/
def ingest? (monitors : List Monitor) (s : Ingestion) (e : Event) : Option Ingestion :=
  if e.signal.isValid then do
    let calls ← rawCalls? monitors e
    let table ← s.table.applyEvent? e
    some { table
           wakes := s.wakes ++ calls
           report := { s.report with
             eventsIngested := s.report.eventsIngested.succ
             fastPathWakes := calls.foldl (fun n _ => n.succ) s.report.fastPathWakes } }
  else
    some { s with report := { s.report with eventsDiscarded := s.report.eventsDiscarded.succ } }

variable {monitors : List Monitor}

theorem rawCalls?_eq_some (hfit : monitors.length ≤ UInt8.size) (e : Event) :
    rawCalls? monitors e = some (rawCalls monitors e) := by
  rw [rawCalls, List.flatMap_eq_foldl]
  refine foldlM_eq_some (fun mi hmi calls => ?_) []
  have hindex : mi.2 < monitors.length := by
    simpa using List.snd_lt_of_mem_zipIdx hmi
  have hcall := mi.1.call?_eq_some (Nat.lt_of_lt_of_le hindex hfit)
  simp only [rawCall?, hcall]
  rfl

theorem ingest?_eq_some (hfit : monitors.length ≤ UInt8.size) (s : Ingestion) (e : Event) :
    ingest? monitors s e = some (ingest monitors s e) := by
  unfold ingest? ingest
  cases hv : e.signal.isValid with
  | false =>
    have hnone : s.table.get? e.signal = none := SignalTable.get?_eq_none_iff.mpr hv
    simp [SignalTable.applyEvent?, hnone]
  | true =>
    obtain ⟨slot, hslot⟩ := s.table.exists_get? hv
    simp [rawCalls?_eq_some hfit, SignalTable.applyEvent?, hslot]

end Ingestion

-- ---------------------------------------------------------------------------
-- Merges
-- ---------------------------------------------------------------------------

/-- As `spread`, for values of which there has to be one. -/
def Vote.spread? (values : List Int32) : Option Int := do
  let lo ← values.min?
  let hi ← values.max?
  some (hi.toInt - lo.toInt)

def Vote.disagrees? (values : List Int32) (tolerance : UInt32) : Option Bool :=
  if values.length > 1 && tolerance > 0 then
    (spread? values).map fun apart => decide (apart > (tolerance.toNat : Int))
  else some false

theorem Vote.disagrees?_eq_some (values : List Int32) (tolerance : UInt32) :
    disagrees? values tolerance = some (disagrees values tolerance) := by
  unfold disagrees? disagrees
  split
  · next h =>
    have hne : values ≠ [] := by
      rintro rfl
      simp at h
    obtain ⟨lo, hlo⟩ := Option.isSome_iff_exists.mp (List.isSome_min?_iff.mpr hne)
    obtain ⟨hi, hhi⟩ := Option.isSome_iff_exists.mp (List.isSome_max?_iff.mpr hne)
    simp [spread?, spread, hlo, hhi, h]
  · next h =>
    rw [Bool.eq_false_iff.mpr h, Bool.false_and]

namespace Merge

/-- Adds the value of an input that is `ok`, which has to find room. -/
def collect? (t : SignalTable) (ballots : List Int32) (id : SignalId) : Option (List Int32) := do
  let s ← t.get? id
  if s.status.isOk then
    if ballots.length < voteCapacity then some (ballots ++ [s.value]) else none
  else some ballots

/-- The vote on the ballots, which has no outcome only where there are none. -/
def fuse? (m : Merge) (ballots : List Int32) : Option (Option VoteOutcome) :=
  if ballots.isEmpty then some none
  else do
    let outcome ← Vote.opinion? ballots m.method m.tolerance m.majorityQuorum
    let apart ← Vote.disagrees? ballots m.tolerance
    some (some (if apart then { outcome with status := .inconsistent } else outcome))

def run? (now : Time) (m : Merge) : SignalTable × StepReport → Option (SignalTable × StepReport)
  | (t, r) => do
    let ballots ← m.inputs.val.foldlM (collect? t) []
    let outcome ← m.fuse? ballots
    let t' ← t.write? m.output (publish outcome now)
    match outcome with
    | some _ => some (t', { r with mergesRun := r.mergesRun.succ })
    | none => some (t', { r with mergesWithoutInput := r.mergesWithoutInput.succ })

/-- There is room for every ballot as long as there is room for every input. -/
theorem collect?_eq_some (t : SignalTable) {ids : List SignalId} {ballots : List Int32}
    (hids : ∀ id ∈ ids, id.isValid) (hfit : ballots.length + ids.length ≤ voteCapacity) :
    ids.foldlM (collect? t) ballots = some (ballots ++ ids.filterMap (ballot? t)) := by
  induction ids generalizing ballots with
  | nil => simp
  | cons id ids ih =>
    obtain ⟨hid, hids⟩ := List.forall_mem_cons.mp hids
    rw [List.length_cons] at hfit
    obtain ⟨s, hs⟩ := t.exists_get? hid
    rw [List.foldlM_cons]
    cases hok : s.status.isOk with
    | true =>
      have hroom : ballots.length < voteCapacity := by omega
      have hcollect : collect? t ballots id = some (ballots ++ [s.value]) := by
        simp [collect?, hs, hok, hroom]
      have hballot : ballot? t id = some s.value := by simp [ballot?, hs, hok]
      rw [hcollect, Option.bind_eq_bind, Option.bind_some,
        ih hids (by rw [List.length_append, List.length_singleton]; omega),
        List.filterMap_cons_some hballot, List.append_assoc, List.singleton_append]
    | false =>
      have hcollect : collect? t ballots id = some ballots := by simp [collect?, hs, hok]
      have hballot : ballot? t id = none := by simp [ballot?, hs, hok]
      rw [hcollect, Option.bind_eq_bind, Option.bind_some, ih hids (by omega),
        List.filterMap_cons_none hballot]

theorem fuse?_eq_some (m : Merge) {ballots : List Int32} (hfit : ballots.length ≤ voteCapacity) :
    m.fuse? ballots = some (vote? ballots m.method m.tolerance m.majorityQuorum) := by
  unfold fuse?
  split
  · next hempty =>
    rw [(vote?_eq_none_iff hfit).mpr (List.isEmpty_iff.mp hempty)]
  · next hne =>
    have hsome := Vote.isSome_opinion? (by simpa using hne) hfit m.method m.tolerance
      m.majorityQuorum
    obtain ⟨outcome, hopinion⟩ := Option.isSome_iff_exists.mp hsome
    simp [vote?, hopinion, Vote.disagrees?_eq_some]

theorem run?_eq_some {m : Merge} (hv : m.Valid) (now : Time) (s : SignalTable × StepReport) :
    m.run? now s = some (m.run now s) := by
  obtain ⟨t, r⟩ := s
  have hballots : m.inputs.val.foldlM (collect? t) [] = some (m.ballots t) :=
    collect?_eq_some t hv.inputs (by simpa using m.inputs.property)
  obtain ⟨out, hout⟩ := t.exists_get? hv.output
  simp only [run?, run, hballots, m.fuse?_eq_some (m.length_ballots_le t),
    t.write?_eq_some hv.output, hout, Option.bind_eq_bind, Option.bind_some]
  unfold outcome?
  cases vote? (m.ballots t) m.method m.tolerance m.majorityQuorum with
  | none => rfl
  | some outcome => rfl

end Merge

def runMerges? (merges : List Merge) (now : Time) (t : SignalTable) (r : StepReport) :
    Option (SignalTable × StepReport) :=
  (merges.filter (·.enabled)).foldlM (fun acc m => m.run? now acc) (t, r)

theorem runMerges?_eq_some {merges : List Merge} (hv : ∀ m ∈ merges, m.Valid) (now : Time)
    (t : SignalTable) (r : StepReport) :
    runMerges? merges now t r = some (runMerges merges now t r) :=
  foldlM_eq_some (fun _ hm s => Merge.run?_eq_some (hv _ (List.mem_filter.mp hm).1) now s) _

-- ---------------------------------------------------------------------------
-- Monitors
-- ---------------------------------------------------------------------------

namespace Monitor

/-- As `stepLimp`, for a target that has to be a scale. -/
def stepLimp? (m : Monitor) (faulted : Bool) (now : Time) (p : MonitorPass) :
    Option (LimpState × MonitorPass) :=
  match m.config.limp with
  | none => some (m.limp, p)
  | some action => do
    let scale ← p.scales[action.targetScale.toNat]?
    let (limp, scale') := action.step faulted (now.toNat / 1000) m.limp scale
    some (limp, { p with
      scales := p.scales.set action.targetScale.toNat scale'
      report := { p.report with
        limpEntries := p.report.limpEntries.succIf (!m.limp.isLimp && limp.isLimp)
        limpExits := p.report.limpExits.succIf (m.limp.isLimp && !limp.isLimp) } })

def visit? (now : Time) (index : Nat) (m : Monitor) (p : MonitorPass) :
    Option (Monitor × MonitorPass) :=
  if m.config.enabled then do
    let watched ← p.table.get? m.config.watched
    let faulted := m.config.detect watched now
    let level := m.config.level faulted
    let table ← p.table.write? m.config.faultOutput (publish level now)
    let calls ← m.call? index (faulted != m.faulted) watched.value level
    let (limp, p') ← m.stepLimp? faulted now { p with
      table
      wakes := p.wakes ++ calls
      report := { p.report with
        monitorsFaulted := p.report.monitorsFaulted.succIf faulted
        monitorWakes := p.report.monitorWakes.succIf !calls.isEmpty } }
    some ({ m with faulted, limp }, p')
  else some (m, p)

theorem stepLimp?_eq_some {m : Monitor} {p : MonitorPass}
    (htarget : ∀ a ∈ m.config.limp, a.targetScale.toNat < p.scales.length) (faulted : Bool)
    (now : Time) : m.stepLimp? faulted now p = some (m.stepLimp faulted now p) := by
  unfold stepLimp? stepLimp
  cases ha : m.config.limp with
  | none => rfl
  | some a => simp [List.getElem?_eq_getElem (htarget a ha)]

theorem visit?_eq_some {m : Monitor} {p : MonitorPass} (hv : m.config.Valid p.scales.length)
    (now : Time) {index : Nat} (hindex : index < UInt8.size) :
    m.visit? now index p = some (m.visit now index p) := by
  unfold visit? visit
  split
  · obtain ⟨watched, hwatched⟩ := p.table.exists_get? hv.watched
    simp only [run, hwatched, p.table.write?_eq_some hv.faultOutput, m.call?_eq_some hindex,
      Option.bind_eq_bind, Option.bind_some]
    rw [stepLimp?_eq_some, Option.bind_some]
    exact fun a ha => (hv.limp a ha).target
  · rfl

end Monitor

def runMonitors? (monitors : List Monitor) (now : Time) (p : MonitorPass) :
    Option (List Monitor × MonitorPass) :=
  sweepFrom? (Monitor.visit? now) 0 monitors p

theorem runMonitors?_eq_some {monitors : List Monitor} {p : MonitorPass}
    (hv : ∀ m ∈ monitors, m.config.Valid p.scales.length) (hfit : monitors.length ≤ UInt8.size)
    (now : Time) : runMonitors? monitors now p = some (runMonitors monitors now p) := by
  refine (sweepFrom?_eq_some (P := fun _ q => q.scales.length = p.scales.length)
    (fun j q m hm hj hq => ⟨?_, ?_⟩) rfl).1
  · have hvalid := hv m hm
    rw [← hq] at hvalid
    exact Monitor.visit?_eq_some hvalid now (by omega)
  · have hfixed := congrArg List.length (m.visit_fixed now j q)
    rw [List.length_map, List.length_map] at hfixed
    exact hfixed.trans hq

end SignalGuard
