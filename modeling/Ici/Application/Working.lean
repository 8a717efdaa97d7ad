import Ici.Application.Prerequisites
import Ici.Library.Sharing

/-! # A run that is nothing but its work

No cancellation, no cache, and work that depends on its fold key alone. A unit then performs
exactly when what it depends on performed and succeeded, and every check is told one state. -/

namespace Ici

open List Python

def working (work : FoldKey → Observation) : World where
  perform := fun unit => .ok (work (foldKey unit.val.source))

def Scheduled.stateOf (scheduled : Scheduled) (id : Text) : Option TaskState :=
  (scheduled.observations.find? (·.val.taskId = id)).map (·.val.state)

def ending (work : FoldKey → Observation) (key : FoldKey) (performed : Prop)
    [Decidable performed] : TaskState :=
  if performed then (work key).val.state else .blocked

def Performed (world : World) (layers : List (List WorkUnit)) (unit : WorkUnit) : Prop :=
  ∃ finished, AttemptedFrom world {} layers finished unit ∧ failedPrerequisite unit finished = none

section

variable {work : FoldKey → Observation} {finished : Dict Text Observation} {unit : WorkUnit}

theorem attempt_of_ready (h : failedPrerequisite unit finished = none) :
    ∃ execution, (working work).attempt unit finished =
      .ok (some (work (foldKey unit.val.source)), execution) := by
  unfold World.attempt
  simp only [working, h]
  exact ⟨_, rfl⟩

theorem attempt_of_failed {blocker : Text} (h : failedPrerequisite unit finished = some blocker) :
    ∃ execution, (working work).attempt unit finished = .ok (none, execution) ∧
      execution.state = .blocked := by
  unfold World.attempt
  simp only [working, h]
  exact ⟨_, rfl, rfl⟩

theorem finishes_iff {o : Observation} : Finishes (working work) finished unit o ↔
    failedPrerequisite unit finished = none ∧ o = work (foldKey unit.val.source) := by
  unfold Finishes
  cases h : failedPrerequisite unit finished with
  | none =>
    obtain ⟨execution, hAttempt⟩ := attempt_of_ready h
    rw [hAttempt]
    simp [eq_comm]
  | some blocker =>
    obtain ⟨execution, hAttempt, -⟩ := attempt_of_failed h
    rw [hAttempt]
    simp

theorem tells_state {consumer : Text} {o : Observation} (h : Tells (working work) finished unit consumer o) :
    o.val.state = if failedPrerequisite unit finished = none
      then (work (foldKey unit.val.source)).val.state else .blocked := by
  obtain ⟨produced, hAttempt, hTell⟩ := h
  cases hReady : failedPrerequisite unit finished with
  | none =>
    obtain ⟨execution, hOk⟩ := attempt_of_ready hReady
    cases hOk.symm.trans hAttempt
    rw [if_pos rfl, Checked.construct_eq_ok_iff.mp hTell]
  | some blocker =>
    obtain ⟨execution, hOk, hState⟩ := attempt_of_failed hReady
    cases hOk.symm.trans hAttempt
    rw [if_neg (fun h => (nomatch h)), Checked.construct_eq_ok_iff.mp hTell]
    exact hState

end

namespace ReturnedRun

variable {work : FoldKey → Observation} {graph : TaskGraph} {layers : List (List WorkUnit)}
  {writes : List (Text × Observation)} {scheduled : Scheduled}
  (run : ReturnedRun (working work) graph layers writes scheduled)

include run

theorem performed_iff_ready {finished : Dict Text Observation} {unit : WorkUnit}
    (h : AttemptedFrom (working work) {} layers finished unit) :
    Performed (working work) layers unit ↔ failedPrerequisite unit finished = none := by
  constructor
  · rintro ⟨finished', hAttempted, hReady⟩
    exact run.finished_unique hAttempted h ▸ hReady
  · intro hReady
    exact ⟨finished, h, hReady⟩

theorem performed_iff {unit : WorkUnit} (hUnit : unit ∈ graph.units) : Performed (working work) layers unit ↔
      ∀ d ∈ unit.val.dependsOn, ∃ other ∈ graph.units, other.val.id = d ∧
        Performed (working work) layers other ∧
          (work (foldKey other.val.source)).val.state = .succeeded := by
  obtain ⟨finished, hAttempted⟩ := run.attempted unit (run.layers_perm.symm.subset hUnit)
  rw [run.performed_iff_ready hAttempted, failedPrerequisite_eq_none_iff]
  refine forall₂_congr fun d hd => ?_
  constructor
  · rintro ⟨o, hGet, hState⟩
    obtain ⟨finished', other, hOther, hId, hFinishes⟩ :=
      (run.finished_get?_iff hAttempted hd o).mp hGet
    obtain ⟨hReady, rfl⟩ := finishes_iff.mp hFinishes
    exact ⟨other, run.layers_perm.subset hOther.mem, hId, ⟨finished', hOther, hReady⟩, hState⟩
  · rintro ⟨other, -, hId, ⟨finished', hOther, hReady⟩, hState⟩
    exact ⟨_, (run.finished_get?_iff hAttempted hd _).mpr
      ⟨finished', other, hOther, hId, finishes_iff.mpr ⟨hReady, rfl⟩⟩, hState⟩

omit run in
theorem stateOf_eq {o : Observation} (hOnce : (scheduled.observations.map (·.val.taskId)).Nodup)
    (ho : o ∈ scheduled.observations) : scheduled.stateOf o.val.taskId = some o.val.state := by
  unfold Scheduled.stateOf
  cases hFind : scheduled.observations.find? (·.val.taskId = o.val.taskId) with
  | none =>
    have hNone := find?_eq_none.mp hFind o ho
    simp at hNone
  | some found =>
    have hId : found.val.taskId = o.val.taskId := by simpa using find?_some hFind
    have hSame := inj_on_of_nodup_map hOnce (mem_of_find?_eq_some hFind) ho hId
    rw [hSame]
    rfl

open Classical in
theorem stateOf_consumer {unit : WorkUnit} (hUnit : unit ∈ graph.units) {consumer : Text}
    (hConsumer : consumer ∈ unit.val.consumers) (hAlone : AnswersAlone graph unit consumer) :
    scheduled.stateOf consumer = some (ending work (foldKey unit.val.source)
      (Performed (working work) layers unit)) := by
  obtain ⟨finished, hAttempted⟩ := run.attempted unit (run.layers_perm.symm.subset hUnit)
  obtain ⟨o, ho, hTells⟩ := run.told ⟨layers, run.layers_eq, hAttempted⟩ hConsumer hAlone
  have hState := tells_state hTells
  obtain ⟨produced, -, hTell⟩ := hTells
  have hId := tell_taskId hTell
  rw [← hId, stateOf_eq run.contained.observed_once ho, hState]
  simp only [ending, run.performed_iff_ready hAttempted]

theorem stateOf_blocked {item : Blocked} (hItem : item ∈ graph.blocked)
    (hNone : ∀ unit ∈ graph.units, item.check.taskId ∉ unit.val.consumers) :
    scheduled.stateOf item.check.taskId = some .blocked := by
  have hIn := (run.observed item.check.taskId).mpr (.inr ⟨item, hItem, rfl⟩)
  obtain ⟨o, ho, hId⟩ := mem_map.mp hIn
  rw [← hId, stateOf_eq run.contained.observed_once ho]
  rw [run.observations_eq] at ho
  obtain ⟨⟨k, o'⟩, hPair, rfl⟩ := mem_map.mp ho
  rcases Dict.mem_of_mem_setAll hPair with hOld | hWrite
  · cases hOld
  have hKey := run.write_taskId hWrite
  rcases (run.mem_writes k o').mp hWrite with
    ⟨finished, unit, hAttempted, hConsumer, -⟩ | ⟨item', -, -, hOk⟩
  · rw [← hKey, hId] at hConsumer
    exact absurd hConsumer (hNone unit (run.layers_perm.subset hAttempted.mem))
  · rw [Checked.construct_eq_ok_iff.mp hOk]

end ReturnedRun

end Ici

/-! ## The same checks, one unit each

The graph a plan would become if no work were shared, and the two graphs' runs in terms of the
checks alone: a check runs on its own when what it needs ran and succeeded, and runs shared when
that holds of everything its whole group needs from outside. -/

namespace Ici

open List Raising Python

def ownUnit (edges : Edges) (planned : PlannedCheck) : Result WorkUnit :=
  Checked.construct WorkUnitFields.check {
    id := planned.taskId
    consumers := [planned.taskId]
    source := planned
    dependsOn := ((edges.of planned.taskId).dedup).insertionSort (· ≤ ·) }

def buildUnshared (checks : List PlannedCheck) (catalog : Option (List CheckDefinition)) :
    Result TaskGraph := do
  let (edges, blocked, runnable) ← blockChecks checks catalog
  let units ← runnable.mapM (ownUnit edges)
  return { units := units, blocked := blocked }

/-- `q` is one of the checks, and `p` consumes something it produces. -/
def FedBy (checks : List PlannedCheck) (p q : PlannedCheck) : Prop := q ∈ checks ∧ NeedsFrom p q

theorem not_needsFrom_self (p : PlannedCheck) : ¬NeedsFrom p p := by
  rintro ⟨need, hNeed, hProvides⟩
  exact p.check.disjoint need hNeed hProvides

section

variable {checks : List PlannedCheck} {produced : Dict Text PlannedCheck} {wiring : Wiring}
  {blocked : List Blocked} {runnable : List PlannedCheck}
  (run : BlockingRun checks produced wiring blocked runnable)

include run

theorem BlockingRun.fedBy_closed {p : PlannedCheck} (hp : p ∈ runnable) {q : PlannedCheck}
    (h : FedBy checks p q) : q ∈ runnable :=
  run.producer_runnable hp h.1 h.2

theorem ownUnit_ok {p : PlannedCheck} (hp : p ∈ runnable) :
    ∃ unit, ownUnit wiring.edges p = .ok unit ∧ unit.val.id = p.taskId ∧
      unit.val.consumers = [p.taskId] ∧ unit.val.source = p ∧
      ∀ d, d ∈ unit.val.dependsOn ↔ ∃ q, FedBy checks p q ∧ q.taskId = d := by
  have hDeps (d : Text) : d ∈ ((wiring.edges.of p.taskId).dedup).insertionSort (· ≤ ·) ↔
      ∃ q, FedBy checks p q ∧ q.taskId = d := by
    rw [mem_insertionSort, mem_dedup, run.mem_edges hp]
    constructor
    · rintro ⟨q, hq, hNeeds, hId⟩
      exact ⟨q, ⟨hq, hNeeds⟩, hId⟩
    · rintro ⟨q, ⟨hq, hNeeds⟩, hId⟩
      exact ⟨q, hq, hNeeds, hId⟩
  have hSelf : p.taskId ∉ ((wiring.edges.of p.taskId).dedup).insertionSort (· ≤ ·) := by
    rw [hDeps]
    rintro ⟨q, ⟨hq, hNeeds⟩, hId⟩
    have hSame := run.eq_of_taskId hq (run.mem_checks hp) hId
    exact not_needsFrom_self p (hSame ▸ hNeeds)
  refine ⟨_, Checked.construct_eq_ok ?_, rfl, rfl, rfl, hDeps⟩
  simp only [WorkUnitFields.check]
  rw [if_neg p.taskId_ne_nil, if_neg (cons_ne_nil _ _), if_neg hSelf]

end

theorem map_source_ownUnits {edges : Edges} {runnable : List PlannedCheck} {units : List WorkUnit}
    (h : List.Forall₂ (fun p unit => ownUnit edges p = .ok unit) runnable units) :
    units.map (·.val.source) = runnable := by
  induction h with
  | nil => rfl
  | cons hHead _ ih => rw [map_cons, ih, Checked.construct_eq_ok_iff.mp hHead]

structure AreOwnUnits (checks runnable : List PlannedCheck) (units : List WorkUnit) : Prop where
  sources : units.map (·.val.source) = runnable
  id_eq : ∀ unit ∈ units, unit.val.id = unit.val.source.taskId
  consumers_eq : ∀ unit ∈ units, unit.val.consumers = [unit.val.source.taskId]
  mem_dependsOn : ∀ unit ∈ units, ∀ d, d ∈ unit.val.dependsOn ↔
    ∃ q, FedBy checks unit.val.source q ∧ q.taskId = d

theorem buildUnshared_ok {checks : List PlannedCheck} {catalog : Option (List CheckDefinition)}
    (hIds : (checks.map (·.taskId)).Nodup) {edges : Edges} {blocked : List Blocked}
    {runnable : List PlannedCheck} (h : blockChecks checks catalog = .ok (edges, blocked, runnable)) :
    ∃ units, buildUnshared checks catalog = .ok ⟨units, blocked⟩ ∧
      AreOwnUnits checks runnable units := by
  obtain ⟨produced, wiring, rfl, run⟩ := blockChecks_ok hIds h
  obtain ⟨units, hUnits⟩ := exists_mapM_eq_ok.mpr fun p hp => by
    obtain ⟨unit, hUnit, -⟩ := ownUnit_ok run hp
    exact ⟨unit, hUnit⟩
  have hEach (unit : WorkUnit) (hUnit : unit ∈ units) :
      unit.val.id = unit.val.source.taskId ∧ unit.val.consumers = [unit.val.source.taskId] ∧
        ∀ d, d ∈ unit.val.dependsOn ↔ ∃ q, FedBy checks unit.val.source q ∧ q.taskId = d := by
    obtain ⟨p, hp, hOwn⟩ := exists_of_mem_mapM hUnits hUnit
    obtain ⟨unit', hUnit', hId, hConsumers, hSource, hDeps⟩ := ownUnit_ok run hp
    cases hOwn.symm.trans hUnit'
    rw [hSource]
    exact ⟨hId, hConsumers, hDeps⟩
  refine ⟨units, ?_, ?_, fun unit hUnit => (hEach unit hUnit).1,
    fun unit hUnit => (hEach unit hUnit).2.1, fun unit hUnit => (hEach unit hUnit).2.2⟩
  · exact bind_eq_ok.mpr ⟨_, h, bind_eq_ok.mpr ⟨units, hUnits, rfl⟩⟩
  · exact map_source_ownUnits (mapM_eq_ok.mp hUnits)

end Ici
