import Mathlib.Data.List.ReduceOption
import Ici.Application.Wiring

/-! # Folding equal work into units

Runnable checks are grouped by their fold key. Every group becomes one unit, named after its
first member, whose dependencies are the leaders of the groups that feed it. -/

namespace Ici

open Dict List Raising Python

section Groups

variable {runnable : List PlannedCheck}

def members (runnable : List PlannedCheck) (key : FoldKey) : List PlannedCheck :=
  runnable.filter (foldKey · = key)

theorem mem_members {key : FoldKey} {p : PlannedCheck} :
    p ∈ members runnable key ↔ p ∈ runnable ∧ foldKey p = key := by
  simp [members]

theorem mem_groupsOf {key : FoldKey} {group : List PlannedCheck} :
    (key, group) ∈ groupsOf runnable ↔ group = members runnable key ∧ group ≠ [] :=
  mem_groupBy foldKey

theorem groupsOf_get? {p : PlannedCheck} (hp : p ∈ runnable) :
    (groupsOf runnable).get? (foldKey p) = some (members runnable (foldKey p)) := by
  apply get?_of_mem (nodup_keys_groupBy _ _)
  apply mem_groupsOf.mpr
  exact ⟨rfl, ne_nil_of_mem (mem_members.mpr ⟨hp, rfl⟩)⟩

section

variable (hIds : (runnable.map (·.taskId)).Nodup)
include hIds

theorem eq_of_taskId_eq {p q : PlannedCheck}
    (hp : p ∈ runnable) (hq : q ∈ runnable) (h : p.taskId = q.taskId) : p = q :=
  inj_on_of_nodup_map hIds hp hq h

theorem groupOf_eq : groupOf (groupsOf runnable) =
      (groupsOf runnable).flatMap fun group => group.2.map fun member => (member.taskId, group.1) := by
  unfold groupOf
  rw [setAll_eq_append, nil_append]
  have hKeys : Dict.keys ((groupsOf runnable).flatMap
      fun group => group.2.map fun member => (member.taskId, group.1)) =
        ((groupsOf runnable).flatMap Prod.snd).map (·.taskId) := by
    simp only [Dict.keys, map_flatMap, List.map_map]
    rfl
  rw [hKeys]
  exact ((flatMap_groupBy_perm foldKey runnable).map _).nodup_iff.mpr hIds

theorem groupOf_get? {p : PlannedCheck}
    (hp : p ∈ runnable) : (groupOf (groupsOf runnable)).get? p.taskId = some (foldKey p) := by
  apply get?_of_mem
  · rw [groupOf_eq hIds]
    simp only [Dict.keys, map_flatMap, List.map_map]
    have hPerm := ((flatMap_groupBy_perm foldKey runnable).map (·.taskId)).nodup_iff.mpr hIds
    rw [map_flatMap] at hPerm
    exact hPerm
  · rw [groupOf_eq hIds]
    apply mem_flatMap.mpr
    refine ⟨(foldKey p, members runnable (foldKey p)), ?_, ?_⟩
    · exact mem_of_get? (groupsOf_get? hp)
    · exact mem_map.mpr ⟨p, mem_members.mpr ⟨hp, rfl⟩, rfl⟩

end

end Groups

/-- The unit one fold key becomes: its first member leads, and it waits for the leaders of the
other groups its members' edges point to. -/
structure IsUnitOf (runnable : List PlannedCheck) (edges : Edges) (key : FoldKey)
    (unit : WorkUnit) : Prop where
  leads : (members runnable key).head? = some unit.val.source
  id_eq : unit.val.id = unit.val.source.taskId
  consumers_eq : unit.val.consumers = (members runnable key).map (·.taskId)
  mem_dependsOn : ∀ d, d ∈ unit.val.dependsOn ↔
    ∃ p ∈ members runnable key, ∃ q ∈ runnable, q.taskId ∈ edges.of p.taskId ∧ foldKey q ≠ key ∧
      ∃ first, (members runnable (foldKey q)).head? = some first ∧ first.taskId = d

section

variable {runnable : List PlannedCheck} {edges : Edges}

theorem IsUnitOf.source_mem {key : FoldKey} {unit : WorkUnit}
    (h : IsUnitOf runnable edges key unit) : unit.val.source ∈ members runnable key :=
  mem_of_head? h.leads

def EdgesRunnable (runnable : List PlannedCheck) (edges : Edges) : Prop :=
  ∀ p ∈ runnable, ∀ d ∈ edges.of p.taskId, ∃ q ∈ runnable, q.taskId = d

section

variable (hIds : (runnable.map (·.taskId)).Nodup)
include hIds

theorem dependency_ok (key : FoldKey) {q : PlannedCheck} (hq : q ∈ runnable) :
    ∃ first, (members runnable (foldKey q)).head? = some first ∧
      dependency (groupsOf runnable) (groupOf (groupsOf runnable)) key q.taskId =
        .ok (if foldKey q = key then none else some first.taskId) := by
  have hMem : q ∈ members runnable (foldKey q) := mem_members.mpr ⟨hq, rfl⟩
  obtain ⟨first, hFirst⟩ : ∃ first, (members runnable (foldKey q)).head? = some first := by
    cases hList : members runnable (foldKey q) with
    | nil => rw [hList] at hMem; cases hMem
    | cons first rest => exact ⟨first, rfl⟩
  refine ⟨first, hFirst, ?_⟩
  unfold dependency
  rw [groupOf_get? hIds hq]
  by_cases hKey : foldKey q = key
  · simp [hKey]
  · simp [hKey, groupsOf_get? hq, hFirst]

theorem dependencies_ok (key : FoldKey)
    (producers : List Text) (hRunnable : ∀ d ∈ producers, ∃ q ∈ runnable, q.taskId = d) :
    ∃ deps, producers.mapM (dependency (groupsOf runnable) (groupOf (groupsOf runnable)) key) = .ok deps ∧
      ∀ d, d ∈ deps.reduceOption ↔ ∃ q ∈ runnable, q.taskId ∈ producers ∧ foldKey q ≠ key ∧
        ∃ first, (members runnable (foldKey q)).head? = some first ∧ first.taskId = d := by
  have hAll (d : Text) (hd : d ∈ producers) : ∃ dep,
      dependency (groupsOf runnable) (groupOf (groupsOf runnable)) key d = .ok dep := by
    obtain ⟨q, hq, rfl⟩ := hRunnable d hd
    obtain ⟨first, -, hDep⟩ := dependency_ok hIds key hq
    exact ⟨_, hDep⟩
  obtain ⟨deps, hDeps⟩ := exists_mapM_eq_ok.mpr hAll
  refine ⟨deps, hDeps, fun d => ?_⟩
  rw [reduceOption_mem_iff]
  constructor
  · intro hd
    obtain ⟨producer, hProducer, hDep⟩ := exists_of_mem_mapM hDeps hd
    obtain ⟨q, hq, rfl⟩ := hRunnable producer hProducer
    obtain ⟨first, hFirst, hOk⟩ := dependency_ok hIds key hq
    rw [hOk] at hDep
    by_cases hKey : foldKey q = key
    · simp [hKey] at hDep
    · simp only [hKey, if_false, Except.ok.injEq, Option.some.injEq] at hDep
      exact ⟨q, hq, hProducer, hKey, first, hFirst, hDep⟩
  · rintro ⟨q, hq, hProducer, hKey, first, hFirst, rfl⟩
    obtain ⟨dep, hMem, hDep⟩ := mem_mapM_of_mem hDeps hProducer
    obtain ⟨first', hFirst', hOk⟩ := dependency_ok hIds key hq
    rw [hOk, if_neg hKey] at hDep
    cases hFirst.symm.trans hFirst'
    cases hDep
    exact hMem

theorem unitOf_ok (hEdges : EdgesRunnable runnable edges)
    {group : FoldKey × List PlannedCheck} (hGroup : group ∈ groupsOf runnable) :
    ∃ unit, unitOf (groupsOf runnable) edges group = .ok unit ∧
      IsUnitOf runnable edges group.1 unit := by
  obtain ⟨key, group⟩ := group
  obtain ⟨rfl, hne⟩ := mem_groupsOf.mp hGroup
  obtain ⟨first, hFirst⟩ : ∃ first, (members runnable key).head? = some first := by
    cases hList : members runnable key with
    | nil => exact absurd hList hne
    | cons first rest => exact ⟨first, rfl⟩
  obtain ⟨deps, hDeps, hMem⟩ := dependencies_ok hIds key
    ((members runnable key).flatMap fun member => edges.of member.taskId) (by
      intro d hd
      obtain ⟨p, hp, hd⟩ := mem_flatMap.mp hd
      exact hEdges p (mem_members.mp hp).1 d hd)
  have hFirstMem : first ∈ runnable ∧ foldKey first = key := mem_members.mp (mem_of_head? hFirst)
  have hSorted (d : Text) : d ∈ (deps.reduceOption.dedup).insertionSort (· ≤ ·) ↔ d ∈ deps.reduceOption := by
    rw [mem_insertionSort, mem_dedup]
  let fields : WorkUnitFields := {
    id := first.taskId
    consumers := (members runnable key).map (·.taskId)
    source := first
    dependsOn := (deps.reduceOption.dedup).insertionSort (· ≤ ·) }
  have hCheck : fields.check = .ok () := by
    have hSelf : first.taskId ∉ fields.dependsOn := by
      rw [hSorted, hMem]
      rintro ⟨q, hq, -, hKey, leader, hLeader, hEq⟩
      have hLeaderMem := mem_members.mp (mem_of_head? hLeader)
      have hSame := eq_of_taskId_eq hIds hLeaderMem.1 hFirstMem.1 hEq
      exact hKey (hLeaderMem.2.symm.trans (hSame ▸ hFirstMem.2))
    have hConsumers : fields.consumers ≠ [] := by simpa [fields] using hne
    simp only [WorkUnitFields.check]
    rw [if_neg first.taskId_ne_nil, if_neg hConsumers, if_neg hSelf]
  refine ⟨⟨fields, hCheck⟩, ?_, hFirst, rfl, rfl, ?_⟩
  · unfold unitOf
    rw [hDeps]
    simp only [hFirst]
    exact Checked.construct_eq_ok hCheck
  · intro d
    rw [hSorted, hMem]
    constructor
    · rintro ⟨q, hq, hProducer, hRest⟩
      obtain ⟨p, hp, hEdge⟩ := mem_flatMap.mp hProducer
      exact ⟨p, hp, q, hq, hEdge, hRest⟩
    · rintro ⟨p, hp, q, hq, hEdge, hRest⟩
      exact ⟨q, hq, mem_flatMap.mpr ⟨p, hp, hEdge⟩, hRest⟩

end

end

end Ici
