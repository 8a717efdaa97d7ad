import Ici.Application.Working

/-! # When sharing does not show

A check ends in the same state shared and unshared exactly when the checks without sharing are
free of cycles and whatever is folded together would have run alike. -/

namespace Ici

open Option List Python

theorem ending_eq_iff {work : FoldKey → Observation} {key : FoldKey} {first second : Prop}
    [Decidable first] [Decidable second] :
    ending work key first = ending work key second ↔
      (work key).val.state = .blocked ∨ (first ↔ second) := by
  unfold ending
  by_cases hFirst : first <;> by_cases hSecond : second <;> simp [hFirst, hSecond, eq_comm]

def Succeeds (work : FoldKey → Observation) (key : FoldKey) : Prop :=
  (work key).val.state = .succeeded

/-! ## On its own -/

section Own

variable {checks : List PlannedCheck} {produced : Dict Text PlannedCheck} {wiring : Wiring}
  {runnable : List PlannedCheck} {work : FoldKey → Observation} {graph : TaskGraph}
  {layers : List (List WorkUnit)} {writes : List (Text × Observation)} {scheduled : Scheduled}

def OwnRuns (work : FoldKey → Observation) (graph : TaskGraph) (layers : List (List WorkUnit))
    (p : PlannedCheck) : Prop :=
  ∃ unit ∈ graph.units, unit.val.source = p ∧ Performed (working work) layers unit

section

variable (own : AreOwnUnits checks runnable graph.units)
include own

theorem AreOwnUnits.exists_unit {p : PlannedCheck}
    (hp : p ∈ runnable) : ∃ unit ∈ graph.units, unit.val.source = p := by
  rw [← own.sources] at hp
  exact mem_map.mp hp

theorem AreOwnUnits.source_mem {unit : WorkUnit}
    (hUnit : unit ∈ graph.units) : unit.val.source ∈ runnable := by
  rw [← own.sources]
  exact mem_map.mpr ⟨unit, hUnit, rfl⟩

theorem AreOwnUnits.map_id : graph.units.map (·.val.id) = runnable.map (·.taskId) := by
  rw [← own.sources, List.map_map]
  exact map_congr_left fun unit hUnit => own.id_eq unit hUnit

end

variable (blocking : BlockingRun checks produced wiring graph.blocked runnable)
  (own : AreOwnUnits checks runnable graph.units)

include blocking own

theorem own_unique {unit other : WorkUnit} (hUnit : unit ∈ graph.units)
    (hOther : other ∈ graph.units) (h : unit.val.source = other.val.source) : unit = other := by
  have hNodup := blocking.runnable_nodup
  rw [← own.map_id] at hNodup
  apply inj_on_of_nodup_map hNodup hUnit hOther
  rw [own.id_eq unit hUnit, own.id_eq other hOther, h]

theorem ownRuns_iff {unit : WorkUnit} (hUnit : unit ∈ graph.units) :
    OwnRuns work graph layers unit.val.source ↔ Performed (working work) layers unit := by
  constructor
  · rintro ⟨other, hOther, hSource, hPerformed⟩
    exact own_unique blocking own hOther hUnit hSource ▸ hPerformed
  · intro hPerformed
    exact ⟨unit, hUnit, rfl, hPerformed⟩

theorem isOwn (run : ReturnedRun (working work) graph layers writes scheduled) :
    Sharing.IsOwn {p | p ∈ runnable} (FedBy checks) foldKey (Succeeds work)
      (OwnRuns work graph layers) := by
  intro p hp
  obtain ⟨unit, hUnit, rfl⟩ := own.exists_unit hp
  rw [ownRuns_iff blocking own hUnit, run.performed_iff hUnit]
  constructor
  · intro h q hq
    obtain ⟨other, hOther, hId, hPerformed, hState⟩ :=
      h q.taskId ((own.mem_dependsOn unit hUnit _).mpr ⟨q, hq, rfl⟩)
    have hSame : other.val.source = q := by
      apply blocking.eq_of_taskId (blocking.mem_checks (own.source_mem hOther)) hq.1
      rw [← own.id_eq other hOther, hId]
    subst hSame
    exact ⟨⟨other, hOther, rfl, hPerformed⟩, hState⟩
  · intro h d hd
    obtain ⟨q, hq, rfl⟩ := (own.mem_dependsOn unit hUnit d).mp hd
    obtain ⟨⟨other, hOther, rfl, hPerformed⟩, hState⟩ := h q hq
    exact ⟨other, hOther, own.id_eq other hOther, hPerformed, hState⟩

theorem own_answersAlone {unit : WorkUnit} (hUnit : unit ∈ graph.units) :
    AnswersAlone graph unit unit.val.source.taskId := by
  have hMem := blocking.mem_checks (own.source_mem hUnit)
  constructor
  · intro other hOther hConsumer
    rw [own.consumers_eq other hOther, mem_singleton] at hConsumer
    apply own_unique blocking own hOther hUnit
    exact blocking.eq_of_taskId (blocking.mem_checks (own.source_mem hOther)) hMem hConsumer.symm
  · intro item hItem hId
    have hItemMem : item.check ∈ checks :=
      blocking.perm.subset (mem_append_left _ (mem_map.mpr ⟨item, hItem, rfl⟩))
    have hSame := blocking.eq_of_taskId hItemMem hMem hId
    exact blocking.not_blocked_of_runnable (own.source_mem hUnit) ⟨item, hItem, hSame⟩

open Classical in
theorem own_stateOf (run : ReturnedRun (working work) graph layers writes scheduled)
    {p : PlannedCheck} (hp : p ∈ runnable) : scheduled.stateOf p.taskId =
      some (ending work (foldKey p) (OwnRuns work graph layers p)) := by
  obtain ⟨unit, hUnit, rfl⟩ := own.exists_unit hp
  rw [run.stateOf_consumer hUnit (by rw [own.consumers_eq unit hUnit]; exact mem_cons_self)
    (own_answersAlone blocking own hUnit)]
  simp only [ending, ownRuns_iff blocking own hUnit]

end Own

section Shared

variable {checks : List PlannedCheck} {edges : Edges} {runnable : List PlannedCheck}
  {work : FoldKey → Observation} {graph : TaskGraph} {layers : List (List WorkUnit)}
  {writes : List (Text × Observation)} {scheduled : Scheduled}

def SharedRuns (work : FoldKey → Observation) (graph : TaskGraph) (layers : List (List WorkUnit))
    (p : PlannedCheck) : Prop :=
  ∃ unit ∈ graph.units, p.taskId ∈ unit.val.consumers ∧ Performed (working work) layers unit

theorem IsUnitOf.foldKey_source {key : FoldKey} {unit : WorkUnit}
    (h : IsUnitOf runnable edges key unit) : foldKey unit.val.source = key :=
  (mem_members.mp h.source_mem).2

variable (built : GraphRun checks graph edges runnable)

include built

section

variable {unit : WorkUnit} (hUnit : unit ∈ graph.units) {p : PlannedCheck} (hp : p ∈ checks)
  (hConsumer : p.taskId ∈ unit.val.consumers)
include hUnit hp hConsumer

theorem sharedRuns_iff : SharedRuns work graph layers p ↔ Performed (working work) layers unit := by
  constructor
  · rintro ⟨other, hOther, hOtherConsumer, hPerformed⟩
    have hKey := (built.key_of_consumer hUnit hp hConsumer).2
    have hOtherKey := (built.key_of_consumer hOther hp hOtherConsumer).2
    exact built.unit_unique hOther hUnit hOtherKey hKey ▸ hPerformed
  · intro hPerformed
    exact ⟨unit, hUnit, hConsumer, hPerformed⟩

omit hUnit hp hConsumer in
theorem isShared (run : ReturnedRun (working work) graph layers writes scheduled) :
    Sharing.IsShared {p | p ∈ runnable} (FedBy checks) foldKey (Succeeds work)
      (SharedRuns work graph layers) := by
  obtain ⟨produced, wiring, -, blocking⟩ := built.blocking
  intro p hp
  obtain ⟨unit, hUnit, hKey, hConsumer⟩ := built.served hp
  rw [sharedRuns_iff built hUnit (blocking.mem_checks hp) hConsumer, run.performed_iff hUnit]
  constructor
  · intro h p' hp' hSame q hq hOut
    have hqRun := blocking.fedBy_closed hp' hq
    obtain ⟨other, hOther, hOtherKey, hqConsumer⟩ := built.served hqRun
    have hp'Consumer : p'.taskId ∈ unit.val.consumers :=
      (built.consumer_iff hKey (blocking.mem_checks hp')).mpr (mem_members.mpr ⟨hp', hSame⟩)
    have hne : other ≠ unit := by
      rintro rfl
      have hMem := (built.consumer_iff hKey hq.1).mp hqConsumer
      exact hOut (mem_members.mp hMem).2
    obtain ⟨other', hOther', hId, hPerformed, hState⟩ := h other.val.id
      ((built.mem_dependsOn hUnit _).mpr ⟨other, hOther, hne, rfl, p', blocking.mem_checks hp',
        hp'Consumer, q, hq.1, hqConsumer, hq.2⟩)
    have hSameUnit := inj_on_of_nodup_map run.nodup hOther' hOther hId
    subst hSameUnit
    refine ⟨⟨other', hOther', hqConsumer, hPerformed⟩, ?_⟩
    rw [hOtherKey.foldKey_source] at hState
    exact hState
  · intro h d hd
    obtain ⟨other, hOther, hne, hId, p', hp', hp'Consumer, q, hq, hqConsumer, hNeeds⟩ :=
      (built.mem_dependsOn hUnit d).mp hd
    have hp'Mem := mem_members.mp ((built.consumer_iff hKey hp').mp hp'Consumer)
    obtain ⟨-, hOtherKey⟩ := built.key_of_consumer hOther hq hqConsumer
    have hOut : foldKey q ≠ foldKey p := by
      intro hSame
      rw [hSame] at hOtherKey
      exact hne (built.unit_unique hOther hUnit hOtherKey hKey)
    obtain ⟨hRuns, hState⟩ := h p' hp'Mem.1 hp'Mem.2 q ⟨hq, hNeeds⟩ hOut
    refine ⟨other, hOther, hId, (sharedRuns_iff built hOther hq hqConsumer).mp hRuns, ?_⟩
    rw [hOtherKey.foldKey_source]
    exact hState

theorem shared_answersAlone : AnswersAlone graph unit p.taskId := by
  obtain ⟨produced, wiring, -, blocking⟩ := built.blocking
  obtain ⟨hRun, hKey⟩ := built.key_of_consumer hUnit hp hConsumer
  constructor
  · intro other hOther hOtherConsumer
    exact built.unit_unique hOther hUnit (built.key_of_consumer hOther hp hOtherConsumer).2 hKey
  · intro item hItem hId
    have hItemMem : item.check ∈ checks :=
      blocking.perm.subset (mem_append_left _ (mem_map.mpr ⟨item, hItem, rfl⟩))
    have hSame := blocking.eq_of_taskId hItemMem hp hId
    exact blocking.not_blocked_of_runnable hRun ⟨item, hItem, hSame⟩

end

open Classical in
theorem shared_stateOf (run : ReturnedRun (working work) graph layers writes scheduled)
    {p : PlannedCheck} (hp : p ∈ runnable) : scheduled.stateOf p.taskId =
      some (ending work (foldKey p) (SharedRuns work graph layers p)) := by
  obtain ⟨produced, wiring, -, blocking⟩ := built.blocking
  obtain ⟨unit, hUnit, hKey, hConsumer⟩ := built.served hp
  have hMem := blocking.mem_checks hp
  rw [run.stateOf_consumer hUnit hConsumer (shared_answersAlone built hUnit hMem hConsumer),
    hKey.foldKey_source]
  simp only [ending, sharedRuns_iff built hUnit hMem hConsumer]

theorem shared_wellFounded (run : ReturnedRun (working work) graph layers writes scheduled) :
    WellFounded fun k' k => Sharing.FoldedNeeds {p | p ∈ runnable} (FedBy checks) foldKey k k' := by
  obtain ⟨produced, wiring, -, blocking⟩ := built.blocking
  let leader (k : FoldKey) : Text := (((members runnable k).head?).map (·.taskId)).getD []
  have hLeader {k : FoldKey} {unit : WorkUnit} (h : IsUnitOf runnable edges k unit) :
      leader k = unit.val.id := by
    simp only [leader, h.leads, map_some, getD_some, h.id_eq]
  refine Subrelation.wf ?_
    (measure fun k => Layering.rank (fun unit : WorkUnit => unit.val.id) layers (leader k)).wf
  rintro k' k ⟨hne, p, hp, q, hq, rfl, rfl⟩
  obtain ⟨unit, hUnit, hKey, hConsumer⟩ := built.served hp
  obtain ⟨other, hOther, hOtherKey, hqConsumer⟩ := built.served (blocking.fedBy_closed hp hq)
  have hOut : other ≠ unit := by
    rintro rfl
    exact hne (hKey.foldKey_source.symm.trans hOtherKey.foldKey_source)
  have hd : other.val.id ∈ unit.val.dependsOn := (built.mem_dependsOn hUnit _).mpr
    ⟨other, hOther, hOut, rfl, p, blocking.mem_checks hp, hConsumer, q, hq.1, hqConsumer, hq.2⟩
  have hLess := ((layers_ok run.layers_eq).2.rank_lt run.layers_nodup
    (run.layers_perm.symm.subset hUnit) hd).resolve_left not_mem_nil
  change Layering.rank _ layers (leader (foldKey q)) < Layering.rank _ layers (leader (foldKey p))
  rw [hLeader hKey, hLeader hOtherKey]
  exact hLess.2

end Shared

end Ici
