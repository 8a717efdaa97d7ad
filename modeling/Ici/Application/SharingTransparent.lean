import Ici.Application.Transparency

/-! # Sharing transparency

The shared run against the run of the same checks with one unit each. -/

namespace Ici

open Option List Python Sharing

def IsRunnable (graph : TaskGraph) (p : PlannedCheck) : Prop := ¬∃ b ∈ graph.blocked, b.check = p

def PrerequisitesSucceed (checks : List PlannedCheck) (work : FoldKey → Observation)
    (p : PlannedCheck) : Prop :=
  Sharing.Runs (FedBy checks) foldKey (Succeeds work) p

theorem BlockingRun.runnable_iff {checks : List PlannedCheck} {produced : Dict Text PlannedCheck}
    {wiring : Wiring} {graph : TaskGraph} {runnable : List PlannedCheck}
    (run : BlockingRun checks produced wiring graph.blocked runnable) {p : PlannedCheck}
    (hp : p ∈ checks) : p ∈ runnable ↔ IsRunnable graph p :=
  ⟨run.not_blocked_of_runnable, (run.blocked_or_runnable hp).resolve_left⟩

section

variable {checks : List PlannedCheck} {produced : Dict Text PlannedCheck} {wiring : Wiring}
  {runnable : List PlannedCheck} {work : FoldKey → Observation} {graph : TaskGraph}
  {layers : List (List WorkUnit)} {writes : List (Text × Observation)} {scheduled : Scheduled}

theorem providerName_isIdentifier
    (blocking : BlockingRun checks produced wiring graph.blocked runnable) {unit : WorkUnit}
    (hSource : unit.val.source ∈ runnable) : IsIdentifier (providerName unit) := by
  have hArrived := (blocking.starts (blocking.starts_of_runnable hSource)).2.1
  unfold providerName WorkUnit.isInternal PlannedCheck.isInternal PlannedCheck.willRun WorkUnit.plan
  cases hTask : unit.val.source.task with
  | none =>
    simp only [hArrived, isNone_none, Bool.and_true, decide_true, if_true]
    decide
  | some plan =>
    simp only [isNone_some, Bool.and_false, Bool.false_eq_true, if_false]
    exact plan.task.provider_isIdentifier

section

variable (blocking : BlockingRun checks produced wiring graph.blocked runnable)
  (own : AreOwnUnits checks runnable graph.units)

include blocking own

omit blocking in
theorem own_rank_lt (run : ReturnedRun (working work) graph layers writes scheduled)
    {p q : PlannedCheck} (hp : p ∈ runnable) (h : FedBy checks p q) :
    Layering.rank (fun unit : WorkUnit => unit.val.id) layers q.taskId <
      Layering.rank (fun unit : WorkUnit => unit.val.id) layers p.taskId := by
  obtain ⟨unit, hUnit, rfl⟩ := own.exists_unit hp
  have hd := (own.mem_dependsOn unit hUnit q.taskId).mpr ⟨q, h, rfl⟩
  have hLess := ((layers_ok run.layers_eq).2.rank_lt run.layers_nodup
    (run.layers_perm.symm.subset hUnit) hd).resolve_left not_mem_nil
  rw [← own.id_eq unit hUnit]
  exact hLess.2

theorem own_layers (hAcyclic : ∀ p ∈ runnable, ¬Relation.TransGen (FedBy checks) p p) :
    ∃ layers, graph.layers = .ok layers := by
  have hWf := wellFounded_of_acyclic runnable
    (fun p hp q hq => blocking.fedBy_closed hp hq) hAcyclic
  have hUnitWf : WellFounded fun other unit : WorkUnit => unit ∈ graph.units ∧
      other ∈ graph.units ∧ other.val.id ∈ unit.val.dependsOn := by
    refine Subrelation.wf ?_ (InvImage.wf (fun unit : WorkUnit => unit.val.source) hWf)
    rintro other unit ⟨hUnit, hOther, hDep⟩
    obtain ⟨q, hq, hId⟩ := (own.mem_dependsOn unit hUnit _).mp hDep
    rw [own.id_eq other hOther] at hId
    have hSame := blocking.eq_of_taskId hq.1 (blocking.mem_checks (own.source_mem hOther)) hId
    rw [hSame] at hq
    exact ⟨own.source_mem hUnit, hq⟩
  obtain ⟨layers, hLayers⟩ := Layering.exists_kahn graph.units hUnitWf graph.units.length []
    graph.units le_rfl (fun _ h => h) (by
      intro unit hUnit d hd
      obtain ⟨q, hq, rfl⟩ := (own.mem_dependsOn unit hUnit d).mp hd
      obtain ⟨other, hOther, rfl⟩ :=
        own.exists_unit (blocking.fedBy_closed (own.source_mem hUnit) hq)
      exact .inr ⟨other, hOther, own.id_eq other hOther⟩)
  refine ⟨layers, ?_⟩
  unfold TaskGraph.layers
  rw [hLayers]

theorem own_returns (hLayers : ∃ layers, graph.layers = .ok layers)
    (hIdentifiers : ∀ p ∈ runnable, IsIdentifier p.taskId)
    (hBlocked : ∀ item ∈ graph.blocked, IsReportable item) :
    ∃ scheduled, runGraph (working work) graph = .ok scheduled := by
  refine (exists_runGraph_iff hLayers).mpr ⟨?_, hBlocked⟩
  rintro finished unit ⟨layers, hLayers, hAttempted⟩
  have hUnit := (layers_ok hLayers).1.subset hAttempted.mem
  have hSource := own.source_mem hUnit
  constructor
  · intro consumer hConsumer
    rw [own.consumers_eq unit hUnit, mem_singleton] at hConsumer
    exact hConsumer ▸ hIdentifiers _ hSource
  · unfold AttemptSafe
    simp only [working]
    split
    · exact providerName_isIdentifier blocking hSource
    · intro hCaching
      cases hCaching

end

end

def stateIn (built : Result TaskGraph) (work : FoldKey → Observation) (id : Text) : Option TaskState :=
  match built with
  | .error _ => none
  | .ok graph =>
    match runGraph (working work) graph with
    | .error _ => none
    | .ok scheduled => scheduled.stateOf id

theorem exists_of_stateIn {built : Result TaskGraph} {work : FoldKey → Observation} {id : Text}
    {state : TaskState} (h : stateIn built work id = some state) :
    ∃ graph scheduled, built = .ok graph ∧ runGraph (working work) graph = .ok scheduled ∧
      scheduled.stateOf id = some state := by
  unfold stateIn at h
  split at h
  · cases h
  · split at h
    · cases h
    · rename_i graph _ scheduled hRun
      exact ⟨graph, scheduled, rfl, hRun, h⟩

def auditCheck : PlannedCheck := audited {
  id := py "audit", language := py "cpp", tool := some (py "lint"), needs := [py "lines"]
  id_ne_nil := audit_ne_nil
  disjoint := judgeCheck.check.disjoint }

def observed (state : TaskState) : Observation :=
  ⟨{ taskId := py "any", provider := py "ici", state := state }, by cases state <;> decide⟩

def unmeasured : FoldKey → Observation
  | .internal _ => observed .failed
  | .shared _ => observed .succeeded

end Ici
