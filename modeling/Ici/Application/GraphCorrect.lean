import Ici.Application.Blocking
import Ici.Application.Folding

/-! # What a built graph is

Every check is blocked or served by one unit, the blocked ones are the least set the wiring
forces, equal work shares a unit, and the layers respect every dependency. -/

namespace Ici

open List Raising Python

variable {units : List WorkUnit} {e : PyError} {catalog : Option (List CheckDefinition)}

theorem validate_ok (h : validate units = .ok ()) : (units.map (·.val.id)).Nodup ∧
    ∃ layers, Layering.kahn (fun unit : WorkUnit => unit.val.id) (fun unit => unit.val.dependsOn)
      units.length [] units = .ok layers := by
  unfold validate at h
  obtain ⟨hNodup, h⟩ := seq_eq_ok.mp h
  obtain ⟨-, h⟩ := seq_eq_ok.mp h
  obtain ⟨-, -, h⟩ := bind_eq_ok.mp h
  refine ⟨?_, ?_⟩
  · split at hNodup
    · assumption
    · cases hNodup
  · split at h
    · rename_i layers hLayers
      exact ⟨layers, hLayers⟩
    · cases h
    · cases h

theorem validate_error (h : validate units = .error e) : IsGraphError e := by
  unfold validate at h
  rcases bind_eq_error.mp h with h | ⟨_, -, h⟩
  · split at h
    · cases h
    · cases h
      exact isGraphError _
  rcases bind_eq_error.mp h with h | ⟨_, -, h⟩
  · refine forM_error ?_ h
    intro unit _ e hUnit
    unfold knownDependencies at hUnit
    simp only at hUnit
    split at hUnit
    · cases hUnit
    · cases hUnit
      exact isGraphError _
  rcases bind_eq_error.mp h with h | ⟨_, -, h⟩
  · refine foldlM_error (fun _ => True) IsGraphError (fun _ _ _ _ _ _ => trivial) ?_
      trivial h
    intro owners unit e _ _ hUnit
    unfold claimOutputs at hUnit
    split at hUnit
    · cases hUnit
    · refine foldlM_error (fun _ => True) IsGraphError (fun _ _ _ _ _ _ => trivial) ?_
        trivial hUnit
      intro owners output e _ _ hOutput
      unfold addOwner at hOutput
      split at hOutput
      · cases hOutput
        exact isGraphError _
      · cases hOutput
  · split at h
    · cases h
    · cases h
      exact isGraphError _
    · rename_i hFuel
      exact absurd hFuel (Layering.kahn_ne_outOfFuel _ _ _ le_rfl)

section

variable {runnable : List PlannedCheck} {edges : Edges}

structure AreUnitsOf (runnable : List PlannedCheck) (edges : Edges) (units : List WorkUnit) :
    Prop where
  each : ∀ unit ∈ units, ∃ key, IsUnitOf runnable edges key unit
  served : ∀ p ∈ runnable, ∃ unit ∈ units, IsUnitOf runnable edges (foldKey p) unit
  consumers_perm : (units.flatMap (·.val.consumers)).Perm (runnable.map (·.taskId))

section

variable (hIds : (runnable.map (·.taskId)).Nodup) (hEdges : EdgesRunnable runnable edges)
include hIds hEdges

theorem unitOf_isUnitOf {group : FoldKey × List PlannedCheck}
    (hGroup : group ∈ groupsOf runnable) {unit : WorkUnit}
    (h : unitOf (groupsOf runnable) edges group = .ok unit) :
    IsUnitOf runnable edges group.1 unit := by
  obtain ⟨unit', hUnit, hIs⟩ := unitOf_ok hIds hEdges hGroup
  cases h.symm.trans hUnit
  exact hIs

theorem consumers_perm_of_forall₂ {groups : Groups} {units : List WorkUnit}
    (hSub : groups ⊆ groupsOf runnable)
    (h : List.Forall₂ (fun group unit => unitOf (groupsOf runnable) edges group = .ok unit)
      groups units) :
    units.flatMap (·.val.consumers) = (groups.flatMap Prod.snd).map (·.taskId) := by
  induction h with
  | nil => rfl
  | cons hHead hTail ih =>
    obtain ⟨hGroup, hRest⟩ := cons_subset.mp hSub
    have hIs := unitOf_isUnitOf hIds hEdges hGroup hHead
    rw [flatMap_cons, ih hRest, hIs.consumers_eq, flatMap_cons, map_append, (mem_groupsOf.mp hGroup).1]

theorem unitsOf_ok {units : List WorkUnit} (h : unitsOf runnable edges = .ok units) :
    AreUnitsOf runnable edges units ∧ validate units = .ok () := by
  unfold unitsOf at h
  obtain ⟨found, hUnits, h⟩ := bind_eq_ok.mp h
  obtain ⟨hValid, h⟩ := seq_eq_ok.mp h
  cases h
  refine ⟨⟨?_, ?_, ?_⟩, hValid⟩
  · intro unit hUnit
    obtain ⟨group, hGroup, hOk⟩ := exists_of_mem_mapM hUnits hUnit
    exact ⟨group.1, unitOf_isUnitOf hIds hEdges hGroup hOk⟩
  · intro p hp
    have hGroup := Dict.mem_of_get? (groupsOf_get? hp)
    obtain ⟨unit, hUnit, hOk⟩ := mem_mapM_of_mem hUnits hGroup
    exact ⟨unit, hUnit, unitOf_isUnitOf hIds hEdges hGroup hOk⟩
  · rw [consumers_perm_of_forall₂ hIds hEdges (Subset.refl _) (mapM_eq_ok.mp hUnits)]
    exact (Dict.flatMap_groupBy_perm foldKey runnable).map _

theorem unitsOf_error {e : PyError} (h : unitsOf runnable edges = .error e) : IsGraphError e := by
  have hAll (group : FoldKey × List PlannedCheck) (hGroup : group ∈ groupsOf runnable) :
      ∃ unit, unitOf (groupsOf runnable) edges group = .ok unit := by
    obtain ⟨unit, hUnit, -⟩ := unitOf_ok hIds hEdges hGroup
    exact ⟨unit, hUnit⟩
  obtain ⟨units, hUnits⟩ := exists_mapM_eq_ok.mpr hAll
  unfold unitsOf at h
  rcases bind_eq_error.mp h with h | ⟨_, -, h⟩
  · cases hUnits.symm.trans h
  rcases bind_eq_error.mp h with h | ⟨_, -, h⟩
  · exact validate_error h
  · cases h

end

end

/-! ## The graph -/

structure WellBuilt (checks : List PlannedCheck) (graph : TaskGraph) : Prop where
  placed : ∀ p ∈ checks, (∃! unit, unit ∈ graph.units ∧ p.taskId ∈ unit.val.consumers) ∧
        (¬∃ b ∈ graph.blocked, b.check = p) ∨
      (∃ b ∈ graph.blocked, b.check = p) ∧ ∀ unit ∈ graph.units, p.taskId ∉ unit.val.consumers
  accounted : (graph.units.flatMap (·.val.consumers) ++
    graph.blocked.map (·.check.taskId)).Perm (checks.map (·.taskId))
  blocked_isLeast : IsLeast {S | BlockClosed checks S} {p | ∃ b ∈ graph.blocked, b.check = p}
  sharing : ∀ p ∈ checks, ∀ q ∈ checks, ∀ pPlan ∈ p.task, ∀ qPlan ∈ q.task,
    (¬∃ b ∈ graph.blocked, b.check = p) → (¬∃ b ∈ graph.blocked, b.check = q) →
    ((∃ unit ∈ graph.units, p.taskId ∈ unit.val.consumers ∧ q.taskId ∈ unit.val.consumers) ↔
      pPlan.task.shareKey = qPlan.task.shareKey)
  dependsOn : ∀ unit ∈ graph.units, ∀ d, d ∈ unit.val.dependsOn ↔
    ∃ other ∈ graph.units, other ≠ unit ∧ other.val.id = d ∧ ∃ p ∈ checks, p.taskId ∈ unit.val.consumers ∧
        ∃ q ∈ checks, q.taskId ∈ other.val.consumers ∧ NeedsFrom p q
  layered : ∃ layers, graph.layers = .ok layers ∧ layers.flatten.Perm graph.units ∧
    (graph.units.map (·.val.id)).Nodup ∧
    ∀ (i : ℕ) (layer : List WorkUnit), layers[i]? = some layer → ∀ unit ∈ layer, ∀ d ∈ unit.val.dependsOn,
      ∃ j < i, ∃ before, layers[j]? = some before ∧ ∃ other ∈ before, other.val.id = d

/-- A blocking that ended and the valid units made of what it left runnable. -/
structure GraphRun (checks : List PlannedCheck) (graph : TaskGraph) (edges : Edges)
    (runnable : List PlannedCheck) : Prop where
  blocking : ∃ produced wiring, wiring.edges = edges ∧
    BlockingRun checks produced wiring graph.blocked runnable
  units : AreUnitsOf runnable edges graph.units
  valid : validate graph.units = .ok ()

namespace GraphRun

variable {checks : List PlannedCheck} {graph : TaskGraph} {edges : Edges}
  {runnable : List PlannedCheck} (run : GraphRun checks graph edges runnable)

include run

variable {key : FoldKey} {unit : WorkUnit} {p : PlannedCheck}

theorem unit_unique {other : WorkUnit} (hUnit : unit ∈ graph.units)
    (hOther : other ∈ graph.units) (h : IsUnitOf runnable edges key unit)
    (h' : IsUnitOf runnable edges key other) : unit = other := by
  apply inj_on_of_nodup_map (validate_ok run.valid).1 hUnit hOther
  have hSource : unit.val.source = other.val.source :=
    Option.some.inj (h.leads.symm.trans h'.leads)
  rw [h.id_eq, h'.id_eq, hSource]

theorem consumer_iff (h : IsUnitOf runnable edges key unit) {p : PlannedCheck} (hp : p ∈ checks) :
    p.taskId ∈ unit.val.consumers ↔ p ∈ members runnable key := by
  obtain ⟨produced, wiring, -, hRun⟩ := run.blocking
  rw [h.consumers_eq, mem_map]
  constructor
  · rintro ⟨q, hq, hId⟩
    have hMem := hRun.mem_checks (mem_members.mp hq).1
    exact hRun.eq_of_taskId hMem hp hId ▸ hq
  · intro hMem
    exact ⟨p, hMem, rfl⟩

theorem key_of_consumer (hUnit : unit ∈ graph.units) {p : PlannedCheck}
    (hp : p ∈ checks) (h : p.taskId ∈ unit.val.consumers) :
    p ∈ runnable ∧ IsUnitOf runnable edges (foldKey p) unit := by
  obtain ⟨key, hKey⟩ := run.units.each unit hUnit
  obtain ⟨hRun, rfl⟩ := mem_members.mp ((run.consumer_iff hKey hp).mp h)
  exact ⟨hRun, hKey⟩

theorem served (hp : p ∈ runnable) : ∃ unit ∈ graph.units, IsUnitOf runnable edges (foldKey p) unit ∧
      p.taskId ∈ unit.val.consumers := by
  obtain ⟨produced, wiring, -, hRun⟩ := run.blocking
  obtain ⟨unit, hUnit, hKey⟩ := run.units.served p hp
  exact ⟨unit, hUnit, hKey, (run.consumer_iff hKey (hRun.mem_checks hp)).mpr (mem_members.mpr ⟨hp, rfl⟩)⟩

theorem placed (hp : p ∈ checks) : (∃! unit, unit ∈ graph.units ∧ p.taskId ∈ unit.val.consumers) ∧
        (¬∃ b ∈ graph.blocked, b.check = p) ∨
      (∃ b ∈ graph.blocked, b.check = p) ∧
        ∀ unit ∈ graph.units, p.taskId ∉ unit.val.consumers := by
  obtain ⟨produced, wiring, -, hRun⟩ := run.blocking
  rcases hRun.blocked_or_runnable hp with hBlocked | hRunnable
  · right
    refine ⟨hBlocked, fun unit hUnit hConsumer => ?_⟩
    exact hRun.not_blocked_of_runnable (run.key_of_consumer hUnit hp hConsumer).1 hBlocked
  · left
    refine ⟨?_, hRun.not_blocked_of_runnable hRunnable⟩
    obtain ⟨unit, hUnit, hKey, hConsumer⟩ := run.served hRunnable
    refine ⟨unit, ⟨hUnit, hConsumer⟩, ?_⟩
    rintro other ⟨hOther, hOtherConsumer⟩
    exact run.unit_unique hOther hUnit (run.key_of_consumer hOther hp hOtherConsumer).2 hKey

theorem accounted : (graph.units.flatMap (·.val.consumers) ++
    graph.blocked.map (·.check.taskId)).Perm (checks.map (·.taskId)) := by
  obtain ⟨produced, wiring, -, hRun⟩ := run.blocking
  refine (run.units.consumers_perm.append_right _).trans ?_
  refine perm_append_comm.trans ?_
  simpa [Function.comp_def] using hRun.perm.map (·.taskId)

theorem sharing {q : PlannedCheck} (hp : p ∈ runnable) (hq : q ∈ runnable) :
    (∃ unit ∈ graph.units, p.taskId ∈ unit.val.consumers ∧ q.taskId ∈ unit.val.consumers) ↔
      foldKey p = foldKey q := by
  obtain ⟨produced, wiring, -, hRun⟩ := run.blocking
  have hpMem := hRun.mem_checks hp
  have hqMem := hRun.mem_checks hq
  constructor
  · rintro ⟨unit, hUnit, hpConsumer, hqConsumer⟩
    obtain ⟨-, hKey⟩ := run.key_of_consumer hUnit hpMem hpConsumer
    exact ((mem_members.mp ((run.consumer_iff hKey hqMem).mp hqConsumer)).2).symm
  · intro hSame
    obtain ⟨unit, hUnit, hKey, hConsumer⟩ := run.served hp
    refine ⟨unit, hUnit, hConsumer, ?_⟩
    exact (run.consumer_iff hKey hqMem).mpr (mem_members.mpr ⟨hq, hSame.symm⟩)

theorem mem_dependsOn (hUnit : unit ∈ graph.units) (d : Text) :
    d ∈ unit.val.dependsOn ↔ ∃ other ∈ graph.units, other ≠ unit ∧ other.val.id = d ∧
      ∃ p ∈ checks, p.taskId ∈ unit.val.consumers ∧
        ∃ q ∈ checks, q.taskId ∈ other.val.consumers ∧ NeedsFrom p q := by
  obtain ⟨produced, wiring, rfl, hRun⟩ := run.blocking
  obtain ⟨key, hKey⟩ := run.units.each unit hUnit
  rw [hKey.mem_dependsOn]
  constructor
  · rintro ⟨p, hp, q, hq, hEdge, hOtherKey, first, hFirst, rfl⟩
    obtain ⟨hpRun, rfl⟩ := mem_members.mp hp
    obtain ⟨other, hOther, hOtherUnit, hConsumer⟩ := run.served hq
    obtain ⟨q', hq', hNeeds, hId⟩ := (hRun.mem_edges hpRun _).mp hEdge
    have hSame := hRun.eq_of_taskId hq' (hRun.mem_checks hq) hId
    refine ⟨other, hOther, ?_, ?_, p, hRun.mem_checks hpRun,
      (run.consumer_iff hKey (hRun.mem_checks hpRun)).mpr hp, q, hRun.mem_checks hq, hConsumer,
      hSame ▸ hNeeds⟩
    · rintro rfl
      have hMem := (run.consumer_iff hKey (hRun.mem_checks hq)).mp hConsumer
      exact hOtherKey (mem_members.mp hMem).2
    · rw [hOtherUnit.id_eq, Option.some.inj (hOtherUnit.leads.symm.trans hFirst)]
  · rintro ⟨other, hOther, hne, rfl, p, hp, hpConsumer, q, hq, hqConsumer, hNeeds⟩
    obtain ⟨hqRun, hOtherUnit⟩ := run.key_of_consumer hOther hq hqConsumer
    have hpMem := (run.consumer_iff hKey hp).mp hpConsumer
    refine ⟨p, hpMem, q, hqRun, ?_, ?_, other.val.source, hOtherUnit.leads, hOtherUnit.id_eq.symm⟩
    · exact (hRun.mem_edges (mem_members.mp hpMem).1 _).mpr ⟨q, hq, hNeeds, rfl⟩
    · intro hSame
      exact hne (run.unit_unique hOther hUnit (hSame ▸ hOtherUnit) hKey)

theorem layered : ∃ layers, graph.layers = .ok layers ∧ layers.flatten.Perm graph.units ∧
    (graph.units.map (·.val.id)).Nodup ∧
    ∀ (i : ℕ) (layer : List WorkUnit), layers[i]? = some layer → ∀ unit ∈ layer, ∀ d ∈ unit.val.dependsOn,
      ∃ j < i, ∃ before, layers[j]? = some before ∧ ∃ other ∈ before, other.val.id = d := by
  obtain ⟨hNodup, layers, hLayers⟩ := validate_ok run.valid
  obtain ⟨hPerm, hOrdered, -⟩ := Layering.kahn_ok _ _ _ _ hLayers
  refine ⟨layers, ?_, hPerm, hNodup, ?_⟩
  · unfold TaskGraph.layers
    rw [hLayers]
  · intro i layer hLayer unit hUnit d hd
    exact (hOrdered.earlier hLayer hUnit hd).resolve_left not_mem_nil

theorem wellBuilt : WellBuilt checks graph := by
  obtain ⟨produced, wiring, -, hRun⟩ := run.blocking
  refine ⟨fun p hp => run.placed hp, run.accounted, hRun.isLeast, ?_,
    fun unit hUnit => run.mem_dependsOn hUnit, run.layered⟩
  intro p hp q hq pPlan hpPlan qPlan hqPlan hpFree hqFree
  have hpRun := (hRun.blocked_or_runnable hp).resolve_left hpFree
  have hqRun := (hRun.blocked_or_runnable hq).resolve_left hqFree
  rw [run.sharing hpRun hqRun]
  simp [foldKey, Option.mem_def.mp hpPlan, Option.mem_def.mp hqPlan]

end GraphRun

variable {checks : List PlannedCheck}

theorem blockChecks_ok (hIds : (checks.map (·.taskId)).Nodup) {edges : Edges} {blocked : List Blocked}
    {runnable : List PlannedCheck} (h : blockChecks checks catalog = .ok (edges, blocked, runnable)) :
    ∃ produced wiring, wiring.edges = edges ∧
      BlockingRun checks produced wiring blocked runnable := by
  unfold blockChecks at h
  obtain ⟨produced, hProduced, h⟩ := bind_eq_ok.mp h
  obtain ⟨wiring, hWiring, h⟩ := bind_eq_ok.mp h
  split at h
  · cases h
  · rename_i blocked' runnable' hLoop
    cases h
    exact ⟨produced, wiring, rfl, hIds, hProduced, ⟨_, hWiring⟩, ⟨_, hLoop⟩⟩

theorem blockChecks_error (h : blockChecks checks catalog = .error e) : IsGraphError e := by
  unfold blockChecks at h
  rcases bind_eq_error.mp h with h | ⟨produced, -, h⟩
  · exact producers_error h
  rcases bind_eq_error.mp h with h | ⟨wiring, -, h⟩
  · exact foldlM_error (fun _ => True) IsGraphError (fun _ _ _ _ _ _ => trivial)
      (fun _ _ _ _ _ hRaise => wireCheck_error hRaise) trivial h
  · obtain ⟨blocked, runnable, hLoop⟩ := Saturation.exists_saturate (blockedBy wiring.edges)
      (wiring.runnable.length + 1) wiring.blocked wiring.runnable (by omega)
    rw [hLoop] at h
    cases h

theorem BlockingRun.runnable_nodup {produced : Dict Text PlannedCheck} {wiring : Wiring}
    {blocked : List Blocked}
    {runnable : List PlannedCheck} (run : BlockingRun checks produced wiring blocked runnable) :
    (runnable.map (·.taskId)).Nodup := by
  have hNodup := (run.perm.map (·.taskId)).nodup_iff.mpr run.ids
  rw [map_append] at hNodup
  exact hNodup.of_append_right

theorem buildGraph_graphRun (hIds : (checks.map (·.taskId)).Nodup) {graph : TaskGraph}
    (h : buildGraph checks catalog = .ok graph) :
    ∃ edges runnable, blockChecks checks catalog = .ok (edges, graph.blocked, runnable) ∧
      GraphRun checks graph edges runnable := by
  unfold buildGraph at h
  obtain ⟨⟨edges, blocked, runnable⟩, hBlock, h⟩ := bind_eq_ok.mp h
  obtain ⟨units, hUnits, h⟩ := bind_eq_ok.mp h
  cases h
  obtain ⟨produced, wiring, rfl, hRun⟩ := blockChecks_ok hIds hBlock
  obtain ⟨hAre, hValid⟩ := unitsOf_ok hRun.runnable_nodup
    (fun p hp d hd => hRun.edgesRunnable hp hd) hUnits
  exact ⟨wiring.edges, runnable, hBlock, ⟨produced, wiring, rfl, hRun⟩, hAre, hValid⟩

theorem buildGraph_error (hIds : (checks.map (·.taskId)).Nodup) {e : PyError}
    (h : buildGraph checks catalog = .error e) : IsGraphError e := by
  unfold buildGraph at h
  rcases bind_eq_error.mp h with h | ⟨⟨edges, blocked, runnable⟩, hBlock, h⟩
  · exact blockChecks_error h
  rcases bind_eq_error.mp h with h | ⟨_, -, h⟩
  · obtain ⟨produced, wiring, rfl, hRun⟩ := blockChecks_ok hIds hBlock
    exact unitsOf_error hRun.runnable_nodup (fun p hp d hd => hRun.edgesRunnable hp hd) h
  · cases h

/-- Whatever the checks need from each other, the result is a graph error or a well-built graph. -/
theorem buildGraph_correct (checks : List PlannedCheck) (catalog : Option (List CheckDefinition))
    (hIds : (checks.map (·.taskId)).Nodup) :
    match buildGraph checks catalog with
    | .error e => e.name = py "GraphError"
    | .ok graph => WellBuilt checks graph := by
  cases h : buildGraph checks catalog with
  | error e => exact buildGraph_error hIds h
  | ok graph =>
    obtain ⟨edges, runnable, -, run⟩ := buildGraph_graphRun hIds h
    exact run.wellBuilt

def measureCheck : PlannedCheck where
  check := { id := py "measure", language := py "cpp", tool := none, provides := [py "lines"] }
  taskId := py "measure"
  taskId_ne_nil := by decide
  not_both := PlannedCheck.untasked
  taskId_agrees := by simp

def judgeCheck : PlannedCheck where
  check := { id := py "judge", language := py "cpp", tool := none, needs := [py "lines"] }
  taskId := py "judge"
  taskId_ne_nil := by decide
  not_both := PlannedCheck.untasked
  taskId_agrees := by simp

def lintTask (id : Text) (h : TaskSpecFields.check {
    id := id, kind := .analyze, provider := py "lint", argv := [py "lint"], cwd := py "." } = .ok ()) :
    TaskSpec :=
  ⟨_, h⟩

def lintCheck : PlannedCheck where
  check := { id := py "lint", language := py "cpp", tool := some (py "lint") }
  task := some { task := lintTask (py "lint") (by decide) }
  taskId := py "lint"
  taskId_ne_nil := by decide
  not_both := fun _ => rfl
  taskId_agrees := by
    rintro plan hPlan
    cases hPlan
    rfl

theorem audit_ne_nil : py "audit" ≠ [] := by decide

/-- The same tool under the name `audit`. -/
def audited (check : CheckDefinition) : PlannedCheck where
  check
  task := some { task := lintTask (py "audit") (by decide) }
  taskId := py "audit"
  taskId_ne_nil := audit_ne_nil
  not_both := fun _ => rfl
  taskId_agrees := by
    rintro plan hPlan
    cases hPlan
    rfl

/-- A consumer listed before its producer. -/
theorem buildGraph_correct_judge : ∃ graph, buildGraph [judgeCheck, measureCheck] none = .ok graph ∧
      WellBuilt [judgeCheck, measureCheck] graph := by
  have hCorrect := buildGraph_correct [judgeCheck, measureCheck] none (by decide)
  have hOk : (buildGraph [judgeCheck, measureCheck] none).isOk = true := by decide
  cases h : buildGraph [judgeCheck, measureCheck] none with
  | error e =>
    rw [h] at hOk
    cases hOk
  | ok graph =>
    rw [h] at hCorrect
    exact ⟨graph, rfl, hCorrect⟩

end Ici
