import Ici.Domain.Workspace

/-! # Narrowing a workspace to some of its components -/

namespace Ici

open List Raising Python WorkspaceFields

variable {values : List Text} {description id : Text} {components : List Component}

theorem duplicates_eq_nil_iff {seen : List Text} :
    duplicates seen values = [] ↔ values.Nodup ∧ ∀ value ∈ values, value ∉ seen := by
  induction values generalizing seen with
  | nil => simp [duplicates]
  | cons first rest ih =>
    unfold duplicates
    split_ifs with hSeen
    · simp [hSeen]
    · rw [ih, nodup_cons]
      simp only [mem_cons, not_or, forall_eq_or_imp, hSeen, not_false_eq_true, true_and]
      constructor
      · rintro ⟨hNodup, hFresh⟩
        exact ⟨⟨fun hMem => (hFresh first hMem).1 rfl, hNodup⟩, fun v hv => (hFresh v hv).2⟩
      · rintro ⟨⟨hNew, hNodup⟩, hFresh⟩
        exact ⟨hNodup, fun v hv => ⟨fun hEq => hNew (hEq ▸ hv), hFresh v hv⟩⟩

theorem requireUniqueIdentifiers_eq_ok_iff :
    requireUniqueIdentifiers values description = .ok () ↔ values.Nodup := by
  unfold requireUniqueIdentifiers
  split_ifs with hNone
  · rw [duplicates_eq_nil_iff] at hNone
    simpa using hNone.1
  · rw [duplicates_eq_nil_iff] at hNone
    simpa using hNone

theorem requireIdentifiers_eq_ok_iff : requireIdentifiers values description = .ok () ↔
      (∀ value ∈ values, IsIdentifier value) ∧ values.Nodup := by
  unfold requireIdentifiers
  rw [seq_eq_ok, forM_eq_ok, requireUniqueIdentifiers_eq_ok_iff]
  simp only [requireIdentifier_eq_ok_iff]

theorem componentEdges_subset (components : List Component) (id : Text) :
    componentEdges components id ⊆ components.map (·.val.id) := by
  unfold componentEdges
  split
  · intro need hNeed
    exact of_decide_eq_true (mem_filter.mp hNeed).2
  · exact nil_subset _

theorem componentEdges_of_notMem
    (h : id ∉ components.map (·.val.id)) : componentEdges components id = [] := by
  unfold componentEdges
  split
  · rename_i component hFind
    have hId : component.val.id = id := by simpa using find?_some hFind
    exact absurd (hId ▸ mem_map_of_mem (mem_of_find?_eq_some hFind)) h
  · rfl

theorem refuseCycle_eq_ok_iff :
    refuseCycle components = .ok () ↔ ∀ id, Cycles.Ends (componentEdges components) id := by
  have hReturns := Cycles.search_returns_iff (fun id _ => componentEdges_subset components id)
    (fun id h => componentEdges_of_notMem h) (components.length + 1) (by simp)
  rw [← hReturns]
  unfold refuseCycle componentCycle
  cases Cycles.search (componentEdges components) (components.length + 1)
      (components.map (·.val.id)) with
  | ok settled => simp
  | error halt => cases halt <;> simp

/-- The tuple `_component_cycle` returns: empty where the search runs through every component. -/
def cycleReturned (components : List Component) : Option (List Text) :=
  match componentCycle components with
  | .ok _ => some []
  | .error (.cycle nodes) => some nodes
  | .error .outOfFuel => none

def Needs (components : List Component) (consumer producer : Text) : Prop :=
  (∃ component ∈ components, component.val.id = consumer ∧ producer ∈ component.val.needs) ∧
    producer ∈ components.map (·.val.id)

theorem needs_iff (hIds : (components.map (·.val.id)).Nodup) {consumer producer : Text} :
    Needs components consumer producer ↔ producer ∈ componentEdges components consumer := by
  have hFirst : ∀ component ∈ components, component.val.id = consumer →
      components.find? (·.val.id = consumer) = some component := by
    intro component hComponent hId
    induction components with
    | nil => cases hComponent
    | cons head rest ih =>
      rw [map_cons, nodup_cons] at hIds
      rcases mem_cons.mp hComponent with rfl | hRest
      · simp [hId]
      · have hOther : head.val.id ≠ consumer := by
          intro hSame
          exact hIds.1 (hSame ▸ hId ▸ mem_map_of_mem hRest)
        rw [find?_cons_of_neg (by simpa using hOther)]
        exact ih hIds.2 hRest
  constructor
  · rintro ⟨⟨component, hComponent, hId, hNeed⟩, hKnown⟩
    rw [componentEdges, hFirst component hComponent hId]
    exact mem_filter.mpr ⟨hNeed, decide_eq_true hKnown⟩
  · intro hEdge
    refine ⟨?_, componentEdges_subset components consumer hEdge⟩
    rw [componentEdges] at hEdge
    cases hFind : components.find? (·.val.id = consumer) with
    | none =>
      rw [hFind] at hEdge
      cases hEdge
    | some component =>
      rw [hFind] at hEdge
      exact ⟨component, mem_of_find?_eq_some hFind, by simpa using find?_some hFind,
        (mem_filter.mp hEdge).1⟩

/-- Every search returns: nothing exactly where no component needs itself in the end, and
otherwise distinct components, each needing the next and the last the first. -/
theorem componentCycle_exact (components : List Component) (hIds : (components.map (·.val.id)).Nodup) :
    ∃ cycle, cycleReturned components = some cycle ∧
      (cycle = [] ↔ ∀ id, ¬Relation.TransGen (Needs components) id id) ∧
      cycle ⊆ components.map (·.val.id) ∧ cycle.Nodup ∧ cycle.IsChain (Needs components) ∧
      ∀ first ∈ cycle.head?, ∀ last ∈ cycle.getLast?, Needs components last first := by
  have hEdges : Needs components = Function.swap (Cycles.Edge (componentEdges components)) := by
    funext consumer producer
    exact propext (needs_iff hIds)
  have hClosed : ∀ id ∈ components.map (·.val.id), componentEdges components id ⊆ components.map (·.val.id) :=
    fun id _ => componentEdges_subset components id
  simp only [hEdges, Relation.transGen_swap]
  cases hSearch : componentCycle components with
  | ok settled =>
    refine ⟨[], by rw [cycleReturned, hSearch], ?_, by simp, by simp, by simp, by simp⟩
    have hEnds := (Cycles.search_returns_iff hClosed (fun id h => componentEdges_of_notMem h)
      (components.length + 1) (by simp)).mp ⟨settled, hSearch⟩
    exact iff_of_true rfl fun id => (hEnds id).not_cycle
  | error halt =>
    obtain ⟨ring, rfl, hSome, hKnown, hRing⟩ := Cycles.search_ring hClosed (by simp) hSearch
    refine ⟨ring, by rw [cycleReturned, hSearch], iff_of_false hSome ?_, hKnown, hRing.nodup,
      hRing.linked, hRing.closed⟩
    intro hNone
    obtain ⟨id, hCycle⟩ := hRing.exists_cycle hSome
    exact hNone id hCycle

structure WorkspaceFields.IsSound (workspace : WorkspaceFields) : Prop where
  id : IsIdentifier workspace.id
  name : IsText workspace.name
  components_nodup : workspace.componentIds.Nodup
  builds_nodup : workspace.buildIds.Nodup
  units_nodup : (workspace.analysisUnits.map (·.val.id)).Nodup
  unit_builds : ∀ unit ∈ workspace.analysisUnits, ∀ build ∈ unit.val.buildId, build ∈ workspace.buildIds
  directories : ∀ build ∈ workspace.builds, workspace.checkDirectory build = .ok ()
  builds : ∀ component ∈ workspace.components, ∀ build ∈ component.val.buildIds,
    build ∈ workspace.buildIds
  unambiguous : ∀ component ∈ workspace.components, ∀ need ∈ component.val.needs,
    ¬(need ∈ workspace.componentIds ∧ need ∈ workspace.buildIds)
  acyclic : ∀ id, Cycles.Ends (componentEdges workspace.components) id
  required_identifiers : ∀ id ∈ workspace.requiredComponentIds, IsIdentifier id
  required_nodup : workspace.requiredComponentIds.Nodup
  policyDigest : ∀ digest ∈ workspace.policyDigest, requireDigest digest (py "policy digest") = .ok ()
  limitations : ∀ limitation ∈ workspace.limitations, IsText limitation

structure WorkspaceFields.IsClosed (workspace : WorkspaceFields) : Prop where
  units : ∀ unit ∈ workspace.analysisUnits, unit.val.componentId ∈ workspace.componentIds
  needs : ∀ component ∈ workspace.components, ∀ need ∈ component.val.needs,
    need ∈ workspace.componentIds ∨ need ∈ workspace.buildIds
  required : ∀ id ∈ workspace.requiredComponentIds, id ∈ workspace.componentIds

theorem WorkspaceFields.check_eq_ok_iff {workspace : WorkspaceFields} :
    workspace.check = .ok () ↔ workspace.IsSound ∧ workspace.IsClosed := by
  have hFilter : ∀ (values registered : List Text),
      ¬(values.filter (· ∉ registered) ≠ []) ↔ ∀ value ∈ values, value ∈ registered := by
    intro values registered
    rw [ne_eq, not_not, filter_eq_nil_iff]
    simp
  unfold check checkUnit checkReferences checkNeed
  simp only [seq_eq_ok, requireIdentifier_eq_ok_iff, requireText_eq_ok_iff,
    requireUniqueIdentifiers_eq_ok_iff, forM_eq_ok, refuseIf_eq_ok_iff, hFilter,
    refuseCycle_eq_ok_iff, requireIdentifiers_eq_ok_iff, Option.mem_toList, not_not]
  constructor
  · rintro ⟨hId, hName, hComponents, hBuilds, hUnits, hUnit, hDirectory, hComponent, hCycle,
      hRequired, hKnown, hDigest, hLimitations⟩
    refine ⟨⟨hId, hName, hComponents, hBuilds, hUnits, fun unit h => (hUnit unit h).2, hDirectory,
      fun component h => (hComponent component h).1,
      fun component h need hNeed => ((hComponent component h).2 need hNeed).1, hCycle, hRequired.1,
      hRequired.2, hDigest, hLimitations⟩, ⟨fun unit h => (hUnit unit h).1, ?_, hKnown⟩⟩
    intro component h need hNeed
    have hSome := ((hComponent component h).2 need hNeed).2
    tauto
  · rintro ⟨hSound, hClosed⟩
    refine ⟨hSound.id, hSound.name, hSound.components_nodup, hSound.builds_nodup,
      hSound.units_nodup, fun unit h => ⟨hClosed.units unit h, hSound.unit_builds unit h⟩,
      hSound.directories, fun component h => ⟨hSound.builds component h, fun need hNeed =>
        ⟨hSound.unambiguous component h need hNeed, ?_⟩⟩, hSound.acyclic,
      ⟨hSound.required_identifiers, hSound.required_nodup⟩, hClosed.required, hSound.policyDigest,
      hSound.limitations⟩
    have hSome := hClosed.needs component h need hNeed
    tauto

/-! ## The narrowed workspace -/

def WorkspaceFields.narrowed (workspace : WorkspaceFields) (selected : List Text) : WorkspaceFields :=
  { workspace with
    components := workspace.components.filter (·.val.id ∈ selected)
    analysisUnits := workspace.analysisUnits.filter (·.val.componentId ∈ selected)
    requiredComponentIds := workspace.requiredComponentIds.filter (· ∈ selected) }

structure IsView (workspace : Workspace) (selected : List Text) (view : Workspace) : Prop where
  fields : view.val = workspace.val.narrowed selected
  ids : ∀ id, id ∈ view.val.componentIds ↔ id ∈ selected

section Narrowed

variable {workspace : WorkspaceFields} {selected : List Text}

theorem mem_narrowed_ids {id : Text} : id ∈ (workspace.narrowed selected).componentIds ↔
      id ∈ workspace.componentIds ∧ id ∈ selected := by
  unfold componentIds narrowed
  simp only [mem_map, mem_filter, decide_eq_true_eq]
  constructor
  · rintro ⟨component, ⟨hMem, hSelected⟩, rfl⟩
    exact ⟨⟨component, hMem, rfl⟩, hSelected⟩
  · rintro ⟨⟨component, hMem, rfl⟩, hSelected⟩
    exact ⟨component, ⟨hMem, hSelected⟩, rfl⟩

theorem componentEdges_narrowed (hNodup : workspace.componentIds.Nodup) (id need : Text)
    (h : need ∈ componentEdges (workspace.narrowed selected).components id) :
    need ∈ componentEdges workspace.components id := by
  unfold componentEdges at h
  split at h
  · rename_i component hFind
    have hId : component.val.id = id := by simpa using find?_some hFind
    have hMem := (mem_filter.mp (mem_of_find?_eq_some hFind)).1
    obtain ⟨hNeed, hKnown⟩ := mem_filter.mp h
    have hRegistered := (mem_narrowed_ids.mp (of_decide_eq_true hKnown)).1
    unfold componentEdges
    split
    · rename_i other hOther
      have hOtherId : other.val.id = id := by simpa using find?_some hOther
      have hSame : other = component := inj_on_of_nodup_map hNodup
        (mem_of_find?_eq_some hOther) hMem (hOtherId.trans hId.symm)
      exact mem_filter.mpr ⟨hSame ▸ hNeed, decide_eq_true hRegistered⟩
    · rename_i hNone
      exact absurd hId (by simpa using find?_eq_none.mp hNone component hMem)
  · cases h

theorem isSound_narrowed (h : workspace.IsSound) : (workspace.narrowed selected).IsSound where
  id := h.id
  name := h.name
  components_nodup := h.components_nodup.sublist (filter_sublist.map _)
  builds_nodup := h.builds_nodup
  units_nodup := h.units_nodup.sublist (filter_sublist.map _)
  unit_builds := fun unit hUnit => h.unit_builds unit (mem_filter.mp hUnit).1
  directories := h.directories
  builds := fun component hMem => h.builds component (mem_filter.mp hMem).1
  unambiguous := by
    rintro component hMem need hNeed ⟨hComponent, hBuild⟩
    exact h.unambiguous component (mem_filter.mp hMem).1 need hNeed
      ⟨(mem_narrowed_ids.mp hComponent).1, hBuild⟩
  acyclic := fun id => (h.acyclic id).mono (componentEdges_narrowed h.components_nodup)
  required_identifiers := fun id hId => h.required_identifiers id (mem_filter.mp hId).1
  required_nodup := h.required_nodup.filter _
  policyDigest := h.policyDigest
  limitations := h.limitations

theorem isClosed_narrowed_iff (h : workspace.IsClosed) : (workspace.narrowed selected).IsClosed ↔
      ∀ component ∈ workspace.components, component.val.id ∈ selected →
        ∀ need ∈ component.val.needs, need ∈ selected ∨ need ∈ workspace.buildIds := by
  constructor
  · intro hClosed component hMem hSelected need hNeed
    have hNarrowed : component ∈ (workspace.narrowed selected).components :=
      mem_filter.mpr ⟨hMem, decide_eq_true hSelected⟩
    exact (hClosed.needs component hNarrowed need hNeed).imp_left fun hId =>
      (mem_narrowed_ids.mp hId).2
  · intro hNeeds
    refine ⟨fun unit hUnit => ?_, fun component hMem need hNeed => ?_, fun id hId => ?_⟩
    · obtain ⟨hUnit, hSelected⟩ := mem_filter.mp hUnit
      exact mem_narrowed_ids.mpr ⟨h.units unit hUnit, of_decide_eq_true hSelected⟩
    · obtain ⟨hMem, hSelected⟩ := mem_filter.mp hMem
      rcases h.needs component hMem need hNeed with hComponent | hBuild
      · refine (hNeeds component hMem (of_decide_eq_true hSelected) need hNeed).imp_left ?_
        exact fun hIn => mem_narrowed_ids.mpr ⟨hComponent, hIn⟩
      · exact .inr hBuild
    · obtain ⟨hRequired, hSelected⟩ := mem_filter.mp hId
      exact mem_narrowed_ids.mpr ⟨h.required id hRequired, of_decide_eq_true hSelected⟩

end Narrowed

theorem mem_fromKeys_iff {ids : List Text} :
    id ∈ Dict.keys (Dict.setAll [] (ids.map fun id => (id, ()))) ↔ id ∈ ids := by
  rw [Dict.mem_keys_setAll]
  simp [Dict.keys]

theorem scoped_isView_iff (workspace : Workspace) (componentIds : List Text)
    (hKnown : ∀ id ∈ componentIds, id ∈ workspace.val.componentIds) :
    (∃ view, workspace.scoped componentIds = .ok view ∧ IsView workspace componentIds view) ↔
      ∀ component ∈ workspace.val.components, component.val.id ∈ componentIds →
        ∀ need ∈ component.val.needs, need ∈ componentIds ∨ need ∈ workspace.val.buildIds := by
  obtain ⟨hSound, hClosed⟩ := check_eq_ok_iff.mp workspace.property
  have hNone : ((Dict.keys (Dict.setAll [] (componentIds.map fun id => (id, ())))).filter
      (· ∉ workspace.val.componentIds)) = [] := by
    rw [filter_eq_nil_iff]
    intro id hId
    simpa using hKnown id (mem_fromKeys_iff.mp hId)
  have hScoped : workspace.scoped componentIds = Workspace.make (workspace.val.narrowed componentIds) := by
    dsimp only [Workspace.scoped]
    rw [hNone]
    simp only [mem_fromKeys_iff]
    rfl
  rw [hScoped, ← isClosed_narrowed_iff hClosed]
  constructor
  · rintro ⟨view, hView, -⟩
    have hFields := Checked.construct_eq_ok_iff.mp hView
    exact (check_eq_ok_iff.mp (hFields ▸ view.property)).2
  · intro hNarrowed
    have hCheck := check_eq_ok_iff.mpr ⟨isSound_narrowed hSound, hNarrowed⟩
    refine ⟨⟨_, hCheck⟩, Checked.construct_eq_ok hCheck, rfl, fun id => ?_⟩
    exact mem_narrowed_ids.trans (and_iff_right_of_imp fun hId => hKnown id hId)

/-! ## An application that needs a library -/

def component (id : Text) (needs : List Text) (h : ComponentFields.check {
    id, root := id, languages := [py "cpp"], needs } = .ok ()) : Component :=
  ⟨_, h⟩

def appComponent : Component := component (py "app") [py "lib"] (by decide)

def libComponent : Component := component (py "lib") [] (by decide)

def appWorkspace : Workspace :=
  ⟨{ id := py "demo", name := py "Demo", components := [libComponent, appComponent] }, by decide⟩

/-- Narrowing to the application refuses the edge that leaves the selection. -/
theorem scoped_refuses_app : (∀ id ∈ [py "app"], id ∈ appWorkspace.val.componentIds) ∧
      appWorkspace.scoped [py "app"] = .error (valueError
        (py "component app needs 'lib', which is neither a registered component nor a declared build")) := by
  decide

theorem scoped_isView_lib :
    (∃ view, appWorkspace.scoped [py "lib"] = .ok view ∧ IsView appWorkspace [py "lib"] view) ↔
      ∀ component ∈ appWorkspace.val.components, component.val.id ∈ [py "lib"] →
        ∀ need ∈ component.val.needs, need ∈ [py "lib"] ∨ need ∈ appWorkspace.val.buildIds :=
  scoped_isView_iff appWorkspace [py "lib"] (by decide)

def crossed : List Component := [appComponent, component (py "lib") [py "app"] (by decide)]

theorem componentCycle_crossed : ∃ cycle, cycleReturned crossed = some cycle ∧
      (cycle = [] ↔ ∀ id, ¬Relation.TransGen (Needs crossed) id id) ∧
      cycle ⊆ crossed.map (·.val.id) ∧ cycle.Nodup ∧ cycle.IsChain (Needs crossed) ∧
      ∀ first ∈ cycle.head?, ∀ last ∈ cycle.getLast?, Needs crossed last first :=
  componentCycle_exact crossed (by decide)

example : cycleReturned crossed = some [py "app", py "lib"] := by decide

theorem scoped_eq {workspace : Workspace} {ids : List Text}
    (hKnown : ∀ id ∈ ids, id ∈ workspace.val.componentIds) :
    workspace.scoped ids = Workspace.make (workspace.val.narrowed ids) := by
  have hNone : ((Dict.keys (Dict.setAll [] (ids.map fun id => (id, ())))).filter
      (· ∉ workspace.val.componentIds)) = [] := by
    rw [filter_eq_nil_iff]
    intro id hId
    simpa using hKnown id (mem_fromKeys_iff.mp hId)
  dsimp only [Workspace.scoped]
  rw [hNone]
  simp only [mem_fromKeys_iff]
  rfl

theorem known_of_scoped {workspace view : Workspace} {ids : List Text} (h : workspace.scoped ids = .ok view) :
    ∀ id ∈ ids, id ∈ workspace.val.componentIds := by
  intro id hId
  obtain ⟨hNone, -⟩ := seq_eq_ok.mp h
  have hAll := filter_eq_nil_iff.mp (not_not.mp (refuseIf_eq_ok_iff.mp hNone)) id (mem_fromKeys_iff.mpr hId)
  simpa using hAll

theorem narrowed_narrowed {workspace : WorkspaceFields} {outer inner : List Text}
    (hInner : ∀ id ∈ inner, id ∈ outer) :
    (workspace.narrowed outer).narrowed inner = workspace.narrowed inner := by
  have hBoth (id : Text) : (decide (id ∈ inner) && decide (id ∈ outer)) = decide (id ∈ inner) := by
    by_cases h : id ∈ inner <;> simp [h, hInner]
  simp only [narrowed, filter_filter, hBoth]

/-- Narrowing a view is narrowing the workspace, with the same refusals. -/
theorem scoped_scoped (workspace view : Workspace) (outer inner : List Text)
    (hView : workspace.scoped outer = .ok view) (hInner : ∀ id ∈ inner, id ∈ outer) :
    view.scoped inner = workspace.scoped inner := by
  have hKnown := known_of_scoped hView
  rw [scoped_eq hKnown] at hView
  have hFields := Checked.construct_eq_ok_iff.mp hView
  have hIds : ∀ id ∈ inner, id ∈ view.val.componentIds := by
    rw [hFields]
    exact fun id hId => mem_narrowed_ids.mpr ⟨hKnown id (hInner id hId), hInner id hId⟩
  rw [scoped_eq hIds, scoped_eq fun id hId => hKnown id (hInner id hId), hFields, narrowed_narrowed hInner]

theorem scoped_scoped_lib : ∃ view, appWorkspace.scoped [py "app", py "lib"] = .ok view ∧
    view.scoped [py "lib"] = appWorkspace.scoped [py "lib"] :=
  ⟨_, rfl, scoped_scoped appWorkspace _ [py "app", py "lib"] [py "lib"] rfl (by decide)⟩

end Ici
