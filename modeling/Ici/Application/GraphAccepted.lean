import Ici.Application.GraphCorrect
import Ici.Library.Claiming

/-! # When checks that do not feed each other become a graph

Nothing orders them, so the graph is refused only where a name is produced or claimed twice. -/

namespace Ici

open Option Dict List Raising Python PlannedCheck

/-! ## Names that are claimed once -/

theorem addProducer_isClaim (planned : PlannedCheck) :
    Claiming.IsClaim (fun (found : Dict Text PlannedCheck) name => found.get? name ≠ none)
      (addProducer planned) := by
  constructor
  · intro found name
    unfold addProducer
    cases h : found.get? name <;> simp
  · intro found name found' h n
    unfold addProducer at h
    split at h
    · cases h
    · cases h
      rw [get?_set]
      split <;> simp_all [eq_comm]

theorem addOwner_isClaim (unit : WorkUnit) :
    Claiming.IsClaim (fun (owners : Dict Text Text) output => owners.get? output ≠ none)
      (fun owners output => addOwner unit owners output) := by
  constructor
  · intro owners output
    unfold addOwner
    cases h : owners.get? output <;> simp
  · intro owners output owners' h n
    unfold addOwner at h
    split at h
    · cases h
    · cases h
      rw [get?_set]
      split <;> simp_all [eq_comm]

theorem exists_producers_iff (checks : List PlannedCheck) :
    (∃ produced, producers checks = .ok produced) ↔ (checks.flatMap (·.check.provides)).Nodup := by
  have h := Claiming.exists_claims_iff addProducer_isClaim (·.check.provides) checks []
  simpa [producers] using h

def PlannedCheck.outputs (planned : PlannedCheck) : List Text :=
  planned.task.elim [] (·.task.val.outputSpecs)

theorem claimOutputs_eq (owners : Dict Text Text) (unit : WorkUnit) :
    claimOutputs owners unit = unit.val.source.outputs.foldlM (addOwner unit) owners := by
  unfold claimOutputs outputs WorkUnit.plan
  cases unit.val.source.task <;> rfl

theorem exists_claimOutputs_iff (units : List WorkUnit) :
    (∃ owners, units.foldlM claimOutputs [] = .ok owners) ↔
      (units.flatMap (·.val.source.outputs)).Nodup := by
  have h := Claiming.exists_claims_iff addOwner_isClaim (·.val.source.outputs) units []
  have hEq : (fun owners (unit : WorkUnit) => unit.val.source.outputs.foldlM (addOwner unit) owners) =
      claimOutputs := by
    funext owners unit
    exact (claimOutputs_eq owners unit).symm
  rw [hEq] at h
  simpa using h

section

variable {produced : Dict Text PlannedCheck} {available : Dict Text CheckDefinition}

section

variable {planned : PlannedCheck} (h : ∀ need ∈ planned.check.needs, produced.get? need = none)
include h

theorem wire_of_unfed (edges : Edges) :
    ∃ reasons, wire produced available planned edges = .ok (edges, reasons) ∧
      (reasons = [] ↔ planned.check.needs = []) := by
  have hFrom (needs : List Text) (hNeeds : ∀ need ∈ needs, produced.get? need = none)
      (state : Edges × List Text) :
      ∃ reasons, needs.foldlM (wireNeed produced available planned) state = .ok (state.1, reasons) ∧
        reasons.length = state.2.length + needs.length := by
    induction needs generalizing state with
    | nil => exact ⟨state.2, rfl, rfl⟩
    | cons need needs ih =>
      rw [forall_mem_cons] at hNeeds
      have hStep : ∃ reason, wireNeed produced available planned state need =
          .ok (state.1, state.2 ++ [reason]) := by
        unfold wireNeed
        rw [hNeeds.1]
        exact ⟨_, rfl⟩
      obtain ⟨reason, hReason⟩ := hStep
      obtain ⟨reasons, hRun, hLength⟩ := ih hNeeds.2 (state.1, state.2 ++ [reason])
      refine ⟨reasons, foldlM_cons_eq_ok.mpr ⟨_, hReason, hRun⟩, ?_⟩
      rw [hLength, length_append, length_cons, length_cons, length_nil]
      omega
  obtain ⟨reasons, hRun, hLength⟩ := hFrom _ h (edges, [])
  refine ⟨reasons, hRun, ?_⟩
  rw [← length_eq_zero_iff, hLength, length_nil, Nat.zero_add, length_eq_zero_iff]

omit h in
def startable (planned : PlannedCheck) : Bool := planned.blocked = [] ∧ planned.check.needs = []

theorem wireCheck_of_unfed (wiring : Wiring) :
    ∃ wired, wireCheck produced available wiring planned = .ok wired ∧ wired.edges = wiring.edges ∧
      wired.runnable = wiring.runnable ++ [planned].filter startable := by
  unfold wireCheck
  by_cases hBlocked : planned.blocked = []
  · obtain ⟨reasons, hWire, hReasons⟩ := @wire_of_unfed produced available planned h wiring.edges
    rw [if_neg (not_not.mpr hBlocked), hWire]
    by_cases hNeeds : planned.check.needs = []
    · have hNone := hReasons.mpr hNeeds
      refine ⟨_, (if_neg (not_not.mpr hNone)), rfl, ?_⟩
      simp [startable, hBlocked, hNeeds]
    · have hSome := mt hReasons.mp hNeeds
      refine ⟨_, (if_pos hSome), rfl, ?_⟩
      simp [startable, hNeeds]
  · rw [if_pos hBlocked]
    exact ⟨_, rfl, rfl, by simp [startable, hBlocked]⟩

end

theorem wiring_of_unfed {checks : List PlannedCheck}
    (h : ∀ planned ∈ checks, ∀ need ∈ planned.check.needs, produced.get? need = none) (start : Wiring) :
    ∃ wiring, checks.foldlM (wireCheck produced available) start = .ok wiring ∧
      wiring.edges = start.edges ∧ wiring.runnable = start.runnable ++ checks.filter startable := by
  induction checks generalizing start with
  | nil => exact ⟨start, rfl, rfl, (append_nil _).symm⟩
  | cons planned checks ih =>
    rw [forall_mem_cons] at h
    obtain ⟨wired, hWired, hEdges, hRunnable⟩ := @wireCheck_of_unfed produced available planned h.1 start
    obtain ⟨wiring, hRun, hEdges', hRunnable'⟩ := ih h.2 wired
    refine ⟨wiring, foldlM_cons_eq_ok.mpr ⟨wired, hWired, hRun⟩, hEdges'.trans hEdges, ?_⟩
    rw [hRunnable', hRunnable, append_assoc, ← filter_append, singleton_append]

end

theorem blockChecks_of_unfed {checks : List PlannedCheck} {produced : Dict Text PlannedCheck}
    (hProduced : producers checks = .ok produced)
    (h : ∀ planned ∈ checks, ∀ need ∈ planned.check.needs, produced.get? need = none)
    (catalog : Option (List CheckDefinition)) :
    ∃ blocked, blockChecks checks catalog = .ok ([], blocked, checks.filter startable) := by
  obtain ⟨wiring, hWiring, hEdges, hRunnable⟩ := @wiring_of_unfed produced (catalogProducers catalog)
    checks h {}
  have hNever : (fun got planned => blockedBy wiring.edges got planned) = fun _ _ => none := by
    funext got planned
    unfold blockedBy
    rw [hEdges]
    rfl
  have hSaturate : Saturation.saturate (blockedBy wiring.edges) (wiring.runnable.length + 1)
      wiring.blocked wiring.runnable = some (wiring.blocked, wiring.runnable) := by
    rw [show blockedBy wiring.edges = fun _ _ => none from hNever, Saturation.saturate]
    simp
  refine ⟨wiring.blocked, ?_⟩
  unfold blockChecks
  refine step hProduced (step hWiring ?_)
  simp only [hSaturate]
  rw [hEdges, hRunnable]
  rfl

/-! ## Units without dependencies -/

structure LeadsGroup (runnable : List PlannedCheck) (group : FoldKey × List PlannedCheck) (unit : WorkUnit) :
    Prop where
  leads : group.2.head? = some unit.val.source
  id_eq : unit.val.id = unit.val.source.taskId
  source_mem : unit.val.source ∈ runnable
  key_eq : foldKey unit.val.source = group.1
  free : unit.val.dependsOn = []

theorem units_of_unlinked {runnable : List PlannedCheck} (hIds : (runnable.map (·.taskId)).Nodup) :
    ∃ units, (groupsOf runnable).mapM (unitOf (groupsOf runnable) []) = .ok units ∧
      List.Forall₂ (LeadsGroup runnable) (groupsOf runnable) units := by
  have hEdges : EdgesRunnable runnable [] := fun p _ d hd => nomatch hd
  obtain ⟨units, hUnits⟩ := exists_mapM_eq_ok.mpr fun group hGroup =>
    (unitOf_ok hIds hEdges hGroup).imp fun _ h => h.1
  refine ⟨units, hUnits, ?_⟩
  have hEach := (forall₂_and_left _ _).mpr ⟨fun group hGroup => hGroup, mapM_eq_ok.mp hUnits⟩
  refine hEach.imp ?_
  rintro group unit ⟨hGroup, hUnit⟩
  have hIs := unitOf_isUnitOf hIds hEdges hGroup hUnit
  obtain ⟨hMem, hKey⟩ := mem_members.mp hIs.source_mem
  refine ⟨?_, hIs.id_eq, hMem, hKey, ?_⟩
  · rw [(mem_groupsOf.mp hGroup).1]
    exact hIs.leads
  · refine eq_nil_iff_forall_not_mem.mpr fun d hd => ?_
    obtain ⟨p, -, q, -, hEdge, -⟩ := (hIs.mem_dependsOn d).mp hd
    cases hEdge

section

variable {runnable : List PlannedCheck} {units : List WorkUnit}
  (hLead : List.Forall₂ (LeadsGroup runnable) (groupsOf runnable) units)

include hLead

theorem leadsGroup_of_mem {unit : WorkUnit} (h : unit ∈ units) :
    ∃ group ∈ groupsOf runnable, LeadsGroup runnable group unit := by
  obtain ⟨i, hi, rfl⟩ := getElem_of_mem h
  have hLength := hLead.length_eq
  exact ⟨_, getElem_mem (hLength ▸ hi), (forall₂_iff_get.mp hLead).2 i (hLength ▸ hi) hi⟩

theorem ids_nodup (hIds : (runnable.map (·.taskId)).Nodup) : (units.map (·.val.id)).Nodup := by
  have hKeys : units.map (foldKey ·.val.source) = (groupsOf runnable).map Prod.fst := by
    rw [← forall₂_eq_eq_eq, forall₂_map_left_iff, forall₂_map_right_iff]
    exact hLead.flip.imp fun _ _ h => h.key_eq
  have hNodup : (units.map (foldKey ·.val.source)).Nodup := by
    rw [hKeys]
    exact nodup_keys_groupBy foldKey runnable
  refine (Nodup.of_map _ hNodup).map_on fun unit hUnit other hOther hId => ?_
  obtain ⟨_, -, hUnitLeads⟩ := leadsGroup_of_mem hLead hUnit
  obtain ⟨_, -, hOtherLeads⟩ := leadsGroup_of_mem hLead hOther
  refine inj_on_of_nodup_map hNodup hUnit hOther (congrArg foldKey ?_)
  rw [hUnitLeads.id_eq, hOtherLeads.id_eq] at hId
  exact eq_of_taskId_eq hIds hUnitLeads.source_mem hOtherLeads.source_mem hId

theorem validate_of_unlinked (hIds : (runnable.map (·.taskId)).Nodup) :
    validate units = .ok () ↔ (units.flatMap (·.val.source.outputs)).Nodup := by
  have hFree : ∀ unit ∈ units, unit.val.dependsOn = [] := fun unit hUnit =>
    (leadsGroup_of_mem hLead hUnit).choose_spec.2.free
  have hKnown : ∀ unit ∈ units, knownDependencies (units.map (·.val.id)) unit = .ok () := by
    intro unit hUnit
    unfold knownDependencies
    rw [hFree unit hUnit]
    rfl
  obtain ⟨layers, hLayers⟩ : ∃ layers, Layering.kahn (fun unit : WorkUnit => unit.val.id)
      (fun unit => unit.val.dependsOn) units.length [] units = .ok layers := by
    refine Layering.exists_kahn units ⟨fun unit => ⟨unit, fun other hOther => ?_⟩⟩ units.length [] units
      le_rfl (fun _ h => h) fun unit hUnit d hd => ?_
    · rw [hFree unit hOther.1] at hOther
      exact absurd hOther.2.2 not_mem_nil
    · rw [hFree unit hUnit] at hd
      exact absurd hd not_mem_nil
  rw [← exists_claimOutputs_iff]
  unfold validate
  rw [seq_eq_ok, seq_eq_ok, bind_eq_ok, if_pos (ids_nodup hLead hIds), forM_eq_ok]
  simp only [hLayers, true_and, and_true, iff_true_intro hKnown]

end

def ledOutputs (runnable : List PlannedCheck) : List Text :=
  (groupsOf runnable).flatMap fun group => group.2.head?.elim [] outputs

variable {runnable : List PlannedCheck}

theorem outputs_of_leads {groups : Groups} {units : List WorkUnit}
    (h : List.Forall₂ (LeadsGroup runnable) groups units) :
    units.flatMap (·.val.source.outputs) =
      groups.flatMap fun group => group.2.head?.elim [] outputs := by
  induction h with
  | nil => rfl
  | cons hHead _ ih => rw [flatMap_cons, flatMap_cons, ih, hHead.leads, elim_some]

theorem ledOutputs_eq_nil (h : ∀ planned ∈ runnable, planned.outputs = []) : ledOutputs runnable = [] := by
  refine flatMap_eq_nil_iff.mpr fun group hGroup => ?_
  rw [(mem_groupsOf.mp hGroup).1]
  cases hHead : (members runnable group.1).head? with
  | none => rfl
  | some first => exact h first (mem_members.mp (mem_of_head? hHead)).1

theorem ledOutputs_perm (h : (runnable.map foldKey).Nodup) :
    (ledOutputs runnable).Perm (runnable.flatMap outputs) := by
  have hAlone : ∀ group ∈ groupsOf runnable,
      group.2.head?.elim [] outputs = group.2.flatMap outputs := by
    rintro ⟨key, group⟩ hGroup
    obtain ⟨rfl, -⟩ := mem_groupsOf.mp hGroup
    have hKeys : ((members runnable key).map foldKey).Nodup := h.sublist (filter_sublist.map _)
    have hKey : ∀ planned ∈ members runnable key, foldKey planned = key := fun planned hPlanned =>
      (mem_members.mp hPlanned).2
    rcases hList : members runnable key with _ | ⟨first, _ | ⟨second, rest⟩⟩
    · simp
    · simp
    · rw [hList] at hKeys hKey
      refine absurd ?_ (nodup_cons.mp hKeys).1
      rw [hKey first mem_cons_self, ← hKey second (mem_cons_of_mem _ mem_cons_self)]
      exact mem_cons_self
  have hFlat : ledOutputs runnable = ((groupsOf runnable).flatMap Prod.snd).flatMap outputs := by
    rw [ledOutputs, flatMap_assoc, flatMap_congr hAlone]
  rw [hFlat]
  exact (flatMap_groupBy_perm foldKey runnable).flatMap_right _

structure AreUnlinked (checks : List PlannedCheck) : Prop where
  ids : (checks.map (·.taskId)).Nodup
  produced : (checks.flatMap (·.check.provides)).Nodup
  unfed : ∀ planned ∈ checks, ∀ need ∈ planned.check.needs, need ∉ checks.flatMap (·.check.provides)

theorem AreUnlinked.exists_graph_iff {checks : List PlannedCheck} (h : AreUnlinked checks)
    (catalog : Option (List CheckDefinition)) :
    (∃ graph, buildGraph checks catalog = .ok graph) ↔ (ledOutputs (checks.filter startable)).Nodup := by
  have hIds : ((checks.filter startable).map (·.taskId)).Nodup :=
    h.ids.sublist (filter_sublist.map _)
  obtain ⟨produced, hProduced⟩ := (exists_producers_iff checks).mpr h.produced
  have hUnfed : ∀ planned ∈ checks, ∀ need ∈ planned.check.needs, produced.get? need = none := by
    intro planned hPlanned need hNeed
    by_contra hSome
    obtain ⟨producer, hProducer⟩ := ne_none_iff_exists'.mp hSome
    obtain ⟨hMem, hName⟩ := (producers_get? hProduced need producer).mp hProducer
    exact h.unfed planned hPlanned need hNeed (mem_flatMap.mpr ⟨producer, hMem, hName⟩)
  obtain ⟨blocked, hBlocks⟩ := blockChecks_of_unfed hProduced hUnfed catalog
  obtain ⟨units, hUnits, hLead⟩ := units_of_unlinked hIds
  rw [ledOutputs, ← outputs_of_leads hLead, ← validate_of_unlinked hLead hIds]
  constructor
  · rintro ⟨graph, hGraph⟩
    obtain ⟨found, hFound, hRest⟩ := bind_eq_ok.mp hGraph
    cases hBlocks.symm.trans hFound
    obtain ⟨made, hMade, -⟩ := bind_eq_ok.mp hRest
    obtain ⟨made', hMade', hDone⟩ := bind_eq_ok.mp hMade
    cases hUnits.symm.trans hMade'
    exact (seq_eq_ok.mp hDone).1
  · intro hValid
    refine ⟨{ units := units, blocked := blocked }, step hBlocks (step ?_ rfl)⟩
    exact step hUnits (seq_eq_ok.mpr ⟨hValid, rfl⟩)

end Ici
