import Ici.Application.GraphAccepted
import Ici.Application.Testing

/-! # What an expansion of a planned check keeps

An expansion settles every item of a list under the planned check's id and a part of its own. Whether
the checks it returns can be told apart depends on the parts alone. -/

namespace Ici

open List Raising Python

def TaskSpecFields.Acceptable (command : TaskSpecFields) : Prop :=
  ({ command with id := py "task" } : TaskSpecFields).check = .ok ()

instance (command : TaskSpecFields) : Decidable command.Acceptable := inferInstanceAs (Decidable (_ = _))

theorem TaskSpecFields.check_named {command : TaskSpecFields} (hFree : command.dependsOn = []) (id : Text) :
    ({ command with id := id } : TaskSpecFields).check = .ok () ↔ IsIdentifier id ∧ command.Acceptable := by
  have hTask : IsIdentifier (py "task") := by decide
  unfold Acceptable check
  simp only [seq_eq_ok, requireIdentifier_eq_ok_iff, refuse_then_eq_ok_iff, hFree, not_mem_nil,
    not_false_eq_true, true_and, hTask]
  have hLast (name : Text) : ((if command.mutating = true ∧ command.cacheable = true then
      .error (valueError (py "task " ++ name ++
        py " prepares a build directory and must not be marked cacheable")) else pure () : Result Unit) =
        .ok ()) ↔ ¬(command.mutating = true ∧ command.cacheable = true) := refuse_last_eq_ok_iff
  -- everything before the last condition reads the same
  repeat refine and_congr_right fun _ => ?_
  exact (hLast id).trans (hLast (py "task")).symm

/-- A check plans what is to be run, or is blocked for the reason why nothing is. -/
def PlannedCheck.Carries (planned : PlannedCheck) : Except Text TaskSpecFields → Prop
  | .error reason => planned.blocked = reason ∧ planned.task = none
  | .ok command => planned.blocked = [] ∧
      ∃ plan ∈ planned.task, plan.task.val = { command with id := planned.taskId }

namespace PlannedCheck

variable {planned : PlannedCheck} {check : CheckDefinition} {contract : ExitContract} {part : Text}
  {command : Except Text TaskSpecFields}

theorem settle_ok {found : PlannedCheck} (h : planned.settle check contract part command = .ok found) :
    found.taskId = planned.partId part ∧ found.check = check ∧ found.Carries command := by
  cases command with
  | error reason =>
    cases h
    exact ⟨rfl, rfl, rfl, rfl⟩
  | ok command =>
    obtain ⟨task, hTask, rfl⟩ := map_eq_ok.mp h
    have hVal := Checked.construct_eq_ok_iff.mp hTask
    have hId : task.val.id = planned.partId part := congrArg TaskSpecFields.id hVal
    refine ⟨hId, rfl, rfl, _, rfl, ?_⟩
    exact hVal.trans (congrArg (fun id => ({ command with id := id } : TaskSpecFields)) hId.symm)

theorem exists_settle_iff (hFree : ∀ fields, command = .ok fields → fields.dependsOn = []) :
    (∃ found, planned.settle check contract part command = .ok found) ∧ IsIdentifier (planned.partId part) ↔
      IsIdentifier (planned.partId part) ∧ ∀ fields, command = .ok fields → fields.Acceptable := by
  cases command with
  | error reason =>
    simp [settle]
  | ok fields =>
    have hCheck := TaskSpecFields.check_named (hFree fields rfl) (planned.partId part)
    have hSettle : (∃ found, planned.settle check contract part (.ok fields) = .ok found) ↔
        ({ fields with id := planned.partId part } : TaskSpecFields).check = .ok () := by
      rw [← Checked.exists_construct_iff]
      constructor
      · rintro ⟨found, hFound⟩
        obtain ⟨task, hTask, -⟩ := map_eq_ok.mp hFound
        exact ⟨task, hTask⟩
      · rintro ⟨task, hTask⟩
        exact ⟨_, map_eq_ok.mpr ⟨task, hTask, rfl⟩⟩
    rw [hSettle, hCheck]
    simp only [Except.ok.injEq, forall_eq']
    tauto

end PlannedCheck

/-! ## Expansions -/

/-- An item of an expansion: the part of the id it is given, the check it is one of and what it runs. -/
structure Portion where
  check : CheckDefinition
  contract : ExitContract
  part : Text
  command : Except Text TaskSpecFields

namespace PlannedCheck

def settleAll (planned : PlannedCheck) (portions : List Portion) : Result (List PlannedCheck) :=
  portions.mapM fun portion => planned.settle portion.check portion.contract portion.part portion.command

abbrev Carried (planned : PlannedCheck) (portions : List Portion) (checks : List PlannedCheck) : Prop :=
  List.Forall₂ (fun portion check => check.taskId = planned.partId portion.part ∧
    check.check = portion.check ∧ check.Carries portion.command) portions checks

structure Expands (planned : PlannedCheck) (portions : List Portion) (checks : List PlannedCheck) : Prop where
  carries : planned.Carried portions checks
  identifiers : ∀ check ∈ checks, IsIdentifier check.taskId
  distinct : (checks.map (·.taskId)).Nodup

/-- The parts make identifiers that differ, and a task accepts what is run. -/
structure Fits (planned : PlannedCheck) (portions : List Portion) : Prop where
  identifiers : ∀ portion ∈ portions, IsIdentifier (planned.partId portion.part)
  distinct : (portions.map (·.part)).Nodup
  acceptable : ∀ portion ∈ portions, ∀ fields, portion.command = .ok fields → fields.Acceptable

variable {planned : PlannedCheck} {portions : List Portion} {checks : List PlannedCheck}

theorem partId_injective (planned : PlannedCheck) : Function.Injective planned.partId := fun _ _ h =>
  append_cancel_left h

theorem carried_of_settleAll (h : planned.settleAll portions = .ok checks)
    : planned.Carried portions checks :=
  (mapM_eq_ok.mp h).imp fun _ _ => settle_ok

theorem Carried.taskIds (h : planned.Carried portions checks) :
    checks.map (·.taskId) = (portions.map (·.part)).map planned.partId := by
  rw [List.map_map, ← forall₂_eq_eq_eq, forall₂_map_left_iff, forall₂_map_right_iff]
  exact h.flip.imp fun _ _ h => h.1

theorem Carried.provides (h : planned.Carried portions checks) :
    checks.flatMap (·.check.provides) = portions.flatMap (·.check.provides) := by
  rw [← flatMap_map (f := PlannedCheck.check) (g := CheckDefinition.provides),
    ← flatMap_map (f := Portion.check) (g := CheckDefinition.provides)]
  congr 1
  rw [← forall₂_eq_eq_eq, forall₂_map_left_iff, forall₂_map_right_iff]
  exact h.flip.imp fun _ _ h => h.2.1

theorem Carried.flatMap_task {held : TaskSpecFields → List Text}
    (hHeld : ∀ (fields : TaskSpecFields) id, held { fields with id := id } = held fields)
    (h : planned.Carried portions checks) :
    checks.flatMap (fun check => check.task.elim [] (held ·.task.val)) =
      portions.flatMap fun portion => portion.command.toOption.elim [] held := by
  rw [flatMap_def, flatMap_def]
  congr 1
  rw [← forall₂_eq_eq_eq, forall₂_map_left_iff, forall₂_map_right_iff]
  refine h.flip.imp fun check portion hCarried => ?_
  obtain ⟨-, -, hCarries⟩ := hCarried
  cases hCommand : portion.command with
  | error reason =>
    rw [hCommand] at hCarries
    rw [hCarries.2]
    rfl
  | ok fields =>
    rw [hCommand] at hCarries
    obtain ⟨-, plan, hPlan, hVal⟩ := hCarries
    rw [Option.mem_def.mp hPlan, Option.elim_some, hVal, hHeld]
    rfl

theorem Carried.outputs (h : planned.Carried portions checks) : checks.flatMap PlannedCheck.outputs =
      portions.flatMap fun portion => portion.command.toOption.elim [] (·.outputSpecs) :=
  h.flatMap_task fun _ _ => rfl

theorem exists_expands_iff (hFree : ∀ portion ∈ portions, ∀ fields, portion.command = .ok fields →
    fields.dependsOn = []) :
    (∃ checks, planned.settleAll portions = .ok checks ∧ planned.Expands portions checks) ↔
      planned.Fits portions := by
  have hEach (portion : Portion) (hPortion : portion ∈ portions) :=
    @exists_settle_iff planned portion.check portion.contract portion.part portion.command
      (hFree portion hPortion)
  have hIds {checks : List PlannedCheck} (h : planned.settleAll portions = .ok checks) :
      (∀ check ∈ checks, IsIdentifier check.taskId) ↔
        ∀ portion ∈ portions, IsIdentifier (planned.partId portion.part) := by
    have hMap := (carried_of_settleAll h).taskIds
    rw [← @List.forall_mem_map _ _ PlannedCheck.taskId, hMap, List.map_map, forall_mem_map]
    rfl
  constructor
  · rintro ⟨checks, hRun, hExpands⟩
    have hAll := (hIds hRun).mp hExpands.identifiers
    refine ⟨hAll, ?_, fun portion hPortion => ?_⟩
    · have hDistinct := hExpands.distinct
      rw [(carried_of_settleAll hRun).taskIds] at hDistinct
      exact hDistinct.of_map
    · obtain ⟨check, -, hCheck⟩ := mem_mapM_of_mem hRun hPortion
      exact ((hEach portion hPortion).mp ⟨⟨check, hCheck⟩, hAll portion hPortion⟩).2
  · intro hFits
    obtain ⟨checks, hRun⟩ := exists_mapM_eq_ok.mpr fun portion hPortion =>
      ((hEach portion hPortion).mpr ⟨hFits.identifiers portion hPortion, hFits.acceptable portion hPortion⟩).1
    refine ⟨checks, hRun, carried_of_settleAll hRun, (hIds hRun).mpr hFits.identifiers, ?_⟩
    rw [(carried_of_settleAll hRun).taskIds]
    exact hFits.distinct.map (partId_injective planned)

/-- The check of a component as `_plan_for` plans what ici performs itself. -/
def asked (component : Component) (check : CheckDefinition) (required : Bool) : PlannedCheck where
  check := withScope (withRequired check required) component.val.id
  taskId := qualified component.val.id check.id
  taskId_ne_nil := by simp [qualified, py]
  not_both := untasked
  taskId_agrees _ hPlan := nomatch hPlan

/-- Another check of the component's plan, planned under its own id or already expanded. -/
def IsBeside (component : Component) (planned other : PlannedCheck) : Prop :=
  ∃ check ∈ builtinChecks, other.check.id = check.id ∧ check.id ≠ planned.check.id ∧
    (other.taskId = qualified component.val.id check.id ∨
      qualified component.val.id check.id ++ py "." <+: other.taskId)

def expandedChecks : List CheckDefinition :=
  [cppTestCheck, cppSanitizeCheck, cppTsanCheck, cppBinaryCompatCheck, integrationCasesCheck]

theorem ids_apart : ∀ check ∈ expandedChecks, ∀ other ∈ builtinChecks, other.id ≠ check.id →
    ¬check.id ++ py "." <+: other.id ∧ ¬other.id ++ py "." <+: check.id := by
  decide

variable {component : Component} {required : Bool}

variable {check : CheckDefinition}

theorem asked_isIdentifier (h : check ∈ expandedChecks) :
    IsIdentifier (asked component check required).taskId := by
  have hChecks : ∀ check ∈ expandedChecks, IsTail check.id := by decide
  have hDot : IsSeparator 0x2e := by decide
  have hTail := (isIdentifier_append_iff component.id_isIdentifier hDot).mpr (hChecks check h)
  show IsIdentifier (component.val.id ++ py "." ++ check.id)
  rwa [append_assoc]

theorem not_prefix_of_beside (h : check ∈ expandedChecks) {other : PlannedCheck}
    (hBeside : IsBeside component (asked component check required) other) :
    ¬(asked component check required).taskId ++ py "." <+: other.taskId := by
  obtain ⟨definition, hMem, -, hNe, hId⟩ := hBeside
  obtain ⟨hOwn, hTheirs⟩ := ids_apart check h definition hMem hNe
  intro hPart
  have hQualified (id : Text) : qualified component.val.id id ++ py "." =
      component.val.id ++ py "." ++ (id ++ py ".") := by
    rw [qualified, append_assoc]
  rcases hId with hId | hId
  · rw [hId, asked, hQualified, qualified, prefix_append_right_inj] at hPart
    exact hOwn hPart
  · rw [hQualified] at hId
    rw [asked, hQualified] at hPart
    rcases prefix_or_prefix_of_prefix hPart hId with hLess | hLess
    · rw [prefix_append_right_inj] at hLess
      rcases prefix_concat_iff.mp hLess with hSame | hLess
      · exact hNe (append_cancel_right hSame).symm
      · exact hOwn hLess
    · rw [prefix_append_right_inj] at hLess
      rcases prefix_concat_iff.mp hLess with hSame | hLess
      · exact hNe (append_cancel_right hSame)
      · exact hTheirs hLess

theorem checkPlan_replace {front back : List PlannedCheck} {planned : PlannedCheck}
    (h : checkPlan (front ++ planned :: back) = .ok ()) (hNe : checks ≠ [])
    (hDistinct : (checks.map (·.taskId)).Nodup)
    (hNew : ∀ check ∈ checks, ∀ other ∈ front ++ back, other.taskId ≠ check.taskId)
    (hFree : ∀ check ∈ checks, ∀ plan ∈ check.task, plan.task.val.dependsOn = []) :
    checkPlan (front ++ checks ++ back) = .ok () := by
  obtain ⟨-, hIds, hDepends⟩ := checkPlan_eq_ok_iff.mp h
  have hRest : ((front ++ back).map (·.taskId)).Nodup :=
    hIds.sublist (((sublist_cons_self planned back).append_left front).map _)
  refine checkPlan_eq_ok_iff.mpr ⟨?_, ?_, ?_⟩
  · simp [hNe]
  · have hPerm : (checks ++ (front ++ back)).Perm (front ++ checks ++ back) := by
      rw [← append_assoc]
      exact perm_append_comm.append_right back
    refine (hPerm.map _).nodup_iff.mp ?_
    rw [map_append, nodup_append]
    refine ⟨hDistinct, hRest, ?_⟩
    rintro _ hLeft _ hRight rfl
    obtain ⟨check, hCheck, rfl⟩ := mem_map.mp hLeft
    obtain ⟨other, hOther, hEq⟩ := mem_map.mp hRight
    exact hNew check hCheck other hOther hEq
  · intro other hOther
    rw [append_assoc, mem_append, mem_append] at hOther
    rcases hOther with hFront | hCheck | hBack
    · exact hDepends other (mem_append_left _ hFront)
    · exact hFree other hCheck
    · exact hDepends other (mem_append_right _ (mem_cons_of_mem _ hBack))

/-! ## What an expansion has to keep -/

/-- One check for every item under an identifier of its own, or one that says why there is no item; the
plan that holds them and their graph are accepted. -/
structure KeepsIdentities (component : Component) (planned : PlannedCheck) (portions : List Portion)
    (checks : List PlannedCheck) : Prop where
  complete : portions = [] ∧ (∃ reason, reason ≠ [] ∧ checks = [planned.stopped reason]) ∨
    portions ≠ [] ∧ planned.Expands portions checks
  plan : ∀ front back, (∀ other ∈ front ++ back, IsBeside component planned other) →
    checkPlan (front ++ planned :: back) = .ok () → checkPlan (front ++ checks ++ back) = .ok ()
  graph : ∃ graph, buildGraph checks none = .ok graph

structure AreLoose (portions : List Portion) : Prop where
  produced : (portions.map (·.part)).Nodup → (portions.flatMap (·.check.provides)).Nodup
  unfed : ∀ portion ∈ portions, ∀ need ∈ portion.check.needs, need ∉ portions.flatMap (·.check.provides)
  free : ∀ portion ∈ portions, ∀ fields, portion.command = .ok fields → fields.dependsOn = []

theorem Expands.forall_of_portion {holds : PlannedCheck → Prop} (h : planned.Expands portions checks)
    (hEach : ∀ portion ∈ portions, ∀ check : PlannedCheck, check.taskId = planned.partId portion.part →
      check.check = portion.check → check.Carries portion.command → holds check) :
    ∀ check ∈ checks, holds check := by
  intro check hCheck
  obtain ⟨i, hi, rfl⟩ := getElem_of_mem hCheck
  have hLength := h.carries.length_eq
  obtain ⟨hId, hDefinition, hCarries⟩ := (forall₂_iff_get.mp h.carries).2 i (hLength ▸ hi) hi
  exact hEach _ (getElem_mem (hLength ▸ hi)) _ hId hDefinition hCarries

theorem Expands.plan_accepted (hCheck : check ∈ expandedChecks)
    (h : (asked component check required).Expands portions checks) (hNe : portions ≠ [])
      (hLoose : AreLoose portions)
    {front back : List PlannedCheck}
    (hBeside : ∀ other ∈ front ++ back, IsBeside component (asked component check required) other)
    (hPlan : checkPlan (front ++ asked component check required :: back) = .ok ()) :
    checkPlan (front ++ checks ++ back) = .ok () := by
  refine checkPlan_replace hPlan ?_ h.distinct ?_ ?_
  · rintro rfl
    exact hNe (forall₂_nil_right_iff.mp h.carries)
  · refine h.forall_of_portion fun portion _ found hId _ _ other hOther hSame => ?_
    refine not_prefix_of_beside hCheck (hBeside other hOther) ?_
    rw [hSame, hId, partId]
    exact prefix_append _ _
  · refine h.forall_of_portion fun portion hPortion found _ _ hCarries plan hTask => ?_
    cases hCommand : portion.command with
    | error reason =>
      rw [hCommand] at hCarries
      rw [hCarries.2] at hTask
      cases hTask
    | ok fields =>
      rw [hCommand] at hCarries
      obtain ⟨-, carried, hCarried, hVal⟩ := hCarries
      rw [Option.mem_def.mp hTask, Option.mem_some_iff] at hCarried
      rw [hCarried, hVal]
      exact hLoose.free portion hPortion fields hCommand

theorem Expands.unlinked (h : planned.Expands portions checks) (hLoose : AreLoose portions) :
    AreUnlinked checks := by
  have hParts : (portions.map (·.part)).Nodup := by
    have hDistinct := h.distinct
    rw [h.carries.taskIds] at hDistinct
    exact hDistinct.of_map
  refine ⟨h.distinct, ?_, ?_⟩
  · rw [h.carries.provides]
    exact hLoose.produced hParts
  · rw [h.carries.provides]
    refine h.forall_of_portion fun portion hPortion found _ hDefinition _ => ?_
    rw [hDefinition]
    exact hLoose.unfed portion hPortion

theorem keeps_stopped (hCheck : check ∈ expandedChecks) {reason : Text} (hReason : reason ≠ []) :
    KeepsIdentities component (asked component check required) []
      [(asked component check required).stopped reason] := by
  refine ⟨.inl ⟨rfl, reason, hReason, rfl⟩, fun front back _ hPlan => ?_, ?_⟩
  · obtain ⟨-, hIds, hDepends⟩ := checkPlan_eq_ok_iff.mp hPlan
    refine checkPlan_eq_ok_iff.mpr ⟨by simp, ?_, ?_⟩
    · simpa [stopped, blockedAs] using hIds
    · intro other hOther
      simp only [append_assoc, mem_append, mem_singleton] at hOther
      rcases hOther with hFront | rfl | hBack
      · exact hDepends other (mem_append_left _ hFront)
      · exact fun plan hPlan => absurd hPlan (Option.not_mem_none plan)
      · exact hDepends other (mem_append_right _ (mem_cons_of_mem _ hBack))
  · have hUnlinked : AreUnlinked [(asked component check required).stopped reason] := by
      have hProvides : ∀ check ∈ expandedChecks, check.provides.Nodup := by decide
      refine ⟨nodup_singleton _, ?_, ?_⟩
      · rw [flatMap_singleton]
        exact (hProvides check hCheck).map (qualified_injective component.val.id)
      · intro other hOther need hNeed
        rw [mem_singleton.mp hOther] at hNeed
        rw [flatMap_singleton]
        exact (asked component check required).check.disjoint need hNeed
    refine (hUnlinked.exists_graph_iff none).mpr ?_
    have hNone : [(asked component check required).stopped reason].filter startable = [] := by
      simp [startable, stopped, blockedAs, hReason]
    rw [hNone]
    exact nodup_nil

inductive IsExpansion (planned : PlannedCheck) : List Portion → Result (List PlannedCheck) → Prop where
  | stopped {reason : Text} (h : reason ≠ []) : IsExpansion planned [] (.ok [planned.stopped reason])
  | settled {portions : List Portion} (h : portions ≠ []) :
    IsExpansion planned portions (planned.settleAll portions)

theorem exists_keeps_iff (hCheck : check ∈ expandedChecks)
    (hLoose : AreLoose portions) {result : Result (List PlannedCheck)}
    (hResult : IsExpansion (asked component check required) portions result) :
    (∃ checks, result = .ok checks ∧
        KeepsIdentities component (asked component check required) portions checks) ↔
      (asked component check required).Fits portions ∧
        ∀ checks, (asked component check required).settleAll portions = .ok checks →
          (ledOutputs (checks.filter startable)).Nodup := by
  cases hResult with
  | stopped hReason =>
    refine iff_of_true ⟨_, rfl, keeps_stopped hCheck hReason⟩ ⟨?_, ?_⟩
    · exact ⟨fun _ h => absurd h not_mem_nil, nodup_nil, fun _ h => absurd h not_mem_nil⟩
    · intro checks hRun
      cases hRun
      exact nodup_nil
  | settled hNone =>
    rw [← exists_expands_iff hLoose.free]
    constructor
    · rintro ⟨checks, hRun, hKeeps⟩
      have hExpands : (asked component check required).Expands portions checks :=
        hKeeps.complete.resolve_left (fun h => hNone h.1) |>.2
      refine ⟨⟨checks, hRun, hExpands⟩, fun others hOthers => ?_⟩
      cases hRun.symm.trans hOthers
      exact ((hExpands.unlinked hLoose).exists_graph_iff none).mp hKeeps.graph
    · rintro ⟨⟨checks, hRun, hExpands⟩, hOutputs⟩
      refine ⟨checks, hRun, .inr ⟨hNone, hExpands⟩, ?_, ?_⟩
      · exact fun front back => hExpands.plan_accepted hCheck hNone hLoose
      · exact ((hExpands.unlinked hLoose).exists_graph_iff none).mpr (hOutputs checks hRun)

end PlannedCheck

end Ici
