import Ici.Application.Expansion

/-! # Integration cases under ids of their own

A number tells equal slugs apart. What a slug ends with is left over from the name of the case. -/

namespace Ici

open List Raising Python PlannedCheck CaseSite

/-! ## Slugs -/

def isSlugLetter (c : CodePoint) : Bool := isLowerAlnum c || c == 0x5f

section

variable {c : CodePoint} {lower : Lowering} {name : Text}

theorem isSlugLetter_of_char (hChar : isIdentifierChar c = true) (hEdge : ¬isSlugEdge c) :
    isSlugLetter c = true := by
  simp only [isIdentifierChar, isSlugEdge, isSlugLetter, Bool.or_eq_true, beq_iff_eq] at *
  grind

theorem isSlugLetter_of_edge (c : CodePoint) (h : isSlugEdge c) : isSlugLetter c = false := by
  simp only [isSlugEdge, Bool.or_eq_true, beq_iff_eq] at h
  rcases h with rfl | rfl
  all_goals decide

theorem isSlugLetter_of_bad (c : CodePoint) (h : (!isIdentifierChar c) = true) : isSlugLetter c = false := by
  by_contra hLetter
  rw [Bool.not_eq_false, isSlugLetter, Bool.or_eq_true, beq_iff_eq] at hLetter
  rcases hLetter with hAlnum | rfl
  · simp [isIdentifierChar, hAlnum] at h
  · exact absurd h (by decide)

theorem filter_stripOf (t : Text) : (stripOf isSlugEdge t).filter isSlugLetter = t.filter isSlugLetter := by
  rw [stripOf, List.rdropWhile, filter_reverse, Pattern.filter_dropWhile isSlugLetter_of_edge,
    filter_reverse, reverse_reverse, Pattern.filter_dropWhile isSlugLetter_of_edge]

def bareSlug (lower : Lowering) (name : Text) : Text :=
  stripOf isSlugEdge (slugBad.sub (fun _ => false) (fun _ => py "-") (lower name))

theorem slugOf_eq : slugOf lower name = if bareSlug lower name = [] then py "case" else bareSlug lower name :=
    rfl

theorem filter_bareSlug : (bareSlug lower name).filter isSlugLetter = (lower name).filter isSlugLetter := by
  rw [bareSlug, filter_stripOf]
  exact Pattern.filter_sub_runs isSlugLetter_of_bad (by decide) (lower name)

theorem isIdentifierChar_of_mem_bareSlug (h : c ∈ bareSlug lower name) : isIdentifierChar c = true := by
  have hSub : c ∈ slugBad.sub (fun _ => false) (fun _ => py "-") (lower name) :=
    (dropWhile_sublist _).subset ((List.rdropWhile_prefix _ _).subset h)
  rcases Pattern.mem_sub_runs hSub with hDash | hGood
  · rw [mem_singleton.mp hDash]
    decide
  · simpa using hGood

theorem slugOf_all : (slugOf lower name).all isIdentifierChar = true := by
  rw [slugOf_eq]
  split
  · decide
  · exact all_eq_true.mpr fun c hc => isIdentifierChar_of_mem_bareSlug hc

theorem isTail_slugOf_iff :
    IsTail (slugOf lower name) ↔ ((lower name).filter isSlugLetter).getLast? ≠ some 0x5f := by
  rw [← filter_bareSlug]
  by_cases hNone : bareSlug lower name = []
  · rw [slugOf_eq, if_pos hNone, hNone]
    exact iff_of_true (by decide) nofun
  · have hLast : isSlugLetter ((bareSlug lower name).getLast hNone) = true := by
      refine isSlugLetter_of_char (isIdentifierChar_of_mem_bareSlug (getLast_mem hNone)) ?_
      exact rdropWhile_last_not _ _ hNone
    have hKept : ((bareSlug lower name).filter isSlugLetter).getLast? =
        some ((bareSlug lower name).getLast hNone) := by
      conv_lhs => rw [← dropLast_append_getLast hNone, filter_append]
      simp [hLast]
    have hAll := @slugOf_all lower name
    rw [slugOf_eq, if_neg hNone] at hAll ⊢
    rw [hKept, IsTail, hAll, Bool.true_and, getLast?_eq_some_getLast hNone, Option.any_some, ne_eq,
      Option.some_inj]
    generalize (bareSlug lower name).getLast hNone = last at hLast
    rw [isSlugLetter, Bool.or_eq_true, beq_iff_eq] at hLast
    refine ⟨fun hAlnum hUnderscore => ?_, fun h => hLast.resolve_right h⟩
    rw [hUnderscore] at hAlnum
    exact absurd hAlnum (by decide)

def EndsBadly (slug : Text) : Prop := slug.all isIdentifierChar = true ∧ ¬IsTail slug

theorem numbered_eq (slug : Text) (counter : ℕ) :
    numbered slug counter = slug ++ 0x2d :: natDigits counter := by
  rw [numbered, append_assoc]
  rfl

theorem numbered_injective (slug : Text) : Function.Injective (numbered slug) := fun _ _ h =>
  natDigits_injective (append_cancel_left h)

theorem not_endsBadly_numbered (slug : Text) (counter : ℕ) : ¬EndsBadly (numbered slug counter) := by
  rintro ⟨hAll, hEnd⟩
  rw [numbered_eq] at hAll hEnd
  rw [all_append, Bool.and_eq_true] at hAll
  exact hEnd ((isTail_append_iff hAll.1 (by decide)).mpr (isTail_natDigits counter))

theorem slugs_nodup (names : List Text) : (slugs lower names).Nodup :=
  Numbering.uniqueNames_nodup numbered_injective _ _

theorem slugs_all (names : List Text) : ∀ slug ∈ slugs lower names, slug.all isIdentifierChar = true := by
  refine Numbering.forall_uniqueNames (fun slug counter hAll => ?_) (fun slug hSlug => ?_) []
  · have hDigits := isTail_natDigits counter
    rw [IsTail, Bool.and_eq_true] at hDigits
    rw [numbered_eq, all_append, hAll, all_cons, hDigits.1]
    decide
  · obtain ⟨name, -, rfl⟩ := mem_map.mp hSlug
    exact slugOf_all

theorem slugs_isTail_iff (names : List Text) : (∀ slug ∈ slugs lower names, IsTail slug) ↔
    ∀ name ∈ names, ((lower name).filter isSlugLetter).getLast? ≠ some 0x5f := by
  have hUsed : ∀ slug ∈ ([] : List Text), ¬EndsBadly slug := forall_mem_nil _
  have hKind := Numbering.exists_kind_iff not_endsBadly_numbered hUsed (names.map (slugOf lower))
  have hGiven : (∀ slug ∈ slugs lower names, IsTail slug) ↔ ¬∃ slug ∈ slugs lower names, EndsBadly slug := by
    constructor
    · rintro h ⟨slug, hSlug, -, hBad⟩
      exact hBad (h slug hSlug)
    · intro h slug hSlug
      by_contra hBad
      exact h ⟨slug, hSlug, slugs_all names slug hSlug, hBad⟩
  have hWanted : (∃ slug ∈ names.map (slugOf lower), EndsBadly slug) ↔
      ¬∀ name ∈ names, ((lower name).filter isSlugLetter).getLast? ≠ some 0x5f := by
    constructor
    · rintro ⟨slug, hSlug, -, hBad⟩ h
      obtain ⟨name, hName, rfl⟩ := mem_map.mp hSlug
      exact hBad (isTail_slugOf_iff.mpr (h name hName))
    · intro h
      push Not at h
      obtain ⟨name, hName, hLast⟩ := h
      exact ⟨_, mem_map_of_mem hName, slugOf_all, fun hTail => isTail_slugOf_iff.mp hTail hLast⟩
  rw [hGiven, slugs, hKind, hWanted, not_not]

end

/-! ## What the cases run -/

namespace CaseSite

variable (site : CaseSite)

def commandOr (declared : EffectiveIntegrationCase) : Except Text TaskSpecFields :=
  (site.caseCommand declared).toOption.getD (.error [])

def casePortions (lower : Lowering) (planned : PlannedCheck) (cases : List EffectiveIntegrationCase) :
    List Portion :=
  (cases.zip (slugs lower (cases.map (·.name)))).map fun pair =>
    { check := caseCheck planned pair.1
      contract := caseContract pair.1.expectedExit
      part := pair.2
      command := site.commandOr pair.1 }

def runs (declared : EffectiveIntegrationCase) : Bool :=
  (site.resolveArgv declared).toOption.any (·.toOption.isSome)

def claimed (cases : List EffectiveIntegrationCase) : List Text :=
  cases.flatMap fun declared => if site.runs declared then (site.outputsOf declared).map Prod.fst else []

variable {site} {lower : Lowering} {planned : PlannedCheck} {cases : List EffectiveIntegrationCase}

variable {declared : EffectiveIntegrationCase} {command : Except Text TaskSpecFields}

theorem commandOr_eq (h : site.caseCommand declared = .ok command) : site.commandOr declared = command := by
  rw [commandOr, h]
  rfl

theorem caseCommand_cases (h : site.caseCommand declared = .ok command) :
    (site.runs declared = false ∧ ∃ blocked, command = .error blocked) ∨
      site.runs declared = true ∧ ∃ argv env, site.contractEnv declared = .ok env ∧
        command = .ok (site.caseTask declared argv env) := by
  obtain ⟨resolved, hResolved, hRest⟩ := bind_eq_ok.mp h
  cases resolved with
  | error blocked =>
    cases hRest
    exact .inl ⟨by rw [runs, hResolved]; rfl, blocked, rfl⟩
  | ok argv =>
    obtain ⟨env, hEnv, hDone⟩ := bind_eq_ok.mp hRest
    cases hDone
    exact .inr ⟨by rw [runs, hResolved]; rfl, argv, env, hEnv, rfl⟩

theorem contractEnv_head {env : List (Text × Text)}
    (h : site.contractEnv declared = .ok env) : env.head? = some (py "ICI_CASE", declared.name) := by
  obtain ⟨exit, -, hRest⟩ := bind_eq_ok.mp h
  obtain ⟨outputs, -, hDone⟩ := bind_eq_ok.mp hRest
  cases hDone
  rfl

theorem length_slugs : (slugs lower (cases.map (·.name))).length = cases.length := by
  rw [slugs, Numbering.length_uniqueNames, length_map, length_map]

theorem map_fst_cases : (cases.zip (slugs lower (cases.map (·.name)))).map Prod.fst = cases :=
  map_fst_zip length_slugs.ge

theorem mem_casePortions {portion : Portion} (h : portion ∈ site.casePortions lower planned cases) :
    ∃ declared ∈ cases, ∃ slug, portion = ⟨caseCheck planned declared, caseContract declared.expectedExit,
      slug,
      site.commandOr declared⟩ := by
  obtain ⟨pair, hPair, rfl⟩ := mem_map.mp h
  exact ⟨pair.1, (of_mem_zip hPair).1, pair.2, rfl⟩

theorem caseParts : (site.casePortions lower planned cases).map (·.part) =
    slugs lower (cases.map (·.name)) := by
  rw [casePortions, List.map_map]
  exact map_snd_zip length_slugs.le

theorem casePortions_getElem {i : ℕ} (hi : i < (site.casePortions lower planned cases).length) :
    ∃ hCase : i < cases.length, (site.casePortions lower planned cases)[i].command = site.commandOr cases[i]
      := by
  have hCase : i < cases.length := by
    rw [casePortions, length_map, length_zip] at hi
    omega
  refine ⟨hCase, ?_⟩
  simp only [casePortions, getElem_map, getElem_zip]

theorem expandIntegration_isExpansion
    (hCommands : ∀ declared ∈ cases, ∃ command, site.caseCommand declared = .ok command) :
    IsExpansion planned (site.casePortions lower planned cases)
      (site.expandIntegration lower planned cases) := by
  unfold expandIntegration
  by_cases hNone : cases = []
  · subst hNone
    exact .stopped (by decide)
  · have hSome : site.casePortions lower planned cases ≠ [] := by
      rw [← length_pos_iff, casePortions, length_map, length_zip, length_slugs, min_self]
      exact length_pos_iff.mpr hNone
    have hRun : (cases.zip (slugs lower (cases.map (·.name)))).mapM (fun pair => do
          let command ← site.caseCommand pair.1
          planned.settle (caseCheck planned pair.1) (caseContract pair.1.expectedExit) pair.2 command) =
        planned.settleAll (site.casePortions lower planned cases) := by
      rw [settleAll, casePortions, List.mapM_map]
      refine mapM_congr fun pair hPair => ?_
      obtain ⟨command, hCommand⟩ := hCommands pair.1 (of_mem_zip hPair).1
      rw [hCommand]
      dsimp only [Function.comp_apply]
      rw [commandOr_eq hCommand]
      rfl
    rw [if_neg hNone, hRun]
    exact .settled hSome

theorem exists_caseCommand {checks : List PlannedCheck} (h : site.expandIntegration lower planned cases =
    .ok checks)
    {declared : EffectiveIntegrationCase} (hDeclared : declared ∈ cases) :
    ∃ command, site.caseCommand declared = .ok command := by
  unfold expandIntegration at h
  rw [if_neg (ne_nil_of_mem hDeclared)] at h
  rw [← @map_fst_cases lower cases] at hDeclared
  obtain ⟨pair, hPair, rfl⟩ := mem_map.mp hDeclared
  obtain ⟨check, -, hCheck⟩ := mem_mapM_of_mem h hPair
  obtain ⟨command, hCommand, -⟩ := bind_eq_ok.mp hCheck
  exact ⟨command, hCommand⟩

/-! ## What the cases need and leave -/

section

variable (hCommands : ∀ declared ∈ cases, ∃ command, site.caseCommand declared = .ok command)

include hCommands

theorem of_command_ok {declared : EffectiveIntegrationCase} (hDeclared : declared ∈ cases)
    {fields : TaskSpecFields}
    (h : site.commandOr declared = .ok fields) :
    site.runs declared = true ∧ fields.dependsOn = [] ∧
      fields.outputSpecs = (site.outputsOf declared).map Prod.fst ∧
      fields.envOverlay.head? = some (py "ICI_CASE", declared.name) := by
  obtain ⟨command, hCommand⟩ := hCommands declared hDeclared
  rw [commandOr_eq hCommand] at h
  rcases caseCommand_cases hCommand with ⟨-, blocked, hBlocked⟩ | ⟨hRuns, argv, env, hEnv, hTask⟩
  · cases hBlocked.symm.trans h
  · cases hTask.symm.trans h
    refine ⟨hRuns, rfl, rfl, ?_⟩
    rw [caseTask, head?_append, contractEnv_head hEnv]
    rfl

theorem loose_cases (hProvides : planned.check.provides = []) :
    AreLoose (site.casePortions lower planned cases) := by
  have hNone : (site.casePortions lower planned cases).flatMap (·.check.provides) = [] := by
    refine flatMap_eq_nil_iff.mpr fun portion hPortion => ?_
    obtain ⟨declared, -, slug, rfl⟩ := mem_casePortions hPortion
    exact hProvides
  refine ⟨fun _ => ?_, fun _ _ _ _ => ?_, fun portion hPortion fields hFields => ?_⟩
  · rw [hNone]
    exact nodup_nil
  · rw [hNone]
    exact not_mem_nil
  · obtain ⟨declared, hDeclared, slug, rfl⟩ := mem_casePortions hPortion
    exact (of_command_ok hCommands hDeclared hFields).2.1

theorem portionOutputs_eq : (site.casePortions lower planned cases).flatMap
        (fun portion => portion.command.toOption.elim [] (·.outputSpecs)) = site.claimed cases := by
  have hEach : ∀ declared ∈ cases, (site.commandOr declared).toOption.elim [] (·.outputSpecs) =
      if site.runs declared then (site.outputsOf declared).map Prod.fst else [] := by
    intro declared hDeclared
    obtain ⟨command, hCommand⟩ := hCommands declared hDeclared
    rw [commandOr_eq hCommand]
    rcases caseCommand_cases hCommand with ⟨hRuns, blocked, rfl⟩ | ⟨hRuns, argv, env, -, rfl⟩
    · rw [hRuns]
      rfl
    · rw [hRuns]
      rfl
  rw [casePortions, flatMap_map]
  calc (cases.zip (slugs lower (cases.map (·.name)))).flatMap
        (fun pair => (site.commandOr pair.1).toOption.elim [] (·.outputSpecs))
      = cases.flatMap (fun declared => (site.commandOr declared).toOption.elim [] (·.outputSpecs)) := by
        conv_rhs => rw [← @map_fst_cases lower cases, flatMap_map]
    _ = site.claimed cases := flatMap_congr hEach

variable {checks : List PlannedCheck} (hRun : planned.settleAll (site.casePortions lower planned cases) =
  .ok checks)

include hRun

theorem names_case {i : ℕ} (hi : i < checks.length) {plan : ProviderPlan} (hPlan : plan ∈ checks[i].task) :
    ∃ hCase : i < cases.length, plan.task.val.envOverlay.head? = some (py "ICI_CASE", cases[i].name) := by
  have hCarried := carried_of_settleAll hRun
  have hPortion : i < (site.casePortions lower planned cases).length := hCarried.length_eq ▸ hi
  obtain ⟨hCase, hCommandOr⟩ := casePortions_getElem hPortion
  obtain ⟨-, -, hCarries⟩ := (forall₂_iff_get.mp hCarried).2 i hPortion hi
  rw [get_eq_getElem, get_eq_getElem, hCommandOr] at hCarries
  refine ⟨hCase, ?_⟩
  cases hCommand : site.commandOr cases[i] with
  | error reason =>
    rw [hCommand] at hCarries
    rw [hCarries.2] at hPlan
    cases hPlan
  | ok fields =>
    rw [hCommand] at hCarries
    obtain ⟨-, found, hFound, hVal⟩ := hCarries
    cases Option.mem_unique hFound hPlan
    rw [hVal]
    exact (of_command_ok hCommands (getElem_mem hCase) hCommand).2.2.2

end

section

variable {checks : List PlannedCheck} (hRun : planned.settleAll (site.casePortions lower planned cases) =
  .ok checks)

include hRun

theorem caseIds_nodup : (checks.map (·.taskId)).Nodup := by
  rw [(carried_of_settleAll hRun).taskIds, caseParts]
  exact (slugs_nodup _).map (partId_injective planned)

variable (hCommands : ∀ declared ∈ cases, ∃ command, site.caseCommand declared = .ok command)
  (hNames : (cases.map (·.name)).Nodup)

include hCommands hNames

theorem caseKeys_nodup : (checks.map foldKey).Nodup := by
  have hIds := caseIds_nodup hRun
  refine (Nodup.of_map _ hIds).map_on fun p hp q hq hKey => ?_
  unfold foldKey at hKey
  split at hKey
  · split at hKey
    · exact eq_of_taskId_eq hIds hp hq (FoldKey.internal.inj hKey)
    · cases hKey
  · split at hKey
    · cases hKey
    · rename_i planP hPlanP _ planQ hPlanQ
      obtain ⟨i, hi, rfl⟩ := getElem_of_mem hp
      obtain ⟨j, hj, rfl⟩ := getElem_of_mem hq
      obtain ⟨hCaseI, hNameI⟩ := names_case hCommands hRun hi hPlanP
      obtain ⟨hCaseJ, hNameJ⟩ := names_case hCommands hRun hj hPlanQ
      have hOverlay : planP.task.val.envOverlay = planQ.task.val.envOverlay :=
        congrArg ShareKey.envOverlay (FoldKey.shared.inj hKey)
      rw [hOverlay, hNameJ, Option.some_inj, Prod.mk.injEq] at hNameI
      have hCase : cases[i] = cases[j] := inj_on_of_nodup_map hNames (getElem_mem hCaseI)
        (getElem_mem hCaseJ) hNameI.2.symm
      have hSame : i = j := (hNames.of_map _).getElem_inj_iff.mp hCase
      subst hSame
      rfl

theorem ledOutputs_cases_perm (hNeeds : planned.check.needs = []) :
    (ledOutputs (checks.filter startable)).Perm (site.claimed cases) := by
  have hKeys : ((checks.filter startable).map foldKey).Nodup :=
    (caseKeys_nodup hRun hCommands hNames).sublist (filter_sublist.map _)
  have hSilent : ∀ check ∈ checks, startable check = false → check.outputs = [] := by
    intro check hCheck hStart
    obtain ⟨portion, hPortion, hSettle⟩ := exists_of_mem_mapM hRun hCheck
    obtain ⟨declared, -, slug, rfl⟩ := mem_casePortions hPortion
    obtain ⟨-, hDefinition, hCarries⟩ := PlannedCheck.settle_ok hSettle
    cases hCommand : site.commandOr declared with
    | error reason =>
      rw [hCommand] at hCarries
      rw [PlannedCheck.outputs, hCarries.2]
      rfl
    | ok fields =>
      rw [hCommand] at hCarries
      have hNone : check.check.needs = [] := by
        rw [hDefinition]
        exact hNeeds
      rw [startable, hCarries.1, hNone] at hStart
      exact absurd hStart (by decide)
  have hAll : (checks.filter startable).flatMap PlannedCheck.outputs = site.claimed cases := by
    rw [← portionOutputs_eq hCommands, ← (carried_of_settleAll hRun).outputs]
    clear hRun hKeys
    induction checks with
    | nil => rfl
    | cons check rest ih =>
      rw [forall_mem_cons] at hSilent
      rw [flatMap_cons, filter_cons]
      split
      · rw [flatMap_cons, ih hSilent.2]
      · rename_i hStart
        rw [hSilent.1 (Bool.eq_false_iff.mpr hStart), nil_append, ih hSilent.2]
  rw [← hAll]
  exact ledOutputs_perm hKeys

end

/-- A command can be made of every case and a task accepts it, no name ends badly for an identifier, and
the cases that run leave no output twice. -/
structure CasesFit (lower : Lowering) (site : CaseSite) (cases : List EffectiveIntegrationCase) : Prop where
  commands : ∀ declared ∈ cases, ∃ command, site.caseCommand declared = .ok command ∧
    ∀ fields, command = .ok fields → fields.Acceptable
  names : ∀ declared ∈ cases, ((lower declared.name).filter isSlugLetter).getLast? ≠ some 0x5f
  outputs : (site.claimed cases).Nodup

theorem fits_cases_iff (hPlanned : IsIdentifier planned.taskId)
    (hCommands : ∀ declared ∈ cases, ∃ command, site.caseCommand declared = .ok command) :
    planned.Fits (site.casePortions lower planned cases) ↔
      (∀ declared ∈ cases, ∀ fields, site.caseCommand declared = .ok (.ok fields) → fields.Acceptable) ∧
        ∀ declared ∈ cases, ((lower declared.name).filter isSlugLetter).getLast? ≠ some 0x5f := by
  have hIdentifiers : (∀ portion ∈ site.casePortions lower planned cases,
      IsIdentifier (planned.partId portion.part)) ↔
        ∀ declared ∈ cases, ((lower declared.name).filter isSlugLetter).getLast? ≠ some 0x5f := by
    have hName (slug : Text) : IsIdentifier (planned.partId slug) ↔ IsTail slug := by
      rw [partId, append_assoc]
      exact isIdentifier_append_iff hPlanned (by decide)
    have hMap := @slugs_isTail_iff lower (cases.map (·.name))
    rw [forall_mem_map] at hMap
    rw [← hMap, ← @caseParts site lower planned, forall_mem_map]
    exact forall₂_congr fun portion _ => hName portion.part
  have hAcceptable : (∀ portion ∈ site.casePortions lower planned cases, ∀ fields,
      portion.command = .ok fields → fields.Acceptable) ↔
        ∀ declared ∈ cases, ∀ fields, site.caseCommand declared = .ok (.ok fields) → fields.Acceptable := by
    constructor
    · intro h declared hDeclared fields hFields
      rw [← @map_fst_cases lower cases] at hDeclared
      obtain ⟨pair, hPair, rfl⟩ := mem_map.mp hDeclared
      exact h _ (mem_map_of_mem hPair) fields (commandOr_eq hFields)
    · intro h portion hPortion fields hFields
      obtain ⟨declared, hDeclared, slug, rfl⟩ := mem_casePortions hPortion
      obtain ⟨command, hCommand⟩ := hCommands declared hDeclared
      have hSame : command = .ok fields := (commandOr_eq hCommand).symm.trans hFields
      exact h declared hDeclared fields (hSame ▸ hCommand)
  rw [← hIdentifiers, ← hAcceptable]
  refine ⟨fun h => ⟨h.acceptable, h.identifiers⟩, fun h => ⟨h.2, ?_, h.1⟩⟩
  rw [caseParts]
  exact slugs_nodup _

theorem gateIntegration_eq {front back : List PlannedCheck} {effective : EffectiveComponent} {plan : Plan}
    (hPlan : plan.val = front ++ planned :: back) (hOthers : ∀ other ∈ front ++ back,
      other.check.id ≠ py "integration")
    (hPlanned : planned.check.id = py "integration") (hOpen : planned.blocked = []) :
    site.gateIntegration lower plan effective =
      (site.expandIntegration lower planned effective.integrations).bind fun checks =>
        Checked.construct checkPlan (front ++ checks ++ back) := by
  have hKept (others : List PlannedCheck) (h : ∀ other ∈ others, other.check.id ≠ py "integration") :
      (others.mapM fun planned => if planned.check.id ≠ py "integration" ∨ planned.blocked ≠ []
        then .ok [planned]
        else site.expandIntegration lower planned effective.integrations) = .ok (others.map ([·])) := by
    refine mapM_eq_ok.mpr (forall₂_map_right_iff.mpr (forall₂_same.mpr fun other hOther =>
      ?_))
    rw [if_pos (.inl (h other hOther))]
  have hFlat (others : List PlannedCheck) : (others.map ([·])).flatten = others := by
    rw [← flatMap_def]
    exact flatMap_singleton' others
  rw [forall_mem_append] at hOthers
  unfold gateIntegration
  rw [hPlan, mapM_append, mapM_cons, hKept front hOthers.1, hKept back hOthers.2,
    if_neg (not_or.mpr ⟨not_not.mpr hPlanned, not_not.mpr hOpen⟩)]
  cases site.expandIntegration lower planned effective.integrations with
  | error e => rfl
  | ok checks =>
    have hList : (front.map ([·]) ++ checks :: back.map ([·])).flatten = front ++ checks ++ back := by
      rw [flatten_append, flatten_cons, hFlat, hFlat, append_assoc]
    show Checked.construct checkPlan (front.map ([·]) ++ checks :: back.map ([·])).flatten = _
    rw [hList]
    rfl

end CaseSite

/-- The expansion of the integration check into its cases keeps their identities, whatever plan it is
part of. -/
def CasesKeepIdentities (lower : Lowering) (site : CaseSite) (effective : EffectiveComponent)
    (required : Bool) : Prop :=
  ∃ checks, KeepsIdentities site.component (asked site.component integrationCasesCheck required)
      (site.casePortions lower (asked site.component integrationCasesCheck required) effective.integrations)
      checks ∧
    ∀ (plan : Plan) front back,
      plan.val = front ++ asked site.component integrationCasesCheck required :: back →
      (∀ other ∈ front ++ back,
        IsBeside site.component (asked site.component integrationCasesCheck required) other) →
      ∃ gated, site.gateIntegration lower plan effective = .ok gated ∧ gated.val = front ++ checks ++ back

section

variable {lower : Lowering} {site : CaseSite} {effective : EffectiveComponent} {required : Bool}
  (hNames : (effective.integrations.map (·.name)).Nodup)

include hNames

theorem expandIntegration_keeps_iff
    (hCommands : ∀ declared ∈ effective.integrations, ∃ command, site.caseCommand declared = .ok command) :
    (∃ checks, site.expandIntegration lower (asked site.component integrationCasesCheck required)
          effective.integrations = .ok checks ∧
        KeepsIdentities site.component (asked site.component integrationCasesCheck required)
          (site.casePortions lower (asked site.component integrationCasesCheck required)
            effective.integrations) checks) ↔
      CaseSite.CasesFit lower site effective.integrations := by
  have hMem : integrationCasesCheck ∈ expandedChecks := by decide
  rw [exists_keeps_iff hMem (loose_cases hCommands rfl)
    (expandIntegration_isExpansion hCommands), fits_cases_iff (asked_isIdentifier hMem)
      hCommands]
  have hOutputs {checks : List PlannedCheck}
      (hRun : (asked site.component integrationCasesCheck required).settleAll
        (site.casePortions lower (asked site.component integrationCasesCheck required) effective.integrations)
          =
          .ok checks) :
      (ledOutputs (checks.filter startable)).Nodup ↔ (site.claimed effective.integrations).Nodup :=
    (ledOutputs_cases_perm hRun hCommands hNames rfl).nodup_iff
  constructor
  · rintro ⟨hFits, hClaims⟩
    have hFit := (@fits_cases_iff site lower (asked site.component integrationCasesCheck required)
      effective.integrations (asked_isIdentifier hMem) hCommands).mpr hFits
    obtain ⟨checks, hRun, -⟩ := (exists_expands_iff (loose_cases hCommands rfl).free).mpr hFit
    refine ⟨fun declared hDeclared => ?_, hFits.2, (hOutputs hRun).mp (hClaims checks hRun)⟩
    obtain ⟨command, hCommand⟩ := hCommands declared hDeclared
    exact ⟨command, hCommand, fun fields hFields => hFits.1 declared hDeclared fields (hFields ▸ hCommand)⟩
  · intro hFit
    refine ⟨⟨fun declared hDeclared fields hFields => ?_, hFit.names⟩, fun checks hRun =>
      (hOutputs hRun).mpr hFit.outputs⟩
    obtain ⟨command, hCommand, hAcceptable⟩ := hFit.commands declared hDeclared
    exact hAcceptable fields (Except.ok.inj (hCommand.symm.trans hFields))

theorem casesKeepIdentities_iff : CasesKeepIdentities lower site effective required ↔
      CaseSite.CasesFit lower site effective.integrations := by
  have hGate {plan : Plan} {front back : List PlannedCheck}
      (hPlan : plan.val = front ++ asked site.component integrationCasesCheck required :: back)
      (hBeside : ∀ other ∈ front ++ back,
        IsBeside site.component (asked site.component integrationCasesCheck required) other) :=
    @gateIntegration_eq site lower _ _ _ effective plan hPlan (fun other hOther => by
      obtain ⟨check, -, hId, hNe, -⟩ := hBeside other hOther
      rw [hId]
      exact hNe) rfl rfl
  constructor
  · rintro ⟨checks, hKeeps, hGated⟩
    have hAlone : checkPlan [asked site.component integrationCasesCheck required] = .ok () :=
      checkPlan_eq_ok_iff.mpr ⟨by simp, by simp, fun other hOther plan hPlan => by
        rw [mem_singleton.mp hOther] at hPlan
        cases hPlan⟩
    obtain ⟨gated, hRun, hVal⟩ := hGated ⟨_, hAlone⟩ [] [] rfl fun _ h => absurd h not_mem_nil
    rw [@hGate ⟨_, hAlone⟩ [] [] rfl fun _ h => absurd h not_mem_nil] at hRun
    obtain ⟨found, hFound, hDone⟩ := bind_eq_ok.mp hRun
    have hSame : found = checks := by
      have hList := (Checked.construct_eq_ok_iff.mp hDone).symm.trans hVal
      simpa using hList
    subst hSame
    exact (expandIntegration_keeps_iff hNames fun declared hDeclared =>
      exists_caseCommand hFound hDeclared).mp ⟨found, hFound, hKeeps⟩
  · intro hFit
    obtain ⟨checks, hRun, hKeeps⟩ := (expandIntegration_keeps_iff hNames fun declared hDeclared =>
      (hFit.commands declared hDeclared).imp fun _ h => h.1).mpr hFit
    refine ⟨checks, hKeeps, fun plan front back hPlan hBeside => ?_⟩
    have hOriginal : checkPlan (front ++ asked site.component integrationCasesCheck required :: back) = .ok () :=
      hPlan ▸ plan.property
    have hAccepted := hKeeps.plan front back hBeside hOriginal
    refine ⟨⟨_, hAccepted⟩, ?_, rfl⟩
    rw [hGate hPlan hBeside, hRun]
    exact Checked.construct_eq_ok_iff.mpr rfl

end

end Ici
