import Ici.Application.Expansion

/-! # Suites and artifacts under ids of their own

A suite's id joins its build to the name the project file gives it. Both may hold the separator. -/

namespace Ici

open List Raising Python PlannedCheck TestSite TestSuite

/-! ## The suites of a build -/

section

variable (isWord : CodePoint → Bool) (tree : Checkout)

def Resolves (build : BuildUnit) : Prop := ∃ suites, suitesForBuild isWord tree build = .ok suites

def suitesOf (build : BuildUnit) : List TestSuite :=
  ((suitesForBuild isWord tree build).toOption).getD []

/-- The names that the suites of a build join to its id: of a cmake build the one, of a qmake build the
`SUBDIRS` entries whose project declares a test. -/
def suiteNames (build : BuildUnit) : List Text :=
  match build.val.definition with
  | none => []
  | some definition =>
    if build.val.system = py "cmake" then
      if resolveCmakeProject tree definition = [] then [] else [py "ctest"]
    else if build.val.system = py "qmake" then
      (((resolveQmakeProject tree definition).toOption.getD []).filter fun target =>
        (ofTarget isWord tree build target).isSome).map (·.name)
    else []

end

section

variable {isWord : CodePoint → Bool} {tree : Checkout} {build : BuildUnit}

theorem suitesOf_eq {suites : List TestSuite} (h : suitesForBuild isWord tree build = .ok suites) :
    suitesOf isWord tree build = suites := by
  rw [suitesOf, h]
  rfl

theorem ofTarget_some {target : QmakeTarget} {suite : TestSuite}
    (h : ofTarget isWord tree build target = some suite) :
    suite.id = build.val.id ++ py "-" ++ target.name ∧ suite.buildId = build.val.id := by
  unfold ofTarget at h
  split at h
  · cases h
  · obtain ⟨binary, -, rfl⟩ := Option.map_eq_some_iff.mp h
    exact ⟨rfl, rfl⟩

theorem ids_ofTargets (targets : List QmakeTarget) :
    (targets.filterMap (ofTarget isWord tree build)).map (·.id) =
      ((targets.filter fun target => (ofTarget isWord tree build target).isSome).map (·.name)).map
        (build.val.id ++ 0x2d :: ·) := by
  induction targets with
  | nil => rfl
  | cons target targets ih =>
    cases h : ofTarget isWord tree build target with
    | none => simpa [h] using ih
    | some suite =>
      rw [filterMap_cons_some h, filter_cons_of_pos (by rw [h]; rfl), map_cons, map_cons,
        map_cons, ih, (ofTarget_some h).1, append_assoc]
      rfl

theorem ids_suitesOf (h : Resolves isWord tree build) : (suitesOf isWord tree build).map (·.id) =
      (suiteNames isWord tree build).map (build.val.id ++ 0x2d :: ·) := by
  obtain ⟨suites, hSuites⟩ := h
  rw [suitesOf_eq hSuites]
  unfold suitesForBuild at hSuites
  unfold suiteNames
  cases hDefinition : build.val.definition with
  | none =>
    rw [hDefinition] at hSuites
    cases hSuites
    rfl
  | some definition =>
    rw [hDefinition] at hSuites
    dsimp only at hSuites ⊢
    split at hSuites
    · rename_i hCmake
      cases hSuites
      rw [if_pos hCmake]
      unfold cmakeSuites
      dsimp only
      split <;> rfl
    · rename_i hCmake
      rw [if_neg hCmake]
      split at hSuites
      · rename_i hQmake
        obtain ⟨targets, hTargets, rfl⟩ := map_eq_ok.mp hSuites
        rw [if_pos hQmake, hTargets]
        exact ids_ofTargets targets
      · rename_i hQmake
        cases hSuites
        rw [if_neg hQmake]
        rfl

theorem buildId_of_mem_suitesOf {suite : TestSuite} (h : suite ∈ suitesOf isWord tree build) :
    suite.buildId = build.val.id := by
  unfold suitesOf suitesForBuild at h
  split at h
  · cases h
  · split at h
    · have h' : suite ∈ cmakeSuites tree build _ := h
      unfold cmakeSuites at h'
      dsimp only at h'
      split at h'
      · cases h'
      · rw [mem_singleton.mp h']
    · split at h
      · unfold qmakeSuites at h
        cases hTargets : resolveQmakeProject tree _ with
        | error e =>
          rw [hTargets] at h
          cases h
        | ok targets =>
          rw [hTargets] at h
          obtain ⟨target, -, hTarget⟩ := mem_filterMap.mp h
          exact (ofTarget_some hTarget).2
      · cases h

theorem cppSuites_eq_ok_iff {component : Component} {builds : List BuildUnit} {suites : List TestSuite} :
    cppSuites isWord tree component builds = .ok suites ↔
      (∀ build ∈ linkedBuilds component builds, Resolves isWord tree build) ∧
        suites = (linkedBuilds component builds).flatMap (suitesOf isWord tree) := by
  have hFlat {linked : List BuildUnit} {lists : List (List TestSuite)}
      (h : linked.mapM (suitesForBuild isWord tree) = .ok lists) :
      lists.flatten = linked.flatMap (suitesOf isWord tree) := by
    rw [flatMap_def]
    congr 1
    rw [← forall₂_eq_eq_eq, forall₂_map_right_iff]
    exact (mapM_eq_ok.mp h).flip.imp fun _ _ h => (suitesOf_eq h).symm
  rw [cppSuites, map_eq_ok]
  constructor
  · rintro ⟨lists, hLists, rfl⟩
    refine ⟨fun build hBuild => ?_, hFlat hLists⟩
    obtain ⟨found, -, hFound⟩ := mem_mapM_of_mem hLists hBuild
    exact ⟨found, hFound⟩
  · rintro ⟨hResolves, rfl⟩
    obtain ⟨lists, hLists⟩ := exists_mapM_eq_ok.mpr hResolves
    exact ⟨lists, hLists, hFlat hLists⟩

end

/-- The names of the suites of some builds make identifiers, and differ however they are cut. -/
structure NamesFit (isWord : CodePoint → Bool) (tree : Checkout) (builds : List BuildUnit) : Prop where
  tails : ∀ build ∈ builds, ∀ name ∈ suiteNames isWord tree build, IsTail name
  once : ∀ build ∈ builds, (suiteNames isWord tree build).Nodup
  apart : Joining.AreApart (fun build : BuildUnit => build.val.id) (suiteNames isWord tree) 0x2d builds

section

variable {isWord : CodePoint → Bool} {tree : Checkout} {builds : List BuildUnit}
  (hResolves : ∀ build ∈ builds, Resolves isWord tree build)

include hResolves

theorem ids_flatMap_suitesOf : (builds.flatMap (suitesOf isWord tree)).map (·.id) =
    builds.flatMap fun build => (suiteNames isWord tree build).map (build.val.id ++ 0x2d :: ·) := by
  rw [map_flatMap]
  exact flatMap_congr fun build hBuild => ids_suitesOf (hResolves build hBuild)

theorem namesFit_iff (hIds : (builds.map (·.val.id)).Nodup) {planned : PlannedCheck}
    (hPlanned : IsIdentifier planned.taskId) :
    ((∀ suite ∈ builds.flatMap (suitesOf isWord tree), IsIdentifier (planned.partId suite.id)) ∧
        ((builds.flatMap (suitesOf isWord tree)).map (·.id)).Nodup) ↔ NamesFit isWord tree builds := by
  have hDot : IsSeparator 0x2e := by decide
  have hDash : IsSeparator 0x2d := by decide
  have hName (build : BuildUnit) (name : Text) :
      IsIdentifier (planned.partId (build.val.id ++ 0x2d :: name)) ↔ IsTail name := by
    have hCons : planned.partId (build.val.id ++ 0x2d :: name) =
        planned.taskId ++ 0x2e :: (build.val.id ++ 0x2d :: name) := by
      rw [partId, append_assoc]
      rfl
    rw [hCons, isIdentifier_append_iff hPlanned hDot, isTail_append_iff build.id_isIdentifier.all hDash]
  have hTails : (∀ suite ∈ builds.flatMap (suitesOf isWord tree), IsIdentifier (planned.partId suite.id)) ↔
      ∀ build ∈ builds, ∀ name ∈ suiteNames isWord tree build, IsTail name := by
    rw [← @List.forall_mem_map _ _ TestSuite.id _ fun id => IsIdentifier (planned.partId id),
      ids_flatMap_suitesOf hResolves, forall_mem_flatMap]
    refine forall₂_congr fun build _ => ?_
    rw [forall_mem_map]
    exact forall₂_congr fun name _ => hName build name
  rw [hTails, ids_flatMap_suitesOf hResolves, Joining.nodup_joined_iff hIds]
  exact ⟨fun h => ⟨h.1, h.2.1, h.2.2⟩, fun h => ⟨h.tails, h.once, h.apart⟩⟩

end

def suitePortions (check : TestSuite → CheckDefinition) (command : TestSuite → Except Text TaskSpecFields)
    (suites : List TestSuite) : List Portion :=
  suites.map fun suite =>
    { check := check suite
      contract := anyExit
      part := suite.id
      command := command suite }

def IsFree (command : TestSuite → Except Text TaskSpecFields) : Prop :=
  ∀ suite fields, command suite = .ok fields → fields.dependsOn = [] ∧ fields.outputSpecs = []

/-- The commands of the suites of some builds are ones that a task accepts. -/
def SuitesAcceptable (isWord : CodePoint → Bool) (tree : Checkout)
    (command : TestSuite → Except Text TaskSpecFields) (builds : List BuildUnit) : Prop :=
  ∀ build ∈ builds, ∀ suite ∈ suitesOf isWord tree build, ∀ fields, command suite = .ok fields →
    fields.Acceptable

theorem ledOutputs_nil {planned : PlannedCheck} {portions : List Portion} {checks : List PlannedCheck}
    (hRun : planned.settleAll portions = .ok checks)
    (hOutputs : ∀ portion ∈ portions, ∀ fields, portion.command = .ok fields → fields.outputSpecs = []) :
    (ledOutputs (checks.filter startable)).Nodup := by
  have hEach : ∀ check ∈ checks, check.outputs = [] := by
    rw [← flatMap_eq_nil_iff, (carried_of_settleAll hRun).outputs, flatMap_eq_nil_iff]
    intro portion hPortion
    cases hCommand : portion.command with
    | error reason => rfl
    | ok fields => exact hOutputs portion hPortion fields hCommand
  rw [ledOutputs_eq_nil fun check hCheck => hEach check (mem_of_mem_filter hCheck)]
  exact nodup_nil

theorem loose_of_bare {portions : List Portion} (hProvides : ∀ portion ∈ portions, portion.check.provides =
    [])
    (hFree : ∀ portion ∈ portions, ∀ fields, portion.command = .ok fields → fields.dependsOn = []) :
    AreLoose portions := by
  have hNone : portions.flatMap (·.check.provides) = [] := flatMap_eq_nil_iff.mpr hProvides
  refine ⟨fun _ => ?_, fun _ _ _ _ => ?_, hFree⟩
  · rw [hNone]
    exact nodup_nil
  · rw [hNone]
    exact not_mem_nil

theorem suites_keep_iff {isWord : CodePoint → Bool} {tree : Checkout} {component : Component}
    {definition : CheckDefinition} {required : Bool} (hDefinition : definition ∈ expandedChecks)
    {check : TestSuite → CheckDefinition} {command : TestSuite → Except Text TaskSpecFields}
    (hCommand : IsFree command) {builds : List BuildUnit} (hIds : (builds.map (·.val.id)).Nodup)
    (hResolves : ∀ build ∈ builds, Resolves isWord tree build)
    (hLoose : AreLoose (suitePortions check command (builds.flatMap (suitesOf isWord tree))))
    {result : Result (List PlannedCheck)}
    (hResult : IsExpansion (asked component definition required)
      (suitePortions check command (builds.flatMap (suitesOf isWord tree))) result) :
    (∃ checks, result = .ok checks ∧ KeepsIdentities component (asked component definition required)
        (suitePortions check command (builds.flatMap (suitesOf isWord tree))) checks) ↔
      NamesFit isWord tree builds ∧ SuitesAcceptable isWord tree command builds := by
  have hOutputs : ∀ checks, (asked component definition required).settleAll
      (suitePortions check command (builds.flatMap (suitesOf isWord tree))) = .ok checks →
        (ledOutputs (checks.filter startable)).Nodup := fun checks hRun =>
    ledOutputs_nil hRun fun portion hPortion fields hFields => by
      obtain ⟨suite, -, rfl⟩ := mem_map.mp hPortion
      exact (hCommand suite fields hFields).2
  rw [exists_keeps_iff hDefinition hLoose hResult, and_iff_left hOutputs,
    ← namesFit_iff hResolves hIds (asked_isIdentifier hDefinition)]
  have hParts : (suitePortions check command (builds.flatMap (suitesOf isWord tree))).map (·.part) =
      (builds.flatMap (suitesOf isWord tree)).map (·.id) := by
    rw [suitePortions, List.map_map]
    rfl
  have hEach (holds : Portion → Prop) :
      (∀ portion ∈ suitePortions check command (builds.flatMap (suitesOf isWord tree)), holds portion) ↔
        ∀ suite ∈ builds.flatMap (suitesOf isWord tree), holds ⟨check suite, anyExit, suite.id, command suite⟩ :=
    forall_mem_map
  have hAcceptable : (∀ suite ∈ builds.flatMap (suitesOf isWord tree), ∀ fields, command suite = .ok fields →
      fields.Acceptable) ↔ SuitesAcceptable isWord tree command builds := forall_mem_flatMap
  rw [← hAcceptable]
  constructor
  · intro hFits
    refine ⟨⟨(hEach _).mp hFits.identifiers, ?_⟩, (hEach _).mp hFits.acceptable⟩
    rw [← hParts]
    exact hFits.distinct
  · rintro ⟨⟨hIdentifiers, hDistinct⟩, hRuns⟩
    refine ⟨(hEach _).mpr hIdentifiers, ?_, (hEach _).mpr hRuns⟩
    rw [hParts]
    exact hDistinct

namespace TestSite

variable {site : TestSite} {component : Component} {required : Bool}

/-- `cpp.test` as it is planned for a suite. -/
def suiteCheck (component : Component) (required : Bool) (suite : TestSuite) : CheckDefinition :=
  { (asked component cppTestCheck required).check with
    provides := (asked component cppTestCheck required).check.provides.map (· ++ py "." ++ suite.id)
    disjoint := fun _ hNeed => nomatch hNeed }

theorem free_testCommand : IsFree site.testCommand := by
  intro suite fields h
  unfold testCommand at h
  split at h
  · split at h
    · cases h
    · split at h
      · cases h
      · cases h
        exact ⟨rfl, rfl⟩
  · split at h
    · cases h
    · cases h
      exact ⟨rfl, rfl⟩

theorem loose_tests (suites : List TestSuite) :
    AreLoose (suitePortions (suiteCheck component required) site.testCommand suites) := by
  refine ⟨fun hParts => ?_, ?_, ?_⟩
  · have hProvides : (suitePortions (suiteCheck component required) site.testCommand suites).flatMap
        (·.check.provides) =
        ((suitePortions (suiteCheck component required) site.testCommand suites).map (·.part)).map
          (qualified component.val.id (py "cpp-test-evidence") ++ py "." ++ ·) := by
      rw [List.map_map, suitePortions, flatMap_map, List.map_map]
      exact flatMap_pure_eq_map _ suites
    rw [hProvides]
    exact hParts.map fun _ _ h => append_cancel_left h
  · intro portion hPortion need hNeed
    obtain ⟨suite, -, rfl⟩ := mem_map.mp hPortion
    cases hNeed
  · intro portion hPortion fields hFields
    obtain ⟨suite, -, rfl⟩ := mem_map.mp hPortion
    exact (free_testCommand suite fields hFields).1

theorem expandCppTests_isExpansion {suites : List TestSuite}
    (hLinked : component.val.buildIds = [] → suites = []) :
    IsExpansion (asked component cppTestCheck required)
      (suitePortions (suiteCheck component required) site.testCommand suites)
      (site.expandCppTests (asked component cppTestCheck required) suites component) := by
  unfold expandCppTests
  by_cases hBuilds : component.val.buildIds = []
  · rw [if_pos hBuilds, hLinked hBuilds]
    exact .stopped (by decide)
  · rw [if_neg hBuilds]
    by_cases hNone : suites = []
    · subst hNone
      rw [if_pos rfl]
      exact .stopped (by decide)
    · have hRun : IsExpansion (asked component cppTestCheck required)
          (suitePortions (suiteCheck component required) site.testCommand suites)
          ((asked component cppTestCheck required).settleAll _) := .settled (mt map_eq_nil_iff.mp hNone)
      rw [settleAll, suitePortions, List.mapM_map] at hRun
      rw [if_neg hNone]
      exact hRun

theorem linkedBuilds_nil {builds : List BuildUnit} (h : component.val.buildIds = []) :
    linkedBuilds component builds = [] := by
  refine filter_eq_nil_iff.mpr fun build _ => ?_
  rw [h]
  simp

end TestSite

/-- The expansion of `cpp.test` into the suites of the linked builds keeps their identities. -/
def TestsKeepIdentities (isWord : CodePoint → Bool) (site : TestSite) (component : Component)
    (builds : List BuildUnit) (required : Bool) : Prop :=
  ∃ suites, cppSuites isWord site.tree component builds = .ok suites ∧
    ∃ checks, site.expandCppTests (asked component cppTestCheck required) suites component = .ok checks ∧
      KeepsIdentities component (asked component cppTestCheck required)
        (suitePortions (suiteCheck component required) site.testCommand suites) checks

theorem testsKeepIdentities_iff {isWord : CodePoint → Bool} {site : TestSite} {component : Component}
    {builds : List BuildUnit} {required : Bool} (hIds : (builds.map (·.val.id)).Nodup) :
    TestsKeepIdentities isWord site component builds required ↔
      (∀ build ∈ linkedBuilds component builds, Resolves isWord site.tree build) ∧
        NamesFit isWord site.tree (linkedBuilds component builds) ∧
        SuitesAcceptable isWord site.tree site.testCommand (linkedBuilds component builds) := by
  have hLinkedIds : ((linkedBuilds component builds).map (·.val.id)).Nodup :=
    hIds.sublist (filter_sublist.map _)
  have hLinked : component.val.buildIds = [] →
      (linkedBuilds component builds).flatMap (suitesOf isWord site.tree) = [] := fun h => by
    rw [linkedBuilds_nil h, flatMap_nil]
  have hKeeps (hResolves : ∀ build ∈ linkedBuilds component builds, Resolves isWord site.tree build) :=
    suites_keep_iff (by decide) (@free_testCommand site) hLinkedIds hResolves
      (loose_tests _) (@expandCppTests_isExpansion site component required _ hLinked)
  constructor
  · rintro ⟨suites, hSuites, hRun⟩
    obtain ⟨hResolves, rfl⟩ := cppSuites_eq_ok_iff.mp hSuites
    exact ⟨hResolves, (hKeeps hResolves).mp hRun⟩
  · rintro ⟨hResolves, hFit⟩
    exact ⟨_, cppSuites_eq_ok_iff.mpr ⟨hResolves, rfl⟩, (hKeeps hResolves).mpr hFit⟩

/-! ## Sanitizers -/

def variantBuilds (component : Component) (builds : List BuildUnit) (variant : Text) : List BuildUnit :=
  (linkedBuilds component builds).filter (·.val.variant = variant)

namespace TestSite

variable {site : TestSite} {component : Component} {required : Bool} {variant : Text}

theorem free_sanitizerCommand : IsFree (site.sanitizerCommand variant) := by
  intro suite fields h
  unfold sanitizerCommand at h
  split at h
  · split at h
    · cases h
    · split at h
      · cases h
      · dsimp only at h
        split at h
        · cases h
        · split at h
          · cases h
          · cases h
            exact ⟨rfl, rfl⟩
  · dsimp only at h
    split at h
    · cases h
    · split at h
      · cases h
        exact ⟨rfl, rfl⟩
      · cases h
      · cases h

theorem variantIds_eq (builds : List BuildUnit) :
    variantIds component builds variant = (variantBuilds component builds variant).map (·.val.id) := by
  rw [variantIds, variantBuilds, linkedBuilds, filter_filter]
  congr 2
  funext build
  simp [and_comm]

theorem variantSuites_eq (isWord : CodePoint → Bool) (tree : Checkout) {builds : List BuildUnit}
    (hIds : (builds.map (·.val.id)).Nodup) :
    ((linkedBuilds component builds).flatMap (suitesOf isWord tree)).filter
        (·.buildId ∈ variantIds component builds variant) =
      (variantBuilds component builds variant).flatMap (suitesOf isWord tree) := by
  have hLinkedIds : ((linkedBuilds component builds).map (·.val.id)).Nodup :=
    hIds.sublist (filter_sublist.map _)
  have hMem (build : BuildUnit) (hBuild : build ∈ linkedBuilds component builds) :
      build.val.id ∈ variantIds component builds variant ↔ build.val.variant = variant := by
    rw [variantIds_eq, mem_map]
    constructor
    · rintro ⟨other, hOther, hId⟩
      obtain ⟨hLinked, hVariant⟩ := mem_filter.mp hOther
      rw [← inj_on_of_nodup_map hLinkedIds hLinked hBuild hId]
      exact of_decide_eq_true hVariant
    · intro hVariant
      exact ⟨build, mem_filter.mpr ⟨hBuild, decide_eq_true hVariant⟩, rfl⟩
  have hFrom (some : List BuildUnit) (hSome : ∀ build ∈ some, build ∈ linkedBuilds component builds) :
      (some.flatMap (suitesOf isWord tree)).filter (·.buildId ∈ variantIds component builds variant) =
        (some.filter (·.val.variant = variant)).flatMap (suitesOf isWord tree) := by
    induction some with
    | nil => rfl
    | cons build rest ih =>
      rw [forall_mem_cons] at hSome
      rw [flatMap_cons, filter_append, ih hSome.2]
      by_cases hVariant : build.val.variant = variant
      · rw [filter_cons_of_pos (by simpa using hVariant), flatMap_cons]
        congr 1
        refine filter_eq_self.mpr fun suite hSuite => decide_eq_true ?_
        rw [buildId_of_mem_suitesOf hSuite]
        exact (hMem build hSome.1).mpr hVariant
      · rw [filter_cons_of_neg (by simpa using hVariant)]
        have hNone : (suitesOf isWord tree build).filter
            (·.buildId ∈ variantIds component builds variant) = [] := by
          refine filter_eq_nil_iff.mpr fun suite hSuite => ?_
          rw [buildId_of_mem_suitesOf hSuite, decide_eq_true_eq]
          exact mt (hMem build hSome.1).mp hVariant
        rw [hNone, nil_append]
  exact hFrom _ fun _ h => h

theorem expandCppSanitizer_isExpansion {planned : PlannedCheck} {suites : List TestSuite}
    {builds : List BuildUnit} (hLinked : component.val.buildIds = [] → suites = [])
    (hSuites : ∀ suite ∈ suites, suite.buildId ∈ variantIds component builds variant) {all : List TestSuite}
    (hAll : all.filter (·.buildId ∈ variantIds component builds variant) = suites) :
    IsExpansion planned
      (suitePortions (fun _ => planned.check) (site.sanitizerCommand variant) suites)
      (site.expandCppSanitizer planned variant all component builds) := by
  unfold expandCppSanitizer
  dsimp only
  rw [hAll]
  by_cases hBuilds : component.val.buildIds = []
  · rw [if_pos hBuilds, hLinked hBuilds]
    exact .stopped (by decide)
  · rw [if_neg hBuilds]
    by_cases hIds : variantIds component builds variant = []
    · have hNone : suites = [] := eq_nil_iff_forall_not_mem.mpr fun suite hSuite => by
        have hIn := hSuites suite hSuite
        rw [hIds] at hIn
        cases hIn
      rw [if_pos hIds, hNone]
      exact .stopped (by simp [py])
    · rw [if_neg hIds]
      by_cases hNone : suites = []
      · subst hNone
        rw [if_pos rfl]
        exact .stopped (by simp [py])
      · have hRun : IsExpansion planned
            (suitePortions (fun _ => planned.check) (site.sanitizerCommand variant) suites)
            (planned.settleAll _) := .settled (mt map_eq_nil_iff.mp hNone)
        rw [settleAll, suitePortions, List.mapM_map] at hRun
        rw [if_neg hNone]
        exact hRun

end TestSite

def sanitizers : List (CheckDefinition × Text) :=
  [(cppSanitizeCheck, py "sanitize"), (cppTsanCheck, py "thread-sanitize")]

/-- The expansion of a sanitizer into the suites of its variant keeps their identities. -/
def SanitizerKeepsIdentities (isWord : CodePoint → Bool) (site : TestSite) (component : Component)
    (builds : List BuildUnit) (required : Bool) (check : CheckDefinition) (variant : Text) : Prop :=
  ∃ suites, cppSuites isWord site.tree component builds = .ok suites ∧
    ∃ checks, site.expandCppSanitizer (asked component check required) variant suites component builds =
        .ok checks ∧
      KeepsIdentities component (asked component check required)
        (suitePortions (fun _ => (asked component check required).check) (site.sanitizerCommand variant)
          (suites.filter (·.buildId ∈ variantIds component builds variant))) checks

theorem sanitizerKeepsIdentities_iff {isWord : CodePoint → Bool} {site : TestSite} {component : Component}
    {builds : List BuildUnit} {required : Bool} (hIds : (builds.map (·.val.id)).Nodup)
    {check : CheckDefinition} {variant : Text} (hCheck : (check, variant) ∈ sanitizers) :
    SanitizerKeepsIdentities isWord site component builds required check variant ↔
      (∀ build ∈ linkedBuilds component builds, Resolves isWord site.tree build) ∧
        NamesFit isWord site.tree (variantBuilds component builds variant) ∧
        SuitesAcceptable isWord site.tree (site.sanitizerCommand variant)
          (variantBuilds component builds variant) := by
  have hExpanded : check ∈ expandedChecks ∧ check.provides = [] := by
    have hAll : ∀ pair ∈ sanitizers, pair.1 ∈ expandedChecks ∧ pair.1.provides = [] := by decide
    exact hAll _ hCheck
  have hSub : ∀ build ∈ variantBuilds component builds variant,
      build ∈ linkedBuilds component builds := fun _ h => mem_of_mem_filter h
  have hVariantIds : ((variantBuilds component builds variant).map (·.val.id)).Nodup :=
    (hIds.sublist (filter_sublist.map _)).sublist (filter_sublist.map _)
  have hSuites := @variantSuites_eq component variant isWord site.tree builds hIds
  have hLoose : AreLoose (suitePortions (fun _ => (asked component check required).check)
      (site.sanitizerCommand variant)
      ((variantBuilds component builds variant).flatMap (suitesOf isWord site.tree))) := by
    refine loose_of_bare (fun portion hPortion => ?_) fun portion hPortion fields hFields => ?_
    · obtain ⟨suite, -, rfl⟩ := mem_map.mp hPortion
      exact map_eq_nil_iff.mpr hExpanded.2
    · obtain ⟨suite, -, rfl⟩ := mem_map.mp hPortion
      exact (free_sanitizerCommand suite fields hFields).1
  have hResult : IsExpansion (asked component check required)
      (suitePortions (fun _ => (asked component check required).check) (site.sanitizerCommand variant)
        ((variantBuilds component builds variant).flatMap (suitesOf isWord site.tree)))
      (site.expandCppSanitizer (asked component check required) variant
        ((linkedBuilds component builds).flatMap (suitesOf isWord site.tree)) component builds) := by
    refine expandCppSanitizer_isExpansion (fun h => ?_) (fun suite hSuite => ?_) hSuites
    · rw [variantBuilds, linkedBuilds_nil h, filter_nil, flatMap_nil]
    · rw [← hSuites] at hSuite
      exact of_decide_eq_true (mem_filter.mp hSuite).2
  have hKeeps (hResolves : ∀ build ∈ linkedBuilds component builds, Resolves isWord site.tree build) :=
    suites_keep_iff hExpanded.1 (@free_sanitizerCommand site variant) hVariantIds
      (fun build hBuild => hResolves build (hSub build hBuild)) hLoose hResult
  constructor
  · rintro ⟨suites, hFound, hRun⟩
    obtain ⟨hResolves, rfl⟩ := cppSuites_eq_ok_iff.mp hFound
    rw [hSuites] at hRun
    exact ⟨hResolves, (hKeeps hResolves).mp hRun⟩
  · rintro ⟨hResolves, hFit⟩
    refine ⟨_, cppSuites_eq_ok_iff.mpr ⟨hResolves, rfl⟩, ?_⟩
    rw [hSuites]
    exact (hKeeps hResolves).mpr hFit

end Ici
