import Ici.Application.ExpandedCases
import Ici.Application.ExpandedSuites
import Ici.Domain.Scoping

/-! # Artifacts under ids of their own

A binary is told apart by the number it is given, whatever its build is called. A file that two globs of
an artifact contract match is inspected twice. -/

namespace Ici

open List Python PlannedCheck TestSite

/-! ## The binaries of the linked builds -/

namespace TestSite

variable (site : TestSite)

/-- The binaries that are inspected, none where there is no `readelf`. -/
def artifactPortions (planned : PlannedCheck) (linked : List BuildUnit) : List Portion :=
  match site.locateTool (py "readelf") with
  | none => []
  | some executable =>
    (site.inspected linked).zipIdx.map fun found =>
      { check := planned.check
        contract := anyExit
        part := found.1.1 ++ py "-" ++ natDigits (found.2 + 1)
        command := .ok (site.binaryTask executable (site.place found.1.2)) }

variable {site} {component : Component} {required : Bool} {builds : List BuildUnit}

theorem inspected_nil {linked : List BuildUnit} (h : linked.all (·.val.artifacts = []) = true) :
    site.inspected linked = [] := by
  refine flatMap_eq_nil_iff.mpr fun build hBuild => ?_
  have hNone : build.val.artifacts = [] := of_decide_eq_true (all_eq_true.mp h build hBuild)
  rw [artifactsOf, hNone]
  rfl

theorem expandCppBinaryCompat_isExpansion {planned : PlannedCheck} :
    IsExpansion planned (site.artifactPortions planned (linkedBuilds component builds))
      (site.expandCppBinaryCompat planned component builds) := by
  have hNil (h : site.inspected (linkedBuilds component builds) = []) :
      site.artifactPortions planned (linkedBuilds component builds) = [] := by
    unfold artifactPortions
    split
    · rfl
    · rw [h]
      rfl
  unfold expandCppBinaryCompat
  dsimp only
  by_cases hBuilds : component.val.buildIds = []
  · rw [if_pos hBuilds, hNil (by rw [linkedBuilds_nil hBuilds]; rfl)]
    exact .stopped (by decide)
  · rw [if_neg hBuilds]
    by_cases hContract : (linkedBuilds component builds).all (·.val.artifacts = []) = true
    · rw [if_pos hContract, hNil (inspected_nil hContract)]
      exact .stopped (by decide)
    · rw [if_neg hContract]
      cases hTool : site.locateTool (py "readelf") with
      | none =>
        rw [artifactPortions, hTool]
        exact .stopped (by decide)
      | some executable =>
        by_cases hNone : site.inspected (linkedBuilds component builds) = []
        · rw [hNil hNone]
          dsimp only
          rw [if_pos hNone]
          exact .stopped (by decide)
        · dsimp only
          rw [if_neg hNone]
          have hRun : IsExpansion planned (site.artifactPortions planned (linkedBuilds component builds))
              (planned.settleAll (site.artifactPortions planned (linkedBuilds component builds))) := by
            refine .settled fun hEmpty => hNone ?_
            rw [artifactPortions, hTool] at hEmpty
            exact zipIdx_eq_nil_iff.mp (map_eq_nil_iff.mp hEmpty)
          rw [settleAll, artifactPortions, hTool, List.mapM_map] at hRun
          rw [artifactPortions, hTool]
          exact hRun

theorem numbered_apart {build other : Text} {i j : ℕ}
    (h : build ++ py "-" ++ natDigits i = other ++ py "-" ++ natDigits j) : i = j := by
  have hDigits (n : ℕ) (between back : Text) : natDigits n ≠ between ++ 0x2d :: back := by
    intro hEq
    have hMem : (0x2d : CodePoint) ∈ natDigits n := by
      rw [hEq]
      exact mem_append_right _ mem_cons_self
    exact absurd (isDigit_of_mem_natDigits hMem) (by decide)
  rw [append_assoc, append_assoc] at h
  rcases Joining.append_cons_eq_iff.mp h with ⟨-, hEq⟩ | ⟨between, -, hEq⟩ | ⟨between, -, hEq⟩
  · exact natDigits_injective hEq
  · exact absurd hEq (hDigits _ _ _)
  · exact absurd hEq (hDigits _ _ _)

theorem artifactParts_nodup (planned : PlannedCheck) (linked : List BuildUnit) :
    ((site.artifactPortions planned linked).map (·.part)).Nodup := by
  unfold artifactPortions
  split
  · exact nodup_nil
  · have hNumbers : ((site.inspected linked).zipIdx.map Prod.snd).Nodup := by
      rw [zipIdx_map_snd]
      exact nodup_range'
    rw [List.map_map]
    refine (Nodup.of_map _ hNumbers).map_on fun found hFound other hOther hEq => ?_
    exact inj_on_of_nodup_map hNumbers hFound hOther (Nat.succ.inj (numbered_apart hEq))

theorem mem_artifactPortions {planned : PlannedCheck} {linked : List BuildUnit} {portion : Portion}
    (h : portion ∈ site.artifactPortions planned linked) :
    ∃ executable, site.locateTool (py "readelf") = some executable ∧ ∃ found ∈ site.inspected linked,
      portion.check = planned.check ∧ (∃ n, portion.part = found.1 ++ py "-" ++ natDigits n) ∧
        portion.command = .ok (site.binaryTask executable (site.place found.2)) := by
  unfold artifactPortions at h
  split at h
  · cases h
  · rename_i executable hTool
    obtain ⟨found, hFound, rfl⟩ := mem_map.mp h
    exact ⟨executable, hTool, found.1, (mem_zipIdx' hFound).2 ▸ getElem_mem _, rfl, ⟨_, rfl⟩, rfl⟩

theorem exists_mem_inspected {linked : List BuildUnit} {found : Text × Text}
    (h : found ∈ site.inspected linked) :
    ∃ build ∈ linked, build.val.id = found.1 := by
  obtain ⟨build, hBuild, hFound⟩ := mem_flatMap.mp h
  obtain ⟨path, -, rfl⟩ := mem_map.mp hFound
  exact ⟨build, hBuild, rfl⟩

end TestSite

def readPaths (checks : List PlannedCheck) : List Text :=
  checks.flatMap fun check => check.task.elim [] (·.task.val.inputRefs)

/-- The expansion of `cpp.binary-compat` keeps the identities of the binaries and inspects each once. -/
def ArtifactsKeepIdentities (site : TestSite) (component : Component) (builds : List BuildUnit)
    (required : Bool) : Prop :=
  ∃ checks, site.expandCppBinaryCompat (asked component cppBinaryCompatCheck required) component builds =
      .ok checks ∧
    KeepsIdentities component (asked component cppBinaryCompatCheck required)
      (site.artifactPortions (asked component cppBinaryCompatCheck required)
        (linkedBuilds component builds)) checks ∧
    (readPaths checks).Nodup

def portionPaths (portions : List Portion) : List Text :=
  portions.flatMap fun portion => portion.command.toOption.elim [] (·.inputRefs)

theorem readPaths_eq {planned : PlannedCheck} {portions : List Portion} {result : Result (List PlannedCheck)}
    (hResult : IsExpansion planned portions result) {checks : List PlannedCheck} (h : result = .ok checks) :
    readPaths checks = portionPaths portions := by
  cases hResult with
  | stopped hReason =>
    cases h
    rfl
  | settled hNone =>
    exact (carried_of_settleAll h).flatMap_task fun _ _ => rfl

section

variable {site : TestSite} {component : Component} {required : Bool} {planned : PlannedCheck}
  {linked : List BuildUnit}

theorem artifact_commands : ∀ portion ∈ site.artifactPortions planned linked, ∀ fields,
    portion.command = .ok fields → fields.dependsOn = [] ∧ fields.outputSpecs = [] := by
  intro portion hPortion fields hFields
  obtain ⟨executable, -, found, -, -, -, hCommand⟩ := mem_artifactPortions hPortion
  cases hFields.symm.trans hCommand
  exact ⟨rfl, rfl⟩

theorem loose_artifacts :
    AreLoose (site.artifactPortions (asked component cppBinaryCompatCheck required) linked) := by
  refine loose_of_bare (fun portion hPortion => ?_) fun portion hPortion fields hFields =>
    (artifact_commands portion hPortion fields hFields).1
  obtain ⟨-, -, -, -, hCheck, -⟩ := mem_artifactPortions hPortion
  rw [hCheck]
  rfl

theorem artifactParts_isIdentifier (hPlanned : IsIdentifier planned.taskId) :
    ∀ portion ∈ site.artifactPortions planned linked, IsIdentifier (planned.partId portion.part) := by
  intro portion hPortion
  obtain ⟨-, -, found, hFound, -, ⟨n, hPart⟩, -⟩ := mem_artifactPortions hPortion
  obtain ⟨build, -, hId⟩ := exists_mem_inspected hFound
  have hCons : planned.partId portion.part =
      planned.taskId ++ 0x2e :: (build.val.id ++ 0x2d :: natDigits n) := by
    rw [hPart, ← hId, partId, append_assoc, append_assoc]
    rfl
  rw [hCons, isIdentifier_append_iff hPlanned (by decide), isTail_append_iff build.id_isIdentifier.all (by
    decide)]
  exact isTail_natDigits n

theorem artifacts_fit_iff (hPlanned : IsIdentifier planned.taskId) :
    planned.Fits (site.artifactPortions planned linked) ↔
      ∀ executable ∈ site.locateTool (py "readelf"), ∀ found ∈ site.inspected linked,
        (site.binaryTask executable (site.place found.2)).Acceptable := by
  constructor
  · intro hFits executable hTool found hFound
    obtain ⟨i, hi, rfl⟩ := getElem_of_mem hFound
    have hPortion : { check := planned.check
                      contract := anyExit
                      part := (site.inspected linked)[i].1 ++ py "-" ++ natDigits (i + 1)
                      command := .ok (site.binaryTask executable (site.place (site.inspected linked)[i].2)) }
                        ∈
        site.artifactPortions planned linked := by
      rw [artifactPortions, hTool]
      exact mem_map.mpr ⟨((site.inspected linked)[i], i),
        mem_zipIdx_iff_getElem?.mpr (getElem?_eq_getElem hi), rfl⟩
    exact hFits.acceptable _ hPortion _ rfl
  · refine fun h => ⟨artifactParts_isIdentifier hPlanned, artifactParts_nodup _ _,
      fun portion hPortion fields hFields => ?_⟩
    obtain ⟨executable, hTool, found, hFound, -, -, hCommand⟩ := mem_artifactPortions hPortion
    cases hFields.symm.trans hCommand
    exact h executable hTool found hFound

theorem artifactPaths_nodup_iff : (portionPaths (site.artifactPortions planned linked)).Nodup ↔
    ∀ executable ∈ site.locateTool (py "readelf"), ((site.inspected linked).map (site.place ·.2)).Nodup := by
  cases hTool : site.locateTool (py "readelf") with
  | none =>
    rw [artifactPortions, hTool]
    exact iff_of_true nodup_nil fun executable h => nomatch h
  | some executable =>
    have hMap : portionPaths (site.artifactPortions planned linked) =
        (site.inspected linked).map (site.place ·.2) := by
      rw [artifactPortions, hTool, portionPaths, flatMap_map]
      refine (flatMap_pure_eq_map (fun found : (Text × Text) × ℕ => site.place found.1.2) _).trans ?_
      calc (site.inspected linked).zipIdx.map (fun found => site.place found.1.2)
          = ((site.inspected linked).zipIdx.map Prod.fst).map (site.place ·.2) := by rw [List.map_map]; rfl
        _ = (site.inspected linked).map (site.place ·.2) := by rw [zipIdx_map_fst]
    rw [hMap]
    simp

end

theorem artifactsKeepIdentities_iff {site : TestSite} {component : Component} {builds : List BuildUnit}
    {required : Bool} :
    ArtifactsKeepIdentities site component builds required ↔
      ∀ executable ∈ site.locateTool (py "readelf"),
        (∀ found ∈ site.inspected (linkedBuilds component builds),
          (site.binaryTask executable (site.place found.2)).Acceptable) ∧
        ((site.inspected (linkedBuilds component builds)).map (site.place ·.2)).Nodup := by
  have hMem : cppBinaryCompatCheck ∈ expandedChecks := by decide
  have hResult := @expandCppBinaryCompat_isExpansion site component builds
    (asked component cppBinaryCompatCheck required)
  have hOutputs : ∀ checks, (asked component cppBinaryCompatCheck required).settleAll
      (site.artifactPortions (asked component cppBinaryCompatCheck required)
        (linkedBuilds component builds)) = .ok checks →
        (ledOutputs (checks.filter startable)).Nodup := fun checks hRun =>
    ledOutputs_nil hRun fun portion hPortion fields hFields => (artifact_commands portion hPortion fields
      hFields).2
  have hKeeps := exists_keeps_iff hMem loose_artifacts hResult
  rw [and_iff_left hOutputs, artifacts_fit_iff (asked_isIdentifier hMem)] at hKeeps
  have hPaths := @artifactPaths_nodup_iff site (asked component cppBinaryCompatCheck required)
    (linkedBuilds component builds)
  constructor
  · rintro ⟨checks, hRun, hKept, hOnce⟩ executable hTool
    rw [readPaths_eq hResult hRun] at hOnce
    exact ⟨hKeeps.mp ⟨checks, hRun, hKept⟩ executable hTool, hPaths.mp hOnce executable hTool⟩
  · intro h
    obtain ⟨checks, hRun, hKept⟩ := hKeeps.mpr fun executable hTool => (h executable hTool).1
    refine ⟨checks, hRun, hKept, ?_⟩
    rw [readPaths_eq hResult hRun]
    exact hPaths.mpr fun executable hTool => (h executable hTool).2

end Ici

/-! ## When the expanded checks of a component keep their identities

Every expansion of a component's plan at once: suites, sanitized suites, binaries and cases. -/

namespace Ici

open List Python PlannedCheck

section

variable (isWord : CodePoint → Bool) (lower : Lowering) (workspace : Workspace) (site : TestSite)
  (cases : CaseSite) (effective : EffectiveComponent)

/-- Whatever is required, every expansion keeps the identities of its suites, binaries or cases. -/
structure KeepsAllIdentities (required : CheckDefinition → Bool) : Prop where
  tests : TestsKeepIdentities isWord site cases.component workspace.val.builds (required cppTestCheck)
  sanitized : ∀ pair ∈ sanitizers, SanitizerKeepsIdentities isWord site cases.component workspace.val.builds
    (required pair.1) pair.1 pair.2
  artifacts : ArtifactsKeepIdentities site cases.component workspace.val.builds (required
    cppBinaryCompatCheck)
  cases : CasesKeepIdentities lower cases effective (required integrationCasesCheck)

/-- What has to hold of the project files, the artifact contracts and the cases. -/
structure IdentitiesFit : Prop where
  resolves : ∀ build ∈ TestSite.linkedBuilds cases.component workspace.val.builds,
    Resolves isWord site.tree build
  names : NamesFit isWord site.tree (TestSite.linkedBuilds cases.component workspace.val.builds)
  tests : SuitesAcceptable isWord site.tree site.testCommand
    (TestSite.linkedBuilds cases.component workspace.val.builds)
  sanitized : ∀ pair ∈ sanitizers, SuitesAcceptable isWord site.tree (site.sanitizerCommand pair.2)
    (variantBuilds cases.component workspace.val.builds pair.2)
  artifacts : ∀ executable ∈ site.locateTool (py "readelf"),
    (∀ found ∈ site.inspected (TestSite.linkedBuilds cases.component workspace.val.builds),
      (site.binaryTask executable (site.place found.2)).Acceptable) ∧
    ((site.inspected (TestSite.linkedBuilds cases.component workspace.val.builds)).map (site.place ·.2)).Nodup
  cases : CaseSite.CasesFit lower cases effective.integrations

end

theorem NamesFit.mono {isWord : CodePoint → Bool} {tree : Checkout} {builds some : List BuildUnit}
    (h : NamesFit isWord tree builds) (hSome : some ⊆ builds) : NamesFit isWord tree some where
  tails build hBuild := h.tails build (hSome hBuild)
  once build hBuild := h.once build (hSome hBuild)
  apart a ha b hb := h.apart a (hSome ha) b (hSome hb)

theorem Workspace.buildIds_nodup (workspace : Workspace) : (workspace.val.builds.map (·.val.id)).Nodup :=
  (WorkspaceFields.check_eq_ok_iff.mp workspace.property).1.builds_nodup

/-- The expanded checks of a component are told apart exactly where the names they are made of fit. -/
theorem expansions_keep_identities_iff {isWord : CodePoint → Bool} {lower : Lowering} {workspace : Workspace}
    {site : TestSite} {cases : CaseSite} {effective : EffectiveComponent} {required : CheckDefinition → Bool}
    (hNames : (effective.integrations.map (·.name)).Nodup) :
    KeepsAllIdentities isWord lower workspace site cases effective required ↔
      IdentitiesFit isWord lower workspace site cases effective := by
  have hIds := workspace.buildIds_nodup
  constructor
  · rintro ⟨hTests, hSanitized, hArtifacts, hCases⟩
    obtain ⟨hResolves, hFit, hAcceptable⟩ := (testsKeepIdentities_iff hIds).mp hTests
    refine ⟨hResolves, hFit, hAcceptable, fun pair hPair => ?_, artifactsKeepIdentities_iff.mp hArtifacts,
      (casesKeepIdentities_iff hNames).mp hCases⟩
    exact ((sanitizerKeepsIdentities_iff hIds hPair).mp (hSanitized pair hPair)).2.2
  · rintro ⟨hResolves, hFit, hAcceptable, hSanitized, hArtifacts, hCases⟩
    refine ⟨(testsKeepIdentities_iff hIds).mpr ⟨hResolves, hFit, hAcceptable⟩, fun pair hPair => ?_,
      artifactsKeepIdentities_iff.mpr hArtifacts, (casesKeepIdentities_iff hNames).mpr hCases⟩
    exact (sanitizerKeepsIdentities_iff hIds hPair).mpr
      ⟨hResolves, hFit.mono (filter_subset_self _), hSanitized pair hPair⟩

/-! ## A project file that names its tests -/

def testTree (directory : Text) : Checkout where
  head path _ :=
    if path = py "app.pro" then some (py "SUBDIRS = " ++ directory)
    else if path = directory ++ py "/" ++ directory ++ py ".pro" then some (py "QT += testlib")
    else none
  isFile path := path = directory ++ py "/" ++ directory ++ py ".pro" ∨ path = py "build/" ++ directory
  glob _ _ := []
  resolve path := path

def mainBuild : BuildUnit :=
  ⟨{ id := py "main", system := py "qmake", variant := py "default", directory := py "build",
     definition := some (py "app.pro") }, by decide⟩

def uiComponent : Component :=
  ⟨{ id := py "ui", root := py ".", languages := [py "cpp"], buildIds := [py "main"] }, by decide⟩

def uiWorkspace : Workspace :=
  ⟨{ id := py "ws", name := py "ws", components := [uiComponent], builds := [mainBuild] }, by decide⟩

def uiTests (directory : Text) : TestSite where
  tree := testTree directory
  root := PurePath.parse (py "/ws")
  componentRoot := PurePath.parse (py "/ws")
  unit := none
  locateTool _ := none
  environ _ := []
  isElf _ := some false
  marked _ _ := none
  ctestBinaries _ := []

def uiCases (directory : Text) : CaseSite where
  tree := testTree directory
  root := PurePath.parse (py "/ws")
  componentRoot := PurePath.parse (py "/ws")
  component := uiComponent
  builds := [mainBuild]
  interpreter := none
  which _ := none
  resolveStrict _ := none
  clock _ := .fin 0

def uiEffective : EffectiveComponent where
  id := py "ui"
  root := ⟨py ".", defaultsOrigin, .root⟩
  languages := ⟨[py "cpp"], defaultsOrigin, .root⟩
  checks := []

theorem suiteNames_upper : suiteNames isNameCode (testTree (py "Tests")) mainBuild = [py "Tests"] := by decide

/-- A subdirectory in upper case gives a test an id that no task takes. -/
theorem upper_case_loses_identity :
    ¬KeepsAllIdentities isNameCode id uiWorkspace (uiTests (py "Tests")) (uiCases (py "Tests")) uiEffective
      fun _ => true := by
  intro h
  obtain ⟨-, hFit, -⟩ := (testsKeepIdentities_iff uiWorkspace.buildIds_nodup).mp h.tests
  have hTail : IsTail (py "Tests") := by
    refine hFit.tails mainBuild (by decide) _ ?_
    show py "Tests" ∈ suiteNames isNameCode (testTree (py "Tests")) mainBuild
    rw [suiteNames_upper]
    exact mem_singleton_self _
  exact absurd hTail (by decide)

def smokeCase (name : Text) : EffectiveIntegrationCase where
  name := name
  argv := [py "\x7bpython:declared\x7d"]
  expectedExit := 0
  stdoutContains := []
  stderrContains := []
  stdoutNotContains := []
  stderrNotContains := []
  timeoutSeconds := Double.ofRat 30
  env := []
  requires := []
  pythonTargets := []
  outputArtifacts := []
  required := true
  declaredIn := py "ici.toml"

def smokeEffective : EffectiveComponent :=
  { uiEffective with integrations := [smokeCase (py "smoke test"), smokeCase (py "smoke-test")] }

theorem linkedBuilds_ui : TestSite.linkedBuilds uiComponent uiWorkspace.val.builds = [mainBuild] := by decide

theorem suiteNames_lower : suiteNames isNameCode (testTree (py "tests")) mainBuild = [py "tests"] := by decide

theorem namesFit_lower : NamesFit isNameCode (testTree (py "tests")) [mainBuild] where
  tails build hBuild name hName := by
    rw [mem_singleton.mp hBuild, suiteNames_lower] at hName
    rw [mem_singleton.mp hName]
    decide
  once build hBuild := by
    rw [mem_singleton.mp hBuild, suiteNames_lower]
    exact nodup_singleton _
  apart a ha b hb between hBetween := by
    rw [mem_singleton.mp ha, mem_singleton.mp hb] at hBetween
    have hLength := congrArg List.length hBetween
    simp at hLength

theorem testsAcceptable_lower : SuitesAcceptable isNameCode (testTree (py "tests"))
    (uiTests (py "tests")).testCommand [mainBuild] := by
  intro build hBuild suite hSuite fields hFields
  have hSuites : suitesOf isNameCode (testTree (py "tests")) mainBuild =
      [{ id := py "main-tests", kind := .qtest, buildId := py "main", buildDir := py "build",
         binary := py "tests", conditional := false }] := by decide
  rw [mem_singleton.mp hBuild, hSuites] at hSuite
  obtain rfl := mem_singleton.mp hSuite
  have hTask : (uiTests (py "tests")).testCommand
      { id := py "main-tests", kind := .qtest, buildId := py "main", buildDir := py "build",
        binary := py "tests", conditional := false } =
      .ok ((uiTests (py "tests")).testTask (py "qtest") [py "/ws/build/tests"]) := by decide
  cases hTask.symm.trans hFields
  decide

theorem lower_case_fits :
    IdentitiesFit isNameCode id uiWorkspace (uiTests (py "tests")) (uiCases (py "tests")) smokeEffective where
  resolves build hBuild := by
    rw [show build = mainBuild from mem_singleton.mp (mem_of_mem_filter hBuild)]
    exact ⟨_, rfl⟩
  names := linkedBuilds_ui ▸ namesFit_lower
  tests := linkedBuilds_ui ▸ testsAcceptable_lower
  sanitized pair hPair build hBuild := by
    have hNone : ∀ pair ∈ sanitizers, variantBuilds uiComponent uiWorkspace.val.builds pair.2 = [] :=
      by decide
    have hNothing : build ∈ variantBuilds uiComponent uiWorkspace.val.builds pair.2 := hBuild
    rw [hNone pair hPair] at hNothing
    cases hNothing
  artifacts executable hTool := nomatch hTool
  cases := by
    refine ⟨fun declared hDeclared => ?_, by decide, by decide⟩
    have hCases : declared = smokeCase (py "smoke test") ∨ declared = smokeCase (py "smoke-test") := by
      simpa [smokeEffective] using hDeclared
    rcases hCases with rfl | rfl
    all_goals exact ⟨.error _, rfl, fun _ h => nomatch h⟩

/-- Lower-case names keep their identities, and equal slugs are numbered. -/
theorem lower_case_keeps_identities :
    KeepsAllIdentities isNameCode id uiWorkspace (uiTests (py "tests")) (uiCases (py "tests")) smokeEffective
      fun _ => true :=
  (expansions_keep_identities_iff (by decide)).mpr lower_case_fits

end Ici
