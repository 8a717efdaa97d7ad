import Ici.Workspace.Model

/-! # When a composed configuration becomes a model or a diagnosis

Units and components are constructed outside the handler, so what their constructors refuse gets out
as it is. What the handler sees is diagnosed. -/

namespace Ici.WorkspaceModel

open Option List Python Raising EffectiveConfig Json Checked

/-! ## What the constructors want -/

structure BuildFits (item : EffectiveBuild) : Prop where
  id : IsIdentifier item.id
  system : ∀ system ∈ item.system, IsIdentifier system.value
  variant : IsIdentifier item.variant.value
  directory : ∃ directory ∈ item.directory, IsBelowRoot directory.value
  definition : ∀ definition ∈ item.definition, IsBelowRoot definition.value
  artifacts : ∀ glob ∈ item.artifacts, IsBelowRoot glob

structure ComponentFits (item : EffectiveComponent) : Prop where
  id : IsIdentifier item.id
  root : IsRelativePath item.root.value
  languages : ∀ language ∈ item.languages.value, IsIdentifier language
  languages_nodup : item.languages.value.Nodup
  languages_ne : item.languages.value ≠ []
  sources : ∀ glob ∈ item.sources, IsBelowRoot glob
  build : ∀ build ∈ item.build, IsIdentifier build.value
  testPaths : ∀ path ∈ item.testPaths, IsBelowRoot path
  needs : ∀ needs ∈ item.needs, (∀ need ∈ needs.value, IsIdentifier need) ∧ needs.value.Nodup ∧
    item.id ∉ needs.value
  include' : ∀ glob ∈ item.include', IsBelowRoot glob
  exclude : ∀ glob ∈ item.exclude, IsBelowRoot glob
  vendor : ∀ glob ∈ item.vendor, IsBelowRoot glob
  external : ∀ external ∈ item.external, ∀ input ∈ external.value, IsText input

structure Fits (config : EffectiveConfig) : Prop where
  builds : ∀ item ∈ config.builds, BuildFits item
  components : ∀ item ∈ config.components, ComponentFits item

section Constructing

variable {build : EffectiveBuild} {effective : EffectiveComponent}

theorem originOf_eq_ok {file : Text} (h : file ≠ []) : originOf file = .ok { file := file, file_ne := h } :=
  dif_neg h

theorem namedSystem_eq_ok (h : build.declaredIn ≠ []) :
    ∃ problems, namedSystem build = .ok ((build.system.map (·.value)).getD (py "explicit"), problems) := by
  unfold namedSystem
  cases build.system with
  | some system => exact ⟨_, rfl⟩
  | none => exact ⟨_, step (originOf_eq_ok h) rfl⟩

theorem namedDirectory_eq_ok (h : build.declaredIn ≠ []) :
    ∃ problems, namedDirectory build = .ok ((build.directory.map (·.value)).getD (py "."), problems) := by
  unfold namedDirectory
  cases build.directory with
  | some directory => exact ⟨_, rfl⟩
  | none => exact ⟨_, step (originOf_eq_ok h) rfl⟩

def buildFields (item : EffectiveBuild) : BuildUnitFields where
  id := item.id
  system := (item.system.map (·.value)).getD (py "explicit")
  variant := item.variant.value
  directory := (item.directory.map (·.value)).getD (py ".")
  definition := item.definition.map (·.value)
  artifacts := item.artifacts

theorem buildFields_pass_iff : (buildFields build).check = .ok () ↔ BuildFits build := by
  rw [BuildUnitFields.check_eq_ok_iff]
  simp only [buildFields]
  constructor
  · rintro ⟨hId, hSystem, hVariant, hDirectory, hDefinition, _, hArtifacts⟩
    refine ⟨hId, ?_, hVariant, ?_, ?_, hArtifacts⟩
    · rintro system hSome
      rwa [mem_def.mp hSome, map_some, getD_some] at hSystem
    · cases hSome : build.directory with
      | none =>
        rw [hSome] at hDirectory
        exact absurd rfl hDirectory.2
      | some directory =>
        rw [hSome] at hDirectory
        exact ⟨directory, rfl, hDirectory⟩
    · exact fun definition hSome => hDefinition _ (Option.mem_map_of_mem _ hSome)
  · rintro ⟨hId, hSystem, hVariant, ⟨directory, hDirectory, hBelow⟩, hDefinition, hArtifacts⟩
    refine ⟨hId, ?_, hVariant, ?_, ?_, by simp, hArtifacts⟩
    · cases hSome : build.system with
      | none => exact (by decide : IsIdentifier (py "explicit"))
      | some system => exact hSystem system hSome
    · rwa [mem_def.mp hDirectory, map_some, getD_some]
    · intro definition hSome
      obtain ⟨declared, hDeclared, rfl⟩ := Option.mem_map.mp hSome
      exact hDefinition declared hDeclared

theorem exists_buildUnit_iff (h : build.declaredIn ≠ []) :
    (∃ made, buildUnit build = .ok made) ↔ BuildFits build := by
  obtain ⟨_, hSystem⟩ := namedSystem_eq_ok h
  obtain ⟨_, hDirectory⟩ := namedDirectory_eq_ok h
  rw [← buildFields_pass_iff, ← exists_construct_iff]
  constructor
  · rintro ⟨made, hMade⟩
    obtain ⟨system, hNamed, hMade⟩ := bind_eq_ok.mp hMade
    cases hSystem.symm.trans hNamed
    obtain ⟨directory, hPlaced, hMade⟩ := bind_eq_ok.mp hMade
    cases hDirectory.symm.trans hPlaced
    obtain ⟨unit, hUnit, _⟩ := bind_eq_ok.mp hMade
    exact ⟨unit, hUnit⟩
  · rintro ⟨unit, hUnit⟩
    exact ⟨_, step hSystem (step hDirectory (step hUnit rfl))⟩

theorem id_buildUnit {made : BuildUnit × List ConfigProblem} (h : buildUnit build = .ok made) :
    made.1.val.id = build.id := by
  obtain ⟨_, -, h⟩ := bind_eq_ok.mp h
  obtain ⟨_, -, h⟩ := bind_eq_ok.mp h
  obtain ⟨unit, hUnit, hMade⟩ := bind_eq_ok.mp h
  cases hMade
  rw [construct_eq_ok_iff.mp hUnit]

theorem exists_component_iff : (∃ made, component effective = .ok made) ↔ ComponentFits effective := by
  rw [component, exists_construct_iff, ComponentFields.check_eq_ok_iff]
  simp only [componentFields]
  constructor
  · rintro ⟨hId, hRoot, ⟨hLanguages, hNodup⟩, hSome, hSources, ⟨hBuild, _⟩, hTests, ⟨hNeeds, hUnique⟩,
      hSelf, hInclude, hExclude, hVendor, hExternal⟩
    refine ⟨hId, hRoot, hLanguages, hNodup, hSome, (sources_pass_iff hRoot).mp hSources, ?_, hTests, ?_,
      hInclude, hExclude, hVendor, ?_⟩
    · intro build hBuilt
      exact hBuild build.value (by simp [mem_def.mp hBuilt])
    · intro needs hNeed
      rw [mem_def.mp hNeed] at hNeeds hUnique hSelf
      exact ⟨hNeeds, hUnique, hSelf⟩
    · intro external hGiven
      rw [mem_def.mp hGiven] at hExternal
      exact hExternal
  · intro h
    refine ⟨h.id, h.root, ⟨h.languages, h.languages_nodup⟩, h.languages_ne,
      (sources_pass_iff h.root).mpr h.sources, ⟨?_, ?_⟩, h.testPaths, ⟨?_, ?_⟩, ?_, h.include', h.exclude,
      h.vendor, ?_⟩
    · intro id hBuilt
      obtain ⟨build, hBuild, rfl⟩ := Option.mem_map.mp (mem_toList.mp hBuilt)
      exact h.build build hBuild
    · cases effective.build <;> simp
    · cases hNeeds : effective.needs with
      | none => simp
      | some needs => exact (h.needs needs hNeeds).1
    · cases hNeeds : effective.needs with
      | none => simp
      | some needs => exact (h.needs needs hNeeds).2.1
    · cases hNeeds : effective.needs with
      | none => simp
      | some needs => exact (h.needs needs hNeeds).2.2
    · cases hExternal : effective.external with
      | none => simp
      | some external => exact h.external external hExternal

end Constructing

theorem raises_units (components : List Component) (config : EffectiveConfig) :
    RaisesSpoken (units components config) :=
  Raises.mapM fun _ _ => spoken_construct (spoken_analysisUnitCheck rfl)

theorem spoken_utf8 (t : Text) : RaisesSpoken (utf8 t) := by
  refine .ite (fun _ => .error ⟨rfl, ?_⟩) fun _ => .ok _
  simp only [encodeError]
  split <;> simp [py]

theorem leavesOfItems_map {α : Type} {f : α → Json} {holds : Json.Leaf → Prop}
    (h : ∀ a, ∀ leaf ∈ (f a).leaves, holds leaf) (l : List α) :
    ∀ leaf ∈ leavesOfItems (l.map f), holds leaf := by
  induction l with
  | nil => exact fun _ hLeaf => (nomatch hLeaf)
  | cons a rest ih =>
    intro leaf hLeaf
    rw [map_cons, leavesOfItems, mem_append] at hLeaf
    exact hLeaf.elim (h a leaf) (ih leaf)

theorem exists_encode_policyPayload (config : EffectiveConfig) :
    ∃ encoded, config.policyPayload.encode identityStyle = .ok encoded := by
  have hText : ∀ t, ∀ leaf ∈ (str t).leaves, leaf.IsPrintable identityStyle := by
    simp [leaves, Json.Leaf.IsPrintable]
  have hCheck : ∀ check, ∀ leaf ∈ (checkPayload check).leaves,
      leaf.IsPrintable identityStyle := by
    simp [checkPayload, leaves, leavesOfFields, Json.Leaf.IsPrintable]
  have hSuppression : ∀ item, ∀ leaf ∈ (suppressionPayload item).leaves,
      leaf.IsPrintable identityStyle := by
    simp [suppressionPayload, leaves, leavesOfFields, Json.Leaf.IsPrintable]
  have hComponent : ∀ component, ∀ leaf ∈ (componentPayload component).leaves,
      leaf.IsPrintable identityStyle := by
    intro component leaf hLeaf
    simp only [componentPayload, leaves, leavesOfFields, mem_cons,
      cons_append, mem_append, append_nil, nil_append] at hLeaf
    rcases hLeaf with rfl | rfl | rfl | hLeaf | rfl | hLeaf
    · trivial
    · trivial
    · trivial
    · exact leavesOfItems_map hText _ leaf hLeaf
    · trivial
    · exact leavesOfItems_map hCheck _ leaf hLeaf
  rw [exists_encode_iff]
  intro leaf hLeaf
  simp only [policyPayload, leaves, leavesOfFields, mem_cons,
    cons_append, mem_append, append_nil] at hLeaf
  rcases hLeaf with rfl | hLeaf | rfl | hLeaf | rfl | hLeaf
  · trivial
  · exact leavesOfItems_map hCheck _ leaf hLeaf
  · trivial
  · exact leavesOfItems_map hComponent _ leaf hLeaf
  · trivial
  · exact leavesOfItems_map hSuppression _ leaf hLeaf

theorem spoken_policyDigest (sha256 : Sha256) (config : EffectiveConfig) :
    RaisesSpoken (config.policyDigest sha256) := by
  obtain ⟨encoded, hEncoded⟩ := exists_encode_policyPayload config
  unfold policyDigest
  rw [hEncoded]
  exact (Raises.ok _).bind fun _ => (spoken_utf8 _).bind fun _ => .ok _

theorem spoken_assemble (sha256 : Sha256) (lower : Lowering) (config : EffectiveConfig)
    (builds : List BuildUnit) (components : List Component) :
    RaisesSpoken (assemble sha256 lower config builds components) :=
  (raises_units components config).bind fun _ =>
    (spoken_policyDigest sha256 config).bind fun _ => spoken_construct (spoken_workspaceCheck _)

theorem diagnose_spoken (problems : List ConfigProblem) {e : PyError} (h : IsSpoken e) :
    ∃ problem, diagnose problems e = .diagnosed (problems ++ [problem]) := by
  unfold diagnose problemOf
  rw [if_pos h.value, dif_neg h.text_ne]
  exact ⟨_, rfl⟩

/-! ## What is built -/

def analysed (workspace : Workspace) : List (Text × Text) :=
  workspace.val.analysisUnits.map fun unit => (unit.val.componentId, unit.val.language)

def declared (config : EffectiveConfig) : List (Text × Text) :=
  config.components.flatMap fun item => item.languages.value.map fun language => (item.id, language)

structure Mirrors (root : RootDocument) (config : EffectiveConfig) (workspace : Workspace) : Prop where
  components : workspace.val.componentIds = config.components.map (·.id)
  components_once : workspace.val.componentIds.Nodup
  builds : workspace.val.buildIds = root.builds.map (·.id)
  builds_once : workspace.val.buildIds.Nodup
  units : analysed workspace = declared config
  units_once : (analysed workspace).Nodup

/-- A workspace that mirrors what was declared, or a diagnosis that says something. -/
inductive IsModelOrDiagnosis (root : RootDocument) (config : EffectiveConfig) :
    Except BuildFailure Workspace → Prop
  | model {workspace : Workspace} (h : Mirrors root config workspace) :
    IsModelOrDiagnosis root config (.ok workspace)
  | diagnosis {problems : List ConfigProblem} (h : problems ≠ []) :
    IsModelOrDiagnosis root config (.error (.diagnosed problems))

section Composed

variable {root : RootDocument} {children : Dict Text ComponentDocument} {overlay : LocalOverlay}
  {environment : Environment} {config : EffectiveConfig}

section

variable (h : compose root children overlay environment = .ok config)
include h

theorem compose_builds : config.builds = root.builds.map fun declaration =>
      (composeBuild declaration (PurePath.parse root.path).parent overlay environment).value := by
  obtain ⟨_, rfl⟩ := Reported.collect_eq_ok_iff.mp h
  rfl

theorem id_builds : config.builds.map (·.id) = root.builds.map (·.id) := by
  rw [compose_builds h, List.map_map]
  rfl

theorem declaredIn_builds : ∀ item ∈ config.builds, item.declaredIn ≠ [] := by
  intro item hItem
  rw [compose_builds h] at hItem
  obtain ⟨declaration, _, rfl⟩ := mem_map.mp hItem
  exact declaration.origin.file_ne

end

end Composed

variable {components : List Component} {sha256 : Sha256} {lower : Lowering}

theorem units_analysed {config : EffectiveConfig} {made : List AnalysisUnit}
    (h : units components config = .ok made) :
    made.map (fun unit => (unit.val.componentId, unit.val.language)) =
      components.flatMap fun component =>
        component.val.languages.map fun language => (component.val.id, language) := by
  have hMade : made.map (fun unit => (unit.val.componentId, unit.val.language)) =
      (unitPairs components).map fun pair => (pair.1.val.id, pair.2) := by
    refine map_of_mapM (fun pair unit hUnit => ?_) h
    rw [construct_eq_ok_iff.mp hUnit]
    rfl
  rw [hMade, unitPairs, map_flatMap]
  simp only [List.map_map, Function.comp_def]

theorem components_fields {items : List EffectiveComponent} {made : List Component}
    (h : items.mapM component = .ok made) : made.map (·.val) = items.map componentFields :=
  map_of_mapM (fun _ _ hMade => construct_eq_ok_iff.mp hMade) h

theorem builds_ids {items : List EffectiveBuild} {made : List (BuildUnit × List ConfigProblem)}
    (h : items.mapM buildUnit = .ok made) : made.map (·.1.val.id) = items.map (·.id) :=
  map_of_mapM (fun _ _ hMade => id_buildUnit hMade) h

theorem nodup_languages (h : (components.map (·.val.id)).Nodup) : (components.flatMap fun component =>
      component.val.languages.map fun language => (component.val.id, language)).Nodup := by
  rw [nodup_flatMap]
  constructor
  · intro component _
    have hLanguages := (ComponentFields.check_eq_ok_iff.mp component.property).2.2.1.2
    exact hLanguages.map fun _ _ hSame => (Prod.mk.inj hSame).2
  · refine (pairwise_map.mp h).imp fun hOther pair hFirst hSecond => ?_
    obtain ⟨_, _, rfl⟩ := mem_map.mp hFirst
    obtain ⟨_, _, hSame⟩ := mem_map.mp hSecond
    exact hOther (Prod.mk.inj hSame).1.symm

variable {root : RootDocument} {config : EffectiveConfig}

theorem mirrors_assemble {builds : List (BuildUnit × List ConfigProblem)} {workspace : Workspace}
    (hIds : config.builds.map (·.id) = root.builds.map (·.id))
    (hBuilds : config.builds.mapM buildUnit = .ok builds)
    (hComponents : config.components.mapM component = .ok components)
    (h : assemble sha256 lower config (builds.map (·.1)) components = .ok workspace) :
    Mirrors root config workspace := by
  obtain ⟨analysisUnits, hUnits, h⟩ := bind_eq_ok.mp h
  obtain ⟨digest, _, h⟩ := bind_eq_ok.mp h
  have hFields := construct_eq_ok_iff.mp h
  have hSound := (WorkspaceFields.check_eq_ok_iff.mp workspace.property).1
  have hComponentIds : workspace.val.componentIds = config.components.map (·.id) := by
    have hAll := congrArg (List.map ComponentFields.id) (components_fields hComponents)
    rw [List.map_map, List.map_map] at hAll
    rw [hFields]
    exact hAll
  have hBuildIds : workspace.val.buildIds = root.builds.map (·.id) := by
    rw [hFields, ← hIds, ← builds_ids hBuilds]
    exact List.map_map
  have hAnalysed : analysed workspace = components.flatMap fun component =>
      component.val.languages.map fun language => (component.val.id, language) := by
    rw [analysed, hFields]
    exact units_analysed hUnits
  have hDeclared : analysed workspace = declared config := by
    have hAll := congrArg (List.flatMap fun fields : ComponentFields =>
      fields.languages.map fun language => (fields.id, language)) (components_fields hComponents)
    rw [flatMap_map, flatMap_map] at hAll
    rw [hAnalysed, hAll]
    rfl
  refine ⟨hComponentIds, hSound.components_nodup, hBuildIds, hSound.builds_nodup, hDeclared, ?_⟩
  rw [hAnalysed]
  apply nodup_languages
  have hNodup := hSound.components_nodup
  rwa [hFields] at hNodup

/-! ## Nothing gets out -/

theorem fits_of_steps {config : EffectiveConfig} (hFiles : ∀ item ∈ config.builds, item.declaredIn ≠ []) :
    Fits config ↔ (∃ builds, config.builds.mapM buildUnit = .ok builds) ∧
      ∃ components, config.components.mapM component = .ok components := by
  rw [exists_mapM_eq_ok, exists_mapM_eq_ok]
  constructor
  · intro h
    exact ⟨fun item hItem => (exists_buildUnit_iff (hFiles item hItem)).mpr (h.builds item hItem),
      fun item hItem => exists_component_iff.mpr (h.components item hItem)⟩
  · rintro ⟨hBuilds, hComponents⟩
    exact ⟨fun item hItem => (exists_buildUnit_iff (hFiles item hItem)).mp (hBuilds item hItem),
      fun item hItem => exists_component_iff.mp (hComponents item hItem)⟩

theorem isModelOrDiagnosis_of_fits (hIds : config.builds.map (·.id) = root.builds.map (·.id))
    (hFiles : ∀ item ∈ config.builds, item.declaredIn ≠ []) (h : Fits config) :
    IsModelOrDiagnosis root config (build sha256 lower config) := by
  obtain ⟨⟨builds, hBuilds⟩, components, hComponents⟩ := (fits_of_steps hFiles).mp h
  have hBuild : build sha256 lower config = (do
      let problems := builds.flatMap (·.2)
      let workspace ← (assemble sha256 lower config (builds.map (·.1)) components).mapError
        (diagnose problems)
      if problems = [] then .ok workspace else .error (.diagnosed problems)) := by
    rw [build, hBuilds, hComponents]
    rfl
  rw [hBuild]
  cases hAssemble : assemble sha256 lower config (builds.map (·.1)) components with
  | ok workspace =>
    by_cases hNone : builds.flatMap (·.2) = []
    · simp only [hNone, if_true]
      exact .model (mirrors_assemble hIds hBuilds hComponents hAssemble)
    · simp only [hNone, if_false]
      exact .diagnosis hNone
  | error e =>
    obtain ⟨problem, hProblem⟩ := diagnose_spoken (builds.flatMap (·.2))
      (spoken_assemble sha256 lower config _ _ e hAssemble)
    simp only [Except.mapError, hProblem]
    exact .diagnosis (append_ne_nil_of_right_ne_nil _ (cons_ne_nil problem []))

theorem fits_of_isModelOrDiagnosis (hFiles : ∀ item ∈ config.builds, item.declaredIn ≠ [])
    (h : IsModelOrDiagnosis root config (build sha256 lower config)) : Fits config := by
  rw [fits_of_steps hFiles]
  cases hBuilds : config.builds.mapM buildUnit with
  | error e =>
    rw [build, hBuilds] at h
    cases h
  | ok builds =>
    cases hComponents : config.components.mapM component with
    | error e =>
      rw [build, hBuilds, hComponents] at h
      cases h
    | ok components => exact ⟨⟨builds, rfl⟩, components, rfl⟩

/-- A composed configuration becomes a model or a diagnosis exactly when the constructors that stand
outside the handler accept what was composed. -/
theorem build_explains_iff {sha256 : Sha256} {lower : Lowering} {root : RootDocument}
    {children : Dict Text ComponentDocument} {overlay : LocalOverlay} {environment : Environment}
    {config : EffectiveConfig} (h : compose root children overlay environment = .ok config) :
    IsModelOrDiagnosis root config (build sha256 lower config) ↔ Fits config :=
  ⟨fits_of_isModelOrDiagnosis (declaredIn_builds h),
    isModelOrDiagnosis_of_fits (id_builds h) (declaredIn_builds h)⟩

section Demo

def demoOrigin : Origin := .inRoot []

def demoRoot (directory : Text) : RootDocument where
  path := py "ici.toml"
  builds := [{
    id := py "native"
    system := some ⟨py "cmake", demoOrigin⟩
    directory := some ⟨directory, demoOrigin⟩
    origin := demoOrigin }]
  components := [.inline {
    id := some ⟨py "app", demoOrigin⟩
    root := some ⟨py ".", demoOrigin⟩
    languages := some ⟨[py "cpp"], demoOrigin⟩
    build := some ⟨py "native", demoOrigin⟩
    origin := demoOrigin }]

def demoConfig (directory : Text) : EffectiveConfig :=
  (composeWorkspace (demoRoot directory) [] LocalOverlay.empty []).value

theorem compose_demo {directory : Text}
    (h : (composeWorkspace (demoRoot directory) [] LocalOverlay.empty []).reports = []) :
    compose (demoRoot directory) [] LocalOverlay.empty [] = .ok (demoConfig directory) :=
  Reported.collect_eq_ok_iff.mpr ⟨h, rfl⟩

theorem fits_demo : Fits (demoConfig (py "out")) := by
  constructor
  · have hAll : ∀ item ∈ (demoConfig (py "out")).builds, (buildFields item).check = .ok () := by decide
    exact fun item hItem => buildFields_pass_iff.mp (hAll item hItem)
  · have hAll : ∀ item ∈ (demoConfig (py "out")).components, (componentFields item).check = .ok () := by
      decide
    exact fun item hItem => exists_component_iff.mp (exists_construct_iff.mpr (hAll item hItem))

theorem build_below_root_explains : IsModelOrDiagnosis (demoRoot (py "out")) (demoConfig (py "out"))
      (build (fun _ => []) id (demoConfig (py "out"))) :=
  (build_explains_iff (compose_demo (by decide))).mpr fits_demo

theorem directory_at_root :
    ∀ item ∈ (demoConfig (py ".")).builds, item.directory.map (·.value) = some (py ".") := by decide

theorem not_fits_at_root : ¬Fits (demoConfig (py ".")) := by
  intro hFits
  obtain ⟨item, hItem⟩ := exists_mem_of_ne_nil (demoConfig (py ".")).builds (by decide)
  obtain ⟨directory, hDirectory, hBelow⟩ := (hFits.builds item hItem).directory
  have hRoot := directory_at_root item hItem
  rw [mem_def.mp hDirectory] at hRoot
  exact hBelow.2 (some.inj hRoot)

theorem compose_at_root : compose (demoRoot (py ".")) [] LocalOverlay.empty [] = .ok (demoConfig (py ".")) :=
  compose_demo (by decide)

/-- A build at the workspace root passes composition; the constructor of the unit refuses it. -/
theorem build_at_root_escapes :
    ¬∀ (sha256 : Sha256) (lower : Lowering) (root : RootDocument) (children : Dict Text ComponentDocument)
      (overlay : LocalOverlay) (environment : Environment) (config : EffectiveConfig),
      compose root children overlay environment = .ok config →
        IsModelOrDiagnosis root config (build sha256 lower config) := by
  intro hAll
  apply not_fits_at_root
  apply fits_of_isModelOrDiagnosis (declaredIn_builds compose_at_root)
  exact hAll (fun _ => []) id _ _ _ _ _ compose_at_root

end Demo

end Ici.WorkspaceModel
