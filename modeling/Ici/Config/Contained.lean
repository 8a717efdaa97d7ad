import Ici.Config.Composition

/-! # Paths that stay inside the workspace

Roots of components and outputs of integration cases may not leave the workspace. Globs, external
inputs and interpreters may, and are not among the contained paths. -/

namespace Ici

open List Python Reported PurePath

structure IsContained (value : Text) : Prop where
  relative : PurePosixPath.isAbsolute value = false
  canonical : (parse value).asPosix = value
  no_parent : py ".." ∉ (parse value).parts
  inside : ∀ base : PurePath, (base.join (parse value)).relativeTo base = some (parse value)

theorem isContained_asPosix {path : PurePath} (hRelative : path.root = .relative)
    (hParent : py ".." ∉ path.parts) : IsContained path.asPosix where
  relative := by
    rw [isAbsolute_asPosix, isAbsolute, hRelative]
    rfl
  canonical := by rw [parse_asPosix]
  no_parent := by rwa [parse_asPosix]
  inside base := by rw [parse_asPosix, relativeTo_join hRelative]

theorem isContained_dot : IsContained (py ".") :=
  @isContained_asPosix (parse (py ".")) (by decide) (by decide)

theorem isContained_insideOf {anchored base relative : PurePath}
    (h : insideOf anchored base = some relative) : IsContained relative.asPosix := by
  obtain ⟨hRelative, hParent⟩ := Option.filter_eq_some_iff.mp h
  exact isContained_asPosix (relativeTo_eq_some hRelative).1 (of_decide_eq_true hParent)

theorem isContained_anchor {declared : Option DeclaredPath} {file : Text} {workspaceDir : PurePath}
    {environment : Environment} {what : Text}
    (h : (anchor declared file workspaceDir environment what).reports = []) :
    IsContained (anchor declared file workspaceDir environment what).value := by
  cases declared with
  | none => exact isContained_dot
  | some declared =>
    simp only [anchor, value_bind, reports_bind] at h ⊢
    obtain ⟨-, hRest⟩ := append_eq_nil_iff.mp h
    split
    · exact isContained_dot
    · rename_i hBase
      rw [if_neg hBase] at hRest
      split
      · rename_i relative hInside
        exact isContained_insideOf hInside
      · rename_i hOutside
        rw [hOutside] at hRest
        cases hRest

def EffectiveComponent.containedPaths (component : EffectiveComponent) : List Text :=
  component.root.value :: component.integrations.flatMap fun declared =>
    declared.outputArtifacts.map (·.path)

section

variable {workspaceDir : PurePath} {environment : Environment}

variable {declaredIn : Text} {declared : IntegrationCaseBody} {effective : EffectiveIntegrationCase}

theorem isContained_integrationOutput {caseName : Text} {output : IntegrationOutputBody}
    {effective : EffectiveIntegrationOutput}
    (h : (integrationOutput caseName declaredIn workspaceDir environment output).reports = [])
    (hValue : (integrationOutput caseName declaredIn workspaceDir environment output).value =
      some effective) : IsContained effective.path := by
  unfold integrationOutput at h hValue
  cases hPath : output.path with
  | none =>
    rw [hPath] at hValue
    cases hValue
  | some declared =>
    rw [hPath] at h hValue
    simp only [reports_bind, reports_pure, append_nil] at h
    cases hValue
    exact isContained_anchor h

theorem integrationCase_eq_some
    (h : (integrationCase declaredIn workspaceDir environment declared).value = some effective) :
    ∃ name argv, declared.name = some name ∧ declared.argv = some argv := by
  unfold integrationCase at h
  cases hName : declared.name with
  | none =>
    rw [hName] at h
    cases h
  | some name =>
    cases hArgv : declared.argv with
    | none =>
      rw [hName, hArgv] at h
      cases h
    | some argv => exact ⟨name, argv, rfl, rfl⟩

theorem isContained_integrationCase
    (h : (integrationCase declaredIn workspaceDir environment declared).reports = [])
    (hValue : (integrationCase declaredIn workspaceDir environment declared).value = some effective) :
    ∀ output ∈ effective.outputArtifacts, IsContained output.path := by
  obtain ⟨name, argv, hName, hArgv⟩ := integrationCase_eq_some hValue
  simp only [integrationCase, hName, hArgv] at h hValue
  simp only [reports_bind, reports_pure, append_nil] at h
  cases hValue
  intro output hOutput
  obtain ⟨found, hFound, hSome⟩ := mem_filterMap.mp hOutput
  obtain ⟨body, hBody, rfl⟩ := mem_map.mp hFound
  have hReports := each_eq_nil_iff.mp (append_eq_nil_iff.mp h).2 body hBody
  exact isContained_integrationOutput hReports hSome

theorem isContained_composeComponent {context : CompositionContext} {identifier : Option Text}
    {body : ComponentBody}
    (h : (composeComponent context identifier body declaredIn).reports = []) :
    ∀ value ∈ (composeComponent context identifier body declaredIn).value.containedPaths,
      IsContained value := by
  simp only [composeComponent, reports_bind, append_eq_nil_iff] at h
  obtain ⟨-, -, -, hRoot, -, -, -, -, hIntegrations, -⟩ := h
  simp only [composeIntegrations, reports_bind, reports_pure, append_nil]
    at hIntegrations
  intro value hMem
  rcases mem_cons.mp hMem with rfl | hOutput
  · exact isContained_anchor hRoot
  · obtain ⟨declared, hDeclared, hPath⟩ := mem_flatMap.mp hOutput
    obtain ⟨output, hIn, rfl⟩ := mem_map.mp hPath
    obtain ⟨found, hFound, hSome⟩ := mem_filterMap.mp hDeclared
    obtain ⟨case, hCase, rfl⟩ := mem_map.mp hFound
    exact isContained_integrationCase (each_eq_nil_iff.mp hIntegrations case hCase) hSome
      output hIn

end

/-! ## What a composition consists of -/

def followedBodies (root : RootDocument) (children : Dict Text ComponentDocument) :
    List (ComponentBody × Text) :=
  root.components.filterMap fun entry => (entryBody root.path children entry).value

section

variable {root : RootDocument} {children : Dict Text ComponentDocument} {overlay : LocalOverlay}
  {environment : Environment} {config : EffectiveConfig}

section

variable (h : compose root children overlay environment = .ok config)
include h

theorem components_of_compose : config.components = (followedBodies root children).map (fun entry =>
      (composeComponent (workspaceContext root overlay environment) none entry.1 entry.2).value) ∧
    ∀ entry ∈ followedBodies root children,
      (composeComponent (workspaceContext root overlay environment) none entry.1 entry.2).reports = [] := by
  have hFollowed : (each (entryBody root.path children) root.components).value.filterMap id =
      followedBodies root children := by
    rw [value_each, filterMap_map]
    rfl
  obtain ⟨hReports, rfl⟩ := collect_eq_ok_iff.mp h
  simp only [composeWorkspace, composeComponents, reports_bind, reports_pure,
    append_nil, append_eq_nil_iff, hFollowed] at hReports
  refine ⟨?_, fun entry hEntry => each_eq_nil_iff.mp hReports.2.2 entry hEntry⟩
  simp only [composeWorkspace, composeComponents, value_bind, value_pure, hFollowed]
  rfl

theorem exists_component_of_compose {component : EffectiveComponent} (hMem : component ∈ config.components) :
    ∃ entry ∈ root.components, ∃ body file,
      (entryBody root.path children entry).value = some (body, file) ∧
      (composeComponent (workspaceContext root overlay environment) none body file).reports = [] ∧
      (composeComponent (workspaceContext root overlay environment) none body file).value = component := by
  obtain ⟨hComponents, hReports⟩ := components_of_compose h
  rw [hComponents] at hMem
  obtain ⟨⟨body, file⟩, hBody, hComponent⟩ := mem_map.mp hMem
  obtain ⟨entry, hEntry, hValue⟩ := mem_filterMap.mp hBody
  have hOwn := hReports (body, file) hBody
  dsimp only at hOwn hComponent
  exact ⟨entry, hEntry, body, file, hValue, hOwn, hComponent⟩

theorem component_of_entry {entry : ComponentEntry} (hEntry : entry ∈ root.components) {body : ComponentBody}
    {file : Text}
    (hBody : (entryBody root.path children entry).value = some (body, file)) :
    (composeComponent (workspaceContext root overlay environment) none body file).reports = [] ∧
      (composeComponent (workspaceContext root overlay environment) none body file).value ∈
        config.components := by
  obtain ⟨hComponents, hReports⟩ := components_of_compose h
  have hMem : (body, file) ∈ followedBodies root children := mem_filterMap.mpr ⟨entry, hEntry, hBody⟩
  have hOwn := hReports (body, file) hMem
  have hIn := mem_map_of_mem (f := fun entry : ComponentBody × Text =>
    (composeComponent (workspaceContext root overlay environment) none entry.1 entry.2).value) hMem
  dsimp only at hOwn hIn
  rw [hComponents]
  exact ⟨hOwn, hIn⟩

end

end

/-- `root = "../core/${env:PART}"` in `ws/app/ici.toml`. -/
def climbingDocument : ComponentDocument where
  path := py "ws/app/ici.toml"
  component :=
    { root := some ⟨py "../core/$\x7benv:PART\x7d", .inApp (py "component.root")⟩
      languages := some ⟨[py "python"], .inApp (py "component.languages")⟩
      origin := .inApp (py "component") }

def climbingRoot : RootDocument where
  path := py "ws/ici.toml"
  components :=
    [.reference
      { id := ⟨py "core", .inWorkspace (py "components[0].id")⟩
        config := ⟨py "app/ici.toml", .inWorkspace (py "components[0].config")⟩ }]

end Ici
