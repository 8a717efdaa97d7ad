import Ici.Application.Testing
import Ici.Domain.Accepting

/-! # The domain workspace of a composed configuration

Only what the workspace itself refuses is turned into a diagnosis: the units and the components are
constructed before. -/

namespace Ici.WorkspaceModel

open Python

def originOf (file : Text) : Result Origin :=
  if h : file = [] then .error (valueError (py "origin file must not be empty"))
  else .ok { file := file, file_ne := h }

def problemOf (message : Text) (origin : Origin) : Result ConfigProblem :=
  if h : message = [] then .error (valueError (py "config problem message must not be empty"))
  else .ok { message := message, origin := origin, message_ne := h }

/-- The system of a build; one that names none is a problem, and goes on as `explicit`. -/
def namedSystem (item : EffectiveBuild) : Result (Text × List ConfigProblem) :=
  match item.system with
  | some system => .ok (system.value, [])
  | none => do
    let origin ← originOf item.declaredIn
    return (py "explicit", [{ message := py "a build must name a system", origin := origin }])

def namedDirectory (item : EffectiveBuild) : Result (Text × List ConfigProblem) :=
  match item.directory with
  | some directory => .ok (directory.value, [])
  | none => do
    let origin ← originOf item.declaredIn
    return (py ".", [{
      message := py "build " ++ item.id ++ py " must name a directory"
      origin := origin
      hint := some (py "the output scope of a build is never guessed") }])

def buildUnit (item : EffectiveBuild) : Result (BuildUnit × List ConfigProblem) := do
  let system ← namedSystem item
  let directory ← namedDirectory item
  let unit ← Checked.construct BuildUnitFields.check
    { id := item.id
      system := system.1
      variant := item.variant.value
      directory := directory.1
      definition := item.definition.map (·.value)
      artifacts := item.artifacts }
  return (unit, system.2 ++ directory.2)

/-! ## Components -/

def defaultSourceGlobs : List (Text × List Text) :=
  [(py "python", [py "**/*.py"]),
    (py "rust", [py "**/*.rs"]),
    (py "javascript", [py "**/*.js", py "**/*.jsx", py "**/*.mjs", py "**/*.cjs"]),
    (py "typescript", [py "**/*.ts", py "**/*.tsx", py "**/*.mts", py "**/*.cts"]),
    (py "cpp", [py "**/*.cpp", py "**/*.cc", py "**/*.cxx", py "**/*.hpp", py "**/*.h"])]

def conventionalGlobs (languages : List Text) : List Text :=
  languages.flatMap fun language => (defaultSourceGlobs.lookup language).getD []

def belowComponent (root pattern : Text) : Text :=
  (normalise ((PurePath.parse root).join (PurePath.parse pattern))).asPosix

def sources (item : EffectiveComponent) : List Text :=
  if item.sources ≠ [] then item.sources
  else if item.root.value = py "." then conventionalGlobs item.languages.value
  else (conventionalGlobs item.languages.value).map (belowComponent item.root.value)

def componentFields (item : EffectiveComponent) : ComponentFields where
  id := item.id
  root := item.root.value
  languages := item.languages.value
  sources := sources item
  include' := item.include'
  exclude := item.exclude
  vendor := item.vendor
  testPaths := item.testPaths
  buildIds := (item.build.map (·.value)).toList
  needs := (item.needs.map (·.value)).getD []
  external := (item.external.map (·.value)).getD []

def component (item : EffectiveComponent) : Result Component :=
  Checked.construct ComponentFields.check (componentFields item)

/-- The variant every build runs under; of two builds with one id the later one counts. -/
def variants (config : EffectiveConfig) : Dict Text (Decided Text) :=
  Dict.setAll [] (config.builds.map fun item => (item.id, item.variant))

section

variable (config : EffectiveConfig) (component : Component) (language : Text)

def runtimeOf : Option Text :=
  if language = py "python" then
    ((config.components.find? (·.id = component.val.id)).bind (·.pythonExecutable)).map (·.value)
  else none

def unitFields : AnalysisUnitFields where
  id := component.val.id ++ py "." ++ language
  componentId := component.val.id
  language := language
  variant := (component.val.buildIds.head?.bind (variants config).get?).map (·.value)
  runtime := runtimeOf config component language
  buildId := component.val.buildIds.head?

end

def unitPairs (components : List Component) : List (Component × Text) :=
  components.flatMap fun component => component.val.languages.map fun language => (component, language)

def units (components : List Component) (config : EffectiveConfig) : Result (List AnalysisUnit) :=
  (unitPairs components).mapM fun pair =>
    Checked.construct AnalysisUnitFields.check (unitFields config pair.1 pair.2)

def isIdEdge (c : CodePoint) : Bool := c == 0x2e || c == 0x5f || c == 0x2d

def workspaceId (lower : Lowering) (name : Text) : Text :=
  let slug := stripOf isIdEdge (slugBad.sub (fun _ => false) (fun _ => py "-") (lower name))
  if slug = [] then py "workspace" else slug

def workspaceName (config : EffectiveConfig) : Text :=
  (config.workspaceName.map (·.value)).getD (py "workspace")

section

variable (sha256 : Sha256) (lower : Lowering) (config : EffectiveConfig)

def assemble (builds : List BuildUnit) (components : List Component) : Result Workspace := do
  let analysisUnits ← units components config
  let digest ← config.policyDigest sha256
  Workspace.make
    { id := workspaceId lower (workspaceName config)
      name := workspaceName config
      components := components
      builds := builds
      analysisUnits := analysisUnits
      requiredComponentIds := components.map (·.val.id)
      policyDigest := some digest }

/-- How `build` fails: with a diagnosis, or with an exception that is none. -/
inductive BuildFailure where
  | diagnosed (problems : List ConfigProblem)
  | escaped (e : PyError)
deriving DecidableEq

/-- `except ValueError`: the problems so far, and what the workspace refused. -/
def diagnose (problems : List ConfigProblem) (e : PyError) : BuildFailure :=
  if isValueError e then
    match problemOf e.text { file := py "<model>" } with
    | .ok problem => .diagnosed (problems ++ [problem])
    | .error refused => .escaped refused
  else .escaped e

def build : Except BuildFailure Workspace := do
  let builds ← (config.builds.mapM buildUnit).mapError .escaped
  let components ← (config.components.mapM component).mapError .escaped
  let problems := builds.flatMap (·.2)
  let workspace ← (assemble sha256 lower config (builds.map (·.1)) components).mapError (diagnose problems)
  if problems = [] then .ok workspace else .error (.diagnosed problems)

end

end Ici.WorkspaceModel

/-! ## The conventional scope of a component

Below a root that passes, every conventional pattern passes too. -/

namespace Ici.WorkspaceModel

open List Python

variable {names : List Text} {path : PurePath} {t : Text}

theorem foldl_normaliseStep (hNames : ∀ name ∈ names, IsPathName name)
    (hParent : py ".." ∉ names) (front : List Text) :
    names.foldl normaliseStep front = front ++ names := by
  induction names generalizing front with
  | nil => simp
  | cons name rest ih =>
    obtain ⟨hName, hRest⟩ := forall_mem_cons.mp hNames
    obtain ⟨hFirst, hLater⟩ := not_or.mp (mt mem_cons.mpr hParent)
    have hStep : normaliseStep front name = front ++ [name] := by
      rw [normaliseStep, if_neg hName.2.1, if_neg fun h => hFirst h.1.symm]
    rw [foldl_cons, hStep, ih hRest hLater, append_assoc, singleton_append]

theorem parse_name {name : Text} (h : IsPathName name) :
    PurePath.parse name = ⟨.relative, [name], by simpa using h⟩ := by
  have hParse := PurePath.parse_asPosix ⟨.relative, [name], by simpa using h⟩
  rwa [PurePath.asPosix, if_neg (by simp), PathRoot.text, nil_append, join_singleton] at hParse

theorem foldl_join_names (hNames : ∀ name ∈ names, IsPathName name) (path : PurePath) :
    names.foldl (fun path segment => path.join (PurePath.parse segment)) path =
      path.join ⟨.relative, names, hNames⟩ := by
  induction names generalizing path with
  | nil => simp [PurePath.join, PurePath.isAbsolute]
  | cons name rest ih =>
    obtain ⟨hName, hRest⟩ := forall_mem_cons.mp hNames
    rw [foldl_cons, ih hRest, parse_name hName, PurePath.join_assoc rfl rfl]
    rfl

theorem normalise_of_contained (hRelative : path.root = .relative)
    (hParent : py ".." ∉ path.names) : normalise path = path := by
  obtain ⟨root, names, hNames⟩ := path
  cases hRelative
  have hParts : (⟨.relative, names, hNames⟩ : PurePath).parts = names := by
    rw [PurePath.parts, if_neg (by simp [PurePath.isAbsolute])]
  rw [normalise, hParts, foldl_normaliseStep hNames hParent, nil_append, PurePath.ofSegments,
    foldl_join_names hNames]
  rfl

theorem asPosix_parse (h : PurePosixPath.isAbsolute t = false) :
    (PurePath.parse t).asPosix = PurePosixPath.asPosix t := by
  have hRelative : (PurePath.parse t).isAbsolute = false := by rw [PurePath.isAbsolute_parse, h]
  have hRoot : PurePosixPath.root t = [] := by simp [PurePosixPath.root, h]
  have hText : (PurePath.parse t).root.text = [] := by simp [PurePath.parse, h, PathRoot.text]
  simp only [PurePath.asPosix, PurePosixPath.asPosix, hRelative, hRoot, hText, true_and]
  rfl

theorem isRelativePath_asPosix (hRelative : path.root = .relative)
    (hParent : py ".." ∉ path.names) (hText : IsText path.asPosix) (hPosix : 0x5c ∉ path.asPosix) :
    IsRelativePath path.asPosix := by
  have hAbsolute : PurePosixPath.isAbsolute path.asPosix = false := by
    rw [PurePath.isAbsolute_asPosix, PurePath.isAbsolute, hRelative]
    rfl
  have hNames : PurePosixPath.parts path.asPosix = path.names :=
    congrArg PurePath.names (PurePath.parse_asPosix path)
  refine ⟨hText, hPosix, hAbsolute, hNames ▸ hParent, ?_⟩
  rw [← asPosix_parse hAbsolute, PurePath.parse_asPosix]

/-! ## Patterns below a root -/

theorem join_append {separator : Text} {front back : List Text} (hFront : front ≠ []) (hBack : back ≠ []) :
    join separator (front ++ back) = join separator front ++ separator ++ join separator back := by
  induction front with
  | nil => exact absurd rfl hFront
  | cons part rest ih =>
    cases rest with
    | nil =>
      obtain ⟨next, later, rfl⟩ := exists_cons_of_ne_nil hBack
      rw [singleton_append, join_cons, join_singleton, append_assoc]
    | cons next rest =>
      rw [cons_append, cons_append, join_cons, join_cons, ← cons_append, ih (cons_ne_nil _ _)]
      simp only [append_assoc]

theorem parts_ne_nil (h : IsBelowRoot t) : PurePosixPath.parts t ≠ [] := by
  intro hNone
  apply h.2
  rw [← h.1.canonical, PurePosixPath.asPosix, if_pos ⟨by simp [PurePosixPath.root, h.1.relative], hNone⟩]

theorem join_parts (h : IsBelowRoot t) : join (py "/") (PurePosixPath.parts t) = t := by
  have hCanonical := h.1.canonical
  rwa [PurePosixPath.asPosix, if_neg fun hAll => parts_ne_nil h hAll.2, PurePosixPath.root, h.1.relative,
    Bool.not_false, if_pos rfl, nil_append] at hCanonical

section Patterns

variable {root pattern : Text}

theorem names_joined (hPattern : IsBelowRoot pattern) :
    ((PurePath.parse root).join (PurePath.parse pattern)).names =
    PurePosixPath.parts root ++ PurePosixPath.parts pattern := by
  rw [PurePath.join, PurePath.isAbsolute_parse, hPattern.1.relative, if_neg (by simp)]
  rfl

section

variable (hRoot : IsBelowRoot root) (hPattern : IsBelowRoot pattern)
include hRoot hPattern

theorem root_joined : ((PurePath.parse root).join (PurePath.parse pattern)).root = .relative := by
  rw [PurePath.join, PurePath.isAbsolute_parse, hPattern.1.relative, if_neg (by simp)]
  simp [PurePath.parse, hRoot.1.relative]

theorem parent_notMem_joined : py ".." ∉ ((PurePath.parse root).join (PurePath.parse pattern)).names := by
  rw [names_joined hPattern, mem_append]
  exact not_or.mpr ⟨hRoot.1.contained, hPattern.1.contained⟩

theorem belowComponent_eq : belowComponent root pattern = root ++ py "/" ++ pattern := by
  rw [belowComponent, normalise_of_contained (root_joined hRoot hPattern)
    (parent_notMem_joined hRoot hPattern), PurePath.asPosix, names_joined hPattern,
    if_neg fun h => parts_ne_nil hRoot (append_eq_nil_iff.mp h.2).1, root_joined hRoot hPattern,
    join_append (parts_ne_nil hRoot) (parts_ne_nil hPattern), join_parts hRoot, join_parts hPattern]
  rfl

theorem isBelowRoot_belowComponent : IsBelowRoot (belowComponent root pattern) := by
  have hText := belowComponent_eq hRoot hPattern
  have hPath : belowComponent root pattern =
      ((PurePath.parse root).join (PurePath.parse pattern)).asPosix := by
    rw [belowComponent, normalise_of_contained (root_joined hRoot hPattern)
      (parent_notMem_joined hRoot hPattern)]
  obtain ⟨hRootNe, hRootPadding⟩ := hRoot.1.isText
  obtain ⟨hPatternNe, hPatternPadding⟩ := hPattern.1.isText
  constructor
  · rw [hPath]
    apply isRelativePath_asPosix (root_joined hRoot hPattern) (parent_notMem_joined hRoot hPattern)
    · rw [← hPath, hText]
      refine ⟨by simp [py], fun h => ?_, fun h => ?_⟩
      · rw [head_append_of_ne_nil (by simp [py]), head_append_of_ne_nil hRootNe]
        exact hRootPadding.1 hRootNe
      · rw [getLast_append_of_ne_nil _ hPatternNe]
        exact hPatternPadding.2 hPatternNe
    · rw [← hPath, hText, mem_append, mem_append]
      exact not_or.mpr ⟨not_or.mpr ⟨hRoot.1.posix, by decide⟩, hPattern.1.posix⟩
  · intro hDot
    have hLength := congrArg List.length hDot
    rw [hText, length_append, length_append] at hLength
    have hFront := length_pos_of_ne_nil hRootNe
    have hBack := length_pos_of_ne_nil hPatternNe
    have hSlash : (py "/").length = 1 := rfl
    have hOne : (py ".").length = 1 := rfl
    omega

end

end Patterns

theorem conventional_passes :
    ∀ entry ∈ defaultSourceGlobs, ∀ pattern ∈ entry.2, requireRelativePath pattern [] false = .ok () := by
  decide

theorem isBelowRoot_conventional {languages : List Text} {pattern : Text}
    (h : pattern ∈ conventionalGlobs languages) : IsBelowRoot pattern := by
  obtain ⟨language, -, hPattern⟩ := mem_flatMap.mp h
  cases hFound : defaultSourceGlobs.lookup language with
  | none =>
    rw [hFound] at hPattern
    cases hPattern
  | some patterns =>
    rw [hFound] at hPattern
    obtain ⟨before, after, hSplit, _⟩ := lookup_eq_some_iff.mp hFound
    have hEntry : (language, patterns) ∈ defaultSourceGlobs := by
      rw [hSplit]
      exact mem_append_right _ mem_cons_self
    exact requireRelativePath_below_eq_ok_iff.mp (conventional_passes _ hEntry pattern hPattern)

theorem sources_pass_iff {item : EffectiveComponent} (hRoot : IsRelativePath item.root.value) :
    (∀ glob ∈ sources item, IsBelowRoot glob) ↔ ∀ glob ∈ item.sources, IsBelowRoot glob := by
  unfold sources
  split_ifs with hNone hDot
  · rfl
  · rw [not_not.mp hNone]
    exact iff_of_true (fun glob h => isBelowRoot_conventional h) (by simp)
  · rw [not_not.mp hNone]
    refine iff_of_true (fun glob h => ?_) (by simp)
    obtain ⟨pattern, hPattern, rfl⟩ := mem_map.mp h
    exact isBelowRoot_belowComponent ⟨hRoot, hDot⟩ (isBelowRoot_conventional hPattern)

end Ici.WorkspaceModel
