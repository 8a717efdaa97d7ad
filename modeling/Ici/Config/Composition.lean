import Ici.Config.Documents

/-! # Composing the layers into one configuration -/

namespace Ici

open Python Reported

def defaultsOrigin : Origin where
  file := py "<built-in defaults>"

def DeclaredPath.decided (path : DeclaredPath) : Decided Text where
  value := path.raw
  origin := path.origin
  layer := .root

def buildPath (declared : Option DeclaredPath) (override : Option (Sourced Text)) (declaringFile : Text)
    (workspaceDir : PurePath) (environment : Environment) (what : Text) :
    Reported ConfigProblem (Option (Decided Text)) :=
  match Decided.decideOptional (declared.map DeclaredPath.decided) override .localOverlay with
  | none => pure none
  | some decided => do
    let value ← anchor (some ⟨decided.value, decided.origin⟩) declaringFile workspaceDir environment what
    pure (some { decided with value := value })

section

variable (declaration : BuildDeclaration)

def preparePermission : Reported ConfigProblem (Option (Decided Text)) :=
  match declaration.prepare with
  | none => pure none
  | some prepare => do
    reportIf (prepare.value ≠ py "explicit")
      { message := py "prepare must be 'explicit', not " ++ pyRepr prepare.value
        origin := prepare.origin
        hint := some (py ("ici does not invent configure commands; 'explicit' means the " ++
          "user runs the named step themselves")) }
    pure (Sourced.optional (some prepare) .root)

def IsCanonicalArtifact (raw : Text) : Prop :=
  PurePosixPath.isAbsolute raw = false ∧ py ".." ∉ (PurePath.parse raw).parts ∧ 0x5c ∉ raw ∧
    (PurePath.parse raw).asPosix = raw

instance (raw : Text) : Decidable (IsCanonicalArtifact raw) :=
  inferInstanceAs (Decidable (_ ∧ _ ∧ _ ∧ _))

def artifactGlobs : Reported ConfigProblem (List Text) := do
  let kept ← each (fun glob : SourceGlob => do
      reportIf (¬IsCanonicalArtifact glob.raw)
        { message := py "artifact glob " ++ pyRepr glob.raw ++
            py " must be a canonical relative pattern inside the build directory"
          origin := glob.origin
          hint := some (py "artifacts anchor at the build's own directory") }
      pure (if IsCanonicalArtifact glob.raw then some glob.raw else none))
    declaration.artifacts
  pure (kept.filterMap id)

def composeBuild (workspaceDir : PurePath) (overlay : LocalOverlay)
    (environment : Environment) : Reported ConfigProblem EffectiveBuild := do
  let key (name : Text) := py "builds." ++ declaration.id ++ py "." ++ name
  let directory ← buildPath declaration.directory (overlay.get? (key (py "directory")))
    declaration.origin.file workspaceDir environment (py "build directory")
  let definition ← buildPath declaration.project (overlay.get? (key (py "project")))
    declaration.origin.file workspaceDir environment (py "build project")
  let prepare ← preparePermission declaration
  let artifacts ← artifactGlobs declaration
  pure
    { id := declaration.id
      system := Sourced.optional declaration.system .root
      directory := directory
      definition := definition
      variant := (Sourced.optional declaration.variant .root).getD ⟨py "default", defaultsOrigin, .defaults⟩
      prepare := prepare
      artifacts := artifacts
      declaredIn := declaration.origin.file }

end

/-! ## Checks -/

def defaultCheck (id : Text) : EffectiveCheck where
  id := id
  enabled := ⟨true, defaultsOrigin, .defaults⟩
  required := ⟨false, defaultsOrigin, .defaults⟩

def workspaceCheck (setting : CheckSetting) : EffectiveCheck where
  id := setting.id
  enabled := (defaultCheck setting.id).enabled.decide setting.enabled .root
  required := (defaultCheck setting.id).required.decide setting.required .root

def lowers (base : EffectiveCheck) (adjustment : CheckSetting) : Bool :=
  base.required.value && (adjustment.required.map (·.value)) == some false

section

variable (componentId : Text)

def adjust (base : EffectiveCheck) (adjustment : CheckSetting)
    (rootSetting : Option CheckSetting) : Reported ConfigProblem EffectiveCheck :=
  let enabled := base.enabled.decide adjustment.enabled .component
  let exemption := rootSetting.bind (·.exemptionFor componentId)
  if lowers base adjustment ∧ exemption = none then do
    report
      { message := componentId ++ py " cannot make " ++ adjustment.id ++
          py " optional; the root requires it at " ++ base.required.origin.text
        origin := (adjustment.required.map (·.origin)).getD adjustment.origin
        hint := some (py "if this is intended, the root grants it: [checks." ++ adjustment.id ++
          py ".exemptions." ++ componentId ++ py "] reason = \"...\"") }
    pure { id := base.id, enabled := enabled, required := base.required }
  else pure
    { id := base.id
      enabled := enabled
      required := base.required.decide adjustment.required .component
      exemptedReason := if lowers base adjustment then exemption.map (·.reason) else none }

/-- One step of the loop over a component's adjustments, over what is composed so far. -/
def adjustCurrent (settings : Dict Text CheckSetting)
    (current : Option EffectiveCheck) (adjustment : CheckSetting) :
    Reported ConfigProblem EffectiveCheck :=
  adjust componentId (current.getD (defaultCheck adjustment.id)) adjustment (settings.get? adjustment.id)

def applyAdjustment (settings : Dict Text CheckSetting)
    (composed : Dict Text EffectiveCheck) (adjustment : CheckSetting) :
    Reported ConfigProblem (Dict Text EffectiveCheck) :=
  assign CheckSetting.id (adjustCurrent componentId settings) composed adjustment

def keyed {α : Type} (key : α → Text) (l : List α) : Dict Text α :=
  Dict.setAll [] (l.map fun a => (key a, a))

/-- `_component_checks`: every check the workspace knows, as this component sees it. -/
def componentChecks (body : ComponentBody) (rootSettings : List CheckSetting)
    (workspaceChecks : List EffectiveCheck) : Reported ConfigProblem (List EffectiveCheck) := do
  let composed ← body.checks.foldlM (applyAdjustment componentId (keyed CheckSetting.id rootSettings))
    (keyed EffectiveCheck.id workspaceChecks)
  pure ((composed.keys.insertionSort (· ≤ ·)).filterMap composed.get?)

end

/-! ## Components -/

section

variable (componentId : Text) (body : ComponentBody) (overlay : LocalOverlay)

/-- The interpreter `_python_executable` settles on, and the layer it comes from. An empty
override is refused and passed over. -/
def chosenExecutable : Reported ConfigProblem (Option (Executable × Layer)) :=
  let declared := (body.python.bind (·.executable)).map fun executable => (executable, Layer.component)
  match overlay.get? (py "components." ++ componentId ++ py ".python.executable") with
  | none => pure declared
  | some sourced =>
    if h : sourced.value = [] then do
      report
        { message := py "a python executable must not be empty"
          origin := sourced.origin
          message_ne := by decide }
      pure declared
    else pure (some (⟨sourced.value, sourced.origin, h⟩, Layer.localOverlay))

def pythonExecutable (workspaceDir : PurePath) (environment : Environment) :
    Reported ConfigProblem (Option (Decided Text)) := do
  match ← chosenExecutable componentId body overlay with
  | none => pure none
  | some (executable, layer) => do
    let value ← executablePath executable workspaceDir environment
    pure (some { value := value, origin := executable.origin, layer := layer })

def typeProviders : List Text := [py "mypy", py "ty"]

/-- What `_python_type_provider` settles on, before it is checked. -/
def chosenProvider : Option (Decided Text) :=
  match overlay.get? (py "components." ++ componentId ++ py ".python.type_provider") with
  | some sourced => Sourced.optional (some sourced) .localOverlay
  | none => Sourced.optional (body.python.bind (·.typeProvider)) .component

def pythonTypeProvider : Reported ConfigProblem (Option (Decided Text)) :=
  match chosenProvider componentId body overlay with
  | none => pure none
  | some decided => do
    reportIf (decided.value ∉ typeProviders)
      { message := py "type_provider must be one of " ++ join (py ", ") typeProviders
        origin := decided.origin
        message_ne := by decide }
    pure (if decided.value ∈ typeProviders then some decided else none)

end

def integrationOutput (caseName declaredIn : Text) (workspaceDir : PurePath) (environment : Environment)
    (output : IntegrationOutputBody) : Reported ConfigProblem (Option EffectiveIntegrationOutput) :=
  match output.path with
  | none => pure none
  | some declared => do
    let path ← anchor (some declared) declaredIn workspaceDir environment
      (py "integration case " ++ pyRepr caseName ++ py " output")
    pure (some
      { path := path
        kind := (output.kind.map (·.value)).getD (py "other")
        minSize := (output.minSize.map (·.value)).getD 1 })

def pythonTarget (workspaceDir : PurePath) (environment : Environment) (target : Text × Executable) :
    Reported ConfigProblem (Text × Text) := do
  let value ← executablePath target.2 workspaceDir environment
  pure (target.1, value)

def integrationCase (declaredIn : Text) (workspaceDir : PurePath) (environment : Environment)
    (declared : IntegrationCaseBody) : Reported ConfigProblem (Option EffectiveIntegrationCase) :=
  match declared.name, declared.argv with
  | some name, some argv => do
    let pythonTargets ← each (pythonTarget workspaceDir environment) declared.pythonTargets
    let outputs ← each (integrationOutput name.value declaredIn workspaceDir environment)
      declared.outputArtifacts
    pure (some
      { name := name.value
        argv := argv.value
        expectedExit := (declared.expectedExit.map (·.value)).getD 0
        stdoutContains := declared.stdoutContains
        stderrContains := declared.stderrContains
        stdoutNotContains := declared.stdoutNotContains
        stderrNotContains := declared.stderrNotContains
        timeoutSeconds := (declared.timeoutSeconds.map (·.value)).getD (Double.ofRat 30)
        env := declared.env.map fun entry => (entry.1, entry.2.value)
        requires := declared.requires
        pythonTargets := pythonTargets
        outputArtifacts := outputs.filterMap id
        required := (declared.required.map (·.value)).getD true
        declaredIn := declaredIn })
  | _, _ => pure none

def composeIntegrations (body : ComponentBody) (declaredIn : Text) (workspaceDir : PurePath)
    (environment : Environment) : Reported ConfigProblem (List EffectiveIntegrationCase) := do
  let cases ← each (integrationCase declaredIn workspaceDir environment) body.integrations
  pure (cases.filterMap id)

structure CompositionContext where
  rootSettings : List CheckSetting
  workspaceChecks : List EffectiveCheck
  overlay : LocalOverlay
  workspaceDir : PurePath
  environment : Environment

def composeComponent (context : CompositionContext) (identifier : Option Text) (body : ComponentBody)
    (declaredIn : Text) : Reported ConfigProblem EffectiveComponent := do
  let id := (identifier.filter (· ≠ [])).getD ((body.id.map (·.value)).getD [])
  reportIf (id = [])
    { message := py "a component must have an id", origin := body.origin, message_ne := by decide }
  reportIf (body.root = none)
    { message := py "a component must have a root", origin := body.origin.child (py "root"),
      message_ne := by decide }
  reportIf (body.languages = none)
    { message := py "a component must declare a language", origin := body.origin.child (py "languages"),
      message_ne := by decide }
  let root ← anchor body.root declaredIn context.workspaceDir context.environment (py "component root")
  let scope := PurePath.parse root
  let resolved (globs : List SourceGlob) := globs.map (·.resolve scope)
  let checks ← componentChecks id body context.rootSettings context.workspaceChecks
  let external ← externalInputs body declaredIn context.workspaceDir context.environment
  let executable ← pythonExecutable id body context.overlay context.workspaceDir context.environment
  let provider ← pythonTypeProvider id body context.overlay
  let integrations ← composeIntegrations body declaredIn context.workspaceDir context.environment
  pure
    { id := id
      root := ⟨root, (body.root.map (·.origin)).getD body.origin, .component⟩
      languages := ⟨(body.languages.map (·.value)).getD [],
        (body.languages.map (·.origin)).getD body.origin, .component⟩
      checks := checks
      build := Sourced.optional body.build .component
      sources := resolved body.sources
      include' := resolved body.include'
      exclude := resolved body.exclude
      vendor := resolved body.vendor
      testPaths := resolved ((body.python.map (·.testPaths)).getD [])
      needs := Sourced.optional body.needs .component
      external := external
      declaredIn := declaredIn
      pythonExecutable := executable
      pythonTypeProvider := provider
      integrations := integrations }

/-! ## Workspaces -/

/-- `_follow`: the reference supplies the id the child file does not carry. -/
def followReference (children : Dict Text ComponentDocument) (entry : ComponentReference) :
    Reported ConfigProblem (Option (ComponentBody × Text)) :=
  match children.get? entry.id.value with
  | none => do
    report
      { message := py "the file registered for " ++ entry.id.value ++ py " was not read"
        origin := entry.config.origin
        hint := some (py "composition does not open files; pass the child document in") }
    pure none
  | some document => pure (some ({ document.component with id := some entry.id }, document.path))

/-- One entry of `_bodies`: a component, paired with the file it came from. -/
def entryBody (rootPath : Text) (children : Dict Text ComponentDocument) :
    ComponentEntry → Reported ConfigProblem (Option (ComponentBody × Text))
  | .inline body => pure (some (body, rootPath))
  | .reference entry => followReference children entry

def composeSuppression (body : SuppressionBody) : EffectiveSuppression where
  fingerprint := (body.fingerprint.map (·.value)).getD []
  rule := (body.rule.map (·.value)).getD []
  path := match body.path with
    | none => []
    | some path => if strip path.value = [] then [] else (normalise (PurePath.parse path.value)).asPosix
  component := (body.component.map (·.value)).getD []
  reason := (body.reason.map (·.value)).getD []
  declaredIn := body.origin.file
  reason_ne_nil := body.reason_ne

def withoutTrailingSlashes (t : Text) : Text := t.rdropWhile (· = 0x2f)

def composePublish (body : PublishBody) : EffectivePublish where
  repo := (body.repo.map (·.value)).getD []
  apiUrl := withoutTrailingSlashes ((body.apiUrl.map (·.value)).getD [])
  serverUrl := withoutTrailingSlashes ((body.serverUrl.map (·.value)).getD [])
  branch := ((body.branch.map (·.value)).filter fun branch => strip branch ≠ []).getD (py "gh-pages")
  tokenEnv := (body.tokenEnv.map (·.value)).getD (py "GITHUB_TOKEN")
  declared := true

def workspaceContext (root : RootDocument) (overlay : LocalOverlay) (environment : Environment) :
    CompositionContext where
  rootSettings := root.checks
  workspaceChecks := root.checks.map workspaceCheck
  overlay := overlay
  workspaceDir := (PurePath.parse root.path).parent
  environment := environment

def composeComponents (context : CompositionContext) (bodies : List (Option (ComponentBody × Text))) :
    Reported ConfigProblem (List EffectiveComponent) :=
  each (fun entry : ComponentBody × Text => composeComponent context none entry.1 entry.2)
    (bodies.filterMap id)

section

variable (root : RootDocument) (children : Dict Text ComponentDocument) (overlay : LocalOverlay)
  (environment : Environment)

def composeWorkspace : Reported ConfigProblem EffectiveConfig := do
  let context := workspaceContext root overlay environment
  let builds ← each (fun declaration =>
    composeBuild declaration context.workspaceDir overlay environment) root.builds
  let bodies ← each (entryBody root.path children) root.components
  let components ← composeComponents context bodies
  pure
    { workspaceName := Sourced.optional root.workspace.name .root
      profile := Sourced.optional root.workspace.profile .root
      checks := context.workspaceChecks
      components := components
      builds := builds
      suppressions := root.suppressions.map composeSuppression
      publish := root.publish.map composePublish
      scopeKind := .full }

def compose : Except (List ConfigProblem) EffectiveConfig :=
  (composeWorkspace root children overlay environment).collect

end

def composeStandalone (document : ComponentDocument) (componentId : Text) (environment : Environment) :
    Except (List ConfigProblem) EffectiveConfig :=
  collect do
    let context : CompositionContext :=
      { rootSettings := []
        workspaceChecks := []
        overlay := LocalOverlay.empty
        workspaceDir := (PurePath.parse document.path).parent
        environment := environment }
    let component ← composeComponent context (some componentId) document.component document.path
    pure
      { workspaceName := none
        profile := none
        checks := []
        components := [component]
        scopeKind := .standalone }

end Ici
