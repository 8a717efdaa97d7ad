import Ici.Application.Suppressions
import Ici.Config.Paths

/-! # What a configuration file says

A document is one file, read and type-checked, every value with its origin. What a file does not
say is `none`. -/

namespace Ici

open Python

structure WorkspaceSettings where
  name : Option (Sourced Text) := none
  profile : Option (Sourced Text) := none
deriving DecidableEq

structure Exemption where
  componentId : Text
  reason : Sourced Text
deriving DecidableEq

structure SuppressionBody where
  fingerprint : Option (Sourced Text) := none
  rule : Option (Sourced Text) := none
  path : Option (Sourced Text) := none
  component : Option (Sourced Text) := none
  reason : Option (Sourced Text) := none
  origin : Origin
  reason_ne : (reason.map (·.value)).getD [] ≠ [] := by decide
deriving DecidableEq

structure CheckSetting where
  id : Text
  enabled : Option (Sourced Bool) := none
  required : Option (Sourced Bool) := none
  origin : Origin
  exemptions : List Exemption := []
deriving DecidableEq

theorem noChecks_nodup : (([] : List CheckSetting).map (·.id)).Nodup := by decide

def CheckSetting.exemptionFor (setting : CheckSetting) (componentId : Text) : Option Exemption :=
  setting.exemptions.find? (·.componentId = componentId)

structure BuildDeclaration where
  id : Text
  system : Option (Sourced Text) := none
  project : Option DeclaredPath := none
  directory : Option DeclaredPath := none
  variant : Option (Sourced Text) := none
  prepare : Option (Sourced Text) := none
  artifacts : List SourceGlob := []
  origin : Origin
deriving DecidableEq

structure PythonSettings where
  executable : Option Executable := none
  typeProvider : Option (Sourced Text) := none
  testPaths : List SourceGlob := []
deriving DecidableEq

structure IntegrationOutputBody where
  path : Option DeclaredPath := none
  kind : Option (Sourced Text) := none
  minSize : Option (Sourced ℤ) := none
deriving DecidableEq

structure IntegrationCaseBody where
  name : Option (Sourced Text) := none
  argv : Option (Sourced (List Text)) := none
  expectedExit : Option (Sourced ℤ) := none
  stdoutContains : List Text := []
  stderrContains : List Text := []
  stdoutNotContains : List Text := []
  stderrNotContains : List Text := []
  timeoutSeconds : Option (Sourced Double) := none
  env : List (Text × Sourced Text) := []
  requires : List Text := []
  pythonTargets : List (Text × Executable) := []
  outputArtifacts : List IntegrationOutputBody := []
  required : Option (Sourced Bool) := none
deriving DecidableEq

/-- A component as declared, inline in a root file or alone in its own. Its check tables are keys
of one table, so no two have the same name. -/
structure ComponentBody where
  id : Option (Sourced Text) := none
  root : Option DeclaredPath := none
  languages : Option (Sourced (List Text)) := none
  build : Option (Sourced Text) := none
  sources : List SourceGlob := []
  include' : List SourceGlob := []
  exclude : List SourceGlob := []
  python : Option PythonSettings := none
  origin : Origin
  checks : List CheckSetting := []
  needs : Option (Sourced (List Text)) := none
  vendor : List SourceGlob := []
  external : Option (Sourced (List Text)) := none
  integrations : List IntegrationCaseBody := []
  checks_nodup : (checks.map (·.id)).Nodup := by first | exact noChecks_nodup | decide
deriving DecidableEq

structure PublishBody where
  repo : Option (Sourced Text) := none
  apiUrl : Option (Sourced Text) := none
  serverUrl : Option (Sourced Text) := none
  branch : Option (Sourced Text) := none
  tokenEnv : Option (Sourced Text) := none
deriving DecidableEq

structure ComponentReference where
  id : Sourced Text
  config : DeclaredPath
deriving DecidableEq

inductive ComponentEntry where
  | inline (body : ComponentBody)
  | reference (entry : ComponentReference)
deriving DecidableEq

structure RootDocument where
  path : Text
  workspace : WorkspaceSettings := {}
  checks : List CheckSetting := []
  builds : List BuildDeclaration := []
  components : List ComponentEntry := []
  suppressions : List SuppressionBody := []
  publish : Option PublishBody := none
  checks_nodup : (checks.map (·.id)).Nodup := by first | exact noChecks_nodup | decide
deriving DecidableEq

structure ComponentDocument where
  path : Text
  component : ComponentBody
deriving DecidableEq

end Ici

/-! ## The composed configuration -/

namespace Ici

open Python

structure EffectiveCheck where
  id : Text
  enabled : Decided Bool
  required : Decided Bool
  exemptedReason : Option (Sourced Text) := none
deriving DecidableEq

structure EffectiveIntegrationOutput where
  path : Text
  kind : Text
  minSize : ℤ
deriving DecidableEq

structure EffectiveIntegrationCase where
  name : Text
  argv : List Text
  expectedExit : ℤ
  stdoutContains : List Text
  stderrContains : List Text
  stdoutNotContains : List Text
  stderrNotContains : List Text
  timeoutSeconds : Double
  env : List (Text × Text)
  requires : List Text
  pythonTargets : List (Text × Text)
  outputArtifacts : List EffectiveIntegrationOutput
  required : Bool
  declaredIn : Text
deriving DecidableEq

structure EffectiveComponent where
  id : Text
  root : Decided Text
  languages : Decided (List Text)
  checks : List EffectiveCheck
  build : Option (Decided Text) := none
  sources : List Text := []
  include' : List Text := []
  exclude : List Text := []
  vendor : List Text := []
  testPaths : List Text := []
  needs : Option (Decided (List Text)) := none
  external : Option (Decided (List Text)) := none
  declaredIn : Text := []
  pythonExecutable : Option (Decided Text) := none
  pythonTypeProvider : Option (Decided Text) := none
  integrations : List EffectiveIntegrationCase := []
deriving DecidableEq

structure EffectiveBuild where
  id : Text
  system : Option (Decided Text)
  directory : Option (Decided Text)
  definition : Option (Decided Text)
  variant : Decided Text
  prepare : Option (Decided Text)
  artifacts : List Text := []
  declaredIn : Text := []
deriving DecidableEq

structure EffectivePublish where
  repo : Text
  apiUrl : Text
  serverUrl : Text
  branch : Text
  tokenEnv : Text
  declared : Bool
deriving DecidableEq

structure EffectiveConfig where
  workspaceName : Option (Decided Text)
  profile : Option (Decided Text)
  checks : List EffectiveCheck
  components : List EffectiveComponent
  builds : List EffectiveBuild := []
  suppressions : List EffectiveSuppression := []
  publish : Option EffectivePublish := none
  scopeKind : ScopeKind := .full
deriving DecidableEq

namespace EffectiveConfig

def checkPayload (check : EffectiveCheck) : Json :=
  .obj [(py "id", .str check.id), (py "enabled", .bool check.enabled.value),
    (py "required", .bool check.required.value)]

def componentPayload (component : EffectiveComponent) : Json :=
  .obj [(py "id", .str component.id), (py "languages", .arr (component.languages.value.map .str)),
    (py "checks", .arr (component.checks.map checkPayload))]

def suppressionPayload (item : EffectiveSuppression) : Json :=
  .obj [(py "fingerprint", .str item.fingerprint), (py "rule", .str item.rule),
    (py "path", .str item.path), (py "component", .str item.component)]

def policyPayload (config : EffectiveConfig) : Json :=
  .obj [(py "checks", .arr (config.checks.map checkPayload)),
    (py "components", .arr (config.components.map componentPayload)),
    (py "suppressions", .arr (config.suppressions.map suppressionPayload))]

def policyDigest (sha256 : Sha256) (config : EffectiveConfig) : Result Text := do
  let encoded ← config.policyPayload.encode identityStyle
  let bytes ← utf8 encoded
  return py "sha256:" ++ sha256 bytes

end EffectiveConfig

end Ici

namespace Ici

open Python

def insideOf (anchored base : PurePath) : Option PurePath :=
  (anchored.relativeTo base).filter fun relative => py ".." ∉ relative.parts

def anchor (declared : Option DeclaredPath) (declaringFile : Text) (workspaceDir : PurePath)
    (environment : Environment) (what : Text) : Reported ConfigProblem Text :=
  match declared with
  | none => pure (py ".")
  | some declared => do
    let anchored ← declared.resolve (declaringDirectory declaringFile) environment
    let base := (virtualPath workspaceDir).val
    if anchored = base then pure (py ".")
    else match insideOf anchored base with
      | some relative => pure relative.asPosix
      | none => do
        Reported.report
          { message := what ++ py " escapes the workspace root: " ++ pyRepr declared.raw
            origin := declared.origin
            hint := some (py "keep it inside the workspace, or name an external input") }
        pure declared.raw

def anchorCandidate (declaringFile : Text) (candidate : PurePath) : PurePath :=
  if candidate.isAbsolute then normalise candidate
  else normalise ((declaringDirectory declaringFile).val.join candidate)

/-- What an external input and an interpreter share: inside the workspace they are relative to it,
outside they stay absolute. A single slash as base cannot prove an absolute path to be inside. -/
def anchorOutside (raw : Text) (origin : Origin) (declaringFile : Text) (workspaceDir : PurePath)
    (environment : Environment) : Reported ConfigProblem Text := do
  let substituted ← substituteEnvironment raw origin environment
  let candidate := PurePath.parse substituted
  let anchored := anchorCandidate declaringFile candidate
  let base := (virtualPath workspaceDir).val
  match insideOf anchored base with
  | none => pure anchored.asPosix
  | some relative =>
    if candidate.isAbsolute ∧ base = PurePath.parse (py "/") then pure anchored.asPosix
    else pure relative.asPosix

def externalInputs (body : ComponentBody) (declaredIn : Text) (workspaceDir : PurePath)
    (environment : Environment) : Reported ConfigProblem (Option (Decided (List Text))) :=
  match body.external with
  | none => pure none
  | some external => do
    let resolved ← Reported.each (fun entry : Text × ℕ =>
      anchorOutside entry.1 (external.origin.item entry.2) declaredIn workspaceDir environment)
      external.value.zipIdx
    pure (some { value := resolved, origin := external.origin, layer := .component })

def executablePath (executable : Executable) (workspaceDir : PurePath) (environment : Environment) :
    Reported ConfigProblem Text :=
  if executable.searchesPath then pure executable.raw
  else anchorOutside executable.raw executable.origin executable.origin.file workspaceDir environment

end Ici
