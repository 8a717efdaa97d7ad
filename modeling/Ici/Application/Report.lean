import Ici.Application.CheckScope
import Ici.Application.Request
import Ici.Application.TemScores

/-! # Turning a run into the result that gets saved

A finished verification is assembled into a stored result. The domain refuses what makes no sense of it. -/

namespace Ici

open Python

/-- What `assemble` is told beside the verification. -/
structure Report where
  runId : Text
  iciVersion : Text
  source : SourceSnapshot
  policyDigest : Text
  toolchainDigest : Text
  componentIds : List Text := []
  languages : List Text := []
  scope : ScopeKind := .partial'
  bundleDigest : Option Text := none
  requiredComponents : Option (List Text) := none
  omittedComponents : List Text := []
  limitations : List Text := []
  cancelled : Bool := false
  baseline : Option BaselineComparison := none
  checks : Option (List CheckRecord) := none

namespace Verification

variable (verification : Verification)

def isComplete : Bool := verification.gate.val.selected ≠ .incomplete

def taskIdsIn (states : List TaskState) : List Text :=
  (verification.observations.filter (·.val.state ∈ states)).map (·.val.taskId)

def reusedTaskIds : List Text :=
  (verification.executions.filter (py "cache hit" <+: ·.detail)).flatMap (·.consumers)

end Verification

namespace Report

variable (report : Report) (verification : Verification)

def producer : ProducerFields where
  iciVersion := report.iciVersion
  bundleDigest := report.bundleDigest

def identity : RunIdentityFields where
  source := report.source
  policyDigest := report.policyDigest
  toolchainDigest := report.toolchainDigest
  fingerprintVersion := fingerprintVersion

def selection : ScopeSelectionFields where
  kind := report.scope
  selectedComponents := report.componentIds
  selectedLanguages := report.languages
  requiredComponents := report.requiredComponents.getD report.componentIds
  omittedComponents := report.omittedComponents
  -- a partial run never claims the workspace was satisfied
  fullRequiredSatisfied := report.scope = .full && verification.isComplete

def execution : ExecutionSummaryFields where
  requiredComplete := verification.isComplete
  cancelled := report.cancelled
  blockedTaskIds := if verification.isComplete then [] else verification.taskIdsIn [.blocked, .cancelled]
  failedTaskIds := verification.taskIdsIn [.failed]
  reusedTaskIds := verification.reusedTaskIds

end Report

def assemble (verification : Verification) (report : Report) : Result RunResult := do
  let tem ← temMetrics verification.observations
  let producer ← Checked.construct ProducerFields.check report.producer
  let identity ← Checked.construct RunIdentityFields.check report.identity
  let scope ← Checked.construct ScopeSelectionFields.check (report.selection verification)
  let execution ← Checked.construct ExecutionSummaryFields.check (report.execution verification)
  Checked.construct RunResultFields.check
    { runId := report.runId
      producer
      identity
      scope
      execution
      gate := verification.gate
      findings := verification.findings
      metrics := verification.observations.flatMap (·.val.measurements) ++ tem.1
      limitations := verification.observations.flatMap (·.val.limitations) ++ report.limitations ++ tem.2
      baseline := report.baseline
      checks := report.checks }

/-! ## The run of the command -/

def scopeKind (configured : ScopeKind) (request : RunRequest) (model scope : Workspace)
    (verification : Verification) : ScopeKind :=
  let covered := requestedLanguages request scope
  let declared := model.val.components.flatMap (·.val.languages)
  if configured = .standalone then .standalone
  else if request.staticOnly ∨ request.components ≠ [] ∨ ¬(covered ⊆ declared ∧ declared ⊆ covered) ∨
      verification.gate.val.selected = .incomplete then .partial'
  else .full

structure Recording where
  root : PurePath
  stock : SourceInventory
  digestOf : PurePath → Option Text
  nesting : ℕ

def Recording.site (recording : Recording) (scope : Workspace) (component : Component)
    (planned : PlannedCheck) : CheckSite where
  root := recording.root
  stock := recording.stock
  scope
  component
  planned
  digestOf := recording.digestOf
  nesting := recording.nesting

/-- `run_checks`, from the plans of the components on. -/
structure NextRun where
  sha256 : Sha256
  world : World
  suppressions : List EffectiveSuppression := []
  byComponent : List (Component × Plan)
  model : Workspace
  request : RunRequest := {}
  compileGaps : List (Component × CompileGap) := []
  configured : ScopeKind := .full
  recording : Recording
  runId : Text
  iciVersion : Text
  source : SourceSnapshot
  policyDigest : Text
  toolchainDigest : Text
  /-- What planning had to leave out. -/
  notes : List Text := []
  /-- What `drift_summary` says of inputs that changed. -/
  drift : Option Text := none
  /-- Why the run was cancelled, where it was. -/
  cancellation : Option Text := none
  runId_isText : IsText runId
  iciVersion_isText : IsText iciVersion
  policyDigest_isDigest : ∀ description, requireDigest policyDigest description = .ok ()
  toolchainDigest_isDigest : ∀ description, requireDigest toolchainDigest description = .ok ()
  -- `dict.fromkeys`
  languages_nodup : request.languages.Nodup

namespace NextRun

variable (run : NextRun)

def planned : List (Component × PlannedCheck) :=
  run.byComponent.flatMap fun entry => entry.2.val.map (entry.1, ·)

def taskIds : List Text := run.planned.map (·.2.taskId)

def taskComponents : Dict Text Text :=
  Dict.setAll [] (run.planned.map fun entry => (entry.2.taskId, entry.1.val.id))

def verified (scope : Workspace) : Result Verification := do
  let verification ← verify run.sha256 run.world run.suppressions run.taskComponents
    (run.byComponent.map (·.2.val))
  judgeCoverage run.model run.request scope run.compileGaps verification

def records (scope : Workspace) (verification : Verification) : Result (List CheckRecord) :=
  run.planned.mapM fun entry => (run.recording.site scope entry.1 entry.2).record run.sha256
    ((byTaskId verification.observations).get? entry.2.taskId) run.drift.isNone

def limitations : List Text :=
  run.notes ++ (run.drift.map (py "inputs changed while running: " ++ ·)).toList ++
    (run.cancellation.map fun reason =>
      py "cancelled: " ++ if reason = [] then py "user request" else reason).toList

def report (scope : Workspace) (verification : Verification) (checks : List CheckRecord)
    (baseline : Option BaselineComparison) : Report where
  runId := run.runId
  iciVersion := run.iciVersion
  source := run.source
  policyDigest := run.policyDigest
  toolchainDigest := run.toolchainDigest
  componentIds := scope.val.componentIds
  languages := requestedLanguages run.request scope
  scope := scopeKind run.configured run.request run.model scope verification
  requiredComponents := some run.model.val.requiredComponentIds
  omittedComponents := run.model.val.componentIds.filter (· ∉ scope.val.componentIds)
  limitations := run.limitations
  cancelled := run.cancellation.isSome
  baseline
  checks := some checks

end NextRun

end Ici
