import Ici.Domain.Observation
import Ici.Domain.Workspace

/-! # The run envelope: scope, execution, gate and publication, kept apart -/

namespace Ici

open Python

structure GateOutcomeFields where
  selected : GateVerdict
  workspace : GateVerdict := .notEvaluated
  hasViolations : Bool := false
  reasons : List Text := []
deriving DecidableEq

def GateOutcomeFields.check (gate : GateOutcomeFields) : Result Unit := do
  gate.reasons.forM (requireText · (py "gate reason"))
  refuseIf (gate.selected = .pass ∧ gate.hasViolations)
    (py "a passing scope cannot also report violations")
  refuseIf ((gate.selected = .fail ∨ gate.selected = .incomplete) ∧ gate.reasons = [])
    (py "a " ++ gate.selected.value ++ py " gate must say why")

abbrev GateOutcome := Checked GateOutcomeFields.check

def GateOutcome.make : GateOutcomeFields → Result GateOutcome :=
  Checked.construct GateOutcomeFields.check

def GateOutcome.exitCode (gate : GateOutcome) : ℕ :=
  match gate.val.selected with
  | .incomplete => 3
  | .fail => 1
  | _ => 0

structure ScopeSelectionFields where
  kind : ScopeKind
  selectedComponents : List Text := []
  selectedLanguages : List Text := []
  requiredComponents : List Text := []
  omittedComponents : List Text := []
  fullRequiredSatisfied : Bool := false
deriving DecidableEq

def ScopeSelectionFields.omitted (scope : ScopeSelectionFields) : Bool :=
  scope.requiredComponents.any (· ∉ scope.selectedComponents)

def ScopeSelectionFields.check (scope : ScopeSelectionFields) : Result Unit := do
  [(py "selected_components", scope.selectedComponents),
    (py "selected_languages", scope.selectedLanguages),
    (py "required_components", scope.requiredComponents),
    (py "omitted_components", scope.omittedComponents)].forM fun field => do
      field.2.forM (requireIdentifier · (py "scope " ++ field.1 ++ py " entry"))
      requireUniqueIdentifiers field.2 (py "scope " ++ field.1)
  refuseIf (scope.kind = .full ∧ !scope.fullRequiredSatisfied)
    (py "a full scope must satisfy the required components")
  refuseIf (scope.kind ≠ .full ∧ scope.fullRequiredSatisfied ∧ scope.omitted)
    (py "a scope that omits components cannot be fully satisfied")

abbrev ScopeSelection := Checked ScopeSelectionFields.check

structure ExecutionSummaryFields where
  requiredComplete : Bool
  cancelled : Bool := false
  blockedTaskIds : List Text := []
  failedTaskIds : List Text := []
  reusedTaskIds : List Text := []
deriving DecidableEq

def ExecutionSummaryFields.check (execution : ExecutionSummaryFields) : Result Unit := do
  [(py "blocked_task_ids", execution.blockedTaskIds), (py "failed_task_ids", execution.failedTaskIds),
    (py "reused_task_ids", execution.reusedTaskIds)].forM fun field =>
      field.2.forM (requireIdentifier · (py "execution " ++ field.1 ++ py " entry"))
  refuseIf (execution.requiredComplete ∧ (execution.blockedTaskIds ≠ [] ∨ execution.cancelled))
    (py "a run with blocked or cancelled work is not complete")

abbrev ExecutionSummary := Checked ExecutionSummaryFields.check

structure ProducerFields where
  iciVersion : Text
  bundleDigest : Option Text := none
deriving DecidableEq

def ProducerFields.check (producer : ProducerFields) : Result Unit := do
  requireText producer.iciVersion (py "ici version")
  producer.bundleDigest.toList.forM (requireDigest · (py "bundle digest"))

abbrev Producer := Checked ProducerFields.check

def fingerprintVersion : Text := py "ici.next.fingerprint.v3"

structure RunIdentityFields where
  source : SourceSnapshot
  policyDigest : Text
  toolchainDigest : Text
  fingerprintVersion : Text := []
deriving DecidableEq

def RunIdentityFields.check (identity : RunIdentityFields) : Result Unit := do
  requireDigest identity.policyDigest (py "run policy_digest")
  requireDigest identity.toolchainDigest (py "run toolchain_digest")

abbrev RunIdentity := Checked RunIdentityFields.check

structure PublicationOutcome where
  state : PublicationState := .notConfigured
  detail : Text := []
deriving DecidableEq

structure BaselineComparisonFields where
  state : BaselineState
  origin : Text := []
  reason : Text := []
  new : List Text := []
  unchanged : List Text := []
  resolved : List Text := []
  carried : List Text := []
deriving DecidableEq

def BaselineComparisonFields.check (baseline : BaselineComparisonFields) : Result Unit := do
  [(py "new", baseline.new), (py "unchanged", baseline.unchanged), (py "resolved", baseline.resolved),
    (py "carried", baseline.carried)].forM fun field =>
      field.2.forM (requireText · (py "baseline " ++ field.1 ++ py " fingerprint"))
  refuseIf (baseline.state = .incompatible ∧ (baseline.new ≠ [] ∨ baseline.unchanged ≠ [] ∨
      baseline.resolved ≠ [] ∨ baseline.carried ≠ []))
    (py "an incompatible baseline comparison carries no delta")

abbrev BaselineComparison := Checked BaselineComparisonFields.check

structure CheckRecordFields where
  taskId : Text
  checkId : Text
  componentId : Text
  language : Text
  scopeDigest : Text
  state : TaskState
  evidenceComplete : Bool
  analysisUnitId : Option Text := none
  variant : Option Text := none
deriving DecidableEq

def CheckRecordFields.check (record : CheckRecordFields) : Result Unit := do
  [(py "task_id", record.taskId), (py "check_id", record.checkId),
    (py "component_id", record.componentId), (py "language", record.language)].forM fun field =>
      requireIdentifier field.2 field.1
  [(py "analysis_unit_id", record.analysisUnitId), (py "variant", record.variant)].forM fun field =>
    field.2.toList.forM (requireIdentifier · field.1)
  requireDigest record.scopeDigest (py "check scope")
  refuseIf (record.evidenceComplete ∧ record.state ≠ .succeeded)
    (py "only a succeeded check can carry complete evidence")

abbrev CheckRecord := Checked CheckRecordFields.check

structure RunResultFields where
  runId : Text
  producer : Producer
  identity : RunIdentity
  scope : ScopeSelection
  execution : ExecutionSummary
  gate : GateOutcome
  findings : List Finding := []
  metrics : List Measurement := []
  publication : PublicationOutcome := {}
  limitations : List Text := []
  baseline : Option BaselineComparison := none
  checks : Option (List CheckRecord) := none
  schemaId : Text := py "ici.next.run"
  schemaVersion : ℤ := 2
deriving DecidableEq

def RunResultFields.blockingFindings (result : RunResultFields) : List Finding :=
  result.findings.filter Finding.countsAgainstGate

def RunResultFields.check (result : RunResultFields) : Result Unit := do
  requireText result.runId (py "run id")
  result.limitations.forM (requireText · (py "run limitation"))
  refuseIf (result.schemaId ≠ py "ici.next.run")
    (py "run schema_id must be 'ici.next.run', not " ++ pyRepr result.schemaId)
  refuseIf (result.schemaVersion ≠ 1 ∧ result.schemaVersion ≠ 2)
    (py "run schema_version must be 1 or 2")
  result.checks.toList.forM fun checks => do
    refuseIf (result.schemaVersion = 1) (py "v1 results cannot carry check scope records")
    requireUniqueIdentifiers (checks.map (·.val.taskId)) (py "run check tasks")
  refuseIf (result.gate.val.hasViolations ∧ result.blockingFindings = [])
    (py "gate reports violations but no finding counts against it")
  refuseIf (!result.execution.val.requiredComplete ∧ result.gate.val.selected = .pass)
    (py "an incomplete run cannot report a passing gate")

abbrev RunResult := Checked RunResultFields.check

end Ici
