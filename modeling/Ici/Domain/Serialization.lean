import Ici.Domain.Result
import Ici.Library.Json

/-! # Observations and run results as documents

An empty or absent field is left out, exactly as the codec leaves it out. -/

namespace Ici

open Raising Python

def optional (name : Text) (value : Option Json) : List (Text × Json) :=
  value.toList.map fun value => (name, value)

def nonEmpty (name : Text) (value : Text) : List (Text × Json) :=
  if value = [] then [] else [(name, .str value)]

def listed (name : Text) (items : List Json) : List (Text × Json) :=
  if items.isEmpty then [] else [(name, .arr items)]

section Lookups

variable (name key : Text)

theorem get?_optional (value : Option Json) :
    Dict.get? (optional name value) key = if name = key then value else none := by
  cases value with
  | none =>
    rw [ite_self]
    rfl
  | some value => rfl

theorem get?_nonEmpty (value : Text) : Dict.get? (nonEmpty name value) key =
      if name = key then (if value = [] then none else some (.str value)) else none := by
  unfold nonEmpty
  split
  · rw [ite_self]
    rfl
  · rfl

theorem get?_listed (items : List Json) : Dict.get? (listed name items) key =
      if name = key then (if items = [] then none else some (.arr items)) else none := by
  cases items with
  | nil =>
    rw [if_pos rfl, ite_self]
    rfl
  | cons item items => simp [listed, Dict.get?]

theorem getD_nonEmpty (value : Text) :
    (if value = [] then none else some (Json.str value)).getD (.str []) = .str value := by
  split <;> simp [*]

theorem getD_listed (items : List Json) :
    (if items = [] then none else some (Json.arr items)).getD (.arr []) = .arr items := by
  split <;> simp [*]

end Lookups

def spanToDict (span : SourceSpan) : Json :=
  .obj ([(py "path", .str span.val.path), (py "start_line", .int span.val.startLine)] ++
    optional (py "end_line") (span.val.endLine.map .int) ++
    optional (py "start_column") (span.val.startColumn.map .int) ++
    optional (py "end_column") (span.val.endColumn.map .int) ++
    nonEmpty (py "label") span.val.label)

def suppressionToDict (suppression : FindingSuppression) : List (Text × Json) :=
  if suppression.val.suppressed then
    [(py "suppression", .obj [(py "suppressed", .bool true), (py "kind", .str suppression.val.kind),
      (py "reason", .str suppression.val.reason), (py "origin", .str suppression.val.origin)])]
  else []

def findingToDict (finding : Finding) : Json :=
  .obj ([(py "fingerprint", .str finding.val.fingerprint), (py "rule_id", .str finding.val.ruleId),
      (py "message", .str finding.val.message), (py "severity", .str finding.val.severity),
      (py "confidence", .str finding.val.confidence), (py "provider", .str finding.val.provider),
      (py "evidence", .str finding.val.evidence.value),
      (py "primary_location", spanToDict finding.val.primaryLocation)] ++
    listed (py "related_locations") (finding.val.relatedLocations.map spanToDict) ++
    nonEmpty (py "native_rule_id") finding.val.nativeRuleId ++
    nonEmpty (py "rule_version") finding.val.ruleVersion ++
    nonEmpty (py "category") finding.val.category ++
    listed (py "tags") (finding.val.tags.map .str) ++
    optional (py "component_id") (finding.val.componentId.map .str) ++
    optional (py "analysis_unit_id") (finding.val.analysisUnitId.map .str) ++
    optional (py "variant") (finding.val.variant.map .str) ++
    optional (py "task_id") (finding.val.taskId.map .str) ++
    suppressionToDict finding.val.suppression ++
    listed (py "limitations") (finding.val.limitations.map .str))

def measurementToDict (measurement : Measurement) : Json :=
  .obj ([(py "name", .str measurement.val.name), (py "value", .float measurement.val.value),
      (py "evidence", .str measurement.val.evidence.value)] ++
    nonEmpty (py "unit") measurement.val.unit ++
    optional (py "numerator") (measurement.val.numerator.map .int) ++
    optional (py "denominator") (measurement.val.denominator.map .int))

def observationToDict (observation : Observation) : Json :=
  .obj ([(py "task_id", .str observation.val.taskId),
      (py "provider", .str observation.val.provider),
      (py "state", .str observation.val.state.value)] ++
    listed (py "findings") (observation.val.findings.map findingToDict) ++
    listed (py "measurements") (observation.val.measurements.map measurementToDict) ++
    optional (py "exit_code") (observation.val.exitCode.map .int) ++
    optional (py "signal") (observation.val.signal.map .str) ++
    optional (py "duration_seconds") (observation.val.durationSeconds.map .float) ++
    (if observation.val.timedOut then [(py "timed_out", .bool true)] else []) ++
    (if observation.val.truncated then [(py "truncated", .bool true)] else []) ++
    listed (py "tool_versions")
      (observation.val.toolVersions.map fun item => .arr [.str item.1, .str item.2]) ++
    listed (py "limitations") (observation.val.limitations.map .str))

def codecStyle : Json.Style where
  itemSeparator := py ","
  keySeparator := py ":"
  ensureAscii := false
  allowNan := false

def dumps (payload : Json) : Result Text := Json.encode codecStyle payload

/-- The document has canonical bytes: every number renders and no text holds a lone surrogate. -/
def HasBytes (payload : Json) : Prop :=
  ∀ leaf ∈ payload.leaves, leaf.IsPrintable codecStyle ∧ leaf.IsEncodable

theorem codecStyle_admits : codecStyle.Admits (isSurrogate · = false) where
  plain c hc := (noSurrogate_cons.mp (IsPlain.noSurrogate (t := [c]) (by simpa [IsPlain] using hc))).1
  item := (by decide : NoSurrogate (py ","))
  key := (by decide : NoSurrogate (py ":"))

theorem exists_bytes_iff {payload : Json} :
    (∃ bytes, (dumps payload >>= utf8) = .ok bytes) ↔ HasBytes payload := by
  unfold HasBytes dumps
  rw [forall₂_and, ← Json.exists_encode_iff]
  constructor
  · rintro ⟨bytes, h⟩
    obtain ⟨t, hEncode, hBytes⟩ := bind_eq_ok.mp h
    exact ⟨⟨t, hEncode⟩, (Json.noSurrogate_encode_iff rfl codecStyle_admits hEncode).mp
      (exists_utf8_iff.mp ⟨bytes, hBytes⟩)⟩
  · rintro ⟨⟨t, hEncode⟩, hLeaves⟩
    obtain ⟨bytes, hBytes⟩ := exists_utf8_iff.mpr
      ((Json.noSurrogate_encode_iff rfl codecStyle_admits hEncode).mpr hLeaves)
    exact ⟨bytes, bind_eq_ok.mpr ⟨t, hEncode, hBytes⟩⟩

/-! ## Run results as documents

The `ici.next.run` envelope. Scope, execution and gate are written in full; what is optional
elsewhere is left out. -/

def textList (items : List Text) : Json := .arr (items.map .str)

def textOrNull (value : Option Text) : Json := (value.map .str).getD .null

def snapshotToDict (snapshot : SourceSnapshot) : Json :=
  .obj ([(py "digest", .str snapshot.val.digest), (py "dirty", .bool snapshot.val.dirty)] ++
    listed (py "files") (snapshot.val.files.map .str) ++
    listed (py "generated") (snapshot.val.generated.map .str) ++
    listed (py "external_inputs") (snapshot.val.externalInputs.map .str) ++
    optional (py "commit") (snapshot.val.commit.map .str))

def producerToDict (producer : Producer) : Json :=
  .obj ([(py "ici_version", .str producer.val.iciVersion)] ++
    optional (py "bundle_digest") (producer.val.bundleDigest.map .str))

def identityToDict (identity : RunIdentity) : Json :=
  .obj [(py "source", snapshotToDict identity.val.source),
    (py "policy_digest", .str identity.val.policyDigest),
    (py "toolchain_digest", .str identity.val.toolchainDigest),
    (py "fingerprint_version", .str identity.val.fingerprintVersion)]

def scopeToDict (scope : ScopeSelection) : Json :=
  .obj [(py "kind", .str scope.val.kind.value),
    (py "selected_components", textList scope.val.selectedComponents),
    (py "selected_languages", textList scope.val.selectedLanguages),
    (py "required_components", textList scope.val.requiredComponents),
    (py "omitted_components", textList scope.val.omittedComponents),
    (py "full_required_satisfied", .bool scope.val.fullRequiredSatisfied)]

def executionToDict (execution : ExecutionSummary) : Json :=
  .obj [(py "required_complete", .bool execution.val.requiredComplete),
    (py "cancelled", .bool execution.val.cancelled),
    (py "blocked_task_ids", textList execution.val.blockedTaskIds),
    (py "failed_task_ids", textList execution.val.failedTaskIds),
    (py "reused_task_ids", textList execution.val.reusedTaskIds)]

def gateToDict (gate : GateOutcome) : Json :=
  .obj [(py "selected", .str gate.val.selected.value), (py "workspace", .str gate.val.workspace.value),
    (py "has_violations", .bool gate.val.hasViolations), (py "reasons", textList gate.val.reasons)]

def publicationToDict (publication : PublicationOutcome) : Json :=
  .obj [(py "state", .str publication.state.value), (py "detail", .str publication.detail)]

/-- `{**vars(item), "state": item.state.value}`. -/
def checkRecordToDict (record : CheckRecord) : Json :=
  .obj [(py "task_id", .str record.val.taskId), (py "check_id", .str record.val.checkId),
    (py "component_id", .str record.val.componentId), (py "language", .str record.val.language),
    (py "scope_digest", .str record.val.scopeDigest), (py "state", .str record.val.state.value),
    (py "evidence_complete", .bool record.val.evidenceComplete),
    (py "analysis_unit_id", textOrNull record.val.analysisUnitId),
    (py "variant", textOrNull record.val.variant)]

def baselineToDict (baseline : BaselineComparison) : Json :=
  .obj [(py "state", .str baseline.val.state.value), (py "origin", .str baseline.val.origin),
    (py "reason", .str baseline.val.reason), (py "new", textList baseline.val.new),
    (py "unchanged", textList baseline.val.unchanged), (py "resolved", textList baseline.val.resolved),
    (py "carried", textList baseline.val.carried)]

/-- A v1 document has no `checks`; in a v2 document `null` means an unknown evidence scope. -/
def checksMember (result : RunResult) : List (Text × Json) :=
  if 2 ≤ result.val.schemaVersion then
    [(py "checks", (result.val.checks.map fun checks => .arr (checks.map checkRecordToDict)).getD .null)]
  else []

def runResultFields (result : RunResult) : Dict Text Json :=
  [(py "schema_id", .str result.val.schemaId), (py "schema_version", .int result.val.schemaVersion),
    (py "run_id", .str result.val.runId), (py "producer", producerToDict result.val.producer),
    (py "identity", identityToDict result.val.identity), (py "scope", scopeToDict result.val.scope),
    (py "execution", executionToDict result.val.execution), (py "gate", gateToDict result.val.gate),
    (py "publication", publicationToDict result.val.publication),
    (py "findings", .arr (result.val.findings.map findingToDict)),
    (py "metrics", .arr (result.val.metrics.map measurementToDict)),
    (py "limitations", textList result.val.limitations)] ++
  checksMember result ++
  optional (py "baseline") (result.val.baseline.map baselineToDict)

def runResultToDict (result : RunResult) : Json := .obj (runResultFields result)

end Ici
