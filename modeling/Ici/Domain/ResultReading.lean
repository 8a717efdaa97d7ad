import Ici.Domain.Decoding
import Ici.Domain.Result

/-! # Reading results and observations

The record decoders. Arguments are read in the order they are written, and only then does the
constructor check them. What `tuple`, `bool`, `or` and `float` make of a value is a parameter: the
code applies Python's own (`builtin`), which take whatever they are given. -/

namespace Ici

open Python Checked

def typeError (text : Text) : PyError := ⟨py "TypeError", text⟩

def overflowError (text : Text) : PyError := ⟨py "OverflowError", text⟩

/-- `tuple(value)`: the items of an array, the characters of a string, the keys of an object. -/
def tupleOf : Json → Result (List Json)
  | .arr items => .ok items
  | .str t => .ok (t.map fun c => .str [c])
  | .obj fields => .ok (fields.map fun field => .str field.1)
  | other => .error (typeError ([0x27] ++ typeName other ++ py "' object is not iterable"))

def truth : Json → Bool
  | .null => false
  | .bool value => value
  | .int value => value ≠ 0
  | .float value => value.val ≠ .fin 0
  | .str t => t ≠ []
  | .arr items => !items.isEmpty
  | .obj fields => !fields.isEmpty

/-- `float(value)` of an integer. -/
def floatOf (n : ℤ) : Result Double :=
  if (Double.ofRat n).val.isFinite then .ok (Double.ofRat n)
  else .error (overflowError (py "int too large to convert to float"))

structure Coercions where
  items : Json → Result (List Json)
  flag : Json → Result Bool
  orEmpty : Json → Result Json
  number : ℤ → Result Double

def builtin : Coercions where
  items := tupleOf
  flag value := .ok (truth value)
  orEmpty value := .ok (if truth value then value else .str [])
  number := floatOf

section

variable (coerce : Coercions) (data : Dict Text Json) (name : Text)

def tupleField : Result (List Json) :=
  coerce.items (getOr data name (.arr []))

def boolField : Result Bool :=
  coerce.flag (getOr data name (.bool false))

end

/-- `require_tuple(values, str, description)` on a tuple. -/
def textItems (items : List Json) (description : Text) : Result (List Text) :=
  items.mapM fun item => stringValue item (description ++ py " must contain only str values")

def evidenceLevels : List (Text × EvidenceLevel) :=
  [EvidenceLevel.measured, .estimated, .notRun, .notApplicable].map fun e => (e.value, e)

def taskStates : List (Text × TaskState) :=
  [TaskState.ready, .running, .succeeded, .failed, .blocked, .cancelled].map fun s => (s.value, s)

def scopeKinds : List (Text × ScopeKind) :=
  [ScopeKind.full, .partial', .standalone].map fun k => (k.value, k)

def gateVerdicts : List (Text × GateVerdict) :=
  [GateVerdict.pass, .fail, .incomplete, .notEvaluated].map fun v => (v.value, v)

def publicationStates : List (Text × PublicationState) :=
  [PublicationState.success, .failed, .notConfigured].map fun s => (s.value, s)

def baselineStates : List (Text × BaselineState) :=
  [BaselineState.comparable, .incompatible].map fun s => (s.value, s)

/-! ## Findings and measurements -/

section Decoders

variable (coerce : Coercions)

section

variable (payload : Json)

def spanFromDict : Result SourceSpan := do
  let data ← requireMapping payload (py "location")
  let path ← relativePathValue (getValue data (py "path")) (py "span path") false
  let startLine ← nonNegativeValue (getValue data (py "start_line")) (py "span start line")
  refuseIf (startLine < 1) (py "span start line is 1-indexed")
  let endLine ← unlessNone (nonNegativeValue · (py "span end line")) (getValue data (py "end_line"))
  refuseIf (∃ line ∈ endLine, line < startLine) (py "span end line must not precede its start line")
  let startColumn ← unlessNone (nonNegativeValue · (py "span start_column"))
    (getValue data (py "start_column"))
  refuseIf (∃ column ∈ startColumn, column < 1) (py "span start_column is 1-indexed")
  let endColumn ← unlessNone (nonNegativeValue · (py "span end_column"))
    (getValue data (py "end_column"))
  refuseIf (∃ column ∈ endColumn, column < 1) (py "span end_column is 1-indexed")
  let label ← stringValue (getOr data (py "label") (.str [])) (py "span label must be a string")
  construct SourceSpanFields.check
    { path
      startLine
      endLine
      startColumn
      endColumn
      label }

def suppressionFromDict : Result FindingSuppression :=
  match payload with
  | .null => .ok FindingSuppression.none
  | payload => do
    let raw ← requireMapping payload (py "finding suppression")
    let suppressed ← boolField coerce raw (py "suppressed")
    let kind ← stringValue (getOr raw (py "kind") (.str [])) (py "suppression kind must be a string")
    let reason ← stringValue (getOr raw (py "reason") (.str []))
      (py "suppression reason must be a string")
    let origin ← stringValue (getOr raw (py "origin") (.str []))
      (py "suppression origin must be a string")
    construct FindingSuppressionFields.check
      { suppressed
        kind
        reason
        origin }

def findingFromDict : Result Finding := do
  let data ← requireMapping payload (py "finding")
  let primaryLocation ← spanFromDict (getValue data (py "primary_location"))
  let tagItems ← tupleField coerce data (py "tags")
  let relatedItems ← tupleField coerce data (py "related_locations")
  let relatedLocations ← relatedItems.mapM spanFromDict
  let evidence ← readEnum evidenceLevels (getOr data (py "evidence") (.str (py "MEASURED")))
    (py "finding evidence")
  let suppression ← suppressionFromDict coerce (getValue data (py "suppression"))
  let limitationItems ← tupleField coerce data (py "limitations")
  let fingerprint ← textValue (getValue data (py "fingerprint")) (py "fingerprint")
  let ruleId ← textValue (getValue data (py "rule_id")) (py "rule id")
  let message ← textValue (getValue data (py "message")) (py "finding message")
  let severity ← identifierValue (getValue data (py "severity")) (py "severity")
  let confidence ← identifierValue (getValue data (py "confidence")) (py "confidence")
  let provider ← identifierValue (getValue data (py "provider")) (py "provider")
  let nativeRuleId ← stringValue (getOr data (py "native_rule_id") (.str []))
    (py "finding native_rule_id must be a string")
  let ruleVersion ← stringValue (getOr data (py "rule_version") (.str []))
    (py "finding rule_version must be a string")
  let category ← stringValue (getOr data (py "category") (.str []))
    (py "finding category must be a string")
  let tags ← textItems tagItems (py "finding tags")
  tags.forM (requireIdentifier · (py "finding tag"))
  let componentId ← unlessNone (identifierValue · (py "finding component_id"))
    (getValue data (py "component_id"))
  let analysisUnitId ← unlessNone (identifierValue · (py "finding analysis_unit_id"))
    (getValue data (py "analysis_unit_id"))
  let variant ← unlessNone (identifierValue · (py "finding variant")) (getValue data (py "variant"))
  let taskId ← unlessNone (identifierValue · (py "finding task_id")) (getValue data (py "task_id"))
  let limitations ← textItems limitationItems (py "finding limitations")
  construct FindingFields.check
    { fingerprint
      ruleId
      message
      severity
      confidence
      primaryLocation
      provider
      nativeRuleId
      ruleVersion
      category
      tags
      relatedLocations
      componentId
      analysisUnitId
      variant
      taskId
      evidence
      suppression
      limitations }

/-- `float(value)` of a number that is not NaN. -/
def measuredValue : Json → Result Double
  | .int n => coerce.number n
  | .float x =>
    if x.val = .nan then .error (valueError (py "measurement value must not be NaN")) else .ok x
  | _ => .error (valueError (py "measurement value must be a number"))

def measurementFromDict : Result Measurement := do
  let data ← requireMapping payload (py "metric")
  let evidence ← readEnum evidenceLevels (getOr data (py "evidence") (.str (py "MEASURED")))
    (py "metric evidence")
  let name ← identifierValue (getValue data (py "name")) (py "measurement name")
  let value ← measuredValue coerce (getValue data (py "value"))
  let unit ← stringValue (getOr data (py "unit") (.str [])) (py "measurement unit must be a string")
  let numerator ← unlessNone (nonNegativeValue · (py "measurement numerator"))
    (getValue data (py "numerator"))
  let denominator ← unlessNone (nonNegativeValue · (py "measurement denominator"))
    (getValue data (py "denominator"))
  construct MeasurementFields.check
    { name
      value
      unit
      numerator
      denominator
      evidence }

def exitCodeValue : Json → Result (Option ℤ)
  | .null => .ok none
  | .int n => .ok (some n)
  | _ => .error (valueError (py "observation exit code must be an integer"))

/-- `float(value)` of a duration; NaN is not below zero. -/
def durationValue : Json → Result (Option Double)
  | .null => .ok none
  | .int n =>
    if n < 0 then .error (valueError (py "observation duration must be a non-negative number"))
    else (coerce.number n).map some
  | .float x =>
    if x.val.isNegative then
      .error (valueError (py "observation duration must be a non-negative number"))
    else .ok (some x)
  | _ => .error (valueError (py "observation duration must be a non-negative number"))

def toolVersion : List Json → Result (Text × Text)
  | [.str name, .str version] => .ok (name, version)
  | _ => .error (valueError
      (py "observation tool versions must be (name, version) string pairs"))

def observationFromDict : Result Observation := do
  let data ← requireMapping payload (py "observation")
  let state ← readEnum taskStates (getValue data (py "state")) (py "observation state")
  let findingItems ← tupleField coerce data (py "findings")
  let findings ← findingItems.mapM (findingFromDict coerce)
  let measurementItems ← tupleField coerce data (py "measurements")
  let measurements ← measurementItems.mapM (measurementFromDict coerce)
  let timedOut ← boolField coerce data (py "timed_out")
  let truncated ← boolField coerce data (py "truncated")
  let versionItems ← tupleField coerce data (py "tool_versions")
  let versionTuples ← versionItems.mapM coerce.items
  let limitationItems ← tupleField coerce data (py "limitations")
  let taskId ← identifierValue (getValue data (py "task_id")) (py "observation task id")
  let provider ← identifierValue (getValue data (py "provider")) (py "observation provider")
  let exitCode ← exitCodeValue (getValue data (py "exit_code"))
  let signal ← unlessNone (textValue · (py "observation signal")) (getValue data (py "signal"))
  let durationSeconds ← durationValue coerce (getValue data (py "duration_seconds"))
  let toolVersions ← versionTuples.mapM toolVersion
  let limitations ← textItems limitationItems (py "observation limitations")
  construct ObservationFields.check
    { taskId
      provider
      state
      findings
      measurements
      exitCode
      signal
      timedOut
      truncated
      durationSeconds
      toolVersions
      limitations }

/-! ## The parts of a run -/

def producerFromDict (producer : Dict Text Json) : Result Producer := do
  let iciVersion ← textValue (getValue producer (py "ici_version")) (py "ici version")
  let bundleDigest ← unlessNone (digestValue · (py "bundle digest"))
    (getValue producer (py "bundle_digest"))
  construct ProducerFields.check
    { iciVersion
      bundleDigest }

def snapshotFromDict (snapshot : Dict Text Json) : Result SourceSnapshot := do
  let fileItems ← tupleField coerce snapshot (py "files")
  let generatedItems ← tupleField coerce snapshot (py "generated")
  let externalItems ← tupleField coerce snapshot (py "external_inputs")
  let dirty ← boolField coerce snapshot (py "dirty")
  let digest ← digestValue (getValue snapshot (py "digest")) (py "source snapshot digest")
  let files ← textItems fileItems (py "snapshot file")
  requireRelativePaths files (py "snapshot file")
  let generated ← textItems generatedItems (py "generated input")
  requireRelativePaths generated (py "generated input")
  let externalInputs ← textItems externalItems (py "external input")
  externalInputs.forM (requireText · (py "external input"))
  let commit ← unlessNone (textValue · (py "snapshot commit")) (getValue snapshot (py "commit"))
  construct SourceSnapshotFields.check
    { digest
      files
      generated
      externalInputs
      commit
      dirty }

def identityFromDict : Result RunIdentity := do
  let data ← requireMapping payload (py "run identity")
  let snapshot ← requireMapping (getValue data (py "source")) (py "source snapshot")
  let source ← snapshotFromDict coerce snapshot
  let version ← coerce.orEmpty (getValue data (py "fingerprint_version"))
  let policyDigest ← digestValue (getValue data (py "policy_digest")) (py "run policy_digest")
  let toolchainDigest ← digestValue (getValue data (py "toolchain_digest")) (py "run toolchain_digest")
  let fingerprintVersion ← stringValue version (py "run fingerprint_version must be a string")
  construct RunIdentityFields.check
    { source
      policyDigest
      toolchainDigest
      fingerprintVersion }

def scopeItems (items : List Json) (name : Text) : Result (List Text) := do
  let values ← textItems items (py "scope " ++ name)
  values.forM (requireIdentifier · (py "scope " ++ name ++ py " entry"))
  requireUniqueIdentifiers values (py "scope " ++ name)
  return values

def scopeFromDict : Result ScopeSelection := do
  let data ← requireMapping payload (py "scope")
  let kind ← readEnum scopeKinds (getValue data (py "kind")) (py "scope kind")
  let componentItems ← tupleField coerce data (py "selected_components")
  let languageItems ← tupleField coerce data (py "selected_languages")
  let requiredItems ← tupleField coerce data (py "required_components")
  let omittedItems ← tupleField coerce data (py "omitted_components")
  let fullRequiredSatisfied ← boolField coerce data (py "full_required_satisfied")
  let selectedComponents ← scopeItems componentItems (py "selected_components")
  let selectedLanguages ← scopeItems languageItems (py "selected_languages")
  let requiredComponents ← scopeItems requiredItems (py "required_components")
  let omittedComponents ← scopeItems omittedItems (py "omitted_components")
  construct ScopeSelectionFields.check
    { kind
      selectedComponents
      selectedLanguages
      requiredComponents
      omittedComponents
      fullRequiredSatisfied }

def executionFromDict (execution : Dict Text Json) : Result ExecutionSummary := do
  let requiredComplete ← boolField coerce execution (py "required_complete")
  let cancelled ← boolField coerce execution (py "cancelled")
  let blockedItems ← tupleField coerce execution (py "blocked_task_ids")
  let failedItems ← tupleField coerce execution (py "failed_task_ids")
  let reusedItems ← tupleField coerce execution (py "reused_task_ids")
  let blockedTaskIds ← textItems blockedItems (py "execution blocked_task_ids")
  blockedTaskIds.forM (requireIdentifier · (py "execution blocked_task_ids entry"))
  let failedTaskIds ← textItems failedItems (py "execution failed_task_ids")
  failedTaskIds.forM (requireIdentifier · (py "execution failed_task_ids entry"))
  let reusedTaskIds ← textItems reusedItems (py "execution reused_task_ids")
  reusedTaskIds.forM (requireIdentifier · (py "execution reused_task_ids entry"))
  construct ExecutionSummaryFields.check
    { requiredComplete
      cancelled
      blockedTaskIds
      failedTaskIds
      reusedTaskIds }

def gateFromDict : Result GateOutcome := do
  let data ← requireMapping payload (py "gate")
  let selected ← readEnum gateVerdicts (getValue data (py "selected")) (py "selected gate")
  let workspace ← readEnum gateVerdicts (getOr data (py "workspace") (.str (py "NOT_EVALUATED")))
    (py "workspace gate")
  let hasViolations ← boolField coerce data (py "has_violations")
  let reasonItems ← tupleField coerce data (py "reasons")
  let reasons ← textItems reasonItems (py "gate reasons")
  construct GateOutcomeFields.check
    { selected
      workspace
      hasViolations
      reasons }

def publicationFromDict : Result PublicationOutcome :=
  match payload with
  | .null => .ok {}
  | payload => do
    let data ← requireMapping payload (py "publication")
    let state ← readEnum publicationStates (getOr data (py "state") (.str (py "NOT_CONFIGURED")))
      (py "publication state")
    let detail ← stringValue (getOr data (py "detail") (.str []))
      (py "publication detail must be a string")
    return {
      state
      detail }

def baselineItems (items : List Json) (name : Text) : Result (List Text) := do
  let values ← textItems items (py "baseline " ++ name)
  values.forM (requireText · (py "baseline " ++ name ++ py " fingerprint"))
  return values

def baselineFromDict : Result (Option BaselineComparison) :=
  match payload with
  | .null => .ok none
  | payload => do
    let data ← requireMapping payload (py "baseline")
    let state ← readEnum baselineStates (getValue data (py "state")) (py "baseline state")
    let newItems ← tupleField coerce data (py "new")
    let unchangedItems ← tupleField coerce data (py "unchanged")
    let resolvedItems ← tupleField coerce data (py "resolved")
    let carriedItems ← tupleField coerce data (py "carried")
    let origin ← stringValue (getOr data (py "origin") (.str []))
      (py "baseline origin must be a string")
    let reason ← stringValue (getOr data (py "reason") (.str []))
      (py "baseline reason must be a string")
    let new ← baselineItems newItems (py "new")
    let unchanged ← baselineItems unchangedItems (py "unchanged")
    let resolved ← baselineItems resolvedItems (py "resolved")
    let carried ← baselineItems carriedItems (py "carried")
    let baseline ← construct BaselineComparisonFields.check
      { state
        origin
        reason
        new
        unchanged
        resolved
        carried }
    return some baseline

/-! ## Check records -/

/-- The parameters of `CheckRecord` without a default, `state` apart. -/
def checkRecordRequired : List Text :=
  [py "task_id", py "check_id", py "component_id", py "language", py "scope_digest",
    py "evidence_complete"]

def checkRecordNames : List Text := checkRecordRequired ++ [py "analysis_unit_id", py "variant"]

def missingNames : List Text → Text
  | [] => []
  | [name] => name
  | [first, last] => first ++ py " and " ++ last
  | names => join (py ", ") names.dropLast ++ py ", and " ++ names.getLastD []

def checkRecordCall (data : Dict Text Json) : Result Unit :=
  match data.keys.find? fun name => name ∉ py "state" :: checkRecordNames with
  | some name => .error (typeError
      (if name = py "self" then py "CheckRecord.__init__() got multiple values for argument 'self'"
      else py "CheckRecord.__init__() got an unexpected keyword argument " ++ pyRepr name))
  | none =>
    match checkRecordRequired.filter (· ∉ data.keys) with
    | [] => .ok ()
    | missing => .error (typeError
        (py "CheckRecord.__init__() missing " ++ natDigits missing.length ++
          py " required positional argument" ++ (if missing.length = 1 then [] else py "s") ++ py ": " ++
          missingNames (missing.map pyRepr)))

def boolValue (value : Json) (text : Text) : Result Bool :=
  match value with
  | .bool b => .ok b
  | _ => .error (valueError text)

/-- `CheckRecord(**…, state=…)`. -/
def checkRecordOfValues (data : Dict Text Json) : Result CheckRecord := do
  let state ← readEnum taskStates (getValue data (py "state")) (py "check state")
  checkRecordCall data
  let taskId ← identifierValue (getValue data (py "task_id")) (py "task_id")
  let checkId ← identifierValue (getValue data (py "check_id")) (py "check_id")
  let componentId ← identifierValue (getValue data (py "component_id")) (py "component_id")
  let language ← identifierValue (getValue data (py "language")) (py "language")
  let analysisUnitId ← unlessNone (identifierValue · (py "analysis_unit_id"))
    (getValue data (py "analysis_unit_id"))
  let variant ← unlessNone (identifierValue · (py "variant")) (getValue data (py "variant"))
  let scopeDigest ← digestValue (getValue data (py "scope_digest")) (py "check scope")
  let evidenceComplete ← boolValue (getValue data (py "evidence_complete"))
    (py "check evidence_complete must be a boolean")
  construct CheckRecordFields.check
    { taskId
      checkId
      componentId
      language
      scopeDigest
      state
      evidenceComplete
      analysisUnitId
      variant }

def checkRecordFromDict : Result CheckRecord := do
  let data ← requireMapping payload (py "check record")
  if py "analysis_unit_id" ∈ data.keys ∧ py "variant" ∈ data.keys then
    match checkRecordOfValues data with
    | .ok record => .ok record
    | .error e =>
      if e.name = py "TypeError" ∨ isValueError e then
        .error (schemaError (py "check record is not valid: " ++ e.text))
      else .error e
  else .error (schemaError (py "check record requires explicit analysis_unit_id and variant"))

def checksFromDict : Result (Option (List CheckRecord)) :=
  match payload with
  | .null => .ok none
  | .arr items => (items.mapM checkRecordFromDict).map some
  | _ => .error (schemaError (py "checks must be an array or null"))

def isSchemaError (e : PyError) : Bool :=
  e.name ∈ [py "SchemaError", py "UnsupportedSchemaError"]

/-- The body of the `try`. -/
def runOfValues (data execution producer : Dict Text Json) (version : ℤ) : Result RunResult := do
  let producer ← producerFromDict producer
  let identity ← identityFromDict coerce (getValue data (py "identity"))
  let scope ← scopeFromDict coerce (getValue data (py "scope"))
  let execution ← executionFromDict coerce execution
  let gate ← gateFromDict coerce (getValue data (py "gate"))
  let findingItems ← tupleField coerce data (py "findings")
  let findings ← findingItems.mapM (findingFromDict coerce)
  let metricItems ← tupleField coerce data (py "metrics")
  let metrics ← metricItems.mapM (measurementFromDict coerce)
  let publication ← publicationFromDict (getValue data (py "publication"))
  let limitationItems ← tupleField coerce data (py "limitations")
  let baseline ← baselineFromDict coerce (getValue data (py "baseline"))
  let checks ← checksFromDict (getValue data (py "checks"))
  let runId ← textValue (getValue data (py "run_id")) (py "run id")
  let limitations ← textItems limitationItems (py "run limitations")
  construct RunResultFields.check
    { runId
      producer
      identity
      scope
      execution
      gate
      findings
      metrics
      publication
      limitations
      baseline
      checks
      schemaVersion := version }

/-- `except SchemaError: raise`, `except ValueError as err: raise SchemaError(…)`. -/
def invalidResult : Result RunResult → Result RunResult
  | .ok result => .ok result
  | .error e =>
    if !isSchemaError e ∧ isValueError e then
      .error (schemaError (py "result is not valid: " ++ e.text))
    else .error e

/-- `1 if version == 1 else SCHEMA_VERSION`. -/
def envelopeVersion (data : Dict Text Json) : ℤ :=
  match getValue data (py "schema_version") with
  | .int n => if n = 1 then 1 else 2
  | _ => 2

def runResultFromDict : Result RunResult := do
  let data ← requireMapping payload (py "run result")
  let version := envelopeVersion data
  checkEnvelope data (py "ici.next.run") version
  if version = 1 ∧ py "checks" ∈ data.keys then
    .error (schemaError (py "v1 results cannot carry check scope records"))
  if version = 2 ∧ py "checks" ∉ data.keys then
    .error (schemaError (py "v2 results require checks (null means unknown evidence scope)"))
  let execution ← requireMapping (getValue data (py "execution")) (py "execution")
  let producer ← requireMapping (getValue data (py "producer")) (py "producer")
  invalidResult (runOfValues coerce data execution producer version)

end

def loadsResult (nesting : Nesting) (text : Text) : Result RunResult :=
  match Json.loads nesting.limit text with
  | .ok payload => runResultFromDict coerce payload
  | .error e =>
    if isValueError e then .error (schemaError (py "result is not valid JSON: " ++ e.text))
    else .error e

end Decoders

end Ici
