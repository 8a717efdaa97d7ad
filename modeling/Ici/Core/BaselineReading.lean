import Ici.Core.EngineFindings
import Ici.Core.RedactionValues

/-! # Reading a baseline

A baseline is an earlier report. The document is what `json.loads` made of the file; whether a path
resolves inside the project is asked of the file system. -/

namespace Ici.Core

open Raising Python

def resultSchemaVersion : Text := py "ici.result/v3"

/-- `resolve_project_path(root, path)`, which raises for a path that leads out of the project. -/
abbrev Resolving := Text → Result Unit

/-- `except ValueError as err: raise BaselineError(…) from err`. -/
def asBaselineError {α : Type} (text : PyError → Text) : Result α → Result α
  | .ok a => .ok a
  | .error e => .error (if isValueError e then baselineError (text e) else e)

theorem asBaselineError_eq_ok {α : Type} {text : PyError → Text} {x : Result α} {a : α} :
    asBaselineError text x = .ok a ↔ x = .ok a := by
  cases x with
  | ok b => exact Iff.rfl
  | error e => exact iff_of_false nofun nofun

/-! ## Values -/

section

variable (value : Json) (context : Text)

def requireObject : Result (Dict Text Json) :=
  match value with
  | .obj fields => .ok fields
  | _ => .error (baselineError (context ++ py " must be an object"))

def requireList : Result (List Json) :=
  match value with
  | .arr items => .ok items
  | _ => .error (baselineError (context ++ py " must be an array"))

def requireString : Result Text :=
  match value with
  | .str t => .ok t
  | _ => .error (baselineError (context ++ py " must be a string"))

def requireNonempty : Result Text :=
  let raised : Result Text := .error (baselineError (context ++ py " must be a non-empty string"))
  match value with
  | .str t => if t = [] then raised else .ok t
  | _ => raised

def isHexDigit (c : CodePoint) : Bool := (0x30 ≤ c.val && c.val ≤ 0x39) || (0x61 ≤ c.val && c.val ≤ 0x66)

/-- `sha256:[0-9a-f]{64}`. -/
def isDigest (t : Text) : Bool :=
  (py "sha256:").isPrefixOf t && (t.drop 7).length == 64 && (t.drop 7).all isHexDigit

def requireDigest : Result Text := do
  let digest ← requireNonempty value context
  if isDigest digest then .ok digest
  else .error (baselineError (context ++ py " must be a sha256 digest"))

def optionalPositiveInt : Result (Option ℤ) :=
  let raised : Result (Option ℤ) :=
    .error (baselineError (context ++ py " must be a 1-indexed integer or null"))
  match value with
  | .null => .ok none
  | .int n => if n < 1 then raised else .ok (some n)
  | _ => raised

end

/-! ## Records -/

section

variable (casefold : Casefold) (resolves : Resolving)

def checkedPath (path : Text) : Result Text := do
  let canonical ← canonicalProjectPath casefold none path
  resolves canonical
  return canonical

def regionFromPayload (payload : Dict Text Json) (context path : Text) : Result SourceRegion := do
  let startLine ← optionalPositiveInt (getValue payload (py "start_line")) (context ++ py ".start_line")
  match startLine with
  | none => .error (baselineError (context ++ py ".start_line must be a 1-indexed integer"))
  | some startLine => do
    let endLine ← optionalPositiveInt (getValue payload (py "end_line")) (context ++ py ".end_line")
    let startColumn ← optionalPositiveInt (getValue payload (py "start_column"))
      (context ++ py ".start_column")
    let endColumn ← optionalPositiveInt (getValue payload (py "end_column")) (context ++ py ".end_column")
    return { path, startLine, endLine, startColumn, endColumn }

def labelledLocation (payload : Dict Text Json) (context : Text) (region : SourceRegion) :
    Result SourceLocation :=
  match h : validateSourceRegion context region with
  | .error e => .error (baselineError e.text)
  | .ok () => (requireString (getValue payload (py "label")) (context ++ py ".label")).map fun label =>
    ⟨{ region with label }, validateSourceRegion_eq_ok.mpr
      ((validateSourceRegion_eq_ok.mp h).named region.path label)⟩

section

variable (value : Json) (context : Text)

def locationFromPayload : Result SourceLocation := do
  let payload ← requireObject value context
  let rawPath ← requireNonempty (getValue payload (py "path")) (context ++ py ".path")
  let canonicalPath ← asBaselineError (fun e => context ++ py ".path is unsafe: " ++ e.text)
    (checkedPath casefold resolves rawPath)
  if rawPath ≠ canonicalPath then
    .error (baselineError (context ++
      py ".path must already be canonical project-relative POSIX form: " ++ pyRepr rawPath))
  else do
    let region ← regionFromPayload payload context canonicalPath
    labelledLocation payload context region

def metadataFromPayload (value : Json) : Result (Option AnalysisMetadata) :=
  match value with
  | .null => .ok none
  | value => do
    let payload ← requireObject value (py "analysis_metadata")
    let producerVersion ← requireNonempty (getValue payload (py "producer_version"))
      (py "analysis_metadata.producer_version")
    let fingerprintVersion ← requireNonempty (getValue payload (py "fingerprint_version"))
      (py "analysis_metadata.fingerprint_version")
    let policyDigest ← requireDigest (getValue payload (py "policy_digest"))
      (py "analysis_metadata.policy_digest")
    let toolPolicyDigest ← requireDigest (getValue payload (py "tool_policy_digest"))
      (py "analysis_metadata.tool_policy_digest")
    return some { producerVersion, fingerprintVersion, policyDigest, toolPolicyDigest }

def severities : List (Text × FindingSeverity) :=
  [(py "info", .info), (py "low", .low), (py "medium", .medium), (py "high", .high),
    (py "critical", .critical)]

def severityFrom (t context : Text) : Result FindingSeverity :=
  match severities.find? (·.1 = t) with
  | some (_, severity) => .ok severity
  | none => .error (baselineError (context ++ py ".severity is unsupported: " ++ pyRepr t))

/-- The fingerprint is that of the rule and the place, with the label as symbol or without one. -/
def findingFromPayload (sha256 : List UInt8 → Text) (engineName : Text) (entry : Json × ℕ) :
    Result FindingRecord := do
  let context := py "results[" ++ pyRepr engineName ++ py "].findings[" ++ natDigits entry.2 ++ py "]"
  let payload ← requireObject entry.1 context
  let fingerprint ← requireDigest (getValue payload (py "fingerprint")) (context ++ py ".fingerprint")
  let ruleId ← requireNonempty (getValue payload (py "rule_id")) (context ++ py ".rule_id")
  let severityText ← requireNonempty (getValue payload (py "severity")) (context ++ py ".severity")
  let severity ← severityFrom severityText context
  let location ← locationFromPayload casefold resolves (getValue payload (py "primary_location"))
    (context ++ py ".primary_location")
  let labelled ← findingFingerprint sha256 ruleId location location.val.label
  let unlabelled ← findingFingerprint sha256 ruleId location []
  if fingerprint ≠ labelled ∧ fingerprint ≠ unlabelled then
    .error (baselineError (context ++ py ".fingerprint does not match its rule and location"))
  else do
    let related ← requireList (getValue payload (py "related_locations"))
      (context ++ py ".related_locations")
    let _ ← related.zipIdx.mapM fun (value, index) =>
      locationFromPayload casefold resolves value
        (context ++ py ".related_locations[" ++ natDigits index ++ py "]")
    let suppression ← requireObject (getValue payload (py "suppression")) (context ++ py ".suppression")
    match getValue suppression (py "suppressed") with
    | .bool suppressed => do
      let message ← requireString (getValue payload (py "message")) (context ++ py ".message")
      return { engineName, fingerprint, ruleId, severity, location, message, suppressed }
    | _ => .error (baselineError (context ++ py ".suppression.suppressed must be a boolean"))

/-! ## Coverage -/

def coverageNumber : Result PyFloat :=
  let bounded (x : PyFloat) : Result PyFloat :=
    if !x.isFinite ∨ x.lt (.fin 0) ∨ (PyFloat.fin 100).lt x then
      .error (baselineError (context ++ py " must be between 0 and 100"))
    else .ok x
  match value with
  | .int n => floatOf n >>= fun x => bounded x.val
  | .float x => bounded x.val
  | _ => .error (baselineError (context ++ py " must be a number"))

def allowedMetrics : List Text := [py "line", py "branch", py "function", py "changed_line"]

def coverageFile (context : Text) (entry : Text × Json) : Result (Text × PyFloat) := do
  let refuse := fun _ : PyError => context ++ py ".files path is unsafe: " ++ pyRepr entry.1
  let canonical ← asBaselineError refuse (canonicalProjectPath casefold none entry.1)
  if entry.1 ≠ canonical ∨ canonical = py "." then
    .error (baselineError (context ++ py ".files path must be canonical: " ++ pyRepr entry.1))
  else do
    asBaselineError refuse (resolves canonical)
    let value ← coverageNumber entry.2 (context ++ py ".files[" ++ pyRepr entry.1 ++ py "]")
    return (canonical, value)

def toleranceFromPayload : Result (Option PyFloat) :=
  match value with
  | .null => .ok none
  | value => (coverageNumber value (context ++ py ".regression_tolerance")).map some

def coverageSnapshotFromPayload : Result (Option CoverageSnapshot) :=
  match value with
  | .null => .ok none
  | value => do
    let payload ← requireObject value context
    let metricsPayload ← requireObject (getValue payload (py "metrics")) (context ++ py ".metrics")
    let unknown := metricsPayload.keys.filter (· ∉ allowedMetrics)
    if unknown ≠ [] then
      .error (baselineError (context ++ py ".metrics contains unsupported keys: " ++
        join (py ", ") (unknown.insertionSort (· ≤ ·))))
    else do
      let metrics ← (metricsPayload.insertionSort (·.1 ≤ ·.1)).mapM fun (key, value) =>
        (coverageNumber value (context ++ py ".metrics." ++ key)).map fun x => (key, x)
      let filesPayload ← requireObject (getValue payload (py "files")) (context ++ py ".files")
      if 10000 < filesPayload.length then
        .error (baselineError (context ++ py ".files exceeds the bounded 10000-file limit"))
      else do
        let files ← (filesPayload.insertionSort (·.1 ≤ ·.1)).mapM (coverageFile casefold resolves context)
        let regressionTolerance ← toleranceFromPayload (getValue payload (py "regression_tolerance")) context
        return some { metrics, files, regressionTolerance }

end

structure BaselineRead where
  records : List FindingRecord := []
  coverage : Option CoverageSnapshot := none

def readEngine (sha256 : List UInt8 → Text) (read : BaselineRead) (entry : Json × ℕ) :
    Result BaselineRead := do
  let context := py "baseline.results[" ++ natDigits entry.2 ++ py "]"
  let engine ← requireObject entry.1 context
  let engineName ← requireNonempty (getValue engine (py "engine_name")) (context ++ py ".engine_name")
  let findings ← requireList (getValue engine (py "findings")) (context ++ py ".findings")
  let records ← findings.zipIdx.mapM (findingFromPayload casefold resolves sha256 engineName)
  let found := { read with records := read.records ++ records }
  if engineName ≠ py "test" then return found
  else if read.coverage.isSome then
    .error (baselineError (py "baseline contains multiple test coverage snapshots"))
  else do
    let extra ← requireObject (getValue engine (py "extra")) (context ++ py ".extra")
    let coverage ← coverageSnapshotFromPayload casefold resolves (getValue extra (py "coverage_policy"))
      (context ++ py ".extra.coverage_policy")
    return { found with coverage }

def isResultSchema : Json → Bool
  | .str t => t = resultSchemaVersion
  | _ => false

def loadBaseline (sha256 : List UInt8 → Text) (document : Json) : Result BaselineDocument := do
  let root ← requireObject document (py "baseline root")
  let schema := getValue root (py "schema_version")
  if !isResultSchema schema then do
    let shown ← reprValue schema
    .error (baselineError (py "unsupported baseline schema_version " ++ shown ++ py "; expected " ++
      pyRepr resultSchemaVersion))
  else do
    let results ← requireList (getValue root (py "results")) (py "baseline.results")
    let read ← results.zipIdx.foldlM (readEngine casefold resolves sha256) {}
    let metadata ← metadataFromPayload (getValue root (py "analysis_metadata"))
    return { metadata, findings := read.records, coverage := read.coverage }

end

/-! ## Writing a comparison

The report redacts the comparison first and then checks it again before it is written. -/

structure ReportedComparison extends BaselineComparison where
  sourcePath : Text

section

variable (words : WordCodes)

def redactLocation (location : SourceLocation) : SourceLocation :=
  ⟨{ location.val with
      path := redactText words location.val.path
      label := redactText words location.val.label },
    validateSourceRegion_eq_ok.mpr ((validateSourceRegion_eq_ok.mp location.property).named _ _)⟩

def redactDelta (delta : FindingDelta) : FindingDelta where
  state := delta.state
  engineName := redactText words delta.engineName
  fingerprint := delta.fingerprint
  ruleId := redactText words delta.ruleId
  message := redactText words delta.message
  currentLocation := delta.currentLocation.map (redactLocation words)
  baselineLocation := delta.baselineLocation.map (redactLocation words)
  currentSeverity := delta.currentSeverity
  baselineSeverity := delta.baselineSeverity
  regressed := delta.regressed
  suppressed := delta.suppressed
  gated := delta.gated

def redactMetadata (metadata : AnalysisMetadata) : AnalysisMetadata where
  producerVersion := redactText words metadata.producerVersion
  fingerprintVersion := redactText words metadata.fingerprintVersion
  policyDigest := redactText words metadata.policyDigest
  toolPolicyDigest := redactText words metadata.toolPolicyDigest

def redactBaseline (comparison : ReportedComparison) : ReportedComparison where
  sourcePath := redactText words comparison.sourcePath
  entries := comparison.entries.map (redactDelta words)
  warnings := comparison.warnings.map (redactText words)
  baselineMetadata := comparison.baselineMetadata.map (redactMetadata words)
  failOnNew := comparison.failOnNew
  gateFailed := comparison.gateFailed

end

/-! ## The writer -/

def writeNonempty (t field : Text) : Result Json :=
  if t = [] then .error (valueError (field ++ py " must be a non-empty string: " ++ pyRepr t))
  else .ok (.str t)

def writeDigest (t field : Text) : Result Json := do
  let digest ← writeNonempty t field
  if isDigest t then .ok digest
  else .error (valueError (field ++ py " must be a sha256 digest: " ++ pyRepr t))

def optionalNumber (value : Option ℤ) : Json := (value.map Json.int).getD .null

def serializeLocation (location : SourceLocation) : Result Json := do
  validateSourceRegion (py "finding location " ++ pyRepr location.val.path) location.val
  let path ← writeNonempty location.val.path (py "location.path")
  return .obj [(py "path", path), (py "start_line", .int location.val.startLine),
    (py "end_line", optionalNumber location.val.endLine),
    (py "start_column", optionalNumber location.val.startColumn),
    (py "end_column", optionalNumber location.val.endColumn), (py "label", .str location.val.label)]

def serializeOptionalLocation (location : Option SourceLocation) : Result Json :=
  match location with
  | none => .ok .null
  | some location => serializeLocation location

def serializeAnalysisMetadata (metadata : Option AnalysisMetadata) : Result Json :=
  match metadata with
  | none => .ok .null
  | some metadata => do
    let producerVersion ← writeNonempty metadata.producerVersion (py "analysis_metadata.producer_version")
    let fingerprintVersion ← writeNonempty metadata.fingerprintVersion
      (py "analysis_metadata.fingerprint_version")
    let policyDigest ← writeDigest metadata.policyDigest (py "analysis_metadata.policy_digest")
    let toolPolicyDigest ← writeDigest metadata.toolPolicyDigest
      (py "analysis_metadata.tool_policy_digest")
    return .obj [(py "producer_version", producerVersion), (py "fingerprint_version", fingerprintVersion),
      (py "policy_digest", policyDigest), (py "tool_policy_digest", toolPolicyDigest)]

def FindingSeverity.value : FindingSeverity → Text
  | info => py "info"
  | low => py "low"
  | medium => py "medium"
  | high => py "high"
  | critical => py "critical"

def DeltaState.value : DeltaState → Text
  | new => py "new"
  | unchanged => py "unchanged"
  | moved => py "moved"
  | resolved => py "resolved"

def check (condition : Bool) (text : Text) : Result Unit :=
  if condition then .ok () else .error (valueError text)

section

variable (delta : FindingDelta)

def validateDeltaPresence : Result Unit :=
  let hasCurrent := delta.currentLocation.isSome && delta.currentSeverity.isSome
  let hasBaseline := delta.baselineLocation.isSome && delta.baselineSeverity.isSome
  match delta.state with
  | .new => do
    check hasCurrent (py "new finding delta must contain current location and severity")
    check (delta.baselineLocation.isNone && delta.baselineSeverity.isNone)
      (py "new finding delta must not contain baseline state")
  | .resolved => do
    check hasBaseline (py "resolved finding delta must contain baseline location and severity")
    check (delta.currentLocation.isNone && delta.currentSeverity.isNone)
      (py "resolved finding delta must not contain current state")
  | _ => check (hasCurrent && hasBaseline) (py "paired finding delta must contain current and baseline state")

def validateDeltaRelationship : Result Unit := do
  check (delta.state != .unchanged || delta.currentLocation == delta.baselineLocation)
    (py "unchanged finding delta locations must match")
  check (delta.state != .moved || delta.currentLocation != delta.baselineLocation)
    (py "moved finding delta locations must differ")
  check (!delta.regressed || (delta.state != .new && delta.state != .resolved))
    (py "only paired finding deltas can be regressed")

def validateDeltaFlags : Result Unit :=
  check (!delta.gated || !(delta.suppressed || delta.currentSeverity == some .info ||
      (delta.state != .new && !delta.regressed)))
    (py "finding delta gate state contradicts its severity or suppression")

def serializeSeverity (severity : Option FindingSeverity) : Json :=
  (severity.map fun severity => Json.str severity.value).getD .null

def serializeDelta : Result Json := do
  validateDeltaPresence delta
  validateDeltaRelationship delta
  validateDeltaFlags delta
  let engineName ← writeNonempty delta.engineName (py "baseline delta engine_name")
  let fingerprint ← writeDigest delta.fingerprint (py "baseline delta fingerprint")
  let ruleId ← writeNonempty delta.ruleId (py "baseline delta rule_id")
  let currentLocation ← serializeOptionalLocation delta.currentLocation
  let baselineLocation ← serializeOptionalLocation delta.baselineLocation
  return .obj [(py "state", .str delta.state.value), (py "engine_name", engineName),
    (py "fingerprint", fingerprint), (py "rule_id", ruleId), (py "message", .str delta.message),
    (py "current_location", currentLocation), (py "baseline_location", baselineLocation),
    (py "current_severity", serializeSeverity delta.currentSeverity),
    (py "baseline_severity", serializeSeverity delta.baselineSeverity),
    (py "regressed", .bool delta.regressed), (py "suppressed", .bool delta.suppressed),
    (py "gated", .bool delta.gated)]

end

def BaselineComparison.count (comparison : BaselineComparison) (state : DeltaState) : ℕ :=
  comparison.entries.countP (·.state = state)

def BaselineComparison.gatedCount (comparison : BaselineComparison) : ℕ :=
  comparison.entries.countP (·.gated)

def serializeBaselineComparison (comparison : ReportedComparison) : Result Json := do
  let counted (n : ℕ) : Json := .int n
  check (comparison.gateFailed == (comparison.failOnNew && decide (0 < comparison.gatedCount)))
    (py "baseline gate_failed contradicts fail_on_new or gated entries")
  let sourcePath ← writeNonempty comparison.sourcePath (py "baseline source_path")
  let warnings ← comparison.warnings.mapM fun warning => writeNonempty warning (py "baseline warnings item")
  let metadata ← serializeAnalysisMetadata comparison.baselineMetadata
  let entries ← comparison.entries.mapM serializeDelta
  return .obj [(py "source_path", sourcePath), (py "warnings", .arr warnings),
    (py "baseline_metadata", metadata), (py "fail_on_new", .bool comparison.failOnNew),
    (py "gate_failed", .bool comparison.gateFailed), (py "new_count", counted (comparison.count .new)),
    (py "unchanged_count", counted (comparison.count .unchanged)),
    (py "moved_count", counted (comparison.count .moved)),
    (py "resolved_count", counted (comparison.count .resolved)),
    (py "regressed_count", counted (comparison.entries.countP (·.regressed))),
    (py "gated_count", counted comparison.gatedCount), (py "entries", .arr entries)]

/-! ## What passes -/

theorem check_eq_ok {condition : Bool} {text : Text} : check condition text = .ok () ↔ condition = true := by
  unfold check
  split
  · exact iff_of_true rfl ‹_›
  · exact iff_of_false nofun ‹_›

theorem exists_writeNonempty {t field : Text} : (∃ value, writeNonempty t field = .ok value) ↔ t ≠ [] := by
  unfold writeNonempty
  split
  · exact iff_of_false nofun (not_not_intro ‹_›)
  · exact iff_of_true ⟨_, rfl⟩ ‹_›

theorem ne_nil_of_isDigest {t : Text} (h : isDigest t = true) : t ≠ [] := by
  rintro rfl
  cases h

theorem exists_writeDigest {t field : Text} :
    (∃ value, writeDigest t field = .ok value) ↔ isDigest t = true := by
  unfold writeDigest writeNonempty
  constructor
  · rintro ⟨value, h⟩
    obtain ⟨digest, -, hDigest⟩ := bind_eq_ok.mp h
    split at hDigest
    · assumption
    · cases hDigest
  · intro h
    rw [if_neg (ne_nil_of_isDigest h)]
    exact ⟨.str t, step rfl (if_pos h)⟩

theorem exists_serializeLocation {location : SourceLocation} :
    (∃ value, serializeLocation location = .ok value) ↔ location.val.path ≠ [] := by
  unfold serializeLocation
  constructor
  · rintro ⟨value, h⟩
    obtain ⟨-, hRest⟩ := seq_eq_ok.mp h
    obtain ⟨path, hPath, -⟩ := bind_eq_ok.mp hRest
    exact exists_writeNonempty.mp ⟨path, hPath⟩
  · intro h
    obtain ⟨path, hPath⟩ := (@exists_writeNonempty _ (py "location.path")).mpr h
    exact ⟨_, seq_eq_ok.mpr ⟨validateSourceRegion_eq_ok.mpr
      (validateSourceRegion_eq_ok.mp location.property), step hPath rfl⟩⟩

theorem exists_serializeOptionalLocation {location : Option SourceLocation} :
    (∃ value, serializeOptionalLocation location = .ok value) ↔ ∀ found ∈ location, found.val.path ≠ [] := by
  cases location with
  | none => exact iff_of_true ⟨_, rfl⟩ nofun
  | some found =>
    rw [serializeOptionalLocation, exists_serializeLocation]
    exact ⟨fun h other hOther => Option.some.inj hOther ▸ h, fun h => h found rfl⟩

structure FindingDelta.IsValid (delta : FindingDelta) : Prop where
  presence : validateDeltaPresence delta = .ok ()
  relationship : validateDeltaRelationship delta = .ok ()
  flags : validateDeltaFlags delta = .ok ()
  engineName : delta.engineName ≠ []
  fingerprint : isDigest delta.fingerprint = true
  ruleId : delta.ruleId ≠ []
  currentPath : ∀ found ∈ delta.currentLocation, found.val.path ≠ []
  baselinePath : ∀ found ∈ delta.baselineLocation, found.val.path ≠ []

theorem exists_serializeDelta {delta : FindingDelta} :
    (∃ value, serializeDelta delta = .ok value) ↔ delta.IsValid := by
  constructor
  · rintro ⟨value, h⟩
    obtain ⟨hPresence, h⟩ := seq_eq_ok.mp h
    obtain ⟨hRelationship, h⟩ := seq_eq_ok.mp h
    obtain ⟨hFlags, h⟩ := seq_eq_ok.mp h
    obtain ⟨engineName, hEngineName, h⟩ := bind_eq_ok.mp h
    obtain ⟨fingerprint, hFingerprint, h⟩ := bind_eq_ok.mp h
    obtain ⟨ruleId, hRuleId, h⟩ := bind_eq_ok.mp h
    obtain ⟨current, hCurrent, h⟩ := bind_eq_ok.mp h
    obtain ⟨baseline, hBaseline, -⟩ := bind_eq_ok.mp h
    exact ⟨hPresence, hRelationship, hFlags, exists_writeNonempty.mp ⟨_, hEngineName⟩,
      exists_writeDigest.mp ⟨_, hFingerprint⟩, exists_writeNonempty.mp ⟨_, hRuleId⟩,
      exists_serializeOptionalLocation.mp ⟨_, hCurrent⟩, exists_serializeOptionalLocation.mp ⟨_, hBaseline⟩⟩
  · intro h
    obtain ⟨engineName, hEngineName⟩ :=
      (@exists_writeNonempty _ (py "baseline delta engine_name")).mpr h.engineName
    obtain ⟨fingerprint, hFingerprint⟩ :=
      (@exists_writeDigest _ (py "baseline delta fingerprint")).mpr h.fingerprint
    obtain ⟨ruleId, hRuleId⟩ := (@exists_writeNonempty _ (py "baseline delta rule_id")).mpr h.ruleId
    obtain ⟨current, hCurrent⟩ := exists_serializeOptionalLocation.mpr h.currentPath
    obtain ⟨baseline, hBaseline⟩ := exists_serializeOptionalLocation.mpr h.baselinePath
    exact ⟨_, step h.presence <| step h.relationship <| step h.flags <|
      step hEngineName <| step hFingerprint <| step hRuleId <|
      step hCurrent <| step hBaseline rfl⟩

structure AnalysisMetadata.IsValid (metadata : AnalysisMetadata) : Prop where
  producerVersion : metadata.producerVersion ≠ []
  fingerprintVersion : metadata.fingerprintVersion ≠ []
  policyDigest : isDigest metadata.policyDigest = true
  toolPolicyDigest : isDigest metadata.toolPolicyDigest = true

theorem exists_serializeAnalysisMetadata {metadata : Option AnalysisMetadata}
    (h : ∀ found ∈ metadata, found.IsValid) : ∃ value, serializeAnalysisMetadata metadata = .ok value := by
  cases metadata with
  | none => exact ⟨_, rfl⟩
  | some metadata =>
    obtain ⟨hProducer, hVersion, hPolicy, hToolPolicy⟩ := h metadata rfl
    obtain ⟨producer, hProducer⟩ :=
      (@exists_writeNonempty _ (py "analysis_metadata.producer_version")).mpr hProducer
    obtain ⟨version, hVersion⟩ :=
      (@exists_writeNonempty _ (py "analysis_metadata.fingerprint_version")).mpr hVersion
    obtain ⟨policy, hPolicy⟩ := (@exists_writeDigest _ (py "analysis_metadata.policy_digest")).mpr hPolicy
    obtain ⟨toolPolicy, hToolPolicy⟩ :=
      (@exists_writeDigest _ (py "analysis_metadata.tool_policy_digest")).mpr hToolPolicy
    exact ⟨_, step hProducer <| step hVersion <| step hPolicy <| step hToolPolicy rfl⟩

theorem exists_serializeBaselineComparison {comparison : ReportedComparison}
    (hGate : comparison.gateFailed = (comparison.failOnNew && decide (0 < comparison.gatedCount)))
    (hSource : comparison.sourcePath ≠ []) (hWarnings : ∀ warning ∈ comparison.warnings, warning ≠ [])
    (hMetadata : ∀ found ∈ comparison.baselineMetadata, found.IsValid) :
    (∃ value, serializeBaselineComparison comparison = .ok value) ↔
      ∀ entry ∈ comparison.entries, entry.IsValid := by
  obtain ⟨source, hSource⟩ := (@exists_writeNonempty _ (py "baseline source_path")).mpr hSource
  obtain ⟨warnings, hWarnings⟩ := exists_mapM_eq_ok.mpr fun warning hMem =>
    (@exists_writeNonempty _ (py "baseline warnings item")).mpr (hWarnings warning hMem)
  obtain ⟨metadata, hMetadata⟩ := exists_serializeAnalysisMetadata hMetadata
  constructor
  · rintro ⟨value, h⟩
    obtain ⟨-, h⟩ := seq_eq_ok.mp h
    obtain ⟨_, _, h⟩ := bind_eq_ok.mp h
    obtain ⟨_, _, h⟩ := bind_eq_ok.mp h
    obtain ⟨_, _, h⟩ := bind_eq_ok.mp h
    obtain ⟨entries, hEntries, -⟩ := bind_eq_ok.mp h
    exact fun entry hEntry => exists_serializeDelta.mp
      (exists_mapM_eq_ok.mp ⟨entries, hEntries⟩ entry hEntry)
  · intro h
    obtain ⟨entries, hEntries⟩ := exists_mapM_eq_ok.mpr fun entry hEntry =>
      exists_serializeDelta.mpr (h entry hEntry)
    exact ⟨_, step (check_eq_ok.mpr (beq_iff_eq.mpr hGate)) <| step hSource <|
      step hWarnings <| step hMetadata <| step hEntries rfl⟩

end Ici.Core
