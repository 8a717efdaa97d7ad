import Mathlib.Data.Prod.Lex
import Ici.Core.Models
import Ici.Library.Json
import Ici.Library.Matching

/-! # Comparing a suite with its baseline

Reading the baseline file, making findings canonical and resolving paths are left out: the suite
holds canonical findings and the document is what was read. -/

namespace Ici.Core

open Python

structure FindingRecord where
  engineName : Text
  fingerprint : Text
  ruleId : Text
  severity : FindingSeverity
  location : SourceLocation
  message : Text
  suppressed : Bool
deriving DecidableEq

structure BaselineDocument where
  metadata : Option AnalysisMetadata
  findings : List FindingRecord
  coverage : Option CoverageSnapshot := none

def severityRank : FindingSeverity → ℕ
  | .info => 0
  | .low => 1
  | .medium => 2
  | .high => 3
  | .critical => 4

def stateOrder : DeltaState → ℕ
  | .new => 0
  | .moved => 1
  | .unchanged => 2
  | .resolved => 3

def baselineError (text : Text) : PyError := ⟨py "BaselineError", text⟩

/-! ## Coverage regressions -/

def fingerprintVersion : Text := py "ici-fingerprint/v1"

section

variable (sha256 : List UInt8 → Text)

def findingFingerprint (ruleId : Text) (location : SourceLocation) (symbol : Text) : Result Text := do
  let number (value : Option ℤ) : Json := (value.map Json.int).getD .null
  let region := if strip symbol ≠ [] then .null else
    .obj [(py "start_line", .int location.val.startLine), (py "end_line", number location.val.endLine),
      (py "start_column", number location.val.startColumn),
      (py "end_column", number location.val.endColumn)]
  let payload := Json.obj [(py "version", .str fingerprintVersion), (py "rule_id", .str ruleId),
    (py "path", .str location.val.path), (py "symbol", .str (strip symbol)), (py "region", region)]
  let canonical ← payload.encode { itemSeparator := py ",", keySeparator := py ":", ensureAscii := false }
  let bytes ← utf8 canonical
  return py "sha256:" ++ sha256 bytes

def recordFromFinding (engineName : Text) (finding : Finding) : FindingRecord where
  engineName := engineName
  fingerprint := finding.fingerprint
  ruleId := finding.ruleId
  severity := finding.severity
  location := finding.primaryLocation
  message := finding.message
  suppressed := finding.suppressed

def currentCoverageSnapshot (suite : List EngineResult) : Result (Option CoverageSnapshot) :=
  match suite.filter (·.engineName = py "test") with
  | [] => .ok none
  | [result] => .ok result.coveragePolicy
  | _ => .error (baselineError (py "current suite contains multiple test coverage snapshots"))

structure CoverageDrop where
  kind : Text
  path : Text
  currentValue : PyFloat
  baselineValue : PyFloat

/-- The values that fell by more than the tolerance, in the baseline's order. -/
def coverageDrops (tolerance : PyFloat) (current baseline : List (Text × PyFloat))
    (named : Text → Text × Text) : List CoverageDrop :=
  baseline.filterMap fun (name, baselineValue) =>
    ((Dict.setAll [] current).get? name).bind fun currentValue =>
      if tolerance.lt (baselineValue.sub currentValue) then
        some ⟨(named name).1, (named name).2, currentValue, baselineValue⟩
      else none

def coverageLocation (path label : Text) : SourceLocation :=
  ⟨{ path, startLine := 1, label }, rfl⟩

def coverageRecord (tolerance : PyFloat) (drop : CoverageDrop) : Result FindingRecord := do
  let label := py "coverage:" ++ drop.kind
  let location := coverageLocation drop.path label
  let ruleId := py "ici.test.coverage-regression." ++ drop.kind
  let fingerprint ← findingFingerprint sha256 ruleId location label
  return {
    engineName := py "test"
    fingerprint
    ruleId
    severity := .medium
    location
    message := py "Coverage regressed from " ++ drop.baselineValue.tenths ++ py "% to " ++
      drop.currentValue.tenths ++ py "% (allowed drop " ++ tolerance.tenths ++ py "%)"
    suppressed := false }

def coverageRegressionRecords (current baseline : Option CoverageSnapshot) : Result (List FindingRecord × List Text) :=
  match current with
  | none => .ok ([], [])
  | some now =>
    match now.regressionTolerance, baseline with
    | none, _ => .ok ([], [])
    | some _, none =>
      .ok ([], [py "baseline has no coverage policy snapshot; regressions were not compared"])
    | some tolerance, some before => do
      let records ← (coverageDrops tolerance now.metrics before.metrics
          (fun metric => (py "aggregate-" ++ metric, py ".")) ++
        coverageDrops tolerance now.files before.files
          (fun path => (py "file-line", path))).mapM (coverageRecord sha256 tolerance)
      return (records, [])

end

/-! ## One group -/

abbrev LocationKey := Text ×ₗ ℤ ×ₗ ℤ ×ₗ ℤ ×ₗ ℤ ×ₗ Text

def locationKey (location : SourceLocation) : LocationKey :=
  toLex (location.val.path, toLex (location.val.startLine,
    toLex (location.val.startColumn.getD 0, toLex (location.val.endLine.getD 0,
      toLex (location.val.endColumn.getD 0, location.val.label)))))

abbrev RecordKey := LocationKey ×ₗ ℕ ×ₗ Text

def recordKey (record : FindingRecord) : RecordKey :=
  toLex (locationKey record.location, toLex (severityRank record.severity, record.message))

def RecordKey.place (key : RecordKey) : LocationKey := (ofLex key).1

def deltaLocationKey (delta : FindingDelta) : Result LocationKey :=
  match delta.currentLocation <|> delta.baselineLocation with
  | some location => .ok (locationKey location)
  | none => .error ⟨py "RuntimeError",
      py "finding delta has neither a current nor baseline location"⟩

def isRegressed (current baseline : FindingRecord) : Bool :=
  severityRank baseline.severity < severityRank current.severity ||
    baseline.suppressed && !current.suppressed

def isActionable (current : FindingRecord) : Bool :=
  !current.suppressed && current.severity != .info

def pairedDelta (current baseline : FindingRecord) (state : DeltaState) : FindingDelta :=
  let regressed := isRegressed current baseline
  { state
    engineName := current.engineName
    fingerprint := current.fingerprint
    ruleId := current.ruleId
    message := current.message
    currentLocation := some current.location
    baselineLocation := some baseline.location
    currentSeverity := some current.severity
    baselineSeverity := some baseline.severity
    regressed
    suppressed := current.suppressed
    gated := regressed && isActionable current }

def newDelta (current : FindingRecord) : FindingDelta where
  state := .new
  engineName := current.engineName
  fingerprint := current.fingerprint
  ruleId := current.ruleId
  message := current.message
  currentLocation := some current.location
  currentSeverity := some current.severity
  suppressed := current.suppressed
  gated := isActionable current

def resolvedDelta (baseline : FindingRecord) : FindingDelta where
  state := .resolved
  engineName := baseline.engineName
  fingerprint := baseline.fingerprint
  ruleId := baseline.ruleId
  message := baseline.message
  baselineLocation := some baseline.location
  baselineSeverity := some baseline.severity
  suppressed := baseline.suppressed

open Matching in
def toDelta : Fate FindingRecord FindingRecord → FindingDelta
  | .same current baseline => pairedDelta current baseline .unchanged
  | .moved current baseline => pairedDelta current baseline .moved
  | .fresh current => newDelta current
  | .gone baseline => resolvedDelta baseline

section

variable (currentRecords baselineRecords : List FindingRecord)

/-- Both passes over a group: first at the exact location, then in sorted order. -/
def pairGroup : List (Matching.Fate FindingRecord FindingRecord) :=
  Matching.compare RecordKey.place recordKey recordKey currentRecords baselineRecords

def compareGroup : List FindingDelta :=
  (pairGroup currentRecords baselineRecords).map toDelta

end

/-! ## The whole suite -/

def compatibilityWarnings (baseline : Option AnalysisMetadata) (current : AnalysisMetadata) : List Text :=
  match baseline with
  | none => [py "baseline has no analysis_metadata; producer, fingerprint, policy, and tool compatibility could not be verified"]
  | some before =>
    [(py "producer version", before.producerVersion, current.producerVersion),
      (py "fingerprint version", before.fingerprintVersion, current.fingerprintVersion),
      (py "analysis policy", before.policyDigest, current.policyDigest),
      (py "tool policy", before.toolPolicyDigest, current.toolPolicyDigest)].filterMap
      fun (label, old, new) =>
        if old ≠ new then some (py "baseline " ++ label ++ py " differs: " ++ old ++ py " != " ++ new)
        else none

def didNotLook : List EngineStatus := [.error, .skip]

section

variable (suite : List EngineResult)

def currentStatus : Dict Text EngineStatus :=
  Dict.setAll [] (suite.map fun result => (result.engineName, result.status))

/-- Why an engine's current run says nothing about findings that are not there. -/
def verdictOn (name : Text) : Option Text :=
  match (currentStatus suite).get? name with
  | none => some (py "was not part of this run")
  | some status => if status ∈ didNotLook then some (py "reported " ++ status.value) else none

def addVerdict (verdicts : Dict Text Text) (record : FindingRecord) : Dict Text Text :=
  if (verdicts.get? record.engineName).isSome then verdicts
  else match verdictOn suite record.engineName with
    | some verdict => verdicts.set record.engineName verdict
    | none => verdicts

def enginesThatDidNotLook (baselineRecords : List FindingRecord) :
    Dict Text Text := baselineRecords.foldl (addVerdict suite) []

abbrev GroupKey := Text ×ₗ Text

def groupKey (record : FindingRecord) : GroupKey := toLex (record.engineName, record.fingerprint)

structure Compared where
  entries : List FindingDelta := []
  skippedCounts : Dict Text ℕ := []

section

variable (unlooked : Dict Text Text)

/-- The comparison of one group; the groups of an engine that did not look are only counted when
nothing of them was found. -/
def compareKey (currentGroups baselineGroups : Dict GroupKey (List FindingRecord))
    (compared : Compared) (key : GroupKey) : Compared :=
  let engineName := (ofLex key).1
  let current := (currentGroups.get? key).getD []
  let baseline := (baselineGroups.get? key).getD []
  if (unlooked.get? engineName).isSome ∧ current = [] then
    { compared with
      skippedCounts := compared.skippedCounts.set engineName
        ((compared.skippedCounts.get? engineName).getD 0 + baseline.length) }
  else { compared with entries := compared.entries ++ compareGroup current baseline }

def compareRecords (current baseline : List FindingRecord) : Compared :=
  let currentGroups := Dict.groupBy groupKey current
  let baselineGroups := Dict.groupBy groupKey baseline
  ((currentGroups.keys ++ baselineGroups.keys).dedup.insertionSort (· ≤ ·)).foldl
    (compareKey unlooked currentGroups baselineGroups) {}

abbrev EntryKey := Bool ×ₗ ℕ ×ₗ Text ×ₗ Text ×ₗ LocationKey

def entryKey (entry : FindingDelta) : Result EntryKey := do
  let location ← deltaLocationKey entry
  return toLex (!entry.gated, toLex (stateOrder entry.state,
    toLex (entry.engineName, toLex (entry.fingerprint, location))))

def sortEntries (entries : List FindingDelta) : Result (List FindingDelta) := do
  let keyed ← entries.mapM fun entry => (entryKey entry).map (·, entry)
  return (keyed.insertionSort (·.1 ≤ ·.1)).map Prod.snd

def skippedWarnings (skippedCounts : Dict Text ℕ) : Result (List Text) :=
  (skippedCounts.insertionSort (·.1 ≤ ·.1)).mapM fun (engine, count) =>
    match unlooked.get? engine with
    | none => .error (keyError engine)
    | some verdict => .ok (engine ++ py " " ++ verdict ++ py "; " ++ natDigits count ++
        py " baseline finding(s) were not compared and are not resolved")

end

def suiteRecords : List FindingRecord :=
  suite.flatMap fun result => result.findings.map (recordFromFinding result.engineName)

/-- What was found now, coverage regressions included, and what could not be said about them. -/
def currentRecords (sha256 : List UInt8 → Text) (suite : List EngineResult)
    (document : BaselineDocument) : Result (List FindingRecord × List Text) := do
  let snapshot ← currentCoverageSnapshot suite
  let (coverageRecords, coverageWarnings) ←
    coverageRegressionRecords sha256 snapshot document.coverage
  return (suiteRecords suite ++ coverageRecords, coverageWarnings)

def compareCurrent (current : List FindingRecord)
    (coverageWarnings : List Text) (document : BaselineDocument)
    (currentMetadata : AnalysisMetadata) (failOnNew : Bool) : Result BaselineComparison := do
  let unlooked := enginesThatDidNotLook suite document.findings
  let compared := compareRecords unlooked current document.findings
  let entries ← sortEntries compared.entries
  let skipped ← skippedWarnings unlooked compared.skippedCounts
  let gatedCount := entries.countP (·.gated)
  return {
    entries
    warnings := compatibilityWarnings document.metadata currentMetadata ++ coverageWarnings ++ skipped
    baselineMetadata := document.metadata
    failOnNew
    gateFailed := failOnNew && 0 < gatedCount }

end

def compareSuiteToBaseline (sha256 : List UInt8 → Text) (suite : List EngineResult)
    (document : BaselineDocument) (currentMetadata : AnalysisMetadata) (failOnNew : Bool) :
    Result BaselineComparison := do
  let (current, coverageWarnings) ← currentRecords sha256 suite document
  compareCurrent suite current coverageWarnings document currentMetadata failOnNew

end Ici.Core
