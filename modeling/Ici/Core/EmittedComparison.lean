import Mathlib.Tactic.IntervalCases
import Ici.Core.BaselineReading
import Ici.Core.Entries

/-! # Comparing what engines emitted

The whole of `compare_suite_to_baseline`: the baseline is read, the findings of the suite are made
canonical, and only then are records compared. -/

namespace Ici.Core

open List Raising Python

abbrev HexDigest := { t : Text // t.length = 64 ∧ t.all isHexDigit = true }

abbrev HexHash := List UInt8 → HexDigest

def HexHash.text (sha256 : HexHash) : List UInt8 → Text := fun bytes => (sha256 bytes).val

def CanonicalFinding.toFinding (finding : CanonicalFinding) : Finding where
  ruleId := finding.ruleId
  severity := finding.severity
  fingerprint := finding.fingerprint
  primaryLocation := finding.primaryLocation
  message := finding.message
  suppressed := finding.suppression.suppressed

section

variable (sha256 : HexHash) (casefold : Casefold) (resolves : Resolving) (root : PurePath)

def canonicalResult (result : EmittedResult) : Result EngineResult := do
  let findings ← findingsForResult sha256.text casefold (some root.asPosix) result
  return { engineName := result.engineName, status := result.status,
           findings := findings.map CanonicalFinding.toFinding }

/-- The coverage policy is read off the one test result; a second one is refused later. -/
def testCoverage (suite : List EmittedResult) : Result (Option CoverageSnapshot) :=
  match suite.filter (·.engineName = py "test") with
  | [result] => coverageSnapshotFromPayload casefold resolves
      (getValue result.extra (py "coverage_policy")) (py "current.results['test'].extra.coverage_policy")
  | _ => .ok none

def canonicalSuite (suite : List EmittedResult) : Result (List EngineResult) := do
  let results ← suite.mapM (canonicalResult sha256 casefold root)
  let coveragePolicy ← testCoverage casefold resolves suite
  return results.map fun result =>
    if result.engineName = py "test" then { result with coveragePolicy } else result

def reportedComparison (baselinePath : PurePath) (comparison : BaselineComparison) :
    Result ReportedComparison :=
  match baselinePath.relativeTo root with
  | none => .error (baselineError (py "baseline path is outside project root: " ++ baselinePath.asPosix))
  | some relative => .ok { toBaselineComparison := comparison, sourcePath := relative.asPosix }

def compareEmitted (baselinePath : PurePath) (suite : List EmittedResult) (payload : Json)
    (currentMetadata : AnalysisMetadata) (failOnNew : Bool) : Result ReportedComparison := do
  let document ← loadBaseline casefold resolves sha256.text payload
  let results ← canonicalSuite sha256 casefold resolves root suite
  let comparison ← compareSuiteToBaseline sha256.text results document currentMetadata failOnNew
  reportedComparison root baselinePath comparison

end

theorem isDigest_of_hex (hex : HexDigest) : isDigest (py "sha256:" ++ hex.val) = true := by
  have hDrop : (py "sha256:" ++ hex.val).drop 7 = hex.val := drop_left' rfl
  have hPrefix : (py "sha256:").isPrefixOf (py "sha256:" ++ hex.val) = true :=
    isPrefixOf_iff_prefix.mpr (prefix_append _ _)
  unfold isDigest
  rw [hDrop, hPrefix, hex.property.1, hex.property.2]
  rfl

theorem isDigest_findingFingerprint {sha256 : HexHash} {ruleId symbol fingerprint : Text}
    {location : SourceLocation}
    (h : findingFingerprint sha256.text ruleId location symbol = .ok fingerprint) :
    isDigest fingerprint = true := by
  obtain ⟨canonical, -, h⟩ := bind_eq_ok.mp h
  obtain ⟨bytes, -, h⟩ := bind_eq_ok.mp h
  cases h
  exact isDigest_of_hex (sha256 bytes)

theorem isDigestCode_of_isHexDigit {c : CodePoint} (h : isHexDigit c = true) : isDigestCode c = true := by
  obtain ⟨n, hn⟩ := c
  simp only [isHexDigit, Bool.or_eq_true, Bool.and_eq_true, decide_eq_true_iff] at h
  rcases h with ⟨hLow, hHigh⟩ | ⟨hLow, hHigh⟩
  · interval_cases n <;> rfl
  · interval_cases n <;> rfl

theorem redactText_of_isDigest (words : WordCodes) {t : Text} (h : isDigest t = true) :
    redactText words t = t := by
  unfold isDigest at h
  simp only [Bool.and_eq_true, all_eq_true] at h
  obtain ⟨⟨hPrefix, -⟩, hHex⟩ := h
  obtain ⟨hex, rfl⟩ := isPrefixOf_iff_prefix.mp hPrefix
  have hDrop : (py "sha256:" ++ hex).drop 7 = hex := drop_left' rfl
  rw [hDrop] at hHex
  have hNames : py "sha256:" ⊆ py "sha256:0123456789bcdef" :=
    (List.isPrefixOf_iff_prefix.mp rfl : py "sha256:" <+: py "sha256:0123456789bcdef").subset
  refine redactText_of_digest words fun c hc => ?_
  rcases mem_append.mp hc with hName | hIn
  · exact decide_eq_true (hNames hName)
  · exact isDigestCode_of_isHexDigit (hHex c hIn)

/-! ## What is compared -/

structure FindingRecord.IsNamed (record : FindingRecord) : Prop where
  fingerprint : isDigest record.fingerprint = true
  ruleId : record.ruleId ≠ []
  path : record.location.val.path ≠ []

structure BaselineDocument.IsRead (document : BaselineDocument) : Prop where
  findings : ∀ record ∈ document.findings, record.engineName ≠ [] ∧ record.IsNamed
  metadata : ∀ found ∈ document.metadata, found.IsValid
  files : ∀ coverage ∈ document.coverage, ∀ file ∈ coverage.files, file.1 ≠ []

theorem requireNonempty_ne_nil {value : Json} {context t : Text} (h : requireNonempty value context = .ok t) :
    t ≠ [] := by
  unfold requireNonempty at h
  dsimp only at h
  split at h
  · split at h
    · cases h
    · cases h
      assumption
  · cases h

theorem requireDigest_isDigest {value : Json} {context t : Text} (h : requireDigest value context = .ok t) :
    isDigest t = true := by
  obtain ⟨digest, -, h⟩ := bind_eq_ok.mp h
  split at h
  · cases h
    assumption
  · cases h

section

variable {casefold : Casefold} {resolves : Resolving} {sha256 : List UInt8 → Text}

variable {context : Text} {location : SourceLocation} {value : Json} {entry : Json × ℕ}

theorem canonicalLocation_path_ne_nil {projectRoot : Option Text} {region : SourceRegion}
    (h : canonicalLocation casefold projectRoot context region = .ok location) :
    location.val.path ≠ [] := by
  unfold canonicalLocation at h
  split at h
  · cases h
  · obtain ⟨path, hPath, rfl⟩ := map_eq_ok.mp h
    exact canonicalProjectPath_ne_nil hPath

theorem locationFromPayload_path_ne_nil
    (h : locationFromPayload casefold resolves value context = .ok location) : location.val.path ≠ [] := by
  obtain ⟨payload, -, h⟩ := bind_eq_ok.mp h
  obtain ⟨rawPath, hRaw, h⟩ := bind_eq_ok.mp h
  obtain ⟨canonicalPath, -, h⟩ := bind_eq_ok.mp h
  split at h
  · cases h
  · rename_i hSame
    obtain ⟨region, hRegion, h⟩ := bind_eq_ok.mp h
    have hPath : region.path = canonicalPath := by
      obtain ⟨startLine, -, hRegion⟩ := bind_eq_ok.mp hRegion
      split at hRegion
      · cases hRegion
      · obtain ⟨_, -, hRegion⟩ := bind_eq_ok.mp hRegion
        obtain ⟨_, -, hRegion⟩ := bind_eq_ok.mp hRegion
        obtain ⟨_, -, hRegion⟩ := bind_eq_ok.mp hRegion
        cases hRegion
        rfl
    unfold labelledLocation at h
    split at h
    · cases h
    · obtain ⟨label, -, rfl⟩ := map_eq_ok.mp h
      change region.path ≠ []
      rw [hPath, ← not_not.mp hSame]
      exact requireNonempty_ne_nil hRaw

theorem findingFromPayload_isNamed {engineName : Text} {record : FindingRecord}
    (h : findingFromPayload casefold resolves sha256 engineName entry = .ok record) :
    record.engineName = engineName ∧ record.IsNamed := by
  obtain ⟨payload, -, h⟩ := bind_eq_ok.mp h
  obtain ⟨fingerprint, hFingerprint, h⟩ := bind_eq_ok.mp h
  obtain ⟨ruleId, hRuleId, h⟩ := bind_eq_ok.mp h
  obtain ⟨severityText, -, h⟩ := bind_eq_ok.mp h
  obtain ⟨severity, -, h⟩ := bind_eq_ok.mp h
  obtain ⟨location, hLocation, h⟩ := bind_eq_ok.mp h
  obtain ⟨labelled, -, h⟩ := bind_eq_ok.mp h
  obtain ⟨unlabelled, -, h⟩ := bind_eq_ok.mp h
  split at h
  · cases h
  · obtain ⟨related, -, h⟩ := bind_eq_ok.mp h
    obtain ⟨_, -, h⟩ := bind_eq_ok.mp h
    obtain ⟨suppression, -, h⟩ := bind_eq_ok.mp h
    split at h
    · obtain ⟨message, -, h⟩ := bind_eq_ok.mp h
      cases h
      exact ⟨rfl, requireDigest_isDigest hFingerprint, requireNonempty_ne_nil hRuleId,
        locationFromPayload_path_ne_nil hLocation⟩
    · cases h

theorem metadataFromPayload_isValid {metadata : Option AnalysisMetadata}
    (h : metadataFromPayload value = .ok metadata) : ∀ found ∈ metadata, found.IsValid := by
  unfold metadataFromPayload at h
  split at h
  · cases h
    exact nofun
  · obtain ⟨payload, -, h⟩ := bind_eq_ok.mp h
    obtain ⟨producer, hProducer, h⟩ := bind_eq_ok.mp h
    obtain ⟨version, hVersion, h⟩ := bind_eq_ok.mp h
    obtain ⟨policy, hPolicy, h⟩ := bind_eq_ok.mp h
    obtain ⟨toolPolicy, hToolPolicy, h⟩ := bind_eq_ok.mp h
    cases h
    intro found hFound
    cases hFound
    exact ⟨requireNonempty_ne_nil hProducer, requireNonempty_ne_nil hVersion,
      requireDigest_isDigest hPolicy, requireDigest_isDigest hToolPolicy⟩

theorem coverageFile_ne_nil {entry : Text × Json} {file : Text × PyFloat}
    (h : coverageFile casefold resolves context entry = .ok file) : file.1 ≠ [] := by
  obtain ⟨canonical, hCanonical, h⟩ := bind_eq_ok.mp h
  split at h
  · cases h
  · obtain ⟨_, -, h⟩ := bind_eq_ok.mp h
    obtain ⟨value, -, h⟩ := bind_eq_ok.mp h
    cases h
    exact canonicalProjectPath_ne_nil (asBaselineError_eq_ok.mp hCanonical)

theorem coverageSnapshot_files {snapshot : Option CoverageSnapshot}
    (h : coverageSnapshotFromPayload casefold resolves value context = .ok snapshot) :
    ∀ coverage ∈ snapshot, ∀ file ∈ coverage.files, file.1 ≠ [] := by
  unfold coverageSnapshotFromPayload at h
  split at h
  · cases h
    exact nofun
  · obtain ⟨payload, -, h⟩ := bind_eq_ok.mp h
    obtain ⟨metricsPayload, -, h⟩ := bind_eq_ok.mp h
    dsimp only at h
    split at h
    · cases h
    · obtain ⟨metrics, -, h⟩ := bind_eq_ok.mp h
      obtain ⟨filesPayload, -, h⟩ := bind_eq_ok.mp h
      split at h
      · cases h
      · obtain ⟨files, hFiles, h⟩ := bind_eq_ok.mp h
        obtain ⟨tolerance, -, h⟩ := bind_eq_ok.mp h
        cases h
        intro coverage hCoverage file hFile
        cases hCoverage
        obtain ⟨entry, -, hEntry⟩ := exists_of_mem_mapM hFiles hFile
        exact coverageFile_ne_nil hEntry

structure BaselineRead.IsNamed (read : BaselineRead) : Prop where
  records : ∀ record ∈ read.records, record.engineName ≠ [] ∧ record.IsNamed
  files : ∀ coverage ∈ read.coverage, ∀ file ∈ coverage.files, file.1 ≠ []

theorem isNamed_empty : ({} : BaselineRead).IsNamed := by
  constructor <;> simp

theorem readEngine_isNamed {read after : BaselineRead} (hRead : read.IsNamed)
    (h : readEngine casefold resolves sha256 read entry = .ok after) : after.IsNamed := by
  obtain ⟨engine, -, h⟩ := bind_eq_ok.mp h
  obtain ⟨engineName, hName, h⟩ := bind_eq_ok.mp h
  obtain ⟨findings, -, h⟩ := bind_eq_ok.mp h
  obtain ⟨records, hRecords, h⟩ := bind_eq_ok.mp h
  have hAll : ∀ record ∈ read.records ++ records, record.engineName ≠ [] ∧ record.IsNamed := by
    intro record hRecord
    rcases mem_append.mp hRecord with hOld | hNew
    · exact hRead.records record hOld
    · obtain ⟨finding, -, hFinding⟩ := exists_of_mem_mapM hRecords hNew
      obtain ⟨hEngine, hNamed⟩ := findingFromPayload_isNamed hFinding
      exact ⟨hEngine ▸ requireNonempty_ne_nil hName, hNamed⟩
  dsimp only at h
  split at h
  · cases h
    exact ⟨hAll, hRead.files⟩
  · split at h
    · cases h
    · obtain ⟨extra, -, h⟩ := bind_eq_ok.mp h
      obtain ⟨coverage, hCoverage, h⟩ := bind_eq_ok.mp h
      cases h
      exact ⟨hAll, coverageSnapshot_files hCoverage⟩

theorem loadBaseline_isRead {payload : Json} {document : BaselineDocument}
    (h : loadBaseline casefold resolves sha256 payload = .ok document) : document.IsRead := by
  obtain ⟨root, -, h⟩ := bind_eq_ok.mp h
  dsimp only at h
  split at h
  · obtain ⟨_, -, h⟩ := bind_eq_ok.mp h
    cases h
  · obtain ⟨results, -, h⟩ := bind_eq_ok.mp h
    obtain ⟨read, hRead, h⟩ := bind_eq_ok.mp h
    obtain ⟨metadata, hMetadata, h⟩ := bind_eq_ok.mp h
    cases h
    have hNamed : read.IsNamed := foldlM_invariant BaselineRead.IsNamed
      (fun _ _ _ _ hBefore hStep => readEngine_isNamed hBefore hStep) isNamed_empty hRead
    exact ⟨hNamed.records, metadataFromPayload_isValid hMetadata, hNamed.files⟩

end

end Ici.Core
