import Ici.Core.EmittedComparison
import Ici.Core.Exchange

/-! # Every comparison can be reported

The comparison classifies its entries on the locations it was given and the writer checks them on
redacted ones. They disagree exactly where redaction makes the two sides of a move equal. -/

namespace Ici.Core

open List Raising Python Matching

/-- The occurrences of a group beyond those the other side has at the same place, in order. -/
def unmatched (records others : List FindingRecord) : List FindingRecord :=
  surplus (fun record => locationKey record.location) (sorted recordKey records) fun place =>
    others.countP (locationKey ·.location = place)

/-- No two places that are matched in order as one move look alike once they are redacted. -/
def RedactionSeparates (words : WordCodes) (current baseline : List FindingRecord) : Prop :=
  ∀ key, ∀ pair ∈ (unmatched (groupOf key current) (groupOf key baseline)).zip
    (unmatched (groupOf key baseline) (groupOf key current)),
    redactLocation words pair.1.location ≠ redactLocation words pair.2.location

theorem length_placed (records : List FindingRecord) (place : LocationKey) :
    (placed RecordKey.place recordKey records place).length =
      records.countP (locationKey ·.location = place) := by
  rw [countP_eq_length_filter]
  exact ((sorted_perm recordKey records).filter _).length_eq

theorem moved_mem_pairGroup_iff {l m : List FindingRecord} {now before : FindingRecord} :
    .moved now before ∈ pairGroup l m ↔ (now, before) ∈ (unmatched l m).zip (unmatched m l) := by
  have hLeft : (firstPass RecordKey.place recordKey recordKey l m).left = unmatched l m := by
    rw [firstPass_left_eq]
    exact congrArg (surplus _ _) (funext fun place => length_placed m place)
  have hRight : leftOver RecordKey.place recordKey recordKey l m = unmatched m l := by
    rw [leftOver_eq]
    exact congrArg (surplus _ _) (funext fun place => length_placed l place)
  rw [← hLeft, ← hRight]
  simp [pairGroup, Matching.compare, mem_zipWith_moved, -map_drop]

section

variable {words : WordCodes} {p : Fate FindingRecord FindingRecord}

theorem redactDelta_engineName (delta : FindingDelta) :
    (redactDelta words delta).engineName = redactText words delta.engineName := by rw [redactDelta]

theorem redactDelta_ruleId (delta : FindingDelta) :
    (redactDelta words delta).ruleId = redactText words delta.ruleId := by rw [redactDelta]

theorem redactLocation_path (location : SourceLocation) :
    (redactLocation words location).val.path = redactText words location.val.path := by rw [redactLocation]

theorem redactDelta_presence : validateDeltaPresence (redactDelta words (toDelta p)) = .ok () := by
  cases p <;> rfl

theorem redactDelta_flags : validateDeltaFlags (redactDelta words (toDelta p)) = .ok () := by
  refine check_eq_ok.mpr ?_
  cases p with
  | same now before | moved now before =>
    simp only [toDelta, pairedDelta, redactDelta, isActionable]
    cases isRegressed now before <;> cases now.suppressed <;> cases now.severity <;> rfl
  | fresh now =>
    simp only [toDelta, newDelta, redactDelta, isActionable]
    cases now.suppressed <;> cases now.severity <;> rfl
  | gone before => rfl

section

variable (hSame : ∀ now before, p = .same now before → now.location = before.location)
include hSame

theorem redactDelta_relationship : validateDeltaRelationship (redactDelta words (toDelta p)) = .ok () ↔
      ∀ now before, p = .moved now before →
        redactLocation words now.location ≠ redactLocation words before.location := by
  unfold validateDeltaRelationship
  rw [seq_eq_ok, seq_eq_ok, check_eq_ok, check_eq_ok, check_eq_ok]
  cases p with
  | same now before =>
    rw [show redactDelta words (toDelta (.same now before)) = redactDelta words
      (pairedDelta now before .unchanged) from rfl]
    simp [redactDelta, pairedDelta, hSame now before rfl]
  | moved now before => simp [redactDelta, toDelta, pairedDelta]
  | fresh now => simp [redactDelta, toDelta, newDelta]
  | gone before => simp [redactDelta, toDelta, resolvedDelta]

theorem redactDelta_isValid_iff (hLeft : ∀ record, p.left = some record → record.IsNamed)
    (hRight : ∀ record, p.right = some record → record.IsNamed) :
    (redactDelta words (toDelta p)).IsValid ↔ (toDelta p).engineName ≠ [] ∧
      ∀ now before, p = .moved now before →
        redactLocation words now.location ≠ redactLocation words before.location := by
  have hKeeps {t : Text} : redactText words t ≠ [] ↔ t ≠ [] := not_congr (redactText_eq_nil_iff words)
  constructor
  · intro h
    have hName := h.engineName
    rw [redactDelta_engineName] at hName
    exact ⟨hKeeps.mp hName, (redactDelta_relationship hSame).mp h.relationship⟩
  · rintro ⟨hName, hMoved⟩
    have hRule : (toDelta p).ruleId ≠ [] := by
      cases p with
      | same now before | moved now before | fresh now => exact (hLeft now rfl).ruleId
      | gone before => exact (hRight before rfl).ruleId
    have hCurrent : ∀ found ∈ (toDelta p).currentLocation, found.val.path ≠ [] := by
      intro found hFound
      cases p with
      | same now before | moved now before | fresh now =>
        cases hFound
        exact (hLeft now rfl).path
      | gone before => cases hFound
    have hBaseline : ∀ found ∈ (toDelta p).baselineLocation, found.val.path ≠ [] := by
      intro found hFound
      cases p with
      | same now before | moved now before | gone before =>
        cases hFound
        exact (hRight before rfl).path
      | fresh now => cases hFound
    have hRedacted {location : Option SourceLocation} (h : ∀ found ∈ location, found.val.path ≠ []) :
        ∀ found ∈ location.map (redactLocation words), found.val.path ≠ [] := by
      intro found hFound
      obtain ⟨before, hBefore, rfl⟩ := Option.map_eq_some_iff.mp hFound
      rw [redactLocation_path]
      exact hKeeps.mpr (h before hBefore)
    have hEngine : (redactDelta words (toDelta p)).engineName ≠ [] := by
      rw [redactDelta_engineName]
      exact hKeeps.mpr hName
    have hRuleId : (redactDelta words (toDelta p)).ruleId ≠ [] := by
      rw [redactDelta_ruleId]
      exact hKeeps.mpr hRule
    refine
      { presence := redactDelta_presence
        relationship := (redactDelta_relationship hSame).mpr hMoved
        flags := redactDelta_flags
        engineName := hEngine
        fingerprint := ?_
        ruleId := hRuleId
        currentPath := hRedacted hCurrent
        baselinePath := hRedacted hBaseline }
    cases p with
    | same now before | moved now before | fresh now => exact (hLeft now rfl).fingerprint
    | gone before => exact (hRight before rfl).fingerprint

end

end

/-! ## Current records -/

section

variable {sha256 : HexHash} {casefold : Casefold} {resolves : Resolving} {root : PurePath}

theorem legacyRuleId_ne_nil (engineName : Text) : legacyRuleId casefold engineName ≠ [] := by
  unfold legacyRuleId
  intro h
  have hFront := (append_eq_nil_iff.mp (append_eq_nil_iff.mp h).1).1
  exact absurd hFront (by decide)

/-- What `findings_for_result` returns can be written. -/
structure CanonicalFinding.IsNamed (finding : CanonicalFinding) : Prop where
  fingerprint : isDigest finding.fingerprint = true
  ruleId : finding.ruleId ≠ []
  path : finding.primaryLocation.val.path ≠ []

variable {projectRoot : Option Text} {finding : CanonicalFinding} {warnings : List Text}

variable {result : EmittedResult} {suite : List EmittedResult} {results : List EngineResult}
  {tolerance : PyFloat} {metadata : AnalysisMetadata} {current : List FindingRecord}
  {document : BaselineDocument}

theorem legacyTargetToFinding_isNamed {target : InspectionTarget} {symbol : Text}
    (h : legacyTargetToFinding sha256.text casefold projectRoot result target symbol = .ok finding) :
    CanonicalFinding.IsNamed finding := by
  obtain ⟨location, hLocation, h⟩ := bind_eq_ok.mp h
  obtain ⟨fingerprint, hFingerprint, h⟩ := bind_eq_ok.mp h
  obtain ⟨metrics, -, h⟩ := bind_eq_ok.mp h
  cases h
  exact ⟨isDigest_findingFingerprint hFingerprint, legacyRuleId_ne_nil _,
    canonicalLocation_path_ne_nil hLocation⟩

theorem canonicalizeFinding_isNamed {native : EngineFinding SourceRegion}
    (h : canonicalizeFinding sha256.text casefold projectRoot native = .ok finding) :
    CanonicalFinding.IsNamed finding := by
  unfold canonicalizeFinding at h
  split at h
  · cases h
  · rename_i hRule
    obtain ⟨primary, hPrimary, h⟩ := bind_eq_ok.mp h
    obtain ⟨related, -, h⟩ := bind_eq_ok.mp h
    obtain ⟨fixes, -, h⟩ := bind_eq_ok.mp h
    obtain ⟨fingerprint, hFingerprint, h⟩ := bind_eq_ok.mp h
    cases h
    refine ⟨isDigest_findingFingerprint hFingerprint, ?_, canonicalLocation_path_ne_nil hPrimary⟩
    rintro hNone
    change native.ruleId = [] at hNone
    rw [hNone] at hRule
    exact hRule rfl

theorem of_mem_mergeFindings {adapted native : List CanonicalFinding}
    (h : finding ∈ mergeFindings adapted native) : finding ∈ adapted ∨ finding ∈ native := by
  induction adapted generalizing native with
  | nil => exact .inr h
  | cons first rest ih =>
    rw [mergeFindings] at h
    split at h
    · rename_i replacement hFound
      rcases mem_cons.mp h with rfl | hRest
      · exact .inr (mem_of_find?_eq_some hFound)
      · rcases ih hRest with hAdapted | hNative
        · exact .inl (mem_cons_of_mem first hAdapted)
        · exact .inr (eraseP_subset hNative)
    · rcases mem_cons.mp h with rfl | hRest
      · exact .inl mem_cons_self
      · exact (ih hRest).imp_left (mem_cons_of_mem first)

theorem findingsForResult_isNamed {findings : List CanonicalFinding}
    (h : findingsForResult sha256.text casefold projectRoot result = .ok findings) :
    ∀ finding ∈ findings, CanonicalFinding.IsNamed finding := by
  obtain ⟨keys, -, h⟩ := bind_eq_ok.mp h
  obtain ⟨adapted, hAdapted, h⟩ := bind_eq_ok.mp h
  obtain ⟨native, hNative, h⟩ := bind_eq_ok.mp h
  cases h
  intro finding hFinding
  rcases of_mem_mergeFindings ((perm_insertionSort _ _).subset hFinding) with hMem | hMem
  · obtain ⟨entry, -, hEntry⟩ := exists_of_mem_mapM hAdapted hMem
    exact legacyTargetToFinding_isNamed hEntry
  · obtain ⟨entry, -, hEntry⟩ := exists_of_mem_mapM hNative hMem
    exact canonicalizeFinding_isNamed hEntry

theorem suiteRecords_isNamed (h : canonicalSuite sha256 casefold resolves root suite = .ok results) :
    ∀ record ∈ suiteRecords results, record.IsNamed := by
  obtain ⟨canonical, hCanonical, h⟩ := bind_eq_ok.mp h
  obtain ⟨coverage, -, h⟩ := bind_eq_ok.mp h
  cases h
  intro record hRecord
  obtain ⟨result, hResult, hRecord⟩ := mem_flatMap.mp hRecord
  obtain ⟨before, hBefore, rfl⟩ := mem_map.mp hResult
  obtain ⟨emitted, -, hEmitted⟩ := exists_of_mem_mapM hCanonical hBefore
  obtain ⟨findings, hFindings, hResult⟩ := bind_eq_ok.mp hEmitted
  cases hResult
  obtain ⟨finding, hFinding, rfl⟩ := mem_map.mp hRecord
  have hMem : finding ∈ findings.map CanonicalFinding.toFinding := by
    split at hFinding <;> exact hFinding
  obtain ⟨canonicalFinding, hIn, rfl⟩ := mem_map.mp hMem
  obtain ⟨hFingerprint, hRule, hPath⟩ := findingsForResult_isNamed hFindings canonicalFinding hIn
  exact ⟨hFingerprint, hRule, hPath⟩

theorem coverageRecord_isNamed {drop : CoverageDrop} {record : FindingRecord}
    (hPath : drop.path ≠ []) (h : coverageRecord sha256.text tolerance drop = .ok record) :
    record.IsNamed := by
  obtain ⟨fingerprint, hFingerprint, h⟩ := bind_eq_ok.mp h
  cases h
  exact ⟨isDigest_findingFingerprint hFingerprint, append_ne_nil_of_left_ne_nil (by decide) _, hPath⟩

theorem coverageDrops_path {current baseline : List (Text × PyFloat)}
    {named : Text → Text × Text} (h : ∀ entry ∈ baseline, (named entry.1).2 ≠ []) :
    ∀ drop ∈ coverageDrops tolerance current baseline named, drop.path ≠ [] := by
  intro drop hDrop
  obtain ⟨entry, hEntry, hSome⟩ := mem_filterMap.mp hDrop
  obtain ⟨value, -, hIf⟩ := Option.bind_eq_some_iff.mp hSome
  split at hIf
  · cases hIf
    exact h entry hEntry
  · cases hIf

theorem coverageRegressionRecords_isNamed {now before : Option CoverageSnapshot}
    {records : List FindingRecord}
    (hFiles : ∀ coverage ∈ before, ∀ file ∈ coverage.files, file.1 ≠ [])
    (h : coverageRegressionRecords sha256.text now before = .ok (records, warnings)) :
    (∀ record ∈ records, record.IsNamed) ∧ ∀ warning ∈ warnings, warning ≠ [] := by
  unfold coverageRegressionRecords at h
  split at h
  · cases h
    simp
  · split at h
    · cases h
      simp
    · cases h
      refine ⟨by simp, fun warning hWarning => ?_⟩
      rw [mem_singleton.mp hWarning]
      decide
    · obtain ⟨found, hFound, h⟩ := bind_eq_ok.mp h
      cases h
      refine ⟨fun record hRecord => ?_, by simp⟩
      obtain ⟨drop, hDrop, hRecordOk⟩ := exists_of_mem_mapM hFound hRecord
      have hDot : py "." ≠ [] := by decide
      refine coverageRecord_isNamed ?_ hRecordOk
      rcases mem_append.mp hDrop with hMetric | hFile
      · exact coverageDrops_path (fun _ _ => hDot) drop hMetric
      · exact coverageDrops_path (fun entry hEntry => hFiles _ rfl entry hEntry) drop hFile

/-! ## The whole comparison -/

theorem asPosix_ne_nil (path : PurePath) : path.asPosix ≠ [] := by
  intro h
  have hPath := path.parse_asPosix
  rw [h] at hPath
  rw [← hPath] at h
  exact absurd h (by decide)

theorem compatibilityWarnings_ne_nil {before : Option AnalysisMetadata} {now : AnalysisMetadata} :
    ∀ warning ∈ compatibilityWarnings before now, warning ≠ [] := by
  intro warning h
  cases before with
  | none =>
    rw [mem_singleton.mp h]
    decide
  | some metadata =>
    obtain ⟨⟨label, old, new⟩, -, hEntry⟩ := mem_filterMap.mp h
    dsimp only at hEntry
    split at hEntry
    · cases hEntry
      simp [py]
    · cases hEntry

theorem skippedWarnings_ne_nil {unlooked : Dict Text Text} {counts : Dict Text ℕ}
    (h : skippedWarnings unlooked counts = .ok warnings) : ∀ warning ∈ warnings, warning ≠ [] := by
  intro warning hWarning
  obtain ⟨⟨engine, count⟩, -, hEntry⟩ := exists_of_mem_mapM h hWarning
  dsimp only at hEntry
  split at hEntry
  · cases hEntry
  · cases hEntry
    simp [py]

structure BaselineComparison.IsReportable (comparison : BaselineComparison) : Prop where
  gate : comparison.gateFailed = (comparison.failOnNew && decide (0 < comparison.gatedCount))
  warnings : ∀ warning ∈ comparison.warnings, warning ≠ []
  metadata : ∀ found ∈ comparison.baselineMetadata, found.IsValid

theorem redactMetadata_isValid {words : WordCodes} (h : metadata.IsValid) :
    (redactMetadata words metadata).IsValid where
  producerVersion hNone := h.producerVersion ((redactText_eq_nil_iff words).mp hNone)
  fingerprintVersion hNone := h.fingerprintVersion ((redactText_eq_nil_iff words).mp hNone)
  policyDigest := by
    rw [redactMetadata, redactText_of_isDigest words h.policyDigest]
    exact h.policyDigest
  toolPolicyDigest := by
    rw [redactMetadata, redactText_of_isDigest words h.toolPolicyDigest]
    exact h.toolPolicyDigest

theorem exists_serialize_redacted (words : WordCodes) {comparison : ReportedComparison}
    (h : comparison.IsReportable) (hSource : comparison.sourcePath ≠ []) :
    (∃ written, serializeBaselineComparison (redactBaseline words comparison) = .ok written) ↔
      ∀ entry ∈ comparison.entries, (redactDelta words entry).IsValid := by
  have hCount : (redactBaseline words comparison).gatedCount = comparison.gatedCount := by
    unfold BaselineComparison.gatedCount
    rw [redactBaseline, countP_map]
    rfl
  rw [exists_serializeBaselineComparison]
  · rw [redactBaseline, forall_mem_map]
  · rw [hCount]
    exact h.gate
  · exact fun hNone => hSource ((redactText_eq_nil_iff words).mp hNone)
  · intro warning hWarning
    obtain ⟨before, hBefore, rfl⟩ := mem_map.mp hWarning
    exact fun hNone => h.warnings before hBefore ((redactText_eq_nil_iff words).mp hNone)
  · intro found hFound
    obtain ⟨before, hBefore, rfl⟩ := Option.map_eq_some_iff.mp hFound
    exact redactMetadata_isValid (h.metadata before hBefore)

theorem compareCurrent_isReportable {suite : List EngineResult} {coverageWarnings : List Text}
    {failOnNew : Bool} {comparison : BaselineComparison} (hRead : document.IsRead)
    (hCoverage : ∀ warning ∈ coverageWarnings, warning ≠ [])
    (h : compareCurrent suite current coverageWarnings document metadata failOnNew = .ok comparison) :
    comparison.IsReportable ∧ comparison.entries.Perm
      ((fates (enginesThatDidNotLook suite document.findings) current document.findings).map toDelta) := by
  obtain ⟨entries, hEntries, h⟩ := bind_eq_ok.mp h
  obtain ⟨skipped, hSkipped, h⟩ := bind_eq_ok.mp h
  cases h
  refine ⟨⟨rfl, ?_, hRead.metadata⟩, compareRecords_entries ▸ sortEntries_perm hEntries⟩
  intro warning hWarning
  rcases mem_append.mp hWarning with hFront | hMem
  · rcases mem_append.mp hFront with hMem | hMem
    · exact compatibilityWarnings_ne_nil warning hMem
    · exact hCoverage warning hMem
  · exact skippedWarnings_ne_nil hSkipped warning hMem

theorem redacted_fates_iff {words : WordCodes} {unlooked : Dict Text Text}
    {current baseline : List FindingRecord} (hCurrent : ∀ record ∈ current, record.IsNamed)
    (hBaseline : ∀ record ∈ baseline, record.engineName ≠ [] ∧ record.IsNamed) :
    (∀ p ∈ fates unlooked current baseline, (redactDelta words (toDelta p)).IsValid) ↔
      (∀ record ∈ current, record.engineName ≠ []) ∧ RedactionSeparates words current baseline := by
  have hValid {p : Fate FindingRecord FindingRecord} (hp : p ∈ fates unlooked current baseline) :
      (redactDelta words (toDelta p)).IsValid ↔ (toDelta p).engineName ≠ [] ∧
        ∀ now before, p = .moved now before →
          redactLocation words now.location ≠ redactLocation words before.location := by
    obtain ⟨key, -, -, hMem⟩ := mem_fates.mp hp
    refine redactDelta_isValid_iff (fun now before hSame => ?_) (fun record hSide => ?_)
      fun record hSide => ?_
    · subst hSame
      have hPlace : RecordKey.place (recordKey now) = RecordKey.place (recordKey before) :=
        place_eq_of_same hMem
      exact locationKey_injective hPlace
    · exact hCurrent record (mem_groupOf.mp (mem_of_mem_pairGroup_left hMem hSide)).1
    · exact (hBaseline record (mem_groupOf.mp (mem_of_mem_pairGroup_right hMem hSide)).1).2
  constructor
  · intro h
    constructor
    · intro record hRecord
      obtain ⟨p, hp, hLeft⟩ := mem_filterMap.mp ((@fates_left_perm unlooked
        current baseline).mem_iff.mpr hRecord)
      have hName := ((hValid hp).mp (h p hp)).1
      cases p with
      | same now before | moved now before | fresh now =>
        cases hLeft
        exact hName
      | gone before => cases hLeft
    · rintro key ⟨now, before⟩ hPair
      have hMoved := moved_mem_pairGroup_iff.mpr hPair
      obtain ⟨hMem, hKey⟩ := mem_groupOf.mp (mem_of_mem_pairGroup_left hMoved rfl)
      have hIn : key ∈ groupKeys current baseline :=
        mem_groupKeys.mpr ⟨now, mem_append_left _ hMem, hKey⟩
      have hp : .moved now before ∈ fates unlooked current baseline := mem_fates.mpr ⟨key, hIn,
        hKey ▸ isCompared_of_mem hMem, hMoved⟩
      exact ((hValid hp).mp (h _ hp)).2 now before rfl
  · rintro ⟨hNames, hSeparates⟩ p hp
    obtain ⟨key, -, -, hMem⟩ := mem_fates.mp hp
    refine (hValid hp).mpr ⟨?_, ?_⟩
    · cases p with
      | same now before | moved now before | fresh now =>
        exact hNames now (mem_groupOf.mp (mem_of_mem_pairGroup_left hMem rfl)).1
      | gone before => exact (hBaseline before (mem_groupOf.mp (mem_of_mem_pairGroup_right hMem rfl)).1).1
    · rintro now before rfl
      have hDiffer := hSeparates key (now, before) (moved_mem_pairGroup_iff.mp hMem)
      dsimp only at hDiffer
      exact hDiffer

theorem currentRecords_isNamed
    (hRead : document.IsRead) (hResults : canonicalSuite sha256 casefold resolves root suite = .ok results)
    (h : currentRecords sha256.text results document = .ok (current, warnings)) :
    (∀ record ∈ current, record.IsNamed) ∧ ∀ warning ∈ warnings, warning ≠ [] := by
  obtain ⟨snapshot, -, h⟩ := bind_eq_ok.mp h
  obtain ⟨⟨coverage, coverageWarnings⟩, hCoverage, h⟩ := bind_eq_ok.mp h
  cases h
  obtain ⟨hRecords, hWarnings⟩ := coverageRegressionRecords_isNamed hRead.files hCoverage
  refine ⟨fun record hRecord => ?_, hWarnings⟩
  rcases mem_append.mp hRecord with hSuite | hMem
  · exact suiteRecords_isNamed hResults record hSuite
  · exact hRecords record hMem

theorem comparison_reported_iff (words : WordCodes) (baselinePath : PurePath) (suite : List EmittedResult)
    (payload : Json) (currentMetadata : AnalysisMetadata) (failOnNew : Bool)
    {comparison : ReportedComparison}
    (hRun : compareEmitted sha256 casefold resolves root baselinePath suite payload currentMetadata
      failOnNew = .ok comparison) :
    ∃ document results current warnings,
      loadBaseline casefold resolves sha256.text payload = .ok document ∧
      canonicalSuite sha256 casefold resolves root suite = .ok results ∧
      currentRecords sha256.text results document = .ok (current, warnings) ∧
      ((∃ written, serializeBaselineComparison (redactBaseline words comparison) = .ok written) ↔
        (∀ record ∈ current, record.engineName ≠ []) ∧
          RedactionSeparates words current document.findings) := by
  obtain ⟨document, hDocument, hRun⟩ := bind_eq_ok.mp hRun
  obtain ⟨results, hResults, hRun⟩ := bind_eq_ok.mp hRun
  obtain ⟨compared, hCompared, hRun⟩ := bind_eq_ok.mp hRun
  obtain ⟨⟨current, warnings⟩, hCurrent, hCompared⟩ := bind_eq_ok.mp hCompared
  have hRead := loadBaseline_isRead hDocument
  obtain ⟨hNamed, hWarnings⟩ := currentRecords_isNamed hRead hResults hCurrent
  obtain ⟨hReportable, hEntries⟩ := compareCurrent_isReportable hRead hWarnings hCompared
  refine ⟨document, results, current, warnings, hDocument, hResults, hCurrent, ?_⟩
  unfold reportedComparison at hRun
  split at hRun
  · cases hRun
  · rename_i relative _
    cases hRun
    rw [exists_serialize_redacted words hReportable (asPosix_ne_nil relative), ← @redacted_fates_iff words
        (enginesThatDidNotLook results document.findings) current document.findings hNamed hRead.findings]
    constructor
    · exact fun h p hp => h _ (hEntries.mem_iff.mpr (mem_map_of_mem hp))
    · intro h entry hEntry
      obtain ⟨p, hp, rfl⟩ := mem_map.mp (hEntries.mem_iff.mp hEntry)
      exact h p hp

end

/-! ## A label that holds a secret -/

def asciiCasefold : Casefold := fun t =>
  t.map fun c => if 0x41 ≤ c.val ∧ c.val ≤ 0x5a then Fin.ofNat 0x110000 (c.val + 0x20) else c

def labelHash : HexHash := fun bytes =>
  if bytes.length = 116 then
    ⟨py "46d2c4e8ee2ca4b35651c9b370fa55a7f6f43792a3111cd32f70a3ad14661672", by decide +kernel⟩
  else if bytes.length = 127 then
    ⟨py "bbdd4d652ee78cfc6e4b5bc85cc2b8d462d34b27c4b5e56a0eb5b71316dd509d", by decide +kernel⟩
  else ⟨py "473b971760ee51f55ef5fa4abf26d9a2f37c30410672c8c1868e6eb289871d89", by decide +kernel⟩

def secretTarget : InspectionTarget where
  filePath := py "a.py"
  startLine := 3
  targetName := py "token=abc"
  status := .warn
  message := py "unused"

/-- Two equal targets are no unique symbol, so their fingerprint is that of the region. -/
def secretSuite : List EmittedResult :=
  [{ engineName := py "lint", status := .warn, targets := [secretTarget, secretTarget] }]

def savedFinding : Json := .obj
  [(py "fingerprint", .str (py "sha256:473b971760ee51f55ef5fa4abf26d9a2f37c30410672c8c1868e6eb289871d89")),
    (py "rule_id", .str (py "ici.legacy.lint.target")), (py "severity", .str (py "medium")),
    (py "primary_location", .obj [(py "path", .str (py "a.py")), (py "start_line", .int 3),
      (py "end_line", .null), (py "start_column", .null), (py "end_column", .null),
      (py "label", .str (py "token=***REDACTED***"))]),
    (py "related_locations", .arr []), (py "suppression", .obj [(py "suppressed", .bool false)]),
    (py "message", .str (py "unused"))]

def savedReport : Json := .obj
  [(py "schema_version", .str resultSchemaVersion), (py "analysis_metadata", .null),
    (py "results", .arr [.obj [(py "engine_name", .str (py "lint")),
      (py "findings", .arr [savedFinding, savedFinding])]])]

def compareSecret (report : Json) : Result ReportedComparison :=
  compareEmitted labelHash asciiCasefold (fun _ => .ok ()) (PurePath.parse (py "/p"))
    (PurePath.parse (py "/p/base.json")) secretSuite report
    ⟨py "1", fingerprintVersion, py "sha256:p", py "sha256:t"⟩ false

theorem exists_compareSecret : ∃ comparison, compareSecret savedReport = .ok comparison := by
  have hCompared : (compareSecret savedReport).toBool = true := by decide +kernel
  cases h : compareSecret savedReport with
  | error e =>
    rw [h] at hCompared
    cases hCompared
  | ok comparison => exact ⟨comparison, rfl⟩

theorem comparison_unreported : ∃ comparison, compareSecret savedReport = .ok comparison ∧
    ∀ written, serializeBaselineComparison (redactBaseline asciiWords comparison) ≠ .ok written := by
  have hWritten : (compareSecret savedReport >>= fun comparison =>
      serializeBaselineComparison (redactBaseline asciiWords comparison)).toBool = false := by
    decide +kernel
  obtain ⟨comparison, h⟩ := exists_compareSecret
  refine ⟨comparison, h, fun written hOk => ?_⟩
  rw [h, bind_eq_ok.mpr ⟨comparison, rfl, hOk⟩] at hWritten
  cases hWritten

theorem comparison_reported_secret : ∃ comparison, compareSecret savedReport = .ok comparison ∧
    ∃ document results current warnings,
      loadBaseline asciiCasefold (fun _ => .ok ()) labelHash.text savedReport = .ok document ∧
      canonicalSuite labelHash asciiCasefold (fun _ => .ok ()) (PurePath.parse (py "/p")) secretSuite =
        .ok results ∧
      currentRecords labelHash.text results document = .ok (current, warnings) ∧
      ((∃ written, serializeBaselineComparison (redactBaseline asciiWords comparison) = .ok written) ↔
        (∀ record ∈ current, record.engineName ≠ []) ∧
          RedactionSeparates asciiWords current document.findings) := by
  obtain ⟨comparison, h⟩ := exists_compareSecret
  exact ⟨comparison, h, comparison_reported_iff asciiWords _ _ _ _ _ h⟩

end Ici.Core
