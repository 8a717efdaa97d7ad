import Ici.Application.GateCorrect
import Ici.Application.ReportAssembled
import Ici.Execution.ManifestExact

/-! # Comparing a run against a stored baseline

A fingerprint leaves the check out, and a stored finding names one: the check that reported it first.
Whether the fingerprint is resolved is asked of that check alone. -/

namespace Ici.BaselineDelta

open List Raising Python Deduplication Checked BaselineComparisonFields

structure BaselineDocument where
  path : Text
  policyDigest : Text
  toolchainDigest : Text
  fingerprintVersion : Text
  findings : List Finding
  checks : Option (List CheckRecord)

/-- What `load_baseline` keeps of the result it has read. -/
def BaselineDocument.ofResult (path : Text) (result : RunResult) : BaselineDocument where
  path
  policyDigest := result.val.identity.val.policyDigest
  toolchainDigest := result.val.identity.val.toolchainDigest
  fingerprintVersion := result.val.identity.val.fingerprintVersion
  findings := result.val.findings
  checks := result.val.checks

def fingerprints (findings : List Finding) : List Text := findings.map (·.val.fingerprint)

def sortedSet (values : List Text) : List Text := values.dedup.insertionSort (· ≤ ·)

def completedKeys (checks : List CheckRecord) :=
  (checks.filter (·.val.evidenceComplete)).map (·.val.comparisonKey)

def recordCompleted (oldChecks checks : List CheckRecord) (finding : Finding) : Bool :=
  let byId : Dict Text CheckRecord := Dict.setAll [] (oldChecks.map fun item => (item.val.taskId, item))
  match finding.val.taskId.bind byId.get? with
  | some record => some record.val.componentId = finding.val.componentId &&
      record.val.comparisonKey ∈ completedKeys checks
  | none => false

def resolvedFingerprints (findings stored : List Finding) (oldChecks checks : List CheckRecord) : List Text :=
  fingerprints (stored.filter fun finding =>
    finding.val.fingerprint ∉ fingerprints findings && recordCompleted oldChecks checks finding)

def deltaOf (origin : Text) (findings stored : List Finding) (oldChecks checks : List CheckRecord) :
    BaselineComparisonFields :=
  let current := fingerprints findings
  let previous := fingerprints stored
  let resolved := resolvedFingerprints findings stored oldChecks checks
  { state := .comparable
    origin
    new := sortedSet (current.filter (· ∉ previous))
    unchanged := sortedSet (current.filter (· ∈ previous))
    resolved := sortedSet resolved
    carried := sortedSet (previous.filter fun item => item ∉ current ∧ item ∉ resolved) }

def compare (findings : List Finding) (baseline : BaselineDocument) (policyDigest toolchainDigest : Text)
    (checks : Option (List CheckRecord)) : Result BaselineComparison :=
  let refuse (reason : Text) := construct check
    { state := .incompatible, origin := baseline.path, reason }
  if baseline.fingerprintVersion ≠ fingerprintVersion then
    refuse (py "the baseline was written under a different fingerprint normalization — accept the current " ++
      py "run as the new baseline instead of comparing across the change")
  else if baseline.policyDigest ≠ policyDigest then
    refuse (py "policy changed since the baseline — accept the current run as the new baseline instead of " ++
      py "comparing across the change")
  else if baseline.toolchainDigest ≠ toolchainDigest then
    refuse (py "the provider toolchain changed since the baseline — findings from different tool versions " ++
      py "are not the same identity")
  else match baseline.checks, checks with
    | some oldChecks, some checks =>
      construct check
        (deltaOf baseline.path findings baseline.findings oldChecks checks)
    | _, _ =>
      refuse (py "completed check scope is unknown — accept a new v2 result as the baseline; " ++
        py "older results remain readable but cannot prove resolutions")

variable {findings : List Finding} {baseline : BaselineDocument} {policyDigest toolchainDigest : Text}

theorem compare_of_same {oldChecks checks : List CheckRecord}
    (hVersion : baseline.fingerprintVersion = fingerprintVersion)
    (hPolicy : baseline.policyDigest = policyDigest) (hToolchain : baseline.toolchainDigest = toolchainDigest)
    (hOld : baseline.checks = some oldChecks) :
    compare findings baseline policyDigest toolchainDigest (some checks) = construct check
        (deltaOf baseline.path findings baseline.findings oldChecks checks) := by
  simp only [compare, hVersion, hPolicy, hToolchain, hOld, ne_eq, not_true_eq_false, if_false]

theorem compare_comparable {checks : Option (List CheckRecord)} {delta : BaselineComparison}
    (h : compare findings baseline policyDigest toolchainDigest checks = .ok delta)
    (hState : delta.val.state = .comparable) :
    ∃ oldChecks newChecks, baseline.checks = some oldChecks ∧ checks = some newChecks ∧
      delta.val = deltaOf baseline.path findings baseline.findings oldChecks newChecks := by
  have hRefused {reason : Text} (hRefuse : construct check
      { state := .incompatible, origin := baseline.path, reason } = .ok delta) : False := by
    rw [construct_eq_ok_iff.mp hRefuse] at hState
    exact nomatch hState
  unfold compare at h
  dsimp only at h
  split_ifs at h
  · exact (hRefused h).elim
  · exact (hRefused h).elim
  · exact (hRefused h).elim
  split at h
  · rename_i oldChecks newChecks hOld
    exact ⟨oldChecks, newChecks, hOld, rfl, construct_eq_ok_iff.mp h⟩
  · exact (hRefused h).elim

structure IsDelta (previous current : List Text) (delta : BaselineComparisonFields) : Prop where
  new : ∀ item, item ∈ delta.new ↔ item ∈ current ∧ item ∉ previous
  covers : ∀ item, item ∈ previous ↔ item ∈ delta.unchanged ++ delta.resolved ++ delta.carried
  disjoint : (delta.unchanged ++ delta.resolved ++ delta.carried).Nodup

@[simp] theorem mem_sortedSet {values : List Text} {item : Text} : item ∈ sortedSet values ↔ item ∈ values :=
  (mem_insertionSort _).trans mem_dedup

theorem nodup_sortedSet (values : List Text) : (sortedSet values).Nodup :=
  (perm_insertionSort _ _).nodup_iff.mpr (nodup_dedup _)

theorem isDelta_deltaOf (origin : Text) (findings stored : List Finding)
    (oldChecks checks : List CheckRecord) :
    IsDelta (fingerprints stored) (fingerprints findings)
      (deltaOf origin findings stored oldChecks checks) := by
  have hGone : ∀ item ∈ resolvedFingerprints findings stored oldChecks checks,
      item ∈ fingerprints stored ∧ item ∉ fingerprints findings := by
    intro item hItem
    obtain ⟨finding, hFinding, rfl⟩ := mem_map.mp hItem
    obtain ⟨hStored, hAbsent⟩ := mem_filter.mp hFinding
    rw [Bool.and_eq_true, decide_eq_true_eq] at hAbsent
    exact ⟨mem_map_of_mem hStored, hAbsent.1⟩
  constructor
  case new =>
    intro item
    simp [deltaOf]
  case covers =>
    intro item
    simp only [deltaOf, mem_append, mem_sortedSet, mem_filter, decide_eq_true_eq]
    constructor
    · intro hPrevious
      by_cases hCurrent : item ∈ fingerprints findings
      · exact .inl (.inl ⟨hCurrent, hPrevious⟩)
      · by_cases hItem : item ∈ resolvedFingerprints findings stored oldChecks checks
        · exact .inl (.inr hItem)
        · exact .inr ⟨hPrevious, hCurrent, hItem⟩
    · rintro ((⟨-, hPrevious⟩ | hItem) | ⟨hPrevious, -⟩)
      · exact hPrevious
      · exact (hGone item hItem).1
      · exact hPrevious
  case disjoint =>
    dsimp only [deltaOf]
    refine nodup_append.mpr ⟨nodup_append.mpr ⟨nodup_sortedSet _, nodup_sortedSet _, ?_⟩,
      nodup_sortedSet _, ?_⟩
    · rintro item hKept _ hItem rfl
      rw [mem_sortedSet] at hKept hItem
      exact (hGone item hItem).2 (mem_filter.mp hKept).1
    · rintro item hKept _ hItem rfl
      rw [mem_sortedSet, mem_filter, decide_eq_true_eq] at hItem
      rcases mem_append.mp hKept with hUnchanged | hResolved
      · rw [mem_sortedSet] at hUnchanged
        exact hItem.2.1 (mem_filter.mp hUnchanged).1
      · exact hItem.2.2 (mem_sortedSet.mp hResolved)

/-! ## The runs a comparison is about -/

structure StoredRun where
  run : NextRun
  scope : Workspace
  verification : Verification
  checks : List CheckRecord
  baseline : Option BaselineComparison
  result : RunResult
  verified : run.verified scope = .ok verification
  recorded : run.records scope verification = .ok checks
  assembled : assemble verification (run.report scope verification checks baseline) = .ok result

def contains (observation : Observation) (fingerprint : Text) : Bool :=
  fingerprint ∈ fingerprints observation.val.findings

section

variable (verification : Verification) (taskId fingerprint : Text)

def Reports : Prop :=
  ∃ observation ∈ verification.observations, observation.val.taskId = taskId ∧
    contains observation fingerprint = true

def FirstReporter : Prop :=
  ∃ observation, verification.observations.find? (contains · fingerprint) = some observation ∧
    observation.val.taskId = taskId

end

def CompletedAgain (before after : List CheckRecord) (taskId : Text) : Prop :=
  ∃ record ∈ before, record.val.taskId = taskId ∧ record.val.comparisonKey ∈ completedKeys after

instance (verification : Verification) (taskId fingerprint : Text) :
    Decidable (Reports verification taskId fingerprint) := by
  unfold Reports
  infer_instance

instance (verification : Verification) (taskId fingerprint : Text) :
    Decidable (FirstReporter verification taskId fingerprint) :=
  decidable_of_iff ((verification.observations.find? (contains · fingerprint)).any (·.val.taskId = taskId) =
    true) (by unfold FirstReporter; cases verification.observations.find? (contains · fingerprint) <;> simp)

instance (before after : List CheckRecord) (taskId : Text) :
    Decidable (CompletedAgain before after taskId) :=
  decidable_of_iff (before.any (fun record => record.val.taskId = taskId &&
    record.val.comparisonKey ∈ completedKeys after) = true) (by
      simp only [List.any_eq_true, Bool.and_eq_true, decide_eq_true_eq, CompletedAgain])

namespace StoredRun

variable (stored : StoredRun)

def documentAt (path : Text) : BaselineDocument := .ofResult path stored.result

def compareWith (before : StoredRun) (path : Text) : Result BaselineComparison :=
  compare stored.result.val.findings (before.documentAt path) stored.result.val.identity.val.policyDigest
    stored.result.val.identity.val.toolchainDigest stored.result.val.checks

variable {stored}

theorem result_fields (stored : StoredRun) : stored.result.val.findings = stored.verification.findings ∧
    stored.result.val.checks = some stored.checks ∧
      stored.result.val.identity.val.fingerprintVersion = fingerprintVersion ∧
        stored.result.val.identity.val.policyDigest = stored.run.policyDigest ∧
          stored.result.val.identity.val.toolchainDigest = stored.run.toolchainDigest := by
  obtain ⟨tem, -, h⟩ := bind_eq_ok.mp stored.assembled
  obtain ⟨producer, -, h⟩ := bind_eq_ok.mp h
  obtain ⟨identity, hIdentity, h⟩ := bind_eq_ok.mp h
  obtain ⟨selection, -, h⟩ := bind_eq_ok.mp h
  obtain ⟨execution, -, h⟩ := bind_eq_ok.mp h
  rw [construct_eq_ok_iff.mp h]
  refine ⟨rfl, rfl, ?_⟩
  rw [construct_eq_ok_iff.mp hIdentity]
  exact ⟨rfl, rfl, rfl⟩

theorem taskIds_nodup (stored : StoredRun) : stored.run.taskIds.Nodup := by
  have hChecked := stored.result.property
  unfold RunResultFields.check at hChecked
  obtain ⟨-, h⟩ := seq_eq_ok.mp hChecked
  obtain ⟨-, h⟩ := seq_eq_ok.mp h
  obtain ⟨-, h⟩ := seq_eq_ok.mp h
  obtain ⟨-, h⟩ := seq_eq_ok.mp h
  obtain ⟨hTasks, -⟩ := seq_eq_ok.mp h
  rw [stored.result_fields.2.1] at hTasks
  have hUnique := (seq_eq_ok.mp (forM_eq_ok.mp hTasks stored.checks (by simp))).2
  rw [← NextRun.records_taskIds stored.recorded]
  exact requireUniqueIdentifiers_eq_ok_iff.mp hUnique

end StoredRun

/-! ## Who a stored finding names -/

section Owner

variable {sha256 : Sha256} {taskComponents : Dict Text Text} {scheduled : Scheduled}

theorem attributeFinding_owner {planned : PlannedCheck} {component taskId : Text} {item finding : Finding}
    (hComponent : component ≠ [])
    (h : attributeFinding sha256 planned (some component) taskId item = .ok finding) :
    finding.val.taskId = some taskId ∧ finding.val.componentId = some component := by
  have hOwner : textOr (some component) item.val.componentId = some component := if_neg hComponent
  unfold attributeFinding at h
  simp only [hOwner, reduceCtorEq, false_and, if_false] at h
  obtain ⟨attributed, hAttributed, h⟩ := bind_eq_ok.mp h
  obtain ⟨fingerprint, -, h⟩ := bind_eq_ok.mp h
  rw [construct_eq_ok_iff.mp h]
  dsimp only
  rw [construct_eq_ok_iff.mp hAttributed]
  exact ⟨rfl, rfl⟩

theorem attributedObservation_owner {planned : PlannedCheck} {component : Text} {observation : Observation}
    {finding : Finding} (hComponent : taskComponents.get? planned.taskId = some component)
    (hNe : component ≠ [])
    (h : attributedObservation sha256 taskComponents scheduled planned = .ok observation)
    (hMem : finding ∈ observation.val.findings) :
    finding.val.taskId = some planned.taskId ∧ finding.val.componentId = some component := by
  have hTask := attributedObservation_taskId h
  obtain ⟨raw, -, hAttribute⟩ := bind_eq_ok.mp h
  obtain ⟨findings, hFindings, hMake⟩ := bind_eq_ok.mp hAttribute
  rw [construct_eq_ok_iff.mp hMake] at hTask hMem
  obtain ⟨item, -, hItem⟩ := exists_of_mem_mapM hFindings hMem
  rw [hComponent] at hItem
  rw [← hTask]
  exact attributeFinding_owner hNe hItem

end Owner

theorem suppress_keeps (declared : List EffectiveSuppression) (finding : Finding) :
    (suppress declared finding).val.taskId = finding.val.taskId ∧
      (suppress declared finding).val.componentId = finding.val.componentId := by
  unfold suppress
  split
  · exact ⟨rfl, rfl⟩
  · exact ⟨rfl, rfl⟩

theorem planned_checks (run : NextRun) :
    run.planned.map Prod.snd = (run.byComponent.map (·.2.val)).flatten := by
  rw [NextRun.planned, map_flatMap, flatten_eq_flatMap, flatMap_map]
  simp only [List.map_map, Function.comp_def, map_id', id_eq]

theorem verified_observations {run : NextRun} {scope : Workspace} {verification : Verification}
    (h : run.verified scope = .ok verification) :
    ∃ scheduled, (run.planned.map Prod.snd).mapM (attributedObservation run.sha256 run.taskComponents
        scheduled) = .ok verification.observations ∧
      verification.findings = applySuppressions run.suppressions
        (unique (verification.observations.flatMap (·.val.findings))) := by
  obtain ⟨judged, hVerify, hCoverage⟩ := bind_eq_ok.mp h
  obtain ⟨graph, -, hRun⟩ := bind_eq_ok.mp hVerify
  obtain ⟨scheduled, -, hJudged⟩ := bind_eq_ok.mp hRun
  obtain ⟨observations, hObservations, hReasons⟩ := bind_eq_ok.mp hJudged
  obtain ⟨reasons, -, hRequired⟩ := bind_eq_ok.mp hReasons
  obtain ⟨required, -, hGate⟩ := bind_eq_ok.mp hRequired
  obtain ⟨gate, -, hJudge⟩ := bind_eq_ok.mp hGate
  cases hJudge
  rw [planned_checks]
  unfold judgeCoverage at hCoverage
  by_cases hGaps : coverageGapsOf run.model run.request scope run.compileGaps = []
  · rw [applyRequireFull, if_pos hGaps] at hCoverage
    cases hCoverage
    exact ⟨scheduled, hObservations, rfl⟩
  · obtain ⟨gate, -, rfl⟩ := (applyRequireFull_eq_ok_iff hGaps).mp hCoverage
    exact ⟨scheduled, hObservations, rfl⟩

namespace NextRun

variable {run : NextRun} (hUnique : run.taskIds.Nodup)

include hUnique

theorem eq_of_taskId {entry other : Component × PlannedCheck} (hEntry : entry ∈ run.planned)
    (hOther : other ∈ run.planned) (h : other.2.taskId = entry.2.taskId) : other = entry :=
  inj_on_of_nodup_map hUnique hOther hEntry h

theorem get?_taskComponents {entry : Component × PlannedCheck} (hEntry : entry ∈ run.planned) :
    run.taskComponents.get? entry.2.taskId = some entry.1.val.id := by
  apply Dict.get?_setAll_of_forall
  · intro pair hPair hKey
    obtain ⟨other, hOther, rfl⟩ := mem_map.mp hPair
    rw [eq_of_taskId hUnique hEntry hOther hKey]
  · exact ⟨_, mem_map_of_mem hEntry, rfl⟩

end NextRun

namespace StoredRun

variable {stored : StoredRun}

theorem observed_owner {observation : Observation} (h : observation ∈ stored.verification.observations) :
    ∃ entry ∈ stored.run.planned, observation.val.taskId = entry.2.taskId ∧
      ∀ finding ∈ observation.val.findings, finding.val.taskId = some entry.2.taskId ∧
        finding.val.componentId = some entry.1.val.id := by
  obtain ⟨scheduled, hObservations, -⟩ := verified_observations stored.verified
  obtain ⟨planned, hPlanned, hOwn⟩ := exists_of_mem_mapM hObservations h
  obtain ⟨entry, hEntry, rfl⟩ := mem_map.mp hPlanned
  refine ⟨entry, hEntry, attributedObservation_taskId hOwn, fun finding hFinding => ?_⟩
  exact attributedObservation_owner (NextRun.get?_taskComponents stored.taskIds_nodup hEntry)
    (IsIdentifier.isText entry.1.id_isIdentifier).1 hOwn hFinding

variable {record : CheckRecord} {entry : Component × PlannedCheck} {finding : Finding}

theorem recorded_fields (h : record ∈ stored.checks) :
    ∃ entry ∈ stored.run.planned, record.val.taskId = entry.2.taskId ∧
      record.val.componentId = entry.1.val.id := by
  obtain ⟨entry, hEntry, hRecord⟩ := exists_of_mem_mapM stored.recorded h
  obtain ⟨digest, -, hRecord⟩ := bind_eq_ok.mp hRecord
  rw [construct_eq_ok_iff.mp hRecord]
  exact ⟨entry, hEntry, rfl, rfl⟩

theorem exists_record (h : entry ∈ stored.run.planned) :
    ∃ record ∈ stored.checks, record.val.taskId = entry.2.taskId := by
  obtain ⟨record, hMem, hRecord⟩ := mem_mapM_of_mem stored.recorded h
  obtain ⟨digest, -, hRecord⟩ := bind_eq_ok.mp hRecord
  exact ⟨record, hMem, by rw [construct_eq_ok_iff.mp hRecord]; rfl⟩

theorem record_unique {other : CheckRecord} (hRecord : record ∈ stored.checks)
    (hOther : other ∈ stored.checks) (h : other.val.taskId = record.val.taskId) : other = record := by
  have hNodup := stored.taskIds_nodup
  rw [← NextRun.records_taskIds stored.recorded] at hNodup
  exact inj_on_of_nodup_map hNodup hOther hRecord h

theorem recordCompleted_iff
    (hEntry : entry ∈ stored.run.planned) (hTask : finding.val.taskId = some entry.2.taskId)
    (hComponent : finding.val.componentId = some entry.1.val.id) {checks : List CheckRecord} :
    recordCompleted stored.checks checks finding = true ↔
      CompletedAgain stored.checks checks entry.2.taskId := by
  obtain ⟨record, hRecord, hId⟩ := exists_record hEntry
  have hFound : (Dict.setAll [] (stored.checks.map fun item => (item.val.taskId, item)) :
      Dict Text CheckRecord).get? entry.2.taskId = some record := by
    apply Dict.get?_setAll_of_forall
    · intro pair hPair hKey
      obtain ⟨other, hOther, rfl⟩ := mem_map.mp hPair
      exact record_unique hRecord hOther (hKey.trans hId.symm)
    · exact ⟨_, mem_map_of_mem hRecord, hId⟩
  have hSame : record.val.componentId = entry.1.val.id := by
    obtain ⟨other, hOther, hOtherId, hOtherComponent⟩ := recorded_fields hRecord
    rw [hOtherComponent, NextRun.eq_of_taskId stored.taskIds_nodup hEntry hOther (hOtherId.symm.trans hId)]
  unfold recordCompleted
  simp only [hTask, hComponent, Option.bind_some, hFound, hSame, decide_true, Bool.true_and,
    decide_eq_true_eq]
  constructor
  · intro hKey
    exact ⟨record, hRecord, hId, hKey⟩
  · rintro ⟨other, hOther, hOtherId, hKey⟩
    rwa [record_unique hRecord hOther (hOtherId.trans hId.symm)] at hKey

theorem mem_findings (h : finding ∈ stored.verification.findings) :
    ∃ copy, IsFirst (·.val.fingerprint) (stored.verification.observations.flatMap (·.val.findings)) copy ∧
      finding.val.fingerprint = copy.val.fingerprint ∧ finding.val.taskId = copy.val.taskId ∧
        finding.val.componentId = copy.val.componentId := by
  obtain ⟨scheduled, -, hFindings⟩ := verified_observations stored.verified
  rw [hFindings] at h
  obtain ⟨copy, hCopy, rfl⟩ := mem_map.mp h
  obtain ⟨hTask, hComponent⟩ := suppress_keeps stored.run.suppressions copy
  exact ⟨copy, (mem_keepFirst_iff.mp hCopy).2, suppress_fingerprint _ _, hTask, hComponent⟩

theorem exists_finding {fingerprint : Text} (h : ∃ taskId, Reports stored.verification taskId fingerprint) :
    ∃ finding ∈ stored.verification.findings, finding.val.fingerprint = fingerprint := by
  obtain ⟨taskId, observation, hObservation, -, hContains⟩ := h
  obtain ⟨finding, hFinding, rfl⟩ := mem_map.mp (of_decide_eq_true hContains)
  obtain ⟨scheduled, -, hFindings⟩ := verified_observations stored.verified
  have hAll : finding ∈ stored.verification.observations.flatMap (·.val.findings) :=
    mem_flatMap.mpr ⟨observation, hObservation, hFinding⟩
  obtain ⟨first, hFirst, hKey⟩ : ∃ first, IsFirst (·.val.fingerprint)
      (stored.verification.observations.flatMap (·.val.findings)) first ∧
        first.val.fingerprint = finding.val.fingerprint := exists_isFirst hAll
  refine ⟨suppress stored.run.suppressions first, ?_, (suppress_fingerprint _ _).trans hKey⟩
  rw [hFindings]
  exact mem_map_of_mem (mem_keepFirst_iff.mpr ⟨not_mem_nil, hFirst⟩)

end StoredRun

theorem find?_contains {observations : List Observation} {copy : Finding}
    (h : IsFirst (·.val.fingerprint) (observations.flatMap (·.val.findings)) copy) :
    ∃ observation, observations.find? (contains · copy.val.fingerprint) = some observation ∧
      copy ∈ observation.val.findings := by
  unfold IsFirst at h
  rw [find?_flatMap] at h
  induction observations with
  | nil => exact nomatch h
  | cons observation rest ih =>
    rw [findSome?_cons] at h
    cases hFind : observation.val.findings.find? (·.val.fingerprint = copy.val.fingerprint) with
    | some found =>
      rw [hFind] at h
      cases h
      have hMem := mem_of_find?_eq_some hFind
      exact ⟨observation, find?_cons_of_pos (decide_eq_true (mem_map_of_mem hMem)), hMem⟩
    | none =>
      rw [hFind] at h
      obtain ⟨first, hFirst, hMem⟩ := ih h
      refine ⟨first, ?_, hMem⟩
      rw [find?_cons_of_neg, hFirst]
      intro hContains
      obtain ⟨other, hOther, hSame⟩ := mem_map.mp (of_decide_eq_true hContains)
      exact find?_eq_none.mp hFind other hOther (decide_eq_true hSame)

namespace StoredRun

variable {before after : StoredRun} {path : Text} {delta : BaselineComparison}

theorem compareWith_resolved (h : after.compareWith before path = .ok delta)
    (hState : delta.val.state = .comparable) (fingerprint : Text) :
    fingerprint ∈ delta.val.resolved ↔ fingerprint ∉ fingerprints after.verification.findings ∧
      ∃ taskId, FirstReporter before.verification taskId fingerprint ∧
        CompletedAgain before.checks after.checks taskId := by
  obtain ⟨oldChecks, newChecks, hOld, hNew, hFields⟩ := compare_comparable h hState
  have hOldChecks : some before.checks = some oldChecks := before.result_fields.2.1.symm.trans hOld
  have hNewChecks : some after.checks = some newChecks := after.result_fields.2.1.symm.trans hNew
  cases hOldChecks
  cases hNewChecks
  have hStored : (before.documentAt path).findings = before.verification.findings := before.result_fields.1
  rw [hFields, deltaOf, mem_sortedSet, after.result_fields.1, hStored]
  unfold resolvedFingerprints
  constructor
  · intro hItem
    obtain ⟨finding, hFinding, rfl⟩ := mem_map.mp hItem
    obtain ⟨hMem, hGone⟩ := mem_filter.mp hFinding
    rw [Bool.and_eq_true, decide_eq_true_eq] at hGone
    obtain ⟨copy, hCopy, hSame, hTask, hComponent⟩ := mem_findings hMem
    obtain ⟨observation, hFind, hIn⟩ := find?_contains hCopy
    obtain ⟨entry, hEntry, hId, hOwner⟩ := observed_owner (mem_of_find?_eq_some hFind)
    obtain ⟨hCopyTask, hCopyComponent⟩ := hOwner copy hIn
    refine ⟨hGone.1, entry.2.taskId, ⟨observation, hSame ▸ hFind, hId⟩, ?_⟩
    exact (recordCompleted_iff hEntry (hTask.trans hCopyTask) (hComponent.trans hCopyComponent)).mp hGone.2
  · rintro ⟨hGone, taskId, ⟨observation, hFind, rfl⟩, hAgain⟩
    have hContains : contains observation fingerprint = true := by simpa using find?_some hFind
    obtain ⟨finding, hMem, rfl⟩ :=
      exists_finding ⟨_, observation, mem_of_find?_eq_some hFind, rfl, hContains⟩
    obtain ⟨copy, hCopy, hSame, hTask, hComponent⟩ := mem_findings hMem
    obtain ⟨first, hFirst, hIn⟩ := find?_contains hCopy
    rw [← hSame, hFind] at hFirst
    cases hFirst
    obtain ⟨entry, hEntry, hId, hOwner⟩ := observed_owner (mem_of_find?_eq_some hFind)
    obtain ⟨hCopyTask, hCopyComponent⟩ := hOwner copy hIn
    refine mem_map_of_mem (mem_filter.mpr ⟨hMem, ?_⟩)
    rw [Bool.and_eq_true, decide_eq_true_eq]
    rw [hId] at hAgain
    exact ⟨hGone, (recordCompleted_iff hEntry (hTask.trans hCopyTask)
      (hComponent.trans hCopyComponent)).mpr hAgain⟩

theorem isText_fingerprints (findings : List Finding) : ∀ item ∈ fingerprints findings, IsText item := by
  intro item hItem
  obtain ⟨finding, -, rfl⟩ := mem_map.mp hItem
  exact (FindingFields.check_eq_ok_iff.mp finding.property).1

theorem check_deltaOf (origin : Text) (current previous : List Finding)
    (oldChecks checks : List CheckRecord) :
    (deltaOf origin current previous oldChecks checks).check = .ok () := by
  have hCurrent := isText_fingerprints current
  have hPrevious := isText_fingerprints previous
  have hResolved : ∀ item ∈ resolvedFingerprints current previous oldChecks checks, IsText item :=
    isText_fingerprints _
  unfold check
  rw [seq_eq_ok, refuseIf_eq_ok_iff]
  refine ⟨?_, fun h => nomatch h.1⟩
  simp only [deltaOf, forM_eq_ok, requireText_eq_ok_iff, forall_mem_cons, not_mem_nil,
    false_imp_iff, implies_true, and_true, mem_sortedSet]
  refine ⟨fun item hItem => ?_, fun item hItem => ?_, hResolved, fun item hItem => ?_⟩
  · exact hCurrent item (mem_filter.mp hItem).1
  · exact hCurrent item (mem_filter.mp hItem).1
  · exact hPrevious item (mem_filter.mp hItem).1

theorem exists_compareWith (before after : StoredRun) (path : Text)
    (hPolicy : before.run.policyDigest = after.run.policyDigest)
    (hToolchain : before.run.toolchainDigest = after.run.toolchainDigest) :
    ∃ delta, after.compareWith before path = .ok delta ∧ delta.val.state = .comparable := by
  obtain ⟨-, hNew, -, hNewPolicy, hNewToolchain⟩ := after.result_fields
  obtain ⟨-, hOld, hVersion, hOldPolicy, hOldToolchain⟩ := before.result_fields
  unfold compareWith
  rw [hNew, compare_of_same hVersion (hOldPolicy.trans (hPolicy.trans hNewPolicy.symm))
    (hOldToolchain.trans (hToolchain.trans hNewToolchain.symm)) hOld]
  exact ⟨⟨_, check_deltaOf _ _ _ _ _⟩, construct_eq_ok (check_deltaOf _ _ _ _ _), rfl⟩

end StoredRun

structure IsHonest (before after : StoredRun) (delta : BaselineComparisonFields) : Prop where
  isDelta : IsDelta (fingerprints before.verification.findings) (fingerprints after.verification.findings)
    delta
  resolved : ∀ fingerprint ∈ delta.resolved, ∀ taskId, Reports before.verification taskId fingerprint →
    CompletedAgain before.checks after.checks taskId

/-- Where a fingerprint is gone and the first check that had reported it completed again, so did the others
that had reported it. -/
def ReportersFollow (before after : StoredRun) : Prop :=
  ∀ fingerprint first, fingerprint ∉ fingerprints after.verification.findings →
    FirstReporter before.verification first fingerprint → CompletedAgain before.checks after.checks first →
    ∀ other, Reports before.verification other fingerprint → CompletedAgain before.checks after.checks other

theorem compare_honest_iff (before after : StoredRun) (path : Text) (delta : BaselineComparison)
    (h : after.compareWith before path = .ok delta) (hState : delta.val.state = .comparable) :
    IsHonest before after delta.val ↔ ReportersFollow before after := by
  obtain ⟨oldChecks, newChecks, -, -, hFields⟩ := compare_comparable h hState
  have hDelta := isDelta_deltaOf (before.documentAt path).path after.result.val.findings
    (before.documentAt path).findings oldChecks newChecks
  have hStored : (before.documentAt path).findings = before.verification.findings := before.result_fields.1
  rw [← hFields, after.result_fields.1, hStored] at hDelta
  constructor
  · intro hHonest fingerprint first hGone hFirst hAgain
    exact hHonest.resolved fingerprint ((StoredRun.compareWith_resolved h hState fingerprint).mpr
      ⟨hGone, first, hFirst, hAgain⟩)
  · intro hFollow
    refine ⟨hDelta, fun fingerprint hResolved => ?_⟩
    obtain ⟨hGone, first, hFirst, hAgain⟩ :=
      (StoredRun.compareWith_resolved h hState fingerprint).mp hResolved
    exact hFollow fingerprint first hGone hFirst hAgain

/-! ## A finding of two checks, one of which runs again -/

def unusedFinding : Finding :=
  ⟨{ fingerprint := py "sha256:unused"
     ruleId := py "python.unused"
     message := py "never read"
     severity := py "medium"
     confidence := py "high"
     primaryLocation := lapsedFinding.val.primaryLocation
     provider := py "ici"
     evidence := .measured }, by decide⟩

def lookCheck (id : Text) (hId : id ≠ []) : PlannedCheck where
  check := { id, language := py "python", tool := none, id_ne_nil := hId }
  taskId := py "app." ++ id
  taskId_ne_nil := by simp [hId]
  not_both := PlannedCheck.untasked
  taskId_agrees := by simp

def deadCheck : PlannedCheck := lookCheck (py "python.dead") pythonDeadCheck.id_ne_nil

def hygieneCheck : PlannedCheck := lookCheck (py "python.hygiene") (by decide)

def lookRun (checks : Plan) (findings : List Finding)
    (h : ObservationFields.check { taskId := py "app", provider := py "ici", state := .succeeded, findings } =
      .ok ()) : NextRun :=
  { countRun none with
    world := { perform := fun _ => .ok ⟨_, h⟩ }
    byComponent := [(countComponent, checks)] }

def bothRun : NextRun := lookRun ⟨[deadCheck, hygieneCheck], by decide⟩ [unusedFinding] (by decide)

def deadRun : NextRun := lookRun ⟨[deadCheck], by decide⟩ [] (by decide)

def clearedRun : NextRun := lookRun ⟨[deadCheck, hygieneCheck], by decide⟩ [] (by decide)

def isStored (run : NextRun) (test : Verification → List CheckRecord → Bool) : Bool :=
  match run.verified run.model with
  | .error _ => false
  | .ok verification =>
    match run.records run.model verification with
    | .error _ => false
    | .ok checks =>
      (assemble verification (run.report run.model verification checks none)).isOk && test verification checks

theorem exists_stored {run : NextRun} {test : Verification → List CheckRecord → Bool}
    (h : isStored run test = true) :
    ∃ stored : StoredRun, stored.run = run ∧ test stored.verification stored.checks = true := by
  unfold isStored at h
  split at h
  · exact nomatch h
  rename_i verification hVerified
  split at h
  · exact nomatch h
  rename_i checks hRecorded
  rw [Bool.and_eq_true] at h
  cases hAssembled : assemble verification (run.report run.model verification checks none) with
  | ok result =>
    exact ⟨⟨run, run.model, verification, checks, none, result, hVerified, hRecorded, hAssembled⟩, rfl, h.2⟩
  | error e =>
    rw [hAssembled] at h
    exact nomatch h.1

theorem exists_half_run : ∃ before after : StoredRun, before.run = bothRun ∧ after.run = deadRun ∧
    zeroDigest ∉ fingerprints after.verification.findings ∧
      FirstReporter before.verification deadCheck.taskId zeroDigest ∧
      CompletedAgain before.checks after.checks deadCheck.taskId ∧
      Reports before.verification hygieneCheck.taskId zeroDigest ∧
      ¬CompletedAgain before.checks after.checks hygieneCheck.taskId := by
  obtain ⟨before, hBefore, hTest⟩ := exists_stored (show isStored bothRun (fun verification checks =>
    isStored deadRun fun verification' checks' => decide (
      zeroDigest ∉ fingerprints verification'.findings ∧
        FirstReporter verification deadCheck.taskId zeroDigest ∧
        CompletedAgain checks checks' deadCheck.taskId ∧
        Reports verification hygieneCheck.taskId zeroDigest ∧
        ¬CompletedAgain checks checks' hygieneCheck.taskId)) = true by decide +kernel)
  obtain ⟨after, hAfter, hTest⟩ := exists_stored hTest
  exact ⟨before, after, hBefore, hAfter, of_decide_eq_true hTest⟩

theorem half_run_resolves : ¬∀ (before after : StoredRun) (path : Text) (delta : BaselineComparison),
        after.compareWith before path = .ok delta → delta.val.state = .comparable →
        IsHonest before after delta.val := by
  intro hClaim
  obtain ⟨before, after, hBefore, hAfter, hGone, hFirst, hAgain, hOther, hNot⟩ := exists_half_run
  obtain ⟨delta, hDelta, hState⟩ := StoredRun.exists_compareWith before after (py "old.json")
    (by rw [hBefore, hAfter]; rfl) (by rw [hBefore, hAfter]; rfl)
  have hResolved := (StoredRun.compareWith_resolved hDelta hState zeroDigest).mpr ⟨hGone, _, hFirst, hAgain⟩
  exact hNot ((hClaim before after _ delta hDelta hState).resolved zeroDigest hResolved _ hOther)

/-- Both checks run again. -/
theorem compare_honest_cleared : ∃ before after path delta, after.compareWith before path = .ok delta ∧
    delta.val.state = .comparable ∧ zeroDigest ∈ delta.val.resolved ∧ IsHonest before after delta.val := by
  obtain ⟨before, hBefore, hTest⟩ := exists_stored (show isStored bothRun (fun verification checks =>
    isStored clearedRun fun verification' checks' => decide (
      zeroDigest ∉ fingerprints verification'.findings ∧
        FirstReporter verification deadCheck.taskId zeroDigest ∧
        CompletedAgain checks checks' deadCheck.taskId ∧
        ∀ observation ∈ verification.observations, CompletedAgain checks checks' observation.val.taskId)) =
          true by decide +kernel)
  obtain ⟨after, hAfter, hTest⟩ := exists_stored hTest
  obtain ⟨hGone, hFirst, hAgain, hAll⟩ := of_decide_eq_true hTest
  obtain ⟨delta, hDelta, hState⟩ := StoredRun.exists_compareWith before after (py "old.json")
    (by rw [hBefore, hAfter]; rfl) (by rw [hBefore, hAfter]; rfl)
  refine ⟨before, after, _, delta, hDelta, hState, ?_, ?_⟩
  · exact (StoredRun.compareWith_resolved hDelta hState zeroDigest).mpr ⟨hGone, _, hFirst, hAgain⟩
  · refine (compare_honest_iff before after _ delta hDelta hState).mpr ?_
    rintro fingerprint first - - - other ⟨observation, hObservation, rfl, -⟩
    exact hAll observation hObservation

/-! ## Reading a baseline -/

section Reading

variable (path : Text)

def baselineError (text : Text) : PyError := ⟨py "BaselineError", py "baseline " ++ path ++ text⟩

/-- `except …: raise BaselineError(…)`. -/
def orBaselineError {α : Type} (caught : PyError → Bool) (text : Text) : Result α → Result α
  | .ok a => .ok a
  | .error e => .error (if caught e then baselineError path (text ++ e.text) else e)

/-- An object with a fingerprint that is not falsy. -/
def isNamed : Json → Bool
  | .obj item => truth (getValue item (py "fingerprint"))
  | _ => false

/-- `load_baseline`, on the bytes of the file or the `OSError` of reading it. -/
def loadBaseline (nesting : Nesting) (file : Result (List UInt8)) : Result BaselineDocument := do
  let content ← orBaselineError path (fun _ => true) (py " cannot be read: ") file
  let raw ← decodeUtf8 content  -- its error is no `OSError`
  let payload ← orBaselineError path isValueError (py " is not JSON: ")
    (Json.loads nesting.limit (universalNewlines raw))
  let data ← orBaselineError path isValueError (py " is not a result: ")
    (requireMapping payload (py "baseline document"))
  if equalsText (getValue data (py "schema_id")) (py "ici.next.run") then
    match getValue data (py "identity"), getOr data (py "findings") (.arr []) with
    | .obj _, .arr findings =>
      match findings.findIdx? (!isNamed ·) with
      | some index =>
        .error (baselineError path (py " finding #" ++ natDigits index ++ py " has no fingerprint"))
      | none =>
        (orBaselineError path (fun e => isValueError e || e.name = py "TypeError")
          (py " is not a valid result: ") (runResultFromDict builtin payload)).map (.ofResult path)
    | .obj _, _ => .error (baselineError path (py " findings must be a JSON array"))
    | _, _ => .error (baselineError path (py " carries no identity — cannot verify what it measured"))
  else do
    let shown ← reprValue (getValue data (py "schema_id"))
    .error (baselineError path (py " is a " ++ shown ++
      py " document — a baseline must be a stored ici.next.run result"))

variable {path} {nesting : Nesting} {content : List UInt8} {document : BaselineDocument}

theorem orBaselineError_eq_ok_iff {α : Type} {caught : PyError → Bool} {text : Text} {x : Result α} {a : α} :
    orBaselineError path caught text x = .ok a ↔ x = .ok a := by
  cases x <;> simp [orBaselineError]

theorem requireMapping_eq_ok_iff {value : Json} {description : Text} {fields : Dict Text Json} :
    requireMapping value description = .ok fields ↔ value = .obj fields := by
  cases value <;> simp [requireMapping]

theorem isNamed_of_findingFromDict {item : Json} {finding : Finding}
    (h : findingFromDict builtin item = .ok finding) : isNamed item = true := by
  obtain ⟨data, hData, h⟩ := bind_eq_ok.mp h
  iterate 7 obtain ⟨_, -, h⟩ := bind_eq_ok.mp h
  obtain ⟨_, hFingerprint, -⟩ := bind_eq_ok.mp h
  obtain rfl := requireMapping_eq_ok_iff.mp hData
  unfold textValue at hFingerprint
  split at hFingerprint
  · rename_i hValue
    obtain ⟨_, hText, -⟩ := map_eq_ok.mp hFingerprint
    rw [isNamed, hValue]
    exact decide_eq_true (requireText_eq_ok_iff.mp hText).1
  · cases hFingerprint

variable {data : Dict Text Json} {result : RunResult}

/-- What the decoder accepts passes the checks made before it, but that it takes anything with items
for the findings. -/
theorem decoded_shape (h : runResultFromDict builtin (.obj data) = .ok result) :
    equalsText (getValue data (py "schema_id")) (py "ici.next.run") = true ∧
      (∃ identity, getValue data (py "identity") = .obj identity) ∧
        ∃ items, tupleField builtin data (py "findings") = .ok items ∧ ∀ item ∈ items, isNamed item = true := by
  obtain ⟨_, hData, h⟩ := bind_eq_ok.mp h
  obtain rfl := Except.ok.inj hData
  obtain ⟨_, hEnvelope, h⟩ := bind_eq_ok.mp h
  have hSchema : equalsText (getValue data (py "schema_id")) (py "ici.next.run") = true := by
    unfold checkEnvelope at hEnvelope
    split at hEnvelope
    · rename_i hFound
      rw [hFound]
      by_contra hNot
      rw [if_neg fun hEq => hNot (decide_eq_true hEq)] at hEnvelope
      cases hEnvelope
    · obtain ⟨_, -, hError⟩ := bind_eq_ok.mp hEnvelope
      cases hError
  dsimp only at h
  iterate 2
    split at h
    · cases h
  iterate 2 obtain ⟨_, -, h⟩ := bind_eq_ok.mp h
  unfold invalidResult at h
  split at h
  · rename_i hValues
    obtain ⟨_, -, hValues⟩ := bind_eq_ok.mp hValues
    obtain ⟨_, hIdentity, hValues⟩ := bind_eq_ok.mp hValues
    iterate 3 obtain ⟨_, -, hValues⟩ := bind_eq_ok.mp hValues
    obtain ⟨items, hItems, hValues⟩ := bind_eq_ok.mp hValues
    obtain ⟨findings, hFindings, -⟩ := bind_eq_ok.mp hValues
    obtain ⟨_, hMapping, -⟩ := bind_eq_ok.mp hIdentity
    refine ⟨hSchema, ⟨_, requireMapping_eq_ok_iff.mp hMapping⟩, items, hItems, fun item hItem => ?_⟩
    obtain ⟨finding, -, hFinding⟩ := mem_mapM_of_mem hFindings hItem
    exact isNamed_of_findingFromDict hFinding
  · split_ifs at h

theorem loadBaseline_of_decoded {items : List Json} (hDocument : entryDocument nesting content = .ok (.obj data))
    (hItems : getOr data (py "findings") (.arr []) = .arr items)
    (hResult : runResultFromDict builtin (.obj data) = .ok result) :
    loadBaseline path nesting (.ok content) = .ok (.ofResult path result) := by
  obtain ⟨hSchema, ⟨identity, hIdentity⟩, found, hFound, hNamed⟩ := decoded_shape hResult
  obtain ⟨raw, hRaw, hPayload⟩ := bind_eq_ok.mp hDocument
  rw [tupleField, hItems] at hFound
  obtain rfl := Except.ok.inj hFound
  have hNone : items.findIdx? (!isNamed ·) = none := by simpa using hNamed
  refine bind_eq_ok.mpr ⟨content, rfl, bind_eq_ok.mpr ⟨raw, hRaw, bind_eq_ok.mpr ⟨_,
    orBaselineError_eq_ok_iff.mpr hPayload, bind_eq_ok.mpr ⟨data, rfl, ?_⟩⟩⟩⟩
  rw [if_pos hSchema, hIdentity, hItems]
  dsimp only
  rw [hNone]
  exact map_eq_ok.mpr ⟨result, orBaselineError_eq_ok_iff.mpr hResult, rfl⟩

theorem loadBaseline_eq_ok_iff : loadBaseline path nesting (.ok content) = .ok document ↔
    ∃ data items result, entryDocument nesting content = .ok (.obj data) ∧
      getOr data (py "findings") (.arr []) = .arr items ∧
        runResultFromDict builtin (.obj data) = .ok result ∧ document = .ofResult path result := by
  constructor
  · intro h
    obtain ⟨_, hContent, h⟩ := bind_eq_ok.mp h
    obtain rfl := Except.ok.inj hContent
    obtain ⟨raw, hRaw, h⟩ := bind_eq_ok.mp h
    obtain ⟨payload, hPayload, h⟩ := bind_eq_ok.mp h
    obtain ⟨data, hData, h⟩ := bind_eq_ok.mp h
    rw [orBaselineError_eq_ok_iff] at hPayload hData
    obtain rfl := requireMapping_eq_ok_iff.mp hData
    split at h
    · split at h
      · split at h
        · cases h
        · rename_i items _ hItems _ _
          obtain ⟨result, hResult, rfl⟩ := map_eq_ok.mp h
          exact ⟨data, items, result, bind_eq_ok.mpr ⟨raw, hRaw, hPayload⟩, hItems,
            orBaselineError_eq_ok_iff.mp hResult, rfl⟩
      · cases h
      · cases h
    · obtain ⟨_, -, hError⟩ := bind_eq_ok.mp h
      cases hError
  · rintro ⟨data, items, result, hDocument, hItems, hResult, rfl⟩
    exact loadBaseline_of_decoded hDocument hItems hResult

/-- `target.write_text(dumps(run_result_to_dict(stored)), encoding="utf-8")`. -/
def saved (result : RunResult) : Result (List UInt8) := dumps (runResultToDict result) >>= utf8

section Saved

variable {text : Text} (hText : dumps (runResultToDict result) = .ok text)
include hText

theorem readsWithin_saved : ReadsWithin 5 (runResultToDict result) :=
  readsWithin_runResult fun measurement hMem =>
    (((printable_runResult_iff result).mp (exists_dumps_iff.mp ⟨text, hText⟩)).2 measurement hMem).1

theorem noReturn_saved : Manifests.NoReturn text := by
  have hAdmits : codecStyle.Admits (· ≠ 0xd) :=
    ⟨fun c hc => Manifests.noReturn_of_isPlain (t := [c]) (forall_mem_singleton.mpr hc) c (by simp),
      (by decide : Manifests.NoReturn (py ",")), (by decide : Manifests.NoReturn (py ":"))⟩
  refine (Json.forall_encode_iff hAdmits _ _ hText).mpr fun leaf _ => ?_
  cases leaf with
  | text value =>
    intro c hc
    obtain ⟨d, -, hd⟩ := mem_flatMap.mp hc
    exact Manifests.noReturn_escapeChar d c hd
  | _ => trivial

theorem loadBaseline_of_text (hContent : utf8 text = .ok content) :
    loadBaseline path nesting (.ok content) = .ok (.ofResult path result.stored) := by
  have hItems : getOr (canonical (runResultFields result)) (py "findings") (.arr []) =
      .arr ((result.val.findings.map findingToDict).map Json.canon) := by
    rw [getOr_canon (nodup_runResultFields result) _ rfl, ← Json.canonItems_eq_map]
    rfl
  have hDocument : entryDocument nesting content = .ok (.obj (canonical (runResultFields result))) := by
    refine bind_eq_ok.mpr ⟨text, decodeUtf8_encoded hContent, ?_⟩
    rw [universalNewlines_eq_self (noReturn_saved hText), ← Json.canon_obj]
    exact (readsWithin_saved hText).loads (le_trans (by decide) nesting.enough) hText
  refine loadBaseline_of_decoded hDocument hItems ?_
  rw [← Json.canon_obj]
  exact runResultFromDict_canon result

end Saved

theorem deltaOf_stored (origin : Text) (findings stored : List Finding) (oldChecks checks : List CheckRecord) :
    deltaOf origin findings (stored.map Finding.stored) oldChecks checks =
      deltaOf origin findings stored oldChecks checks := by
  have hResolved : resolvedFingerprints findings (stored.map Finding.stored) oldChecks checks =
      resolvedFingerprints findings stored oldChecks checks := by
    rw [resolvedFingerprints, filter_map, fingerprints, map_map]
    rfl
  have hPrevious : fingerprints (stored.map Finding.stored) = fingerprints stored := map_map
  rw [deltaOf, hResolved, hPrevious]
  rfl

theorem compare_stored (findings : List Finding) (path policyDigest toolchainDigest : Text)
    (checks : Option (List CheckRecord)) :
    compare findings (.ofResult path result.stored) policyDigest toolchainDigest checks =
      compare findings (.ofResult path result) policyDigest toolchainDigest checks := by
  simp only [compare, BaselineDocument.ofResult, RunResult.stored, RunResultFields.stored, deltaOf_stored]
  rfl

/-- A baseline that has been written and read again is the baseline the run itself was. -/
theorem compare_saved (before after : StoredRun) (nesting : Nesting) (path : Text) :
    (do
      let content ← saved before.result
      let document ← loadBaseline path nesting (.ok content)
      compare after.result.val.findings document after.result.val.identity.val.policyDigest
        after.result.val.identity.val.toolchainDigest after.result.val.checks) =
      saved before.result >>= fun _ => after.compareWith before path := by
  cases hSaved : saved before.result with
  | error e => rfl
  | ok content =>
    obtain ⟨text, hText, hContent⟩ := bind_eq_ok.mp hSaved
    change (loadBaseline path nesting (.ok content) >>= _) = after.compareWith before path
    rw [loadBaseline_of_text hText hContent]
    exact compare_stored _ _ _ _ _

/-- No truncation of a saved result is read as a baseline. One that ends inside a character is not
refused by name: its error is no `OSError`, and nothing catches it. -/
theorem loadBaseline_truncated (nesting : Nesting) (path : Text) {content part : List UInt8}
    (hSaved : saved result = .ok content) (hPart : part <+: content) (hNe : part ≠ content) :
    ∃ e, loadBaseline path nesting (.ok part) = .error e ∧
      (e.name = py "BaselineError" ↔ ∃ text, decodeUtf8 part = .ok text) := by
  obtain ⟨text, hText, hContent⟩ := bind_eq_ok.mp hSaved
  cases hRaw : decodeUtf8 part with
  | error e =>
    have hEscapes : loadBaseline path nesting (.ok part) = .error e := by
      change (decodeUtf8 part >>= _) = _
      rw [hRaw]
      rfl
    refine ⟨e, hEscapes, ?_⟩
    have hCaught : isValueError e = true := raises_decodeFrom .between part e hRaw
    constructor
    · intro hName
      rw [isValueError, hName] at hCaught
      exact absurd hCaught (by decide)
    · rintro ⟨_, hOk⟩
      cases hOk
  | ok raw =>
    have hCut : IsCut raw text := isCut_of_decodeUtf8 hContent hPart hNe hRaw
    have hReads := readsWithin_saved hText
    obtain ⟨e, hRefused, hMalformed⟩ := Json.refuses_loads_cut isLegible_codecStyle
      (hReads.depth_le.trans (le_trans (by decide) nesting.enough)) hReads.readable hText hCut
    have hCaught : isValueError e = true := by
      rcases hMalformed with hName | hName <;> rw [isValueError, hName] <;> decide
    refine ⟨baselineError path (py " is not JSON: " ++ e.text), ?_, iff_of_true rfl ⟨raw, rfl⟩⟩
    change (decodeUtf8 part >>= _) = _
    rw [hRaw]
    change (orBaselineError path isValueError _ (Json.loads nesting.limit (universalNewlines raw)) >>= _) = _
    rw [universalNewlines_eq_self fun c hc => noReturn_saved hText c (hCut.subset c hc), hRefused,
      orBaselineError, if_pos hCaught]
    rfl

theorem loadBaseline_truncated_lapsed : ∃ content, saved lapsedRun = .ok content ∧
    ∃ e, loadBaseline (py "old.json") ⟨16, le_refl 16⟩ (.ok (content.take 100)) = .error e ∧
      (e.name = py "BaselineError" ↔ ∃ text, decodeUtf8 (content.take 100) = .ok text) := by
  have hTest : (saved lapsedRun).toOption.any (fun content => content.take 100 ≠ content) = true := by
    decide +kernel
  cases hSaved : saved lapsedRun with
  | error e =>
    rw [hSaved] at hTest
    cases hTest
  | ok content =>
    rw [hSaved] at hTest
    have hPart := take_prefix 100 content
    exact ⟨content, rfl, loadBaseline_truncated _ _ hSaved hPart (of_decide_eq_true hTest)⟩

end Reading

end Ici.BaselineDelta
