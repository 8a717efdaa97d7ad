import Ici.Core.Entries

/-! # What a resolved entry says

A baseline finding is reported as resolved only on the word of an engine that looked, unless an
engine that failed had already reported a part of a group. -/

namespace Ici.Core

open List Python Matching

variable {unlooked : Dict Text Text} {suite : List EngineResult}
  {current baseline : List FindingRecord}

variable {record : FindingRecord} {p : Fate FindingRecord FindingRecord} {l m : List FindingRecord}

theorem mem_groupOf {key : GroupKey} {records : List FindingRecord} :
    record ∈ groupOf key records ↔ record ∈ records ∧ groupKey record = key := by
  simp [groupOf, mem_filter]

theorem mem_fates : p ∈ fates unlooked current baseline ↔ ∃ key ∈ groupKeys current baseline,
      IsCompared unlooked current key ∧ p ∈ pairGroup (groupOf key current) (groupOf key baseline) := by
  unfold fates
  simp only [mem_flatMap, mem_filter, decide_eq_true_iff, and_assoc]

theorem mem_of_mem_pairGroup_right (h : p ∈ pairGroup l m) (hRight : p.right = some record) : record ∈ m :=
  (compare_right_perm l m).subset (mem_filterMap.mpr ⟨p, h, hRight⟩)

theorem mem_of_mem_pairGroup_left (h : p ∈ pairGroup l m) (hLeft : p.left = some record) : record ∈ l :=
  (compare_left_perm l m).subset (mem_filterMap.mpr ⟨p, h, hLeft⟩)

theorem toDelta_state_eq_resolved : (toDelta p).state = .resolved ↔ ∃ record, p = .gone record := by
  cases p <;> simp [toDelta, pairedDelta, newDelta, resolvedDelta]

theorem exists_gone_pairGroup_iff :
    (∃ record, .gone record ∈ pairGroup l m) ↔ l.length < m.length := exists_gone_iff

theorem exists_resolved_iff {key : GroupKey} :
    (∃ record, groupKey record = key ∧ .gone record ∈ fates unlooked current baseline) ↔
      IsCompared unlooked current key ∧
        (groupOf key current).length < (groupOf key baseline).length := by
  constructor
  · rintro ⟨record, hKey, hGone⟩
    obtain ⟨key', -, hCompared, hMem⟩ := mem_fates.mp hGone
    have hKey' := (mem_groupOf.mp (mem_of_mem_pairGroup_right hMem rfl)).2
    obtain rfl : key' = key := hKey'.symm.trans hKey
    exact ⟨hCompared, exists_gone_pairGroup_iff.mp ⟨record, hMem⟩⟩
  · rintro ⟨hCompared, hFewer⟩
    obtain ⟨record, hGone⟩ := exists_gone_pairGroup_iff.mpr hFewer
    obtain ⟨hMem, hKey⟩ := mem_groupOf.mp (mem_of_mem_pairGroup_right hGone rfl)
    exact ⟨record, hKey, mem_fates.mpr
      ⟨key, mem_groupKeys.mpr ⟨record, mem_append_right _ hMem, hKey⟩, hCompared, hGone⟩⟩

theorem isCompared_iff_of_not_didLook {key : GroupKey} (hLook : ¬DidLook suite (ofLex key).1)
    (hBaseline : groupOf key baseline ≠ []) :
    IsCompared (enginesThatDidNotLook suite baseline) current key ↔ groupOf key current ≠ [] := by
  obtain ⟨record, hRecord⟩ := exists_mem_of_ne_nil _ hBaseline
  obtain ⟨hMem, hKey⟩ := mem_groupOf.mp hRecord
  have hName : (ofLex key).1 ∈ baseline.map FindingRecord.engineName := by
    rw [← hKey]
    exact mem_map_of_mem hMem
  have hUnlooked : ((enginesThatDidNotLook suite baseline).get? (ofLex key).1).isSome := by
    rw [get?_enginesThatDidNotLook, if_pos hName]
    exact verdictOn_isSome hLook
  unfold IsCompared
  rw [not_and]
  exact ⟨fun h => h hUnlooked, fun h _ => h⟩

theorem resolved_only_if_looked_iff (sha256 : List UInt8 → Text) (document : BaselineDocument)
    (metadata : AnalysisMetadata) (failOnNew : Bool) {coverageWarnings : List Text}
    (hCurrent : currentRecords sha256 suite document = .ok (current, coverageWarnings)) :
    ∃ comparison, compareSuiteToBaseline sha256 suite document metadata failOnNew = .ok comparison ∧
      ((∀ entry ∈ comparison.entries, entry.state = .resolved → DidLook suite entry.engineName) ↔
        ∀ key : GroupKey, ¬DidLook suite (ofLex key).1 → groupOf key current = [] ∨
          (groupOf key document.findings).length ≤ (groupOf key current).length) := by
  obtain ⟨comparison, hRun, hTells⟩ := compareCurrent_eq_ok suite current coverageWarnings document
    metadata failOnNew
  refine ⟨comparison, Raising.bind_eq_ok.mpr ⟨_, hCurrent, hRun⟩, ?_⟩
  have hEntries : (∀ entry ∈ comparison.entries, entry.state = .resolved →
      DidLook suite entry.engineName) ↔ ∀ record, .gone record ∈
        fates (enginesThatDidNotLook suite document.findings) current document.findings →
      DidLook suite record.engineName := by
    constructor
    · intro h record hGone
      exact h _ (hTells.entries.mem_iff.mpr (mem_map_of_mem hGone)) rfl
    · intro h entry hEntry hState
      obtain ⟨p, hp, rfl⟩ := mem_map.mp (hTells.entries.mem_iff.mp hEntry)
      obtain ⟨record, rfl⟩ := toDelta_state_eq_resolved.mp hState
      exact h record hp
  rw [hEntries]
  constructor
  · intro h key hLook
    by_contra hMore
    rw [not_or, not_le] at hMore
    have hBaseline : groupOf key document.findings ≠ [] :=
      ne_nil_of_length_pos (Nat.zero_lt_of_lt hMore.2)
    obtain ⟨record, rfl, hGone⟩ := exists_resolved_iff.mpr
      ⟨(isCompared_iff_of_not_didLook hLook hBaseline).mpr hMore.1, hMore.2⟩
    exact hLook (h record hGone)
  · intro h record hGone
    by_contra hLook
    obtain ⟨hCompared, hFewer⟩ := exists_resolved_iff.mp ⟨record, rfl, hGone⟩
    have hBaseline : groupOf (groupKey record) document.findings ≠ [] :=
      ne_nil_of_length_pos (Nat.zero_lt_of_lt hFewer)
    rcases h (groupKey record) hLook with hNone | hAll
    · exact (isCompared_iff_of_not_didLook hLook hBaseline).mp hCompared hNone
    · omega

def lintFinding (location : SourceLocation) (severity : FindingSeverity) (suppressed : Bool) : Finding where
  ruleId := py "ici.lint.e501"
  severity := severity
  fingerprint := py "sha256:e501"
  primaryLocation := location
  message := py "too long"
  suppressed := suppressed

def lintAt (severity : FindingSeverity) (suppressed : Bool) : Finding :=
  lintFinding ⟨{ path := py "a.py", startLine := 3 }, rfl⟩ severity suppressed

def lintSuite (status : EngineStatus) (findings : List Finding) : List EngineResult :=
  [{ engineName := py "lint", status, findings }]

def lintBaseline (findings : List Finding) : BaselineDocument where
  metadata := none
  findings := findings.map (recordFromFinding (py "lint"))

def lintMetadata : AnalysisMetadata := ⟨py "1", fingerprintVersion, py "sha256:p", py "sha256:t"⟩

/-- One of two occurrences was still reported before lint failed; the other is called resolved. -/
theorem resolved_by_failed_lint : ∃ comparison,
    compareSuiteToBaseline (fun _ => []) (lintSuite .error [lintAt .medium false])
      (lintBaseline [lintAt .medium false, lintAt .medium false]) lintMetadata true = .ok comparison ∧
      ∃ entry ∈ comparison.entries, entry.state = .resolved ∧
        ¬DidLook (lintSuite .error [lintAt .medium false]) entry.engineName := by
  refine ⟨_, rfl, ?_⟩
  decide +kernel

theorem resolved_only_if_looked_lint : ∃ comparison, compareSuiteToBaseline (fun _ => []) (lintSuite .pass [])
      (lintBaseline [lintAt .medium false]) lintMetadata true = .ok comparison ∧
      ((∀ entry ∈ comparison.entries, entry.state = .resolved →
          DidLook (lintSuite .pass []) entry.engineName) ↔
        ∀ key : GroupKey, ¬DidLook (lintSuite .pass []) (ofLex key).1 → groupOf key [] = [] ∨
          (groupOf key (lintBaseline [lintAt .medium false]).findings).length ≤
            (groupOf key []).length) :=
  resolved_only_if_looked_iff (fun _ => []) (lintBaseline [lintAt .medium false]) lintMetadata true
    (show currentRecords (fun _ => []) (lintSuite .pass []) (lintBaseline [lintAt .medium false]) =
      .ok ([], []) from rfl)

end Ici.Core

/-! ## Runs that only removed findings

When every current occurrence was in the baseline already, each place has at most as many as before
and they are paired there, the i-th with the i-th. -/

namespace Ici.Core

open List Python Matching

structure Visible where
  engineName : Text
  fingerprint : Text
  location : SourceLocation
  severity : FindingSeverity
  message : Text
  suppressed : Bool
deriving DecidableEq

def FindingRecord.visible (record : FindingRecord) : Visible where
  engineName := record.engineName
  fingerprint := record.fingerprint
  location := record.location
  severity := record.severity
  message := record.message
  suppressed := record.suppressed

def occurrencesAt (key : GroupKey) (place : LocationKey) (records : List FindingRecord) :
    List FindingRecord := placed RecordKey.place recordKey (groupOf key records) place

/-- How many occurrences at the place of `record` are less severe than it. -/
def lessSevere (record : FindingRecord) (records : List FindingRecord) : ℕ :=
  records.countP fun other => groupKey other = groupKey record ∧
    locationKey other.location = locationKey record.location ∧
    severityRank other.severity < severityRank record.severity

variable {current baseline : List FindingRecord} {key : GroupKey} {place : LocationKey}

theorem occurrencesAt_perm (key : GroupKey) (place : LocationKey) (records : List FindingRecord) :
    (occurrencesAt key place records).Perm (records.filter fun record =>
      groupKey record = key ∧ locationKey record.location = place) := by
  refine ((sorted_perm recordKey _).filter _).trans (Perm.of_eq ?_)
  unfold groupOf
  rw [filter_filter]
  refine filter_congr fun record _ => ?_
  rw [← Bool.decide_and]
  exact decide_eq_decide.mpr and_comm

theorem mem_occurrencesAt {record : FindingRecord} : record ∈ occurrencesAt key place current ↔
    record ∈ current ∧ groupKey record = key ∧ locationKey record.location = place := by
  rw [(occurrencesAt_perm key place current).mem_iff, mem_filter, decide_eq_true_iff]

theorem pairwise_occurrencesAt (key : GroupKey) (place : LocationKey) (records : List FindingRecord) :
    (occurrencesAt key place records).Pairwise fun a b =>
      severityRank a.severity ≤ severityRank b.severity := by
  have hSorted : (occurrencesAt key place records).Pairwise (recordKey · ≤ recordKey ·) :=
    (pairwise_sorted recordKey _).filter _
  refine hSorted.imp_of_mem fun {a b} ha hb hLe => ?_
  have hPlace : locationKey a.location = locationKey b.location :=
    (mem_occurrencesAt.mp ha).2.2.trans (mem_occurrencesAt.mp hb).2.2.symm
  rcases Prod.Lex.toLex_le_toLex.mp hLe with hLess | ⟨-, hRest⟩
  · exact absurd hPlace hLess.ne
  · rcases Prod.Lex.toLex_le_toLex.mp hRest with hRank | ⟨hRank, -⟩
    · exact hRank.le
    · exact hRank.le

theorem countP_occurrencesAt (record : FindingRecord) (records : List FindingRecord) :
    (occurrencesAt (groupKey record) (locationKey record.location) records).countP
      (fun other => severityRank other.severity < severityRank record.severity) =
      lessSevere record records := by
  rw [(occurrencesAt_perm _ _ records).countP_eq, countP_filter]
  refine countP_congr fun other _ => ?_
  rw [← Bool.decide_and]
  simp only [decide_eq_true_iff]
  tauto

theorem length_occurrencesAt (key : GroupKey) (place : LocationKey) (records : List FindingRecord) :
    (occurrencesAt key place records).length = (records.map FindingRecord.visible).countP
      fun seen => toLex (seen.engineName, seen.fingerprint) = key ∧ locationKey seen.location = place := by
  rw [(occurrencesAt_perm key place records).length_eq, ← countP_eq_length_filter, countP_map]
  rfl

section

variable (hRemoved : (current.map FindingRecord.visible).Subperm
  (baseline.map FindingRecord.visible))
include hRemoved

theorem length_occurrencesAt_le (key : GroupKey) (place : LocationKey) :
    (occurrencesAt key place current).length ≤ (occurrencesAt key place baseline).length := by
  rw [length_occurrencesAt, length_occurrencesAt]
  exact hRemoved.countP_le _

theorem pairGroup_shape {p : Fate FindingRecord FindingRecord}
    (h : p ∈ pairGroup (groupOf key current) (groupOf key baseline)) :
    (∃ now before, p = .same now before) ∨ ∃ before, p = .gone before := by
  have hLeft : (firstPass RecordKey.place recordKey recordKey (groupOf key current)
      (groupOf key baseline)).left = [] := left_eq_nil (length_occurrencesAt_le hRemoved key)
  cases p with
  | same now before => exact .inl ⟨now, before, rfl⟩
  | gone before => exact .inr ⟨before, rfl⟩
  | moved now before =>
    have hMem := (of_mem_moved h).1
    rw [hLeft] at hMem
    cases hMem
  | fresh now =>
    have hMem := mem_of_mem_drop (mem_compare_fresh.mp h)
    rw [hLeft] at hMem
    cases hMem

end

theorem same_mem_pairGroup_iff {now before : FindingRecord} :
    .same now before ∈ pairGroup (groupOf key current) (groupOf key baseline) ↔
      (now, before) ∈ (occurrencesAt key (locationKey now.location) current).zip
        (occurrencesAt key (locationKey now.location) baseline) :=
  mem_compare_same.trans mem_pairs_iff

theorem isRegressed_eq_false {now before : FindingRecord} : isRegressed now before = false ↔
    severityRank now.severity ≤ severityRank before.severity ∧
      (before.suppressed = true → now.suppressed = true) := by
  unfold isRegressed
  rw [Bool.or_eq_false_iff, decide_eq_false_iff_not, not_lt]
  cases before.suppressed <;> cases now.suppressed <;> simp

/-- Nothing that is gone was less severe than what stays at its place, and in the order of a place
no unsuppressed occurrence stands where a suppressed one stood. -/
structure StaysBelow (current baseline : List FindingRecord) : Prop where
  severity : ∀ record ∈ current, lessSevere record baseline ≤ lessSevere record current
  suppression : ∀ key place, ∀ pair ∈ (occurrencesAt key place current).zip
    (occurrencesAt key place baseline), pair.2.suppressed = true → pair.1.suppressed = true

theorem staysBelow_iff (hRemoved : (current.map FindingRecord.visible).Subperm
    (baseline.map FindingRecord.visible)) : StaysBelow current baseline ↔
      ∀ key place, ∀ pair ∈ (occurrencesAt key place current).zip (occurrencesAt key place baseline),
        isRegressed pair.1 pair.2 = false := by
  have hSeverity : (∀ record ∈ current, lessSevere record baseline ≤ lessSevere record current) ↔
      ∀ key place, ∀ pair ∈ (occurrencesAt key place current).zip (occurrencesAt key place baseline),
        severityRank pair.1.severity ≤ severityRank pair.2.severity := by
    have hPlace (key : GroupKey) (place : LocationKey) := forall_zip_le_iff
      (pairwise_occurrencesAt key place current) (pairwise_occurrencesAt key place baseline)
      (fun _ _ h => h) (fun _ _ h => h) (length_occurrencesAt_le hRemoved key place)
    simp only [hPlace]
    constructor
    · intro h key place record hRecord
      obtain ⟨hMem, rfl, rfl⟩ := mem_occurrencesAt.mp hRecord
      rw [countP_occurrencesAt, countP_occurrencesAt]
      exact h record hMem
    · intro h record hMem
      rw [← countP_occurrencesAt, ← countP_occurrencesAt]
      exact h _ _ record (mem_occurrencesAt.mpr ⟨hMem, rfl, rfl⟩)
  simp only [isRegressed_eq_false]
  constructor
  · intro h key place pair hPair
    exact ⟨hSeverity.mp h.severity key place pair hPair, h.suppression key place pair hPair⟩
  · intro h
    exact ⟨hSeverity.mpr fun key place pair hPair => (h key place pair hPair).1,
      fun key place pair hPair => (h key place pair hPair).2⟩

theorem calm_iff {unlooked : Dict Text Text} (hRemoved : (current.map FindingRecord.visible).Subperm
    (baseline.map FindingRecord.visible)) :
    (∀ entry ∈ (fates unlooked current baseline).map toDelta,
      entry.state ≠ .new ∧ entry.regressed = false ∧ entry.gated = false) ↔
      ∀ key place, ∀ pair ∈ (occurrencesAt key place current).zip (occurrencesAt key place baseline),
        isRegressed pair.1 pair.2 = false := by
  constructor
  · intro h key place ⟨now, before⟩ hPair
    obtain ⟨hMem, rfl, rfl⟩ := mem_occurrencesAt.mp (of_mem_zip hPair).1
    refine (h _ (mem_map_of_mem (mem_fates.mpr ⟨groupKey now, mem_groupKeys.mpr
      ⟨now, mem_append_left _ hMem, rfl⟩, isCompared_of_mem hMem,
      same_mem_pairGroup_iff.mpr hPair⟩))).2.1
  · intro h entry hEntry
    obtain ⟨p, hp, rfl⟩ := mem_map.mp hEntry
    obtain ⟨key, -, -, hMem⟩ := mem_fates.mp hp
    rcases pairGroup_shape hRemoved hMem with ⟨now, before, rfl⟩ | ⟨before, rfl⟩
    · have hCalm := h key _ _ (same_mem_pairGroup_iff.mp hMem)
      simp [toDelta, pairedDelta, hCalm]
    · simp [toDelta, resolvedDelta]

end Ici.Core
