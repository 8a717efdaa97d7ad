import Ici.Core.Baseline

/-! # The entries of a comparison

Group by group, every entry is the fate of the occurrences it speaks about. -/

namespace Ici.Core

open List Raising Python Matching Dict

def groupOf (key : GroupKey) (records : List FindingRecord) : List FindingRecord :=
  records.filter (groupKey · = key)

/-- A group is left out when nothing of it was found and its engine did not look. -/
def IsCompared (unlooked : Dict Text Text) (current : List FindingRecord) (key : GroupKey) : Prop :=
  ¬((unlooked.get? (ofLex key).1).isSome ∧ groupOf key current = [])

instance (unlooked : Dict Text Text) (current : List FindingRecord) (key : GroupKey) :
    Decidable (IsCompared unlooked current key) := inferInstanceAs (Decidable (¬_))

def groupKeys (current baseline : List FindingRecord) : List GroupKey :=
  (((groupBy groupKey current).keys ++
    (groupBy groupKey baseline).keys).dedup.insertionSort (· ≤ ·))

def fates (unlooked : Dict Text Text) (current baseline : List FindingRecord) :
    List (Fate FindingRecord FindingRecord) :=
  ((groupKeys current baseline).filter (IsCompared unlooked current)).flatMap fun key =>
    pairGroup (groupOf key current) (groupOf key baseline)

section

variable {unlooked : Dict Text Text} {current baseline : List FindingRecord}

variable {key : GroupKey} {records : List FindingRecord} {record : FindingRecord}

theorem mem_groupKeys :
    key ∈ groupKeys current baseline ↔ ∃ record, record ∈ current ++ baseline ∧ groupKey record = key := by
  unfold groupKeys
  rw [(perm_insertionSort _ _).mem_iff, mem_dedup, mem_append, mem_keys_groupBy, mem_keys_groupBy]
  constructor
  · rintro (⟨record, hMem, hKey⟩ | ⟨record, hMem, hKey⟩)
    · exact ⟨record, mem_append_left _ hMem, hKey⟩
    · exact ⟨record, mem_append_right _ hMem, hKey⟩
  · rintro ⟨record, hMem, hKey⟩
    exact (mem_append.mp hMem).imp (⟨record, ·, hKey⟩) (⟨record, ·, hKey⟩)

theorem nodup_groupKeys : (groupKeys current baseline).Nodup :=
  (perm_insertionSort _ _).nodup_iff.mpr (nodup_dedup _)

theorem groupOf_eq_nil (h : ∀ record ∈ records, groupKey record ≠ key) : groupOf key records = [] :=
  filter_eq_nil_iff.mpr fun record hMem => by simpa using h record hMem

theorem groupOf_perm {records' : List FindingRecord}
    (h : records'.Perm records) : (groupOf key records').Perm (groupOf key records) := h.filter _

theorem compareKey_eq (compared : Compared) (key : GroupKey) :
    (compareKey unlooked (groupBy groupKey current) (groupBy groupKey baseline) compared
      key).entries = compared.entries ++
      if IsCompared unlooked current key then
        compareGroup (groupOf key current) (groupOf key baseline) else [] := by
  have hCurrent : ((groupBy groupKey current).get? key).getD [] = groupOf key current :=
    getD_groupBy groupKey current key
  have hBaseline : ((groupBy groupKey baseline).get? key).getD [] = groupOf key baseline :=
    getD_groupBy groupKey baseline key
  unfold compareKey
  rw [hCurrent, hBaseline]
  by_cases hSkipped : (unlooked.get? (ofLex key).1).isSome ∧ groupOf key current = []
  · simp only [if_pos hSkipped, IsCompared, not_not.mpr hSkipped, if_false, append_nil]
  · simp only [IsCompared, hSkipped, not_false_eq_true, if_true, if_false]

theorem compareRecords_entries : (compareRecords unlooked current baseline).entries =
      (fates unlooked current baseline).map toDelta := by
  have hFold : ∀ (keys : List GroupKey) (compared : Compared),
      (keys.foldl (compareKey unlooked (groupBy groupKey current)
        (groupBy groupKey baseline)) compared).entries = compared.entries ++
        ((keys.filter (IsCompared unlooked current)).flatMap fun key =>
          pairGroup (groupOf key current) (groupOf key baseline)).map toDelta := by
    intro keys
    induction keys with
    | nil => intro compared; simp
    | cons key keys ih =>
      intro compared
      rw [foldl_cons, ih, compareKey_eq, append_assoc]
      congr 1
      by_cases hKey : IsCompared unlooked current key <;> simp [hKey, compareGroup]
  exact (hFold _ _).trans (nil_append _)

theorem flatMap_groupOf_perm {keys : List GroupKey} (hNodup : keys.Nodup)
    (records : List FindingRecord) : (keys.flatMap (groupOf · records)).Perm
      (records.filter (groupKey · ∈ keys)) := by
  induction keys with
  | nil => simp
  | cons key keys ih =>
    obtain ⟨hNotMem, hRest⟩ := nodup_cons.mp hNodup
    rw [flatMap_cons]
    refine ((ih hRest).append_left _).trans ?_
    have hRight : records.filter (groupKey · ∈ keys) =
        (records.filter (groupKey · ∈ key :: keys)).filter (! groupKey · = key) := by
      rw [filter_filter]
      refine filter_congr fun record _ => ?_
      by_cases hKey : groupKey record = key
      · simp [hKey, hNotMem]
      · simp [hKey]
    have hLeft : groupOf key records =
        (records.filter (groupKey · ∈ key :: keys)).filter (groupKey · = key) := by
      rw [filter_filter]
      refine filter_congr fun record _ => ?_
      by_cases hKey : groupKey record = key <;> simp [hKey]
    rw [hRight, hLeft]
    exact filter_append_perm _ _

theorem nodup_comparedKeys : ((groupKeys current baseline).filter (IsCompared unlooked current)).Nodup :=
  nodup_groupKeys.filter _

theorem mem_comparedKeys (h : record ∈ current ++ baseline) :
    groupKey record ∈ (groupKeys current baseline).filter (IsCompared unlooked current) ↔
      IsCompared unlooked current (groupKey record) := by
  rw [mem_filter, decide_eq_true_iff]
  exact and_iff_right (mem_groupKeys.mpr ⟨record, h, rfl⟩)

theorem isCompared_of_mem (h : record ∈ current) : IsCompared unlooked current (groupKey record) := by
  rintro ⟨-, hEmpty⟩
  have hMem : record ∈ groupOf (groupKey record) current := mem_filter.mpr ⟨h, by simp⟩
  rw [hEmpty] at hMem
  cases hMem

theorem fates_left_perm : ((fates unlooked current baseline).filterMap Fate.left).Perm current := by
  unfold fates
  rw [filterMap_flatMap]
  refine (Perm.flatMap_left _ fun key _ => compare_left_perm _ _).trans ?_
  refine (flatMap_groupOf_perm nodup_comparedKeys current).trans (Perm.of_eq ?_)
  refine filter_eq_self.mpr fun record hRecord => decide_eq_true ?_
  exact (mem_comparedKeys (mem_append_left _ hRecord)).mpr (isCompared_of_mem hRecord)

theorem fates_right_perm : ((fates unlooked current baseline).filterMap Fate.right).Perm
    (baseline.filter fun record => IsCompared unlooked current (groupKey record)) := by
  unfold fates
  rw [filterMap_flatMap]
  refine (Perm.flatMap_left _ fun key _ => compare_right_perm _ _).trans ?_
  refine (flatMap_groupOf_perm nodup_comparedKeys baseline).trans (Perm.of_eq ?_)
  refine filter_congr fun record hRecord => decide_eq_decide.mpr ?_
  exact mem_comparedKeys (mem_append_right _ hRecord)

end

section

variable (suite : List EngineResult)

def DidLook (name : Text) : Prop :=
  ∃ result ∈ suite, result.engineName = name ∧ result.status ∉ didNotLook

instance (suite : List EngineResult) (name : Text) : Decidable (DidLook suite name) :=
  inferInstanceAs (Decidable (∃ _ ∈ _, _))

theorem verdictOn_isSome {suite : List EngineResult} {name : Text} (h : ¬DidLook suite name) :
    (verdictOn suite name).isSome := by
  unfold verdictOn
  split
  · rfl
  · rename_i status hStatus
    rcases mem_of_mem_setAll (mem_of_get? hStatus) with hOld | hNew
    · cases hOld
    · obtain ⟨result, hResult, hEq⟩ := mem_map.mp hNew
      obtain ⟨hName, rfl⟩ := Prod.mk.inj hEq
      have hStatus : result.status ∈ didNotLook := by
        by_contra hLooked
        exact h ⟨result, hResult, hName, hLooked⟩
      rw [if_pos hStatus]
      rfl

theorem get?_addVerdict (verdicts : Dict Text Text)
    (record : FindingRecord) (name : Text) : (addVerdict suite verdicts record).get? name =
      (verdicts.get? name).or (if record.engineName = name then verdictOn suite name else none) := by
  unfold addVerdict
  split_ifs with hKnown hName hName
  · obtain ⟨verdict, hVerdict⟩ := Option.isSome_iff_exists.mp hKnown
    rw [← hName, hVerdict]
    rfl
  · rw [Option.or_none]
  · subst hName
    rw [Option.not_isSome_iff_eq_none.mp hKnown, Option.none_or]
    cases verdictOn suite record.engineName with
    | none => exact Option.not_isSome_iff_eq_none.mp hKnown
    | some verdict => exact get?_set_self _ _ _
  · rw [Option.or_none]
    cases verdictOn suite record.engineName with
    | none => rfl
    | some verdict => exact get?_set_of_ne hName _ _

theorem get?_enginesThatDidNotLook (baseline : List FindingRecord)
    (name : Text) : (enginesThatDidNotLook suite baseline).get? name =
      if name ∈ baseline.map FindingRecord.engineName then verdictOn suite name else none := by
  have hFold : ∀ verdicts : Dict Text Text, (baseline.foldl (addVerdict suite) verdicts).get? name =
      (verdicts.get? name).or
        (if name ∈ baseline.map FindingRecord.engineName then verdictOn suite name else none) := by
    induction baseline with
    | nil => exact fun verdicts => (Option.or_none).symm
    | cons record rest ih =>
      intro verdicts
      rw [foldl_cons, ih, get?_addVerdict, Option.or_assoc]
      congr 1
      by_cases hName : record.engineName = name
      · subst hName
        simp only [if_true, map_cons, mem_cons, true_or]
        split_ifs
        · exact Option.or_self
        · exact Option.or_none
      · simp only [if_neg hName, Option.none_or, map_cons, mem_cons, Ne.symm hName, false_or]
  exact hFold []

theorem exists_entryKey (p : Fate FindingRecord FindingRecord) : ∃ key, entryKey (toDelta p) = .ok key := by
  cases p <;> exact ⟨_, rfl⟩

theorem sortEntries_perm {entries sorted : List FindingDelta} (h : sortEntries entries = .ok sorted) :
    sorted.Perm entries := by
  obtain ⟨keyed, hKeyed, hSorted⟩ := bind_eq_ok.mp h
  cases hSorted
  refine ((perm_insertionSort _ keyed).map Prod.snd).trans (Perm.of_eq ?_)
  have hAll := mapM_eq_ok.mp hKeyed
  clear h hKeyed
  induction hAll with
  | nil => rfl
  | cons hHead _ ih =>
    obtain ⟨key, -, rfl⟩ := map_eq_ok.mp hHead
    rw [map_cons, ih]

theorem exists_sortEntries (l : List (Fate FindingRecord FindingRecord)) :
    ∃ sorted, sortEntries (l.map toDelta) = .ok sorted := by
  have hKeyed : ∃ keyed, (l.map toDelta).mapM (fun entry => (entryKey entry).map (·, entry)) = .ok keyed := by
    refine exists_mapM_eq_ok.mpr fun entry hEntry => ?_
    obtain ⟨p, -, rfl⟩ := mem_map.mp hEntry
    obtain ⟨key, hKey⟩ := exists_entryKey p
    exact ⟨_, map_eq_ok.mpr ⟨key, hKey, rfl⟩⟩
  obtain ⟨keyed, hKeyed⟩ := hKeyed
  exact ⟨_, bind_eq_ok.mpr ⟨keyed, hKeyed, rfl⟩⟩

theorem skipped_mem_unlooked (unlooked : Dict Text Text) (current baseline : List FindingRecord) :
    ∀ entry ∈ (compareRecords unlooked current baseline).skippedCounts,
      (unlooked.get? entry.1).isSome := by
  have hFold : ∀ (keys : List GroupKey) (compared : Compared),
      (∀ entry ∈ compared.skippedCounts, (unlooked.get? entry.1).isSome) →
      ∀ entry ∈ (keys.foldl (compareKey unlooked (groupBy groupKey current)
        (groupBy groupKey baseline)) compared).skippedCounts,
        (unlooked.get? entry.1).isSome := by
    intro keys
    induction keys with
    | nil => exact fun _ h => h
    | cons key keys ih =>
      intro compared hCompared
      refine ih _ fun entry hEntry => ?_
      dsimp only [compareKey] at hEntry
      split at hEntry
      · rename_i hSkipped
        rcases mem_of_mem_set hEntry with rfl | hOld
        · exact hSkipped.1
        · exact hCompared entry hOld
      · exact hCompared entry hEntry
  exact hFold _ _ (forall_mem_nil _)

theorem exists_skippedWarnings {unlooked : Dict Text Text} {skippedCounts : Dict Text ℕ}
    (h : ∀ entry ∈ skippedCounts, (unlooked.get? entry.1).isSome) :
    ∃ warnings, skippedWarnings unlooked skippedCounts = .ok warnings := by
  refine exists_mapM_eq_ok.mpr fun entry hEntry => ?_
  obtain ⟨verdict, hVerdict⟩ := Option.isSome_iff_exists.mp
    (h entry ((perm_insertionSort _ _).subset hEntry))
  simp only [hVerdict]
  exact ⟨_, rfl⟩

/-- What a comparison returns: one entry for each fate, and the gate over them. -/
structure TellsFates (suite : List EngineResult) (current : List FindingRecord)
    (document : BaselineDocument) (failOnNew : Bool) (comparison : BaselineComparison) : Prop where
  entries : comparison.entries.Perm
    ((fates (enginesThatDidNotLook suite document.findings) current document.findings).map toDelta)
  gateFailed : comparison.gateFailed = true ↔
    failOnNew = true ∧ ∃ entry ∈ comparison.entries, entry.gated = true

theorem compareCurrent_eq_ok (current : List FindingRecord)
    (coverageWarnings : List Text) (document : BaselineDocument)
    (currentMetadata : AnalysisMetadata) (failOnNew : Bool) :
    ∃ comparison, compareCurrent suite current coverageWarnings document currentMetadata failOnNew =
      .ok comparison ∧ TellsFates suite current document failOnNew comparison := by
  obtain ⟨sorted, hSorted⟩ := exists_sortEntries
    (fates (enginesThatDidNotLook suite document.findings) current document.findings)
  obtain ⟨warnings, hWarnings⟩ := exists_skippedWarnings (skipped_mem_unlooked
    (enginesThatDidNotLook suite document.findings) current document.findings)
  refine ⟨_, bind_eq_ok.mpr ⟨sorted, compareRecords_entries ▸ hSorted,
    bind_eq_ok.mpr ⟨warnings, hWarnings, rfl⟩⟩, sortEntries_perm hSorted, ?_⟩
  simp only [Bool.and_eq_true, decide_eq_true_iff, countP_pos_iff]

end

end Ici.Core
