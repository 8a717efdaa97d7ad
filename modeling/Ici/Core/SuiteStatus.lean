import Ici.Core.BaselineReading

/-! # The suite's status and the reason given for it

`aggregate_suite_status` and `gate_reason` are two cascades over the same results. Every result
contributes a level and the suite's level is the highest one. -/

namespace Ici.Core

open List Python

structure JudgedResult where
  engineName : Text
  status : EngineStatus
  required : Bool := true
  evidence : EvidenceState := .measured
deriving DecidableEq

open JudgedResult

namespace JudgedResult

variable (result : JudgedResult)

def applicable : Bool := result.evidence ≠ .notApplicable

def blocks : Bool :=
  result.required && result.applicable &&
    (result.status = .error || result.status = .skip || result.evidence = .notRun)

def fails : Bool := result.required && result.status = .fail

def colours : Bool :=
  result.applicable && (result.status = .warn ||
    !result.required && (result.status ≠ .pass || result.evidence ≠ .measured))

end JudgedResult

def aggregateSuiteStatus (results : List JudgedResult) : EngineStatus :=
  if results.isEmpty then .error
  else if results.any (·.blocks) then .error
  else if results.any (·.fails) then .fail
  else if results.any (·.colours) then .warn
  else .pass

/-! ## The texts of the reason -/

def didNotRunText (name : Text) : Text :=
  py "required engine '" ++ name ++ py "' did not run (evidence NOT_RUN)"

def reportedText (name : Text) (status : EngineStatus) : Text :=
  py "required engine '" ++ name ++ py "' reported " ++ status.value

def failedText (name : Text) : Text := py "required engine '" ++ name ++ py "' failed"

def baselineText (gated : ℕ) : Text :=
  py "baseline gate found " ++ natDigits gated ++ py " new or regressed actionable finding(s)"

def warnedText (names : List Text) : Text :=
  natDigits names.length ++ py " engine(s) warned: " ++ join (py ", ") (names.take 3) ++
    if names.length ≤ 3 then [] else py " (+" ++ natDigits (names.length - 3) ++ py " more)"

/-- What the first loop of `gate_reason` returns at a result, if it returns there. -/
def blockedReason (result : JudgedResult) : Option Text :=
  if !result.required || result.evidence = .notApplicable then none
  else if result.evidence = .notRun then some (didNotRunText result.engineName)
  else if result.status = .error || result.status = .skip then
    some (reportedText result.engineName result.status)
  else none

def baselineFailed (baseline : Option BaselineComparison) : Bool := baseline.any (·.gateFailed)

section

variable (results : List JudgedResult) (suiteStatus : EngineStatus) (baseline : Option BaselineComparison)

/-- The part of `gate_reason` after its loop. -/
def laterReason : Text :=
  match results.find? (·.fails) with
  | some failed => failedText failed.engineName
  | none =>
    match baseline.filter (·.gateFailed) with
    | some comparison => baselineText comparison.gatedCount
    | none =>
      -- Inapplicable evidence is not filtered here.
      let warned := results.filter (·.status = .warn)
      if warned ≠ [] then warnedText (warned.map (·.engineName))
      else if suiteStatus = .pass then py "all applicable engines passed"
      else py "see engine results"

def gateReason : Text :=
  (results.findSome? blockedReason).getD (laterReason results suiteStatus baseline)

end

/-! ## The suite's level -/

/-- The order of the suite's levels. `SKIP` is no level of a suite. -/
def EngineStatus.level : EngineStatus → ℕ
  | pass => 0
  | warn => 1
  | fail => 2
  | error => 3
  | skip => 3

def JudgedResult.level (result : JudgedResult) : ℕ :=
  if result.blocks then 3 else if result.fails then 2 else if result.colours then 1 else 0

def highestLevel (results : List JudgedResult) : ℕ := results.foldr (fun r => max r.level) 0

theorem le_highestLevel {result : JudgedResult} {results : List JudgedResult} (h : result ∈ results) :
    result.level ≤ highestLevel results := by
  induction results with
  | nil => cases h
  | cons first rest ih =>
    rcases mem_cons.mp h with rfl | hRest
    · exact le_max_left _ _
    · exact (ih hRest).trans (le_max_right _ _)

theorem highestLevel_le {bound : ℕ} {results : List JudgedResult}
    (h : ∀ result ∈ results, result.level ≤ bound) : highestLevel results ≤ bound := by
  induction results with
  | nil => exact Nat.zero_le _
  | cons first rest ih =>
    apply max_le
    · exact h first mem_cons_self
    · exact ih fun result hResult => h result (mem_cons_of_mem _ hResult)

variable {results other : List JudgedResult}

theorem highestLevel_perm (h : results.Perm other) : highestLevel results = highestLevel other := by
  apply le_antisymm
  · exact highestLevel_le fun result hResult => le_highestLevel (h.mem_iff.mp hResult)
  · exact highestLevel_le fun result hResult => le_highestLevel (h.mem_iff.mpr hResult)

theorem level_aggregateSuiteStatus {results : List JudgedResult} (hNonempty : results ≠ []) :
    (aggregateSuiteStatus results).level = highestLevel results := by
  have hMember {test : JudgedResult → Bool} (h : results.any test = true) :
      ∃ result ∈ results, test result = true := any_eq_true.mp h
  have hNone {test : JudgedResult → Bool} (h : ¬ results.any test = true) :
      ∀ result ∈ results, test result = false := by
    simpa using h
  obtain ⟨first, rest, rfl⟩ := exists_cons_of_ne_nil hNonempty
  rw [aggregateSuiteStatus, if_neg (by simp)]
  apply le_antisymm
  · split
    · obtain ⟨result, hResult, hBlocks⟩ := hMember ‹_›
      have hLevel : result.level = 3 := by simp [level, hBlocks]
      exact hLevel.ge.trans (le_highestLevel hResult)
    · split
      · obtain ⟨result, hResult, hFails⟩ := hMember ‹_›
        have hLevel : result.level = 2 := by simp [level, hNone ‹_› result hResult, hFails]
        exact hLevel.ge.trans (le_highestLevel hResult)
      · split
        · obtain ⟨result, hResult, hColours⟩ := hMember ‹_›
          have hLevel : 1 ≤ result.level := by
            simp only [level, hColours]
            split_ifs <;> omega
          exact hLevel.trans (le_highestLevel hResult)
        · exact Nat.zero_le _
  · apply highestLevel_le
    intro result hResult
    split
    · simp only [level, EngineStatus.level]
      split_ifs <;> omega
    · have hBlocks := hNone ‹_› result hResult
      split
      · simp only [level, EngineStatus.level, hBlocks]
        split_ifs <;> simp_all
      · have hFails := hNone ‹_› result hResult
        split
        · simp only [level, EngineStatus.level, hBlocks, hFails]
          split_ifs <;> simp_all
        · have hColours := hNone ‹_› result hResult
          simp [level, hBlocks, hFails, hColours]

theorem aggregateSuiteStatus_ne_skip (results : List JudgedResult) : aggregateSuiteStatus results ≠ .skip := by
  unfold aggregateSuiteStatus
  split_ifs <;> simp

theorem EngineStatus.level_injective {status other : EngineStatus} (hStatus : status ≠ .skip)
    (hOther : other ≠ .skip) (h : status.level = other.level) : status = other := by
  revert hStatus hOther h
  cases status <;> cases other <;> simp [EngineStatus.level]

theorem aggregateSuiteStatus_perm (hNonempty : results ≠ [])
    (h : results.Perm other) : aggregateSuiteStatus other = aggregateSuiteStatus results := by
  have hOther : other ≠ [] := fun hEmpty => hNonempty (perm_nil.mp (hEmpty ▸ h))
  apply EngineStatus.level_injective (aggregateSuiteStatus_ne_skip _) (aggregateSuiteStatus_ne_skip _)
  rw [level_aggregateSuiteStatus hOther, level_aggregateSuiteStatus hNonempty, highestLevel_perm h]

theorem level_le_of_added {added : JudgedResult}
    (hNonempty : results ≠ []) (h : other.Perm (added :: results)) :
    (aggregateSuiteStatus results).level ≤ (aggregateSuiteStatus other).level := by
  have hOther : other ≠ [] := by
    intro hEmpty
    rw [hEmpty] at h
    cases nil_perm.mp h
  rw [level_aggregateSuiteStatus hNonempty, level_aggregateSuiteStatus hOther, highestLevel_perm h]
  exact le_max_right _ _

/-! ## What each cascade answers -/

section Cascades

variable {results : List JudgedResult} {suiteStatus : EngineStatus} {baseline : Option BaselineComparison}

variable {result : JudgedResult}

theorem aggregateSuiteStatus_of_blocks (hResult : result ∈ results)
    (h : result.blocks) : aggregateSuiteStatus results = .error := by
  have hAny : results.any (·.blocks) = true := any_eq_true.mpr ⟨result, hResult, h⟩
  simp [aggregateSuiteStatus, hAny]

theorem aggregateSuiteStatus_of_not_blocks (hNonempty : results ≠ [])
    (h : ∀ result ∈ results, result.blocks = false) :
    aggregateSuiteStatus results = if results.any (·.fails) then .fail
      else if results.any (·.colours) then .warn else .pass := by
  have hAny : results.any (·.blocks) = false := by simpa using h
  have hEmpty : results.isEmpty = false := by simpa using hNonempty
  simp only [aggregateSuiteStatus, hEmpty, hAny, Bool.false_eq_true, if_false]

theorem blockedReason_eq_none_iff : blockedReason result = none ↔ result.blocks = false := by
  unfold blockedReason blocks applicable
  cases result.required <;> cases result.evidence <;> cases result.status <;> simp

theorem findSome_blockedReason_eq_none (h : ∀ result ∈ results, result.blocks = false) :
    results.findSome? blockedReason = none :=
  findSome?_eq_none_iff.mpr fun result hResult => blockedReason_eq_none_iff.mpr (h result hResult)

def ReadsBlocked (result : JudgedResult) (reason : Text) : Prop :=
  result.evidence = .notRun ∧ reason = didNotRunText result.engineName ∨
    (result.status = .error ∨ result.status = .skip) ∧
      reason = reportedText result.engineName result.status

theorem reads_of_blockedReason {reason : Text}
    (h : blockedReason result = some reason) : result.blocks ∧ ReadsBlocked result reason := by
  constructor
  · by_contra hBlocks
    rw [Bool.not_eq_true] at hBlocks
    rw [blockedReason_eq_none_iff.mpr hBlocks] at h
    cases h
  · unfold blockedReason at h
    split_ifs at h with hInapplicable hEvidence hStatus
    · cases h
      exact .inl ⟨hEvidence, rfl⟩
    · cases h
      exact .inr ⟨by simpa using hStatus, rfl⟩

theorem gateReason_of_blocks (hResult : result ∈ results) (h : result.blocks) :
    ∃ blocked ∈ results, blocked.blocks ∧ ReadsBlocked blocked (gateReason results suiteStatus baseline) := by
  cases hFound : results.findSome? blockedReason with
  | none =>
    have hNone := findSome?_eq_none_iff.mp hFound result hResult
    rw [blockedReason_eq_none_iff, h] at hNone
    cases hNone
  | some reason =>
    obtain ⟨blocked, hBlocked, hReason⟩ := exists_of_findSome?_eq_some hFound
    have hGate : gateReason results suiteStatus baseline = reason := by
      simp only [gateReason, hFound, Option.getD_some]
    rw [hGate]
    exact ⟨blocked, hBlocked, reads_of_blockedReason hReason⟩

theorem gateReason_of_not_blocks (h : ∀ result ∈ results, result.blocks = false) :
    gateReason results suiteStatus baseline = laterReason results suiteStatus baseline := by
  simp only [gateReason, findSome_blockedReason_eq_none h, Option.getD_none]

theorem laterReason_of_fails (hResult : result ∈ results) (h : result.fails) :
    ∃ failed ∈ results, failed.fails ∧
      laterReason results suiteStatus baseline = failedText failed.engineName := by
  cases hFound : results.find? (·.fails) with
  | none =>
    have hNone := find?_eq_none.mp hFound result hResult
    exact absurd h hNone
  | some failed =>
    refine ⟨failed, mem_of_find?_eq_some hFound, by simpa using find?_some hFound, ?_⟩
    simp only [laterReason, hFound]

end Cascades

/-! ## The texts tell the causes apart -/

theorem getLast_failedText (name : Text) : (failedText name).getLast? = some 0x64 := by
  have hEnd : (py "' failed").getLast? = some 0x64 := by decide
  simp only [failedText, getLast?_append, hEnd, Option.some_or]

theorem failedText_ne_of_reads {result : JudgedResult} {reason name : Text}
    (h : ReadsBlocked result reason) : reason ≠ failedText name := by
  intro hText
  have hLast : reason.getLast? = some 0x64 := hText ▸ getLast_failedText name
  rcases h with ⟨-, rfl⟩ | ⟨hStatus, rfl⟩
  · have hEnd : (py "' did not run (evidence NOT_RUN)").getLast? = some 0x29 := by decide
    simp only [didNotRunText, getLast?_append, hEnd, Option.some_or] at hLast
    exact absurd hLast (by decide)
  · have hEnd : result.status.value.getLast? = some 0x52 ∨ result.status.value.getLast? = some 0x50 := by
      rcases hStatus with h | h <;> rw [h] <;> decide
    rcases hEnd with hEnd | hEnd <;>
      simp only [reportedText, getLast?_append, hEnd, Option.some_or] at hLast <;>
      exact absurd hLast (by decide)

theorem head_warnedText (names : List Text) : ∃ c ∈ (warnedText names).head?, isDigit c = true := by
  obtain ⟨first, rest, hDigits⟩ := exists_cons_of_ne_nil (natDigits_ne_nil names.length)
  refine ⟨first, ?_, isDigit_of_mem_natDigits (hDigits ▸ mem_cons_self)⟩
  simp only [warnedText, hDigits, cons_append, head?_cons, Option.mem_some_iff]

theorem ne_warnedText {reason : Text} {c : CodePoint} (hHead : reason.head? = some c)
    (hDigit : isDigit c = false) (names : List Text) : reason ≠ warnedText names := by
  rintro rfl
  obtain ⟨first, hFirst, hIsDigit⟩ := head_warnedText names
  rw [hHead, Option.mem_some_iff] at hFirst
  rw [hFirst, hIsDigit] at hDigit
  cases hDigit

theorem ne_warnedText_of_start {start rest : Text} (hStart : ∃ c, start.head? = some c ∧ isDigit c = false)
    (names : List Text) : start ++ rest ≠ warnedText names := by
  obtain ⟨c, hHead, hDigit⟩ := hStart
  apply ne_warnedText _ hDigit
  rw [head?_append, hHead, Option.some_or]

theorem head_required : ∃ c, (py "required engine '").head? = some c ∧ isDigit c = false :=
  ⟨0x72, by decide, by decide⟩

theorem failedText_ne_warnedText (name : Text) (names : List Text) : failedText name ≠ warnedText names := by
  simpa only [failedText, append_assoc] using ne_warnedText_of_start head_required names

theorem baselineText_ne_warnedText (gated : ℕ) (names : List Text) :
    baselineText gated ≠ warnedText names := by
  have hStart : ∃ c, (py "baseline gate found ").head? = some c ∧ isDigit c = false :=
    ⟨0x62, by decide, by decide⟩
  simpa only [baselineText, append_assoc] using ne_warnedText_of_start hStart names

theorem reads_ne_warnedText {result : JudgedResult} {reason : Text} (h : ReadsBlocked result reason)
    (names : List Text) : reason ≠ warnedText names := by
  rcases h with ⟨-, rfl⟩ | ⟨-, rfl⟩
  · simpa only [didNotRunText, append_assoc] using ne_warnedText_of_start head_required names
  · simpa only [reportedText, append_assoc] using ne_warnedText_of_start head_required names

/-! ## The reason and the status -/

section

variable (results : List JudgedResult)

def NamesBlocked (reason : Text) : Prop :=
  ∃ result ∈ results, result.blocks ∧ ReadsBlocked result reason

def NamesFailed (reason : Text) : Prop :=
  ∃ result ∈ results, result.fails ∧ reason = failedText result.engineName

def NamesWarning (reason : Text) : Prop := ∃ names, reason = warnedText names

structure Explained (results : List JudgedResult) (reason : Text) : Prop where
  error : NamesBlocked results reason ↔ aggregateSuiteStatus results = .error
  fail : NamesFailed results reason ↔ aggregateSuiteStatus results = .fail
  warn : NamesWarning reason → aggregateSuiteStatus results = .warn

/-- Something other than a warning without a cause is there to be named, or no engine warned. -/
def WarningsCount (baseline : Option BaselineComparison) : Prop :=
  (∃ result ∈ results, result.blocks ∨ result.fails ∨ result.colours) ∨ baselineFailed baseline ∨
    ∀ result ∈ results, result.status ≠ .warn

end

section Explaining

variable {results : List JudgedResult} {suiteStatus : EngineStatus} {baseline : Option BaselineComparison}

theorem explained_of_blocks {result : JudgedResult} (hResult : result ∈ results) (h : result.blocks) :
    Explained results (gateReason results suiteStatus baseline) := by
  have hStatus := aggregateSuiteStatus_of_blocks hResult h
  obtain ⟨blocked, hBlocked, hBlocks, hReads⟩ :=
    @gateReason_of_blocks results suiteStatus baseline _ hResult h
  constructor
  · exact iff_of_true ⟨blocked, hBlocked, hBlocks, hReads⟩ hStatus
  · apply iff_of_false
    · rintro ⟨failed, -, -, hText⟩
      exact failedText_ne_of_reads hReads hText
    · simp [hStatus]
  · rintro ⟨names, hText⟩
    exact absurd hText (reads_ne_warnedText hReads names)

theorem not_namesBlocked (h : ∀ result ∈ results, result.blocks = false) (reason : Text) :
    ¬ NamesBlocked results reason := by
  rintro ⟨result, hResult, hBlocks, -⟩
  rw [h result hResult] at hBlocks
  cases hBlocks

theorem explained_of_fails {result : JudgedResult} (hBlocks : ∀ result ∈ results, result.blocks = false)
    (hResult : result ∈ results) (h : result.fails) :
    Explained results (gateReason results suiteStatus baseline) := by
  have hAny : results.any (·.fails) = true := any_eq_true.mpr ⟨result, hResult, h⟩
  have hStatus : aggregateSuiteStatus results = .fail := by
    rw [aggregateSuiteStatus_of_not_blocks (ne_nil_of_mem hResult) hBlocks, hAny, if_pos rfl]
  obtain ⟨failed, hFailed, hFails, hText⟩ :=
    @laterReason_of_fails results suiteStatus baseline _ hResult h
  rw [← gateReason_of_not_blocks hBlocks] at hText
  constructor
  · apply iff_of_false (not_namesBlocked hBlocks _)
    simp [hStatus]
  · exact iff_of_true ⟨failed, hFailed, hFails, hText⟩ hStatus
  · rintro ⟨names, hWarned⟩
    exact absurd (hText.symm.trans hWarned) (failedText_ne_warnedText _ names)

/-- Below `FAIL` the reason is explained exactly where a warning it names colours the suite. -/
theorem explained_iff_of_neither (hNonempty : results ≠ [])
    (hBlocks : ∀ result ∈ results, result.blocks = false)
    (hFails : ∀ result ∈ results, result.fails = false) :
    Explained results (gateReason results suiteStatus baseline) ↔
      (NamesWarning (laterReason results suiteStatus baseline) → ∃ result ∈ results, result.colours) := by
  have hAny : results.any (·.fails) = false := by simpa using hFails
  have hStatus : aggregateSuiteStatus results = if results.any (·.colours) then .warn else .pass := by
    rw [aggregateSuiteStatus_of_not_blocks hNonempty hBlocks, hAny, if_neg Bool.false_ne_true]
  have hWarn : aggregateSuiteStatus results = .warn ↔ ∃ result ∈ results, result.colours := by
    rw [hStatus, ← any_eq_true]
    split <;> simp_all
  rw [gateReason_of_not_blocks hBlocks]
  constructor
  · intro h hNames
    exact hWarn.mp (h.warn hNames)
  · intro h
    constructor
    · apply iff_of_false (not_namesBlocked hBlocks _)
      rw [hStatus]
      split_ifs <;> simp
    · apply iff_of_false
      · rintro ⟨result, hResult, hFailed, -⟩
        rw [hFails result hResult] at hFailed
        cases hFailed
      · rw [hStatus]
        split_ifs <;> simp
    · intro hNames
      exact hWarn.mpr (h hNames)

theorem namesWarning_laterReason_iff (hFails : ∀ result ∈ results, result.fails = false) :
    NamesWarning (laterReason results suiteStatus baseline) ↔
      baselineFailed baseline = false ∧ ∃ result ∈ results, result.status = .warn := by
  have hNone : results.find? (·.fails) = none := find?_eq_none.mpr fun result hResult => by
    simp [hFails result hResult]
  simp only [laterReason, hNone]
  cases hFiltered : baseline.filter (·.gateFailed) with
  | some comparison =>
    have hFailed : baselineFailed baseline = true := by
      obtain ⟨hBaseline, hGate⟩ := Option.filter_eq_some_iff.mp hFiltered
      simp [baselineFailed, hBaseline, hGate]
    apply iff_of_false
    · rintro ⟨names, hText⟩
      exact baselineText_ne_warnedText _ names hText
    · simp [hFailed]
  | none =>
    have hFailed : baselineFailed baseline = false := by
      cases baseline <;> simp_all [baselineFailed, Option.filter]
    simp only [hFailed, true_and]
    split
    · rename_i hWarned
      apply iff_of_true ⟨_, rfl⟩
      obtain ⟨result, hResult⟩ := exists_mem_of_ne_nil _ hWarned
      exact ⟨result, by simpa using hResult⟩
    · rename_i hWarned
      apply iff_of_false
      · rintro ⟨names, hText⟩
        split at hText
        · exact ne_warnedText (c := 0x61) (by decide) (by decide) names hText
        · exact ne_warnedText (c := 0x73) (by decide) (by decide) names hText
      · simpa [filter_eq_nil_iff] using hWarned

theorem explained_iff (hNonempty : results ≠ []) :
    Explained results (gateReason results suiteStatus baseline) ↔ WarningsCount results baseline := by
  by_cases hBlocks : ∃ result ∈ results, result.blocks
  · obtain ⟨result, hResult, h⟩ := hBlocks
    exact iff_of_true (explained_of_blocks hResult h) (.inl ⟨result, hResult, .inl h⟩)
  · replace hBlocks : ∀ result ∈ results, result.blocks = false := by simpa using hBlocks
    by_cases hFails : ∃ result ∈ results, result.fails
    · obtain ⟨result, hResult, h⟩ := hFails
      exact iff_of_true (explained_of_fails hBlocks hResult h) (.inl ⟨result, hResult, .inr (.inl h)⟩)
    · replace hFails : ∀ result ∈ results, result.fails = false := by simpa using hFails
      have hColours : (∃ result ∈ results, result.blocks ∨ result.fails ∨ result.colours) ↔
          ∃ result ∈ results, result.colours := by
        apply exists_congr
        intro result
        apply and_congr_right
        intro hResult
        simp [hBlocks result hResult, hFails result hResult]
      rw [explained_iff_of_neither hNonempty hBlocks hFails, namesWarning_laterReason_iff hFails,
        WarningsCount, hColours]
      constructor
      · intro h
        by_cases hFailed : baselineFailed baseline
        · exact .inr (.inl hFailed)
        · by_cases hWarn : ∃ result ∈ results, result.status = .warn
          · exact .inl (h ⟨by simpa using hFailed, hWarn⟩)
          · exact .inr (.inr (by simpa using hWarn))
      · rintro (h | h | h) ⟨hFailed, result, hResult, hWarn⟩
        · exact h
        · rw [hFailed] at h
          cases h
        · exact absurd hWarn (h result hResult)

end Explaining

/-- The status of a non-empty suite is independent of the order and never improves when a result is
added. The reason names a cause of exactly that level, except where the only warnings are of
engines that do not apply. -/
theorem suite_status_explained_iff (results : List JudgedResult) (suiteStatus : EngineStatus)
    (baseline : Option BaselineComparison) (hNonempty : results ≠ []) :
    ((∀ other, results.Perm other → aggregateSuiteStatus other = aggregateSuiteStatus results) ∧
      (∀ added other, other.Perm (added :: results) →
        (aggregateSuiteStatus results).level ≤ (aggregateSuiteStatus other).level) ∧
      Explained results (gateReason results suiteStatus baseline)) ↔ WarningsCount results baseline := by
  rw [← @explained_iff _ suiteStatus _ hNonempty]
  constructor
  · rintro ⟨-, -, h⟩
    exact h
  · intro h
    exact ⟨fun _ => aggregateSuiteStatus_perm hNonempty, fun _ _ => level_le_of_added hNonempty, h⟩

def inapplicableWarning : JudgedResult where
  engineName := py "dead"
  status := .warn
  evidence := .notApplicable

theorem inapplicable_warning_blamed : aggregateSuiteStatus [inapplicableWarning] = .pass ∧
    gateReason [inapplicableWarning] .pass none = py "1 engine(s) warned: dead" ∧
    ¬ Explained [inapplicableWarning] (gateReason [inapplicableWarning] .pass none) := by
  refine ⟨by decide, by decide, ?_⟩
  intro h
  have hNames : NamesWarning (gateReason [inapplicableWarning] .pass none) := ⟨[py "dead"], by decide⟩
  exact absurd (h.warn hNames) (by decide)

def skippedResult : JudgedResult where
  engineName := py "dead"
  status := .skip

theorem skipped_suite_explained :
    (∀ other, [skippedResult].Perm other → aggregateSuiteStatus other = aggregateSuiteStatus [skippedResult])
      ∧
      (∀ added other, other.Perm (added :: [skippedResult]) →
        (aggregateSuiteStatus [skippedResult]).level ≤ (aggregateSuiteStatus other).level) ∧
      Explained [skippedResult] (gateReason [skippedResult] .error none) :=
  (suite_status_explained_iff [skippedResult] .error none (cons_ne_nil _ _)).mpr
    (.inl ⟨skippedResult, mem_singleton_self _, .inl rfl⟩)

end Ici.Core
