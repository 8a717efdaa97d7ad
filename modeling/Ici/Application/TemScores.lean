import Ici.Application.TemOrder
import Ici.Application.Verify

/-! # When a run has a TEM

The score is refused with a limitation, but a ratio no float holds, a count too long to print and a label
that is no identifier raise. -/

namespace Ici

open List Raising Python TemReport Double

/-! ## One component -/

namespace TemInputs

def CountsRefused (inputs : TemInputs) : Prop :=
  inputs.passed < 0 ∨ inputs.total < 0 ∨ inputs.total < inputs.passed

instance (inputs : TemInputs) : Decidable inputs.CountsRefused := inferInstanceAs (Decidable (_ ∨ _))

def Scored (inputs : TemInputs) : Prop :=
  ¬inputs.CountsRefused ∧ inputs.coverage.isSome ∧ inputs.functionCoverage.isSome

instance (inputs : TemInputs) : Decidable inputs.Scored := inferInstanceAs (Decidable (_ ∧ _))

end TemInputs

theorem exists_trueDiv_of_le {part whole : ℤ} (hPart : 0 ≤ part) (hWhole : part ≤ whole) (hNe : whole ≠ 0) :
    ∃ ratio, trueDiv part whole = .ok ratio := by
  have hPos : (0 : ℚ) < whole := by exact_mod_cast (by omega : 0 < whole)
  have hLow : (0 : ℚ) ≤ part / whole := div_nonneg (by exact_mod_cast hPart) hPos.le
  have hHigh : (part / whole : ℚ) ≤ (1 : ℕ) := by
    rw [Nat.cast_one, div_le_one hPos]
    exact_mod_cast hWhole
  obtain ⟨x, hx, -, -⟩ := PyFloat.ofRat_mem_Icc hLow hHigh (by norm_num)
  refine exists_trueDiv_iff.mpr ⟨hNe, ?_⟩
  show (PyFloat.ofRat (part / whole)).isFinite = true
  rw [hx]
  rfl

/-- What `calculate` says of counts it takes. -/
structure TemVerdict (inputs : TemInputs) (result : TemResult) : Prop where
  scored : result.score ≠ none ↔ inputs.Scored
  score : ∀ score, result.score = some score → score.val ≠ .nan
  reason : result.score = none → EndsVisibly result.reason

theorem score_ne_nan (score : Double) : (zero.pyMax (maxScore.pyMin score)).val ≠ .nan :=
  PyFloat.pyMax_ne_nan 0 _

def scoreOf (inputs : TemInputs) (passRate : Double) : TemResult :=
  match inputs.coverage, inputs.functionCoverage with
  | none, _ => { passRate, reason := py "no coverage evidence — the score is not computed" }
  | some (_, label, shown, estimated), none => {
      passRate
      coverageLabel := label
      coverageShown := some shown
      estimated
      reason := py "function coverage was not measured — the score is not computed" }
  | some (factor, label, shown, estimated), some functions => {
      score := some (zero.pyMax (maxScore.pyMin
        ((((factor.mul (functions.divConst 100)).mul passRate).mul maxScore).roundTo 2)))
      passRate := passRate.roundTo 4
      coverageLabel := label
      coverageShown := some shown
      estimated }

theorem calculate_eq_scoreOf {inputs : TemInputs} (h : ¬inputs.CountsRefused) :
    ∃ rate, calculate inputs = .ok (scoreOf inputs rate) := by
  have hCounts : ¬(inputs.passed < 0 ∨ inputs.total < 0 ∨ inputs.total < inputs.passed) := h
  simp only [TemInputs.CountsRefused, not_or, not_lt] at h
  unfold calculate
  rw [if_neg hCounts]
  by_cases hZero : inputs.total = 0
  · refine ⟨zero, ?_⟩
    rw [if_pos hZero]
    unfold scoreOf
    cases inputs.coverage <;> cases inputs.functionCoverage <;> rfl
  · obtain ⟨rate, hRate⟩ := exists_trueDiv_of_le h.1 h.2.2 hZero
    refine ⟨rate, ?_⟩
    rw [if_neg hZero]
    refine bind_eq_ok.mpr ⟨rate, hRate, ?_⟩
    unfold scoreOf
    cases inputs.coverage <;> cases inputs.functionCoverage <;> rfl

theorem endsVisibly_noCoverage : EndsVisibly (py "no coverage evidence — the score is not computed") :=
  ⟨by decide, by decide⟩

theorem endsVisibly_noFunctions :
    EndsVisibly (py "function coverage was not measured — the score is not computed") :=
  ⟨by decide, by decide⟩

theorem temVerdict_scoreOf {inputs : TemInputs} (h : ¬inputs.CountsRefused) (rate : Double) :
    TemVerdict inputs (scoreOf inputs rate) := by
  unfold scoreOf
  cases hCoverage : inputs.coverage with
  | none => exact ⟨by simp [TemInputs.Scored, hCoverage], nofun, fun _ => endsVisibly_noCoverage⟩
  | some coverage =>
    cases hFunctions : inputs.functionCoverage with
    | none => exact ⟨by simp [TemInputs.Scored, hFunctions], nofun, fun _ => endsVisibly_noFunctions⟩
    | some functions =>
      refine ⟨by simp [TemInputs.Scored, hFunctions, hCoverage, h], ?_, nofun⟩
      intro score hScore
      cases hScore
      exact score_ne_nan _

theorem calculate_of_counts {inputs : TemInputs} (h : ¬inputs.CountsRefused) :
    ∃ result, calculate inputs = .ok result ∧ TemVerdict inputs result := by
  obtain ⟨rate, hRate⟩ := calculate_eq_scoreOf h
  exact ⟨_, hRate, temVerdict_scoreOf h rate⟩

theorem calculate_of_refused {inputs : TemInputs} (h : inputs.CountsRefused)
    (hFits : FitsDigitLimit inputs.passed ∧ FitsDigitLimit inputs.total) :
    ∃ result, calculate inputs = .ok result ∧ TemVerdict inputs result := by
  obtain ⟨passed, hPassed⟩ := (Json.exists_strInt_iff _).mpr hFits.1
  obtain ⟨total, hTotal⟩ := (Json.exists_strInt_iff _).mpr hFits.2
  have hCounts : inputs.passed < 0 ∨ inputs.total < 0 ∨ inputs.total < inputs.passed := h
  unfold calculate
  rw [if_pos hCounts, hPassed, hTotal]
  exact ⟨_, rfl, by simp [TemInputs.Scored, h], nofun, fun _ => endsVisibly_append ⟨by decide, by decide⟩⟩

theorem calculate_eq_ok {inputs : TemInputs} {result : TemResult} (h : calculate inputs = .ok result) :
    (inputs.CountsRefused → FitsDigitLimit inputs.passed ∧ FitsDigitLimit inputs.total) ∧
      TemVerdict inputs result := by
  by_cases hCounts : inputs.CountsRefused
  · have hFits : FitsDigitLimit inputs.passed ∧ FitsDigitLimit inputs.total := by
      have hIf : inputs.passed < 0 ∨ inputs.total < 0 ∨ inputs.total < inputs.passed := hCounts
      unfold calculate at h
      rw [if_pos hIf] at h
      obtain ⟨passed, hPassed, h⟩ := bind_eq_ok.mp h
      obtain ⟨total, hTotal, -⟩ := bind_eq_ok.mp h
      exact ⟨(Json.exists_strInt_iff _).mp ⟨_, hPassed⟩, (Json.exists_strInt_iff _).mp ⟨_, hTotal⟩⟩
    obtain ⟨other, hOther, hVerdict⟩ := calculate_of_refused hCounts hFits
    cases h.symm.trans hOther
    exact ⟨fun _ => hFits, hVerdict⟩
  · obtain ⟨other, hOther, hVerdict⟩ := calculate_of_counts hCounts
    cases h.symm.trans hOther
    exact ⟨fun hRefused => absurd hRefused hCounts, hVerdict⟩

theorem exists_calculate_iff {inputs : TemInputs} : (∃ result, calculate inputs = .ok result) ↔
      (inputs.CountsRefused → FitsDigitLimit inputs.passed ∧ FitsDigitLimit inputs.total) := by
  constructor
  · rintro ⟨result, h⟩
    exact (calculate_eq_ok h).1
  · intro h
    by_cases hCounts : inputs.CountsRefused
    · obtain ⟨result, hResult, -⟩ := calculate_of_refused hCounts (h hCounts)
      exact ⟨result, hResult⟩
    · obtain ⟨result, hResult, -⟩ := calculate_of_counts hCounts
      exact ⟨result, hResult⟩

/-! ## The groups of a run -/

abbrev TemGroup := Text × List Measurement

namespace TemGroup

variable (group : TemGroup)

def label : Text := if group.1 = [] then py "workspace" else group.1

/-- What `inputs_from` reads where no ratio overflows. -/
def inputs : TemInputs := group.2.foldl keepInput {}

def counts : ComponentCounts := countsFrom group.label group.2

structure IsTold : Prop where
  ratios : ∀ item ∈ group.2, refusedInput item = false
  counts : group.inputs.CountsRefused →
    FitsDigitLimit group.inputs.passed ∧ FitsDigitLimit group.inputs.total
  label : group.inputs.Scored → IsIdentifier (py "tem." ++ group.label)

end TemGroup

theorem inputsFrom_eq_ok_iff {group : TemGroup} {inputs : TemInputs} : inputsFrom group.2 = .ok inputs ↔
      (∀ item ∈ group.2, refusedInput item = false) ∧ group.inputs = inputs := by
  rw [inputsFrom_eq]
  split
  · rename_i hAny
    refine iff_of_false nofun fun h => ?_
    obtain ⟨item, hItem, hRefused⟩ := any_eq_true.mp hAny
    rw [h.1 item hItem] at hRefused
    exact nomatch hRefused
  · rename_i hAny
    rw [Except.ok.injEq, TemGroup.inputs]
    refine (and_iff_right fun item hItem => ?_).symm
    rw [← Bool.not_eq_true]
    exact fun hRefused => hAny (any_eq_true.mpr ⟨item, hItem, hRefused⟩)

theorem measurement_check_iff (name unit : Text) {score : Double} (hScore : score.val ≠ .nan) :
    MeasurementFields.check { name, value := score, unit } = .ok () ↔ IsIdentifier name := by
  rw [MeasurementFields.check_eq_ok_iff]
  simp [hScore]

namespace TemReport

structure Adds (group : TemGroup) (report next : TemReport) : Prop where
  components : next.components =
    report.components ++ if group.inputs.Scored then [group.counts] else []
  limitations : ∃ added, next.limitations = report.limitations ++ added ∧
    ∀ limitation ∈ added, ∃ rest, EndsVisibly rest ∧ limitation = group.label ++ rest

theorem addComponent_ok {group : TemGroup} {report next : TemReport} (h : report.addComponent group =
    .ok next) :
    group.IsTold ∧ Adds group report next := by
  unfold addComponent at h
  obtain ⟨inputs, hInputs, hScores⟩ := bind_eq_ok.mp h
  obtain ⟨result, hResult, hTells⟩ := bind_eq_ok.mp hScores
  obtain ⟨hRatios, rfl⟩ := inputsFrom_eq_ok_iff.mp hInputs
  obtain ⟨hFits, hVerdict⟩ := calculate_eq_ok hResult
  cases hScore : result.score with
  | none =>
    have hNot : ¬group.inputs.Scored := fun hScored => hVerdict.scored.mpr hScored hScore
    simp only [hScore] at hTells
    cases hTells
    refine ⟨⟨hRatios, hFits, fun hScored => absurd hScored hNot⟩, ?_, ?_⟩
    · rw [if_neg hNot, append_nil]
    · refine ⟨_, rfl, fun limitation hMem => ?_⟩
      rw [mem_singleton] at hMem
      refine ⟨py ": TEM N/A — " ++ result.reason, endsVisibly_append (hVerdict.reason hScore), ?_⟩
      rw [hMem, append_assoc]
      rfl
  | some score =>
    have hScored : group.inputs.Scored := hVerdict.scored.mp (by simp [hScore])
    simp only [hScore] at hTells
    obtain ⟨metric, hMetric, hKept⟩ := bind_eq_ok.mp hTells
    cases hKept
    have hName := (measurement_check_iff _ _ (hVerdict.score score hScore)).mp
      (Checked.exists_construct_iff.mp ⟨metric, hMetric⟩)
    refine ⟨⟨hRatios, hFits, fun _ => hName⟩, ?_, [], by simp, by simp⟩
    rw [if_pos hScored]
    rfl

theorem exists_addComponent_iff (report : TemReport) (group : TemGroup) :
    (∃ next, report.addComponent group = .ok next) ↔ group.IsTold := by
  constructor
  · rintro ⟨next, h⟩
    exact (addComponent_ok h).1
  · intro h
    have hInputs := inputsFrom_eq_ok_iff.mpr ⟨h.ratios, rfl⟩
    obtain ⟨result, hResult⟩ := exists_calculate_iff.mpr h.counts
    obtain ⟨-, hVerdict⟩ := calculate_eq_ok hResult
    unfold addComponent
    cases hScore : result.score with
    | none =>
      refine ⟨?next, bind_eq_ok.mpr ⟨_, hInputs, bind_eq_ok.mpr ⟨_, hResult, ?tells⟩⟩⟩
      case tells =>
        simp only [hScore]
        rfl
    | some score =>
      have hScored : group.inputs.Scored := hVerdict.scored.mp (by simp [hScore])
      have hCheck := (measurement_check_iff _ result.unit (hVerdict.score score hScore)).mpr
        (h.label hScored)
      refine ⟨?scored, bind_eq_ok.mpr ⟨_, hInputs, bind_eq_ok.mpr ⟨_, hResult, ?adds⟩⟩⟩
      case adds =>
        simp only [hScore]
        refine bind_eq_ok.mpr ⟨_, Checked.construct_eq_ok hCheck, ?_⟩
        rfl

/-- The components that take part in the score of the workspace, in the order they are reported. -/
def scoredCounts (groups : List TemGroup) : List ComponentCounts :=
  (groups.filter (·.inputs.Scored)).map (·.counts)

theorem addComponents_ok {groups : List TemGroup} {report final : TemReport}
    (h : groups.foldlM addComponent report = .ok final) :
    final.components = report.components ++ scoredCounts groups ∧
      ∀ limitation ∈ final.limitations, limitation ∈ report.limitations ∨
        ∃ group ∈ groups, ∃ rest, EndsVisibly rest ∧ limitation = group.label ++ rest := by
  induction groups generalizing report with
  | nil =>
    cases h
    exact ⟨by simp [scoredCounts], fun limitation hMem => .inl hMem⟩
  | cons group groups ih =>
    obtain ⟨next, hHead, hTail⟩ := foldlM_cons_eq_ok.mp h
    obtain ⟨hComponents, added, hLimitations, hAdded⟩ := (addComponent_ok hHead).2
    obtain ⟨hRest, hTold⟩ := ih hTail
    constructor
    · rw [hRest, hComponents, append_assoc]
      by_cases hScored : group.inputs.Scored <;> simp [scoredCounts, hScored]
    · intro limitation hMem
      rcases hTold limitation hMem with hOld | ⟨other, hOther, rest⟩
      · rw [hLimitations, mem_append] at hOld
        rcases hOld with hFirst | hNew
        · exact .inl hFirst
        · exact .inr ⟨group, mem_cons_self, hAdded limitation hNew⟩
      · exact .inr ⟨other, mem_cons_of_mem _ hOther, rest⟩

/-! ## The workspace -/

def RatioFits (pairs : List (Option ℤ × Option ℤ)) : Prop :=
  (sums pairs).2 = 0 ∨ (ofRat ((sums pairs).1 / (sums pairs).2)).val.isFinite = true

instance (pairs : List (Option ℤ × Option ℤ)) : Decidable (RatioFits pairs) :=
  inferInstanceAs (Decidable (_ ∨ _))

theorem exists_percentOf_iff {pairs : List (Option ℤ × Option ℤ)} :
    (∃ percent, percentOf pairs = .ok percent) ↔ RatioFits pairs := by
  unfold percentOf RatioFits
  split
  · rename_i hZero
    exact iff_of_true ⟨_, rfl⟩ (.inl hZero)
  · rename_i hTotal
    rw [Json.exists_map_iff, exists_trueDiv_iff]
    simp [hTotal]

structure Merges (components : List ComponentCounts) : Prop where
  lines : RatioFits ((components.filter (·.mergeable)).map (·.lines))
  branches : RatioFits ((components.filter (·.mergeable)).map (·.branches))
  functions : (∀ item ∈ components, item.mergeable = true →
      item.coveredFunctions ≠ none ∧ item.totalFunctions ≠ none) →
    RatioFits ((components.filter (·.mergeable)).map (·.functions))

variable {components : List ComponentCounts}

theorem all_functions_iff : ((components.filter (·.mergeable)).all fun item =>
      item.coveredFunctions.isSome && item.totalFunctions.isSome) = true ↔
      ∀ item ∈ components, item.mergeable = true →
        item.coveredFunctions ≠ none ∧ item.totalFunctions ≠ none := by
  simp only [all_eq_true, mem_filter, Bool.and_eq_true, Option.isSome_iff_ne_none, and_imp]

theorem aggregate_ok {merged : TemInputs × List Text} (h : aggregate components = .ok merged) :
    Merges components ∧
      merged.1.passed = ((components.filter (·.mergeable)).map (·.passed)).sum ∧
      merged.1.total = ((components.filter (·.mergeable)).map (·.total)).sum ∧
      merged.2 = (components.filter (!·.mergeable)).map (·.name) := by
  unfold aggregate at h
  dsimp only at h
  split at h
  · rename_i hNone
    cases h
    have hEmpty : RatioFits [] := .inl rfl
    exact ⟨⟨by rw [hNone]; exact hEmpty, by rw [hNone]; exact hEmpty, fun _ => by rw [hNone]; exact hEmpty⟩,
      by rw [hNone]; rfl, by rw [hNone]; rfl, rfl⟩
  · obtain ⟨lines, hLines, hFirst⟩ := bind_eq_ok.mp h
    obtain ⟨branches, hBranches, hSecond⟩ := bind_eq_ok.mp hFirst
    by_cases hAll : ((components.filter (·.mergeable)).all fun item =>
        item.coveredFunctions.isSome && item.totalFunctions.isSome) = true
    · rw [if_pos hAll] at hSecond
      obtain ⟨functions, hFunctions, hThird⟩ := bind_eq_ok.mp hSecond
      cases hThird
      exact ⟨⟨exists_percentOf_iff.mp ⟨_, hLines⟩, exists_percentOf_iff.mp ⟨_, hBranches⟩,
        fun _ => exists_percentOf_iff.mp ⟨_, hFunctions⟩⟩, rfl, rfl, rfl⟩
    · rw [if_neg hAll] at hSecond
      cases hSecond
      exact ⟨⟨exists_percentOf_iff.mp ⟨_, hLines⟩, exists_percentOf_iff.mp ⟨_, hBranches⟩,
        fun hEvery => absurd (all_functions_iff.mpr hEvery) hAll⟩, rfl, rfl, rfl⟩

theorem exists_aggregate_iff : (∃ merged, aggregate components = .ok merged) ↔ Merges components := by
  constructor
  · rintro ⟨merged, h⟩
    exact (aggregate_ok h).1
  · intro h
    unfold aggregate
    dsimp only
    split
    · exact ⟨_, rfl⟩
    · obtain ⟨lines, hLines⟩ := exists_percentOf_iff.mpr h.lines
      obtain ⟨branches, hBranches⟩ := exists_percentOf_iff.mpr h.branches
      by_cases hAll : ((components.filter (·.mergeable)).all fun item =>
          item.coveredFunctions.isSome && item.totalFunctions.isSome) = true
      · obtain ⟨functions, hFunctions⟩ := exists_percentOf_iff.mpr (h.functions (all_functions_iff.mp hAll))
        refine ⟨?all, bind_eq_ok.mpr ⟨_, hLines, bind_eq_ok.mpr ⟨_, hBranches, ?some⟩⟩⟩
        case some =>
          rw [if_pos hAll]
          refine bind_eq_ok.mpr ⟨_, hFunctions, ?_⟩
          rfl
      · refine ⟨?part, bind_eq_ok.mpr ⟨_, hLines, bind_eq_ok.mpr ⟨_, hBranches, ?none⟩⟩⟩
        case none =>
          rw [if_neg hAll]
          rfl

theorem sum_le_sum_of_counts (components : List ComponentCounts)
    (h : ∀ item ∈ components, 0 ≤ item.passed ∧ item.passed ≤ item.total) :
    0 ≤ (components.map (·.passed)).sum ∧
      (components.map (·.passed)).sum ≤ (components.map (·.total)).sum := by
  constructor
  · apply sum_nonneg
    intro passed hPassed
    obtain ⟨item, hItem, rfl⟩ := mem_map.mp hPassed
    exact (h item hItem).1
  · exact sum_le_sum fun item hItem => (h item hItem).2

theorem merged_counts {merged : TemInputs × List Text}
    (hCounts : ∀ item ∈ components, 0 ≤ item.passed ∧ item.passed ≤ item.total)
    (h : aggregate components = .ok merged) : ¬merged.1.CountsRefused := by
  obtain ⟨-, hPassed, hTotal, -⟩ := aggregate_ok h
  have hSums := sum_le_sum_of_counts (components.filter (·.mergeable)) fun item hItem =>
    hCounts item (mem_filter.mp hItem).1
  simp only [TemInputs.CountsRefused]
  omega

theorem addWorkspace_ok {report : TemReport} {told : List Measurement × List Text}
    (h : report.addWorkspace = .ok told) :
    (1 < report.components.length → Merges report.components) ∧
      ∀ limitation ∈ told.2, limitation ∈ report.limitations ∨ ∃ rest, EndsVisibly rest ∧
        (limitation = py "workspace" ++ rest ∨
          ∃ item ∈ report.components, limitation = item.name ++ rest) := by
  unfold addWorkspace at h
  split at h
  · rename_i hFew
    cases h
    exact ⟨fun hMany => absurd hMany (by omega), fun limitation hMem => .inl hMem⟩
  · obtain ⟨merged, hMerged, hScored⟩ := bind_eq_ok.mp h
    obtain ⟨workspace, hWorkspace, hTold⟩ := bind_eq_ok.mp hScored
    obtain ⟨hMerges, -, -, hExcluded⟩ := aggregate_ok hMerged
    have hVerdict := (calculate_eq_ok hWorkspace).2
    refine ⟨fun _ => hMerges, ?_⟩
    have hLimitations : told.2 = report.limitations ++
        merged.2.map (· ++ py ": excluded from workspace TEM — no raw coverage counts") ++
        (if workspace.score = none then [py "workspace: TEM N/A — " ++ workspace.reason] else []) := by
      cases hScore : workspace.score with
      | none =>
        simp only [hScore] at hTold
        cases hTold
        rfl
      | some score =>
        simp only [hScore] at hTold
        obtain ⟨metric, -, hKept⟩ := bind_eq_ok.mp hTold
        cases hKept
        rfl
    intro limitation hMem
    rw [hLimitations, mem_append, mem_append] at hMem
    rcases hMem with (hOld | hLeft) | hRefused
    · exact .inl hOld
    · obtain ⟨name, hName, rfl⟩ := mem_map.mp hLeft
      rw [hExcluded] at hName
      obtain ⟨item, hItem, rfl⟩ := mem_map.mp hName
      exact .inr ⟨_, ⟨by decide, by decide⟩, .inr ⟨item, (mem_filter.mp hItem).1, rfl⟩⟩
    · split at hRefused
      · rename_i hScore
        rw [mem_singleton] at hRefused
        have hSplit : py "workspace: TEM N/A — " = py "workspace" ++ py ": TEM N/A — " := by decide
        refine .inr ⟨py ": TEM N/A — " ++ workspace.reason, endsVisibly_append (hVerdict.reason hScore),
          .inl ?_⟩
        rw [hRefused, hSplit, append_assoc]
      · exact absurd hRefused not_mem_nil

theorem exists_addWorkspace_iff {report : TemReport}
    (hCounts : ∀ item ∈ report.components, 0 ≤ item.passed ∧ item.passed ≤ item.total) :
    (∃ told, report.addWorkspace = .ok told) ↔
      (1 < report.components.length → Merges report.components) := by
  constructor
  · rintro ⟨told, h⟩
    exact (addWorkspace_ok h).1
  · intro h
    unfold addWorkspace
    split
    · exact ⟨_, rfl⟩
    · rename_i hMany
      obtain ⟨merged, hMerged⟩ := exists_aggregate_iff.mpr (h (by omega))
      obtain ⟨workspace, hWorkspace, hVerdict⟩ := calculate_of_counts (merged_counts hCounts hMerged)
      cases hScore : workspace.score with
      | none =>
        refine ⟨?refused, bind_eq_ok.mpr ⟨_, hMerged, bind_eq_ok.mpr ⟨_, hWorkspace, ?unscored⟩⟩⟩
        case unscored =>
          simp only [hScore]
          rfl
      | some score =>
        have hCheck := (measurement_check_iff (py "tem.workspace") formulaVersion
          (hVerdict.score score hScore)).mpr (by decide)
        refine ⟨?merged, bind_eq_ok.mpr ⟨_, hMerged, bind_eq_ok.mpr ⟨_, hWorkspace, ?scored⟩⟩⟩
        case scored =>
          simp only [hScore]
          refine bind_eq_ok.mpr ⟨_, Checked.construct_eq_ok hCheck, ?_⟩
          rfl

end TemReport

/-! ## The run -/

theorem TemGroup.passed_counts (group : TemGroup) :
    group.counts.passed = group.inputs.passed ∧ group.counts.total = group.inputs.total := by
  rw [TemGroup.counts, TemGroup.inputs, countsFrom, foldl_readCount, foldl_keepInput]
  exact ⟨rfl, rfl⟩

theorem scoredCounts_sound {groups : List TemGroup} {item : ComponentCounts}
    (h : item ∈ scoredCounts groups) :
    (0 ≤ item.passed ∧ item.passed ≤ item.total) ∧ ∃ group ∈ groups, item.name = group.label := by
  obtain ⟨group, hGroup, rfl⟩ := mem_map.mp h
  obtain ⟨hMem, hScored⟩ := mem_filter.mp hGroup
  obtain ⟨hPassed, hTotal⟩ := group.passed_counts
  have hCounts := (of_decide_eq_true hScored).1
  simp only [TemInputs.CountsRefused, not_or, not_lt] at hCounts
  refine ⟨by omega, group, hMem, ?_⟩
  rw [TemGroup.counts, countsFrom, foldl_readCount]

def sortedGroups (observations : List Observation) : List TemGroup :=
  (temGroups observations).insertionSort (·.1 ≤ ·.1)

/-- Every component's evidence is told, and where several are scored they merge. -/
structure HasTem (observations : List Observation) : Prop where
  components : ∀ group ∈ temGroups observations, TemGroup.IsTold group
  workspace : 1 < (scoredCounts (sortedGroups observations)).length →
    TemReport.Merges (scoredCounts (sortedGroups observations))

theorem exists_temMetrics_iff {observations : List Observation} :
    (∃ told, temMetrics observations = .ok told) ↔ HasTem observations := by
  have hGroups : (∃ report, (sortedGroups observations).foldlM addComponent {} = .ok report) ↔
      ∀ group ∈ temGroups observations, TemGroup.IsTold group := by
    rw [exists_foldlM_iff TemGroup.IsTold fun report group _ =>
      exists_addComponent_iff report group]
    exact forall_congr' fun group => by rw [sortedGroups, mem_insertionSort]
  have hWorkspace {report : TemReport}
      (h : (sortedGroups observations).foldlM addComponent {} = .ok report) :
      (∃ told, report.addWorkspace = .ok told) ↔ (1 < (scoredCounts (sortedGroups observations)).length →
          TemReport.Merges (scoredCounts (sortedGroups observations))) := by
    have hComponents := (addComponents_ok h).1
    rw [nil_append] at hComponents
    rw [exists_addWorkspace_iff, hComponents]
    intro item hItem
    rw [hComponents] at hItem
    exact (scoredCounts_sound hItem).1
  unfold temMetrics temScores
  constructor
  · rintro ⟨told, h⟩
    obtain ⟨report, hReport, hTold⟩ := bind_eq_ok.mp h
    exact ⟨hGroups.mp ⟨report, hReport⟩, (hWorkspace hReport).mp ⟨told, hTold⟩⟩
  · intro h
    obtain ⟨report, hReport⟩ := hGroups.mpr h.components
    obtain ⟨told, hTold⟩ := (hWorkspace hReport).mpr h.workspace
    exact ⟨told, bind_eq_ok.mpr ⟨report, hReport, hTold⟩⟩

theorem isSpace_of_isIdentifierChar {c : CodePoint} (h : isIdentifierChar c = true) : isSpace c = false := by
  simp only [isIdentifierChar, Bool.or_eq_true, beq_iff_eq] at h
  rcases h with ((hAlnum | hDot) | hLow) | hDash
  · exact isSpace_of_isLowerAlnum hAlnum
  · simp [isSpace, hDot]
  · simp [isSpace, hLow]
  · simp [isSpace, hDash]

theorem isText_of_identifierChars {t : Text} (hNe : t ≠ []) (h : t.all isIdentifierChar = true) :
    IsText t := by
  have hVisible : ∀ c ∈ t, isSpace c = false := fun c hc =>
    isSpace_of_isIdentifierChar (all_eq_true.mp h c hc)
  exact ⟨hNe, fun _ => hVisible _ (head_mem hNe), fun _ => hVisible _ (getLast_mem hNe)⟩

theorem componentOf_prefix (taskId : Text) : componentOf taskId <+: taskId := by
  unfold componentOf
  split
  · rename_i hPython
    obtain ⟨rest, hRest⟩ := before?_eq_some hPython
    exact ⟨_, by rw [hRest, append_assoc]⟩
  · rename_i hCpp
    obtain ⟨rest, hRest⟩ := before?_eq_some hCpp
    exact ⟨_, by rw [hRest, append_assoc]⟩
  · exact nil_prefix

theorem isText_label {observations : List Observation} {group : TemGroup} (h : group ∈ temGroups observations) :
    IsText group.label := by
  unfold TemGroup.label
  split
  · decide
  · rename_i hNe
    apply isText_of_identifierChars hNe
    obtain ⟨origin, hOrigin, rfl⟩ := mem_map.mp h
    obtain ⟨observation, -, hName⟩ := (Dict.mem_keys_groupBy _).mp (mem_map_of_mem hOrigin)
    have hId : IsIdentifier observation.val.taskId :=
      (ObservationFields.check_eq_ok_iff.mp observation.property).1
    have hPrefix : origin.1 <+: observation.val.taskId := hName ▸ componentOf_prefix _
    exact all_eq_true.mpr fun c hc => all_eq_true.mp hId.all c (hPrefix.subset hc)

theorem isText_temMetrics {observations : List Observation} {told : List Measurement × List Text}
    (h : temMetrics observations = .ok told) : ∀ limitation ∈ told.2, IsText limitation := by
  obtain ⟨report, hReport, hTold⟩ := bind_eq_ok.mp h
  have hGroup : ∀ group ∈ sortedGroups observations, IsText group.label := fun group hGroup =>
    isText_label ((mem_insertionSort _).mp hGroup)
  obtain ⟨hComponents, hLimitations⟩ := addComponents_ok hReport
  rw [nil_append] at hComponents
  intro limitation hMem
  rcases (addWorkspace_ok hTold).2 limitation hMem with hOld | ⟨rest, hRest, rfl | ⟨item, hItem, rfl⟩⟩
  · rcases hLimitations limitation hOld with hNone | ⟨group, hIn, rest, hRest, rfl⟩
    · exact nomatch hNone
    · exact isText_append (hGroup group hIn) hRest
  · exact isText_append (by decide) hRest
  · rw [hComponents] at hItem
    obtain ⟨group, hIn, hName⟩ := (scoredCounts_sound hItem).2
    rw [hName]
    exact isText_append (hGroup group hIn) hRest

end Ici
