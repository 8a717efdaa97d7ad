import Ici.Application.Tem
import Ici.Library.LastWrite

/-! # What TEM depends on

A later coverage measurement of a kind replaces an earlier one, and merging sums the numerators and the
denominators that are there. -/

namespace Ici

open List Python Library ComponentCounts

def isCoverage (item : Measurement) : Bool :=
  isCoverageOf (py "lines") item || isCoverageOf (py "branches") item || isCoverageOf (py "functions") item

theorem isCoverageOf_iff {kind : Text} {item : Measurement} : isCoverageOf kind item = true ↔
      item.val.name = py "coverage." ++ kind ∨ item.val.name = py "coverage.cpp." ++ kind := by
  simp [isCoverageOf]

theorem kinds_disjoint (item : Measurement) : (isCases item = true → isCoverage item = false) ∧
      (isCoverageOf (py "lines") item = true →
        isCoverageOf (py "branches") item = false ∧ isCoverageOf (py "functions") item = false) ∧
      (isCoverageOf (py "branches") item = true → isCoverageOf (py "functions") item = false) := by
  have hNames : ∀ name ∈ [py "coverage.lines", py "coverage.cpp.lines", py "coverage.branches",
      py "coverage.cpp.branches", py "coverage.functions", py "coverage.cpp.functions"],
      endsWith (py ".cases") name = false := by decide +kernel
  refine ⟨fun h => ?_, fun h => ?_, fun h => ?_⟩
  · rw [isCases, Bool.and_eq_true] at h
    have hNot (name : Text) (hIn : name ∈ [py "coverage.lines", py "coverage.cpp.lines",
        py "coverage.branches", py "coverage.cpp.branches", py "coverage.functions",
        py "coverage.cpp.functions"]) : item.val.name ≠ name := by
      rintro hName
      rw [hName, hNames name hIn] at h
      exact nomatch h.1
    simp only [mem_cons, not_mem_nil, or_false] at hNot
    simp only [isCoverage, isCoverageOf, Bool.or_eq_false_iff, decide_eq_false_iff_not]
    exact ⟨⟨⟨hNot _ (by decide), hNot _ (by decide)⟩, hNot _ (by decide), hNot _ (by decide)⟩,
      hNot _ (by decide), hNot _ (by decide)⟩
  all_goals
    rcases isCoverageOf_iff.mp h with hName | hName <;>
      simp only [isCoverageOf, hName] <;> decide

/-! ## The counts -/

def caseSums (measurements : List Measurement) : ℤ × ℤ :=
  (((measurements.filter isCases).map (·.val.numerator.getD 0)).sum,
    ((measurements.filter isCases).map (·.val.denominator.getD 0)).sum)

variable {measurements other : List Measurement} {name : Text}

theorem caseSums_perm (h : other.Perm measurements) : caseSums other = caseSums measurements := by
  have hCases := h.filter isCases
  rw [caseSums, caseSums, (hCases.map _).sum_eq, (hCases.map _).sum_eq]

def lastPair (kind : Text) (start : Option ℤ × Option ℤ) (measurements : List Measurement) :
    Option ℤ × Option ℤ :=
  lastWrite (isCoverageOf kind) (fun item => (item.val.numerator, item.val.denominator)) start measurements

theorem foldl_readCount (measurements : List Measurement) (counts : ComponentCounts) :
    measurements.foldl readCount counts = {
      name := counts.name
      passed := counts.passed + (caseSums measurements).1
      total := counts.total + (caseSums measurements).2
      coveredLines := (lastPair (py "lines") counts.lines measurements).1
      totalLines := (lastPair (py "lines") counts.lines measurements).2
      coveredBranches := (lastPair (py "branches") counts.branches measurements).1
      totalBranches := (lastPair (py "branches") counts.branches measurements).2
      coveredFunctions := (lastPair (py "functions") counts.functions measurements).1
      totalFunctions := (lastPair (py "functions") counts.functions measurements).2 } := by
  induction measurements generalizing counts with
  | nil => simp [caseSums, lastPair, lines, branches,
    functions]
  | cons item rest ih =>
    obtain ⟨hCases, hLines, hBranches⟩ := kinds_disjoint item
    rw [foldl_cons, ih]
    unfold readCount
    split
    · rename_i hItem
      have hNot := hCases hItem
      simp only [isCoverage, Bool.or_eq_false_iff] at hNot
      simp only [caseSums, filter_cons, hItem, lastPair, lastWrite_cons, hNot, if_true, map_cons,
        sum_cons, lines, branches, functions,
        Bool.false_eq_true, if_false, add_assoc]
    · rename_i hItem
      have hSums : caseSums (item :: rest) = caseSums rest := by
        rw [caseSums, filter_cons_of_neg hItem, caseSums]
      rw [hSums]
      split_ifs with hFirst hSecond hThird
      · simp only [lastPair, lastWrite_cons, hFirst, hLines hFirst, if_true, Bool.false_eq_true, if_false,
          lines, branches, functions]
      · simp only [lastPair, lastWrite_cons, hSecond, hBranches hSecond, hFirst, if_true, Bool.false_eq_true,
          if_false, lines, branches, functions]
      · simp only [lastPair, lastWrite_cons, hThird, hFirst, hSecond, if_true, Bool.false_eq_true, if_false,
          lines, branches, functions]
      · simp only [lastPair, lastWrite_cons, hThird, hFirst, hSecond, Bool.false_eq_true, if_false]

def coverageKinds : List Text := [py "lines", py "branches", py "functions"]

theorem forall_kind_iff {P : Text → Prop} :
    (∀ kind ∈ coverageKinds, P kind) ↔ P (py "lines") ∧ P (py "branches") ∧ P (py "functions") := by
  simp only [coverageKinds, forall_mem_cons, not_mem_nil, false_imp_iff, implies_true, and_true]

def countsOf (item : Measurement) : Option ℤ × Option ℤ := (item.val.numerator, item.val.denominator)

theorem countsFrom_eq_iff (hPerm : other.Perm measurements) :
    countsFrom name other = countsFrom name measurements ↔
      ∀ kind ∈ coverageKinds, lastPair kind (none, none) other = lastPair kind (none, none) measurements := by
  rw [countsFrom, countsFrom, foldl_readCount, foldl_readCount, caseSums_perm hPerm, forall_kind_iff]
  simp only [lines, branches, functions, mk.injEq, Prod.ext_iff, true_and]
  tauto

theorem countsFrom_perm_iff : (∀ other : List Measurement, other.Perm measurements →
        countsFrom name other = countsFrom name measurements) ↔
      ∀ kind ∈ coverageKinds, ∀ a ∈ measurements, ∀ b ∈ measurements,
        isCoverageOf kind a = true → isCoverageOf kind b = true → countsOf a = countsOf b := by
  have hLast (kind : Text) := @lastWrite_perm_iff _ _ (isCoverageOf kind) countsOf (none, none) measurements
  constructor
  · intro h kind hKind
    exact (hLast kind).mp fun other hPerm => (countsFrom_eq_iff hPerm).mp (h other hPerm) kind hKind
  · intro h other hPerm
    exact (countsFrom_eq_iff hPerm).mpr fun kind hKind => (hLast kind).mpr (h kind hKind) other hPerm

/-! ## The percentages -/

def carriesRatio (item : Measurement) : Bool :=
  item.val.numerator.isSome && item.val.denominator.any (· ≠ 0)

def ratioOverflows (item : Measurement) : Bool :=
  match item.val.numerator, item.val.denominator with
  | some numerator, some denominator =>
    denominator ≠ 0 && !(Double.ofRat (numerator / denominator)).val.isFinite
  | _, _ => false

def ratioTooLarge : PyError := ⟨py "OverflowError", py "integer division result too large for a float"⟩

def percentValue (item : Measurement) : Double :=
  match item.val.numerator, item.val.denominator with
  | some numerator, some denominator =>
    if denominator = 0 then item.val.value
    else (Double.ofRat (numerator / denominator)).mul (.ofRat 100)
  | _, _ => item.val.value

theorem coveragePercent_eq (item : Measurement) : coveragePercent item =
      if ratioOverflows item then .error ratioTooLarge else .ok (percentValue item) := by
  unfold coveragePercent ratioOverflows percentValue
  cases item.val.numerator with
  | none => rfl
  | some numerator =>
    cases item.val.denominator with
    | none => rfl
    | some denominator =>
      dsimp only
      by_cases hZero : denominator = 0
      · simp [hZero]
      · simp only [hZero, if_false, Double.trueDiv, ne_eq, not_false_eq_true, decide_true, Bool.true_and]
        cases (Double.ofRat (numerator / denominator)).val.isFinite <;> rfl

theorem percentValue_eq_iff {a b : Measurement} (h : countsOf a = countsOf b) :
    percentValue a = percentValue b ↔ carriesRatio a = true ∨ a.val.value = b.val.value := by
  obtain ⟨hNumerator, hDenominator⟩ := Prod.mk.inj h
  unfold percentValue carriesRatio
  rw [← hNumerator, ← hDenominator]
  cases a.val.numerator with
  | none => simp
  | some numerator =>
    cases a.val.denominator with
    | none => simp
    | some denominator =>
      by_cases hZero : denominator = 0 <;> simp [hZero]

/-- `readInput` where no ratio overflows. -/
def keepInput (inputs : TemInputs) (item : Measurement) : TemInputs :=
  if isCases item then
    { inputs with
      passed := inputs.passed + item.val.numerator.getD 0
      total := inputs.total + item.val.denominator.getD 0 }
  else if isCoverageOf (py "lines") item then { inputs with lineCoverage := some (percentValue item) }
  else if isCoverageOf (py "branches") item then { inputs with branchCoverage := some (percentValue item) }
  else if isCoverageOf (py "functions") item then { inputs with functionCoverage := some (percentValue item) }
  else inputs

def refusedInput (item : Measurement) : Bool := isCoverage item && ratioOverflows item

theorem readInput_eq (inputs : TemInputs) (item : Measurement) : readInput inputs item =
      if refusedInput item then .error ratioTooLarge else .ok (keepInput inputs item) := by
  have hCases := (kinds_disjoint item).1
  unfold readInput keepInput refusedInput
  rw [coveragePercent_eq]
  split
  · rename_i hItem
    rw [hCases hItem]
    rfl
  · unfold isCoverage
    cases isCoverageOf (py "lines") item <;> cases isCoverageOf (py "branches") item <;>
      cases isCoverageOf (py "functions") item <;> cases ratioOverflows item <;> rfl

def lastPercent (kind : Text) (start : Option Double) (measurements : List Measurement) : Option Double :=
  lastWrite (isCoverageOf kind) (fun item => some (percentValue item)) start measurements

theorem foldl_keepInput (measurements : List Measurement) (inputs : TemInputs) :
    measurements.foldl keepInput inputs = {
      passed := inputs.passed + (caseSums measurements).1
      total := inputs.total + (caseSums measurements).2
      lineCoverage := lastPercent (py "lines") inputs.lineCoverage measurements
      branchCoverage := lastPercent (py "branches") inputs.branchCoverage measurements
      functionCoverage := lastPercent (py "functions") inputs.functionCoverage measurements
      estimatedCoverage := inputs.estimatedCoverage } := by
  induction measurements generalizing inputs with
  | nil => simp [caseSums, lastPercent]
  | cons item rest ih =>
    obtain ⟨hCases, hLines, hBranches⟩ := kinds_disjoint item
    rw [foldl_cons, ih]
    unfold keepInput
    split
    · rename_i hItem
      have hNot := hCases hItem
      simp only [isCoverage, Bool.or_eq_false_iff] at hNot
      simp only [caseSums, filter_cons, hItem, lastPercent, lastWrite_cons, hNot, if_true, map_cons,
        sum_cons, Bool.false_eq_true, if_false, add_assoc]
    · rename_i hItem
      have hSums : caseSums (item :: rest) = caseSums rest := by
        rw [caseSums, filter_cons_of_neg hItem, caseSums]
      rw [hSums]
      split_ifs with hFirst hSecond hThird
      · simp only [lastPercent, lastWrite_cons, hFirst, hLines hFirst, if_true, Bool.false_eq_true, if_false]
      · simp only [lastPercent, lastWrite_cons, hSecond, hBranches hSecond, hFirst, if_true,
          Bool.false_eq_true, if_false]
      all_goals simp only [lastPercent, lastWrite_cons, hThird, hFirst, hSecond, if_true, Bool.false_eq_true,
        if_false]

theorem inputsFrom_eq (measurements : List Measurement) : inputsFrom measurements =
      if measurements.any refusedInput then .error ratioTooLarge
      else .ok (measurements.foldl keepInput {}) :=
  foldlM_eq_ite readInput_eq measurements {}

theorem inputsFrom_eq_iff (hPerm : other.Perm measurements) : inputsFrom other = inputsFrom measurements ↔
      measurements.any refusedInput = true ∨
        ∀ kind ∈ coverageKinds, lastPercent kind none other = lastPercent kind none measurements := by
  have hAny : other.any refusedInput = measurements.any refusedInput := by
    rw [Bool.eq_iff_iff, any_eq_true, any_eq_true]
    exact exists_congr fun item => and_congr_left' hPerm.mem_iff
  rw [inputsFrom_eq, inputsFrom_eq, hAny]
  cases measurements.any refusedInput with
  | true => exact iff_of_true rfl (.inl rfl)
  | false =>
    rw [if_neg Bool.false_ne_true, if_neg Bool.false_ne_true, foldl_keepInput, foldl_keepInput,
      caseSums_perm hPerm, forall_kind_iff, Except.ok.injEq, TemInputs.mk.injEq]
    simp only [true_and, and_true, Bool.false_eq_true, false_or]

/-- The same inputs and the same counts in every order of the measurements. -/
def OrderFree (measurements : List Measurement) : Prop :=
  ∀ other : List Measurement, other.Perm measurements → inputsFrom other = inputsFrom measurements ∧
      ∀ name, countsFrom name other = countsFrom name measurements

/-- Coverage of one kind is measured once, or each time with the same counts; where these give no ratio,
with the same value, unless the run fails on a ratio too large for a float. -/
def CoverageAgrees (measurements : List Measurement) : Prop :=
  ∀ kind ∈ coverageKinds, ∀ a ∈ measurements, ∀ b ∈ measurements,
    isCoverageOf kind a = true → isCoverageOf kind b = true → countsOf a = countsOf b ∧
        (carriesRatio a = true ∨ a.val.value = b.val.value ∨
          ∃ c ∈ measurements, isCoverage c = true ∧ ratioOverflows c = true)

theorem orderFree_iff (measurements : List Measurement) :
    OrderFree measurements ↔ CoverageAgrees measurements := by
  have hRefused : measurements.any refusedInput = true ↔
      ∃ c ∈ measurements, isCoverage c = true ∧ ratioOverflows c = true := by
    simp only [any_eq_true, refusedInput, Bool.and_eq_true]
  have hLast (kind : Text) := @lastWrite_perm_iff _ _ (isCoverageOf kind)
    (fun item => some (percentValue item)) none measurements
  constructor
  · intro h kind hKind a ha b hb hKindA hKindB
    have hCounts := countsFrom_perm_iff.mp (fun other hPerm => (h other hPerm).2 []) kind hKind a ha b hb
      hKindA hKindB
    refine ⟨hCounts, ?_⟩
    by_cases hAny : measurements.any refusedInput = true
    · exact .inr (.inr (hRefused.mp hAny))
    · have hPercents := (hLast kind).mp fun other hPerm =>
        ((inputsFrom_eq_iff hPerm).mp (h other hPerm).1).resolve_left hAny kind hKind
      have hSame := (percentValue_eq_iff hCounts).mp (Option.some_inj.mp (hPercents a ha b hb hKindA hKindB))
      exact hSame.imp_right .inl
  · intro h other hPerm
    refine ⟨(inputsFrom_eq_iff hPerm).mpr ?_, fun name => ?_⟩
    · by_cases hAny : measurements.any refusedInput = true
      · exact .inl hAny
      · refine .inr fun kind hKind => (hLast kind).mpr (fun a ha b hb hKindA hKindB => ?_) other hPerm
        obtain ⟨hCounts, hValue⟩ := h kind hKind a ha b hb hKindA hKindB
        rw [(percentValue_eq_iff hCounts).mpr]
        rcases hValue with hRatio | hSame | hOverflow
        · exact .inl hRatio
        · exact .inr hSame
        · exact absurd (hRefused.mpr hOverflow) hAny
    · exact countsFrom_perm_iff.mpr (fun kind hKind a ha b hb hKindA hKindB =>
        (h kind hKind a ha b hb hKindA hKindB).1) other hPerm

end Ici
