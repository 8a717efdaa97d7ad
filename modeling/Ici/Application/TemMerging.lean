import Ici.Application.TemOrder

/-! # Merging the counts of components -/

namespace Ici

open List Raising Python

/-! ## Sums over the components that have both counts -/

section

variable (pair : Option ℤ × Option ℤ)

def suppliesBoth : Bool := pair.1.isSome && pair.2.isSome

structure SumsOverBoth (pairs : List (Option ℤ × Option ℤ)) : Prop where
  both : sums pairs = sums (pairs.filter suppliesBoth)
  outside : ∀ front pair back, pairs = front ++ pair :: back → suppliesBoth pair = false →
    sums (front ++ back) = sums pairs

def UnpairedZero : Prop :=
  (pair.2 = none → pair.1.getD 0 = 0) ∧ (pair.1 = none → pair.2.getD 0 = 0)

def PairNonneg : Prop := (∀ n ∈ pair.1, 0 ≤ n) ∧ ∀ n ∈ pair.2, 0 ≤ n

theorem sums_cons (pairs : List (Option ℤ × Option ℤ)) :
    sums (pair :: pairs) = (pair.1.getD 0 + (sums pairs).1, pair.2.getD 0 + (sums pairs).2) := by
  obtain ⟨covered, total⟩ := pair
  cases covered <;> cases total <;> simp [sums]

end

theorem sums_append (front back : List (Option ℤ × Option ℤ)) :
    sums (front ++ back) = ((sums front).1 + (sums back).1, (sums front).2 + (sums back).2) := by
  simp [sums]

variable {pairs : List (Option ℤ × Option ℤ)} {components : List ComponentCounts}

theorem sums_nonneg (h : ∀ pair ∈ pairs, PairNonneg pair) : 0 ≤ (sums pairs).1 ∧ 0 ≤ (sums pairs).2 := by
  induction pairs with
  | nil => exact ⟨le_rfl, le_rfl⟩
  | cons pair pairs ih =>
    obtain ⟨hFirst, hSecond⟩ := ih fun other hOther => h other (mem_cons_of_mem _ hOther)
    obtain ⟨hCovered, hTotal⟩ := h pair mem_cons_self
    rw [sums_cons]
    have hGet (count : Option ℤ) (hCount : ∀ n ∈ count, 0 ≤ n) : 0 ≤ count.getD 0 := by
      cases count with
      | none => exact le_rfl
      | some n => exact hCount n rfl
    exact ⟨add_nonneg (hGet _ hCovered) hFirst, add_nonneg (hGet _ hTotal) hSecond⟩

theorem unpairedZero_iff {pair : Option ℤ × Option ℤ} :
    UnpairedZero pair ↔ (suppliesBoth pair = false → pair.1.getD 0 = 0 ∧ pair.2.getD 0 = 0) := by
  obtain ⟨covered, total⟩ := pair
  cases covered <;> cases total <;> simp [UnpairedZero, suppliesBoth]

theorem sumsOverBoth_iff : SumsOverBoth pairs ↔ ∀ pair ∈ pairs, UnpairedZero pair := by
  constructor
  · intro h pair hPair
    refine unpairedZero_iff.mpr fun hOne => ?_
    obtain ⟨front, back, rfl⟩ := append_of_mem hPair
    have hOutside := h.outside front pair back rfl hOne
    simp only [sums_append, sums_cons, Prod.mk.injEq] at hOutside
    omega
  · intro h
    have hZero (pair : Option ℤ × Option ℤ) (hPair : pair ∈ pairs) := unpairedZero_iff.mp (h pair hPair)
    refine ⟨?_, ?_⟩
    · clear h
      induction pairs with
      | nil => rfl
      | cons pair pairs ih =>
        have hRest := ih fun other hOther => hZero other (mem_cons_of_mem _ hOther)
        by_cases hBoth : suppliesBoth pair = true
        · rw [filter_cons_of_pos hBoth, sums_cons, sums_cons, hRest]
        · obtain ⟨hCovered, hTotal⟩ := hZero pair mem_cons_self (by simpa using hBoth)
          rw [filter_cons_of_neg hBoth, sums_cons, hCovered, hTotal, zero_add, zero_add, ← hRest]
    · rintro front pair back rfl hOne
      obtain ⟨hCovered, hTotal⟩ := hZero pair (by simp) hOne
      rw [sums_append, sums_append, sums_cons, hCovered, hTotal, zero_add, zero_add]

/-! ## The percentages of the merge -/

namespace ComponentCounts

def IsCounts (counts : ComponentCounts) : Prop :=
  PairNonneg counts.lines ∧ PairNonneg counts.branches ∧ PairNonneg counts.functions

def PairWithin (pair : Option ℤ × Option ℤ) : Prop :=
  ∀ covered ∈ pair.1, ∀ total ∈ pair.2, covered ≤ total

def WithinTotals (counts : ComponentCounts) : Prop :=
  PairWithin counts.lines ∧ PairWithin counts.branches ∧ PairWithin counts.functions

end ComponentCounts

def mergedOf (components : List ComponentCounts) : List ComponentCounts := components.filter (·.mergeable)

def IsPercent (percent : Double) : Prop := ∃ r, percent.val = .fin r ∧ 0 ≤ r ∧ r ≤ 100

/-- Each percentage is taken over exactly the merged components with both counts. -/
structure MergeExact (components : List ComponentCounts) : Prop where
  lines : SumsOverBoth ((mergedOf components).map (·.lines))
  branches : SumsOverBoth ((mergedOf components).map (·.branches))
  reported : ∀ inputs excluded, aggregate components = .ok (inputs, excluded) →
    percentOf (((mergedOf components).map (·.lines)).filter suppliesBoth) = .ok inputs.lineCoverage ∧
      percentOf (((mergedOf components).map (·.branches)).filter suppliesBoth) = .ok inputs.branchCoverage ∧
      ∀ percent, inputs.functionCoverage = some percent →
        SumsOverBoth ((mergedOf components).map (·.functions)) ∧
          percentOf (((mergedOf components).map (·.functions)).filter suppliesBoth) = .ok (some percent)
  bounded : (∀ counts ∈ components, counts.WithinTotals) → ∀ inputs excluded,
    aggregate components = .ok (inputs, excluded) →
      ∀ coverage ∈ [inputs.lineCoverage, inputs.branchCoverage, inputs.functionCoverage],
        ∀ percent ∈ coverage, IsPercent percent

theorem percentOf_filter (h : SumsOverBoth pairs) :
    percentOf (pairs.filter suppliesBoth) = percentOf pairs := by
  rw [percentOf, percentOf, h.both]

theorem isPercent_of_percentOf {percent : Double}
    (hCounts : ∀ pair ∈ pairs, PairNonneg pair) (hWithin : ∀ pair ∈ pairs, ComponentCounts.PairWithin pair)
    (h : percentOf (pairs.filter suppliesBoth) = .ok (some percent)) : IsPercent percent := by
  have hLe : ∀ kept : List (Option ℤ × Option ℤ), (∀ pair ∈ kept, suppliesBoth pair = true) →
      (∀ pair ∈ kept, ComponentCounts.PairWithin pair) → (sums kept).1 ≤ (sums kept).2 := by
    intro kept hBoth hKept
    induction kept with
    | nil => exact le_rfl
    | cons pair kept ih =>
      have hRest := ih (fun other hOther => hBoth other (mem_cons_of_mem _ hOther))
        fun other hOther => hKept other (mem_cons_of_mem _ hOther)
      have hPair := hBoth pair mem_cons_self
      have hPairWithin := hKept pair mem_cons_self
      obtain ⟨_ | covered, _ | total⟩ := pair
      · exact nomatch hPair
      · exact nomatch hPair
      · exact nomatch hPair
      · rw [sums_cons]
        exact add_le_add (hPairWithin covered rfl total rfl) hRest
  rw [percentOf] at h
  split at h
  · exact nomatch h
  · obtain ⟨ratio, hRatio, hPercent⟩ := map_eq_ok.mp h
    obtain rfl := Option.some_inj.mp hPercent
    refine Double.trueDiv_percent_mem_Icc
      (sums_nonneg fun pair hPair => hCounts pair (mem_of_mem_filter hPair)).1 ?_ hRatio
    exact hLe _ (fun pair hPair => (mem_filter.mp hPair).2)
      fun pair hPair => hWithin pair (mem_of_mem_filter hPair)

/-- What `aggregate` returns. -/
theorem aggregate_eq_ok {inputs : TemInputs} {excluded : List Text}
    (h : aggregate components = .ok (inputs, excluded)) :
    percentOf ((mergedOf components).map (·.lines)) = .ok inputs.lineCoverage ∧
      percentOf ((mergedOf components).map (·.branches)) = .ok inputs.branchCoverage ∧
      ∀ percent, inputs.functionCoverage = some percent →
        (∀ counts ∈ mergedOf components, suppliesBoth counts.functions = true) ∧
          percentOf ((mergedOf components).map (·.functions)) = .ok (some percent) := by
  unfold aggregate at h
  dsimp only at h
  rw [show components.filter (·.mergeable) = mergedOf components from rfl] at h
  split at h
  · rename_i hNone
    obtain ⟨rfl, -⟩ := Prod.mk.inj (Except.ok.inj h)
    rw [hNone]
    exact ⟨rfl, rfl, fun percent hPercent => nomatch hPercent⟩
  · obtain ⟨lineCoverage, hLines, h⟩ := bind_eq_ok.mp h
    obtain ⟨branchCoverage, hBranches, h⟩ := bind_eq_ok.mp h
    split at h
    · rename_i hAll
      obtain ⟨functionCoverage, hFunctions, h⟩ := bind_eq_ok.mp h
      obtain ⟨rfl, -⟩ := Prod.mk.inj (Except.ok.inj h)
      refine ⟨hLines, hBranches, fun percent hPercent => ⟨?_, hFunctions.trans (congrArg _ hPercent)⟩⟩
      exact all_eq_true.mp hAll
    · obtain ⟨rfl, -⟩ := Prod.mk.inj (Except.ok.inj h)
      exact ⟨hLines, hBranches, fun percent hPercent => nomatch hPercent⟩

theorem sumsOverBoth_of_all (h : ∀ pair ∈ pairs, suppliesBoth pair = true) : SumsOverBoth pairs :=
  sumsOverBoth_iff.mpr fun pair hPair => unpairedZero_iff.mpr fun hOne =>
    absurd ((h pair hPair).symm.trans hOne) Bool.noConfusion

theorem forall_merged_iff {P : Option ℤ × Option ℤ → Prop} {counts : ComponentCounts → Option ℤ × Option ℤ} :
    (∀ pair ∈ (mergedOf components).map counts, P pair) ↔
      ∀ item ∈ components, item.mergeable = true → P (counts item) := by
  simp only [mergedOf, forall_mem_map, mem_filter, and_imp]

/-- No merged component has covered lines or branches of no total, or a total without the covered. -/
def CountsPaired (components : List ComponentCounts) : Prop :=
  ∀ counts ∈ components, counts.mergeable = true → UnpairedZero counts.lines ∧ UnpairedZero counts.branches

theorem mergeExact_iff (hCounts : ∀ counts ∈ components, counts.IsCounts) :
    MergeExact components ↔ CountsPaired components := by
  have hPaired : CountsPaired components ↔ SumsOverBoth ((mergedOf components).map (·.lines)) ∧
      SumsOverBoth ((mergedOf components).map (·.branches)) := by
    rw [sumsOverBoth_iff, sumsOverBoth_iff, forall_merged_iff, forall_merged_iff]
    exact ⟨fun h => ⟨fun item hItem hMerged => (h item hItem hMerged).1,
      fun item hItem hMerged => (h item hItem hMerged).2⟩,
      fun h item hItem hMerged => ⟨h.1 item hItem hMerged, h.2 item hItem hMerged⟩⟩
  rw [hPaired]
  refine ⟨fun h => ⟨h.lines, h.branches⟩, fun ⟨hLines, hBranches⟩ => ?_⟩
  have hReported (inputs : TemInputs) (excluded : List Text)
      (h : aggregate components = .ok (inputs, excluded)) :
      percentOf (((mergedOf components).map (·.lines)).filter suppliesBoth) = .ok inputs.lineCoverage ∧
        percentOf (((mergedOf components).map (·.branches)).filter suppliesBoth) =
          .ok inputs.branchCoverage ∧
        ∀ percent, inputs.functionCoverage = some percent →
          SumsOverBoth ((mergedOf components).map (·.functions)) ∧
            percentOf (((mergedOf components).map (·.functions)).filter suppliesBoth) =
              .ok (some percent) := by
    obtain ⟨hLine, hBranch, hFunction⟩ := aggregate_eq_ok h
    refine ⟨(percentOf_filter hLines).trans hLine, (percentOf_filter hBranches).trans hBranch,
      fun percent hPercent => ?_⟩
    obtain ⟨hAll, hFunctions⟩ := hFunction percent hPercent
    have hOver : SumsOverBoth ((mergedOf components).map (·.functions)) :=
      sumsOverBoth_of_all fun pair hPair => by
        obtain ⟨counts, hMerged, rfl⟩ := mem_map.mp hPair
        exact hAll counts hMerged
    exact ⟨hOver, (percentOf_filter hOver).trans hFunctions⟩
  refine ⟨hLines, hBranches, hReported, fun hWithin inputs excluded h => ?_⟩
  obtain ⟨hLine, hBranch, hFunction⟩ := hReported inputs excluded h
  intro coverage hCoverage percent hPercent
  simp only [mem_cons, not_mem_nil, or_false] at hCoverage
  rcases hCoverage with rfl | rfl | rfl
  · refine isPercent_of_percentOf (forall_merged_iff.mpr fun item hItem _ => (hCounts item hItem).1)
      (forall_merged_iff.mpr fun item hItem _ => (hWithin item hItem).1) (hLine.trans ?_)
    rw [hPercent]
  · refine isPercent_of_percentOf (forall_merged_iff.mpr fun item hItem _ => (hCounts item hItem).2.1)
      (forall_merged_iff.mpr fun item hItem _ => (hWithin item hItem).2.1) (hBranch.trans ?_)
    rw [hPercent]
  · exact isPercent_of_percentOf (forall_merged_iff.mpr fun item hItem _ => (hCounts item hItem).2.2)
      (forall_merged_iff.mpr fun item hItem _ => (hWithin item hItem).2.2) (hFunction percent hPercent).2

theorem isCounts_countsFrom (name : Text) (measurements : List Measurement) :
    (countsFrom name measurements).IsCounts := by
  have hLast (kind : Text) : PairNonneg (lastPair kind (none, none) measurements) := by
    by_cases hWritten : ∃ a ∈ measurements, isCoverageOf kind a = true
    · obtain ⟨a, ha, hKind⟩ := hWritten
      obtain ⟨b, -, -, hEq⟩ := Library.exists_lastWrite_eq ha hKind
      rw [lastPair, hEq]
      obtain ⟨-, -, hNumerator, hDenominator, -⟩ := MeasurementFields.check_eq_ok_iff.mp b.property
      exact ⟨hNumerator, hDenominator⟩
    · rw [lastPair, Library.lastWrite_of_forall_not fun a ha =>
        Bool.eq_false_iff.mpr fun hKind => hWritten ⟨a, ha, hKind⟩]
      simp [PairNonneg]
  rw [countsFrom, foldl_readCount]
  exact ⟨hLast (py "lines"), hLast (py "branches"), hLast (py "functions")⟩

theorem tem_of_evidence_iff (measurements : List Measurement) (components : List ComponentCounts)
    (hCounts : ∀ counts ∈ components, counts.IsCounts) :
    OrderFree measurements ∧ MergeExact components ↔
      CoverageAgrees measurements ∧ CountsPaired components := by
  rw [orderFree_iff, mergeExact_iff hCounts]

def pairMeasurement (name : Text) (numerator : ℤ) (denominator : ℤ) : MeasurementFields where
  name := name
  value := .zero
  numerator := some numerator
  denominator := some denominator

def pythonLines : Measurement := ⟨pairMeasurement (py "coverage.lines") 5 10, by decide +kernel⟩

def cppLines : Measurement := ⟨pairMeasurement (py "coverage.cpp.lines") 9 10, by decide +kernel⟩

theorem tem_of_evidence_python : OrderFree [pythonLines] ∧ MergeExact [countsFrom (py "app") [pythonLines]] :=
  (tem_of_evidence_iff [pythonLines] [countsFrom (py "app") [pythonLines]] (by
    simp only [forall_mem_cons, not_mem_nil, false_imp_iff, implies_true, and_true]
    exact isCounts_countsFrom _ _)).mpr
    ⟨by
      intro kind _ a ha b hb _ _
      rw [mem_singleton.mp ha, mem_singleton.mp hb]
      exact ⟨rfl, .inr (.inl rfl)⟩, by
      intro counts hIn _
      rw [mem_singleton.mp hIn]
      exact ⟨⟨fun h => (nomatch h), fun h => (nomatch h)⟩, ⟨fun _ => rfl, fun _ => rfl⟩⟩⟩

/-- The coverage of a component's C++ part replaces that of its Python part, or the other way. -/
theorem hybrid_coverage_ordered : ¬∀ measurements, OrderFree measurements := by
  intro h
  have hCounts := (h [cppLines, pythonLines] [pythonLines, cppLines] (List.Perm.swap _ _ _)).2 (py "app")
  have hLines := congrArg ComponentCounts.coveredLines hCounts
  exact absurd hLines (by decide +kernel)

end Ici
