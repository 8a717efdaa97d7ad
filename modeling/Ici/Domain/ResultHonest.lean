import Ici.Domain.ResultCodec

/-! # What a stored result cannot say

Each summary checks a part; the envelope checks the rest. -/

namespace Ici

open List Raising Python

/-- A full scope, or a satisfied one, selected every required component and lists none as omitted. -/
def ScopeSelectionFields.Covers (scope : ScopeSelectionFields) : Prop :=
  scope.kind = .full ∨ scope.fullRequiredSatisfied = true → ∀ component ∈ scope.requiredComponents,
      component ∈ scope.selectedComponents ∧ component ∉ scope.omittedComponents

structure RunResultFields.IsHonest (result : RunResultFields) : Prop where
  passComplete : result.gate.val.selected = .pass → result.execution.val.requiredComplete = true
  completeRan : result.execution.val.requiredComplete = true →
    result.execution.val.blockedTaskIds = [] ∧ result.execution.val.cancelled = false
  covers : result.scope.val.Covers
  passClean : result.gate.val.selected = .pass → result.gate.val.hasViolations = false
  violationShown : result.gate.val.hasViolations = true → ∃ finding ∈ result.findings,
    finding.val.evidence = .measured ∧ finding.val.suppression.val.suppressed = false

theorem countsAgainstGate_iff {finding : Finding} : finding.countsAgainstGate = true ↔
    finding.val.evidence = .measured ∧ finding.val.suppression.val.suppressed = false := by
  unfold Finding.countsAgainstGate
  rw [Bool.and_eq_true, Bool.not_eq_true', decide_eq_true_iff, and_comm]

theorem ExecutionSummary.ran {execution : ExecutionSummary} (h : execution.val.requiredComplete = true) :
    execution.val.blockedTaskIds = [] ∧ execution.val.cancelled = false := by
  have hCheck := execution.property
  simp only [ExecutionSummaryFields.check, seq_eq_ok, refuseIf_eq_ok_iff] at hCheck
  have hNone := not_or.mp fun hRan => hCheck.2 ⟨h, hRan⟩
  exact ⟨not_not.mp hNone.1, Bool.eq_false_iff.mpr hNone.2⟩

theorem GateOutcome.clean {gate : GateOutcome} (h : gate.val.selected = .pass) :
    gate.val.hasViolations = false := by
  have hCheck := gate.property
  simp only [GateOutcomeFields.check, seq_eq_ok, refuseIf_eq_ok_iff] at hCheck
  exact Bool.eq_false_iff.mpr fun hViolations => hCheck.2.1 ⟨h, hViolations⟩

theorem RunResult.crossChecks (result : RunResult) :
    (result.val.gate.val.hasViolations = true → result.val.blockingFindings ≠ []) ∧
      (result.val.gate.val.selected = .pass → result.val.execution.val.requiredComplete = true) := by
  have hCheck := result.property
  simp only [RunResultFields.check, seq_eq_ok, refuseIf_eq_ok_iff] at hCheck
  obtain ⟨-, -, -, -, -, hShown, hPass⟩ := hCheck
  refine ⟨fun hViolations hNone => hShown ⟨hViolations, hNone⟩, fun hSelected => ?_⟩
  by_contra hIncomplete
  exact hPass ⟨by simpa using hIncomplete, hSelected⟩

theorem ScopeSelection.satisfied {scope : ScopeSelection} (h : scope.val.kind = .full) :
    scope.val.fullRequiredSatisfied = true := by
  have hCheck := scope.property
  simp only [ScopeSelectionFields.check, seq_eq_ok, refuseIf_eq_ok_iff] at hCheck
  by_contra hNot
  exact hCheck.2.1 ⟨h, by simpa using hNot⟩

theorem ScopeSelection.selected {scope : ScopeSelection} (hKind : scope.val.kind ≠ .full)
    (h : scope.val.fullRequiredSatisfied = true) :
    ∀ component ∈ scope.val.requiredComponents, component ∈ scope.val.selectedComponents := by
  have hCheck := scope.property
  simp only [ScopeSelectionFields.check, seq_eq_ok, refuseIf_eq_ok_iff] at hCheck
  intro component hRequired
  by_contra hOmitted
  refine hCheck.2.2 ⟨hKind, h, ?_⟩
  exact any_eq_true.mpr ⟨component, hRequired, decide_eq_true hOmitted⟩

theorem ScopeSelection.covers_iff (scope : ScopeSelection) : scope.val.Covers ↔ (scope.val.kind = .full →
      ∀ component ∈ scope.val.requiredComponents, component ∈ scope.val.selectedComponents) ∧
    (scope.val.fullRequiredSatisfied = true →
      ∀ component ∈ scope.val.requiredComponents, component ∉ scope.val.omittedComponents) := by
  constructor
  · intro h
    exact ⟨fun hFull component hRequired => (h (.inl hFull) component hRequired).1,
      fun hSatisfied component hRequired => (h (.inr hSatisfied) component hRequired).2⟩
  · rintro ⟨hSelected, hOmitted⟩ hClaims component hRequired
    have hSatisfied : scope.val.fullRequiredSatisfied = true := hClaims.elim scope.satisfied id
    refine ⟨?_, hOmitted hSatisfied component hRequired⟩
    by_cases hFull : scope.val.kind = .full
    · exact hSelected hFull component hRequired
    · exact scope.selected hFull hSatisfied component hRequired

/-- Exactly which accepted results are honest; the decoder returns none but accepted ones. -/
theorem RunResult.isHonest_iff (result : RunResult) : result.val.IsHonest ↔
    (result.val.scope.val.kind = .full → ∀ component ∈ result.val.scope.val.requiredComponents,
      component ∈ result.val.scope.val.selectedComponents) ∧
    (result.val.scope.val.fullRequiredSatisfied = true →
      ∀ component ∈ result.val.scope.val.requiredComponents,
        component ∉ result.val.scope.val.omittedComponents) := by
  rw [← ScopeSelection.covers_iff]
  refine ⟨RunResultFields.IsHonest.covers, fun hCovers => ?_⟩
  obtain ⟨hShown, hPass⟩ := result.crossChecks
  exact {
    passComplete := hPass
    completeRan := ExecutionSummary.ran
    covers := hCovers
    passClean := GateOutcome.clean
    violationShown := fun hViolations => by
      obtain ⟨finding, hBlocking⟩ := exists_mem_of_ne_nil _ (hShown hViolations)
      obtain ⟨hMem, hCounts⟩ := mem_filter.mp hBlocking
      exact ⟨finding, hMem, countsAgainstGate_iff.mp hCounts⟩ }

def uncoveredRun : RunResult :=
  ⟨{ runId := py "run-1"
     producer := lapsedRun.val.producer
     identity := lapsedIdentity
     scope := ⟨{ kind := .full
                 selectedComponents := [py "app"]
                 requiredComponents := [py "app", py "core"]
                 omittedComponents := [py "core"]
                 fullRequiredSatisfied := true }, by decide⟩
     execution := lapsedRun.val.execution
     gate := ⟨{ selected := .pass, workspace := .pass }, by decide⟩ }, by decide⟩

theorem stored_uncovered : uncoveredRun.stored = uncoveredRun :=
  (RunResult.stored_eq_self_iff _).mpr fun _ h => nomatch h

/-- A full, satisfied scope that left a required component out is accepted, written and read. -/
theorem not_isHonest_uncovered :
    runResultFromDict builtin (runResultToDict uncoveredRun).canon = .ok uncoveredRun ∧
      ¬uncoveredRun.val.IsHonest := by
  refine ⟨?_, fun hHonest => ?_⟩
  · rw [runResultFromDict_canon, stored_uncovered]
  · have hCovers := hHonest.covers (.inl rfl) (py "core") (by decide)
    exact absurd hCovers.1 (by decide)

end Ici
