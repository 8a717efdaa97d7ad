import Ici.Application.CrashContained
import Ici.Application.Report
import Ici.Application.RequireFull
import Ici.Domain.Scoping

/-! # Which finished runs are stored

The run path keeps every check of the result's constructors but two: a cancellation is not complete, and a
limitation is a text. -/

namespace Ici

open List Raising Python Checked

variable {world : World} {state state' : RunState} {request : RunRequest}

theorem attempt_consumers {finished : Dict Text Observation} {unit : WorkUnit}
    {produced : Option Observation × Execution} (h : world.attempt unit finished = .ok produced) :
    produced.2.consumers = unit.val.consumers := by
  unfold World.attempt at h
  split at h
  · cases h
    rfl
  split at h
  · cases h
    rfl
  split at h
  · cases h
    rfl
  · obtain ⟨observation, -, hKept⟩ := bind_eq_ok.mp h
    obtain ⟨-, -, hProduced⟩ := bind_eq_ok.mp hKept
    cases hProduced
    rfl

def ConsumersNamed (executions : List Execution) : Prop :=
  ∀ execution ∈ executions, ∀ consumer ∈ execution.consumers, IsIdentifier consumer

theorem settle_named {result : WorkUnit × (Option Observation × Execution)}
    (hConsumers : result.2.2.consumers = result.1.val.consumers) (hState : ConsumersNamed state.executions)
    (h : settle state result = .ok state') : ConsumersNamed state'.executions := by
  obtain ⟨told, hTold, -, hExecutions, -⟩ := settle_ok h
  rw [hExecutions]
  intro execution hMem consumer hConsumer
  rcases mem_append.mp hMem with hOld | hNew
  · exact hState execution hOld consumer hConsumer
  · rw [mem_singleton.mp hNew, hConsumers] at hConsumer
    obtain ⟨observation, hTell⟩ := exists_mapM_eq_ok.mp ⟨told, mapM_eq_ok.mpr hTold⟩ consumer
      hConsumer
    rw [← tell_taskId hTell]
    exact (ObservationFields.check_eq_ok_iff.mp observation.property).1

theorem runLayer_named {layer : List WorkUnit}
    (hState : ConsumersNamed state.executions) (h : runLayer world state layer = .ok state') :
    ConsumersNamed state'.executions := by
  obtain ⟨results, hResults, hSettled⟩ := bind_eq_ok.mp h
  refine foldlM_invariant (fun state => ConsumersNamed state.executions) ?_ hState hSettled
  rintro s ⟨unit, produced⟩ s' hPair hNamed hSettle
  have hAttempt := ((mem_zip_iff (mapM_eq_ok.mp hResults)).mp hPair).2
  exact settle_named (attempt_consumers hAttempt) hNamed hSettle

theorem runGraph_named {graph : TaskGraph} {scheduled : Scheduled}
    (h : runGraph world graph = .ok scheduled) : ConsumersNamed scheduled.executions := by
  obtain ⟨layers, -, hLayers⟩ := bind_eq_ok.mp h
  obtain ⟨state, hState, hBlocked⟩ := bind_eq_ok.mp hLayers
  obtain ⟨observations, -, hScheduled⟩ := bind_eq_ok.mp hBlocked
  cases hScheduled
  exact foldlM_invariant (fun state : RunState => ConsumersNamed state.executions)
    (fun _ _ _ _ => runLayer_named) (fun _ hMem => absurd hMem not_mem_nil) hState

theorem judge_violations {incomplete requiredFingerprints : List Text} {findings : List Finding}
    {gate : GateOutcome} (h : judge incomplete findings requiredFingerprints = .ok gate)
    (hViolations : gate.val.hasViolations = true) :
    ∃ finding ∈ findings, finding.countsAgainstGate = true := by
  have hSome : (findings.filter fun item => item.countsAgainstGate &&
      item.val.fingerprint ∈ requiredFingerprints) ≠ [] := by
    intro hNone
    unfold judge at h
    simp only [hNone, isEmpty_nil, Bool.not_true, Bool.false_eq_true, if_false] at h
    split at h
    all_goals
      rw [construct_eq_ok_iff.mp h] at hViolations
      exact nomatch hViolations
  obtain ⟨finding, hFinding⟩ := exists_mem_of_ne_nil _ hSome
  obtain ⟨hMem, hCounts⟩ := mem_filter.mp hFinding
  exact ⟨finding, hMem, (Bool.and_eq_true _ _ ▸ hCounts).1⟩

structure Verification.IsSound (verification : Verification) : Prop where
  violations : verification.gate.val.hasViolations = true →
    ∃ finding ∈ verification.findings, finding.countsAgainstGate = true
  consumers : ConsumersNamed verification.executions

theorem isSound_of_verify {sha256 : Sha256} {suppressions : List EffectiveSuppression}
    {taskComponents : Dict Text Text} {plans : List (List PlannedCheck)} {verification : Verification}
    (h : verify sha256 world suppressions taskComponents plans = .ok verification) :
      verification.IsSound := by
  obtain ⟨graph, -, hRun⟩ := bind_eq_ok.mp h
  obtain ⟨scheduled, hScheduled, hJudged⟩ := bind_eq_ok.mp hRun
  obtain ⟨observations, -, hReasons⟩ := bind_eq_ok.mp hJudged
  obtain ⟨reasons, -, hRequired⟩ := bind_eq_ok.mp hReasons
  obtain ⟨required, -, hGate⟩ := bind_eq_ok.mp hRequired
  obtain ⟨gate, hJudge, hVerification⟩ := bind_eq_ok.mp hGate
  cases hVerification
  exact ⟨judge_violations hJudge, runGraph_named hScheduled⟩

theorem isSound_of_judgeCoverage {model : Workspace} {scope : Workspace}
    {compileGaps : List (Component × CompileGap)} {verification judged : Verification}
    (hSound : verification.IsSound)
    (h : judgeCoverage model request scope compileGaps verification = .ok judged) : judged.IsSound := by
  by_cases hGaps : coverageGapsOf model request scope compileGaps = []
  · rw [judgeCoverage, applyRequireFull, if_pos hGaps] at h
    cases h
    exact hSound
  · obtain ⟨gate, hGate, rfl⟩ := (applyRequireFull_eq_ok_iff hGaps).mp h
    refine ⟨fun hViolations => hSound.violations ?_, hSound.consumers⟩
    rwa [construct_eq_ok_iff.mp hGate] at hViolations

theorem NextRun.isSound_of_verified {run : NextRun} {scope : Workspace} {verification : Verification}
    (h : run.verified scope = .ok verification) : verification.IsSound := by
  obtain ⟨judged, hVerify, hCoverage⟩ := bind_eq_ok.mp h
  exact isSound_of_judgeCoverage (isSound_of_verify hVerify) hCoverage

/-! ## The parts of the result -/

theorem ScopeSelectionFields.check_eq_ok_iff {scope : ScopeSelectionFields} : scope.check = .ok () ↔
      (∀ ids ∈ [scope.selectedComponents, scope.selectedLanguages, scope.requiredComponents,
        scope.omittedComponents], (∀ id ∈ ids, IsIdentifier id) ∧ ids.Nodup) ∧
      ¬(scope.kind = .full ∧ !scope.fullRequiredSatisfied) ∧
      ¬(scope.kind ≠ .full ∧ scope.fullRequiredSatisfied ∧ scope.omitted) := by
  unfold check
  rw [seq_eq_ok, seq_eq_ok, forM_eq_ok, refuseIf_eq_ok_iff, refuseIf_eq_ok_iff]
  simp only [seq_eq_ok, forM_eq_ok, requireIdentifier_eq_ok_iff, requireUniqueIdentifiers_eq_ok_iff,
    forall_mem_cons, not_mem_nil, false_imp_iff, implies_true, and_true]

theorem ExecutionSummaryFields.check_eq_ok_iff {execution : ExecutionSummaryFields} :
    execution.check = .ok () ↔
      (∀ ids ∈ [execution.blockedTaskIds, execution.failedTaskIds, execution.reusedTaskIds],
        ∀ id ∈ ids, IsIdentifier id) ∧
      ¬(execution.requiredComplete ∧ (execution.blockedTaskIds ≠ [] ∨ execution.cancelled)) := by
  unfold check
  rw [seq_eq_ok, forM_eq_ok, refuseIf_eq_ok_iff]
  simp only [forM_eq_ok, requireIdentifier_eq_ok_iff, forall_mem_cons, not_mem_nil,
    false_imp_iff, implies_true, and_true]

theorem Verification.taskIdsIn_isIdentifier (verification : Verification) (states : List TaskState) :
    ∀ id ∈ verification.taskIdsIn states, IsIdentifier id := by
  intro id hId
  obtain ⟨observation, -, rfl⟩ := mem_map.mp hId
  exact (ObservationFields.check_eq_ok_iff.mp observation.property).1

theorem check_execution_iff (report : Report) {verification : Verification} (hSound : verification.IsSound) :
    (report.execution verification).check = .ok () ↔
      (report.cancelled = true → verification.gate.val.selected = .incomplete) := by
  rw [ExecutionSummaryFields.check_eq_ok_iff, and_iff_right]
  · by_cases hComplete : verification.gate.val.selected = .incomplete
    all_goals simp [Report.execution, Verification.isComplete, hComplete]
  · simp only [forall_mem_cons, not_mem_nil, false_imp_iff, implies_true, and_true]
    refine ⟨?_, verification.taskIdsIn_isIdentifier _, ?_⟩
    · intro id hId
      simp only [Report.execution] at hId
      split at hId
      · exact absurd hId not_mem_nil
      · exact verification.taskIdsIn_isIdentifier _ id hId
    · intro id hId
      obtain ⟨execution, hExecution, hConsumer⟩ := mem_flatMap.mp hId
      exact hSound.consumers execution (mem_filter.mp hExecution).1 id hConsumer

theorem component_languages (component : Component) :
    ∀ language ∈ component.val.languages, IsIdentifier language := by
  have hChecked := component.property
  unfold ComponentFields.check at hChecked
  obtain ⟨-, hRest⟩ := seq_eq_ok.mp hChecked
  obtain ⟨-, hRest⟩ := seq_eq_ok.mp hRest
  obtain ⟨hLanguages, -⟩ := seq_eq_ok.mp hRest
  exact (requireIdentifiers_eq_ok_iff.mp hLanguages).1

theorem requestedLanguages_sound (hNodup : request.languages.Nodup) (scope : Workspace) :
    (∀ language ∈ requestedLanguages request scope, IsIdentifier language) ∧
      (requestedLanguages request scope).Nodup := by
  have hDeclared : ∀ language ∈ scope.val.components.flatMap (·.val.languages), IsIdentifier language := by
    intro language hLanguage
    obtain ⟨component, -, hIn⟩ := mem_flatMap.mp hLanguage
    exact component_languages component language hIn
  unfold requestedLanguages
  dsimp only
  split
  · constructor
    · intro language hLanguage
      exact hDeclared language (mem_dedup.mp ((mem_insertionSort _).mp hLanguage))
    · exact (perm_insertionSort _ _).nodup_iff.mpr (nodup_dedup _)
  · constructor
    · intro language hLanguage
      have hIn := (mem_filter.mp ((mem_insertionSort _).mp hLanguage)).2
      exact hDeclared language (of_decide_eq_true hIn)
    · exact (perm_insertionSort _ _).nodup_iff.mpr (hNodup.filter _)

theorem Workspace.componentIds_sound (workspace : Workspace) :
    (∀ id ∈ workspace.val.componentIds, IsIdentifier id) ∧ workspace.val.componentIds.Nodup := by
  refine ⟨fun id hId => ?_, (WorkspaceFields.check_eq_ok_iff.mp workspace.property).1.components_nodup⟩
  obtain ⟨component, -, rfl⟩ := mem_map.mp hId
  exact component.id_isIdentifier

namespace NextRun

variable {run : NextRun} {scope : Workspace} {verification : Verification} {checks : List CheckRecord}
  {baseline : Option BaselineComparison}

theorem scopeKind_full {configured : ScopeKind} {request : RunRequest} {model : Workspace}
    (h : scopeKind configured request model scope verification = .full) :
    verification.gate.val.selected ≠ .incomplete := by
  unfold scopeKind at h
  dsimp only at h
  split at h
  · exact nomatch h
  · split at h
    · exact nomatch h
    · rename_i hNot
      simp only [not_or] at hNot
      exact hNot.2.2.2

theorem check_selection : ((run.report scope verification checks baseline).selection verification).check =
    .ok () := by
  have hModel := (WorkspaceFields.check_eq_ok_iff.mp run.model.property).1
  have hLanguages := requestedLanguages_sound run.languages_nodup scope
  have hComponents := run.model.componentIds_sound
  refine ScopeSelectionFields.check_eq_ok_iff.mpr ⟨?_, ?_, ?_⟩
  · simp only [forall_mem_cons, not_mem_nil, false_imp_iff, implies_true, and_true]
    refine ⟨scope.componentIds_sound, hLanguages, ⟨hModel.required_identifiers, hModel.required_nodup⟩, ?_,
      hComponents.2.filter _⟩
    exact fun id hId => hComponents.1 id (mem_filter.mp hId).1
  · rintro ⟨hFull, hNot⟩
    have hKind : (run.report scope verification checks baseline).scope = .full := hFull
    have hComplete := scopeKind_full hKind
    simp [Report.selection, hKind, Verification.isComplete, hComplete] at hNot
  · rintro ⟨hPart, hSatisfied, -⟩
    simp only [Report.selection, Bool.and_eq_true, decide_eq_true_eq] at hPart hSatisfied
    exact hPart hSatisfied.1

theorem records_taskIds (h : run.records scope verification = .ok checks) :
    checks.map (·.val.taskId) = run.taskIds := by
  refine map_of_mapM (fun entry record hRecord => ?_) h
  obtain ⟨digest, -, hRecord⟩ := bind_eq_ok.mp hRecord
  rw [construct_eq_ok_iff.mp hRecord]
  rfl

structure Storable (run : NextRun) (verification : Verification) : Prop where
  cancelled : run.cancellation ≠ none → verification.gate.val.selected = .incomplete
  limitations : ∀ limitation ∈ run.limitations, IsText limitation
  tasks : run.taskIds.Nodup
  tem : HasTem verification.observations

theorem cancelled_iff : (run.report scope verification checks baseline).cancelled = true ↔
    run.cancellation ≠ none := by
  cases h : run.cancellation <;> simp [report, h]

theorem check_result_iff (producer : Producer) (identity : RunIdentity) (selection : ScopeSelection)
    {execution : ExecutionSummary} {tem : List Measurement × List Text} (hSound : verification.IsSound)
    (hExecution : execution.val = (run.report scope verification checks baseline).execution verification)
    (hChecks : run.records scope verification = .ok checks)
    (hTem : temMetrics verification.observations = .ok tem) :
    RunResultFields.check
      { runId := run.runId
        producer
        identity
        scope := selection
        execution
        gate := verification.gate
        findings := verification.findings
        metrics := verification.observations.flatMap (·.val.measurements) ++ tem.1
        limitations := verification.observations.flatMap (·.val.limitations) ++ run.limitations ++ tem.2
        baseline
        checks := some checks } = .ok () ↔
      (∀ limitation ∈ run.limitations, IsText limitation) ∧ run.taskIds.Nodup := by
  have hObserved : ∀ limitation ∈ verification.observations.flatMap (·.val.limitations), IsText limitation := by
    intro limitation hMem
    obtain ⟨observation, -, hIn⟩ := mem_flatMap.mp hMem
    exact (ObservationFields.check_eq_ok_iff.mp observation.property).2.2.2.2 limitation hIn
  have hBlocking : ¬(verification.gate.val.hasViolations = true ∧
      verification.findings.filter Finding.countsAgainstGate = []) := by
    rintro ⟨hViolations, hNone⟩
    obtain ⟨finding, hMem, hCounts⟩ := hSound.violations hViolations
    exact filter_eq_nil_iff.mp hNone finding hMem hCounts
  have hPassing : ¬((!execution.val.requiredComplete) = true ∧ verification.gate.val.selected = .pass) := by
    rw [hExecution]
    rintro ⟨hNot, hPass⟩
    simp [Report.execution, Verification.isComplete, hPass] at hNot
  unfold RunResultFields.check
  simp only [seq_eq_ok, requireText_eq_ok_iff, forM_eq_ok, refuseIf_eq_ok_iff,
    requireUniqueIdentifiers_eq_ok_iff, Option.toList_some, mem_singleton, forall_eq,
    RunResultFields.blockingFindings, records_taskIds hChecks, mem_append]
  constructor
  · rintro ⟨-, hLimitations, -, -, ⟨-, hTasks⟩, -, -⟩
    exact ⟨fun limitation hMem => hLimitations limitation (.inl (.inr hMem)), hTasks⟩
  · rintro ⟨hLimitations, hTasks⟩
    refine ⟨run.runId_isText, ?_, by decide, by decide, ⟨by decide, hTasks⟩,
      refuseIf_eq_ok_iff.mpr hBlocking, hPassing⟩
    rintro limitation ((hMem | hMem) | hMem)
    · exact hObserved limitation hMem
    · exact hLimitations limitation hMem
    · exact isText_temMetrics hTem limitation hMem

end NextRun

/-! ## A cancellation after the last check -/

def countCheck : PlannedCheck where
  check := { id := py "python.count", language := py "python", tool := none }
  taskId := py "app.python.count"
  taskId_ne_nil := by decide
  not_both := PlannedCheck.untasked
  taskId_agrees := by simp

def countedObservation : Observation :=
  ⟨{ taskId := py "app.python.count", provider := py "ici", state := .succeeded }, by decide⟩

def countComponent : Component := toolComponent

def countWorkspace : Workspace :=
  ⟨{ id := py "demo", name := py "Demo", components := [countComponent], requiredComponentIds := [py "app"] },
    by decide⟩

theorem requireDigest_zeroDigest (description : Text) : requireDigest zeroDigest description = .ok () := by
  have hText : requireText zeroDigest description = .ok () := requireText_eq_ok_iff.mpr (by decide)
  exact seq_eq_ok.mpr ⟨hText, by rw [if_pos (by decide)]⟩

def countRun (cancellation : Option Text) : NextRun where
  sha256 := fun _ => zeroDigest.drop 7
  world := { perform := fun _ => .ok countedObservation }
  byComponent := [(countComponent, ⟨[countCheck], by decide⟩)]
  model := countWorkspace
  recording := { root := PurePath.parse (py "/demo"), stock := {}, digestOf := fun _ => none, nesting := 100 }
  runId := py "0f"
  iciVersion := py "1.0"
  source := lapsedIdentity.val.source
  policyDigest := zeroDigest
  toolchainDigest := zeroDigest
  cancellation
  runId_isText := by decide
  iciVersion_isText := by decide
  policyDigest_isDigest := requireDigest_zeroDigest
  toolchainDigest_isDigest := requireDigest_zeroDigest
  languages_nodup := List.nodup_nil

def hasPassed (run : NextRun) : Bool :=
  match run.verified run.model with
  | .ok verification => verification.gate.val.selected = .pass && (run.records run.model verification).isOk
  | .error _ => false

theorem exists_passed {run : NextRun} (h : hasPassed run = true) :
    ∃ verification checks, run.verified run.model = .ok verification ∧
      run.records run.model verification = .ok checks ∧ verification.gate.val.selected = .pass := by
  unfold hasPassed at h
  split at h
  · rename_i verification hVerified
    rw [Bool.and_eq_true, decide_eq_true_eq] at h
    cases hRecords : run.records run.model verification with
    | ok checks => exact ⟨verification, checks, hVerified, hRecords, h.1⟩
    | error e =>
      rw [hRecords] at h
      exact nomatch h.2
  · exact nomatch h

end Ici
