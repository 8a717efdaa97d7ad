import Ici.Domain.Validation

/-! # Findings and observations

The canonical finding with the source span it points at, and what a provider saw. -/

namespace Ici

open Option List Raising Python

structure SourceSpanFields where
  path : Text
  startLine : ℤ
  endLine : Option ℤ := none
  startColumn : Option ℤ := none
  endColumn : Option ℤ := none
  label : Text := []
deriving DecidableEq

def SourceSpanFields.check (span : SourceSpanFields) : Result Unit := do
  requireRelativePath span.path (py "span path") false
  requireNonNegative span.startLine (py "span start line")
  if span.startLine < 1 then .error (valueError (py "span start line is 1-indexed"))
  span.endLine.toList.forM fun line => do
    requireNonNegative line (py "span end line")
    if line < span.startLine then
      .error (valueError (py "span end line must not precede its start line"))
  [(py "start_column", span.startColumn), (py "end_column", span.endColumn)].forM fun column =>
    column.2.toList.forM fun value => do
      requireNonNegative value (py "span " ++ column.1)
      if value < 1 then .error (valueError (py "span " ++ column.1 ++ py " is 1-indexed"))

theorem SourceSpanFields.check_eq_ok_iff {span : SourceSpanFields} : span.check = .ok () ↔
      requireRelativePath span.path (py "span path") false = .ok () ∧ 0 ≤ span.startLine ∧
      ¬span.startLine < 1 ∧
      (∀ line, span.endLine = some line → 0 ≤ line ∧ ¬line < span.startLine) ∧
      (∀ column, span.startColumn = some column → 0 ≤ column ∧ ¬column < 1) ∧
      ∀ column, span.endColumn = some column → 0 ≤ column ∧ ¬column < 1 := by
  simp only [check, seq_eq_ok, forM_eq_ok, refuse_then_eq_ok_iff,
    refuse_last_eq_ok_iff, requireNonNegative_eq_ok_iff, mem_toList, forall_mem_cons,
    not_mem_nil, false_imp_iff, implies_true, and_true]

abbrev SourceSpan := Checked SourceSpanFields.check

structure FindingSuppressionFields where
  suppressed : Bool := false
  kind : Text := []
  reason : Text := []
  origin : Text := []
deriving DecidableEq

def FindingSuppressionFields.check (suppression : FindingSuppressionFields) : Result Unit :=
  if suppression.suppressed ∧ suppression.reason = [] then
    .error (valueError (py "a suppressed finding must record why"))
  else .ok ()

abbrev FindingSuppression := Checked FindingSuppressionFields.check

def FindingSuppression.none : FindingSuppression := ⟨{}, by decide⟩

structure FindingFields where
  fingerprint : Text
  ruleId : Text
  message : Text
  severity : Text
  confidence : Text
  primaryLocation : SourceSpan
  provider : Text
  nativeRuleId : Text := []
  ruleVersion : Text := []
  category : Text := []
  tags : List Text := []
  relatedLocations : List SourceSpan := []
  componentId : Option Text := none
  analysisUnitId : Option Text := none
  variant : Option Text := none
  taskId : Option Text := none
  evidence : EvidenceLevel := .measured
  suppression : FindingSuppression := FindingSuppression.none
  limitations : List Text := []
deriving DecidableEq

def FindingFields.check (finding : FindingFields) : Result Unit := do
  requireText finding.fingerprint (py "fingerprint")
  requireText finding.ruleId (py "rule id")
  requireText finding.message (py "finding message")
  requireIdentifier finding.severity (py "severity")
  requireIdentifier finding.confidence (py "confidence")
  requireIdentifier finding.provider (py "provider")
  finding.tags.forM (requireIdentifier · (py "finding tag"))
  [(py "component_id", finding.componentId), (py "analysis_unit_id", finding.analysisUnitId),
    (py "variant", finding.variant), (py "task_id", finding.taskId)].forM fun field =>
      field.2.toList.forM (requireIdentifier · (py "finding " ++ field.1))
  finding.limitations.forM (requireText · (py "finding limitation"))

theorem FindingFields.check_eq_ok_iff {finding : FindingFields} : finding.check = .ok () ↔
      IsText finding.fingerprint ∧ IsText finding.ruleId ∧ IsText finding.message ∧
      IsIdentifier finding.severity ∧ IsIdentifier finding.confidence ∧
      IsIdentifier finding.provider ∧ (∀ tag ∈ finding.tags, IsIdentifier tag) ∧
      ((∀ id ∈ finding.componentId, IsIdentifier id) ∧ (∀ id ∈ finding.analysisUnitId, IsIdentifier id) ∧
        (∀ id ∈ finding.variant, IsIdentifier id) ∧ ∀ id ∈ finding.taskId, IsIdentifier id) ∧
      ∀ limitation ∈ finding.limitations, IsText limitation := by
  simp only [check, seq_eq_ok, forM_eq_ok, mem_toList, requireText_eq_ok_iff, requireIdentifier_eq_ok_iff,
    forall_mem_cons, not_mem_nil, false_imp_iff, implies_true, and_true, mem_def]

abbrev Finding := Checked FindingFields.check

/-- A suppressed finding is kept but does not fail the gate, and neither does an estimated one. -/
def Finding.countsAgainstGate (finding : Finding) : Bool :=
  !finding.val.suppression.val.suppressed && finding.val.evidence = .measured

/-! ## What a provider saw, before any policy was applied -/

structure MeasurementFields where
  name : Text
  value : Double
  unit : Text := []
  numerator : Option ℤ := none
  denominator : Option ℤ := none
  evidence : EvidenceLevel := .measured
deriving DecidableEq

def MeasurementFields.check (measurement : MeasurementFields) : Result Unit := do
  requireIdentifier measurement.name (py "measurement name")
  if measurement.value.val = .nan then .error (valueError (py "measurement value must not be NaN"))
  measurement.numerator.toList.forM (requireNonNegative · (py "measurement numerator"))
  measurement.denominator.toList.forM (requireNonNegative · (py "measurement denominator"))
  if measurement.denominator = some 0 ∧ measurement.numerator ≠ none then
    .error (valueError
      (py "measurement denominator must not be zero when a numerator is given"))

theorem MeasurementFields.check_eq_ok_iff {measurement : MeasurementFields} : measurement.check = .ok () ↔
      IsIdentifier measurement.name ∧ measurement.value.val ≠ .nan ∧
      (∀ n, measurement.numerator = some n → 0 ≤ n) ∧ (∀ n, measurement.denominator = some n → 0 ≤ n) ∧
      ¬(measurement.denominator = some 0 ∧ measurement.numerator ≠ none) := by
  simp only [check, seq_eq_ok, forM_eq_ok, refuse_then_eq_ok_iff, refuse_last_eq_ok_iff,
    requireIdentifier_eq_ok_iff, requireNonNegative_eq_ok_iff, mem_toList, ne_eq]

abbrev Measurement := Checked MeasurementFields.check

structure ObservationFields where
  taskId : Text
  provider : Text
  state : TaskState
  findings : List Finding := []
  measurements : List Measurement := []
  exitCode : Option ℤ := none
  signal : Option Text := none
  timedOut : Bool := false
  truncated : Bool := false
  durationSeconds : Option Double := none
  toolVersions : List (Text × Text) := []
  limitations : List Text := []
deriving DecidableEq

def ObservationFields.check (observation : ObservationFields) : Result Unit := do
  requireIdentifier observation.taskId (py "observation task id")
  requireIdentifier observation.provider (py "observation provider")
  observation.signal.toList.forM (requireText · (py "observation signal"))
  observation.durationSeconds.toList.forM fun value =>
    if value.val.isNegative then
      .error (valueError (py "observation duration must be a non-negative number"))
    else .ok ()
  observation.limitations.forM (requireText · (py "observation limitation"))

abbrev Observation := Checked ObservationFields.check

def Observation.make : ObservationFields → Result Observation :=
  Checked.construct ObservationFields.check

/-- `replace(observation, task_id=task_id)`. -/
def Observation.withTaskId (observation : Observation) (taskId : Text) : Result Observation :=
  Observation.make { observation.val with taskId := taskId }

def Observation.evidenceIsComplete (observation : Observation) : Bool :=
  observation.val.state = .succeeded && !observation.val.truncated && !observation.val.timedOut

theorem ObservationFields.check_eq_ok_iff {observation : ObservationFields} : observation.check = .ok () ↔
      IsIdentifier observation.taskId ∧ IsIdentifier observation.provider ∧
      (∀ signal ∈ observation.signal, IsText signal) ∧
      (∀ value ∈ observation.durationSeconds, value.val.isNegative = false) ∧
      ∀ limitation ∈ observation.limitations, IsText limitation := by
  have hDuration (value : Double) :
      (if value.val.isNegative = true then
        (.error (valueError (py "observation duration must be a non-negative number")) : Result Unit)
      else .ok ()) = .ok () ↔ value.val.isNegative = false := by
    cases value.val.isNegative <;> simp
  simp only [check, seq_eq_ok, requireIdentifier_eq_ok_iff, forM_eq_ok,
    requireText_eq_ok_iff, hDuration, mem_toList, mem_def]

theorem Observation.exists_withTaskId_iff {observation : Observation} {taskId : Text} :
    (∃ o, observation.withTaskId taskId = .ok o) ↔ IsIdentifier taskId := by
  have hChecked := ObservationFields.check_eq_ok_iff.mp observation.property
  unfold withTaskId make
  rw [Checked.exists_construct_iff, ObservationFields.check_eq_ok_iff]
  exact ⟨fun h => h.1, fun h => ⟨h, hChecked.2⟩⟩

end Ici
