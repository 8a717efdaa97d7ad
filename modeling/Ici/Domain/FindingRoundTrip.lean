import Ici.Domain.Lookups

/-! # What is read back of findings, measurements and observations -/

namespace Ici

open Option Dict List Raising Python Json Json Dict

theorem refuseIf_neg {condition : Prop} [Decidable condition] (h : ¬condition) (text : Text) :
    refuseIf condition text = .ok () := refuseIf_eq_ok_iff.mpr h

def spanFields (span : SourceSpan) : Dict Text Json :=
  [(py "path", .str span.val.path), (py "start_line", .int span.val.startLine)] ++
    optional (py "end_line") (span.val.endLine.map .int) ++
    optional (py "start_column") (span.val.startColumn.map .int) ++
    optional (py "end_column") (span.val.endColumn.map .int) ++
    nonEmpty (py "label") span.val.label

section

variable (span : SourceSpan)

theorem spanToDict_eq : spanToDict span = .obj (spanFields span) := rfl

theorem nodup_spanFields : (spanFields span).keys.Nodup := by
  have hNames : [py "path", py "start_line", py "end_line", py "start_column", py "end_column",
      py "label"].Nodup := by decide
  refine hNames.sublist ?_
  simp only [Dict.keys, spanFields, map_append]
  exact ((((Sublist.refl _).append (keys_optional _ _)).append (keys_optional _ _)).append
    (keys_optional _ _)).append (keys_nonEmpty _ _)

theorem lookup_spanFields : getValue (spanFields span) (py "path") = .str span.val.path ∧
    getValue (spanFields span) (py "start_line") = .int span.val.startLine ∧
    getValue (spanFields span) (py "end_line") = (span.val.endLine.map int).getD .null ∧
    getValue (spanFields span) (py "start_column") = (span.val.startColumn.map int).getD .null ∧
    getValue (spanFields span) (py "end_column") = (span.val.endColumn.map int).getD .null ∧
    getOr (spanFields span) (py "label") (.str []) = .str span.val.label := by
  refine ⟨rfl, rfl, ?_, ?_, ?_, ?_⟩ <;>
  simp +decide [getValue, getOr, spanFields, get?_append, get?_optional, get?_nonEmpty, get?,
    getD_nonEmpty]

theorem spanFromDict_canon : spanFromDict (spanToDict span).canon = .ok span := by
  have hKeys := nodup_spanFields span
  obtain ⟨hPath, hStart, hEnd, hStartColumn, hEndColumn, hLabel⟩ := lookup_spanFields span
  obtain ⟨hPathOk, hStartOk, hFirst, hEndOk, hStartColumnOk, hEndColumnOk⟩ :=
    SourceSpanFields.check_eq_ok_iff.mp span.property
  rw [spanToDict_eq, canon_obj]
  refine step rfl ?_
  refine step (by rw [getValue_canon hKeys, hPath]; exact relativePathValue_str hPathOk) ?_
  refine step (nonNegative_canon hKeys hStart hStartOk _) ?_
  refine step (refuseIf_neg hFirst _) ?_
  refine step (optionalNonNegative_canon hKeys hEnd (fun n hn => (hEndOk n hn).1) _) ?_
  refine step (refuseIf_neg (fun ⟨n, hn, hLess⟩ => (hEndOk n hn).2 hLess) _) ?_
  refine step
    (optionalNonNegative_canon hKeys hStartColumn (fun n hn => (hStartColumnOk n hn).1) _) ?_
  refine step (refuseIf_neg (fun ⟨n, hn, hLess⟩ => (hStartColumnOk n hn).2 hLess) _) ?_
  refine step
    (optionalNonNegative_canon hKeys hEndColumn (fun n hn => (hEndColumnOk n hn).1) _) ?_
  refine step (refuseIf_neg (fun ⟨n, hn, hLess⟩ => (hEndColumnOk n hn).2 hLess) _) ?_
  exact step (string_canon hKeys hLabel _) (Checked.construct_eq_ok_iff.mpr rfl)

end

/-! ## Findings -/

section

variable (suppression : FindingSuppression)

def FindingSuppression.stored : FindingSuppression :=
  if suppression.val.suppressed then suppression else FindingSuppression.none

def Finding.stored (finding : Finding) : Finding :=
  ⟨{ finding.val with suppression := finding.val.suppression.stored },
    FindingFields.check_eq_ok_iff.mpr (FindingFields.check_eq_ok_iff.mp finding.property)⟩

def suppressionFields : Dict Text Json :=
  [(py "suppressed", .bool true), (py "kind", .str suppression.val.kind),
    (py "reason", .str suppression.val.reason), (py "origin", .str suppression.val.origin)]

def suppressionValue : Json :=
  if suppression.val.suppressed then .obj (suppressionFields suppression) else .null

end

section

variable (suppression : FindingSuppression)

theorem suppressionFromDict_canon :
    suppressionFromDict builtin (suppressionValue suppression).canon = .ok suppression.stored := by
  unfold suppressionValue FindingSuppression.stored
  split
  · rename_i hInForce
    have hKeys : (suppressionFields suppression).keys.Nodup :=
      (by decide : [py "suppressed", py "kind", py "reason", py "origin"].Nodup)
    rw [canon_obj]
    refine step rfl ?_
    refine step (bool_canon hKeys rfl) ?_
    refine step (string_canon hKeys rfl _) ?_
    refine step (string_canon hKeys rfl _) ?_
    refine step (string_canon hKeys rfl _) ?_
    rw [← hInForce]
    exact Checked.construct_eq_ok_iff.mpr rfl
  · rfl

def findingFields (finding : Finding) : Dict Text Json :=
  [(py "fingerprint", .str finding.val.fingerprint), (py "rule_id", .str finding.val.ruleId),
    (py "message", .str finding.val.message), (py "severity", .str finding.val.severity),
    (py "confidence", .str finding.val.confidence), (py "provider", .str finding.val.provider),
    (py "evidence", .str finding.val.evidence.value),
    (py "primary_location", spanToDict finding.val.primaryLocation)] ++
  listed (py "related_locations") (finding.val.relatedLocations.map spanToDict) ++
  nonEmpty (py "native_rule_id") finding.val.nativeRuleId ++
  nonEmpty (py "rule_version") finding.val.ruleVersion ++
  nonEmpty (py "category") finding.val.category ++
  listed (py "tags") (finding.val.tags.map .str) ++
  optional (py "component_id") (finding.val.componentId.map .str) ++
  optional (py "analysis_unit_id") (finding.val.analysisUnitId.map .str) ++
  optional (py "variant") (finding.val.variant.map .str) ++
  optional (py "task_id") (finding.val.taskId.map .str) ++
  suppressionToDict finding.val.suppression ++
  listed (py "limitations") (finding.val.limitations.map .str)

theorem findingToDict_eq (finding : Finding) : findingToDict finding = .obj (findingFields finding) :=
  rfl

def findingNames : List Text :=
  [py "fingerprint", py "rule_id", py "message", py "severity", py "confidence", py "provider",
    py "evidence", py "primary_location", py "related_locations", py "native_rule_id",
    py "rule_version", py "category", py "tags", py "component_id", py "analysis_unit_id",
    py "variant", py "task_id", py "suppression", py "limitations"]

theorem keys_suppression : (keys (suppressionToDict suppression)).Sublist [py "suppression"] := by
  unfold suppressionToDict
  split
  · exact Sublist.refl _
  · exact nil_sublist _

theorem get?_suppression (key : Text) : get? (suppressionToDict suppression) key =
      if py "suppression" = key then
        (if suppression.val.suppressed then some (suppressionValue suppression) else none)
      else none := by
  unfold suppressionToDict suppressionValue
  split
  · rfl
  · rw [ite_self]
    rfl

theorem getD_suppression :
    (if suppression.val.suppressed then some (suppressionValue suppression) else none).getD .null =
      suppressionValue suppression := by
  unfold suppressionValue
  split <;> rfl

end

theorem nodup_findingFields (finding : Finding) : (findingFields finding).keys.Nodup := by
  have hNames : findingNames.Nodup := by decide
  refine hNames.sublist ?_
  simp only [Dict.keys, findingFields, map_append]
  exact ((((((((((((Sublist.refl _).append (keys_listed _ _)).append (keys_nonEmpty _ _)).append
    (keys_nonEmpty _ _)).append (keys_nonEmpty _ _)).append (keys_listed _ _)).append
    (keys_optional _ _)).append (keys_optional _ _)).append (keys_optional _ _)).append
    (keys_optional _ _)).append (keys_suppression _)).append (keys_listed _ _))

theorem lookup_findingFields (finding : Finding) :
    getOr (findingFields finding) (py "related_locations") (.arr []) =
      .arr (finding.val.relatedLocations.map spanToDict) ∧
    getOr (findingFields finding) (py "native_rule_id") (.str []) = .str finding.val.nativeRuleId ∧
    getOr (findingFields finding) (py "rule_version") (.str []) = .str finding.val.ruleVersion ∧
    getOr (findingFields finding) (py "category") (.str []) = .str finding.val.category ∧
    getOr (findingFields finding) (py "tags") (.arr []) = .arr (finding.val.tags.map .str) ∧
    getValue (findingFields finding) (py "component_id") =
      (finding.val.componentId.map str).getD .null ∧
    getValue (findingFields finding) (py "analysis_unit_id") =
      (finding.val.analysisUnitId.map str).getD .null ∧
    getValue (findingFields finding) (py "variant") = (finding.val.variant.map str).getD .null ∧
    getValue (findingFields finding) (py "task_id") = (finding.val.taskId.map str).getD .null ∧
    getValue (findingFields finding) (py "suppression") = suppressionValue finding.val.suppression ∧
    getOr (findingFields finding) (py "limitations") (.arr []) =
      .arr (finding.val.limitations.map .str) := by
  refine ⟨?_, ?_, ?_, ?_, ?_, ?_, ?_, ?_, ?_, ?_, ?_⟩ <;>
  simp +decide only [getValue, getOr, findingFields, get?_append, get?_optional, get?_nonEmpty,
    get?_listed, get?_suppression, get?, getD_nonEmpty, getD_listed, getD_suppression, if_true,
    if_false, none_or, or_none]

theorem enumMember_evidence (evidence : EvidenceLevel) :
    enumMember evidenceLevels (.str evidence.value) = some evidence := by
  cases evidence <;> rfl

theorem findingFromDict_canon (finding : Finding) :
    findingFromDict builtin (findingToDict finding).canon = .ok finding.stored := by
  have hKeys := nodup_findingFields finding
  obtain ⟨hRelated, hNative, hVersion, hCategory, hTags, hComponent, hUnit, hVariant, hTask,
    hSuppression, hLimitations⟩ := lookup_findingFields finding
  obtain ⟨hFingerprint, hRule, hMessage, hSeverity, hConfidence, hProvider, hTagsOk,
    ⟨hComponentOk, hUnitOk, hVariantOk, hTaskOk⟩, -⟩ := FindingFields.check_eq_ok_iff.mp finding.property
  have hSpans : ((finding.val.relatedLocations.map spanToDict).map canon).mapM spanFromDict =
      .ok finding.val.relatedLocations := by
    rw [mapM_canon id fun span _ => spanFromDict_canon span, List.map_id]
  rw [findingToDict_eq, canon_obj]
  refine step rfl ?_
  refine step (by rw [getValue_canon hKeys]; exact spanFromDict_canon _) ?_
  refine step (texts_canon hKeys hTags) ?_
  refine step (tuple_canon hKeys hRelated) ?_
  refine step hSpans ?_
  refine step (enumOr_canon hKeys rfl (enumMember_evidence _) _) ?_
  refine step
    (by rw [getValue_canon hKeys, hSuppression]; exact suppressionFromDict_canon _) ?_
  refine step (texts_canon hKeys hLimitations) ?_
  refine step (text_canon hKeys rfl hFingerprint _) ?_
  refine step (text_canon hKeys rfl hRule _) ?_
  refine step (text_canon hKeys rfl hMessage _) ?_
  refine step (identifier_canon hKeys rfl hSeverity _) ?_
  refine step (identifier_canon hKeys rfl hConfidence _) ?_
  refine step (identifier_canon hKeys rfl hProvider _) ?_
  refine step (string_canon hKeys hNative _) ?_
  refine step (string_canon hKeys hVersion _) ?_
  refine step (string_canon hKeys hCategory _) ?_
  refine step (textItems_str _ _) ?_
  refine step (forM_eq_ok.mpr fun tag hTag =>
    requireIdentifier_eq_ok_iff.mpr (hTagsOk tag hTag)) ?_
  refine step (optionalIdentifier_canon hKeys hComponent hComponentOk _) ?_
  refine step (optionalIdentifier_canon hKeys hUnit hUnitOk _) ?_
  refine step (optionalIdentifier_canon hKeys hVariant hVariantOk _) ?_
  refine step (optionalIdentifier_canon hKeys hTask hTaskOk _) ?_
  exact step (textItems_str _ _) (Checked.construct_eq_ok_iff.mpr rfl)

theorem enumMember_taskState (state : TaskState) : enumMember taskStates (.str state.value) = some state := by
  cases state <;> rfl

def measurementFields (measurement : Measurement) : Dict Text Json :=
  [(py "name", .str measurement.val.name), (py "value", .float measurement.val.value),
    (py "evidence", .str measurement.val.evidence.value)] ++
  nonEmpty (py "unit") measurement.val.unit ++
  optional (py "numerator") (measurement.val.numerator.map .int) ++
  optional (py "denominator") (measurement.val.denominator.map .int)

section

variable (measurement : Measurement)

theorem measurementToDict_eq : measurementToDict measurement = .obj (measurementFields measurement) := rfl

theorem nodup_measurementFields : (measurementFields measurement).keys.Nodup := by
  have hNames : [py "name", py "value", py "evidence", py "unit", py "numerator",
      py "denominator"].Nodup := by decide
  refine hNames.sublist ?_
  simp only [Dict.keys, measurementFields, map_append]
  exact (((Sublist.refl _).append (keys_nonEmpty _ _)).append (keys_optional _ _)).append
    (keys_optional _ _)

theorem lookup_measurementFields :
    getOr (measurementFields measurement) (py "unit") (.str []) = .str measurement.val.unit ∧
    getValue (measurementFields measurement) (py "numerator") =
      (measurement.val.numerator.map int).getD .null ∧
    getValue (measurementFields measurement) (py "denominator") =
      (measurement.val.denominator.map int).getD .null := by
  refine ⟨?_, ?_, ?_⟩ <;>
  simp +decide only [getValue, getOr, measurementFields, get?_append, get?_optional,
    get?_nonEmpty, get?, getD_nonEmpty, if_true, if_false, none_or, or_none]

theorem measurementFromDict_canon :
    measurementFromDict builtin (measurementToDict measurement).canon = .ok measurement := by
  have hKeys := nodup_measurementFields measurement
  obtain ⟨hUnit, hNumerator, hDenominator⟩ := lookup_measurementFields measurement
  obtain ⟨hName, hValue, hNumeratorOk, hDenominatorOk, -⟩ :=
    MeasurementFields.check_eq_ok_iff.mp measurement.property
  have hNumber : measuredValue builtin (.float measurement.val.value) = .ok measurement.val.value :=
    if_neg hValue
  rw [measurementToDict_eq, canon_obj]
  refine step rfl ?_
  refine step (enumOr_canon hKeys rfl (enumMember_evidence _) _) ?_
  refine step (identifier_canon hKeys rfl hName _) ?_
  refine step (by rw [getValue_canon hKeys]; exact hNumber) ?_
  refine step (string_canon hKeys hUnit _) ?_
  refine step (optionalNonNegative_canon hKeys hNumerator hNumeratorOk _) ?_
  exact step (optionalNonNegative_canon hKeys hDenominator hDenominatorOk _)
    (Checked.construct_eq_ok_iff.mpr rfl)

end

/-! ## Observations -/

def flagged (name : Text) (value : Bool) : List (Text × Json) :=
  if value then [(name, .bool true)] else []

theorem keys_flagged (name : Text) (value : Bool) : (keys (flagged name value)).Sublist [name] := by
  unfold flagged
  split
  · exact Sublist.refl _
  · exact nil_sublist _

theorem get?_flagged (name key : Text) (value : Bool) : get? (flagged name value) key =
      if name = key then (if value then some (.bool true) else none) else none := by
  cases value with
  | true => rfl
  | false => exact (ite_self none).symm

theorem getD_flagged (value : Bool) :
    (if value then some (bool true) else none).getD (.bool false) = .bool value := by
  cases value <;> rfl

def toolVersionToDict (item : Text × Text) : Json := .arr [.str item.1, .str item.2]

def observationFields (observation : Observation) : Dict Text Json :=
  [(py "task_id", .str observation.val.taskId), (py "provider", .str observation.val.provider),
    (py "state", .str observation.val.state.value)] ++
  listed (py "findings") (observation.val.findings.map findingToDict) ++
  listed (py "measurements") (observation.val.measurements.map measurementToDict) ++
  optional (py "exit_code") (observation.val.exitCode.map .int) ++
  optional (py "signal") (observation.val.signal.map .str) ++
  optional (py "duration_seconds") (observation.val.durationSeconds.map .float) ++
  flagged (py "timed_out") observation.val.timedOut ++
  flagged (py "truncated") observation.val.truncated ++
  listed (py "tool_versions") (observation.val.toolVersions.map toolVersionToDict) ++
  listed (py "limitations") (observation.val.limitations.map .str)

section

variable (observation : Observation)

theorem observationToDict_eq : observationToDict observation = .obj (observationFields observation) := rfl

def observationNames : List Text :=
  [py "task_id", py "provider", py "state", py "findings", py "measurements", py "exit_code",
    py "signal", py "duration_seconds", py "timed_out", py "truncated", py "tool_versions",
    py "limitations"]

theorem nodup_observationFields : (observationFields observation).keys.Nodup := by
  have hNames : observationNames.Nodup := by decide
  refine hNames.sublist ?_
  simp only [Dict.keys, observationFields, map_append]
  exact (((((((((Sublist.refl _).append (keys_listed _ _)).append (keys_listed _ _)).append
    (keys_optional _ _)).append (keys_optional _ _)).append (keys_optional _ _)).append
    (keys_flagged _ _)).append (keys_flagged _ _)).append (keys_listed _ _)).append (keys_listed _ _)

theorem lookup_observationFields : getOr (observationFields observation) (py "findings") (.arr []) =
      .arr (observation.val.findings.map findingToDict) ∧
    getOr (observationFields observation) (py "measurements") (.arr []) =
      .arr (observation.val.measurements.map measurementToDict) ∧
    getValue (observationFields observation) (py "exit_code") =
      (observation.val.exitCode.map int).getD .null ∧
    getValue (observationFields observation) (py "signal") =
      (observation.val.signal.map str).getD .null ∧
    getValue (observationFields observation) (py "duration_seconds") =
      (observation.val.durationSeconds.map float).getD .null ∧
    getOr (observationFields observation) (py "timed_out") (.bool false) =
      .bool observation.val.timedOut ∧
    getOr (observationFields observation) (py "truncated") (.bool false) =
      .bool observation.val.truncated ∧
    getOr (observationFields observation) (py "tool_versions") (.arr []) =
      .arr (observation.val.toolVersions.map toolVersionToDict) ∧
    getOr (observationFields observation) (py "limitations") (.arr []) =
      .arr (observation.val.limitations.map .str) := by
  refine ⟨?_, ?_, ?_, ?_, ?_, ?_, ?_, ?_, ?_⟩ <;>
  simp +decide only [getValue, getOr, observationFields, get?_append, get?_optional, get?_flagged,
    get?_listed, get?, getD_listed, getD_flagged, if_true, if_false, none_or,
    or_none]

def ObservationFields.stored (observation : ObservationFields) : ObservationFields :=
  { observation with findings := observation.findings.map Finding.stored }

def Observation.stored (observation : Observation) : Observation :=
  ⟨observation.val.stored, ObservationFields.check_eq_ok_iff.mpr
    (ObservationFields.check_eq_ok_iff.mp observation.property)⟩

theorem toolVersions_canon (versions : List (Text × Text)) :
    ∃ items, ((versions.map toolVersionToDict).map canon).mapM builtin.items = .ok items ∧
      items.mapM toolVersion = .ok versions := by
  refine ⟨versions.map fun item => [.str item.1, .str item.2], ?_, ?_⟩
  · exact mapM_canon _ fun item _ => rfl
  · refine mapM_eq_ok.mpr ?_
    rw [forall₂_map_left_iff]
    exact forall₂_same.mpr fun _ _ => rfl

theorem observationFromDict_canon :
    observationFromDict builtin (observationToDict observation).canon = .ok observation.stored := by
  have hKeys := nodup_observationFields observation
  obtain ⟨hFindings, hMeasurements, hExit, hSignal, hDuration, hTimedOut, hTruncated, hVersions,
    hLimitations⟩ := lookup_observationFields observation
  obtain ⟨hTask, hProvider, hSignalOk, hDurationOk, -⟩ :=
    ObservationFields.check_eq_ok_iff.mp observation.property
  have hFindingsRead : ((observation.val.findings.map findingToDict).map canon).mapM
      (findingFromDict builtin) = .ok (observation.val.findings.map Finding.stored) :=
    mapM_canon _ fun finding _ => findingFromDict_canon finding
  have hMeasurementsRead : ((observation.val.measurements.map measurementToDict).map canon).mapM
      (measurementFromDict builtin) = .ok observation.val.measurements := by
    rw [mapM_canon id fun measurement _ => measurementFromDict_canon measurement, List.map_id]
  have hExitRead : exitCodeValue (getValue (canonical (observationFields observation))
      (py "exit_code")) = .ok observation.val.exitCode := by
    rw [getValue_canon hKeys, hExit]
    cases observation.val.exitCode <;> rfl
  have hDurationRead : durationValue builtin (getValue (canonical (observationFields observation))
      (py "duration_seconds")) = .ok observation.val.durationSeconds := by
    rw [getValue_canon hKeys, hDuration]
    cases hSome : observation.val.durationSeconds with
    | none => rfl
    | some value => exact if_neg (by rw [hDurationOk value hSome]; exact Bool.false_ne_true)
  obtain ⟨items, hItems, hPairs⟩ := toolVersions_canon observation.val.toolVersions
  rw [observationToDict_eq, canon_obj]
  refine step rfl ?_
  refine step (enum_canon hKeys rfl (enumMember_taskState _) _) ?_
  refine step (tuple_canon hKeys hFindings) ?_
  refine step hFindingsRead ?_
  refine step (tuple_canon hKeys hMeasurements) ?_
  refine step hMeasurementsRead ?_
  refine step (bool_canon hKeys hTimedOut) ?_
  refine step (bool_canon hKeys hTruncated) ?_
  refine step (tuple_canon hKeys hVersions) ?_
  refine step hItems ?_
  refine step (texts_canon hKeys hLimitations) ?_
  refine step (identifier_canon hKeys rfl hTask _) ?_
  refine step (identifier_canon hKeys rfl hProvider _) ?_
  refine step hExitRead ?_
  refine step (optionalText_canon hKeys hSignal hSignalOk _) ?_
  refine step hDurationRead ?_
  refine step hPairs ?_
  exact step (textItems_str _ _) (Checked.construct_eq_ok_iff.mpr rfl)

end

end Ici
