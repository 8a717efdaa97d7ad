import Ici.Domain.ResultRoundTrip

/-! # Which results survive the codec -/

namespace Ici

open List Python Json ReadsWithin

/-! ## Numbers that render -/

def SourceSpan.IsPrintable (span : SourceSpan) : Prop :=
  FitsDigitLimit span.val.startLine ∧ (∀ n ∈ span.val.endLine, FitsDigitLimit n) ∧
    (∀ n ∈ span.val.startColumn, FitsDigitLimit n) ∧ ∀ n ∈ span.val.endColumn, FitsDigitLimit n

def Finding.IsPrintable (finding : Finding) : Prop :=
  ∀ span ∈ finding.val.primaryLocation :: finding.val.relatedLocations, span.IsPrintable

def Measurement.IsPrintable (measurement : Measurement) : Prop :=
  measurement.val.value.val.isFinite = true ∧ (∀ n ∈ measurement.val.numerator, FitsDigitLimit n) ∧
    ∀ n ∈ measurement.val.denominator, FitsDigitLimit n

theorem forall_optionalInt_iff (name : Text) (value : Option ℤ) :
    (∀ field ∈ optional name (value.map Json.int), Printable field.2) ↔
      ∀ n ∈ value, FitsDigitLimit n := by
  cases value <;> simp [optional, printable_int_iff]

theorem forall_optionalText_iff (name : Text) (value : Option Text) :
    (∀ field ∈ optional name (value.map Json.str), Printable field.2) ↔ True := by
  cases value <;> simp [optional, printable_str]

theorem printable_span_iff (span : SourceSpan) : Printable (spanToDict span) ↔ span.IsPrintable := by
  rw [spanToDict_eq, printable_obj_iff]
  simp only [spanFields, forall_mem_append, forall_mem_cons, forall_optionalInt_iff,
    forall_nonEmpty_iff, printable_str, printable_int_iff, not_mem_nil, false_imp_iff,
    implies_true, and_true, true_and, SourceSpan.IsPrintable, and_assoc]

theorem forall_suppression_iff (suppression : FindingSuppression) :
    (∀ field ∈ suppressionToDict suppression, Printable field.2) ↔ True := by
  refine iff_true_intro ?_
  unfold suppressionToDict
  split
  · refine forall_mem_singleton.mpr ((printable_obj_iff _).mpr ?_)
    simp only [forall_mem_cons, not_mem_nil, false_imp_iff, implies_true, printable_str,
      printable_bool, and_true]
  · exact forall_mem_nil _

theorem printable_finding_iff (finding : Finding) :
    Printable (findingToDict finding) ↔ finding.IsPrintable := by
  have hRelated : (finding.val.relatedLocations.map spanToDict ≠ [] →
      Printable (.arr (finding.val.relatedLocations.map spanToDict))) ↔
        ∀ span ∈ finding.val.relatedLocations, span.IsPrintable := by
    rw [printable_arr_iff, forall_mem_map]
    simp only [printable_span_iff]
    refine ⟨fun h span hSpan => h ?_ span hSpan, fun h _ => h⟩
    exact ne_nil_of_mem (mem_map_of_mem hSpan)
  rw [findingToDict_eq, printable_obj_iff, Finding.IsPrintable, forall_mem_cons, ← hRelated]
  simp only [findingFields, forall_mem_append, forall_mem_cons, forall_optionalText_iff,
    forall_nonEmpty_iff, forall_listed_iff, forall_suppression_iff, printable_str, printable_span_iff,
    printable_texts, not_mem_nil, false_imp_iff, implies_true, and_true, true_and]

theorem printable_measurement_iff (measurement : Measurement) :
    Printable (measurementToDict measurement) ↔ measurement.IsPrintable := by
  rw [measurementToDict_eq, printable_obj_iff]
  simp only [measurementFields, forall_mem_append, forall_mem_cons, forall_optionalInt_iff,
    forall_nonEmpty_iff, printable_str, printable_float_iff, not_mem_nil, false_imp_iff,
    implies_true, and_true, true_and, Measurement.IsPrintable, and_assoc]

/-! ## The parts of a run have no numbers -/

theorem forall_listedTexts_iff (name : Text) (items : List Text) :
    (∀ field ∈ listed name (items.map Json.str), Printable field.2) ↔ True :=
  iff_true_intro ((forall_listed_iff name _).mpr fun _ => printable_texts items)

@[simp] theorem printable_textOrNull (value : Option Text) : Printable (textOrNull value) := by
  cases value with
  | none => exact printable_null
  | some t => exact printable_str t

@[simp] theorem printable_textList (items : List Text) : Printable (textList items) := printable_texts items

@[simp] theorem printable_producer (producer : Producer) : Printable (producerToDict producer) := by
  rw [producerToDict, printable_obj_iff]
  simp only [forall_mem_append, forall_mem_cons, forall_optionalText_iff, printable_str,
    not_mem_nil, false_imp_iff, implies_true, and_true]

@[simp] theorem printable_snapshot (snapshot : SourceSnapshot) : Printable (snapshotToDict snapshot) := by
  rw [snapshotToDict, printable_obj_iff]
  simp only [forall_mem_append, forall_mem_cons, forall_optionalText_iff, forall_listedTexts_iff,
    printable_str, printable_bool, not_mem_nil, false_imp_iff, implies_true, and_true]

@[simp] theorem printable_identity (identity : RunIdentity) : Printable (identityToDict identity) := by
  simp [identityToDict, printable_obj_iff]

@[simp] theorem printable_scope (scope : ScopeSelection) : Printable (scopeToDict scope) := by
  simp [scopeToDict, printable_obj_iff]

@[simp] theorem printable_execution (execution : ExecutionSummary) : Printable (executionToDict execution) := by
  simp [executionToDict, printable_obj_iff]

@[simp] theorem printable_gate (gate : GateOutcome) : Printable (gateToDict gate) := by
  simp [gateToDict, printable_obj_iff]

@[simp] theorem printable_publication (publication : PublicationOutcome) :
    Printable (publicationToDict publication) := by
  simp [publicationToDict, printable_obj_iff]

@[simp] theorem printable_checkRecord (record : CheckRecord) : Printable (checkRecordToDict record) := by
  simp [checkRecordToDict, printable_obj_iff]

@[simp] theorem printable_baseline (baseline : BaselineComparison) : Printable (baselineToDict baseline) := by
  simp [baselineToDict, printable_obj_iff]

theorem printable_checks (checks : Option (List CheckRecord)) :
    Printable ((checks.map fun checks => Json.arr (checks.map checkRecordToDict)).getD .null) := by
  cases checks with
  | none => exact printable_null
  | some checks =>
    refine (printable_arr_iff _).mpr ?_
    rw [forall_mem_map]
    exact fun record _ => printable_checkRecord record

section

variable (result : RunResult)

theorem forall_checksMember_iff : (∀ field ∈ checksMember result, Printable field.2) ↔ True := by
  refine iff_true_intro ?_
  unfold checksMember
  split
  · exact forall_mem_singleton.mpr (printable_checks _)
  · exact forall_mem_nil _

theorem forall_baseline_iff (name : Text) (baseline : Option BaselineComparison) :
    (∀ field ∈ optional name (baseline.map baselineToDict), Printable field.2) ↔ True := by
  cases baseline <;> simp [optional, printable_baseline]

theorem printable_runResult_iff : Printable (runResultToDict result) ↔
    (∀ finding ∈ result.val.findings, finding.IsPrintable) ∧
      ∀ measurement ∈ result.val.metrics, measurement.IsPrintable := by
  have hVersion : FitsDigitLimit result.val.schemaVersion := by
    have hCheck := result.property
    simp only [RunResultFields.check, Raising.seq_eq_ok, refuseIf_eq_ok_iff] at hCheck
    have hVersions := hCheck.2.2.2.1
    obtain hOne | hTwo : result.val.schemaVersion = 1 ∨ result.val.schemaVersion = 2 := by omega
    · rw [hOne]
      decide
    · rw [hTwo]
      decide
  rw [runResultToDict, printable_obj_iff]
  simp only [runResultFields, forall_mem_append, forall_mem_cons, forall_baseline_iff,
    forall_checksMember_iff, printable_str, printable_int_iff, hVersion, printable_producer,
    printable_identity, printable_scope, printable_execution, printable_gate, printable_publication,
    printable_textList, printable_arr_iff, forall_mem_map, printable_finding_iff,
    printable_measurement_iff, not_mem_nil, false_imp_iff, implies_true, and_true, true_and]

/-! ## What a result needs of the reader -/

theorem readsWithin_span (span : SourceSpan) : ReadsWithin 1 (spanToDict span) := by
  refine obj (nodup_spanFields span) ?_
  simp only [forall_mem_append, forall_mem_cons]
  exact ⟨⟨⟨⟨⟨.str _, .int _, forall_mem_nil _⟩, .of_optionalInt _ _⟩, .of_optionalInt _ _⟩, .of_optionalInt _ _⟩,
    .of_nonEmpty _ _⟩

theorem readsWithin_suppression (suppression : FindingSuppression) :
    ∀ field ∈ suppressionToDict suppression, ReadsWithin 1 field.2 := by
  unfold suppressionToDict
  split
  · have hKeys : (suppressionFields suppression).keys.Nodup :=
      (by decide : [py "suppressed", py "kind", py "reason", py "origin"].Nodup)
    refine forall_mem_singleton.mpr (obj hKeys ?_)
    simp only [forall_mem_cons]
    exact ⟨.bool _, .str _, .str _, .str _, nofun⟩
  · exact forall_mem_nil _

theorem readsWithin_finding (finding : Finding) : ReadsWithin 3 (findingToDict finding) := by
  refine obj (nodup_findingFields finding) ?_
  have hRelated : ∀ item ∈ finding.val.relatedLocations.map spanToDict, ReadsWithin 1 item :=
    forall_mem_map.mpr fun span _ => readsWithin_span span
  simp only [forall_mem_append, forall_mem_cons]
  exact ⟨⟨⟨⟨⟨⟨⟨⟨⟨⟨⟨⟨.str _, .str _, .str _, .str _, .str _, .str _, .str _,
    (readsWithin_span _).mono, forall_mem_nil _⟩, .of_listed hRelated _⟩, .of_nonEmpty _ _⟩, .of_nonEmpty _ _⟩,
    .of_nonEmpty _ _⟩, .of_listedTexts _ _⟩, .of_optionalText _ _⟩, .of_optionalText _ _⟩,
    .of_optionalText _ _⟩, .of_optionalText _ _⟩,
    fun field hField => (readsWithin_suppression _ field hField).mono⟩, .of_listedTexts _ _⟩

theorem readsWithin_measurement {measurement : Measurement} (h : measurement.val.value.val.isFinite = true) :
    ReadsWithin 1 (measurementToDict measurement) := by
  refine obj (nodup_measurementFields measurement) ?_
  simp only [forall_mem_append, forall_mem_cons]
  exact ⟨⟨⟨⟨.str _, .float h, .str _, forall_mem_nil _⟩, .of_nonEmpty _ _⟩, .of_optionalInt _ _⟩,
    .of_optionalInt _ _⟩

theorem readsWithin_producer (producer : Producer) : ReadsWithin 1 (producerToDict producer) := by
  refine obj (nodup_producerFields producer) ?_
  simp only [forall_mem_append, forall_mem_cons]
  exact ⟨⟨.str _, forall_mem_nil _⟩, .of_optionalText _ _⟩

theorem readsWithin_snapshot (snapshot : SourceSnapshot) : ReadsWithin 2 (snapshotToDict snapshot) := by
  refine obj (nodup_snapshotFields snapshot) ?_
  simp only [forall_mem_append, forall_mem_cons]
  exact ⟨⟨⟨⟨⟨.str _, .bool _, forall_mem_nil _⟩, .of_listedTexts _ _⟩, .of_listedTexts _ _⟩,
    .of_listedTexts _ _⟩, .of_optionalText _ _⟩

theorem readsWithin_identity (identity : RunIdentity) : ReadsWithin 3 (identityToDict identity) := by
  refine obj (nodup_identityFields identity) ?_
  simp only [forall_mem_cons]
  exact ⟨readsWithin_snapshot _, .str _, .str _, .str _, nofun⟩

theorem readsWithin_scope (scope : ScopeSelection) : ReadsWithin 2 (scopeToDict scope) := by
  refine obj (nodup_scopeFields scope) ?_
  simp only [forall_mem_cons]
  exact ⟨.str _, .texts _, .texts _, .texts _, .texts _, .bool _, nofun⟩

theorem readsWithin_execution (execution : ExecutionSummary) : ReadsWithin 2 (executionToDict execution) := by
  refine obj (nodup_executionFields execution) ?_
  simp only [forall_mem_cons]
  exact ⟨.bool _, .bool _, .texts _, .texts _, .texts _, nofun⟩

theorem readsWithin_gate (gate : GateOutcome) : ReadsWithin 2 (gateToDict gate) := by
  refine obj (nodup_gateFields gate) ?_
  simp only [forall_mem_cons]
  exact ⟨.str _, .str _, .bool _, .texts _, nofun⟩

theorem readsWithin_publication (publication : PublicationOutcome) :
    ReadsWithin 1 (publicationToDict publication) := by
  refine obj (nodup_publicationFields publication) ?_
  simp only [forall_mem_cons]
  exact ⟨.str _, .str _, nofun⟩

theorem readsWithin_checkRecord (record : CheckRecord) : ReadsWithin 1 (checkRecordToDict record) := by
  refine obj (nodup_checkRecordFields record) ?_
  simp only [forall_mem_cons]
  exact ⟨.str _, .str _, .str _, .str _, .str _, .str _, .bool _, .of_option fun t _ => .str t,
    .of_option fun t _ => .str t, nofun⟩

theorem readsWithin_checksMember : ∀ field ∈ checksMember result, ReadsWithin 2 field.2 := by
  unfold checksMember
  split
  · refine forall_mem_singleton.mpr (of_option fun checks _ => ?_)
    exact .arr (forall_mem_map.mpr fun record _ => readsWithin_checkRecord record)
  · exact forall_mem_nil _

theorem readsWithin_baseline (baseline : BaselineComparison) : ReadsWithin 2 (baselineToDict baseline) := by
  refine obj (nodup_baselineFields baseline) ?_
  simp only [forall_mem_cons]
  exact ⟨.str _, .str _, .str _, .texts _, .texts _, .texts _, .texts _, nofun⟩

theorem readsWithin_runResult {result : RunResult}
    (h : ∀ measurement ∈ result.val.metrics, measurement.val.value.val.isFinite = true) :
    ReadsWithin 5 (runResultToDict result) := by
  have hFindings : ∀ item ∈ result.val.findings.map findingToDict, ReadsWithin 3 item :=
    forall_mem_map.mpr fun finding _ => readsWithin_finding finding
  have hMetrics : ∀ item ∈ result.val.metrics.map measurementToDict, ReadsWithin 1 item :=
    forall_mem_map.mpr fun measurement hMem => readsWithin_measurement (h measurement hMem)
  refine obj (nodup_runResultFields result) ?_
  simp only [runResultFields, forall_mem_append, forall_mem_cons]
  refine ⟨⟨⟨.str _, .int _, .str _, (readsWithin_producer _).mono.mono.mono,
    (readsWithin_identity _).mono, (readsWithin_scope _).mono.mono,
    (readsWithin_execution _).mono.mono, (readsWithin_gate _).mono.mono,
    (readsWithin_publication _).mono.mono.mono, .arr hFindings, (arr hMetrics).mono.mono,
    .texts _, nofun⟩, ?_⟩, ?_⟩
  · exact fun field hField => (readsWithin_checksMember result field hField).mono.mono
  · exact .of_optional (fun baseline _ => (readsWithin_baseline baseline).mono.mono) _

/-! ## The round trip -/

theorem Finding.stored_eq_self_iff (finding : Finding) : finding.stored = finding ↔
    (finding.val.suppression.val.suppressed = false →
      finding.val.suppression = FindingSuppression.none) := by
  have hStored : finding.stored = finding ↔ finding.val.suppression.stored = finding.val.suppression := by
    refine ⟨fun h => congrArg (·.val.suppression) h, fun h => Subtype.ext ?_⟩
    change { finding.val with suppression := finding.val.suppression.stored } = finding.val
    rw [h]
  rw [hStored, FindingSuppression.stored]
  split
  · simp [*]
  · rename_i hInForce
    rw [imp_iff_right (Bool.eq_false_iff.mpr hInForce)]
    exact eq_comm

theorem RunResult.stored_eq_self_iff : result.stored = result ↔
    ∀ finding ∈ result.val.findings, finding.val.suppression.val.suppressed = false →
      finding.val.suppression = FindingSuppression.none := by
  have hFindings : result.stored = result ↔ result.val.findings.map Finding.stored = result.val.findings := by
    refine ⟨fun h => congrArg (·.val.findings) h, fun h => Subtype.ext ?_⟩
    change { result.val with findings := result.val.findings.map Finding.stored } = result.val
    rw [h]
  have hEach := map_inj_left (f := Finding.stored) (g := id) (l := result.val.findings)
  rw [List.map_id] at hEach
  rw [hFindings, hEach]
  exact forall₂_congr fun finding _ => Finding.stored_eq_self_iff finding

end

/-- `loads(dumps(run_result_to_dict(r)))` is `r`. -/
def RoundTrips (nesting : Nesting) (result : RunResult) : Prop :=
  ∃ text, dumps (runResultToDict result) = .ok text ∧ loadsResult builtin nesting text = .ok result

theorem loadsResult_dumps (nesting : Nesting) {result : RunResult} {text : Text}
    (h : dumps (runResultToDict result) = .ok text) :
    loadsResult builtin nesting text = .ok result.stored := by
  have hPrintable := (printable_runResult_iff result).mp (exists_dumps_iff.mp ⟨text, h⟩)
  have hReads := readsWithin_runResult fun measurement hMem => (hPrintable.2 measurement hMem).1
  rw [loadsResult, hReads.loads (le_trans (by decide) nesting.enough) h]
  exact runResultFromDict_canon result

theorem stored_of_roundTrips {nesting : Nesting} {result : RunResult}
    (h : RoundTrips nesting result) : result.stored = result := by
  obtain ⟨text, hText, hLoads⟩ := h
  rw [loadsResult_dumps nesting hText] at hLoads
  exact Except.ok.inj hLoads

/-- Exactly which results survive: every number can be written, and a suppression that is not in
force carries nothing. -/
theorem roundTrips_iff (nesting : Nesting) (result : RunResult) : RoundTrips nesting result ↔
    ((∀ finding ∈ result.val.findings, finding.IsPrintable) ∧
      ∀ measurement ∈ result.val.metrics, measurement.IsPrintable) ∧
    ∀ finding ∈ result.val.findings, finding.val.suppression.val.suppressed = false →
      finding.val.suppression = FindingSuppression.none := by
  rw [← printable_runResult_iff, ← RunResult.stored_eq_self_iff, ← exists_dumps_iff]
  constructor
  · intro h
    exact ⟨h.imp fun text hText => hText.1, stored_of_roundTrips h⟩
  · rintro ⟨⟨text, hText⟩, hStored⟩
    exact ⟨text, hText, by rw [loadsResult_dumps nesting hText, hStored]⟩

def lapsedFinding : Finding :=
  ⟨{ fingerprint := py "ici-lint-1"
     ruleId := py "E501"
     message := py "line too long"
     severity := py "low"
     confidence := py "high"
     primaryLocation := ⟨{ path := py "a.py", startLine := 3 }, by decide⟩
     provider := py "ruff"
     suppression := ⟨{ reason := py "until the next release" }, by decide⟩ }, by decide⟩

def zeroDigest : Text := py "sha256:" ++ List.replicate 64 0x30

def lapsedIdentity : RunIdentity :=
  ⟨{ source := ⟨{ digest := zeroDigest }, by decide⟩
     policyDigest := zeroDigest
     toolchainDigest := zeroDigest }, by decide⟩

def lapsedRun : RunResult :=
  ⟨{ runId := py "run-1"
     producer := ⟨{ iciVersion := py "1.0" }, by decide⟩
     identity := lapsedIdentity
     scope := ⟨{ kind := .full, fullRequiredSatisfied := true }, by decide⟩
     execution := ⟨{ requiredComplete := true }, by decide⟩
     gate := ⟨{ selected := .notEvaluated }, by decide⟩
     findings := [lapsedFinding] }, by decide⟩

/-- A reason for a suppression that is not in force is gone when the result is read back. -/
theorem not_roundTrips_lapsed : ¬RoundTrips ⟨16, le_refl 16⟩ lapsedRun := by
  intro h
  have hStored := (RunResult.stored_eq_self_iff _).mp (stored_of_roundTrips h)
  have hNone := hStored lapsedFinding (mem_singleton_self _) rfl
  have hReason := congrArg (·.val.reason) hNone
  exact absurd hReason (by decide)

end Ici
