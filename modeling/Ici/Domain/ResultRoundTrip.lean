import Ici.Domain.FindingRoundTrip

/-! # What is read back from a stored result -/

namespace Ici

open List Raising Python Json Dict RunResultFields Checked

/-! ## The parts of a run -/

def producerFields (producer : Producer) : Dict Text Json :=
  [(py "ici_version", .str producer.val.iciVersion)] ++
    optional (py "bundle_digest") (producer.val.bundleDigest.map .str)

theorem nodup_producerFields (producer : Producer) : (producerFields producer).keys.Nodup := by
  have hNames : [py "ici_version", py "bundle_digest"].Nodup := by decide
  refine hNames.sublist ?_
  rw [Dict.keys, producerFields, map_append]
  exact (Sublist.refl _).append (keys_optional _ _)

theorem producerFromDict_canon (producer : Producer) :
    producerFromDict (canonical (producerFields producer)) = .ok producer := by
  have hKeys := nodup_producerFields producer
  have hCheck := producer.property
  simp only [ProducerFields.check, seq_eq_ok, requireText_eq_ok_iff, forM_eq_ok, Option.mem_toList] at hCheck
  have hBundle : getValue (producerFields producer) (py "bundle_digest") =
      (producer.val.bundleDigest.map Json.str).getD .null := by
    simp +decide only [getValue, producerFields, get?_append, get?_optional, get?, if_true, if_false,
      Option.none_or]
  refine step (text_canon hKeys rfl hCheck.1 _) ?_
  exact step (optionalDigest_canon hKeys hBundle hCheck.2)
    (construct_eq_ok_iff.mpr rfl)

section

variable (snapshot : SourceSnapshot)

def snapshotFields : Dict Text Json :=
  [(py "digest", .str snapshot.val.digest), (py "dirty", .bool snapshot.val.dirty)] ++
  listed (py "files") (snapshot.val.files.map .str) ++
  listed (py "generated") (snapshot.val.generated.map .str) ++
  listed (py "external_inputs") (snapshot.val.externalInputs.map .str) ++
  optional (py "commit") (snapshot.val.commit.map .str)

theorem nodup_snapshotFields : (snapshotFields snapshot).keys.Nodup := by
  have hNames : [py "digest", py "dirty", py "files", py "generated", py "external_inputs",
      py "commit"].Nodup := by decide
  refine hNames.sublist ?_
  simp only [Dict.keys, snapshotFields, map_append]
  exact ((((Sublist.refl _).append (keys_listed _ _)).append (keys_listed _ _)).append
    (keys_listed _ _)).append (keys_optional _ _)

theorem lookup_snapshotFields :
    getOr (snapshotFields snapshot) (py "files") (.arr []) = .arr (snapshot.val.files.map .str) ∧
    getOr (snapshotFields snapshot) (py "generated") (.arr []) =
      .arr (snapshot.val.generated.map .str) ∧
    getOr (snapshotFields snapshot) (py "external_inputs") (.arr []) =
      .arr (snapshot.val.externalInputs.map .str) ∧
    getValue (snapshotFields snapshot) (py "commit") =
      (snapshot.val.commit.map Json.str).getD .null := by
  refine ⟨?_, ?_, ?_, ?_⟩ <;>
  simp +decide only [getValue, getOr, snapshotFields, get?_append, get?_optional, get?_listed,
    get?, getD_listed, if_true, if_false, Option.none_or, Option.or_none]

theorem snapshotFromDict_canon :
    snapshotFromDict builtin (canonical (snapshotFields snapshot)) = .ok snapshot := by
  have hKeys := nodup_snapshotFields snapshot
  obtain ⟨hFiles, hGenerated, hExternal, hCommit⟩ := lookup_snapshotFields snapshot
  have hCheck := snapshot.property
  simp only [SourceSnapshotFields.check, seq_eq_ok] at hCheck
  obtain ⟨hDigestOk, hFilesOk, hGeneratedOk, hExternalOk, hCommitOk⟩ := hCheck
  have hCommitText : ∀ t ∈ snapshot.val.commit, IsText t := fun t ht =>
    requireText_eq_ok_iff.mp (forM_eq_ok.mp hCommitOk t (Option.mem_toList.mpr ht))
  refine step (texts_canon hKeys hFiles) ?_
  refine step (texts_canon hKeys hGenerated) ?_
  refine step (texts_canon hKeys hExternal) ?_
  refine step (bool_canon hKeys rfl) ?_
  refine step (digest_canon hKeys rfl hDigestOk) ?_
  refine step (textItems_str _ _) ?_
  refine step hFilesOk ?_
  refine step (textItems_str _ _) ?_
  refine step hGeneratedOk ?_
  refine step (textItems_str _ _) ?_
  refine step hExternalOk ?_
  exact step (optionalText_canon hKeys hCommit hCommitText _)
    (construct_eq_ok_iff.mpr rfl)

end

def identityFields (identity : RunIdentity) : Dict Text Json :=
  [(py "source", snapshotToDict identity.val.source),
    (py "policy_digest", .str identity.val.policyDigest),
    (py "toolchain_digest", .str identity.val.toolchainDigest),
    (py "fingerprint_version", .str identity.val.fingerprintVersion)]

theorem nodup_identityFields (identity : RunIdentity) : (identityFields identity).keys.Nodup := by
  simp only [identityFields, Dict.keys, map_cons, map_nil]
  decide

theorem identityFromDict_canon (identity : RunIdentity) :
    identityFromDict builtin (identityToDict identity).canon = .ok identity := by
  have hKeys := nodup_identityFields identity
  have hCheck := identity.property
  simp only [RunIdentityFields.check, seq_eq_ok] at hCheck
  have hVersion : builtin.orEmpty
      (getValue (canonical (identityFields identity)) (py "fingerprint_version")) =
        .ok (.str identity.val.fingerprintVersion) := by
    rw [getValue_canon hKeys]
    change Except.ok (if truth (.str identity.val.fingerprintVersion) = true then
      (Json.str identity.val.fingerprintVersion) else .str []) = _
    split
    · rfl
    · rename_i hEmpty
      simp only [truth, decide_eq_true_eq, ne_eq, not_not] at hEmpty
      rw [hEmpty]
  refine step (congrArg (requireMapping · _) (canon_obj (identityFields identity))) ?_
  refine step (by
    rw [getValue_canon hKeys]
    exact congrArg (requireMapping · _) (canon_obj (snapshotFields identity.val.source))) ?_
  refine step (snapshotFromDict_canon _) ?_
  refine step hVersion ?_
  refine step (digest_canon hKeys rfl hCheck.1) ?_
  refine step (digest_canon hKeys rfl hCheck.2) ?_
  exact step rfl (construct_eq_ok_iff.mpr rfl)

theorem scopeItems_str {values : List Text} {name : Text}
    (hEntries : values.forM (requireIdentifier · (py "scope " ++ name ++ py " entry")) = .ok ())
    (hUnique : requireUniqueIdentifiers values (py "scope " ++ name) = .ok ()) :
    scopeItems (values.map .str) name = .ok values := by
  refine step (textItems_str _ _) ?_
  exact step hEntries (step hUnique rfl)

theorem enumMember_scopeKind (kind : ScopeKind) : enumMember scopeKinds (.str kind.value) = some kind := by
  cases kind <;> rfl

def scopeFields (scope : ScopeSelection) : Dict Text Json :=
  [(py "kind", .str scope.val.kind.value),
    (py "selected_components", textList scope.val.selectedComponents),
    (py "selected_languages", textList scope.val.selectedLanguages),
    (py "required_components", textList scope.val.requiredComponents),
    (py "omitted_components", textList scope.val.omittedComponents),
    (py "full_required_satisfied", .bool scope.val.fullRequiredSatisfied)]

theorem nodup_scopeFields (scope : ScopeSelection) : (scopeFields scope).keys.Nodup := by
  simp only [scopeFields, Dict.keys, map_cons, map_nil]
  decide

theorem scopeFromDict_canon (scope : ScopeSelection) :
    scopeFromDict builtin (scopeToDict scope).canon = .ok scope := by
  have hKeys := nodup_scopeFields scope
  have hCheck := scope.property
  simp only [ScopeSelectionFields.check, seq_eq_ok, forM_eq_ok, forall_mem_cons,
    not_mem_nil, false_imp_iff, implies_true, and_true] at hCheck
  obtain ⟨⟨⟨hSelected, hSelectedUnique⟩, ⟨hLanguages, hLanguagesUnique⟩, ⟨hRequired, hRequiredUnique⟩,
    hOmitted, hOmittedUnique⟩, -⟩ := hCheck
  refine step (congrArg (requireMapping · _) (canon_obj (scopeFields scope))) ?_
  refine step (enum_canon hKeys rfl (enumMember_scopeKind _) _) ?_
  refine step (texts_canon hKeys rfl) ?_
  refine step (texts_canon hKeys rfl) ?_
  refine step (texts_canon hKeys rfl) ?_
  refine step (texts_canon hKeys rfl) ?_
  refine step (bool_canon hKeys rfl) ?_
  refine step (scopeItems_str (forM_eq_ok.mpr hSelected) hSelectedUnique) ?_
  refine step (scopeItems_str (forM_eq_ok.mpr hLanguages) hLanguagesUnique) ?_
  refine step (scopeItems_str (forM_eq_ok.mpr hRequired) hRequiredUnique) ?_
  exact step (scopeItems_str (forM_eq_ok.mpr hOmitted) hOmittedUnique)
    (construct_eq_ok_iff.mpr rfl)

section

variable (execution : ExecutionSummary)

def executionFields : Dict Text Json :=
  [(py "required_complete", .bool execution.val.requiredComplete),
    (py "cancelled", .bool execution.val.cancelled),
    (py "blocked_task_ids", textList execution.val.blockedTaskIds),
    (py "failed_task_ids", textList execution.val.failedTaskIds),
    (py "reused_task_ids", textList execution.val.reusedTaskIds)]

theorem nodup_executionFields : (executionFields execution).keys.Nodup := by
  simp only [executionFields, Dict.keys, map_cons, map_nil]
  decide

theorem executionFromDict_canon :
    executionFromDict builtin (canonical (executionFields execution)) = .ok execution := by
  have hKeys := nodup_executionFields execution
  have hCheck := execution.property
  simp only [ExecutionSummaryFields.check, seq_eq_ok, forM_eq_ok,
    forall_mem_cons, not_mem_nil, false_imp_iff, implies_true, and_true] at hCheck
  obtain ⟨⟨hBlocked, hFailed, hReused⟩, -⟩ := hCheck
  refine step (bool_canon hKeys rfl) ?_
  refine step (bool_canon hKeys rfl) ?_
  refine step (texts_canon hKeys rfl) ?_
  refine step (texts_canon hKeys rfl) ?_
  refine step (texts_canon hKeys rfl) ?_
  refine step (textItems_str _ _) ?_
  refine step (forM_eq_ok.mpr hBlocked) ?_
  refine step (textItems_str _ _) ?_
  refine step (forM_eq_ok.mpr hFailed) ?_
  refine step (textItems_str _ _) ?_
  exact step (forM_eq_ok.mpr hReused) (construct_eq_ok_iff.mpr rfl)

end

theorem enumMember_gateVerdict (verdict : GateVerdict) :
    enumMember gateVerdicts (.str verdict.value) = some verdict := by
  cases verdict <;> rfl

def gateFields (gate : GateOutcome) : Dict Text Json :=
  [(py "selected", .str gate.val.selected.value), (py "workspace", .str gate.val.workspace.value),
    (py "has_violations", .bool gate.val.hasViolations), (py "reasons", textList gate.val.reasons)]

theorem nodup_gateFields (gate : GateOutcome) : (gateFields gate).keys.Nodup := by
  simp only [gateFields, Dict.keys, map_cons, map_nil]
  decide

theorem gateFromDict_canon (gate : GateOutcome) : gateFromDict builtin (gateToDict gate).canon =
    .ok gate := by
  have hKeys := nodup_gateFields gate
  refine step (congrArg (requireMapping · _) (canon_obj (gateFields gate))) ?_
  refine step (enum_canon hKeys rfl (enumMember_gateVerdict _) _) ?_
  refine step (enumOr_canon hKeys rfl (enumMember_gateVerdict _) _) ?_
  refine step (bool_canon hKeys rfl) ?_
  refine step (texts_canon hKeys rfl) ?_
  exact step (textItems_str _ _) (construct_eq_ok_iff.mpr rfl)

theorem enumMember_publicationState (state : PublicationState) :
    enumMember publicationStates (.str state.value) = some state := by
  cases state <;> rfl

def publicationFields (publication : PublicationOutcome) : Dict Text Json :=
  [(py "state", .str publication.state.value), (py "detail", .str publication.detail)]

section

variable (publication : PublicationOutcome)

theorem nodup_publicationFields : (publicationFields publication).keys.Nodup := by
  simp only [publicationFields, Dict.keys, map_cons, map_nil]
  decide

theorem publicationFromDict_canon :
    publicationFromDict (publicationToDict publication).canon = .ok publication := by
  have hKeys := nodup_publicationFields publication
  refine step (congrArg (requireMapping · _) (canon_obj (publicationFields publication))) ?_
  refine step (enumOr_canon hKeys rfl (enumMember_publicationState _) _) ?_
  exact step (string_canon hKeys rfl _) rfl

end

theorem enumMember_baselineState (state : BaselineState) :
    enumMember baselineStates (.str state.value) = some state := by
  cases state <;> rfl

theorem baselineItems_str {values : List Text} {name : Text}
    (h : ∀ t ∈ values, requireText t (py "baseline " ++ name ++ py " fingerprint") = .ok ()) :
    baselineItems (values.map .str) name = .ok values := by
  refine step (textItems_str _ _) ?_
  exact step (forM_eq_ok.mpr h) rfl

section

variable (baseline : BaselineComparison)

def baselineFields : Dict Text Json :=
  [(py "state", .str baseline.val.state.value), (py "origin", .str baseline.val.origin),
    (py "reason", .str baseline.val.reason), (py "new", textList baseline.val.new),
    (py "unchanged", textList baseline.val.unchanged),
    (py "resolved", textList baseline.val.resolved), (py "carried", textList baseline.val.carried)]

theorem nodup_baselineFields : (baselineFields baseline).keys.Nodup := by
  simp only [baselineFields, Dict.keys, map_cons, map_nil]
  decide

theorem baselineFromDict_canon :
    baselineFromDict builtin (baselineToDict baseline).canon = .ok (some baseline) := by
  have hKeys := nodup_baselineFields baseline
  have hCheck := baseline.property
  simp only [BaselineComparisonFields.check, seq_eq_ok, forM_eq_ok,
    forall_mem_cons, not_mem_nil, false_imp_iff, implies_true, and_true] at hCheck
  obtain ⟨⟨hNew, hUnchanged, hResolved, hCarried⟩, -⟩ := hCheck
  have hBuilt : construct BaselineComparisonFields.check baseline.val = .ok baseline :=
    construct_eq_ok_iff.mpr rfl
  refine step (congrArg (requireMapping · _) (canon_obj (baselineFields baseline))) ?_
  refine step (enum_canon hKeys rfl (enumMember_baselineState _) _) ?_
  refine step (texts_canon hKeys rfl) ?_
  refine step (texts_canon hKeys rfl) ?_
  refine step (texts_canon hKeys rfl) ?_
  refine step (texts_canon hKeys rfl) ?_
  refine step (string_canon hKeys rfl _) ?_
  refine step (string_canon hKeys rfl _) ?_
  refine step (baselineItems_str hNew) ?_
  refine step (baselineItems_str hUnchanged) ?_
  refine step (baselineItems_str hResolved) ?_
  refine step (baselineItems_str hCarried) ?_
  exact step hBuilt rfl

end

def checkRecordFields (record : CheckRecord) : Dict Text Json :=
  [(py "task_id", .str record.val.taskId), (py "check_id", .str record.val.checkId),
    (py "component_id", .str record.val.componentId), (py "language", .str record.val.language),
    (py "scope_digest", .str record.val.scopeDigest), (py "state", .str record.val.state.value),
    (py "evidence_complete", .bool record.val.evidenceComplete),
    (py "analysis_unit_id", textOrNull record.val.analysisUnitId),
    (py "variant", textOrNull record.val.variant)]

section

variable (record : CheckRecord)

theorem nodup_checkRecordFields : (checkRecordFields record).keys.Nodup := by
  simp only [checkRecordFields, Dict.keys, map_cons, map_nil]
  decide

theorem keys_checkRecordFields : (checkRecordFields record).keys =
    [py "task_id", py "check_id", py "component_id", py "language", py "scope_digest", py "state",
      py "evidence_complete", py "analysis_unit_id", py "variant"] := rfl

theorem checkRecordCall_canonical : checkRecordCall (canonical (checkRecordFields record)) = .ok () := by
  have hKnown : (canonical (checkRecordFields record)).keys.find?
      (fun name => name ∉ py "state" :: checkRecordNames) = none := by
    rw [find?_eq_none]
    intro name hMem
    rw [mem_keys_canonical] at hMem
    have hAll : ∀ name ∈ (checkRecordFields record).keys, name ∈ py "state" :: checkRecordNames := by
      rw [keys_checkRecordFields]
      decide
    exact fun hUnknown => of_decide_eq_true hUnknown (hAll name hMem)
  have hComplete : checkRecordRequired.filter (· ∉ (canonical (checkRecordFields record)).keys) = [] := by
    rw [filter_eq_nil_iff]
    intro name hMem
    have hAll : ∀ name ∈ checkRecordRequired, name ∈ (checkRecordFields record).keys := by
      rw [keys_checkRecordFields]
      decide
    have hIn : name ∈ (canonical (checkRecordFields record)).keys :=
      mem_keys_canonical.mpr (hAll name hMem)
    exact fun hMissing => of_decide_eq_true hMissing hIn
  rw [checkRecordCall, hKnown, hComplete]

theorem checkRecordOfValues_canonical :
    checkRecordOfValues (canonical (checkRecordFields record)) = .ok record := by
  have hKeys := nodup_checkRecordFields record
  have hCheck := record.property
  simp only [CheckRecordFields.check, seq_eq_ok, forM_eq_ok, forall_mem_cons, not_mem_nil, false_imp_iff,
    implies_true, and_true, requireIdentifier_eq_ok_iff, Option.mem_toList] at hCheck
  obtain ⟨⟨hTask, hCheckId, hComponent, hLanguage⟩, ⟨hUnit, hVariant⟩, hScope, -⟩ := hCheck
  have hEvidence : boolValue (getValue (canonical (checkRecordFields record)) (py "evidence_complete"))
      (py "check evidence_complete must be a boolean") = .ok record.val.evidenceComplete := by
    rw [getValue_canon hKeys]
    rfl
  refine step (enum_canon hKeys rfl (enumMember_taskState _) _) ?_
  refine step (checkRecordCall_canonical record) ?_
  refine step (identifier_canon hKeys rfl hTask _) ?_
  refine step (identifier_canon hKeys rfl hCheckId _) ?_
  refine step (identifier_canon hKeys rfl hComponent _) ?_
  refine step (identifier_canon hKeys rfl hLanguage _) ?_
  refine step (optionalIdentifier_canon hKeys rfl hUnit _) ?_
  refine step (optionalIdentifier_canon hKeys rfl hVariant _) ?_
  refine step (digest_canon hKeys rfl hScope) ?_
  exact step hEvidence (construct_eq_ok_iff.mpr rfl)

theorem checkRecordFromDict_canon : checkRecordFromDict (checkRecordToDict record).canon = .ok record := by
  have hExplicit : py "analysis_unit_id" ∈ (canonical (checkRecordFields record)).keys ∧
      py "variant" ∈ (canonical (checkRecordFields record)).keys := by
    rw [mem_keys_canonical, mem_keys_canonical, keys_checkRecordFields]
    decide
  have hDocument : (checkRecordToDict record).canon = .obj (canonical (checkRecordFields record)) :=
    canon_obj (checkRecordFields record)
  rw [hDocument]
  refine step rfl ?_
  rw [if_pos hExplicit, checkRecordOfValues_canonical]

end

theorem checksFromDict_canon (checks : Option (List CheckRecord)) :
    checksFromDict ((checks.map fun checks => Json.arr (checks.map checkRecordToDict)).getD .null).canon =
      .ok checks := by
  cases checks with
  | none => rfl
  | some checks =>
    change checksFromDict (Json.arr (checks.map checkRecordToDict)).canon = _
    rw [canon, canonItems_eq_map, checksFromDict,
      mapM_canon id fun record _ => checkRecordFromDict_canon record, List.map_id]
    rfl

/-! ## The envelope -/

def RunResultFields.stored (result : RunResultFields) : RunResultFields :=
  { result with findings := result.findings.map Finding.stored }

theorem countsAgainstGate_stored (finding : Finding) :
    finding.stored.countsAgainstGate = finding.countsAgainstGate := by
  unfold Finding.countsAgainstGate Finding.stored FindingSuppression.stored
  dsimp only
  split
  · rfl
  · rename_i hInForce
    rw [Bool.eq_false_iff.mpr hInForce]
    rfl

theorem check_stored {result : RunResultFields} (h : result.check = .ok ()) :
    result.stored.check = .ok () := by
  have hBlocking : result.stored.blockingFindings = [] ↔ result.blockingFindings = [] := by
    unfold blockingFindings stored
    simp only [filter_eq_nil_iff, forall_mem_map, countsAgainstGate_stored]
  simp only [check, seq_eq_ok, refuseIf_eq_ok_iff, hBlocking] at h ⊢
  exact h

def RunResult.stored (result : RunResult) : RunResult := ⟨result.val.stored, check_stored result.property⟩

def runResultNames : List Text :=
  [py "schema_id", py "schema_version", py "run_id", py "producer", py "identity", py "scope",
    py "execution", py "gate", py "publication", py "findings", py "metrics", py "limitations",
    py "checks", py "baseline"]

section

variable (result : RunResult)

theorem keys_checksMember : (keys (checksMember result)).Sublist [py "checks"] := by
  unfold checksMember
  split
  · exact Sublist.refl _
  · exact nil_sublist _

theorem nodup_runResultFields : (runResultFields result).keys.Nodup := by
  have hNames : runResultNames.Nodup := by decide
  refine hNames.sublist ?_
  simp only [Dict.keys, runResultFields, map_append]
  exact ((Sublist.refl _).append (keys_checksMember _)).append (keys_optional _ _)

theorem lookup_runResultFields : getValue (runResultFields result) (py "checks") =
      (if 2 ≤ result.val.schemaVersion then
        (result.val.checks.map fun checks => Json.arr (checks.map checkRecordToDict)).getD .null
      else .null) ∧
    getValue (runResultFields result) (py "baseline") =
      (result.val.baseline.map baselineToDict).getD .null := by
  have hAfter (key : Text) : get? (checksMember result) key = if py "checks" = key then
      (if 2 ≤ result.val.schemaVersion then
        some ((result.val.checks.map fun checks => Json.arr (checks.map checkRecordToDict)).getD .null)
      else none) else none := by
    unfold checksMember
    split
    · rfl
    · rw [ite_self]
      rfl
  constructor
  · simp +decide only [getValue, runResultFields, get?_append, get?_optional, hAfter, get?,
      if_true, if_false, Option.none_or, Option.or_none]
    split <;> rfl
  · simp +decide only [getValue, runResultFields, get?_append, get?_optional, hAfter, get?,
      if_true, if_false, Option.none_or]

theorem mem_checks_keys :
    py "checks" ∈ (canonical (runResultFields result)).keys ↔ 2 ≤ result.val.schemaVersion := by
  rw [mem_keys_canonical]
  unfold runResultFields checksMember Dict.keys
  rw [map_append, map_append, mem_append, mem_append]
  constructor
  · rintro ((hMem | hMem) | hMem)
    · exact absurd hMem (by
        change py "checks" ∉ [py "schema_id", py "schema_version", py "run_id", py "producer",
          py "identity", py "scope", py "execution", py "gate", py "publication", py "findings",
          py "metrics", py "limitations"]
        decide)
    · split at hMem
      · assumption
      · cases hMem
    · have hName := (keys_optional _ _).subset hMem
      exact absurd hName (by decide)
  · intro h
    rw [if_pos h]
    exact .inl (.inr (by simp))

theorem runOfValues_canonical : runOfValues builtin (canonical (runResultFields result))
        (canonical (executionFields result.val.execution))
        (canonical (producerFields result.val.producer)) result.val.schemaVersion =
      .ok result.stored := by
  have hKeys := nodup_runResultFields result
  obtain ⟨hChecks, hBaseline⟩ := lookup_runResultFields result
  have hCheck := result.property
  simp only [check, seq_eq_ok, refuseIf_eq_ok_iff, requireText_eq_ok_iff] at hCheck
  obtain ⟨hRunId, -, hSchema, hVersions, hRecords, -, -⟩ := hCheck
  have hFindings : ((result.val.findings.map findingToDict).map canon).mapM (findingFromDict builtin) =
      .ok (result.val.findings.map Finding.stored) :=
    mapM_canon _ fun finding _ => findingFromDict_canon finding
  have hMetrics : ((result.val.metrics.map measurementToDict).map canon).mapM (measurementFromDict builtin) =
      .ok result.val.metrics := by
    rw [mapM_canon id fun measurement _ => measurementFromDict_canon measurement, List.map_id]
  have hBaselineRead : baselineFromDict builtin (getValue (canonical (runResultFields result))
    (py "baseline")) =
      .ok result.val.baseline := by
    rw [getValue_canon hKeys, hBaseline]
    cases result.val.baseline with
    | none => rfl
    | some baseline => exact baselineFromDict_canon baseline
  have hChecksRead : checksFromDict (getValue (canonical (runResultFields result)) (py "checks")) =
      .ok result.val.checks := by
    rw [getValue_canon hKeys, hChecks]
    split
    · exact checksFromDict_canon _
    · rename_i hOld
      have hNone : result.val.checks = none := by
        cases hSome : result.val.checks with
        | none => rfl
        | some checks =>
          have hMem : checks ∈ result.val.checks.toList := hSome ▸ mem_singleton_self _
          have hRecord := forM_eq_ok.mp hRecords checks hMem
          have hNotOld := refuseIf_eq_ok_iff.mp (seq_eq_ok.mp hRecord).1
          omega
      rw [hNone]
      rfl
  have hBuilt : construct check
      { runId := result.val.runId
        producer := result.val.producer
        identity := result.val.identity
        scope := result.val.scope
        execution := result.val.execution
        gate := result.val.gate
        findings := result.val.findings.map Finding.stored
        metrics := result.val.metrics
        publication := result.val.publication
        limitations := result.val.limitations
        baseline := result.val.baseline
        checks := result.val.checks
        schemaVersion := result.val.schemaVersion } = .ok result.stored := by
    rw [construct_eq_ok_iff]
    change result.val.stored = _
    unfold stored
    rw [show result.val.schemaId = py "ici.next.run" from not_not.mp hSchema]
  refine step (producerFromDict_canon _) ?_
  refine step (by rw [getValue_canon hKeys]; exact identityFromDict_canon _) ?_
  refine step (by rw [getValue_canon hKeys]; exact scopeFromDict_canon _) ?_
  refine step (executionFromDict_canon _) ?_
  refine step (by rw [getValue_canon hKeys]; exact gateFromDict_canon _) ?_
  refine step (tuple_canon hKeys rfl) ?_
  refine step hFindings ?_
  refine step (tuple_canon hKeys rfl) ?_
  refine step hMetrics ?_
  refine step (by rw [getValue_canon hKeys]; exact publicationFromDict_canon _) ?_
  refine step (texts_canon hKeys rfl) ?_
  refine step hBaselineRead ?_
  refine step hChecksRead ?_
  refine step (text_canon hKeys rfl hRunId _) ?_
  exact step (textItems_str _ _) hBuilt

theorem runResultFromDict_canon :
    runResultFromDict builtin (runResultToDict result).canon = .ok result.stored := by
  have hKeys := nodup_runResultFields result
  have hCheck := result.property
  simp only [check, seq_eq_ok, refuseIf_eq_ok_iff] at hCheck
  obtain ⟨-, -, hSchema, hVersions, -⟩ := hCheck
  have hSchemaId : result.val.schemaId = py "ici.next.run" := not_not.mp hSchema
  have hNumber : getValue (canonical (runResultFields result)) (py "schema_version") =
      .int result.val.schemaVersion := by
    rw [getValue_canon hKeys]
    rfl
  have hId : getValue (canonical (runResultFields result)) (py "schema_id") = .str (py "ici.next.run") := by
    rw [getValue_canon hKeys, ← hSchemaId]
    rfl
  have hVersion : envelopeVersion (canonical (runResultFields result)) = result.val.schemaVersion := by
    unfold envelopeVersion
    rw [hNumber]
    dsimp only
    split <;> omega
  have hEnvelope : checkEnvelope (canonical (runResultFields result)) (py "ici.next.run")
      result.val.schemaVersion = .ok () := by
    unfold checkEnvelope
    rw [hId, hNumber]
    dsimp only
    rw [if_pos rfl, if_pos rfl]
  have hOld : ¬(result.val.schemaVersion = 1 ∧ py "checks" ∈ (canonical (runResultFields result)).keys) := by
    rw [mem_checks_keys]
    omega
  have hNew : ¬(result.val.schemaVersion = 2 ∧ py "checks" ∉ (canonical (runResultFields result)).keys) := by
    rw [mem_checks_keys]
    omega
  have hExecution : requireMapping (getValue (canonical (runResultFields result)) (py "execution"))
      (py "execution") = .ok (canonical (executionFields result.val.execution)) := by
    rw [getValue_canon hKeys]
    exact congrArg (requireMapping · _) (canon_obj (executionFields result.val.execution))
  have hProducer : requireMapping (getValue (canonical (runResultFields result)) (py "producer"))
      (py "producer") = .ok (canonical (producerFields result.val.producer)) := by
    rw [getValue_canon hKeys]
    exact congrArg (requireMapping · _) (canon_obj (producerFields result.val.producer))
  rw [runResultToDict, canon_obj]
  refine step rfl ?_
  dsimp only
  rw [hVersion]
  refine step hEnvelope ?_
  rw [if_neg hOld, if_neg hNew]
  refine step hExecution (step hProducer ?_)
  rw [runOfValues_canonical]
  rfl

end

end Ici
