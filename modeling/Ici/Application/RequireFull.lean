import Ici.Application.Request

/-! # A full verdict stands on full coverage -/

namespace Ici

open List Raising Python

theorem endsVisibly_join {items : List Text} (hItems : items ≠ []) (h : ∀ item ∈ items, EndsVisibly item) :
    EndsVisibly (join (py ", ") items) := by
  obtain ⟨front, last, rfl⟩ := eq_nil_or_concat items |>.resolve_left hItems
  rw [concat_eq_append]
  have hLast : EndsVisibly last := h last (by simp)
  by_cases hFront : front = []
  · rw [hFront, nil_append, join_singleton]
    exact hLast
  · rw [join_concat hFront]
    exact endsVisibly_append (endsVisibly_append hLast)

theorem isText_requireFull {rest : Text} (h : EndsVisibly rest) : IsText (py "--require-full: " ++ rest) := by
  have hSplit : py "--require-full: " = py "--require-full:" ++ py " " := by decide
  rw [hSplit, List.append_assoc]
  exact isText_append (by decide) (endsVisibly_append h)

theorem isText_unselectedReason (id : Text) : IsText (unselectedReason id) := by
  have hSplit : py "--require-full: required component " = py "--require-full: " ++
    py "required component " := by
    decide
  rw [unselectedReason, hSplit, append_assoc, append_assoc]
  exact isText_requireFull (endsVisibly_append (endsVisibly_append ⟨by decide, by decide⟩))

variable {request : RunRequest} {verification judged : Verification} {gaps : List Text}

theorem isText_filteredReason (hFilter : request.languages ≠ [])
    (hLanguages : ∀ language ∈ request.languages, EndsVisibly language) (id : Text) (missing : List Text) :
    IsText (filteredReason request id missing) := by
  unfold filteredReason
  simp only [append_assoc]
  exact isText_requireFull (endsVisibly_append (endsVisibly_append (endsVisibly_append
    (endsVisibly_append (endsVisibly_join hFilter hLanguages)))))

theorem CompileGap.isText_reason (component : Component) (gap : CompileGap) :
    IsText (gap.reason component) := by
  have hId : IsIdentifier component.val.id :=
    requireIdentifier_eq_ok_iff.mp (seq_eq_ok.mp component.property).1
  have hMessage : EndsVisibly (gap.message component.val.id) := by
    cases gap with
    | noDatabase =>
      show EndsVisibly (py "no compilation database captured its C++ scope")
      exact ⟨by decide, by decide⟩
    | missingUnits count | generatedInput source | buildDefinition build system definition
    | unreachedTarget builds system => exact endsVisibly_append ⟨by decide, by decide⟩
  rw [CompileGap.reason, append_assoc]
  exact isText_append hId.isText (endsVisibly_append hMessage)

variable {model scope : Workspace} {compileGaps : List (Component × CompileGap)}

theorem isText_coverageGaps (hLanguages : ∀ language ∈ request.languages, EndsVisibly language) :
    ∀ reason ∈ coverageGapsOf model request scope compileGaps, IsText reason := by
  intro reason hReason
  unfold coverageGapsOf at hReason
  split at hReason
  · rcases mem_append.mp hReason with hScope | hCompile
    · rcases mem_uncoveredScope.mp hScope with ⟨id, -, -, rfl⟩ | ⟨hFilter, component, -, -, -, rfl⟩
      · exact isText_unselectedReason id
      · exact isText_filteredReason hFilter hLanguages _ _
    · obtain ⟨gap, -, rfl⟩ := mem_map.mp hCompile
      exact gap.2.isText_reason gap.1
  · exact absurd hReason not_mem_nil

/-! ## The gate behind the coverage -/

structure IsDemoted (verification judged : Verification) (gaps : List Text) : Prop where
  selected : judged.gate.val.selected = .incomplete
  reasons : ∀ gap ∈ gaps, gap ∈ judged.gate.val.reasons
  hasViolations : judged.gate.val.hasViolations = verification.gate.val.hasViolations
  findings : judged.findings = verification.findings
  observations : judged.observations = verification.observations

def demotedGate (gate : GateOutcomeFields) (gaps : List Text) : GateOutcomeFields where
  selected := .incomplete
  workspace := .incomplete
  hasViolations := gate.hasViolations
  reasons := gaps ++ if gate.selected = .incomplete then gate.reasons else []

theorem applyRequireFull_eq_ok_iff (hGaps : gaps ≠ []) : applyRequireFull verification gaps = .ok judged ↔
      ∃ gate, GateOutcome.make (demotedGate verification.gate.val gaps) = .ok gate ∧
        judged = { verification with gate } := by
  rw [applyRequireFull, if_neg hGaps, bind_eq_ok]
  exact exists_congr fun gate => and_congr_right fun _ =>
    ⟨fun hEq => (Except.ok.inj hEq).symm, fun hEq => congrArg Except.ok hEq.symm⟩

theorem isDemoted_of_applyRequireFull
    (hGaps : gaps ≠ []) (h : applyRequireFull verification gaps = .ok judged) :
    IsDemoted verification judged gaps := by
  obtain ⟨gate, hGate, rfl⟩ := (applyRequireFull_eq_ok_iff hGaps).mp h
  have hVal : gate.val = demotedGate verification.gate.val gaps := Checked.construct_eq_ok_iff.mp hGate
  exact ⟨by rw [hVal]; rfl, fun gap hGap => by rw [hVal]; exact mem_append_left _ hGap,
    by rw [hVal]; rfl,
    rfl, rfl⟩

theorem demotedGate_check (gate : GateOutcome) {gaps : List Text} (hGaps : gaps ≠ [])
    (hTexts : ∀ gap ∈ gaps, IsText gap) : (demotedGate gate.val gaps).check = .ok () := by
  have hOld := (GateOutcomeFields.check_eq_ok_iff.mp gate.property).1
  refine GateOutcomeFields.check_eq_ok_iff.mpr ⟨fun reason hReason => ?_, by simp [demotedGate],
    by simp [demotedGate, hGaps]⟩
  rcases mem_append.mp hReason with hGap | hKept
  · exact hTexts reason hGap
  · split at hKept
    · exact hOld reason hKept
    · exact absurd hKept not_mem_nil

theorem exists_applyRequireFull
    (hTexts : ∀ gap ∈ gaps, IsText gap) : ∃ judged, applyRequireFull verification gaps = .ok judged := by
  by_cases hGaps : gaps = []
  · exact ⟨verification, by rw [applyRequireFull, if_pos hGaps]⟩
  · obtain ⟨gate, hGate, -⟩ := exists_gate_of_check _ (demotedGate_check verification.gate hGaps hTexts)
    exact ⟨_, (applyRequireFull_eq_ok_iff hGaps).mpr ⟨gate, hGate, rfl⟩⟩

theorem coverageGapsOf_eq_nil_iff {model : Workspace} {request : RunRequest} {scope : Workspace}
    {compileGaps : List (Component × CompileGap)} (hFull : request.requireFull = true) :
    coverageGapsOf model request scope compileGaps = [] ↔
      CoversRequired model request scope ∧ compileGaps = [] := by
  rw [coverageGapsOf, if_pos hFull, append_eq_nil_iff, uncoveredScope_eq_nil_iff, map_eq_nil_iff]

/-- What `--require-full` makes of a verdict. -/
structure IsFullVerdict (model : Workspace) (request : RunRequest) (scope : Workspace)
    (compileGaps : List (Component × CompileGap)) (verification judged : Verification) : Prop where
  covers : judged.gate.val.selected ≠ .incomplete → CoversRequired model request scope ∧ compileGaps = []
  kept : CoversRequired model request scope ∧ compileGaps = [] → judged = verification
  demoted : ¬(CoversRequired model request scope ∧ compileGaps = []) →
    IsDemoted verification judged (coverageGapsOf model request scope compileGaps)
  unselected : ∀ id ∈ model.val.requiredComponentIds, id ∉ scope.val.componentIds →
    unselectedReason id ∈ judged.gate.val.reasons
  filtered : ∀ component ∈ model.val.components, component.val.id ∈ model.val.requiredComponentIds →
    request.languages ≠ [] → missingLanguages request component ≠ [] →
    filteredReason request component.val.id (missingLanguages request component) ∈ judged.gate.val.reasons
  uncompiled : ∀ gap ∈ compileGaps, gap.2.reason gap.1 ∈ judged.gate.val.reasons

theorem isFullVerdict_of_judgeCoverage (hFull : request.requireFull = true)
    (h : judgeCoverage model request scope compileGaps verification = .ok judged) :
    IsFullVerdict model request scope compileGaps verification judged := by
  have hNil := @coverageGapsOf_eq_nil_iff model request scope compileGaps hFull
  have hTold {reason : Text} (hReason : reason ∈ coverageGapsOf model request scope compileGaps) :
      reason ∈ judged.gate.val.reasons :=
    (isDemoted_of_applyRequireFull (ne_nil_of_mem hReason) h).reasons reason hReason
  have hMem (reason : Text) : reason ∈ coverageGapsOf model request scope compileGaps ↔
      reason ∈ uncoveredScope model request scope ∨ ∃ gap ∈ compileGaps, gap.2.reason gap.1 = reason := by
    rw [coverageGapsOf, if_pos hFull, mem_append, mem_map]
  constructor
  case covers =>
    intro hGate
    by_contra hNot
    exact hGate (isDemoted_of_applyRequireFull (mt hNil.mp hNot) h).selected
  case kept =>
    intro hCovered
    rw [judgeCoverage, applyRequireFull, if_pos (hNil.mpr hCovered)] at h
    exact (Except.ok.inj h).symm
  case demoted => exact fun hNot => isDemoted_of_applyRequireFull (mt hNil.mp hNot) h
  case unselected =>
    intro id hId hOut
    exact hTold ((hMem _).mpr (.inl (mem_uncoveredScope.mpr (.inl ⟨id, hId, hOut, rfl⟩))))
  case filtered =>
    intro component hComponent hRequired hFilter hMissing
    exact hTold ((hMem _).mpr (.inl (mem_uncoveredScope.mpr
      (.inr ⟨hFilter, component, hComponent, hRequired, hMissing, rfl⟩))))
  case uncompiled => exact fun gap hGap => hTold ((hMem _).mpr (.inr ⟨gap, hGap, rfl⟩))

theorem requireFull_covers (model : Workspace) (request : RunRequest) (scope : Workspace)
    (compileGaps : List (Component × CompileGap)) (verification : Verification)
    (hFull : request.requireFull = true) :
    (∀ judged, judgeCoverage model request scope compileGaps verification = .ok judged →
      IsFullVerdict model request scope compileGaps verification judged) ∧
      ((∀ language ∈ request.languages, EndsVisibly language) →
        ∃ judged, judgeCoverage model request scope compileGaps verification = .ok judged) :=
  ⟨fun _ => isFullVerdict_of_judgeCoverage hFull,
    fun hLanguages => exists_applyRequireFull (isText_coverageGaps hLanguages)⟩

def serviceComponent : Component := ⟨{ id := py "srv", root := py "srv", languages := [py "go"] }, by decide⟩

def toolComponent : Component := ⟨{ id := py "app", root := py "app", languages := [py "python"] }, by decide⟩

def mixedWorkspace : Workspace :=
  ⟨{ id := py "demo", name := py "Demo", components := [toolComponent, serviceComponent]
     requiredComponentIds := [py "app", py "srv"] }, by decide⟩

def passedVerification : Verification where
  gate := ⟨{ selected := .pass }, by decide⟩
  observations := []
  findings := []

theorem requireFull_covers_mixed :
    ∃ judged, judgeCoverage mixedWorkspace { requireFull := true } mixedWorkspace [] passedVerification =
        .ok judged ∧
      IsFullVerdict mixedWorkspace { requireFull := true } mixedWorkspace [] passedVerification judged := by
  obtain ⟨hVerdict, hReturns⟩ := requireFull_covers mixedWorkspace { requireFull := true } mixedWorkspace []
    passedVerification rfl
  obtain ⟨judged, hJudged⟩ := hReturns fun _ h => nomatch h
  exact ⟨judged, hJudged, hVerdict judged hJudged⟩

/-- No pack owns the component's language: the passing gate stands though it was never checked. -/
theorem unchecked_component_passes :
    ¬∀ (model : Workspace) (request : RunRequest) (scope : Workspace) (profile : Profile)
        (effective : Component → EffectiveComponent) (verification judged : Verification),
      request.requireFull = true → judgeCoverage model request scope [] verification = .ok judged →
      judged.gate.val.selected ≠ .incomplete →
      ∀ component ∈ scope.val.components, ∀ language ∈ component.val.languages,
        language ∈ requestedLanguages request scope →
        ∃ check ∈ plannedChecks request profile component (effective component),
          check.language = language := by
  intro h
  have hKept : judgeCoverage mixedWorkspace { requireFull := true } mixedWorkspace [] passedVerification =
      .ok passedVerification := by
    have hGaps : coverageGapsOf mixedWorkspace { requireFull := true } mixedWorkspace [] = [] := by
      decide +kernel
    rw [judgeCoverage, applyRequireFull, if_pos hGaps]
  obtain ⟨check, hCheck, -⟩ := h mixedWorkspace { requireFull := true } mixedWorkspace .standard
    (fun component => ⟨component.val.id, ⟨py ".", bodyOrigin, .defaults⟩, ⟨[], bodyOrigin, .defaults⟩, [],
      none, [], [], [], [], [], none, none, [], none, none, []⟩)
    passedVerification passedVerification rfl hKept (by decide) serviceComponent (by decide) (py "go")
    (by decide) (by decide +kernel)
  exact nomatch hCheck

end Ici
