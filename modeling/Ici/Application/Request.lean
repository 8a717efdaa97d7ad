import Ici.Application.Verify
import Ici.Application.Selection

/-! # What the user asked a run to cover

Language flags filter checks, never the model. `--require-full` is a coverage gate. -/

namespace Ici

open List Python

structure RunRequest where
  components : List Text := []
  languages : List Text := []
  profile : Option Profile := none
  requireFull : Bool := false
  staticOnly : Bool := false

def scopeOf (model : Workspace) (request : RunRequest) : Result Workspace :=
  if request.components = [] then .ok model
  else match request.components.find? (· ∉ model.val.componentIds) with
    | none => model.scoped request.components
    | some unknown =>
      let declared := join (py ", ") (model.val.componentIds.insertionSort (· ≤ ·))
      .error (valueError (py "no component " ++ pyRepr unknown ++ py "; declared: " ++
        if declared = [] then py "none" else declared))

section

variable (request : RunRequest)

def wanted (check : CheckDefinition) : Bool :=
  !(request.staticOnly && !check.static) &&
    (request.languages.isEmpty || check.language ∈ request.languages)

def requestedLanguages (scope : Workspace) : List Text :=
  let declared := scope.val.components.flatMap (·.val.languages)
  if request.languages = [] then declared.dedup.insertionSort (· ≤ ·)
  else (request.languages.filter (· ∈ declared)).insertionSort (· ≤ ·)

/-- The checks a component's languages own, and its integration cases, as far as the request wants them. -/
def availableChecks (component : Component) (effective : EffectiveComponent) : List CheckDefinition :=
  let available := (checksFor component.val.languages).filter (wanted request)
  if available = [] then []
  else if effective.integrations ≠ [] ∧ wanted request integrationCasesCheck then
    available ++ [integrationCasesCheck]
  else available

/-- The checks `plans` selects for a component. -/
def plannedChecks (profile : Profile) (component : Component)
    (effective : EffectiveComponent) : List CheckDefinition :=
  (selectedEffectiveChecks effective (availableChecks request component effective) profile).selected

/-! ## What was left out -/

def unselectedReason (componentId : Text) : Text :=
  py "--require-full: required component " ++ pyRepr componentId ++ py " was not in the selected scope"

def filteredReason (componentId : Text) (missing : List Text) : Text :=
  py "--require-full: " ++ componentId ++ py " declares " ++ join (py ", ") missing ++
    py " but the request selected only " ++ join (py ", ") request.languages

def missingLanguages (component : Component) : List Text :=
  (component.val.languages.filter (· ∉ request.languages)).insertionSort (· ≤ ·)

end

def uncoveredScope (model : Workspace) (request : RunRequest) (scope : Workspace) : List Text :=
  let unselected := model.val.requiredComponentIds.filter (· ∉ scope.val.componentIds)
  let filtered := if request.languages = [] then [] else
    (model.val.components.filter (·.val.id ∈ model.val.requiredComponentIds)).filter
      (missingLanguages request · ≠ [])
  (unselected.insertionSort (· ≤ ·)).map unselectedReason ++
    filtered.map fun component => filteredReason request component.val.id (missingLanguages request component)

inductive CompileGap where
  | noDatabase
  | missingUnits (count : ℕ)
  | generatedInput (source : Text)
  | buildDefinition (build system definition : Text)
  | unreachedTarget (builds : List Text) (system : Text)

namespace CompileGap

def message (componentId : Text) : CompileGap → Text
  | noDatabase => py "no compilation database captured its C++ scope"
  | missingUnits count => natDigits count ++ py " translation unit(s) have no compile invocation"
  | generatedInput source => source ++
      py ": the database names a build-generated input that is not on disk — the capture is partial or stale"
  | buildDefinition build system definition => py "build '" ++ build ++ py "' (" ++ system ++
    py ") declares " ++
      definition ++ py ", which is not on disk"
  | unreachedTarget builds system => componentId ++
      py ": its root is not reached by the declared root project's tree (" ++ join (py ", ") builds ++
      py ") — " ++ system ++ py " would not compile its sources"

def reason (component : Component) (gap : CompileGap) : Text :=
  component.val.id ++ py ": " ++ gap.message component.val.id

end CompileGap

/-- `apply_require_full`: the gate is demoted when coverage was left out. -/
def applyRequireFull (verification : Verification) (coverageGaps : List Text) : Result Verification :=
  if coverageGaps = [] then .ok verification
  else do
    let gate := verification.gate.val
    let reasons := coverageGaps ++ if gate.selected = .incomplete then gate.reasons else []
    let gate ← GateOutcome.make {
      selected := .incomplete
      workspace := .incomplete
      hasViolations := gate.hasViolations
      reasons }
    return { verification with gate }

section

variable (model : Workspace) (request : RunRequest) (scope : Workspace)

def coverageGapsOf (compileGaps : List (Component × CompileGap)) : List Text :=
  if request.requireFull then
    uncoveredScope model request scope ++ compileGaps.map fun gap => gap.2.reason gap.1
  else []

def judgeCoverage (compileGaps : List (Component × CompileGap)) (verification : Verification) : Result Verification :=
  applyRequireFull verification (coverageGapsOf model request scope compileGaps)

def CoversRequired : Prop :=
  ∀ id ∈ model.val.requiredComponentIds, id ∈ scope.val.componentIds ∧
    ∀ component ∈ model.val.components, component.val.id = id →
      request.languages = [] ∨ ∀ language ∈ component.val.languages, language ∈ request.languages

end

variable {request : RunRequest} {model scope : Workspace}

theorem missingLanguages_eq_nil_iff {component : Component} :
    missingLanguages request component = [] ↔ ∀ language ∈ component.val.languages,
      language ∈ request.languages := by
  have hSorted : missingLanguages request component = [] ↔
      component.val.languages.filter (· ∉ request.languages) = [] := by
    rw [missingLanguages, ← length_eq_zero_iff, length_insertionSort, length_eq_zero_iff]
  rw [hSorted, filter_eq_nil_iff]
  exact forall₂_congr fun language _ => by simp

theorem mem_uncoveredScope {reason : Text} : reason ∈ uncoveredScope model request scope ↔
      (∃ id ∈ model.val.requiredComponentIds, id ∉ scope.val.componentIds ∧ unselectedReason id = reason) ∨
        request.languages ≠ [] ∧ ∃ component ∈ model.val.components,
          component.val.id ∈ model.val.requiredComponentIds ∧ missingLanguages request component ≠ [] ∧
            filteredReason request component.val.id (missingLanguages request component) = reason := by
  unfold uncoveredScope
  simp only [mem_append, mem_map, mem_insertionSort, mem_filter, decide_eq_true_eq]
  refine or_congr (by simp only [and_assoc]) ?_
  by_cases hAll : request.languages = []
  · simp [hAll]
  · simp only [hAll, if_false, mem_filter, decide_eq_true_eq, ne_eq, not_false_eq_true, true_and, and_assoc]

theorem uncoveredScope_eq_nil_iff :
    uncoveredScope model request scope = [] ↔ CoversRequired model request scope := by
  rw [eq_nil_iff_forall_not_mem]
  constructor
  · intro h id hId
    constructor
    · by_contra hOut
      exact h _ (mem_uncoveredScope.mpr (.inl ⟨id, hId, hOut, rfl⟩))
    · intro component hComponent hSame
      rw [← missingLanguages_eq_nil_iff]
      by_contra hNot
      obtain ⟨hFilter, hMissing⟩ := not_or.mp hNot
      exact h _ (mem_uncoveredScope.mpr (.inr ⟨hFilter, component, hComponent, hSame ▸ hId, hMissing, rfl⟩))
  · intro h reason hReason
    rcases mem_uncoveredScope.mp hReason with ⟨id, hId, hOut, -⟩ | ⟨hFilter, component, hComponent, hRequired,
      hMissing, -⟩
    · exact hOut (h id hId).1
    · exact hMissing (missingLanguages_eq_nil_iff.mpr
        (((h _ hRequired).2 component hComponent rfl).resolve_left hFilter))

end Ici
