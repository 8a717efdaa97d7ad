import Ici.Domain.Validation
import Ici.Library.Cycles
import Ici.Library.Decimals
import Ici.Library.Dict

/-! # Workspace, component, build unit and analysis unit -/

namespace Ici

open List Raising Python

def requireRelativePaths (values : List Text) (description : Text) : Result Unit :=
  values.forM (requireRelativePath · description false)

/-- `_identifiers`: unique identifiers. -/
def requireIdentifiers (values : List Text) (description : Text) : Result Unit := do
  values.forM (requireIdentifier · description)
  requireUniqueIdentifiers values description

/-- `sorted(items)` as a list is printed. -/
def reprSortedList (items : List Text) : Text :=
  py "[" ++ join (py ", ") ((items.insertionSort (· ≤ ·)).map pyRepr) ++ py "]"

structure SourceSnapshotFields where
  digest : Text
  files : List Text := []
  generated : List Text := []
  externalInputs : List Text := []
  commit : Option Text := none
  dirty : Bool := false
deriving DecidableEq

def SourceSnapshotFields.check (snapshot : SourceSnapshotFields) : Result Unit := do
  requireDigest snapshot.digest (py "source snapshot digest")
  requireRelativePaths snapshot.files (py "snapshot file")
  requireRelativePaths snapshot.generated (py "generated input")
  snapshot.externalInputs.forM (requireText · (py "external input"))
  snapshot.commit.toList.forM (requireText · (py "snapshot commit"))

abbrev SourceSnapshot := Checked SourceSnapshotFields.check

structure BuildUnitFields where
  id : Text
  system : Text
  variant : Text
  directory : Text
  definition : Option Text := none
  prepareArgv : List Text := []
  artifacts : List Text := []
deriving DecidableEq

def BuildUnitFields.check (build : BuildUnitFields) : Result Unit := do
  requireIdentifier build.id (py "build unit id")
  requireIdentifier build.system (py "build system")
  requireIdentifier build.variant (py "build variant")
  requireRelativePath build.directory (py "build directory") false
  build.definition.toList.forM (requireRelativePath · (py "build definition") false)
  build.prepareArgv.forM (requireText · (py "prepare argv entry"))
  requireRelativePaths build.artifacts (py "artifact glob")

abbrev BuildUnit := Checked BuildUnitFields.check

structure ComponentFields where
  id : Text
  root : Text
  languages : List Text
  sources : List Text := []
  buildIds : List Text := []
  testPaths : List Text := []
  needs : List Text := []
  include' : List Text := []
  exclude : List Text := []
  vendor : List Text := []
  external : List Text := []
deriving DecidableEq

def ComponentFields.check (component : ComponentFields) : Result Unit := do
  requireIdentifier component.id (py "component id")
  requireRelativePath component.root (py "component root") true
  requireIdentifiers component.languages (py "component language")
  refuseIf (component.languages = [])
    (py "component " ++ component.id ++ py " must declare at least one language")
  requireRelativePaths component.sources (py "component source")
  requireIdentifiers component.buildIds (py "component build id")
  requireRelativePaths component.testPaths (py "component test path")
  requireIdentifiers component.needs (py "component needs")
  refuseIf (component.id ∈ component.needs)
    (py "component " ++ component.id ++ py " cannot need itself")
  requireRelativePaths component.include' (py "component include pattern")
  requireRelativePaths component.exclude (py "component exclude pattern")
  requireRelativePaths component.vendor (py "component vendor pattern")
  component.external.forM (requireText · (py "external input"))

abbrev Component := Checked ComponentFields.check

structure AnalysisUnitFields where
  id : Text
  componentId : Text
  language : Text
  sources : List Text := []
  variant : Option Text := none
  runtime : Option Text := none
  buildId : Option Text := none
deriving DecidableEq

def AnalysisUnitFields.check (unit : AnalysisUnitFields) : Result Unit := do
  requireIdentifier unit.id (py "analysis unit id")
  requireIdentifier unit.componentId (py "analysis unit component")
  requireIdentifier unit.language (py "analysis unit language")
  requireRelativePaths unit.sources (py "analysis unit source")
  unit.variant.toList.forM (requireIdentifier · (py "analysis unit variant"))
  unit.runtime.toList.forM (requireText · (py "analysis unit runtime"))
  unit.buildId.toList.forM (requireIdentifier · (py "analysis unit build id"))

abbrev AnalysisUnit := Checked AnalysisUnitFields.check

section

variable (components : List Component)

def componentEdges (id : Text) : List Text :=
  match components.find? (·.val.id = id) with
  | some component => component.val.needs.filter (· ∈ components.map (·.val.id))
  | none => []

/-- `_component_cycle`: the fuel stands for every node once, and one more. -/
def componentCycle : Except (Cycles.Halt Text) (List Text) :=
  Cycles.search (componentEdges components) (components.length + 1) (components.map (·.val.id))

def refuseCycle : Result Unit :=
  match componentCycle components with
  | .ok _ => .ok ()
  | .error (.cycle nodes) => .error (valueError (py "component dependency cycle: " ++
      join (py " -> ") (nodes ++ nodes.head?.toList)))
  | .error .outOfFuel => .error ⟨py "RecursionError", []⟩

end

/-! ## The workspace -/

structure WorkspaceFields where
  id : Text
  name : Text
  components : List Component := []
  builds : List BuildUnit := []
  analysisUnits : List AnalysisUnit := []
  requiredComponentIds : List Text := []
  policyDigest : Option Text := none
  limitations : List Text := []
deriving DecidableEq

namespace WorkspaceFields

section

variable (workspace : WorkspaceFields)

def componentIds : List Text := workspace.components.map (·.val.id)

def buildIds : List Text := workspace.builds.map (·.val.id)

def checkUnit (unit : AnalysisUnit) : Result Unit := do
  refuseIf (unit.val.componentId ∉ workspace.componentIds)
    (py "analysis unit " ++ unit.val.id ++ py " belongs to unregistered component " ++
      unit.val.componentId)
  unit.val.buildId.toList.forM fun build => refuseIf (build ∉ workspace.buildIds)
    (py "analysis unit " ++ unit.val.id ++ py " references unknown build " ++ build)

def checkDirectory (build : BuildUnit) : Result Unit :=
  match workspace.builds.find? (·.val.directory = build.val.directory) with
  | some owner => refuseIf (owner.val.id ≠ build.val.id)
      (py "build units " ++ owner.val.id ++ py " and " ++ build.val.id ++ py " share directory " ++
        build.val.directory)
  | none => .ok ()

def checkNeed (component : Component) (need : Text) : Result Unit := do
  refuseIf (need ∈ workspace.componentIds ∧ need ∈ workspace.buildIds)
    (py "component " ++ component.val.id ++ py " needs " ++ pyRepr need ++
      py ", which names both a component and a build unit — the edge is ambiguous")
  refuseIf (need ∉ workspace.componentIds ∧ need ∉ workspace.buildIds)
    (py "component " ++ component.val.id ++ py " needs " ++ pyRepr need ++
      py ", which is neither a registered component nor a declared build")

def checkReferences (component : Component) : Result Unit := do
  let missing := component.val.buildIds.filter (· ∉ workspace.buildIds)
  refuseIf (missing ≠ [])
    (py "component " ++ component.val.id ++ py " references undefined build units: " ++
      reprSortedList missing)
  component.val.needs.forM (workspace.checkNeed component)

def check : Result Unit := do
  requireIdentifier workspace.id (py "workspace id")
  requireText workspace.name (py "workspace name")
  requireUniqueIdentifiers workspace.componentIds (py "workspace components")
  requireUniqueIdentifiers workspace.buildIds (py "workspace builds")
  requireUniqueIdentifiers (workspace.analysisUnits.map (·.val.id)) (py "analysis units")
  workspace.analysisUnits.forM workspace.checkUnit
  workspace.builds.forM workspace.checkDirectory
  workspace.components.forM workspace.checkReferences
  refuseCycle workspace.components
  requireIdentifiers workspace.requiredComponentIds (py "required component id")
  let unknown := workspace.requiredComponentIds.filter (· ∉ workspace.componentIds)
  refuseIf (unknown ≠ []) (py "required components are not registered: " ++ reprSortedList unknown)
  workspace.policyDigest.toList.forM (requireDigest · (py "policy digest"))
  workspace.limitations.forM (requireText · (py "workspace limitation"))

end

end WorkspaceFields

abbrev Workspace := Checked WorkspaceFields.check

def Workspace.make : WorkspaceFields → Result Workspace := Checked.construct WorkspaceFields.check

/-- `scoped`: what a run that selected a subset of the components sees. -/
def Workspace.scoped (workspace : Workspace) (componentIds : List Text) : Result Workspace := do
  let selected := Dict.keys (Dict.setAll [] (componentIds.map fun id => (id, ())))
  let unknown := selected.filter (· ∉ workspace.val.componentIds)
  refuseIf (unknown ≠ [])
    (py "cannot scope to unregistered components: " ++ reprSortedList unknown)
  Workspace.make { workspace.val with
    components := workspace.val.components.filter (·.val.id ∈ selected)
    analysisUnits := workspace.val.analysisUnits.filter (·.val.componentId ∈ selected)
    requiredComponentIds := workspace.val.requiredComponentIds.filter (· ∈ selected) }

/-! ## Identifiers made of parts

What is put in front decides nothing about the characters behind it: an identifier goes on with a
separator exactly when what follows ends as an identifier does. -/

def IsTail (t : Text) : Prop := (t.all isIdentifierChar && t.getLast?.any isLowerAlnum) = true

instance (t : Text) : Decidable (IsTail t) := inferInstanceAs (Decidable (_ = _))

def IsSeparator (c : CodePoint) : Prop := isIdentifierChar c = true ∧ isLowerAlnum c = false

instance (c : CodePoint) : Decidable (IsSeparator c) := inferInstanceAs (Decidable (_ ∧ _))

variable {front back t : Text} {separator : CodePoint}

theorem isTail_append_iff (hFront : front.all isIdentifierChar = true)
    (hSeparator : IsSeparator separator) : IsTail (front ++ separator :: back) ↔ IsTail back := by
  unfold IsTail
  rw [all_append, all_cons, hFront, hSeparator.1]
  cases back with
  | nil => simp [hSeparator.2]
  | cons c back => rw [getLast?_append_cons, getLast?_cons_cons]; simp

theorem IsIdentifier.all (h : IsIdentifier t) : t.all isIdentifierChar = true := by
  simp only [IsIdentifier, identifierMatch, Bool.and_eq_true] at h
  exact h.2

theorem isIdentifier_append_iff (hFront : IsIdentifier front)
    (hSeparator : IsSeparator separator) : IsIdentifier (front ++ separator :: back) ↔ IsTail back := by
  rw [← isTail_append_iff hFront.all hSeparator]
  have hHead : (front ++ separator :: back).head? = front.head? := by
    cases front with
    | nil => cases hFront
    | cons c front => rfl
  have hFirst : front.head?.any isLowerAlnum = true := by
    simp only [IsIdentifier, identifierMatch, Bool.and_eq_true] at hFront
    exact hFront.1.1
  unfold IsIdentifier identifierMatch IsTail
  rw [hHead, hFirst, Bool.true_and, Bool.and_comm]

theorem isTail_of_forall (h : ∀ c ∈ t, isLowerAlnum c = true) (hNe : t ≠ []) : IsTail t := by
  simp only [IsTail, Bool.and_eq_true, all_eq_true]
  refine ⟨fun c hc => ?_, ?_⟩
  · rw [isIdentifierChar, h c hc, Bool.true_or, Bool.true_or, Bool.true_or]
  · rw [getLast?_eq_some_getLast hNe]
    exact h _ (getLast_mem hNe)

theorem isTail_natDigits (n : ℕ) : IsTail (natDigits n) := by
  refine isTail_of_forall (fun c hc => ?_) (natDigits_ne_nil n)
  have hDigit := isDigit_of_mem_natDigits hc
  simp only [isDigit] at hDigit
  rw [isLowerAlnum, hDigit, Bool.or_true]

theorem natDigits_injective : Function.Injective natDigits := fun m n h => by
  rw [← digitsValue_natDigits m, h, digitsValue_natDigits]

theorem Component.id_isIdentifier (component : Component) : IsIdentifier component.val.id :=
  requireIdentifier_eq_ok_iff.mp (seq_eq_ok.mp component.property).1

theorem BuildUnit.id_isIdentifier (build : BuildUnit) : IsIdentifier build.val.id :=
  requireIdentifier_eq_ok_iff.mp (seq_eq_ok.mp build.property).1

end Ici
