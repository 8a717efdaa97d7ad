import Mathlib.Data.Finset.Sort
import Ici.Domain.Validation
import Ici.Library.Batching
import Ici.Library.Layering

/-! # The declarative verification pipeline

Read-only engines of a layer run together, engines that own a build run alone. -/

namespace Ici

open Python

inductive AnalysisProfile where
  | fast
  | standard
  | deep
deriving DecidableEq

instance : Fintype AnalysisProfile := ⟨{.fast, .standard, .deep}, by rintro ⟨⟩ <;> decide⟩

def AnalysisProfile.value : AnalysisProfile → Text
  | fast => py "fast"
  | standard => py "standard"
  | deep => py "deep"

inductive EngineExecution where
  | readOnly
  | build
deriving DecidableEq

inductive BuildVariant where
  | release
  | coverage
  | sanitize
  | threadSanitize
deriving DecidableEq

structure EngineDescriptorFields where
  name : Text
  factoryName : Text
  dependencies : List Text := []
  produces : List Text := []
  consumes : List Text := [py "analysis-context"]
  profiles : Finset AnalysisProfile := Finset.univ
  execution : EngineExecution := .readOnly
  buildVariant : Option BuildVariant := none
deriving DecidableEq

/-- `self.name or 'engine'`. -/
def EngineDescriptorFields.shown (engine : EngineDescriptorFields) : Text :=
  if engine.name = [] then py "engine" else engine.name

def EngineDescriptorFields.check (engine : EngineDescriptorFields) : Result Unit := do
  [(py "dependencies", engine.dependencies), (py "produces", engine.produces),
    (py "consumes", engine.consumes)].forM fun field => do
      refuseIf ([] ∈ field.2) (engine.shown ++ py " " ++ field.1 ++ py " must be non-empty names")
      refuseIf (¬field.2.Nodup) (engine.shown ++ py " " ++ field.1 ++ py " contains duplicates")
  refuseIf (engine.name = [] ∨ engine.factoryName = [])
    (py "engine descriptor name and factory_name must be non-empty")
  refuseIf (engine.profiles = ∅) (py "engine " ++ engine.name ++ py " must support at least one profile")
  refuseIf (engine.name ∈ engine.dependencies)
    (py "engine " ++ engine.name ++ py " cannot depend on itself")
  refuseIf (engine.execution = .build ∧ engine.buildVariant = none)
    (py "build engine " ++ engine.name ++ py " must declare a build variant")
  refuseIf (engine.execution = .readOnly ∧ engine.buildVariant ≠ none)
    (py "read-only engine " ++ engine.name ++ py " cannot declare a build variant")

abbrev EngineDescriptor := Checked EngineDescriptorFields.check

def EngineDescriptor.name (engine : EngineDescriptor) : Text := engine.val.name

def EngineDescriptor.dependencies (engine : EngineDescriptor) : List Text := engine.val.dependencies

def contextArtifacts : List Text :=
  [py "analysis-context", py "capability-inventory", py "project-model"]

def pipelineDefinitionError (text : Text) : PyError := ⟨py "PipelineDefinitionError", text⟩

/-! ## Validation -/

abbrev EnginesByName := Dict Text EngineDescriptor

def enginesByName (descriptors : List EngineDescriptor) : EnginesByName :=
  Dict.setAll [] (descriptors.map fun descriptor => (descriptor.name, descriptor))

-- the laws of the order by name, as one proof of each in the project
local instance textTrans : IsTrans Text (· ≤ ·) := ⟨fun _ _ _ => le_trans⟩

local instance textAntisymm : Std.Antisymm fun a b : Text => a ≤ b := ⟨fun _ _ => le_antisymm⟩

local instance textTotal : Std.Total fun a b : Text => a ≤ b := ⟨le_total⟩

section

variable (byName : EnginesByName)

def checkDependency (descriptor : EngineDescriptor) (dependency : Text) : Result Unit :=
  match byName.get? dependency with
  | none => .error (pipelineDefinitionError
      (py "engine " ++ descriptor.name ++ py " depends on unknown engine " ++ dependency))
  | some supplier =>
    let missingProfiles := descriptor.val.profiles \ supplier.val.profiles
    if missingProfiles ≠ ∅ then
      let profiles := (missingProfiles.image AnalysisProfile.value).sort (· ≤ ·)
      .error (pipelineDefinitionError (py "engine " ++ descriptor.name ++ py " dependency " ++
        dependency ++ py " is unavailable in " ++ join (py ", ") profiles))
    else .ok ()

def claimArtifact (descriptor : EngineDescriptor) (producers : Dict Text Text) (artifact : Text) :
    Result (Dict Text Text) :=
  match producers.get? artifact with
  | some previous => .error (pipelineDefinitionError (py "artifact " ++ artifact ++
      py " has multiple producers: " ++ previous ++ py ", " ++ descriptor.name))
  | none => .ok (producers.set artifact descriptor.name)

def checkDescriptor (producers : Dict Text Text)
    (descriptor : EngineDescriptor) : Result (Dict Text Text) := do
  descriptor.dependencies.forM (checkDependency byName descriptor)
  descriptor.val.produces.foldlM (claimArtifact descriptor) producers

def topologicalLayers (descriptors : List EngineDescriptor) : Result (List (List EngineDescriptor)) :=
  match Layering.kahn EngineDescriptor.name EngineDescriptor.dependencies descriptors.length []
      descriptors with
  | .ok layers => .ok layers
  | .error (.stuck left) => .error (pipelineDefinitionError
      (py "verification pipeline contains a cycle: " ++ join (py ", ") (left.map (·.name))))
  | .error .outOfFuel => .error noReturn

def dependenciesOf (name : Text) : Result (List Text) :=
  match byName.get? name with
  | some descriptor => .ok descriptor.dependencies
  | none => .error (keyError name)

abbrev Resolved := Dict Text (Finset Text)

/-- `visit`: the fuel stands for the calls that can be nested. -/
def visitEngine (byName : EnginesByName) : ℕ → Resolved → Text → Result (Finset Text × Resolved)
  | 0, _, _ => .error noReturn
  | fuel + 1, resolved, name =>
    match resolved.get? name with
    | some cached => .ok (cached, resolved)
    | none => do
      let dependencies ← dependenciesOf byName name
      let (found, resolved) ← dependencies.foldlM (fun state dependency => do
        let (more, resolved) ← visitEngine byName fuel state.2 dependency
        return (insert dependency state.1 ∪ more, resolved)) (∅, resolved)
      return (found, resolved.set name found)

def transitiveDependencies : Result Resolved :=
  byName.keys.foldlM (fun resolved name => do
    let (_, resolved) ← visitEngine byName (byName.length + 1) resolved name
    return resolved) []

end

def checkConsumed (producers : Dict Text Text) (dependencies : Resolved) (descriptor : EngineDescriptor)
    (artifact : Text) : Result Unit :=
  if artifact ∈ contextArtifacts then .ok ()
  else match producers.get? artifact with
    | none => .error (pipelineDefinitionError
        (py "engine " ++ descriptor.name ++ py " consumes unproduced artifact " ++ artifact))
    | some producer =>
      match dependencies.get? descriptor.name with
      | none => .error (keyError descriptor.name)
      | some found =>
        if producer ∈ found then .ok ()
        else .error (pipelineDefinitionError (py "engine " ++ descriptor.name ++ py " consumes " ++
          artifact ++ py " without depending on " ++ producer))

def validateEngineDescriptors (descriptors : List EngineDescriptor) : Result (List EngineDescriptor) := do
  if descriptors = [] then
    .error (pipelineDefinitionError (py "verification pipeline must contain at least one engine"))
  else
    let byName := enginesByName descriptors
    if byName.length ≠ descriptors.length then
      .error (pipelineDefinitionError (py "verification pipeline contains duplicate engine names"))
    else
      let producers ← descriptors.foldlM (checkDescriptor byName) []
      let _ ← topologicalLayers descriptors
      let dependencies ← transitiveDependencies byName
      descriptors.forM fun descriptor =>
        descriptor.val.consumes.forM (checkConsumed producers dependencies descriptor)
      return descriptors

/-- `PipelineExecutor`: what its constructor lets through. -/
structure PipelineExecutor where
  descriptors : List EngineDescriptor
  maxParallel : ℕ
  max_pos : 1 ≤ maxParallel
  valid : validateEngineDescriptors descriptors = .ok descriptors

/-- What a layer runs, one batch after the other: the pool of its read-only engines, then each engine
that owns a build, on the calling thread. -/
def batchesOf (layer : List EngineDescriptor) : List (List EngineDescriptor) :=
  let readOnly := layer.filter (·.val.execution = .readOnly)
  (if readOnly = [] then [] else [readOnly]) ++
    (layer.filter (·.val.execution = .build)).map fun descriptor => [descriptor]

namespace PipelineExecutor

variable {ρ : Type} (executor : PipelineExecutor)

def batches : Result (List (List EngineDescriptor)) :=
  (topologicalLayers executor.descriptors).map (·.flatMap batchesOf)

abbrev State (ρ : Type) := Batching.State EngineDescriptor Text ρ

/-- `run`, step by step: `execute` may return any of the results it gives for an engine. -/
abbrev Step (execute : EngineDescriptor → ρ → Prop) : State ρ → State ρ → Prop :=
  Batching.Step EngineDescriptor.name (fun batch => min executor.maxParallel batch.length) execute

/-- `[completed[descriptor.name] for descriptor in self.descriptors]`. -/
def results (s : State ρ) : Result (List ρ) :=
  executor.descriptors.mapM fun descriptor =>
    match (s.collected EngineDescriptor.name).get? descriptor.name with
    | some result => .ok result
    | none => .error (keyError descriptor.name)

end PipelineExecutor

end Ici

/-! ## What the checks of a pipeline let through

Names are unique, dependencies are listed and run wherever their engine runs, and every artifact has
one producer. -/

namespace Ici

open Dict List Raising Python

section Names

variable {descriptors : List EngineDescriptor}

theorem keys_namedEngines :
    Dict.keys (descriptors.map fun engine => (engine.name, engine)) = descriptors.map (·.name) := by
  rw [Dict.keys, List.map_map]
  rfl

theorem enginesByName_eq (hUnique : (descriptors.map (·.name)).Nodup) :
    enginesByName descriptors = descriptors.map fun engine => (engine.name, engine) := by
  refine setAll_eq_append ?_
  rw [keys_namedEngines]
  exact hUnique

theorem length_enginesByName_iff :
    (enginesByName descriptors).length = descriptors.length ↔ (descriptors.map (·.name)).Nodup := by
  constructor
  · intro h
    have hKeys : (enginesByName descriptors).keys.Nodup :=
      nodup_keys_setAll (d := []) nodup_nil _
    have hPerm : (enginesByName descriptors).keys.Perm (descriptors.map (·.name)).dedup := by
      refine (perm_ext_iff_of_nodup hKeys (nodup_dedup _)).mpr fun name => ?_
      rw [enginesByName, mem_keys_setAll, mem_dedup]
      simp [Dict.keys]
    have hLength : (descriptors.map (·.name)).dedup.length = (descriptors.map (·.name)).length := by
      rw [← hPerm.length_eq, Dict.keys, length_map, length_map, h]
    exact dedup_eq_self.mp ((dedup_sublist _).eq_of_length hLength)
  · intro hUnique
    rw [enginesByName_eq hUnique, length_map]

theorem mem_enginesByName (hUnique : (descriptors.map (·.name)).Nodup) {name : Text}
    {engine : EngineDescriptor} :
    (enginesByName descriptors).get? name = some engine ↔ engine ∈ descriptors ∧ engine.name = name := by
  rw [enginesByName_eq hUnique]
  constructor
  · intro h
    obtain ⟨found, hFound, hEq⟩ := mem_map.mp (mem_of_get? h)
    cases hEq
    exact ⟨hFound, rfl⟩
  · rintro ⟨hMem, rfl⟩
    refine get?_of_mem ?_ (mem_map.mpr ⟨engine, hMem, rfl⟩)
    rw [keys_namedEngines]
    exact hUnique

theorem checkDependency_eq_ok (hUnique : (descriptors.map (·.name)).Nodup) {engine : EngineDescriptor}
    {dependency : Text} :
    checkDependency (enginesByName descriptors) engine dependency = .ok () ↔
      ∃ supplier ∈ descriptors, supplier.name = dependency ∧
        engine.val.profiles ⊆ supplier.val.profiles := by
  unfold checkDependency
  cases hGet : (enginesByName descriptors).get? dependency with
  | none =>
    refine ⟨nofun, ?_⟩
    rintro ⟨supplier, hMem, hName, -⟩
    cases hGet.symm.trans ((mem_enginesByName hUnique).mpr ⟨hMem, hName⟩)
  | some supplier =>
    obtain ⟨hMem, hName⟩ := (mem_enginesByName hUnique).mp hGet
    simp only
    constructor
    · intro h
      split at h
      · cases h
      · rename_i hNone
        exact ⟨supplier, hMem, hName, Finset.sdiff_eq_empty_iff_subset.mp (not_not.mp hNone)⟩
    · rintro ⟨other, hOther, hSame, hSub⟩
      obtain rfl : other = supplier :=
        inj_on_of_nodup_map hUnique hOther hMem (hSame.trans hName.symm)
      rw [if_neg (not_not.mpr (Finset.sdiff_eq_empty_iff_subset.mpr hSub))]

end Names

def claims (descriptors : List EngineDescriptor) : Dict Text Text :=
  descriptors.flatMap fun engine => engine.val.produces.map fun artifact => (artifact, engine.name)

theorem keys_claims (descriptors : List EngineDescriptor) :
    (claims descriptors).keys = descriptors.flatMap (·.val.produces) := by
  rw [Dict.keys, claims, map_flatMap]
  simp [Function.comp_def]

theorem claimArtifacts_eq_ok {engine : EngineDescriptor} {artifacts : List Text}
    {producers producers' : Dict Text Text} (hProducers : producers.keys.Nodup) :
    artifacts.foldlM (claimArtifact engine) producers = .ok producers' ↔
      (producers.keys ++ artifacts).Nodup ∧
      producers' = producers ++ artifacts.map fun artifact => (artifact, engine.name) := by
  induction artifacts generalizing producers with
  | nil =>
    rw [append_nil, map_nil, append_nil]
    constructor
    · intro h
      cases h
      exact ⟨hProducers, rfl⟩
    · rintro ⟨-, rfl⟩
      rfl
  | cons artifact rest ih =>
    rw [foldlM_cons_eq_ok]
    unfold claimArtifact
    cases hGet : producers.get? artifact with
    | some previous =>
      constructor
      · rintro ⟨_, h, -⟩
        cases h
      · rintro ⟨hNodup, -⟩
        have hKey : artifact ∈ producers.keys := by
          by_contra hNot
          cases hGet.symm.trans ((get?_eq_none_iff _ _).mpr hNot)
        exact absurd mem_cons_self ((disjoint_of_nodup_append hNodup) hKey)
    | none =>
      have hNot := (get?_eq_none_iff _ _).mp hGet
      have hKeys : (producers.set artifact engine.name).keys = producers.keys ++ [artifact] := by
        rw [keys_set, if_neg hNot]
      have hNodup : (producers.set artifact engine.name).keys.Nodup :=
        nodup_keys_set hProducers _ _
      constructor
      · rintro ⟨claimed, hClaimed, hRest⟩
        cases hClaimed
        obtain ⟨hAll, rfl⟩ := (ih hNodup).mp hRest
        rw [hKeys, append_assoc] at hAll
        refine ⟨hAll, ?_⟩
        rw [set_of_notMem hNot, append_assoc]
        rfl
      · rintro ⟨hAll, rfl⟩
        refine ⟨_, rfl, (ih hNodup).mpr ⟨?_, ?_⟩⟩
        · rw [hKeys, append_assoc]
          exact hAll
        · rw [set_of_notMem hNot, append_assoc]
          rfl

theorem checkDescriptors_eq_ok {descriptors : List EngineDescriptor}
    (hUnique : (descriptors.map (·.name)).Nodup) {engines : List EngineDescriptor}
    {producers producers' : Dict Text Text} (hProducers : producers.keys.Nodup) :
    engines.foldlM (checkDescriptor (enginesByName descriptors)) producers = .ok producers' ↔
      (∀ engine ∈ engines, ∀ dependency ∈ engine.dependencies, ∃ supplier ∈ descriptors,
        supplier.name = dependency ∧ engine.val.profiles ⊆ supplier.val.profiles) ∧
      (producers.keys ++ engines.flatMap (·.val.produces)).Nodup ∧
      producers' = producers ++ claims engines := by
  induction engines generalizing producers with
  | nil =>
    rw [claims, flatMap_nil, flatMap_nil, append_nil, append_nil]
    constructor
    · intro h
      cases h
      exact ⟨nofun, hProducers, rfl⟩
    · rintro ⟨-, -, rfl⟩
      rfl
  | cons engine rest ih =>
    have hKeys : (producers ++ engine.val.produces.map fun artifact => (artifact, engine.name)).keys =
        producers.keys ++ engine.val.produces := by
      simp [Dict.keys, Function.comp_def]
    have hClaims : producers ++ claims (engine :: rest) =
        (producers ++ engine.val.produces.map fun artifact => (artifact, engine.name)) ++
          claims rest := by
      rw [claims, flatMap_cons, append_assoc]
      rfl
    rw [foldlM_cons_eq_ok, forall_mem_cons, flatMap_cons, ← append_assoc, ← hKeys, hClaims]
    unfold checkDescriptor
    constructor
    · rintro ⟨claimed, hHead, hRest⟩
      obtain ⟨hSuppliers, hHead⟩ := seq_eq_ok.mp hHead
      obtain ⟨hFresh, rfl⟩ := (claimArtifacts_eq_ok hProducers).mp hHead
      obtain ⟨hAll, hNodup, rfl⟩ := (ih (hKeys ▸ hFresh)).mp hRest
      refine ⟨⟨fun dependency hDependency => ?_, hAll⟩, hNodup, rfl⟩
      exact (checkDependency_eq_ok hUnique).mp (forM_eq_ok.mp hSuppliers dependency hDependency)
    · rintro ⟨⟨hSuppliers, hAll⟩, hNodup, rfl⟩
      have hFresh := hNodup.of_append_left
      refine ⟨_, seq_eq_ok.mpr ⟨?_, (claimArtifacts_eq_ok hProducers).mpr ⟨hKeys ▸ hFresh, rfl⟩⟩,
        (ih hFresh).mpr ⟨hAll, hNodup, rfl⟩⟩
      refine forM_eq_ok.mpr fun dependency hDependency => ?_
      exact (checkDependency_eq_ok hUnique).mpr (hSuppliers dependency hDependency)

theorem EngineDescriptor.nodup_produces (engine : EngineDescriptor) : engine.val.produces.Nodup := by
  obtain ⟨hFields, -⟩ := seq_eq_ok.mp engine.property
  have hProduces := forM_eq_ok.mp hFields (py "produces", engine.val.produces) (by simp)
  exact not_not.mp (refuseIf_eq_ok_iff.mp (seq_eq_ok.mp hProduces).2)

theorem nodup_produces_iff {descriptors : List EngineDescriptor}
    (hUnique : (descriptors.map (·.name)).Nodup) :
    (descriptors.flatMap (·.val.produces)).Nodup ↔
      ∀ first ∈ descriptors, ∀ second ∈ descriptors, ∀ artifact ∈ first.val.produces,
        artifact ∈ second.val.produces → first = second := by
  rw [nodup_flatMap]
  constructor
  · rintro ⟨-, hApart⟩ first hFirst second hSecond artifact hIn hIn'
    by_contra hNe
    have hSymm : Std.Symm fun first second : EngineDescriptor =>
      List.Disjoint first.val.produces second.val.produces := ⟨fun _ _ h => h.symm⟩
    exact hApart.forall hFirst hSecond hNe hIn hIn'
  · intro hOne
    refine ⟨fun engine _ => engine.nodup_produces, ?_⟩
    refine (Nodup.of_map _ hUnique).pairwise_of_forall_ne fun first hFirst second hSecond hNe => ?_
    exact fun artifact hIn hIn' => hNe (hOne first hFirst second hSecond artifact hIn hIn')

end Ici
