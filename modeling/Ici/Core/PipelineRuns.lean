import Ici.Core.PipelineAccepts

/-! # Running a pipeline

Whatever order the workers finish in, every engine runs once, after what it depends on, an engine
that owns a build runs alone, and the results come in the order of the definition. -/

namespace Ici

open List Raising Python Transition Batching

/-! ## Batches -/

theorem flatten_batchesOf (layer : List EngineDescriptor) : (batchesOf layer).flatten.Perm layer := by
  have hPool : (if layer.filter (·.val.execution = .readOnly) = [] then []
      else [layer.filter (·.val.execution = .readOnly)]).flatten =
      layer.filter (·.val.execution = .readOnly) := by
    split
    · rename_i hNone
      rw [hNone, flatten_nil]
    · rw [flatten_singleton]
  have hAlone : ((layer.filter (·.val.execution = .build)).map fun descriptor => [descriptor]).flatten =
      layer.filter (·.val.execution = .build) := by
    rw [← flatMap_def, flatMap_singleton']
  have hOther : layer.filter (·.val.execution = .build) =
      layer.filter (fun engine => !decide (engine.val.execution = .readOnly)) := by
    refine filter_congr fun engine _ => ?_
    cases engine.val.execution <;> decide
  unfold batchesOf
  rw [flatten_append, hPool, hAlone, hOther]
  exact filter_append_perm _ layer

theorem mem_batchesOf {layer batch : List EngineDescriptor} (h : batch ∈ batchesOf layer) :
    (∀ engine ∈ batch, engine.val.execution = .readOnly) ∨ ∃ engine, batch = [engine] := by
  unfold batchesOf at h
  rcases mem_append.mp h with hPool | hAlone
  · left
    split at hPool
    · cases hPool
    · obtain rfl := mem_singleton.mp hPool
      exact fun engine hEngine => of_decide_eq_true (mem_filter.mp hEngine).2
  · obtain ⟨engine, -, rfl⟩ := mem_map.mp hAlone
    exact .inr ⟨engine, rfl⟩

/-- What `run` hands out: the engines of the pipeline, a batch after those it depends on. -/
structure AreBatches (descriptors : List EngineDescriptor) (batches : List (List EngineDescriptor)) :
    Prop where
  listed : batches.flatten.Perm descriptors
  ordered : Batching.Ordered EngineDescriptor.name EngineDescriptor.dependencies batches
  alone : ∀ batch ∈ batches,
    (∀ engine ∈ batch, engine.val.execution = .readOnly) ∨ ∃ engine, batch = [engine]

theorem AreBatches.keys {descriptors : List EngineDescriptor} {batches : List (List EngineDescriptor)}
    (h : AreBatches descriptors batches) (hPipeline : IsPipeline descriptors) :
    (batches.flatten.map EngineDescriptor.name).Nodup :=
  (h.listed.map _).nodup_iff.mpr hPipeline.unique

namespace PipelineExecutor

variable {ρ : Type} {execute : EngineDescriptor → ρ → Prop} (executor : PipelineExecutor)

theorem isPipeline : executor.descriptors ≠ [] ∧ IsPipeline executor.descriptors :=
  (validateEngineDescriptors_eq_ok.mp executor.valid).2

theorem exists_batches : ∃ batches, executor.batches = .ok batches ∧
    AreBatches executor.descriptors batches := by
  obtain ⟨-, hPipeline⟩ := executor.isPipeline
  have hKnown : AreKnown executor.descriptors := fun engine hEngine dependency hIn => by
    obtain ⟨supplier, hSupplier, rfl, -⟩ := hPipeline.available engine hEngine dependency hIn
    exact mem_map_of_mem hSupplier
  obtain ⟨layers, hLayers⟩ :=
    (exists_topologicalLayers_iff hPipeline.unique hKnown).mpr hPipeline.acyclic
  obtain ⟨hPerm, hOrdered, -⟩ := topologicalLayers_ok hLayers
  refine ⟨layers.flatMap batchesOf, map_eq_ok.mpr ⟨layers, hLayers, rfl⟩, ?_, ?_, ?_⟩
  · have hParts : (layers.flatMap batchesOf).flatten = layers.flatMap fun layer =>
        (batchesOf layer).flatten := by
      rw [flatten_eq_flatMap, flatMap_assoc]
      simp only [flatten_eq_flatMap]
    rw [hParts]
    refine List.Perm.trans (Perm.flatMap_left _ fun layer _ => flatten_batchesOf layer) ?_
    rw [flatMap_id']
    exact hPerm
  · refine Batching.Ordered.flatMap ?_ flatten_batchesOf
    rintro earlier layer later rfl engine hEngine dependency hIn
    rcases hOrdered.before hEngine hIn with hDone | hEarlier
    · cases hDone
    · exact mem_map.mp hEarlier
  · intro batch hBatch
    obtain ⟨layer, -, hIn⟩ := mem_flatMap.mp hBatch
    exact mem_batchesOf hIn

section Run

variable {batches : List (List EngineDescriptor)} (hBatches : AreBatches executor.descriptors batches)
  {s : State ρ} (hRun : Reaches (executor.Step execute) (.begin batches) s)
include hBatches hRun

theorem runs_after_dependencies {past future : List (Batching.Event EngineDescriptor ρ)}
    {engine : EngineDescriptor} (hHistory : s.history = past ++ .started engine :: future)
    {dependency : Text} (hIn : dependency ∈ engine.dependencies) :
    ∃ supplier result, supplier.name = dependency ∧ .returned supplier result ∈ past :=
  started_after (hBatches.keys executor.isPipeline.2) hBatches.ordered hRun hHistory hIn

theorem build_runs_alone {engine : EngineDescriptor} (hRunning : engine ∈ s.running)
    (hBuild : engine.val.execution = .build) : s.running = [engine] := by
  rcases running_within_batch (hBatches.keys executor.isPipeline.2) hBatches.ordered hRun with
    ⟨batch, hBatch, hSub⟩ | hNone
  · rcases hBatches.alone batch hBatch with hReadOnly | ⟨other, rfl⟩
    · cases (hReadOnly engine (hSub.subset hRunning)).symm.trans hBuild
    · obtain rfl := mem_singleton.mp (hSub.subset hRunning)
      have hLength := hSub.length_le
      obtain ⟨found, hFound⟩ := length_eq_one_iff.mp
        (le_antisymm hLength (length_pos_of_mem hRunning))
      rw [hFound] at hRunning ⊢
      rw [mem_singleton.mp hRunning]
  · rw [hNone] at hRunning
    cases hRunning

theorem returns_in_order (hReturns : ∀ engine, ∃ result, execute engine result)
    (hRest : AtRest (executor.Step execute) s) :
    (s.history.filterMap Batching.Event.startedTask?).Perm executor.descriptors ∧
    (s.history.filterMap Batching.Event.returnedTask?).Perm executor.descriptors ∧
    ∃ results, executor.results s = .ok results ∧ List.Forall₂ (fun engine result =>
      .returned engine result ∈ s.history ∧ execute engine result) executor.descriptors results := by
  have hKeys := hBatches.keys executor.isPipeline.2
  have hWorkers (batch : List EngineDescriptor) (hBatch : batch ≠ []) :
      0 < min executor.maxParallel batch.length :=
    lt_min executor.max_pos (length_pos_of_ne_nil hBatch)
  have hFinished := finished_of_atRest hKeys hBatches.ordered hRun hWorkers hReturns hRest
  obtain ⟨hStarted, hReturned, hResults⟩ :=
    finished_run hKeys hBatches.ordered hRun hFinished
  refine ⟨hStarted.trans hBatches.listed, hReturned.trans hBatches.listed, ?_⟩
  refine exists_mapM_of_forall fun engine hEngine => ?_
  obtain ⟨result, hResult, hEvent⟩ := hResults engine (hBatches.listed.mem_iff.mpr hEngine)
  exact ⟨result, by rw [hResult], hEvent⟩

end Run

theorem step_wellFounded : WellFounded fun t s : State ρ => executor.Step execute s t :=
  Subrelation.wf step_measure (measure Batching.State.measure).wf

end PipelineExecutor

theorem pipeline_correct {ρ : Type} (execute : EngineDescriptor → ρ → Prop)
    (hReturns : ∀ engine, ∃ result, execute engine result) :
    (∀ descriptors, (∃ accepted, validateEngineDescriptors descriptors = .ok accepted) ↔
      descriptors ≠ [] ∧ IsPipeline descriptors) ∧
    ∀ executor : PipelineExecutor, ∃ batches, executor.batches = .ok batches ∧
      (WellFounded fun t s : PipelineExecutor.State ρ => executor.Step execute s t) ∧
      ∀ s, Reaches (executor.Step execute) (.begin batches) s →
        (∀ past engine future, s.history = past ++ .started engine :: future →
          ∀ dependency ∈ engine.dependencies, ∃ supplier result, supplier.name = dependency ∧
            .returned supplier result ∈ past) ∧
        (∀ engine ∈ s.running, engine.val.execution = .build → s.running = [engine]) ∧
        (AtRest (executor.Step execute) s →
          (s.history.filterMap Batching.Event.startedTask?).Perm executor.descriptors ∧
          (s.history.filterMap Batching.Event.returnedTask?).Perm executor.descriptors ∧
          ∃ results, executor.results s = .ok results ∧
            List.Forall₂ (fun engine result => .returned engine result ∈ s.history ∧
              execute engine result) executor.descriptors results) := by
  refine ⟨fun descriptors => exists_validateEngineDescriptors_iff, fun executor => ?_⟩
  obtain ⟨batches, hBatches, hAre⟩ := executor.exists_batches
  refine ⟨batches, hBatches, executor.step_wellFounded, fun s hRun => ⟨?_, ?_, ?_⟩⟩
  · intro past engine future hHistory dependency hIn
    exact executor.runs_after_dependencies hAre hRun hHistory hIn
  · intro engine hRunning hBuild
    exact executor.build_runs_alone hAre hRun hRunning hBuild
  · exact executor.returns_in_order hAre hRun hReturns

/-- The build of the engine registry, and an engine that reads what it made. -/
def buildEngine : EngineDescriptor :=
  ⟨{ name := py "build"
     factoryName := py "BuildEngine"
     produces := [py "findings:build", py "artifact-manifests", py "build:release"]
     consumes := [py "analysis-context", py "capability-inventory"]
     profiles := {.deep}
     execution := .build
     buildVariant := some .release }, by decide⟩

def binaryCompatEngine : EngineDescriptor :=
  ⟨{ name := py "binary_compat"
     factoryName := py "BinaryCompatibilityEngine"
     dependencies := [py "build"]
     produces := [py "findings:binary-compat", py "elf-facts"]
     consumes := [py "analysis-context", py "capability-inventory", py "artifact-manifests"]
     profiles := {.deep} }, by decide⟩

def compatExecutor : PipelineExecutor where
  descriptors := [binaryCompatEngine, buildEngine]
  maxParallel := 4
  max_pos := by decide
  valid := by decide

theorem pipeline_correct_compat :
    ((∃ accepted, validateEngineDescriptors compatExecutor.descriptors = .ok accepted) ↔
      compatExecutor.descriptors ≠ [] ∧ IsPipeline compatExecutor.descriptors) ∧
    ∃ batches, compatExecutor.batches = .ok batches ∧ ∀ s : PipelineExecutor.State Text,
        Reaches (compatExecutor.Step fun engine result => result = engine.name) (.begin batches) s →
        AtRest (compatExecutor.Step fun engine result => result = engine.name) s →
        ∃ results, compatExecutor.results s = .ok results ∧
          List.Forall₂ (fun engine result => .returned engine result ∈ s.history ∧ result = engine.name)
            compatExecutor.descriptors results := by
  obtain ⟨hAccepts, hRuns⟩ := pipeline_correct (fun engine (result : Text) => result = engine.name)
    fun engine => ⟨engine.name, rfl⟩
  obtain ⟨batches, hBatches, -, hAll⟩ := hRuns compatExecutor
  refine ⟨hAccepts _, batches, hBatches, fun s hRun hRest => ?_⟩
  exact ((hAll s hRun).2.2 hRest).2.2

end Ici
