import Ici.Application.Containment

/-! # What a run owes its checks

Every check its one observation, every unit its one record, and a crash to its own consumers. -/

namespace Ici

open Dict List Raising Python

def AnswersAlone (graph : TaskGraph) (unit : WorkUnit) (consumer : Text) : Prop :=
  (∀ other ∈ graph.units, consumer ∈ other.val.consumers → other = unit) ∧
    ∀ item ∈ graph.blocked, item.check.taskId ≠ consumer

/-- One observation for every check, one record for every unit, and each unit's consumers are
told what became of that unit: a crash if its work raised, else what its own attempt produced. -/
structure Contained (world : World) (graph : TaskGraph) (scheduled : Scheduled) : Prop where
  observed_once : (scheduled.observations.map (·.val.taskId)).Nodup
  observed : ∀ id, id ∈ scheduled.observations.map (·.val.taskId) ↔
    (∃ unit ∈ graph.units, id ∈ unit.val.consumers) ∨ ∃ item ∈ graph.blocked, item.check.taskId = id
  executed : (scheduled.executions.map (·.unit)).Perm (graph.units.map (·.val.id))
  attempted : ∀ unit ∈ graph.units, ∃ finished, Attempted world graph finished unit
  told : ∀ finished unit, Attempted world graph finished unit → ∀ consumer ∈ unit.val.consumers,
    AnswersAlone graph unit consumer → ∃ o ∈ scheduled.observations, Tells world finished unit consumer o
  crashed : ∀ finished unit, Attempted world graph finished unit →
    world.cancelled unit = none → failedPrerequisite unit finished = none →
    ∀ key reason, world.lookup unit = .miss key reason →
    ∀ e, world.perform unit = .error e → ∀ consumer ∈ unit.val.consumers,
    AnswersAlone graph unit consumer → ∃ o ∈ scheduled.observations,
      o.val.taskId = consumer ∧ o.val.state = .failed ∧ o.val.limitations = [internalError e]

section

variable {world : World} {graph : TaskGraph}

theorem runGraph_ok {layers : List (List WorkUnit)} (hLayers : graph.layers = .ok layers)
    {scheduled : Scheduled} (h : runGraph world graph = .ok scheduled) :
    ∃ writes : List (Text × Observation), scheduled.observations = (Dict.setAll [] writes).values ∧
      (∀ consumer o, (consumer, o) ∈ writes ↔
        (∃ finished unit, AttemptedFrom world {} layers finished unit ∧
          consumer ∈ unit.val.consumers ∧ Tells world finished unit consumer o) ∨
        ∃ item ∈ graph.blocked, item.check.taskId = consumer ∧ blockedObservation item = .ok o) ∧
      scheduled.executions.map (·.unit) = layers.flatten.map (·.val.id) ∧
      ∀ unit ∈ layers.flatten, ∃ finished, AttemptedFrom world {} layers finished unit := by
  unfold runGraph at h
  obtain ⟨layers', hLayers', h⟩ := bind_eq_ok.mp h
  cases hLayers.symm.trans hLayers'
  obtain ⟨state, hState, h⟩ := bind_eq_ok.mp h
  obtain ⟨observations, hBlocked, h⟩ := bind_eq_ok.mp h
  cases h
  obtain ⟨writes, hWrites, hMem⟩ := runLayers_observations hState
  obtain ⟨told, hForall, rfl⟩ := foldlM_set_eq_ok.mp hBlocked
  refine ⟨writes ++ (graph.blocked.map (·.check.taskId)).zip told, ?_, ?_,
    runLayers_executions hState, ?_⟩
  · rw [hWrites, setAll_append]
  · intro consumer o
    rw [mem_append, hMem]
    apply or_congr_right
    rw [zip_map_left, mem_map]
    constructor
    · rintro ⟨⟨item, o'⟩, hPair, hEq⟩
      obtain ⟨hItem, hOk⟩ := (mem_zip_iff hForall).mp hPair
      cases hEq
      exact ⟨item, hItem, rfl, hOk⟩
    · rintro ⟨item, hItem, rfl, hOk⟩
      exact ⟨(item, o), (mem_zip_iff hForall).mpr ⟨hItem, hOk⟩, rfl⟩
  · intro unit hUnit
    exact attemptedFrom_of_ok hState hUnit

structure ReturnedRun (world : World) (graph : TaskGraph) (layers : List (List WorkUnit))
    (writes : List (Text × Observation)) (scheduled : Scheduled) : Prop where
  nodup : (graph.units.map (·.val.id)).Nodup
  layers_eq : graph.layers = .ok layers
  returned : runGraph world graph = .ok scheduled
  observations_eq : scheduled.observations = (Dict.setAll [] writes).values
  mem_writes : ∀ consumer o, (consumer, o) ∈ writes ↔
    (∃ finished unit, AttemptedFrom world {} layers finished unit ∧
      consumer ∈ unit.val.consumers ∧ Tells world finished unit consumer o) ∨
    ∃ item ∈ graph.blocked, item.check.taskId = consumer ∧ blockedObservation item = .ok o
  executed : scheduled.executions.map (·.unit) = layers.flatten.map (·.val.id)
  attempted : ∀ unit ∈ layers.flatten, ∃ finished, AttemptedFrom world {} layers finished unit

theorem layers_ok {layers : List (List WorkUnit)} (h : graph.layers = .ok layers) :
    layers.flatten.Perm graph.units ∧
      Layering.Ordered (fun unit : WorkUnit => unit.val.id) (fun unit => unit.val.dependsOn) []
        layers := by
  unfold TaskGraph.layers at h
  split at h
  · rename_i layers' hLayers
    cases h
    obtain ⟨hPerm, hOrdered, -⟩ := Layering.kahn_ok _ _ _ _ hLayers
    exact ⟨hPerm, hOrdered⟩
  · cases h
  · cases h

theorem exists_layers (hValid : validate graph.units = .ok ()) : ∃ layers, graph.layers = .ok layers := by
  obtain ⟨-, layers, hLayers⟩ := validate_ok hValid
  refine ⟨layers, ?_⟩
  unfold TaskGraph.layers
  rw [hLayers]

theorem exists_returnedRun (hNodup : (graph.units.map (·.val.id)).Nodup) {scheduled : Scheduled}
    (h : runGraph world graph = .ok scheduled) :
    ∃ layers writes, ReturnedRun world graph layers writes scheduled := by
  obtain ⟨layers, hLayers, -⟩ := bind_eq_ok.mp h
  obtain ⟨writes, hObservations, hMem, hExecuted, hAttempted⟩ := runGraph_ok hLayers h
  exact ⟨layers, writes, hNodup, hLayers, h, hObservations, hMem, hExecuted, hAttempted⟩

namespace ReturnedRun

variable {layers : List (List WorkUnit)} {writes : List (Text × Observation)}
  {scheduled : Scheduled} (run : ReturnedRun world graph layers writes scheduled)

include run

theorem layers_perm : layers.flatten.Perm graph.units := (layers_ok run.layers_eq).1

theorem layers_nodup : (layers.flatten.map (·.val.id)).Nodup :=
  (run.layers_perm.map _).nodup_iff.mpr run.nodup

variable {finished : Dict Text Observation} {unit : WorkUnit}

theorem attemptedFrom
    (h : Attempted world graph finished unit) : AttemptedFrom world {} layers finished unit := by
  obtain ⟨layers', hLayers', hAttempted⟩ := h
  cases run.layers_eq.symm.trans hLayers'
  exact hAttempted

theorem write_taskId {consumer : Text} {o : Observation} (h : (consumer, o) ∈ writes) :
    o.val.taskId = consumer := by
  rcases (run.mem_writes consumer o).mp h with ⟨_, _, -, -, _, -, hTell⟩ | ⟨item, -, rfl, hOk⟩
  · exact tell_taskId hTell
  · rw [Checked.construct_eq_ok_iff.mp hOk]

theorem taskIds_eq : scheduled.observations.map (·.val.taskId) =
    (Dict.setAll ([] : Dict Text Observation) writes).keys := by
  rw [run.observations_eq, Dict.values, Dict.keys, List.map_map]
  apply map_congr_left
  rintro ⟨consumer, o⟩ hPair
  rcases mem_of_mem_setAll hPair with hOld | hWrite
  · cases hOld
  · exact run.write_taskId hWrite

theorem safe : (∀ finished unit, Attempted world graph finished unit →
    UnitSafe world finished unit) ∧ ∀ item ∈ graph.blocked, IsReportable item :=
  (exists_runGraph_iff ⟨layers, run.layers_eq⟩).mp ⟨scheduled, run.returned⟩

theorem exists_tells (h : AttemptedFrom world {} layers finished unit) {consumer : Text}
    (hConsumer : consumer ∈ unit.val.consumers) : ∃ o, Tells world finished unit consumer o := by
  obtain ⟨produced, hAttempt, hTold⟩ :=
    unitSafe_iff.mp (run.safe.1 finished unit ⟨layers, run.layers_eq, h⟩)
  obtain ⟨o, hTell⟩ := hTold consumer hConsumer
  exact ⟨o, produced, hAttempt, hTell⟩

theorem observed (id : Text) : id ∈ scheduled.observations.map (·.val.taskId) ↔
    (∃ unit ∈ graph.units, id ∈ unit.val.consumers) ∨
      ∃ item ∈ graph.blocked, item.check.taskId = id := by
  rw [run.taskIds_eq, mem_keys_setAll]
  constructor
  · rintro (hNone | ⟨⟨consumer, o⟩, hWrite, rfl⟩)
    · cases hNone
    rcases (run.mem_writes consumer o).mp hWrite with
      ⟨finished, unit, hAttempted, hConsumer, -⟩ | ⟨item, hItem, hId, -⟩
    · exact .inl ⟨unit, run.layers_perm.subset hAttempted.mem, hConsumer⟩
    · exact .inr ⟨item, hItem, hId⟩
  · rintro (⟨unit, hUnit, hConsumer⟩ | ⟨item, hItem, rfl⟩)
    · obtain ⟨finished, hAttempted⟩ := run.attempted unit (run.layers_perm.symm.subset hUnit)
      obtain ⟨o, hTells⟩ := run.exists_tells hAttempted hConsumer
      exact .inr ⟨(id, o), (run.mem_writes id o).mpr
        (.inl ⟨finished, unit, hAttempted, hConsumer, hTells⟩), rfl⟩
    · obtain ⟨o, hOk⟩ := exists_unavailable_iff.mpr (run.safe.2 item hItem)
      exact .inr ⟨(item.check.taskId, o), (run.mem_writes _ o).mpr
        (.inr ⟨item, hItem, rfl, hOk⟩), rfl⟩

theorem told (h : Attempted world graph finished unit) {consumer : Text}
    (hConsumer : consumer ∈ unit.val.consumers) (hAlone : AnswersAlone graph unit consumer) :
    ∃ o ∈ scheduled.observations, Tells world finished unit consumer o := by
  have hFrom := run.attemptedFrom h
  obtain ⟨o, hTells⟩ := run.exists_tells hFrom hConsumer
  have hNodup : layers.flatten.Nodup := Nodup.of_map _ run.layers_nodup
  have hGet : (Dict.setAll ([] : Dict Text Observation) writes).get? consumer = some o := by
    apply get?_setAll_of_forall
    · rintro ⟨consumer', o'⟩ hWrite rfl
      rcases (run.mem_writes _ o').mp hWrite with
        ⟨finished', unit', hFrom', hConsumer', hTells'⟩ | ⟨item, hItem, hId, -⟩
      · have hSame := hAlone.1 unit' (run.layers_perm.subset hFrom'.mem) hConsumer'
        subst hSame
        have hFinished := hFrom'.unique hNodup hFrom
        subst hFinished
        exact hTells'.unique hTells
      · exact absurd hId (hAlone.2 item hItem)
    · exact ⟨(consumer, o), (run.mem_writes consumer o).mpr
        (.inl ⟨finished, unit, hFrom, hConsumer, hTells⟩), rfl⟩
  refine ⟨o, ?_, hTells⟩
  rw [run.observations_eq]
  exact mem_map.mpr ⟨_, mem_of_get? hGet, rfl⟩

theorem contained : Contained world graph scheduled where
  observed_once := by
    rw [run.taskIds_eq]
    exact nodup_keys_setAll (d := []) nodup_nil writes
  observed := run.observed
  executed := by
    rw [run.executed]
    exact run.layers_perm.map _
  attempted := by
    intro unit hUnit
    obtain ⟨finished, hAttempted⟩ := run.attempted unit (run.layers_perm.symm.subset hUnit)
    exact ⟨finished, layers, run.layers_eq, hAttempted⟩
  told := fun finished unit h consumer hConsumer hAlone => run.told h hConsumer hAlone
  crashed := by
    intro finished unit h hCancelled hReady key reason hLookup e hRaised consumer hConsumer hAlone
    obtain ⟨o, hMem, produced, hAttempt, hTell⟩ := run.told h hConsumer hAlone
    unfold World.attempt at hAttempt
    simp only [hCancelled, hReady, hLookup, hRaised] at hAttempt
    obtain ⟨failed, hContain, hAttempt⟩ := bind_eq_ok.mp hAttempt
    obtain ⟨-, -, hAttempt⟩ := bind_eq_ok.mp hAttempt
    cases hAttempt
    have hVal := Checked.construct_eq_ok_iff.mp hTell
    refine ⟨o, hMem, ?_, ?_, ?_⟩
    · rw [hVal]
    · rw [hVal, contain_error_ok hContain]
    · rw [hVal, contain_error_ok hContain]

end ReturnedRun

end

theorem buildGraph_valid {checks : List PlannedCheck} {catalog : Option (List CheckDefinition)}
    {graph : TaskGraph} (h : buildGraph checks catalog = .ok graph) :
    validate graph.units = .ok () := by
  unfold buildGraph at h
  obtain ⟨⟨edges, blocked, runnable⟩, -, h⟩ := bind_eq_ok.mp h
  obtain ⟨units, hUnits, h⟩ := bind_eq_ok.mp h
  cases h
  unfold unitsOf at hUnits
  obtain ⟨found, -, hUnits⟩ := bind_eq_ok.mp hUnits
  obtain ⟨hValid, hUnits⟩ := seq_eq_ok.mp hUnits
  cases hUnits
  exact hValid

def World.ofHands (cancelled : WorkUnit → Option Text) (caching : Option Caching)
    (elapsed : WorkUnit → Double) (hands : WorkUnit → Hands) : World where
  cancelled := cancelled
  caching := caching
  perform := fun unit => (hands unit).perform unit
  elapsed := elapsed

def analysing (analysis : Result Observation) : Hands where
  providers := fun _ => none
  analyses := fun _ => some analysis
  runner := fun _ => .error ⟨py "OSError", py "no such tool"⟩
  environment := none
  environ := []

def raising (e : PyError) : World :=
  World.ofHands (fun _ => none) none (fun _ => Double.zero) fun _ => analysing (.error e)

end Ici
