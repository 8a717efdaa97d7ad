import Ici.Application.Schedule

/-! # What a run went through

Which units a run attempts and with which finished observations, and what it has written once it
returned. -/

namespace Ici

open Option Dict List Raising Python

/-- In the run of these layers from `start`, `unit` is attempted while `finished` is settled. -/
inductive AttemptedFrom (world : World) :
    RunState → List (List WorkUnit) → Dict Text Observation → WorkUnit → Prop
  | here {start : RunState} {layer : List WorkUnit} {rest : List (List WorkUnit)} {unit : WorkUnit}
      (hUnit : unit ∈ layer) : AttemptedFrom world start (layer :: rest) start.finished unit
  | later {start mid : RunState} {layer : List WorkUnit} {rest : List (List WorkUnit)}
      {finished : Dict Text Observation} {unit : WorkUnit}
      (hLayer : runLayer world start layer = .ok mid)
      (hRest : AttemptedFrom world mid rest finished unit) :
      AttemptedFrom world start (layer :: rest) finished unit

def Attempted (world : World) (graph : TaskGraph) (finished : Dict Text Observation)
    (unit : WorkUnit) : Prop :=
  ∃ layers, graph.layers = .ok layers ∧ AttemptedFrom world {} layers finished unit

section

variable {world : World}

variable {start state state' final : RunState} {layer : List WorkUnit}
  {finished : Dict Text Observation} {unit : WorkUnit} {layers : List (List WorkUnit)}

theorem attemptedFrom_cons {rest : List (List WorkUnit)} :
    AttemptedFrom world start (layer :: rest) finished unit ↔ (unit ∈ layer ∧ finished = start.finished) ∨
      ∃ mid, runLayer world start layer = .ok mid ∧
        AttemptedFrom world mid rest finished unit := by
  constructor
  · intro h
    cases h with
    | here hUnit => exact .inl ⟨hUnit, rfl⟩
    | later hLayer hRest => exact .inr ⟨_, hLayer, hRest⟩
  · rintro (⟨hUnit, rfl⟩ | ⟨mid, hLayer, hRest⟩)
    · exact .here hUnit
    · exact .later hLayer hRest

theorem AttemptedFrom.mem (h : AttemptedFrom world start layers finished unit) : unit ∈ layers.flatten := by
  induction h with
  | here hUnit => exact mem_append_left _ hUnit
  | later hLayer hRest ih => exact mem_append_right _ ih

theorem AttemptedFrom.unique {finished' : Dict Text Observation} (hNodup : layers.flatten.Nodup)
    (h : AttemptedFrom world start layers finished unit)
    (h' : AttemptedFrom world start layers finished' unit) : finished = finished' := by
  induction h with
  | here hUnit =>
    rcases attemptedFrom_cons.mp h' with ⟨-, hEq⟩ | ⟨mid, -, hRest⟩
    · exact hEq.symm
    · exact absurd hRest.mem (disjoint_of_nodup_append hNodup hUnit)
  | later hLayer hRest ih =>
    rcases attemptedFrom_cons.mp h' with ⟨hUnit, -⟩ | ⟨mid, hLayer', hRest'⟩
    · exact absurd hRest.mem (disjoint_of_nodup_append hNodup hUnit)
    · cases hLayer.symm.trans hLayer'
      exact ih hNodup.of_append_right hRest'

/-! ## One layer -/

/-- What `unit`, attempted while `finished` is settled, has `consumer` told. -/
def Tells (world : World) (finished : Dict Text Observation) (unit : WorkUnit) (consumer : Text)
    (observation : Observation) : Prop :=
  ∃ produced, world.attempt unit finished = .ok produced ∧ tell unit produced consumer = .ok observation

variable {consumer : Text} {produced : Option Observation × Execution}

theorem Tells.unique {first second : Observation} (h : Tells world finished unit consumer first)
    (h' : Tells world finished unit consumer second) : first = second := by
  obtain ⟨produced, hAttempt, hTell⟩ := h
  obtain ⟨produced', hAttempt', hTell'⟩ := h'
  cases hAttempt.symm.trans hAttempt'
  exact Except.ok.inj (hTell.symm.trans hTell')

theorem tell_taskId {observation : Observation} (h : tell unit produced consumer = .ok observation) :
    observation.val.taskId = consumer := by
  unfold tell at h
  split at h
  · rw [Checked.construct_eq_ok_iff.mp h]
  · rw [Checked.construct_eq_ok_iff.mp h]

theorem attempt_unit (h : world.attempt unit finished = .ok produced) : produced.2.unit = unit.val.id := by
  unfold World.attempt at h
  split at h
  · cases h
    rfl
  split at h
  · cases h
    rfl
  split at h
  · cases h
    rfl
  · obtain ⟨observation, -, h⟩ := bind_eq_ok.mp h
    obtain ⟨-, -, h⟩ := bind_eq_ok.mp h
    cases h
    rfl

theorem settle_ok {result : WorkUnit × (Option Observation × Execution)}
    (h : settle state result = .ok state') :
    ∃ told, List.Forall₂ (fun consumer o => tell result.1 result.2 consumer = .ok o)
        result.1.val.consumers told ∧
      state'.observations = state.observations.setAll (result.1.val.consumers.zip told) ∧
      state'.executions = state.executions ++ [result.2.2] ∧
      state'.finished = match result.2.1 with
        | none => state.finished
        | some observation => state.finished.set result.1.val.id observation := by
  unfold settle at h
  obtain ⟨observations, hTold, h⟩ := bind_eq_ok.mp h
  obtain ⟨told, hForall, rfl⟩ := foldlM_set_eq_ok.mp hTold
  cases h
  exact ⟨told, hForall, by simp, rfl, rfl⟩

/-- What `unit`, attempted while `finished` is settled, leaves behind for its dependents. -/
def Finishes (world : World) (finished : Dict Text Observation) (unit : WorkUnit)
    (observation : Observation) : Prop :=
  ∃ execution, world.attempt unit finished = .ok (some observation, execution)

theorem settleAll_ok {results : List (WorkUnit × (Option Observation × Execution))}
    (h : results.foldlM settle state = .ok state') :
    (∃ writes : List (Text × Observation), state'.observations = state.observations.setAll writes ∧
      ∀ consumer o, (consumer, o) ∈ writes ↔ ∃ result ∈ results,
        consumer ∈ result.1.val.consumers ∧ tell result.1 result.2 consumer = .ok o) ∧
    (∃ writes : List (Text × Observation), state'.finished = state.finished.setAll writes ∧
      ∀ id o, (id, o) ∈ writes ↔ ∃ result ∈ results, result.1.val.id = id ∧ result.2.1 = some o) ∧
    state'.executions = state.executions ++ results.map (·.2.2) := by
  induction results generalizing state with
  | nil =>
    cases h
    exact ⟨⟨[], rfl, by simp⟩, ⟨[], rfl, by simp⟩, by simp⟩
  | cons result results ih =>
    obtain ⟨mid, hHead, hTail⟩ := foldlM_cons_eq_ok.mp h
    obtain ⟨told, hForall, hObservations, hExecutions, hFinished⟩ := settle_ok hHead
    obtain ⟨⟨writes, hWrites, hMem⟩, ⟨ends, hEnds, hEndMem⟩, hExecuted⟩ := ih hTail
    refine ⟨⟨result.1.val.consumers.zip told ++ writes, ?_, ?_⟩,
      ⟨(result.2.1.map fun o => (result.1.val.id, o)).toList ++ ends, ?_, ?_⟩, ?_⟩
    · rw [hWrites, hObservations, setAll_append]
    · intro consumer o
      simp only [mem_append, hMem, mem_cons, exists_eq_or_imp, mem_zip_iff hForall]
    · rw [hEnds, hFinished, setAll_append]
      cases result.2.1 <;> rfl
    · intro id o
      simp only [mem_append, hEndMem, mem_cons, exists_eq_or_imp, mem_toList, map_eq_some_iff, Prod.mk.injEq]
      apply or_congr_left
      constructor
      · rintro ⟨o', hSome, hId, rfl⟩
        exact ⟨hId, hSome⟩
      · rintro ⟨hId, hSome⟩
        exact ⟨o, hSome, hId, rfl⟩
    · rw [hExecuted, hExecutions, map_cons, append_assoc, singleton_append]

theorem map_unit_zip {results : List (Option Observation × Execution)}
    (h : List.Forall₂ (fun unit produced => world.attempt unit finished = .ok produced) layer
      results) :
    ((layer.zip results).map (·.2.2)).map (·.unit) = layer.map (·.val.id) := by
  induction h with
  | nil => rfl
  | cons hHead _ ih =>
    rw [zip_cons_cons, map_cons, map_cons, map_cons, ih, attempt_unit hHead]

theorem runLayer_ok (h : runLayer world state layer = .ok state') : (∃ writes : List (Text × Observation),
      state'.observations = state.observations.setAll writes ∧
      ∀ consumer o, (consumer, o) ∈ writes ↔ ∃ unit ∈ layer,
        consumer ∈ unit.val.consumers ∧ Tells world state.finished unit consumer o) ∧
    (∃ writes : List (Text × Observation), state'.finished = state.finished.setAll writes ∧
      ∀ id o, (id, o) ∈ writes ↔ ∃ unit ∈ layer,
        unit.val.id = id ∧ Finishes world state.finished unit o) ∧
    state'.executions.map (·.unit) = state.executions.map (·.unit) ++ layer.map (·.val.id) := by
  unfold runLayer at h
  obtain ⟨results, hResults, h⟩ := bind_eq_ok.mp h
  obtain ⟨⟨writes, hWrites, hMem⟩, ⟨ends, hEnds, hEndMem⟩, hExecutions⟩ := settleAll_ok h
  have hForall := mapM_eq_ok.mp hResults
  have hPair (unit : WorkUnit) (produced : Option Observation × Execution) :
      (unit, produced) ∈ layer.zip results ↔
        unit ∈ layer ∧ world.attempt unit state.finished = .ok produced :=
    mem_zip_iff hForall
  refine ⟨⟨writes, hWrites, ?_⟩, ⟨ends, hEnds, ?_⟩, ?_⟩
  · intro consumer o
    rw [hMem]
    constructor
    · rintro ⟨⟨unit, produced⟩, hResult, hConsumer, hTell⟩
      obtain ⟨hUnit, hAttempt⟩ := (hPair unit produced).mp hResult
      exact ⟨unit, hUnit, hConsumer, produced, hAttempt, hTell⟩
    · rintro ⟨unit, hUnit, hConsumer, produced, hAttempt, hTell⟩
      exact ⟨(unit, produced), (hPair unit produced).mpr ⟨hUnit, hAttempt⟩, hConsumer, hTell⟩
  · intro id o
    rw [hEndMem]
    constructor
    · rintro ⟨⟨unit, produced, execution⟩, hResult, hId, hSome⟩
      obtain ⟨hUnit, hAttempt⟩ := (hPair unit (produced, execution)).mp hResult
      cases hSome
      exact ⟨unit, hUnit, hId, execution, hAttempt⟩
    · rintro ⟨unit, hUnit, hId, execution, hAttempt⟩
      exact ⟨(unit, some o, execution), (hPair _ _).mpr ⟨hUnit, hAttempt⟩, hId, rfl⟩
  · rw [hExecutions, map_append, map_unit_zip hForall]

theorem runLayers_writes (table : RunState → Dict Text Observation)
    (entry : Dict Text Observation → WorkUnit → Text → Observation → Prop)
    (hLayer : ∀ state state' layer, runLayer world state layer = .ok state' →
      ∃ writes : List (Text × Observation), table state' = (table state).setAll writes ∧
        ∀ k o, (k, o) ∈ writes ↔ ∃ unit ∈ layer, entry state.finished unit k o)
    {start final : RunState} {layers : List (List WorkUnit)}
    (h : layers.foldlM (runLayer world) start = .ok final) :
    ∃ writes : List (Text × Observation), table final = (table start).setAll writes ∧
      ∀ k o, (k, o) ∈ writes ↔ ∃ finished unit,
        AttemptedFrom world start layers finished unit ∧ entry finished unit k o := by
  induction layers generalizing start with
  | nil =>
    cases h
    refine ⟨[], rfl, fun k o => ?_⟩
    constructor
    · intro hMem
      cases hMem
    · rintro ⟨finished, unit, hAttempted, -⟩
      cases hAttempted
  | cons layer layers ih =>
    obtain ⟨mid, hHead, hTail⟩ := foldlM_cons_eq_ok.mp h
    obtain ⟨first, hFirst, hFirstMem⟩ := hLayer start mid layer hHead
    obtain ⟨later, hLater, hLaterMem⟩ := ih hTail
    refine ⟨first ++ later, ?_, fun k o => ?_⟩
    · rw [hLater, hFirst, setAll_append]
    · rw [mem_append, hFirstMem, hLaterMem]
      constructor
      · rintro (⟨unit, hUnit, hEntry⟩ | ⟨finished, unit, hAttempted, hEntry⟩)
        · exact ⟨start.finished, unit, .here hUnit, hEntry⟩
        · exact ⟨finished, unit, .later hHead hAttempted, hEntry⟩
      · rintro ⟨finished, unit, hAttempted, hEntry⟩
        rcases attemptedFrom_cons.mp hAttempted with ⟨hUnit, rfl⟩ | ⟨mid', hMid, hRest⟩
        · exact .inl ⟨unit, hUnit, hEntry⟩
        · cases hHead.symm.trans hMid
          exact .inr ⟨finished, unit, hRest, hEntry⟩

section

variable (h : layers.foldlM (runLayer world) start = .ok final)
include h

theorem runLayers_observations : ∃ writes : List (Text × Observation),
      final.observations = start.observations.setAll writes ∧
      ∀ consumer o, (consumer, o) ∈ writes ↔ ∃ finished unit,
        AttemptedFrom world start layers finished unit ∧ consumer ∈ unit.val.consumers ∧
          Tells world finished unit consumer o :=
  runLayers_writes (·.observations)
    (fun finished unit k o => k ∈ unit.val.consumers ∧ Tells world finished unit k o)
    (fun _ _ _ hLayer => (runLayer_ok hLayer).1) h

theorem runLayers_finished : ∃ writes : List (Text × Observation),
      final.finished = start.finished.setAll writes ∧
      ∀ id o, (id, o) ∈ writes ↔ ∃ finished unit,
        AttemptedFrom world start layers finished unit ∧ unit.val.id = id ∧
          Finishes world finished unit o :=
  runLayers_writes (·.finished)
    (fun finished unit k o => unit.val.id = k ∧ Finishes world finished unit o)
    (fun _ _ _ hLayer => (runLayer_ok hLayer).2.1) h

theorem runLayers_executions : final.executions.map (·.unit) =
      start.executions.map (·.unit) ++ layers.flatten.map (·.val.id) := by
  induction layers generalizing start with
  | nil =>
    cases h
    simp
  | cons layer layers ih =>
    obtain ⟨mid, hHead, hTail⟩ := foldlM_cons_eq_ok.mp h
    rw [ih hTail, (runLayer_ok hHead).2.2, flatten_cons, map_append, append_assoc]

theorem attemptedFrom_of_ok {unit : WorkUnit}
    (hUnit : unit ∈ layers.flatten) : ∃ finished, AttemptedFrom world start layers finished unit := by
  induction layers generalizing start with
  | nil => cases hUnit
  | cons layer layers ih =>
    obtain ⟨mid, hHead, hTail⟩ := foldlM_cons_eq_ok.mp h
    rcases mem_append.mp hUnit with hHere | hLater
    · exact ⟨start.finished, .here hHere⟩
    · obtain ⟨finished, hAttempted⟩ := ih hTail hLater
      exact ⟨finished, .later hHead hAttempted⟩

end

theorem exists_runLayers_iff (returns : Dict Text Observation → WorkUnit → Prop)
    (hLayer : ∀ state layer, (∃ state', runLayer world state layer = .ok state') ↔
      ∀ unit ∈ layer, returns state.finished unit)
    (start : RunState) (layers : List (List WorkUnit)) :
    (∃ final, layers.foldlM (runLayer world) start = .ok final) ↔
      ∀ finished unit, AttemptedFrom world start layers finished unit → returns finished unit := by
  induction layers generalizing start with
  | nil =>
    constructor
    · rintro - finished unit hAttempted
      cases hAttempted
    · intro _
      exact ⟨start, rfl⟩
  | cons layer layers ih =>
    constructor
    · rintro ⟨final, h⟩ finished unit hAttempted
      obtain ⟨mid, hHead, hTail⟩ := foldlM_cons_eq_ok.mp h
      rcases attemptedFrom_cons.mp hAttempted with ⟨hUnit, rfl⟩ | ⟨mid', hMid, hRest⟩
      · exact (hLayer start layer).mp ⟨mid, hHead⟩ unit hUnit
      · cases hHead.symm.trans hMid
        exact (ih mid).mp ⟨final, hTail⟩ finished unit hRest
    · intro hAll
      obtain ⟨mid, hHead⟩ := (hLayer start layer).mpr fun unit hUnit => hAll _ unit (.here hUnit)
      obtain ⟨final, hTail⟩ := (ih mid).mpr fun finished unit hRest =>
        hAll finished unit (.later hHead hRest)
      exact ⟨final, foldlM_cons_eq_ok.mpr ⟨mid, hHead, hTail⟩⟩

end

end Ici
