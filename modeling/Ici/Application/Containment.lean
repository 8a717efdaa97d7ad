import Ici.Application.GraphCorrect
import Ici.Application.Running

/-! # What a crash costs

A run returns exactly when every value it is handed survives the validators on the way to a
record. Then every check has its one observation and a crash is told to its own consumers only. -/

namespace Ici

open Option Raising Python

def EndsVisibly (t : Text) : Prop := ∃ h : t ≠ [], isSpace (t.getLast h) = false

theorem isText_append_iff (a : CodePoint) (front rest : Text) (ha : isSpace a = false) :
    IsText (a :: (front ++ py ": " ++ rest)) ↔ EndsVisibly rest := by
  unfold IsText EndsVisibly
  by_cases hRest : rest = []
  · subst hRest
    have hPadded : ¬Unpadded (a :: (front ++ py ": ")) := by
      rw [unpadded_append_iff a front (py ": ") ha (by decide)]
      decide
    simp [hPadded]
  · rw [unpadded_append_iff a (front ++ py ": ") rest ha hRest]
    simp [hRest]

theorem isText_internalError_iff (e : PyError) : IsText (internalError e) ↔ EndsVisibly e.text :=
  isText_append_iff 0x69 (py "nternal error: " ++ e.name) e.text (by decide)

theorem isText_prerequisite (blocker : Text) :
    IsText (py "prerequisite " ++ blocker ++ py " did not run") := by
  refine ⟨by simp [py], ?_⟩
  exact (unpadded_append_iff 0x70 (py "rerequisite " ++ blocker) (py " did not run") (by decide)
    (by decide)).mpr (by decide)

theorem isText_cancelled_iff (reason : Text) :
    IsText (if reason = [] then py "cancelled before it started" else reason) ↔
      Unpadded reason := by
  split
  · rename_i h
    subst h
    exact iff_of_true (by decide) (by decide)
  · rename_i h
    exact and_iff_right h

/-! ## One unit -/

def IsStorable (world : World) (key : Option Text) (observation : Observation) : Prop :=
  world.caching.isSome = true → (∃ k ∈ key, k ≠ []) → observation.evidenceIsComplete = true →
    HasBytes (observationToDict observation)

section

variable (world : World) (finished : Dict Text Observation) (unit : WorkUnit)

/-- Nothing the attempt of this unit meets, while `finished` is settled, is refused by a
validator. -/
def AttemptSafe : Prop :=
  match world.cancelled unit with
  | some reason => IsIdentifier (providerName unit) ∧ Unpadded reason
  | none =>
  match failedPrerequisite unit finished with
  | some _ => IsIdentifier (providerName unit)
  | none =>
  match world.lookup unit with
  | .hit _ _ => True
  | .miss key _ =>
  match world.perform unit with
  | .ok observation => IsStorable world key observation
  | .error e => IsIdentifier unit.val.id ∧ IsIdentifier (providerName unit) ∧ EndsVisibly e.text

def UnitSafe : Prop :=
  (∀ consumer ∈ unit.val.consumers, IsIdentifier consumer) ∧ AttemptSafe world finished unit

end

def IsReportable (item : Blocked) : Prop :=
  IsIdentifier item.check.taskId ∧ IsIdentifier (toolOr item.check.check.tool (py "ici")) ∧
    IsText item.reason

section

variable {world : World} {finished : Dict Text Observation} {unit : WorkUnit}

theorem consumers_ne_nil (unit : WorkUnit) : unit.val.consumers ≠ [] := by
  have hChecked := unit.property
  unfold WorkUnitFields.check at hChecked
  intro hNil
  simp only [hNil, if_true] at hChecked
  split at hChecked <;> cases hChecked

theorem exists_keep_iff {key : Option Text} {observation : Observation} :
    (∃ kept, world.keep unit key observation = .ok kept) ↔ IsStorable world key observation := by
  unfold World.keep IsStorable
  cases hCaching : world.caching with
  | none => simp
  | some caching =>
    cases key with
    | none => simp
    | some key =>
      simp only [isSome_some, mem_some_iff, exists_eq_left', true_implies]
      split
      · rename_i h
        rw [Json.exists_map_iff, exists_write_iff h.2.2]
        simp [h.1, h.2.2]
      · rename_i h
        refine iff_of_true ⟨(), rfl⟩ fun hKey hComplete => absurd ⟨hKey, ?_, hComplete⟩ h
        simp only [Observation.evidenceIsComplete, Bool.and_eq_true, decide_eq_true_eq] at hComplete
        exact hComplete.1.1

theorem exists_contain_error_iff {e : PyError} : (∃ o, World.contain unit (.error e) = .ok o) ↔
      IsIdentifier unit.val.id ∧ IsIdentifier (providerName unit) ∧ EndsVisibly e.text := by
  unfold World.contain
  by_cases hReturns : e = noReturn
  · subst hReturns
    have hEmpty : ¬EndsVisibly noReturn.text := fun ⟨h, _⟩ => h rfl
    simp [hEmpty]
  · simp only [hReturns, if_false]
    rw [exists_unavailable_iff, isText_internalError_iff]

theorem contain_error_ok {e : PyError} {o : Observation} (h : World.contain unit (.error e) = .ok o) :
    o.val = {
      taskId := unit.val.id
      provider := providerName unit
      state := .failed
      limitations := [internalError e] } := by
  unfold World.contain at h
  simp only at h
  split at h
  · cases h
  · exact Checked.construct_eq_ok_iff.mp h

theorem exists_tells_iff (produced : Option Observation × Execution) :
    (∀ consumer ∈ unit.val.consumers, ∃ o, tell unit produced consumer = .ok o) ↔
      (∀ consumer ∈ unit.val.consumers, IsIdentifier consumer) ∧
      (produced.1 = none → IsIdentifier (providerName unit) ∧ IsText produced.2.detail) := by
  obtain ⟨first, hFirst⟩ := List.exists_mem_of_ne_nil _ (consumers_ne_nil unit)
  unfold tell
  cases produced.1 with
  | none =>
    simp only [exists_unavailable_iff, true_implies]
    constructor
    · intro h
      exact ⟨fun consumer hConsumer => (h consumer hConsumer).1, (h first hFirst).2⟩
    · intro h consumer hConsumer
      exact ⟨h.1 consumer hConsumer, h.2⟩
  | some observation =>
    simp only [Observation.exists_withTaskId_iff, reduceCtorEq, false_implies, and_true]

theorem unitSafe_iff : UnitSafe world finished unit ↔ ∃ produced, world.attempt unit finished = .ok produced ∧
      ∀ consumer ∈ unit.val.consumers, ∃ o, tell unit produced consumer = .ok o := by
  simp only [exists_tells_iff]
  unfold UnitSafe AttemptSafe World.attempt
  cases world.cancelled unit with
  | some reason =>
    simp only [Except.ok.injEq, exists_eq_left', true_implies, World.execution, isText_cancelled_iff]
  | none =>
    cases failedPrerequisite unit finished with
    | some blocker =>
      simp only [Except.ok.injEq, exists_eq_left', true_implies, World.execution,
        isText_prerequisite, and_true]
    | none =>
      cases world.lookup unit with
      | hit observation sourceRun => simp
      | miss key reason =>
        simp only
        cases hPerform : world.perform unit with
        | ok observation =>
          simp only
          rw [← @exists_keep_iff world unit]
          constructor
          · rintro ⟨hConsumers, kept, hKept⟩
            refine ⟨_, bind_eq_ok.mpr ⟨observation, rfl,
              bind_eq_ok.mpr ⟨kept, hKept, rfl⟩⟩, hConsumers, ?_⟩
            intro hNone
            cases hNone
          · rintro ⟨produced, h, hConsumers, -⟩
            obtain ⟨observation', hContain, h⟩ := bind_eq_ok.mp h
            cases hContain
            obtain ⟨kept, hKept, -⟩ := bind_eq_ok.mp h
            exact ⟨hConsumers, kept, hKept⟩
        | error e =>
          simp only
          rw [← exists_contain_error_iff]
          constructor
          · rintro ⟨hConsumers, o, hContain⟩
            have hFailed : IsStorable world key o := by
              rintro - - hComplete
              rw [Observation.evidenceIsComplete, contain_error_ok hContain] at hComplete
              cases hComplete
            obtain ⟨kept, hKept⟩ := (@exists_keep_iff world unit _ _).mpr hFailed
            refine ⟨_, bind_eq_ok.mpr ⟨o, hContain, bind_eq_ok.mpr ⟨kept, hKept, rfl⟩⟩, hConsumers, ?_⟩
            intro hNone
            cases hNone
          · rintro ⟨produced, h, hConsumers, -⟩
            obtain ⟨o, hContain, -⟩ := bind_eq_ok.mp h
            exact ⟨hConsumers, o, hContain⟩

theorem exists_settle_iff (state : RunState) (result : WorkUnit × (Option Observation × Execution)) :
    (∃ state', settle state result = .ok state') ↔
      ∀ consumer ∈ result.1.val.consumers, ∃ o, tell result.1 result.2 consumer = .ok o := by
  have hTold := exists_foldlM_iff (f := tellConsumer result.1 result.2)
    (fun consumer => ∃ o, tell result.1 result.2 consumer = .ok o)
    (l := result.1.val.consumers) (fun _ _ _ => Json.exists_map_iff) state.observations
  rw [← hTold]
  unfold settle
  constructor
  · rintro ⟨state', h⟩
    obtain ⟨observations, hObservations, -⟩ := bind_eq_ok.mp h
    exact ⟨observations, hObservations⟩
  · rintro ⟨observations, hObservations⟩
    exact ⟨_, bind_eq_ok.mpr ⟨observations, hObservations, rfl⟩⟩

theorem exists_runLayer_iff (state : RunState) (layer : List WorkUnit) :
    (∃ state', runLayer world state layer = .ok state') ↔
      ∀ unit ∈ layer, UnitSafe world state.finished unit := by
  simp only [unitSafe_iff]
  unfold runLayer
  constructor
  · rintro ⟨state', h⟩ unit hUnit
    obtain ⟨results, hResults, hSettled⟩ := bind_eq_ok.mp h
    obtain ⟨produced, hProduced, hAttempt⟩ := mem_mapM_of_mem hResults hUnit
    have hAll := (exists_foldlM_iff _ (fun s result _ => exists_settle_iff s result)
      state).mp ⟨state', hSettled⟩
    have hPair := (mem_zip_iff (mapM_eq_ok.mp hResults)).mpr ⟨hUnit, hAttempt⟩
    exact ⟨produced, hAttempt, hAll (unit, produced) hPair⟩
  · intro hSafe
    obtain ⟨results, hResults⟩ := exists_mapM_eq_ok.mpr fun unit hUnit => by
      obtain ⟨produced, hAttempt, -⟩ := hSafe unit hUnit
      exact ⟨produced, hAttempt⟩
    obtain ⟨state', hSettled⟩ := (exists_foldlM_iff (l := layer.zip results) _
      (fun s result _ => exists_settle_iff s result) state).mpr (by
        rintro ⟨unit, produced⟩ hPair
        obtain ⟨hUnit, hAttempt⟩ := (mem_zip_iff (mapM_eq_ok.mp hResults)).mp hPair
        obtain ⟨produced', hAttempt', hTold⟩ := hSafe unit hUnit
        cases hAttempt.symm.trans hAttempt'
        exact hTold)
    exact ⟨state', bind_eq_ok.mpr ⟨results, hResults, hSettled⟩⟩

theorem exists_tellAllBlocked_iff (blocked : List Blocked) (observations : Dict Text Observation) :
    (∃ told, blocked.foldlM tellBlocked observations = .ok told) ↔
      ∀ item ∈ blocked, IsReportable item := by
  apply exists_foldlM_iff
  intro found item _
  unfold tellBlocked blockedObservation IsReportable
  rw [Json.exists_map_iff, exists_unavailable_iff]

theorem exists_runGraph_iff {graph : TaskGraph} (hLayers : ∃ layers, graph.layers = .ok layers) :
    (∃ scheduled, runGraph world graph = .ok scheduled) ↔
      (∀ finished unit, Attempted world graph finished unit → UnitSafe world finished unit) ∧
        ∀ item ∈ graph.blocked, IsReportable item := by
  obtain ⟨layers, hLayers⟩ := hLayers
  have hAttempted (finished : Dict Text Observation) (unit : WorkUnit) :
      Attempted world graph finished unit ↔ AttemptedFrom world {} layers finished unit := by
    constructor
    · rintro ⟨layers', hLayers', h⟩
      cases hLayers.symm.trans hLayers'
      exact h
    · intro h
      exact ⟨layers, hLayers, h⟩
  simp only [hAttempted]
  rw [← exists_runLayers_iff (UnitSafe world) exists_runLayer_iff {} layers]
  unfold runGraph
  constructor
  · rintro ⟨scheduled, h⟩
    obtain ⟨layers', hLayers', h⟩ := bind_eq_ok.mp h
    cases hLayers.symm.trans hLayers'
    obtain ⟨state, hState, h⟩ := bind_eq_ok.mp h
    obtain ⟨told, hTold, -⟩ := bind_eq_ok.mp h
    exact ⟨⟨state, hState⟩, (exists_tellAllBlocked_iff _ _).mp ⟨told, hTold⟩⟩
  · rintro ⟨⟨state, hState⟩, hBlocked⟩
    obtain ⟨told, hTold⟩ := (exists_tellAllBlocked_iff graph.blocked state.observations).mpr hBlocked
    exact ⟨_, bind_eq_ok.mpr ⟨layers, hLayers, bind_eq_ok.mpr
      ⟨state, hState, bind_eq_ok.mpr ⟨told, hTold, rfl⟩⟩⟩⟩

end

end Ici
