import Ici.Application.Locks
import Ici.Application.Prerequisites

/-! # What every interleaving keeps

Each unit leaves the marks of its phase and no others, what was settled is on record, and an
attempt that got past its prerequisites has them all succeeded. -/

namespace Ici

open List Python Transition Machine

/-- The steps of an attempt, with what they depend on and what they end in. -/
inductive Advances (world : World) (cancellation : Option Text) (finished : Dict Text Observation)
    (unit : WorkUnit) : Phase → Phase → Option Mark → Prop
  | begins : Advances world cancellation finished unit .queued .begun (some .begins)
  | cancelled {reason : Text} {execution : Execution} (hReason : cancellation = some reason)
      (hState : execution.state = .cancelled) :
      Advances world cancellation finished unit .begun
        (.returned .cancelled (none, execution)) none
  | admitted (hNone : cancellation = none) :
      Advances world cancellation finished unit .begun .admitted none
  | blocked {execution : Execution} (hState : execution.state = .blocked) :
      Advances world cancellation finished unit .admitted
        (.returned .blocked (none, execution)) none
  | fed (hReady : failedPrerequisite unit finished = none) :
      Advances world cancellation finished unit .admitted .fed none
  | reused {observation : Observation} {execution : Execution}
      (hState : execution.state = observation.val.state) :
      Advances world cancellation finished unit .fed
        (.returned .reused (some observation, execution)) none
  | missed {key : Option Text} {reason : Text} :
      Advances world cancellation finished unit .fed (.missed key reason) none
  | starts {key : Option Text} {reason : Text} :
      Advances world cancellation finished unit (.missed key reason) (.started key reason)
        (some .starts)
  | performs {key : Option Text} {reason : Text} :
      Advances world cancellation finished unit (.started key reason) (.working key reason)
        (some .performs)
  | worked {key : Option Text} {reason : Text} {observation : Observation} :
      Advances world cancellation finished unit (.working key reason)
        (.worked key reason observation) none
  | uncontained {key : Option Text} {reason : Text} {e : PyError} :
      Advances world cancellation finished unit (.working key reason) (.raised e) none
  | performed {key : Option Text} {reason : Text} {observation : Observation}
      {execution : Execution} (hState : execution.state = observation.val.state) :
      Advances world cancellation finished unit (.worked key reason observation)
        (.returned .performed (some observation, execution)) none
  | unkept {key : Option Text} {reason : Text} {observation : Observation} {e : PyError} :
      Advances world cancellation finished unit (.worked key reason observation) (.raised e) none

theorem advances_of_eq {world : World} {cancellation : Option Text}
    {finished : Dict Text Observation} {unit : WorkUnit} {phase phase' : Phase}
    {mark : Option Mark}
    (h : world.advance cancellation finished unit phase = some (phase', mark)) :
    Advances world cancellation finished unit phase phase' mark := by
  cases phase with
  | queued =>
    cases h
    exact .begins
  | begun =>
    simp only [World.advance] at h
    split at h
    · cases h
      exact .cancelled rfl rfl
    · cases h
      exact .admitted rfl
  | admitted =>
    simp only [World.advance] at h
    split at h
    · cases h
      exact .blocked rfl
    · cases h
      exact .fed (by assumption)
  | fed =>
    simp only [World.advance] at h
    split at h
    · cases h
      exact .reused rfl
    · cases h
      exact .missed
  | missed key reason =>
    cases h
    exact .starts
  | started key reason =>
    cases h
    exact .performs
  | working key reason =>
    simp only [World.advance] at h
    split at h
    · cases h
      exact .worked
    · split at h
      · cases h
      · cases h
        exact .uncontained
  | worked key reason observation =>
    simp only [World.advance] at h
    split at h
    · cases h
      exact .performed rfl
    · cases h
      exact .unkept
  | returned ending produced => cases h
  | raised e => cases h

theorem Event.requested_ne (mark : Mark) (unit : Text) : Event.requested ≠ .of mark unit :=
  fun h => nomatch h

def Phase.IsFed : Phase → Prop
  | .queued | .begun | .admitted => False
  | .returned ending _ => ending = .reused ∨ ending = .performed
  | _ => True

/-- A refusal leaves no observation; anything else leaves the one its record speaks of. -/
def EndedAs : Ending → Option Observation × Execution → Prop
  | .cancelled, produced => produced.1 = none ∧ produced.2.state = .cancelled
  | .blocked, produced => produced.1 = none ∧ produced.2.state = .blocked
  | .reused, produced | .performed, produced =>
    ∃ o, produced.1 = some o ∧ produced.2.state = o.val.state

/-- The attempt of `unit` began after cancellation was requested. -/
def BegunLate (unit : Text) : List Event → Prop
  | [] => False
  | event :: past => (event = .of .begins unit ∧ .requested ∈ past) ∨ BegunLate unit past

theorem BegunLate.requested {unit : Text} {trace : List Event} (h : BegunLate unit trace) :
    .requested ∈ trace := by
  induction trace with
  | nil => cases h
  | cons event past ih =>
    rcases h with ⟨-, hPast⟩ | hPast
    · exact mem_cons_of_mem _ hPast
    · exact mem_cons_of_mem _ (ih hPast)

section

variable {world : World} {cancellation : Option Text} {finished : Dict Text Observation}
  {unit : WorkUnit} {phase phase' : Phase} {mark : Option Mark}
  (h : Advances world cancellation finished unit phase phase' mark)

include h

theorem Advances.passed (m : Mark) :
    phase'.passed m = (phase.passed m || mark = some m) ∧ (mark = some m → phase.passed m = false) := by
  cases h <;> cases m <;> simp [Phase.passed]

theorem Advances.isFed (hFed : phase'.IsFed) : phase.IsFed ∨ failedPrerequisite unit finished = none := by
  cases h with
  | fed hReady => exact .inr hReady
  | begins | admitted | cancelled | blocked => simp [Phase.IsFed] at hFed
  | reused | missed | starts | performs | worked | uncontained | performed | unkept =>
    exact .inl trivial

theorem Advances.endedAs {ending : Ending} {produced : Option Observation × Execution}
    (hReturned : phase' = .returned ending produced) : EndedAs ending produced := by
  cases h with
  | cancelled hReason hState | blocked hState =>
    cases hReturned
    exact ⟨rfl, hState⟩
  | reused hState | performed hState =>
    cases hReturned
    exact ⟨_, rfl, hState⟩
  | begins | admitted | fed | missed | starts | performs | worked | uncontained | unkept =>
    cases hReturned

end

/-- What holds of one unit in every state: it waited for its prerequisites, it ended as its record
says, and if it began late it was turned away. -/
structure UnitSound (s : Machine) (unit : WorkUnit) (phase : Phase) : Prop where
  isFed : phase.IsFed → ∀ d ∈ unit.val.dependsOn,
    ∃ o, s.state.finished.get? d = some o ∧ o.val.state = .succeeded
  endedAs : ∀ ending produced, phase = .returned ending produced → EndedAs ending produced
  late : BegunLate unit.val.id s.trace →
    phase = .begun ∨ ∃ produced, phase = .returned .cancelled produced

structure Consistent (graph : TaskGraph) (s : Machine) : Prop where
  perm : (s.units.map Prod.fst).Perm graph.units
  nodup : (graph.units.map (·.val.id)).Nodup
  counted : ∀ unit phase, (unit, phase) ∈ s.units → ∀ mark,
    s.trace.count (.of mark unit.val.id) = if phase.passed mark then 1 else 0
  settled : ∀ unit phase, (unit, phase) ∈ s.past → ∃ ending produced, phase = .returned ending produced
  finished_iff : ∀ id o, s.state.finished.get? id = some o ↔ ∃ unit ending execution,
    (unit, .returned ending (some o, execution)) ∈ s.past ∧ unit.val.id = id
  requested_iff : .requested ∈ s.trace ↔ s.cancellation ≠ none
  sound : ∀ unit phase, (unit, phase) ∈ s.units → UnitSound s unit phase

namespace Machine

theorem units_moves (s : Machine) (before after : List (WorkUnit × Phase)) (unit : WorkUnit)
    (phase' : Phase) (mark : Option Mark) :
    (s.moves before after unit phase' mark).units =
      (s.past ++ before) ++ (unit, phase') :: (after ++ enqueue s.later.flatten) := by
  simp [units, moves]

theorem units_of_layer (s : Machine) {before after : List (WorkUnit × Phase)} {unit : WorkUnit}
    {phase : Phase} (hLayer : s.layer = before ++ (unit, phase) :: after) :
    s.units = (s.past ++ before) ++ (unit, phase) :: (after ++ enqueue s.later.flatten) := by
  simp [units, hLayer]

theorem mem_enqueue {units : List WorkUnit} {unit : WorkUnit} {phase : Phase} :
    (unit, phase) ∈ enqueue units ↔ unit ∈ units ∧ phase = .queued := by
  unfold enqueue
  rw [mem_map]
  constructor
  · rintro ⟨unit', hUnit, hEq⟩
    cases hEq
    exact ⟨hUnit, rfl⟩
  · rintro ⟨hUnit, rfl⟩
    exact ⟨unit, hUnit, rfl⟩

theorem map_fst_enqueue (units : List WorkUnit) : (enqueue units).map Prod.fst = units := by
  simp [enqueue, Function.comp_def]

theorem enqueue_flatten (layers : List (List WorkUnit)) :
    enqueue (layers.headD []) ++ enqueue layers.tail.flatten = enqueue layers.flatten := by
  cases layers with
  | nil => rfl
  | cons layer layers => simp [enqueue]

end Machine

namespace Consistent

variable {graph : TaskGraph} {s : Machine}

theorem start {layers : List (List WorkUnit)} (hPerm : layers.flatten.Perm graph.units)
    (hNodup : (graph.units.map (·.val.id)).Nodup) : Consistent graph (start layers) := by
  have hUnits : (Machine.start layers).units = enqueue layers.flatten := by
    simp only [units, start, nil_append]
    exact enqueue_flatten layers
  refine ⟨?_, hNodup, ?_, fun _ _ h => (nomatch h), ?_, ?_, ?_⟩
  · rw [hUnits, map_fst_enqueue]
    exact hPerm
  · intro unit phase hEntry mark
    rw [hUnits, mem_enqueue] at hEntry
    rw [hEntry.2]
    rfl
  · intro id o
    constructor
    · intro h
      cases h
    · rintro ⟨unit, ending, execution, h, -⟩
      cases h
  · simp [Machine.start]
  · intro unit phase hEntry
    rw [hUnits, mem_enqueue] at hEntry
    rw [hEntry.2]
    exact ⟨fun h => h.elim, fun _ _ h => (nomatch h), fun h => h.elim⟩

section

variable (h : Consistent graph s)

include h

theorem units_nodup : (s.units.map fun entry => entry.1.val.id).Nodup := by
  have hPerm := (h.perm.map fun unit : WorkUnit => unit.val.id).nodup_iff.mpr h.nodup
  rwa [List.map_map] at hPerm

theorem phase_unique {unit other : WorkUnit} {phase phase' : Phase}
    (hUnit : (unit, phase) ∈ s.units) (hOther : (other, phase') ∈ s.units)
    (hId : other.val.id = unit.val.id) : other = unit ∧ phase' = phase := by
  have hSame := inj_on_of_nodup_map h.units_nodup hOther hUnit hId
  exact ⟨congrArg Prod.fst hSame, congrArg Prod.snd hSame⟩

theorem requested_of_late {unit : Text} (hLate : BegunLate unit s.trace) : s.cancellation ≠ none :=
  h.requested_iff.mp hLate.requested

theorem cancel {reason : Text} :
    Consistent graph { s with cancellation := some reason, trace := .requested :: s.trace } := by
  refine ⟨h.perm, h.nodup, ?_, h.settled, h.finished_iff, ?_, ?_⟩
  · intro unit phase hEntry mark
    show List.count _ (.requested :: s.trace) = _
    rw [count_cons_of_ne (Event.requested_ne mark _)]
    exact h.counted unit phase hEntry mark
  · simp
  · intro unit phase hEntry
    have hSound := h.sound unit phase hEntry
    refine ⟨hSound.isFed, hSound.endedAs, ?_⟩
    rintro (⟨hEvent, -⟩ | hLate)
    · cases hEvent
    · exact hSound.late hLate

theorem mem_units_moves {before after : List (WorkUnit × Phase)} {unit : WorkUnit} {phase phase' : Phase}
    {mark : Option Mark} (hLayer : s.layer = before ++ (unit, phase) :: after) {other : WorkUnit} {p : Phase}
    (hEntry : (other, p) ∈ (s.moves before after unit phase' mark).units) :
    (other = unit ∧ p = phase') ∨ ((other, p) ∈ s.units ∧ other.val.id ≠ unit.val.id) := by
  have hUnits := s.units_of_layer hLayer
  have hNodup := h.units_nodup
  rw [s.units_moves, mem_append, mem_cons] at hEntry
  rw [hUnits, map_append, map_cons, nodup_middle] at hNodup
  have hFresh := (nodup_cons.mp hNodup).1
  rw [mem_append] at hFresh
  push Not at hFresh
  rcases hEntry with hBefore | hEq | hAfter
  · right
    refine ⟨by rw [hUnits]; exact mem_append_left _ hBefore, fun hId => hFresh.1 ?_⟩
    exact mem_map.mpr ⟨_, hBefore, hId⟩
  · cases hEq
    exact .inl ⟨rfl, rfl⟩
  · right
    refine ⟨by rw [hUnits]; exact mem_append_right _ (mem_cons_of_mem _ hAfter),
      fun hId => hFresh.2 ?_⟩
    exact mem_map.mpr ⟨_, hAfter, hId⟩

theorem moves {world : World} {before after : List (WorkUnit × Phase)} {unit : WorkUnit}
    {phase phase' : Phase} {mark : Option Mark} (hLayer : s.layer = before ++ (unit, phase) :: after)
    (hStep : Advances world s.cancellation s.state.finished unit phase phase' mark) :
    Consistent graph (s.moves before after unit phase' mark) := by
  have hUnits := s.units_of_layer hLayer
  have hUnits' := s.units_moves before after unit phase' mark
  have hIn : (unit, phase) ∈ s.units := by simp [hUnits]
  have hOthers (other : WorkUnit) (p : Phase) :=
    @h.mem_units_moves _ _ _ _ _ _ phase' mark hLayer other p
  refine ⟨?_, h.nodup, ?_, h.settled, h.finished_iff, ?_, ?_⟩
  · have hPerm := h.perm
    rw [hUnits, map_append, map_cons] at hPerm
    rw [hUnits', map_append, map_cons]
    exact hPerm
  · intro other p hEntry m
    show List.count _ ((mark.map (Event.of · unit.val.id)).toList ++ s.trace) = _
    rw [count_append]
    rcases hOthers other p hEntry with ⟨rfl, rfl⟩ | ⟨hOld, hne⟩
    · have hPassed := hStep.passed m
      rw [h.counted other phase hIn m, hPassed.1]
      cases mark with
      | none => simp
      | some passed =>
        by_cases hMark : passed = m
        · subst hMark
          simp [hPassed.2 rfl]
        · simp [hMark]
    · rw [h.counted other p hOld m]
      cases mark with
      | none => simp
      | some passed => simp [Ne.symm hne]
  · show .requested ∈ (mark.map (Event.of · unit.val.id)).toList ++ s.trace ↔ s.cancellation ≠ none
    rw [mem_append, ← h.requested_iff]
    cases mark <;> simp
  · intro other p hEntry
    have hLate : BegunLate other.val.id (s.moves before after unit phase' mark).trace →
        (mark = some .begins ∧ unit.val.id = other.val.id ∧ s.cancellation ≠ none) ∨
          BegunLate other.val.id s.trace := by
      show BegunLate _ ((mark.map (Event.of · unit.val.id)).toList ++ s.trace) → _
      cases mark with
      | none => exact .inr
      | some passed =>
        rintro (⟨hEvent, hPast⟩ | hPast)
        · obtain ⟨rfl, hId⟩ := Event.of.inj hEvent
          exact .inl ⟨rfl, hId, h.requested_iff.mp hPast⟩
        · exact .inr hPast
    rcases hOthers other p hEntry with ⟨rfl, rfl⟩ | ⟨hOld, hne⟩
    · have hSound := h.sound other phase hIn
      refine ⟨fun hFed => ?_, fun ending produced => hStep.endedAs, fun hBegun => ?_⟩
      · rcases hStep.isFed hFed with hFed | hReady
        · exact hSound.isFed hFed
        · exact failedPrerequisite_eq_none_iff.mp hReady
      · rcases hLate hBegun with ⟨rfl, -, -⟩ | hPast
        · cases hStep
          exact .inl rfl
        · rcases hSound.late hPast with rfl | ⟨produced, rfl⟩
          · cases hStep with
            | cancelled hReason hState => exact .inr ⟨_, rfl⟩
            | admitted hNone => exact absurd hNone (h.requested_of_late hPast)
          · cases hStep
    · have hSound := h.sound other p hOld
      refine ⟨hSound.isFed, hSound.endedAs, fun hBegun => ?_⟩
      rcases hLate hBegun with ⟨-, hId, -⟩ | hPast
      · exact absurd hId.symm hne
      · exact hSound.late hPast

end

end Consistent

theorem resultOf_eq_some_iff {entry : WorkUnit × Phase}
    {result : WorkUnit × (Option Observation × Execution)} :
    resultOf entry = some result ↔
      entry.1 = result.1 ∧ ∃ ending, entry.2 = .returned ending result.2 := by
  obtain ⟨unit, phase⟩ := entry
  obtain ⟨unit', produced⟩ := result
  cases phase with
  | returned ending produced' =>
    simp only [resultOf, Option.some.injEq, Prod.mk.injEq, Phase.returned.injEq]
    constructor
    · rintro ⟨rfl, rfl⟩
      exact ⟨rfl, ending, rfl, rfl⟩
    · rintro ⟨rfl, ending', -, rfl⟩
      exact ⟨rfl, rfl⟩
  | _ => simp [resultOf]

theorem mem_results {layer : List (WorkUnit × Phase)}
    {results : List (WorkUnit × (Option Observation × Execution))}
    (h : layer.mapM resultOf = some results) :
    (∀ entry ∈ layer, ∃ ending produced, entry.2 = .returned ending produced) ∧
    ∀ unit produced, (unit, produced) ∈ results ↔ ∃ ending, (unit, .returned ending produced) ∈ layer := by
  induction layer generalizing results with
  | nil =>
    cases h
    simp
  | cons entry layer ih =>
    rw [mapM_cons] at h
    obtain ⟨result, hHead, h⟩ := Option.bind_eq_some_iff.mp h
    obtain ⟨rest, hTail, h⟩ := Option.bind_eq_some_iff.mp h
    cases h
    obtain ⟨hReturned, hMem⟩ := ih hTail
    obtain ⟨unit, phase⟩ := entry
    obtain ⟨unit', produced⟩ := result
    obtain ⟨hUnit, ending, hPhase⟩ := resultOf_eq_some_iff.mp hHead
    simp only at hUnit hPhase
    subst hUnit hPhase
    constructor
    · intro other hOther
      rcases mem_cons.mp hOther with rfl | hOther
      · exact ⟨ending, produced, rfl⟩
      · exact hReturned other hOther
    · intro other produced'
      simp only [mem_cons, hMem, Prod.mk.injEq, Phase.returned.injEq]
      constructor
      · rintro (⟨rfl, rfl⟩ | ⟨ending', hIn⟩)
        · exact ⟨ending, .inl ⟨rfl, rfl, rfl⟩⟩
        · exact ⟨ending', .inr hIn⟩
      · rintro ⟨ending', ⟨rfl, rfl, rfl⟩ | hIn⟩
        · exact .inl ⟨rfl, rfl⟩
        · exact .inr ⟨ending', hIn⟩

namespace Consistent

variable {graph : TaskGraph} {s : Machine} (h : Consistent graph s)

include h

variable {results : List (WorkUnit × (Option Observation × Execution))} {state : RunState}

theorem finished_settled (hReturned : s.layer.mapM resultOf = some results)
    (hSettled : results.foldlM Ici.settle s.state = .ok state) (id : Text) (o : Observation) :
    state.finished.get? id = some o ↔ ∃ unit ending execution,
      (unit, .returned ending (some o, execution)) ∈ s.past ++ s.layer ∧ unit.val.id = id := by
  obtain ⟨hAll, hMem⟩ := mem_results hReturned
  obtain ⟨-, ⟨ends, hEnds, hEndMem⟩, -⟩ := settleAll_ok hSettled
  have hLeft (o' : Observation) : (id, o') ∈ ends ↔ ∃ unit ending execution,
      (unit, .returned ending (some o', execution)) ∈ s.layer ∧ unit.val.id = id := by
    rw [hEndMem]
    constructor
    · rintro ⟨⟨unit, produced, execution⟩, hResult, hId, hSome⟩
      cases hSome
      obtain ⟨ending, hIn⟩ := (hMem unit _).mp hResult
      exact ⟨unit, ending, execution, hIn, hId⟩
    · rintro ⟨unit, ending, execution, hIn, hId⟩
      exact ⟨(unit, some o', execution), (hMem unit _).mpr ⟨ending, hIn⟩, hId, rfl⟩
  have hUnits {entry : WorkUnit × Phase} (hIn : entry ∈ s.past ++ s.layer) : entry ∈ s.units :=
    mem_append_left _ hIn
  rw [hEnds]
  by_cases hNew : ∃ pair ∈ ends, pair.1 = id
  · obtain ⟨⟨_, o'⟩, hPair, rfl⟩ := hNew
    obtain ⟨unit, ending, execution, hIn, hId⟩ := (hLeft o').mp hPair
    have hOne {other : WorkUnit} {ending' : Ending} {o'' : Observation} {execution' : Execution}
        (hOther : (other, .returned ending' (some o'', execution')) ∈ s.past ++ s.layer)
        (hSame : other.val.id = unit.val.id) : o'' = o' := by
      have hPhase := (h.phase_unique (hUnits (mem_append_right _ hIn)) (hUnits hOther) hSame).2
      simp only [Phase.returned.injEq, Prod.mk.injEq, Option.some.injEq] at hPhase
      exact hPhase.2.1
    rw [Dict.get?_setAll_of_forall (v := o') ?_ ⟨_, hPair, rfl⟩]
    · constructor
      · rintro hSome
        cases hSome
        exact ⟨unit, ending, execution, mem_append_right _ hIn, hId⟩
      · rintro ⟨other, ending', execution', hOther, hOtherId⟩
        rw [hOne hOther (hOtherId.trans hId.symm)]
    · rintro ⟨key, o''⟩ hOther rfl
      obtain ⟨other, ending', execution', hOther, hOtherId⟩ := (hLeft o'').mp hOther
      exact hOne (mem_append_right _ hOther) (hOtherId.trans hId.symm)
  · rw [Dict.get?_setAll_of_notMem hNew, h.finished_iff]
    constructor
    · rintro ⟨unit, ending, execution, hIn, hId⟩
      exact ⟨unit, ending, execution, mem_append_left _ hIn, hId⟩
    · rintro ⟨unit, ending, execution, hIn, hId⟩
      rcases mem_append.mp hIn with hPast | hLayer
      · exact ⟨unit, ending, execution, hPast, hId⟩
      · exact absurd ⟨_, (hLeft o).mpr ⟨unit, ending, execution, hLayer, hId⟩, rfl⟩ hNew

theorem settle (hReturned : s.layer.mapM resultOf = some results)
    (hSettled : results.foldlM Ici.settle s.state = .ok state) :
    Consistent graph { s with
      past := s.past ++ s.layer
      layer := enqueue (s.later.headD [])
      later := s.later.tail
      state := state } := by
  obtain ⟨hAll, -⟩ := mem_results hReturned
  have hUnits : ({ s with
      past := s.past ++ s.layer
      layer := enqueue (s.later.headD [])
      later := s.later.tail
      state := state } : Machine).units = s.units := by
    simp only [units]
    rw [append_assoc, enqueue_flatten]
  refine ⟨?_, h.nodup, ?_, ?_, ?_, h.requested_iff, ?_⟩
  · rw [hUnits]
    exact h.perm
  · intro unit phase hEntry
    rw [hUnits] at hEntry
    exact h.counted unit phase hEntry
  · intro unit phase hEntry
    rcases mem_append.mp hEntry with hPast | hLayer
    · exact h.settled unit phase hPast
    · exact hAll (unit, phase) hLayer
  · exact h.finished_settled hReturned hSettled
  · intro unit phase hEntry
    rw [hUnits] at hEntry
    have hSound := h.sound unit phase hEntry
    refine ⟨fun hFed d hd => ?_, hSound.endedAs, hSound.late⟩
    obtain ⟨o, hGet, hState⟩ := hSound.isFed hFed d hd
    obtain ⟨other, ending, execution, hPast, hId⟩ := (h.finished_iff d o).mp hGet
    exact ⟨o, (h.finished_settled hReturned hSettled d o).mpr
      ⟨other, ending, execution, mem_append_left _ hPast, hId⟩, hState⟩

theorem step {world : World} {maxParallel : ℤ} {t : Machine}
    (hStep : Machine.Step world maxParallel s t) : Consistent graph t := by
  cases hStep with
  | unit hLayer hAdvance hWorker => exact h.moves hLayer (advances_of_eq hAdvance)
  | cancel reason hNone => exact h.cancel
  | settle hReturned hMore hSettled => exact h.settle hReturned hSettled

end Consistent

end Ici
