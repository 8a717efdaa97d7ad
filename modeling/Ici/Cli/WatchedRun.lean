import Ici.Application.OrderSafe
import Ici.Cli.EventSink

/-! # A run that is watched

The machine of the scheduler with the sink its workers call: `on_started` where the work of a unit
begins, `on_execution` once its attempt is back. A call that raises ends the unit's worker. -/

namespace Ici

open List Python Transition EventSink Machine

structure Watched where
  machine : Machine
  sink : EventSink
  -- the units whose records were reported, and what the calls of the sink raised
  told : List Text := []
  refused : List PyError := []

open Watched

namespace Watched

def start (runId : Text) (layers : List (List WorkUnit)) : Watched where
  machine := Machine.start layers
  sink := { runId }

def holdsWorker (s : Watched) (entry : WorkUnit × Phase) : Bool :=
  entry.2.isActive || ((resultOf entry).isSome && entry.1.val.id ∉ s.told)

def busy (s : Watched) : ℕ := s.machine.layer.countP s.holdsWorker

inductive Step (world : World) (maxParallel : ℤ) (s : Watched) : Watched → Prop where
  | unit {before after : List (WorkUnit × Phase)} {unit : WorkUnit} {phase phase' : Phase}
      {mark : Option Mark} (hLayer : s.machine.layer = before ++ (unit, phase) :: after)
      (hAdvance : world.advance s.machine.cancellation s.machine.state.finished unit phase =
        some (phase', mark))
      (hWorker : phase = .queued → s.busy < s.machine.workers maxParallel)
      (hSilent : mark ≠ some .starts) :
      Step world maxParallel s { s with machine := s.machine.moves before after unit phase' mark }
  | started (now : UtcTime) {before after : List (WorkUnit × Phase)} {unit : WorkUnit}
      {phase phase' : Phase} {sink : EventSink}
      (hLayer : s.machine.layer = before ++ (unit, phase) :: after)
      (hAdvance : world.advance s.machine.cancellation s.machine.state.finished unit phase =
        some (phase', some .starts))
      (hCall : s.sink.onStarted now unit = (sink, .ok ())) :
      Step world maxParallel s
        { s with machine := s.machine.moves before after unit phase' (some .starts), sink }
  | startRefused (now : UtcTime) {before after : List (WorkUnit × Phase)} {unit : WorkUnit}
      {phase phase' : Phase} {sink : EventSink} {e : PyError}
      (hLayer : s.machine.layer = before ++ (unit, phase) :: after)
      (hAdvance : world.advance s.machine.cancellation s.machine.state.finished unit phase =
        some (phase', some .starts))
      (hCall : s.sink.onStarted now unit = (sink, .error e)) :
      Step world maxParallel s
        { s with
          machine := s.machine.moves before after unit (.raised e) (some .starts)
          sink
          refused := e :: s.refused }
  | reported (now : UtcTime) {before after : List (WorkUnit × Phase)} {unit : WorkUnit}
      {ending : Ending} {produced : Option Observation × Execution} {sink : EventSink}
      (hLayer : s.machine.layer = before ++ (unit, .returned ending produced) :: after)
      (hNew : unit.val.id ∉ s.told) (hCall : s.sink.onExecution now produced.2 = (sink, .ok ())) :
      Step world maxParallel s { s with sink, told := s.told ++ [unit.val.id] }
  | reportRefused (now : UtcTime) {before after : List (WorkUnit × Phase)} {unit : WorkUnit}
      {ending : Ending} {produced : Option Observation × Execution} {sink : EventSink} {e : PyError}
      (hLayer : s.machine.layer = before ++ (unit, .returned ending produced) :: after)
      (hNew : unit.val.id ∉ s.told) (hCall : s.sink.onExecution now produced.2 = (sink, .error e)) :
      Step world maxParallel s
        { s with
          machine := s.machine.moves before after unit (.raised e) none
          sink
          refused := e :: s.refused }
  | cancel (reason : Text) (hNone : s.machine.cancellation = none) :
      Step world maxParallel s
        { s with machine := { s.machine with
            cancellation := some reason
            trace := .requested :: s.machine.trace } }
  -- the pool hands the layer back when every record was reported
  | settle {results : List (WorkUnit × (Option Observation × Execution))} {state : RunState}
      (hReturned : s.machine.layer.mapM resultOf = some results)
      (hTold : ∀ entry ∈ s.machine.layer, entry.1.val.id ∈ s.told)
      (hMore : s.machine.layer ≠ [] ∨ s.machine.later ≠ [])
      (hSettled : results.foldlM Ici.settle s.machine.state = .ok state) :
      Step world maxParallel s
        { s with machine := { s.machine with
            past := s.machine.past ++ s.machine.layer
            layer := enqueue (s.machine.later.headD [])
            later := s.machine.later.tail
            state := state } }

def Tellable (s : Watched) : Prop :=
  ∀ unit phase, (unit, phase) ∈ s.machine.layer → unit.val.id ∉ s.told →
    (∀ key reason, phase = .missed key reason → s.sink.Takes unit.val.id []) ∧
      ∀ ending produced, phase = .returned ending produced →
        s.sink.Takes unit.val.id (completedMessage produced.2)

def TellableStep (world : World) (maxParallel : ℤ) (s t : Watched) : Prop :=
  s.Tellable ∧ Step world maxParallel s t

end Watched

def lifeOf (id : Text) (events : List RunEvent) : List EventType :=
  (events.filter (·.val.taskId = some id)).map (·.val.eventType)

theorem lifeOf_append (id : Text) (events told : List RunEvent) :
    lifeOf id (events ++ told) = lifeOf id events ++ lifeOf id told := by
  simp [lifeOf]

section

variable {id : Text} {told : List RunEvent} (hAbout : ∀ event ∈ told, event.val.taskId = some id)

include hAbout

theorem lifeOf_about : lifeOf id told = told.map (·.val.eventType) := by
  unfold lifeOf
  rw [filter_eq_self.mpr fun event hEvent => decide_eq_true (hAbout event hEvent)]

theorem lifeOf_other {other : Text} (hOther : other ≠ id) : lifeOf other told = [] := by
  unfold lifeOf
  rw [map_eq_nil_iff, filter_eq_nil_iff]
  intro event hEvent
  rw [hAbout event hEvent]
  simpa using Ne.symm hOther

end

theorem Machine.queued_of_start {layers : List (List WorkUnit)} {unit : WorkUnit} {phase : Phase}
    (hEntry : (unit, phase) ∈ (start layers).units) : phase = .queued := by
  have hUnits : (start layers).units = enqueue layers.flatten := by
    simp only [units, start, nil_append]
    exact enqueue_flatten layers
  rw [hUnits, mem_enqueue] at hEntry
  exact hEntry.2

theorem World.advance_unit {world : World} {cancellation : Option Text} {finished : Dict Text Observation}
    {unit : WorkUnit} {phase : Phase} {ending : Ending} {produced : Option Observation × Execution}
    {mark : Option Mark}
    (h : world.advance cancellation finished unit phase = some (.returned ending produced, mark)) :
    produced.2.unit = unit.val.id := by
  cases phase with
  | queued | missed | started | returned | raised => cases h
  | begun | admitted | fed | worked key reason observation =>
    simp only [advance] at h
    split at h
    · cases h
      rfl
    · cases h
  | working key reason =>
    simp only [advance] at h
    split at h
    · cases h
    · split at h
      · cases h
      · cases h

namespace Watched

def toldOf (s : Watched) (unit : WorkUnit) (phase : Phase) : List EventType :=
  (if phase.passed .starts then [.taskStarted] else []) ++
    if unit.val.id ∈ s.told then [.taskCompleted] else []

structure Sound (graph : TaskGraph) (s : Watched) (events : List RunEvent) : Prop where
  consistent : Consistent graph s.machine
  wrote : s.sink.Wrote events
  life : ∀ unit phase, (unit, phase) ∈ s.machine.units → lifeOf unit.val.id events = s.toldOf unit phase
  about : ∀ event ∈ events, ∃ unit ∈ graph.units, event.val.taskId = some unit.val.id
  returned : ∀ unit phase, (unit, phase) ∈ s.machine.units → unit.val.id ∈ s.told →
    ∃ ending produced, phase = .returned ending produced
  past : ∀ unit phase, (unit, phase) ∈ s.machine.past → unit.val.id ∈ s.told
  named : ∀ unit ending produced, (unit, .returned ending produced) ∈ s.machine.units →
    produced.2.unit = unit.val.id
  refused : s.refused = []

namespace Sound

variable {graph : TaskGraph} {s : Watched} {events : List RunEvent}

theorem start {runId : Text} {layers : List (List WorkUnit)} (hPerm : layers.flatten.Perm graph.units)
    (hNodup : (graph.units.map (·.val.id)).Nodup) : Sound graph (start runId layers) [] where
  consistent := .start hPerm hNodup
  wrote := .empty runId
  life := by
    intro unit phase hEntry
    rw [Machine.queued_of_start hEntry]
    rfl
  about := fun _ h => (nomatch h)
  returned := fun _ _ _ h => (nomatch h)
  past := fun _ _ h => (nomatch h)
  named := by
    intro unit ending produced hEntry
    cases Machine.queued_of_start hEntry
  refused := rfl

section

variable (h : Sound graph s events)

include h

variable {unit : WorkUnit} {phase : Phase} {before after : List (WorkUnit × Phase)} {sink : EventSink}

theorem untold (hEntry : (unit, phase) ∈ s.machine.units)
    (hMoving : ∀ ending produced, phase ≠ .returned ending produced) : unit.val.id ∉ s.told := by
  intro hTold
  obtain ⟨ending, produced, hPhase⟩ := h.returned unit phase hEntry hTold
  exact hMoving ending produced hPhase

theorem mem_graph (hEntry : (unit, phase) ∈ s.machine.units) : unit ∈ graph.units :=
  h.consistent.perm.subset (mem_map.mpr ⟨_, hEntry, rfl⟩)

theorem moves {world : World} {phase' : Phase} {mark : Option Mark} {told : List RunEvent}
    (hLayer : s.machine.layer = before ++ (unit, phase) :: after)
    (hAdvance : world.advance s.machine.cancellation s.machine.state.finished unit phase =
      some (phase', mark))
    (hWrote : sink.Wrote (events ++ told)) (hAbout : ∀ event ∈ told, event.val.taskId = some unit.val.id)
    (hTold : told.map (·.val.eventType) = if mark = some .starts then [.taskStarted] else []) :
    Sound graph { s with machine := s.machine.moves before after unit phase' mark, sink }
      (events ++ told) := by
  have hStep := advances_of_eq hAdvance
  have hIn : (unit, phase) ∈ s.machine.units := by
    rw [s.machine.units_of_layer hLayer]
    simp
  have hMoving : ∀ ending produced, phase ≠ .returned ending produced := by
    rintro ending produced rfl
    cases hAdvance
  have hNew := h.untold hIn hMoving
  have hOthers (other : WorkUnit) (p : Phase) :=
    @Consistent.mem_units_moves _ _ h.consistent _ _ _ _ phase' mark hLayer other p
  constructor
  case consistent => exact h.consistent.moves hLayer hStep
  case wrote => exact hWrote
  case life =>
    intro other p hEntry
    rw [lifeOf_append]
    rcases hOthers other p hEntry with ⟨rfl, rfl⟩ | ⟨hOld, hne⟩
    · obtain ⟨hPassed, hFresh⟩ := hStep.passed .starts
      rw [h.life other phase hIn, lifeOf_about hAbout, hTold, toldOf, toldOf, if_neg hNew, append_nil,
        append_nil, hPassed]
      by_cases hStarts : mark = some .starts
      · simp [hStarts, hFresh hStarts]
      · simp [hStarts]
    · rw [h.life other p hOld, lifeOf_other hAbout hne, append_nil]
      rfl
  case about =>
    intro event hEvent
    rcases mem_append.mp hEvent with hOld | hNow
    · exact h.about event hOld
    · exact ⟨unit, h.mem_graph hIn, hAbout event hNow⟩
  case returned =>
    intro other p hEntry hOther
    rcases hOthers other p hEntry with ⟨rfl, rfl⟩ | ⟨hOld, -⟩
    · exact absurd hOther hNew
    · exact h.returned other p hOld hOther
  case past => exact h.past
  case named =>
    intro other ending produced hEntry
    rcases hOthers other _ hEntry with ⟨rfl, hPhase⟩ | ⟨hOld, -⟩
    · subst hPhase
      exact World.advance_unit hAdvance
    · exact h.named other ending produced hOld
  case refused => exact h.refused

theorem reports {ending : Ending} {produced : Option Observation × Execution} {event : RunEvent}
    (hLayer : s.machine.layer = before ++ (unit, .returned ending produced) :: after)
    (hNew : unit.val.id ∉ s.told) (hWrote : sink.Wrote (events ++ [event]))
    (hAbout : event.val.taskId = some unit.val.id) (hKind : event.val.eventType = .taskCompleted) :
    Sound graph { s with sink, told := s.told ++ [unit.val.id] } (events ++ [event]) := by
  have hIn : (unit, .returned ending produced) ∈ s.machine.units := by
    rw [s.machine.units_of_layer hLayer]
    simp
  have hAll : ∀ other ∈ [event], other.val.taskId = some unit.val.id := forall_mem_singleton.mpr hAbout
  constructor
  case consistent => exact h.consistent
  case wrote => exact hWrote
  case life =>
    intro other p hEntry
    rw [lifeOf_append, h.life other p hEntry]
    by_cases hSame : other.val.id = unit.val.id
    · rw [hSame, lifeOf_about hAll]
      simp [toldOf, hSame, hNew, hKind]
    · rw [lifeOf_other hAll hSame]
      simp [toldOf, hSame]
  case about =>
    intro other hOther
    rcases mem_append.mp hOther with hOld | hNow
    · exact h.about other hOld
    · exact ⟨unit, h.mem_graph hIn, hAll other hNow⟩
  case returned =>
    intro other p hEntry hTold
    rcases mem_append.mp hTold with hOld | hNow
    · exact h.returned other p hEntry hOld
    · obtain ⟨-, hPhase⟩ := h.consistent.phase_unique hIn hEntry (mem_singleton.mp hNow)
      exact ⟨ending, produced, hPhase⟩
  case past => exact fun other p hEntry => mem_append_left _ (h.past other p hEntry)
  case named => exact h.named
  case refused => exact h.refused

theorem cancel {reason : Text} : Sound graph { s with machine := { s.machine with
    cancellation := some reason
    trace := .requested :: s.machine.trace } } events :=
  ⟨h.consistent.cancel, h.wrote, h.life, h.about, h.returned, h.past, h.named, h.refused⟩

theorem settle {results : List (WorkUnit × (Option Observation × Execution))} {state : RunState}
    (hReturned : s.machine.layer.mapM resultOf = some results)
    (hTold : ∀ entry ∈ s.machine.layer, entry.1.val.id ∈ s.told)
    (hSettled : results.foldlM Ici.settle s.machine.state = .ok state) :
    Sound graph { s with machine := { s.machine with
      past := s.machine.past ++ s.machine.layer
      layer := enqueue (s.machine.later.headD [])
      later := s.machine.later.tail
      state := state } } events := by
  have hUnits : ({ s.machine with
      past := s.machine.past ++ s.machine.layer
      layer := enqueue (s.machine.later.headD [])
      later := s.machine.later.tail
      state := state } : Machine).units = s.machine.units := by
    simp only [units]
    rw [append_assoc, enqueue_flatten]
  constructor
  case consistent => exact h.consistent.settle hReturned hSettled
  case wrote => exact h.wrote
  case life => exact fun unit phase hEntry => h.life unit phase (hUnits ▸ hEntry)
  case about => exact h.about
  case returned => exact fun unit phase hEntry => h.returned unit phase (hUnits ▸ hEntry)
  case past =>
    intro unit phase hEntry
    rcases mem_append.mp hEntry with hPast | hLayer
    · exact h.past unit phase hPast
    · exact hTold (unit, phase) hLayer
  case named => exact fun unit ending produced hEntry => h.named unit ending produced (hUnits ▸ hEntry)
  case refused => exact h.refused

end

end Sound

/-! ## What a call finds -/

section

variable {graph : TaskGraph} {world : World} {maxParallel : ℤ} {s t : Watched} {events : List RunEvent}
  {before after : List (WorkUnit × Phase)} {unit : WorkUnit}

section

variable {phase : Phase} (hLayer : s.machine.layer = before ++ (unit, phase) :: after)
include hLayer

theorem mem_layer : (unit, phase) ∈ s.machine.layer := by
  rw [hLayer]
  exact mem_append_right _ mem_cons_self

theorem mem_units : (unit, phase) ∈ s.machine.units :=
  mem_append_left _ (mem_append_right _ (mem_layer hLayer))

end

theorem Sound.exists_onExecution_iff (h : Sound graph s events) {ending : Ending}
    {produced : Option Observation × Execution} (hEntry : (unit, .returned ending produced) ∈ s.machine.units)
    (now : UtcTime) : (∃ sink, s.sink.onExecution now produced.2 = (sink, .ok ())) ↔
      s.sink.Takes unit.val.id (completedMessage produced.2) := by
  rw [← h.named unit ending produced hEntry]
  exact exists_emit_iff

theorem exists_onStarted_iff (now : UtcTime) :
    (∃ sink, s.sink.onStarted now unit = (sink, .ok ())) ↔ s.sink.Takes unit.val.id [] :=
  exists_emit_iff

theorem Tellable.started (hTellable : s.Tellable) (h : Sound graph s events) {phase phase' : Phase}
    (hLayer : s.machine.layer = before ++ (unit, phase) :: after)
    (hAdvance : world.advance s.machine.cancellation s.machine.state.finished unit phase =
      some (phase', some .starts)) (now : UtcTime) : ∃ sink, s.sink.onStarted now unit = (sink, .ok ()) := by
  cases advances_of_eq hAdvance with
  | @starts key reason =>
    have hNew := h.untold (mem_units hLayer) fun _ _ => nofun
    exact (exists_onStarted_iff now).mpr ((hTellable _ _ (mem_layer hLayer) hNew).1 key reason rfl)

theorem Tellable.reported (hTellable : s.Tellable) (h : Sound graph s events) {ending : Ending}
    {produced : Option Observation × Execution}
    (hLayer : s.machine.layer = before ++ (unit, .returned ending produced) :: after)
    (hNew : unit.val.id ∉ s.told) (now : UtcTime) :
    ∃ sink, s.sink.onExecution now produced.2 = (sink, .ok ()) :=
  (h.exists_onExecution_iff (mem_units hLayer) now).mpr
    ((hTellable _ _ (mem_layer hLayer) hNew).2 ending produced rfl)

section

variable (h : Sound graph s events) (hStep : TellableStep world maxParallel s t)
include h hStep

theorem Sound.step : ∃ told, Sound graph t (events ++ told) := by
  obtain ⟨hTellable, hStep⟩ := hStep
  cases hStep with
  | @unit _ _ _ _ _ mark hLayer hAdvance hWorker hSilent =>
    refine ⟨[], h.moves hLayer hAdvance ?_ (fun _ hEvent => nomatch hEvent) (if_neg hSilent).symm⟩
    rw [append_nil]
    exact h.wrote
  | started now hLayer hAdvance hCall =>
    obtain ⟨event, line, hEvent, hLine, rfl⟩ := emit_eq_ok hCall
    refine ⟨[event], h.moves hLayer hAdvance (h.wrote.wrote hEvent hLine) ?_ ?_⟩
    · exact forall_mem_singleton.mpr (by rw [hEvent]; rfl)
    · rw [map_singleton, hEvent]
      rfl
  | startRefused now hLayer hAdvance hCall =>
    obtain ⟨sink, hTaken⟩ := hTellable.started h hLayer hAdvance now
    rw [hTaken] at hCall
    cases hCall
  | reported now hLayer hNew hCall =>
    obtain ⟨event, line, hEvent, hLine, rfl⟩ := emit_eq_ok hCall
    refine ⟨[event], h.reports hLayer hNew (h.wrote.wrote hEvent hLine) ?_ ?_⟩
    · rw [← h.named _ _ _ (mem_units hLayer), hEvent]
      rfl
    · rw [hEvent]
      rfl
  | reportRefused now hLayer hNew hCall =>
    obtain ⟨sink, hTaken⟩ := hTellable.reported h hLayer hNew now
    rw [hTaken] at hCall
    cases hCall
  | cancel reason hNone => exact ⟨[], by rw [append_nil]; exact h.cancel⟩
  | settle hReturned hTold hMore hSettled =>
    exact ⟨[], by rw [append_nil]; exact h.settle hReturned hTold hSettled⟩

theorem Sound.unwatched : Machine.Step world maxParallel s.machine t.machine ∨ t.machine = s.machine := by
  obtain ⟨hTellable, hStep⟩ := hStep
  have hBusy : s.machine.busy ≤ s.busy :=
    countP_mono_left fun entry _ hActive => by simp [holdsWorker, hActive]
  cases hStep with
  | unit hLayer hAdvance hWorker hSilent =>
    exact .inl (.unit hLayer hAdvance fun hQueued =>
      lt_of_le_of_lt (Int.ofNat_le.mpr hBusy) (hWorker hQueued))
  | started now hLayer hAdvance hCall =>
    refine .inl (.unit hLayer hAdvance ?_)
    rintro rfl
    cases advances_of_eq hAdvance
  | startRefused now hLayer hAdvance hCall =>
    obtain ⟨sink, hTaken⟩ := hTellable.started h hLayer hAdvance now
    rw [hTaken] at hCall
    cases hCall
  | reported now hLayer hNew hCall => exact .inr rfl
  | reportRefused now hLayer hNew hCall =>
    obtain ⟨sink, hTaken⟩ := hTellable.reported h hLayer hNew now
    rw [hTaken] at hCall
    cases hCall
  | cancel reason hNone => exact .inl (.cancel reason hNone)
  | settle hReturned hTold hMore hSettled => exact .inl (.settle hReturned hMore hSettled)

end

end

end Watched

structure WellWatched (graph : TaskGraph) (world : World) (maxParallel : ℤ) (layers : List (List WorkUnit))
    (s : Watched) : Prop where
  lines : ∃ events, s.sink.Wrote events ∧ (∀ unit ∈ graph.units, lifeOf unit.val.id events =
      (if .of .starts unit.val.id ∈ s.machine.trace then [.taskStarted] else []) ++
        if unit.val.id ∈ s.told then [.taskCompleted] else []) ∧
    ∀ event ∈ events, ∃ unit ∈ graph.units, event.val.taskId = some unit.val.id
  settled : ∀ unit phase, (unit, phase) ∈ s.machine.past → unit.val.id ∈ s.told
  refused : s.refused = []
  unwatched : Reaches (Machine.Step world maxParallel) (start layers) s.machine
  calls : ∀ unit ending produced, Ended s.machine unit ending produced → ∀ now,
    (∃ sink, s.sink.onExecution now produced.2 = (sink, .ok ())) ↔
      s.sink.Takes unit.val.id (completedMessage produced.2)

theorem watched_wellWatched (checks : List PlannedCheck) (catalog : Option (List CheckDefinition))
    (graph : TaskGraph) (hGraph : buildGraph checks catalog = .ok graph) (layers : List (List WorkUnit))
    (hLayers : graph.layers = .ok layers) (world : World) (maxParallel : ℤ) (runId : Text) (s : Watched)
    (hRun : Reaches (Watched.TellableStep world maxParallel) (start runId layers) s) :
    WellWatched graph world maxParallel layers s := by
  have hStart : Watched.Sound graph (start runId layers) [] :=
    .start (layers_ok hLayers).1 (validate_ok (buildGraph_valid hGraph)).1
  have hBoth : (∃ events, Watched.Sound graph s events) ∧
      Reaches (Machine.Step world maxParallel) (start layers) s.machine := by
    induction hRun with
    | refl => exact ⟨⟨[], hStart⟩, .refl⟩
    | tail _ hStep ih =>
      obtain ⟨⟨events, hSound⟩, hReached⟩ := ih
      obtain ⟨told, hNext⟩ := hSound.step hStep
      refine ⟨⟨_, hNext⟩, ?_⟩
      rcases hSound.unwatched hStep with hMove | hSame
      · exact hReached.tail hMove
      · rw [hSame]
        exact hReached
  obtain ⟨⟨events, hSound⟩, hReached⟩ := hBoth
  refine ⟨⟨events, hSound.wrote, ?_, hSound.about⟩, hSound.past, hSound.refused, hReached,
    fun unit ending produced hEnded now => hSound.exists_onExecution_iff hEnded now⟩
  intro unit hUnit
  obtain ⟨phase, hEntry⟩ := hSound.consistent.exists_phase hUnit
  have hStarts := hSound.consistent.mem_trace_iff hEntry .starts
  rw [hSound.life unit phase hEntry, toldOf, if_congr hStarts rfl rfl]

/-! ## A detail too long -/

def lintUnit : WorkUnit := ⟨{ id := py "lint", consumers := [py "lint"], source := lintCheck }, by decide⟩

def lintGraph : TaskGraph := { units := [lintUnit], blocked := [] }

theorem buildGraph_lint : buildGraph [lintCheck] none = .ok lintGraph := by decide

theorem layers_lint : lintGraph.layers = .ok [[lintUnit]] := by decide

def lintObservation : Observation :=
  ⟨{ taskId := py "lint", provider := py "lint", state := .succeeded }, by decide⟩

/-- The identity of no unit can be computed: `name` is what the error names. -/
def unnamedWorld (name : Text) : World where
  caching := some {
    identify := fun _ => .error ⟨py "OSError", name⟩
    read := fun _ _ => { hit := false, reason := [] }
    sha256 := fun _ => []
    stored := fun _ => 0
    runId := [] }
  perform := fun _ => .ok lintObservation

def unnamedReason (name : Text) : Text := py "cache identification failed: OSError: " ++ name

section

variable (phase : Phase) (trace : List Event) (sink : EventSink)

def lintAt : Watched where
  machine := { layer := [(lintUnit, phase)], later := [], trace }
  sink := sink

def lintResult (name : Text) : Option Observation × Execution :=
  (some lintObservation, World.execution lintUnit .succeeded (unnamedReason name))

theorem lintAt_layer : (lintAt phase trace sink).machine.layer = [] ++ (lintUnit, phase) :: [] := rfl

end

theorem lintAt_step {name : Text} {phase phase' : Phase} {mark : Option Mark} {trace : List Event}
    {sink : EventSink} (hAdvance : (unnamedWorld name).advance none [] lintUnit phase = some (phase', mark))
    (hSilent : mark ≠ some .starts) :
    Watched.TellableStep (unnamedWorld name) 4 (lintAt phase trace sink)
      (lintAt phase' ((mark.map (Event.of · lintUnit.val.id)).toList ++ trace) sink) := by
  refine ⟨fun unit other hEntry _ => ?_, .unit (lintAt_layer _ _ _) hAdvance ?_ hSilent⟩
  · obtain ⟨rfl, rfl⟩ := Prod.mk.inj (mem_singleton.mp hEntry)
    refine ⟨?_, ?_⟩
    · rintro key reason rfl
      cases hAdvance
      exact absurd rfl hSilent
    · rintro ending produced rfl
      cases hAdvance
  · rintro rfl
    simp [Watched.busy, Watched.holdsWorker, lintAt, workers, Phase.isActive, resultOf]

theorem runId_takes {seq : ℕ} {file : Option (List UInt8)} {message : Text} (hSeq : FitsDigitLimit seq)
    (hFits : message.length ≤ maxPayloadChars) (hText : NoSurrogate message) :
    EventSink.Takes { runId := py "run-1", seq, file } (py "lint") message :=
  ⟨(by decide : IsText (py "run-1") ∧ NoSurrogate (py "run-1")), by decide, hFits, hText, hSeq⟩

def midnight : UtcTime := ⟨2024, 1, 1, 0, 0, 0, 0⟩

theorem reaches_lintResult (name : Text) : ∃ trace sink, sink.runId = py "run-1" ∧ sink.seq = 1 ∧
    Reaches (Watched.TellableStep (unnamedWorld name) 4) (start (py "run-1") [[lintUnit]])
      (lintAt (.returned .performed (lintResult name)) trace sink) := by
  have hTakes : EventSink.Takes { runId := py "run-1" } (py "lint") [] := by
    exact runId_takes (by decide) (by decide) (by decide)
  obtain ⟨sink, hCall⟩ := (@exists_onStarted_iff (lintAt (.missed none (unnamedReason name))
    [.of .begins (py "lint")] { runId := py "run-1" }) lintUnit midnight).mpr hTakes
  obtain ⟨event, line, -, -, rfl⟩ := emit_eq_ok hCall
  refine ⟨[.of .performs (py "lint"), .of .starts (py "lint"), .of .begins (py "lint")],
    wrote { runId := py "run-1" } line, rfl, rfl, ?_⟩
  have hBegun : Watched.TellableStep (unnamedWorld name) 4 (start (py "run-1") [[lintUnit]])
      (lintAt .begun [.of .begins (py "lint")] { runId := py "run-1" }) :=
    @lintAt_step name .queued .begun (some .begins) [] _ rfl nofun
  have hStarted : Watched.TellableStep (unnamedWorld name) 4
      (lintAt (.missed none (unnamedReason name)) [.of .begins (py "lint")] { runId := py "run-1" })
      (lintAt (.started none (unnamedReason name)) [.of .starts (py "lint"), .of .begins (py "lint")]
        (wrote { runId := py "run-1" } line)) := by
    refine ⟨fun unit other hEntry _ => ?_, .started midnight (lintAt_layer _ _ _) rfl hCall⟩
    obtain ⟨rfl, rfl⟩ := Prod.mk.inj (mem_singleton.mp hEntry)
    exact ⟨fun _ _ _ => hTakes, fun _ _ h => nomatch h⟩
  have hQuiet (phase phase' : Phase) (trace : List Event) (sink : EventSink)
      (hAdvance : (unnamedWorld name).advance none [] lintUnit phase = some (phase', none)) :
      Watched.TellableStep (unnamedWorld name) 4 (lintAt phase trace sink) (lintAt phase' trace sink) :=
    lintAt_step hAdvance nofun
  refine .head hBegun (.head (hQuiet .begun .admitted _ _ rfl) ?_)
  refine .head (hQuiet .admitted .fed _ _ rfl) (.head (hQuiet .fed _ _ _ rfl) (.head hStarted ?_))
  refine .head (@lintAt_step name _ (.working none (unnamedReason name)) (some .performs) _ _ rfl nofun) ?_
  exact .head (hQuiet _ _ _ _ rfl) (.single (hQuiet _ _ _ _ rfl))

theorem lintAt_tellable {name : Text} {trace : List Event} {sink : EventSink}
    (hTakes : sink.Takes (py "lint") (completedMessage (lintResult name).2)) :
    (lintAt (.returned .performed (lintResult name)) trace sink).Tellable := by
  intro unit phase hEntry _
  obtain ⟨rfl, rfl⟩ := Prod.mk.inj (mem_singleton.mp hEntry)
  constructor
  · intro key reason hMissed
    cases hMissed
  · intro ending produced hReturned
    cases hReturned
    exact hTakes

theorem not_takes_of_long {name : Text} (hLong : maxPayloadChars < name.length) (sink : EventSink) :
    ¬sink.Takes (py "lint") (completedMessage (lintResult name).2) := by
  intro hTakes
  have hDetail : unnamedReason name ≠ [] := append_ne_nil_of_left_ne_nil (by decide) _
  have hMessage : completedMessage (lintResult name).2 =
      TaskState.succeeded.value ++ (py " — " ++ unnamedReason name) :=
    congrArg (TaskState.succeeded.value ++ ·) (if_neg hDetail)
  have hFits := hTakes.fits
  rw [hMessage, unnamedReason] at hFits
  simp only [length_append] at hFits
  omega

/-- A run that told the end of its unit. -/
theorem watched_wellWatched_lint : ∃ s, s.told = [py "lint"] ∧
    WellWatched lintGraph (unnamedWorld (py "denied")) 4 [[lintUnit]] s := by
  obtain ⟨trace, sink, hRunId, hSeq, hRun⟩ := reaches_lintResult (py "denied")
  obtain ⟨runId, seq, file⟩ := sink
  cases hRunId
  cases hSeq
  have hTakes : EventSink.Takes { runId := py "run-1", seq := 1, file } (py "lint")
      (completedMessage (lintResult (py "denied")).2) :=
    runId_takes (by decide) (by decide) (by decide)
  obtain ⟨sink, hCall⟩ := (@exists_emit_iff _ midnight .taskCompleted _ _).mpr hTakes
  have hTold : Watched.TellableStep (unnamedWorld (py "denied")) 4
      (lintAt (.returned .performed (lintResult (py "denied"))) trace { runId := py "run-1", seq := 1, file })
      { lintAt (.returned .performed (lintResult (py "denied"))) trace sink with told := [py "lint"] } :=
    ⟨lintAt_tellable hTakes, .reported midnight (lintAt_layer _ _ _) not_mem_nil hCall⟩
  exact ⟨_, rfl, watched_wellWatched [lintCheck] none lintGraph buildGraph_lint [[lintUnit]] layers_lint _ 4
    (py "run-1") _ (hRun.tail hTold)⟩

/-- The path in the text of an error was too long: the finished unit's worker raises. -/
theorem long_detail_refused : ∃ graph layers s, buildGraph [lintCheck] none = .ok graph ∧
    graph.layers = .ok layers ∧
    Reaches (Watched.Step (unnamedWorld (List.replicate 5000 0x61)) 4) (start (py "run-1") layers) s ∧
    s.refused ≠ [] ∧ s.told = [] ∧ ∃ unit ∈ graph.units, ∃ e, (unit, .raised e) ∈ s.machine.layer := by
  obtain ⟨trace, sink, -, -, hRun⟩ := reaches_lintResult (List.replicate 5000 0x61)
  have hLong : maxPayloadChars < (List.replicate 5000 (0x61 : CodePoint)).length := by
    rw [length_replicate]
    decide
  have hRun' := Relation.ReflTransGen.mono (fun _ _ (hStep : Watched.TellableStep _ 4 _ _) => hStep.2)
    _ _ hRun
  cases hCall : sink.onExecution midnight (lintResult (List.replicate 5000 0x61)).2 with
  | mk sink' result =>
    cases result with
    | ok => exact absurd (exists_emit_iff.mp ⟨sink', hCall⟩) (not_takes_of_long hLong sink)
    | error e =>
      refine ⟨lintGraph, [[lintUnit]], _, buildGraph_lint, layers_lint,
        hRun'.tail (.reportRefused midnight (lintAt_layer _ _ _) not_mem_nil hCall), ?_, rfl, lintUnit,
          ?_, e, ?_⟩
      · exact cons_ne_nil _ _
      · exact mem_singleton_self _
      · exact mem_singleton_self _

end Ici
