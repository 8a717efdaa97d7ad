import Mathlib.Data.Fintype.BigOperators
import Ici.Application.Schedule
import Ici.Library.Locking

/-! # One layer while its units interleave

The scheduler step by step. The units of a layer go through their attempts in any interleaving,
no more of them at a time than there are workers, and cancellation may be requested between any
two steps. The trace is what an observer of the run sees, the newest event first. -/

namespace Ici

open Python

inductive Ending where
  | cancelled
  | blocked
  | reused
  | performed
deriving DecidableEq

inductive Phase where
  | queued
  | begun
  | admitted
  | fed
  | missed (key : Option Text) (reason : Text)
  | started (key : Option Text) (reason : Text)
  | working (key : Option Text) (reason : Text)
  | worked (key : Option Text) (reason : Text) (observation : Observation)
  | returned (ending : Ending) (produced : Option Observation × Execution)
  | raised (e : PyError)

inductive Mark where
  | begins
  | starts
  | performs
deriving DecidableEq

inductive Event where
  | requested
  | of (mark : Mark) (unit : Text)
deriving DecidableEq

namespace Phase

def passed : Phase → Mark → Bool
  | queued, _ => false
  | begun, mark | admitted, mark | fed, mark | missed _ _, mark => mark = .begins
  | started _ _, mark => mark = .begins || mark = .starts
  | working _ _, _ | worked _ _ _, _ | raised _, _ => true
  | returned ending _, mark => mark = .begins || ending = .performed

def isActive : Phase → Bool
  | queued | returned _ _ | raised _ => false
  | _ => true

end Phase

namespace World

variable (world : World) (cancellation : Option Text) (finished : Dict Text Observation)
  (unit : WorkUnit)

/-- The next step of one attempt, and what of it can be seen. The source's hooks return. -/
def advance : Phase → Option (Phase × Option Mark)
  | .queued => some (.begun, some .begins)
  | .begun =>
    match cancellation with
    | some reason =>
      let detail := if reason = [] then py "cancelled before it started" else reason
      some (.returned .cancelled (none, execution unit .cancelled detail), none)
    | none => some (.admitted, none)
  | .admitted =>
    match failedPrerequisite unit finished with
    | some blocker => some (.returned .blocked
        (none, execution unit .blocked (py "prerequisite " ++ blocker ++ py " did not run")), none)
    | none => some (.fed, none)
  | .fed =>
    match world.lookup unit with
    | .hit observation sourceRun =>
      let detail := if sourceRun = [] then py "cache hit" else py "cache hit from run " ++ sourceRun
      some (.returned .reused (some observation, execution unit observation.val.state detail), none)
    | .miss key reason => some (.missed key reason, none)
  | .missed key reason => some (.started key reason, some .starts)
  | .started key reason => some (.working key reason, some .performs)
  | .working key reason =>
    match contain unit (world.perform unit) with
    | .ok observation => some (.worked key reason observation, none)
    | .error e => if e = noReturn then none else some (.raised e, none)
  | .worked key reason observation =>
    match world.keep unit key observation with
    | .ok () =>
      let duration := match observation.val.durationSeconds with
        | some seconds => if seconds.val.truthy then seconds else world.elapsed unit
        | none => world.elapsed unit
      some (.returned .performed (some observation,
        { execution unit observation.val.state reason with durationSeconds := duration }), none)
    | .error e => some (.raised e, none)
  | .returned _ _ | .raised _ => none

end World

structure Machine where
  past : List (WorkUnit × Phase) := []
  layer : List (WorkUnit × Phase)
  later : List (List WorkUnit)
  state : RunState := {}
  cancellation : Option Text := none
  trace : List Event := []

def enqueue (units : List WorkUnit) : List (WorkUnit × Phase) := units.map fun unit => (unit, .queued)

def resultOf : WorkUnit × Phase → Option (WorkUnit × (Option Observation × Execution))
  | (unit, .returned _ produced) => some (unit, produced)
  | _ => none

namespace Machine

def units (s : Machine) : List (WorkUnit × Phase) := s.past ++ s.layer ++ enqueue s.later.flatten

def workers (s : Machine) (maxParallel : ℤ) : ℤ := max 1 (min maxParallel s.layer.length)

def busy (s : Machine) : ℕ := s.layer.countP (·.2.isActive)

def start (layers : List (List WorkUnit)) : Machine where
  layer := enqueue (layers.headD [])
  later := layers.tail

/-- `unit` of the current layer goes on. -/
def moves (s : Machine) (before after : List (WorkUnit × Phase)) (unit : WorkUnit) (phase : Phase)
    (mark : Option Mark) : Machine :=
  { s with
    layer := before ++ (unit, phase) :: after
    trace := (mark.map (Event.of · unit.val.id)).toList ++ s.trace }

inductive Step (world : World) (maxParallel : ℤ) (s : Machine) : Machine → Prop where
  | unit {before after : List (WorkUnit × Phase)} {unit : WorkUnit} {phase phase' : Phase}
      {mark : Option Mark} (hLayer : s.layer = before ++ (unit, phase) :: after)
      (hAdvance : world.advance s.cancellation s.state.finished unit phase = some (phase', mark))
      (hWorker : phase = .queued → s.busy < s.workers maxParallel) :
      Step world maxParallel s (s.moves before after unit phase' mark)
  -- only the first request is kept
  | cancel (reason : Text) (hNone : s.cancellation = none) :
      Step world maxParallel s
        { s with cancellation := some reason, trace := .requested :: s.trace }
  -- `list(pool.map(record, layer))` is back: one raised attempt and it never is
  | settle {results : List (WorkUnit × (Option Observation × Execution))} {state : RunState}
      (hReturned : s.layer.mapM resultOf = some results) (hMore : s.layer ≠ [] ∨ s.later ≠ [])
      (hSettled : results.foldlM Ici.settle s.state = .ok state) :
      Step world maxParallel s { s with
        past := s.past ++ s.layer
        layer := enqueue (s.later.headD [])
        later := s.later.tail
        state := state }

end Machine

end Ici

/-! ## One lock per declared resource key, held while a unit runs

The machine behind `locks.held(unit.task.resource_keys)`. Each unit looks its locks up in sorted
order, takes them one after the other, does its work and gives them back; every step of every
unit may come next. The table's guard makes one look-up one step. -/

namespace Ici

open Dict Python

abbrev LockId := ℕ

inductive Hold where
  | fetching (found : List LockId) (keys : List Text)
  | acquiring (held rest : List LockId)
  | working (held : List LockId)
  | releasing (left : List LockId)
  | finished
deriving DecidableEq

/-- `_lock(key)`: the lock kept for a key, made at its first use. -/
def lockFor (table : Dict Text LockId) (key : Text) : LockId × Dict Text LockId :=
  match table.get? key with
  | some found => (found, table)
  | none => (table.length, table.set key table.length)

structure ResourceLocks (ι : Type) where
  table : Dict Text LockId
  taken : LockId → Bool
  phase : ι → Hold

namespace ResourceLocks

variable {ι : Type} [DecidableEq ι]

def moves (s : ResourceLocks ι) (i : ι) (phase : Hold) : ResourceLocks ι :=
  { s with phase := Function.update s.phase i phase }

inductive Step (s : ResourceLocks ι) : ResourceLocks ι → Prop where
  | fetch {i : ι} {found : List LockId} {key : Text} {keys : List Text}
      (hPhase : s.phase i = .fetching found (key :: keys)) :
      Step s { s.moves i (.fetching (found ++ [(lockFor s.table key).1]) keys) with
        table := (lockFor s.table key).2 }
  | enter {i : ι} {found : List LockId} (hPhase : s.phase i = .fetching found []) :
      Step s (s.moves i (.acquiring [] found))
  | acquire {i : ι} {held rest : List LockId} {lock : LockId}
      (hPhase : s.phase i = .acquiring held (lock :: rest)) (hFree : s.taken lock = false) :
      Step s { s.moves i (.acquiring (held ++ [lock]) rest) with
        taken := Function.update s.taken lock true }
  | work {i : ι} {held : List LockId} (hPhase : s.phase i = .acquiring held []) :
      Step s (s.moves i (.working held))
  -- the work returned or raised: `__exit__` runs either way
  | exit {i : ι} {held : List LockId} (hPhase : s.phase i = .working held) :
      Step s (s.moves i (.releasing held.reverse))
  | release {i : ι} {left : List LockId} {lock : LockId}
      (hPhase : s.phase i = .releasing (lock :: left)) :
      Step s { s.moves i (.releasing left) with taken := Function.update s.taken lock false }
  | finish {i : ι} (hPhase : s.phase i = .releasing []) : Step s (s.moves i .finished)

/-- Every unit about to take the locks of its keys, `sorted(keys)`. -/
def start (keys : ι → List Text) : ResourceLocks ι where
  table := []
  taken := fun _ => false
  phase := fun i => .fetching [] ((keys i).insertionSort (· ≤ ·))

end ResourceLocks

/-! ## The locks by their keys -/

/-- `id` is the lock kept for `key`. -/
def Named (table : Dict Text LockId) (key : Text) (id : LockId) : Prop := table.get? key = some id

theorem lockFor_named (table : Dict Text LockId) (key : Text) :
    Named (lockFor table key).2 key (lockFor table key).1 := by
  unfold lockFor
  cases h : table.get? key with
  | some found => exact h
  | none => exact get?_set_self table key table.length

variable {table : Dict Text LockId} {k key : Text} {id : LockId}

theorem Named.lockFor (h : Named table k id) (key : Text) : Named (lockFor table key).2 k id := by
  unfold Ici.lockFor
  cases hKey : table.get? key with
  | some found => exact h
  | none =>
    have hne : key ≠ k := by
      rintro rfl
      rw [Named, hKey] at h
      cases h
    exact (get?_set_of_ne hne table table.length).trans h

structure IsTable (table : Dict Text LockId) : Prop where
  injective : ∀ k k' id, Named table k id → Named table k' id → k = k'
  made : ∀ k id, Named table k id → id < table.length

theorem isTable_nil : IsTable [] := ⟨fun _ _ _ h => (nomatch h), fun _ _ h => (nomatch h)⟩

theorem named_of_lockFor (h : Named (lockFor table key).2 k id) :
    Named table k id ∨ (table.get? key = none ∧ k = key ∧ id = table.length) := by
  unfold lockFor at h
  cases hKey : table.get? key with
  | some found =>
    rw [hKey] at h
    exact .inl h
  | none =>
    rw [hKey] at h
    by_cases hk : key = k
    · subst hk
      right
      exact ⟨rfl, rfl, (Option.some.inj ((get?_set_self table key table.length).symm.trans h)).symm⟩
    · left
      exact (get?_set_of_ne hk table table.length).symm.trans h

theorem length_lockFor_of_none (h : table.get? key = none) :
    (lockFor table key).2.length = table.length + 1 := by
  unfold lockFor
  rw [h]
  show (table.set key table.length).length = _
  rw [set_of_notMem ((get?_eq_none_iff table key).mp h), List.length_append]
  rfl

theorem length_le_lockFor (table : Dict Text LockId) (key : Text) :
    table.length ≤ (lockFor table key).2.length := by
  cases h : table.get? key with
  | some found =>
    unfold lockFor
    rw [h]
  | none =>
    have hLength := length_lockFor_of_none h
    omega

theorem IsTable.lockFor (h : IsTable table) (key : Text) : IsTable (lockFor table key).2 := by
  constructor
  · intro k k' id hk hk'
    rcases named_of_lockFor hk with hOld | ⟨-, hKey, hId⟩
    · rcases named_of_lockFor hk' with hOld' | ⟨-, -, hId⟩
      · exact h.injective k k' id hOld hOld'
      · exact absurd (hId ▸ h.made k id hOld) (lt_irrefl _)
    · rcases named_of_lockFor hk' with hOld' | ⟨-, hKey', -⟩
      · exact absurd (hId ▸ h.made k' id hOld') (lt_irrefl _)
      · exact hKey.trans hKey'.symm
  · intro k id hk
    rcases named_of_lockFor hk with hOld | ⟨hNone, -, hId⟩
    · exact (h.made k id hOld).trans_le (length_le_lockFor table key)
    · rw [length_lockFor_of_none hNone, hId]
      exact Nat.lt_succ_self _

inductive HoldMatches (table : Dict Text LockId) : Hold → Locking.Phase Text → Prop where
  | fetching {found : List LockId} {looked keys plan : List Text}
      (hFound : List.Forall₂ (Named table) looked found) (hPlan : looked ++ keys = plan) :
      HoldMatches table (.fetching found keys) (.taking [] plan)
  | acquiring {held rest : List LockId} {held' rest' : List Text}
      (hHeld : List.Forall₂ (Named table) held' held)
      (hRest : List.Forall₂ (Named table) rest' rest) :
      HoldMatches table (.acquiring held rest) (.taking held' rest')
  | working {held : List LockId} {held' : List Text}
      (hHeld : List.Forall₂ (Named table) held' held) :
      HoldMatches table (.working held) (.inside held')
  | releasing {left : List LockId} {left' : List Text}
      (hLeft : List.Forall₂ (Named table) left' left) :
      HoldMatches table (.releasing left) (.leaving left')
  | finished : HoldMatches table .finished .gone

theorem HoldMatches.mono {table' : Dict Text LockId} {hold : Hold}
    {phase : Locking.Phase Text} (hMono : ∀ k id, Named table k id → Named table' k id)
    (h : HoldMatches table hold phase) : HoldMatches table' hold phase := by
  cases h with
  | fetching hFound hPlan => exact .fetching (hFound.imp hMono) hPlan
  | acquiring hHeld hRest => exact .acquiring (hHeld.imp hMono) (hRest.imp hMono)
  | working hHeld => exact .working (hHeld.imp hMono)
  | releasing hLeft => exact .releasing (hLeft.imp hMono)
  | finished => exact .finished

end Ici
