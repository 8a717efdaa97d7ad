import Mathlib.Algebra.GroupWithZero.Nat
import Ici.Library.Dict
import Ici.Library.Transition

/-! # Batches of tasks, one batch after the other

The tasks of a batch are handed out in order to a bounded number of workers and return in any order;
their results are collected before the next batch begins. -/

namespace Batching

open Option Dict List Transition

universe u

inductive Event (α ρ : Type u) where
  | started (task : α)
  | returned (task : α) (result : ρ)

namespace Event

variable {α ρ : Type u}

def startedTask? : Event α ρ → Option α
  | started task => some task
  | returned _ _ => none

def returnedTask? : Event α ρ → Option α
  | started _ => none
  | returned task _ => some task

end Event

structure State (α κ ρ : Type u) where
  waiting : List (List α)
  batch : List α := []
  queued : List α := []
  running : List α := []
  futures : Dict κ ρ := []
  completed : Dict κ ρ := []
  history : List (Event α ρ) := []

variable {α κ ρ : Type u} [DecidableEq κ] (key : α → κ) (workers : List α → ℕ) (gives : α → ρ → Prop)

def State.collected (s : State α κ ρ) : Dict κ ρ :=
  s.completed.setAll
    (s.batch.filterMap fun task => (s.futures.get? (key task)).map fun result => (key task, result))

inductive Step : State α κ ρ → State α κ ρ → Prop
  | start (s : State α κ ρ) (task : α) (rest : List α) (hQueued : s.queued = task :: rest)
      (hFree : s.running.length < workers s.batch) :
      Step s { s with
        queued := rest
        running := s.running ++ [task]
        history := s.history ++ [.started task] }
  | finish (s : State α κ ρ) (task : α) (before after : List α) (result : ρ)
      (hRunning : s.running = before ++ task :: after) (hGives : gives task result) :
      Step s { s with
        running := before ++ after
        futures := s.futures.set (key task) result
        history := s.history ++ [.returned task result] }
  | next (s : State α κ ρ) (batch : List α) (waiting : List (List α)) (hQueued : s.queued = [])
      (hRunning : s.running = []) (hWaiting : s.waiting = batch :: waiting) :
      Step s { s with
        waiting
        batch
        queued := batch
        futures := []
        completed := s.collected key }

structure State.Finished (s : State α κ ρ) : Prop where
  waiting : s.waiting = []
  queued : s.queued = []
  running : s.running = []

def State.begin (batches : List (List α)) : State α κ ρ := { waiting := batches }

def Ordered (deps : α → List κ) (batches : List (List α)) : Prop :=
  ∀ earlier batch later, batches = earlier ++ batch :: later → ∀ task ∈ batch, ∀ d ∈ deps task,
    ∃ dependency ∈ earlier.flatten, key dependency = d

/-- Where a run stands: the batches that have been collected, and what of this one has returned. -/
structure Stands (deps : α → List κ) (batches : List (List α)) (earlier : List (List α))
    (finished : List α) (s : State α κ ρ) : Prop where
  position : [] :: batches = earlier ++ s.batch :: s.waiting
  split : (finished ++ s.running ++ s.queued).Perm s.batch
  started : (s.history.filterMap Event.startedTask?).Perm (earlier.flatten ++ finished ++ s.running)
  returned : (s.history.filterMap Event.returnedTask?).Perm (earlier.flatten ++ finished)
  futures : ∀ task ∈ finished, ∃ result, s.futures.get? (key task) = some result ∧
    .returned task result ∈ s.history
  completed : ∀ task ∈ earlier.flatten, ∃ result, s.completed.get? (key task) = some result ∧
    .returned task result ∈ s.history
  given : ∀ task result, .returned task result ∈ s.history → gives task result
  ordered : ∀ past task future, s.history = past ++ .started task :: future → ∀ d ∈ deps task,
    ∃ dependency result, key dependency = d ∧ .returned dependency result ∈ past

variable {key workers gives} {deps : α → List κ} {batches : List (List α)}

theorem stands_begin : Stands key gives deps batches [] [] (State.begin (κ := κ) (ρ := ρ) batches) where
  position := rfl
  split := .nil
  started := .nil
  returned := .nil
  futures := nofun
  completed := nofun
  given := nofun
  ordered past task future h := by
    cases past <;> cases h

omit [DecidableEq κ] in
theorem Ordered.collected (hOrdered : Ordered key deps batches) {earlier : List (List α)}
    {batch : List α} {later : List (List α)} (h : [] :: batches = earlier ++ batch :: later) {task : α}
    (hTask : task ∈ batch) {d : κ} (hd : d ∈ deps task) :
    ∃ dependency ∈ earlier.flatten, key dependency = d := by
  cases earlier with
  | nil =>
    obtain ⟨rfl, -⟩ := cons.inj h
    cases hTask
  | cons first earlier =>
    obtain ⟨rfl, hRest⟩ := cons.inj h
    exact hOrdered earlier batch later hRest task hTask d hd

theorem exists_of_flatMap_eq {ι β : Type*} {f : ι → List β} {l : List ι} {earlier later : List β} {b : β}
    (h : l.flatMap f = earlier ++ b :: later) :
    ∃ before a after start, l = before ++ a :: after ∧ earlier = before.flatMap f ++ start ∧ b ∈ f a := by
  induction l generalizing earlier with
  | nil => simp at h
  | cons a rest ih =>
    rw [flatMap_cons] at h
    rcases append_eq_append_iff.mp h with ⟨start, rfl, hRest⟩ | ⟨start, hHead, hRest⟩
    · obtain ⟨before, found, after, start', rfl, rfl, hIn⟩ := ih hRest
      exact ⟨a :: before, found, after, start', rfl, by simp, hIn⟩
    · cases start with
      | nil =>
        obtain ⟨before, found, after, start', rfl, hStart, hIn⟩ :=
          ih (hRest.symm.trans (nil_append _).symm)
        obtain ⟨hNone, rfl⟩ := append_eq_nil_iff.mp hStart.symm
        refine ⟨a :: before, found, after, [], rfl, ?_, hIn⟩
        rw [flatMap_cons, hNone, hHead, append_nil, append_nil, append_nil]
      | cons first start =>
        obtain ⟨rfl, -⟩ := cons.inj hRest
        refine ⟨[], a, rest, earlier, rfl, rfl, ?_⟩
        rw [hHead]
        exact mem_append_right _ mem_cons_self

omit [DecidableEq κ] in
theorem Ordered.flatMap {layers : List (List α)} (h : Ordered key deps layers)
    {split : List α → List (List α)} (hSplit : ∀ layer, (split layer).flatten.Perm layer) :
    Ordered key deps (layers.flatMap split) := by
  intro earlier batch later hParts task hTask d hd
  obtain ⟨before, layer, after, start, rfl, hStart, hBatch⟩ := exists_of_flatMap_eq hParts
  have hIn : task ∈ layer := (hSplit layer).mem_iff.mp (mem_flatten.mpr ⟨batch, hBatch, hTask⟩)
  obtain ⟨dependency, hDependency, hKey⟩ := h before layer after rfl task hIn d hd
  obtain ⟨done, hDone, hMem⟩ := mem_flatten.mp hDependency
  obtain ⟨part, hPart, hMem'⟩ := mem_flatten.mp ((hSplit done).mem_iff.mpr hMem)
  refine ⟨dependency, mem_flatten.mpr ⟨part, ?_, hMem'⟩, hKey⟩
  rw [hStart]
  exact mem_append_left _ (mem_flatMap.mpr ⟨done, hDone, hPart⟩)

section Steps

variable {earlier : List (List α)} {finished : List α} {s : State α κ ρ}

section

variable (h : Stands key gives deps batches earlier finished s)
include h

theorem Stands.tasks : batches.flatten.Perm
      (earlier.flatten ++ (finished ++ s.running ++ s.queued) ++ s.waiting.flatten) := by
  have hFlatten := congrArg List.flatten h.position
  rw [flatten_cons, nil_append, flatten_append, flatten_cons] at hFlatten
  rw [hFlatten, append_assoc]
  exact ((h.split.symm).append_right _).append_left _

theorem Stands.start (hOrdered : Ordered key deps batches) {task : α} {rest : List α}
    (hQueued : s.queued = task :: rest) :
    Stands key gives deps batches earlier finished { s with
      queued := rest
      running := s.running ++ [task]
      history := s.history ++ [.started task] } where
  position := h.position
  split := by
    have hSplit := h.split
    rw [hQueued] at hSplit
    simpa [append_assoc] using hSplit
  started := by
    rw [filterMap_append, ← append_assoc]
    exact h.started.append_right _
  returned := by
    rw [filterMap_append]
    change (s.history.filterMap Event.returnedTask? ++ []).Perm _
    rw [append_nil]
    exact h.returned
  futures task' hTask := by
    obtain ⟨result, hResult, hMem⟩ := h.futures task' hTask
    exact ⟨result, hResult, mem_append_left _ hMem⟩
  completed task' hTask := by
    obtain ⟨result, hResult, hMem⟩ := h.completed task' hTask
    exact ⟨result, hResult, mem_append_left _ hMem⟩
  given task' result hMem := by
    rcases mem_append.mp hMem with hOld | hNew
    · exact h.given task' result hOld
    · cases mem_singleton.mp hNew
  ordered past task' future hHistory := by
    rcases eq_nil_or_concat future with rfl | ⟨front, last, rfl⟩
    · obtain ⟨rfl, hEvent⟩ := append_inj' hHistory rfl
      cases hEvent
      intro d hd
      have hMem : task ∈ s.batch := by
        refine h.split.mem_iff.mp (mem_append_right _ ?_)
        rw [hQueued]
        exact mem_cons_self
      obtain ⟨dependency, hDependency, hKey⟩ := hOrdered.collected h.position hMem hd
      obtain ⟨result, -, hReturned⟩ := h.completed dependency hDependency
      exact ⟨dependency, result, hKey, hReturned⟩
    · rw [concat_eq_append, ← cons_append, ← append_assoc] at hHistory
      exact h.ordered past task' front (append_inj' hHistory rfl).1

section

variable (hKeys : (batches.flatten.map key).Nodup)
include hKeys

theorem Stands.finish {task : α} {before after : List α} {result : ρ}
    (hRunning : s.running = before ++ task :: after) (hGives : gives task result) :
    Stands key gives deps batches earlier (finished ++ [task]) { s with
      running := before ++ after
      futures := s.futures.set (key task) result
      history := s.history ++ [.returned task result] } where
  position := h.position
  split := by
    have hSplit := h.split
    rw [hRunning] at hSplit
    refine List.Perm.trans ?_ hSplit
    simp only [append_assoc, cons_append, nil_append]
    exact (perm_middle.symm).append_left finished
  started := by
    have hStarted := h.started
    rw [hRunning] at hStarted
    rw [filterMap_append]
    simp only [filterMap_cons, Event.startedTask?, filterMap_nil, append_nil]
    refine hStarted.trans ?_
    simp only [append_assoc, cons_append, nil_append]
    exact ((perm_middle).append_left finished).append_left _
  returned := by
    rw [filterMap_append, ← append_assoc]
    exact h.returned.append_right _
  futures task' hTask := by
    rcases mem_append.mp hTask with hOld | hNew
    · obtain ⟨result', hResult, hMem⟩ := h.futures task' hOld
      have hTasks := (h.tasks.map key).nodup_iff.mp hKeys
      rw [hRunning] at hTasks
      simp only [map_append, map_cons] at hTasks
      have hFinished := hTasks.of_append_left.of_append_right.of_append_left
      have hNe : key task ≠ key task' := fun hSame =>
        (nodup_append.mp hFinished).2.2 (key task') (mem_map_of_mem hOld) (key task)
          (mem_append_right _ mem_cons_self) hSame.symm
      exact ⟨result', (get?_set_of_ne hNe _ _).trans hResult, mem_append_left _ hMem⟩
    · obtain rfl := mem_singleton.mp hNew
      exact ⟨result, get?_set_self _ _ _, mem_append_right _ mem_cons_self⟩
  completed task' hTask := by
    obtain ⟨result', hResult, hMem⟩ := h.completed task' hTask
    exact ⟨result', hResult, mem_append_left _ hMem⟩
  given task' result' hMem := by
    rcases mem_append.mp hMem with hOld | hNew
    · exact h.given task' result' hOld
    · cases mem_singleton.mp hNew
      exact hGives
  ordered past task' future hHistory := by
    rcases eq_nil_or_concat future with rfl | ⟨front, last, rfl⟩
    · cases (append_inj' hHistory rfl).2
    · rw [concat_eq_append, ← cons_append, ← append_assoc] at hHistory
      exact h.ordered past task' front (append_inj' hHistory rfl).1

theorem Stands.collected (hQueued : s.queued = []) (hRunning : s.running = []) :
    ∀ task ∈ earlier.flatten ++ s.batch, ∃ result,
      (s.collected key).get? (key task) = some result ∧ .returned task result ∈ s.history := by
  have hBatch : finished.Perm s.batch := by
    have hSplit := h.split
    rwa [hQueued, hRunning, append_nil, append_nil] at hSplit
  have hTasks := (h.tasks.map key).nodup_iff.mp hKeys
  rw [hQueued, hRunning, append_nil, append_nil, map_append, map_append] at hTasks
  have hApart := hTasks.of_append_left
  intro task hTask
  rcases mem_append.mp hTask with hEarlier | hNow
  · obtain ⟨result, hResult, hMem⟩ := h.completed task hEarlier
    refine ⟨result, ?_, hMem⟩
    unfold State.collected
    rw [get?_setAll_of_notMem ?_, hResult]
    rintro ⟨pair, hPair, hKey⟩
    obtain ⟨other, hOther, hGet⟩ := mem_filterMap.mp hPair
    obtain ⟨result', -, rfl⟩ := map_eq_some_iff.mp hGet
    exact (nodup_append.mp hApart).2.2 (key task) (mem_map_of_mem hEarlier) (key other)
      (mem_map_of_mem (hBatch.mem_iff.mpr hOther)) hKey.symm
  · obtain ⟨result, hResult, hMem⟩ := h.futures task (hBatch.mem_iff.mpr hNow)
    refine ⟨result, get?_setAll_of_forall ?_ ?_, hMem⟩
    · intro pair hPair hKey
      obtain ⟨other, hOther, hGet⟩ := mem_filterMap.mp hPair
      obtain ⟨result', hResult', rfl⟩ := map_eq_some_iff.mp hGet
      change key other = key task at hKey
      rw [hKey, hResult] at hResult'
      exact (some.inj hResult').symm
    · exact ⟨(key task, result), mem_filterMap.mpr ⟨task, hNow, by rw [hResult]; rfl⟩, rfl⟩

theorem Stands.next {batch : List α} {waiting : List (List α)}
    (hQueued : s.queued = []) (hRunning : s.running = []) (hWaiting : s.waiting = batch :: waiting) :
    Stands key gives deps batches (earlier ++ [s.batch]) [] { s with
      waiting
      batch
      queued := batch
      futures := []
      completed := s.collected key } := by
  have hBatch : finished.Perm s.batch := by
    have hSplit := h.split
    rwa [hQueued, hRunning, append_nil, append_nil] at hSplit
  have hFlatten : (earlier ++ [s.batch]).flatten = earlier.flatten ++ s.batch := by
    rw [flatten_append, flatten_singleton]
  constructor
  · rw [h.position, hWaiting, append_assoc]
    rfl
  · change ([] ++ s.running ++ batch).Perm batch
    rw [hRunning]
    exact .refl batch
  · rw [hFlatten, append_nil]
    exact h.started.trans ((hBatch.append_left _).append_right _)
  · rw [hFlatten, append_nil]
    exact h.returned.trans (hBatch.append_left _)
  · exact nofun
  · rw [hFlatten]
    exact h.collected hKeys hQueued hRunning
  · exact h.given
  · exact h.ordered

end

end

end Steps

section Runs

variable (hKeys : (batches.flatten.map key).Nodup) (hOrdered : Ordered key deps batches)
  {s : State α κ ρ} (hRun : Reaches (Step key workers gives) (State.begin batches) s)
include hKeys hOrdered hRun

theorem exists_stands : ∃ earlier finished, Stands key gives deps batches earlier finished s := by
  have hInvariant (s t : State α κ ρ)
      (h : ∃ earlier finished, Stands key gives deps batches earlier finished s)
      (hStep : Step key workers gives s t) :
      ∃ earlier finished, Stands key gives deps batches earlier finished t := by
    obtain ⟨earlier, finished, h⟩ := h
    cases hStep with
    | start task rest hQueued _ => exact ⟨earlier, finished, h.start hOrdered hQueued⟩
    | finish task before after result hRunning hGives =>
      exact ⟨earlier, finished ++ [task], h.finish hKeys hRunning hGives⟩
    | next batch waiting hQueued hRunning hWaiting =>
      exact ⟨earlier ++ [s.batch], [], h.next hKeys hQueued hRunning hWaiting⟩
  exact hRun.invariant hInvariant ⟨[], [], stands_begin⟩

theorem running_within_batch : (∃ batch ∈ batches, s.running.Subperm batch) ∨ s.running = [] := by
  obtain ⟨earlier, finished, h⟩ := exists_stands hKeys hOrdered hRun
  have hRunning : s.running.Subperm s.batch := by
    refine Subperm.trans ?_ h.split.subperm
    rw [append_assoc]
    exact (sublist_append_left _ _).subperm.trans (sublist_append_right _ _).subperm
  have hMem : s.batch ∈ [] :: batches := by
    rw [h.position]
    exact mem_append_right _ mem_cons_self
  rcases mem_cons.mp hMem with hEmpty | hBatch
  · rw [hEmpty] at hRunning
    exact .inr (subperm_nil.mp hRunning)
  · exact .inl ⟨s.batch, hBatch, hRunning⟩

theorem started_after {past future : List (Event α ρ)} {task : α}
    (hHistory : s.history = past ++ .started task :: future) {d : κ} (hd : d ∈ deps task) :
    ∃ dependency result, key dependency = d ∧ .returned dependency result ∈ past := by
  obtain ⟨earlier, finished, h⟩ := exists_stands hKeys hOrdered hRun
  exact h.ordered past task future hHistory d hd

theorem finished_run (hFinished : s.Finished) :
    (s.history.filterMap Event.startedTask?).Perm batches.flatten ∧
    (s.history.filterMap Event.returnedTask?).Perm batches.flatten ∧
    ∀ task ∈ batches.flatten, ∃ result, (s.collected key).get? (key task) = some result ∧
      .returned task result ∈ s.history ∧ gives task result := by
  obtain ⟨hWaiting, hQueued, hRunning⟩ := hFinished
  obtain ⟨earlier, finished, h⟩ := exists_stands hKeys hOrdered hRun
  have hSplit := h.split
  rw [hQueued, hRunning, append_nil, append_nil] at hSplit
  have hTasks : batches.flatten = earlier.flatten ++ s.batch := by
    have hFlatten := congrArg List.flatten h.position
    rw [hWaiting, flatten_append, flatten_singleton] at hFlatten
    exact hFlatten
  have hStarted := h.started
  rw [hRunning, append_nil] at hStarted
  rw [hTasks]
  refine ⟨hStarted.trans (hSplit.append_left _), h.returned.trans (hSplit.append_left _),
    fun task hTask => ?_⟩
  obtain ⟨result, hResult, hMem⟩ := h.collected hKeys hQueued hRunning task hTask
  exact ⟨result, hResult, hMem, h.given task result hMem⟩

theorem finished_of_atRest (hWorkers : ∀ batch, batch ≠ [] → 0 < workers batch)
    (hGives : ∀ task, ∃ result, gives task result) (hRest : AtRest (Step key workers gives) s) :
    s.Finished := by
  obtain ⟨earlier, finished, h⟩ := exists_stands hKeys hOrdered hRun
  have hRunning : s.running = [] := by
    cases hSome : s.running with
    | nil => rfl
    | cons task after =>
      obtain ⟨result, hResult⟩ := hGives task
      exact absurd (Step.finish s task [] after result hSome hResult) (hRest _)
  have hQueued : s.queued = [] := by
    cases hSome : s.queued with
    | nil => rfl
    | cons task rest =>
      have hBatch : s.batch ≠ [] := fun hNone => by
        have hMem : task ∈ s.batch := h.split.mem_iff.mp
          (mem_append_right _ (hSome ▸ mem_cons_self))
        rw [hNone] at hMem
        cases hMem
      refine absurd (Step.start s task rest hSome ?_) (hRest _)
      rw [hRunning]
      exact hWorkers s.batch hBatch
  refine ⟨?_, hQueued, hRunning⟩
  cases hSome : s.waiting with
  | nil => rfl
  | cons batch waiting => exact absurd (Step.next s batch waiting hQueued hRunning hSome) (hRest _)

end Runs

def State.measure (s : State α κ ρ) : ℕ :=
  (s.waiting.map fun batch => 2 * batch.length + 1).sum + 2 * s.queued.length + s.running.length

theorem step_measure {s t : State α κ ρ} (h : Step key workers gives s t) : t.measure < s.measure := by
  cases h with
  | start task rest hQueued _ =>
    simp only [State.measure, hQueued, length_append, length_cons, length_nil]
    omega
  | finish task before after result hRunning _ =>
    simp only [State.measure, hRunning, length_append, length_cons]
    omega
  | next batch waiting hQueued hRunning hWaiting =>
    simp only [State.measure, hQueued, hRunning, hWaiting, map_cons, sum_cons, length_nil]
    omega

end Batching
