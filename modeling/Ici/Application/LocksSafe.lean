import Ici.Application.Locks

/-! # No two units on one resource, and when none is left waiting

The machine of the lock objects is a run of the ordered locks of the keys with the look-ups left
out, so what holds there holds here. -/

namespace Ici

open Option List Python Transition Function ResourceLocks

namespace ResourceLocks

variable {ι : Type} [DecidableEq ι]

def sortedKeys (keys : ι → List Text) (i : ι) : List Text := (keys i).insertionSort (· ≤ ·)

structure Matches (s : ResourceLocks ι) (a : Locking.State ι Text) : Prop where
  isTable : IsTable s.table
  phases : ∀ i, HoldMatches s.table (s.phase i) (a.phase i)
  taken_iff : ∀ k id, Named s.table k id → (s.taken id = true ↔ k ∈ a.locked)
  named : ∀ k ∈ a.locked, ∃ id, Named s.table k id
  fresh : ∀ id, s.table.length ≤ id → s.taken id = false

omit [DecidableEq ι] in
theorem matches_start (keys : ι → List Text) : Matches (start keys) (Locking.start (sortedKeys keys)) where
  isTable := isTable_nil
  phases := fun _ => .fetching .nil rfl
  taken_iff := fun _ _ h => nomatch h
  named := fun _ h => nomatch h
  fresh := fun _ _ => rfl

section

variable {s t : ResourceLocks ι} {a : Locking.State ι Text}

theorem matches_phases {table : Dict Text LockId} {phase : ι → Hold}
    {phase' : ι → Locking.Phase Text} (h : ∀ i, HoldMatches table (phase i) (phase' i)) (i : ι)
    {hold : Hold} {hold' : Locking.Phase Text} (hNew : HoldMatches table hold hold') (j : ι) :
    HoldMatches table (update phase i hold j) (update phase' i hold' j) := by
  by_cases hj : j = i
  · subst hj
    rw [update_self, update_self]
    exact hNew
  · rw [update_of_ne hj, update_of_ne hj]
    exact h j

section

variable (hMatch : Matches s a) (i : ι) {hold : Hold} {phase : Locking.Phase Text}
  (hNew : HoldMatches s.table hold phase)
include hMatch hNew

theorem Matches.keeps : Matches (s.moves i hold) (a.moves i phase) where
  isTable := hMatch.isTable
  phases := matches_phases hMatch.phases i hNew
  taken_iff := hMatch.taken_iff
  named := hMatch.named
  fresh := hMatch.fresh

omit hMatch hNew in
theorem Matches.fetches (hMatch : Matches s a) {i : ι} {found : List LockId} {key : Text}
    {keys : List Text} (hPhase : s.phase i = .fetching found (key :: keys)) :
    Matches { s.moves i (.fetching (found ++ [(lockFor s.table key).1]) keys) with
      table := (lockFor s.table key).2 } a := by
  have hMono (k : Text) (id : LockId) (h : Named s.table k id) := h.lockFor key
  have hUnlocked (hNone : s.table.get? key = none) : key ∉ a.locked := by
    intro hIn
    obtain ⟨id, hId⟩ := hMatch.named key hIn
    cases hNone.symm.trans hId
  refine ⟨hMatch.isTable.lockFor key, fun j => ?_, fun k id hk => ?_, fun k hk => ?_,
    fun id hid => ?_⟩
  · by_cases hj : j = i
    · subst hj
      have hOwn := hMatch.phases j
      rw [hPhase] at hOwn
      simp only [moves, update_self]
      generalize a.phase j = phase at hOwn ⊢
      cases hOwn with
      | fetching hFound hPlan =>
        refine .fetching (rel_append (hFound.imp hMono)
          (.cons (lockFor_named s.table key) .nil)) ?_
        rw [← hPlan, append_assoc]
        rfl
    · simp only [moves, update_of_ne hj]
      exact (hMatch.phases j).mono hMono
  · rcases named_of_lockFor hk with hOld | ⟨hNone, rfl, rfl⟩
    · exact hMatch.taken_iff k id hOld
    · have hFree : s.taken s.table.length = false := hMatch.fresh _ le_rfl
      simp [moves, hFree, hUnlocked hNone]
  · obtain ⟨id, hId⟩ := hMatch.named k hk
    exact ⟨id, hId.lockFor key⟩
  · exact hMatch.fresh id ((length_le_lockFor s.table key).trans hid)

section

variable {k : Text} {lock : LockId} (hNamed : Named s.table k lock)
include hNamed

/-- The lock of one key is taken or released; the others stay as they are. -/
theorem Matches.marks {taken : Bool}
    {locked : Set Text} (hOwn : k ∈ locked ↔ taken = true) (hOther : ∀ k' ≠ k, k' ∈ locked ↔ k' ∈ a.locked) :
    Matches { s.moves i hold with taken := update s.taken lock taken } { a.moves i phase with locked := locked } := by
  refine ⟨hMatch.isTable, matches_phases hMatch.phases i hNew, fun k' id hk' => ?_,
    fun k' hk' => ?_, fun id hid => ?_⟩
  · show update s.taken lock taken id = true ↔ k' ∈ locked
    by_cases hId : id = lock
    · subst hId
      rw [hMatch.isTable.injective k' k id hk' hNamed, update_self, hOwn]
    · have hKey : k' ≠ k := by
        rintro rfl
        exact hId (some.inj (hk'.symm.trans hNamed))
      rw [update_of_ne hId, hMatch.taken_iff k' id hk', hOther k' hKey]
  · by_cases hKey : k' = k
    · exact ⟨lock, hKey ▸ hNamed⟩
    · exact hMatch.named k' ((hOther k' hKey).mp hk')
  · have hLater : id ≠ lock := ((hMatch.isTable.made k lock hNamed).trans_le hid).ne'
    show update s.taken lock taken id = false
    rw [update_of_ne hLater]
    exact hMatch.fresh id hid

theorem Matches.takes : Matches { s.moves i hold with taken := update s.taken lock true }
      { a.moves i phase with locked := insert k a.locked } :=
  hMatch.marks i hNew hNamed (by simp) fun k' hKey => by simp [hKey]

theorem Matches.releases : Matches { s.moves i hold with taken := update s.taken lock false }
      { a.moves i phase with locked := a.locked \ {k} } :=
  hMatch.marks i hNew hNamed (by simp) fun k' hKey => by simp [hKey]

end

end

theorem Matches.step (hMatch : Matches s a) (hStep : Step s t) :
    ∃ b, Reaches Locking.Step a b ∧ Matches t b := by
  cases hStep with
  | fetch hPhase => exact ⟨a, .refl, hMatch.fetches hPhase⟩
  | @enter i found hPhase =>
    refine ⟨a, .refl, hMatch.isTable, fun j => ?_, hMatch.taken_iff, hMatch.named, hMatch.fresh⟩
    by_cases hj : j = i
    · subst hj
      have hOwn := hMatch.phases j
      rw [hPhase] at hOwn
      simp only [moves, update_self]
      generalize a.phase j = phase at hOwn ⊢
      cases hOwn with
      | fetching hFound hPlan =>
        rw [← hPlan, append_nil]
        exact .acquiring .nil hFound
    · simp only [moves, update_of_ne hj]
      exact hMatch.phases j
  | @acquire i held rest lock hPhase hFree =>
    have hOwn := hMatch.phases i
    rw [hPhase] at hOwn
    generalize hPhase' : a.phase i = phase at hOwn
    cases hOwn with
    | acquiring hHeld hRest =>
      cases hRest with
      | @cons k _ rest' _ hNamed hRest =>
        have hKey : k ∉ a.locked := by
          rw [← hMatch.taken_iff k lock hNamed, hFree]
          exact Bool.false_ne_true
        exact ⟨_, .single (.take hPhase' hKey), hMatch.takes i
          (.acquiring (rel_append hHeld (.cons hNamed .nil)) hRest) hNamed⟩
  | @work i held hPhase =>
    have hOwn := hMatch.phases i
    rw [hPhase] at hOwn
    generalize hPhase' : a.phase i = phase at hOwn
    cases hOwn with
    | acquiring hHeld hRest =>
      cases hRest
      exact ⟨_, .single (.enter hPhase'), hMatch.keeps i (.working hHeld)⟩
  | @exit i held hPhase =>
    have hOwn := hMatch.phases i
    rw [hPhase] at hOwn
    generalize hPhase' : a.phase i = phase at hOwn
    cases hOwn with
    | working hHeld =>
      exact ⟨_, .single (.leave hPhase'), hMatch.keeps i (.releasing (rel_reverse hHeld))⟩
  | @release i left lock hPhase =>
    have hOwn := hMatch.phases i
    rw [hPhase] at hOwn
    generalize hPhase' : a.phase i = phase at hOwn
    cases hOwn with
    | releasing hLeft =>
      cases hLeft with
      | cons hNamed hLeft =>
        exact ⟨_, .single (.release hPhase'), hMatch.releases i (.releasing hLeft) hNamed⟩
  | @finish i hPhase =>
    have hOwn := hMatch.phases i
    rw [hPhase] at hOwn
    generalize hPhase' : a.phase i = phase at hOwn
    cases hOwn with
    | releasing hLeft =>
      cases hLeft
      exact ⟨_, .single (.finish hPhase'), hMatch.keeps i .finished⟩

theorem goes_on_of_fetching {i : ι} {found : List LockId} {keys : List Text}
    (hHold : s.phase i = .fetching found keys) : ∃ t, Step s t := by
  cases keys with
  | nil => exact ⟨_, .enter hHold⟩
  | cons key keys => exact ⟨_, .fetch hHold⟩

theorem Matches.goes_on (hMatch : Matches s a) {b : Locking.State ι Text}
    (hStep : Locking.Step a b) : ∃ t, Step s t := by
  cases hStep with
  | @take i held rest k hPhase hFree =>
    have hOwn := hMatch.phases i
    rw [hPhase] at hOwn
    generalize hHold : s.phase i = hold at hOwn
    cases hOwn with
    | fetching => exact goes_on_of_fetching hHold
    | acquiring hHeld hRest =>
      cases hRest with
      | @cons _ lock _ rest hNamed hRest =>
        refine ⟨_, .acquire hHold ?_⟩
        rw [← Bool.not_eq_true, hMatch.taken_iff k lock hNamed]
        exact hFree
  | @enter i held hPhase =>
    have hOwn := hMatch.phases i
    rw [hPhase] at hOwn
    generalize hHold : s.phase i = hold at hOwn
    cases hOwn with
    | fetching => exact goes_on_of_fetching hHold
    | acquiring hHeld hRest =>
      cases hRest
      exact ⟨_, .work hHold⟩
  | @leave i held hPhase =>
    have hOwn := hMatch.phases i
    rw [hPhase] at hOwn
    generalize hHold : s.phase i = hold at hOwn
    cases hOwn
    exact ⟨_, .exit hHold⟩
  | @release i left k hPhase =>
    have hOwn := hMatch.phases i
    rw [hPhase] at hOwn
    generalize hHold : s.phase i = hold at hOwn
    cases hOwn with
    | releasing hLeft =>
      cases hLeft
      exact ⟨_, .release hHold⟩
  | @finish i hPhase =>
    have hOwn := hMatch.phases i
    rw [hPhase] at hOwn
    generalize hHold : s.phase i = hold at hOwn
    cases hOwn with
    | releasing hLeft =>
      cases hLeft
      exact ⟨_, .finish hHold⟩

omit [DecidableEq ι] in
theorem Matches.finished_iff (hMatch : Matches s a) (i : ι) : s.phase i = .finished ↔ a.phase i = .gone := by
  have hOwn := hMatch.phases i
  generalize s.phase i = hold at hOwn ⊢
  generalize a.phase i = phase at hOwn ⊢
  cases hOwn <;> simp

end

section

variable {keys : ι → List Text} {s : ResourceLocks ι}

theorem exists_matches (hRun : Reaches Step (start keys) s) :
    ∃ a, Matches s a ∧ Locking.Sound (sortedKeys keys) a := by
  obtain ⟨a, hReached, hMatch⟩ := Reaches.simulated Matches
    (fun _ _ _ hMatch hStep => hMatch.step hStep) hRun (matches_start keys)
  exact ⟨a, hMatch, Locking.sound_of_reaches hReached⟩

theorem exclusive (hRun : Reaches Step (start keys) s) {i j : ι} {held held' : List LockId}
    (hi : s.phase i = .working held) (hj : s.phase j = .working held') {key : Text}
    (hKey : key ∈ keys i) (hKey' : key ∈ keys j) : i = j := by
  obtain ⟨a, hMatch, hSound⟩ := exists_matches hRun
  have hInside (j : ι) {held : List LockId} (h : s.phase j = .working held) :
      ∃ held', a.phase j = .inside held' := by
    have hOwn := hMatch.phases j
    rw [h] at hOwn
    generalize a.phase j = phase at hOwn
    cases hOwn
    exact ⟨_, rfl⟩
  obtain ⟨inside, hi'⟩ := hInside i hi
  obtain ⟨inside', hj'⟩ := hInside j hj
  exact hSound.exclusive hi' hj' ((mem_insertionSort _).mpr hKey) ((mem_insertionSort _).mpr hKey')

theorem progress [Finite ι] (hNodup : ∀ i, (keys i).Nodup) (hRun : Reaches Step (start keys) s)
    {i : ι} (hi : s.phase i ≠ .finished) : ∃ t, Step s t := by
  obtain ⟨a, hMatch, hSound⟩ := exists_matches hRun
  obtain ⟨b, hStep⟩ := hSound.progress (fun j => pairwise_insertionSort _ _)
    (fun j => ((keys j).perm_insertionSort (· ≤ ·)).nodup_iff.mpr (hNodup j))
    (fun h => hi ((hMatch.finished_iff i).mpr h))
  exact hMatch.goes_on hStep

theorem nodup_of_finished (hRun : Reaches Step (start keys) s) {i : ι}
    (hi : s.phase i = .finished) : (keys i).Nodup := by
  obtain ⟨a, hMatch, hSound⟩ := exists_matches hRun
  have hFollows := hSound.follows i
  rw [(hMatch.finished_iff i).mp hi] at hFollows
  exact ((keys i).perm_insertionSort (· ≤ ·)).nodup_iff.mp hFollows

end

/-! ## Every run comes to rest -/

def stepsLeft : Hold → ℕ
  | .fetching found keys => 2 * found.length + 3 * keys.length + 5
  | .acquiring held rest => held.length + 2 * rest.length + 4
  | .working held => held.length + 3
  | .releasing left => left.length + 1
  | .finished => 0

theorem sum_stepsLeft_lt [Fintype ι] {phase : ι → Hold} {i : ι} {hold : Hold}
    (h : stepsLeft hold < stepsLeft (phase i)) :
    ∑ j, stepsLeft (update phase i hold j) < ∑ j, stepsLeft (phase j) := by
  apply Finset.sum_lt_sum
  · intro j _
    by_cases hj : j = i
    · subst hj
      rw [update_self]
      exact h.le
    · rw [update_of_ne hj]
  · exact ⟨i, Finset.mem_univ i, by rw [update_self]; exact h⟩

theorem stepsLeft_step [Fintype ι] {s t : ResourceLocks ι} (hStep : Step s t) :
    ∑ j, stepsLeft (t.phase j) < ∑ j, stepsLeft (s.phase j) := by
  cases hStep with
  | fetch hPhase | enter hPhase | acquire hPhase | work hPhase | exit hPhase | release hPhase | finish hPhase =>
    refine sum_stepsLeft_lt ?_
    rw [hPhase]
    simp only [stepsLeft, length_append, length_cons, length_nil, length_reverse]
    omega

theorem exists_stuck [Fintype ι] (keys : ι → List Text) {i : ι} (hi : ¬(keys i).Nodup) :
    ∃ s, Reaches Step (start keys) s ∧ s.phase i ≠ .finished ∧ AtRest Step s := by
  obtain ⟨s, hRun, hRest⟩ := exists_atRest
    (fun s : ResourceLocks ι => ∑ j, stepsLeft (s.phase j)) (fun _ _ => stepsLeft_step) (start keys)
  exact ⟨s, hRun, fun h => hi (nodup_of_finished hRun h), hRest⟩

end ResourceLocks

def resourceKeys (tasks : List TaskSpec) (i : Fin tasks.length) : List Text :=
  (tasks.get i).val.resourceKeys

/-- However the units interleave, no two work on one resource; and some unit can always go on
exactly when no unit lists a key twice. -/
theorem resourceLocks_correct (tasks : List TaskSpec) :
    (∀ s, Reaches ResourceLocks.Step (start (resourceKeys tasks)) s →
      ∀ i j held held', s.phase i = .working held → s.phase j = .working held' → i ≠ j →
        ∀ key ∈ resourceKeys tasks i, key ∉ resourceKeys tasks j) ∧
    ((∀ s, Reaches ResourceLocks.Step (start (resourceKeys tasks)) s →
      (∃ i, s.phase i ≠ .finished) → ∃ t, ResourceLocks.Step s t) ↔
      ∀ task ∈ tasks, task.val.resourceKeys.Nodup) := by
  constructor
  · intro s hRun i j held held' hi hj hne key hKey hKey'
    exact hne (exclusive hRun hi hj hKey hKey')
  constructor
  · intro hProgress task hTask
    obtain ⟨i, rfl⟩ := mem_iff_get.mp hTask
    by_contra hRepeats
    obtain ⟨s, hRun, hLeft, hRest⟩ := exists_stuck (resourceKeys tasks) hRepeats
    obtain ⟨t, hStep⟩ := hProgress s hRun ⟨i, hLeft⟩
    exact hRest t hStep
  · rintro hNodup s hRun ⟨i, hi⟩
    exact progress (fun j => hNodup _ (get_mem tasks j)) hRun hi

def buildTask : TaskSpec :=
  ⟨{ id := py "build", kind := .analyze, provider := py "cmake", argv := [py "cmake"], cwd := py "."
     resourceKeys := [py "build", py "build"] }, by decide⟩

/-- One unit that lists its directory twice waits for itself. -/
theorem resourceLocks_stuck : ∃ s, Reaches ResourceLocks.Step (start (resourceKeys [buildTask])) s ∧
      (∃ i, s.phase i ≠ .finished) ∧ ¬∃ t, ResourceLocks.Step s t := by
  have hRepeats : ¬(resourceKeys [buildTask] 0).Nodup := by decide
  obtain ⟨s, hRun, hLeft, hRest⟩ :=
    exists_stuck (resourceKeys [buildTask]) hRepeats
  exact ⟨s, hRun, ⟨0, hLeft⟩, fun ⟨t, hStep⟩ => hRest t hStep⟩

end Ici
