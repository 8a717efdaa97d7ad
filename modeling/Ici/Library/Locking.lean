import Mathlib.Data.Set.Finite.Lattice
import Mathlib.Order.Preorder.Finite
import Ici.Library.Transition

/-! # Taking several locks in order

Processes that take the locks of a plan one after the other, go inside, and give them back. A
lock is not reentrant: taking one that is held waits, whoever holds it. Where every plan is in
one order and names no lock twice, some process can always go on. -/

namespace Locking

open List Function

universe u v

inductive Phase (κ : Type v) where
  | taking (held rest : List κ)
  | inside (held : List κ)
  | leaving (left : List κ)
  | gone

namespace Phase

variable {κ : Type v}

def held : Phase κ → List κ
  | taking held _ => held
  | inside held => held
  | leaving left => left
  | gone => []

@[simp] theorem held_taking (held rest : List κ) : (taking held rest).held = held := rfl
@[simp] theorem held_inside (held : List κ) : (inside held).held = held := rfl
@[simp] theorem held_leaving (left : List κ) : (leaving left).held = left := rfl
@[simp] theorem held_gone : (gone : Phase κ).held = [] := rfl

def Follows (plan : List κ) : Phase κ → Prop
  | taking held rest => held ++ rest = plan ∧ held.Nodup
  | inside held => held = plan ∧ held.Nodup
  | leaving left => plan.Nodup ∧ left.Nodup
  | gone => plan.Nodup

end Phase

structure State (ι : Type u) (κ : Type v) where
  locked : Set κ
  phase : ι → Phase κ

section

variable {ι : Type u} {κ : Type v} [DecidableEq ι]

def State.moves (s : State ι κ) (i : ι) (phase : Phase κ) : State ι κ :=
  { s with phase := update s.phase i phase }

inductive Step (s : State ι κ) : State ι κ → Prop where
  | take {i : ι} {held rest : List κ} {k : κ} (hPhase : s.phase i = .taking held (k :: rest))
      (hFree : k ∉ s.locked) :
      Step s { s.moves i (.taking (held ++ [k]) rest) with locked := insert k s.locked }
  | enter {i : ι} {held : List κ} (hPhase : s.phase i = .taking held []) :
      Step s (s.moves i (.inside held))
  | leave {i : ι} {held : List κ} (hPhase : s.phase i = .inside held) :
      Step s (s.moves i (.leaving held.reverse))
  | release {i : ι} {left : List κ} {k : κ} (hPhase : s.phase i = .leaving (k :: left)) :
      Step s { s.moves i (.leaving left) with locked := s.locked \ {k} }
  | finish {i : ι} (hPhase : s.phase i = .leaving []) : Step s (s.moves i .gone)

def start (plan : ι → List κ) : State ι κ where
  locked := ∅
  phase := fun i => .taking [] (plan i)

structure Sound (plan : ι → List κ) (s : State ι κ) : Prop where
  locked_iff : ∀ k, k ∈ s.locked ↔ ∃ i, k ∈ (s.phase i).held
  alone : ∀ i j k, k ∈ (s.phase i).held → k ∈ (s.phase j).held → i = j
  follows : ∀ i, (s.phase i).Follows (plan i)

variable {plan : ι → List κ} {s t : State ι κ}

omit [DecidableEq ι] in
theorem sound_start : Sound plan (start plan) := by
  refine ⟨fun k => ?_, fun i j k hi => ?_, fun i => ⟨rfl, nodup_nil⟩⟩
  · simp [start]
  · cases hi

section Moves

variable (hSound : Sound plan s) {i : ι} {phase : Phase κ}

include hSound

theorem Sound.keeps (hHeld : ∀ k, k ∈ phase.held ↔ k ∈ (s.phase i).held)
    (hFollows : phase.Follows (plan i)) : Sound plan (s.moves i phase) := by
  have hMem (j : ι) (k : κ) : k ∈ ((s.moves i phase).phase j).held ↔ k ∈ (s.phase j).held := by
    by_cases hj : j = i
    · subst hj
      simp only [State.moves, update_self]
      exact hHeld k
    · simp only [State.moves, update_of_ne hj]
  refine ⟨fun k => ?_, fun a b k ha hb => ?_, fun j => ?_⟩
  · rw [show (s.moves i phase).locked = s.locked from rfl, hSound.locked_iff]
    exact exists_congr fun j => (hMem j k).symm
  · exact hSound.alone a b k ((hMem a k).mp ha) ((hMem b k).mp hb)
  · by_cases hj : j = i
    · subst hj
      simpa only [State.moves, update_self] using hFollows
    · simpa only [State.moves, update_of_ne hj] using hSound.follows j

theorem Sound.takes {k : κ} (hFree : k ∉ s.locked)
    (hHeld : ∀ k', k' ∈ phase.held ↔ k' = k ∨ k' ∈ (s.phase i).held)
    (hFollows : phase.Follows (plan i)) :
    Sound plan { s.moves i phase with locked := insert k s.locked } := by
  have hNone (j : ι) : k ∉ (s.phase j).held := fun h => hFree ((hSound.locked_iff k).mpr ⟨j, h⟩)
  have hMem (j : ι) (k' : κ) : k' ∈ ((s.moves i phase).phase j).held ↔
      (j = i ∧ k' = k) ∨ k' ∈ (s.phase j).held := by
    by_cases hj : j = i
    · subst hj
      simp only [State.moves, update_self, hHeld, true_and]
    · simp only [State.moves, update_of_ne hj, hj, false_and, false_or]
  refine ⟨fun k' => ?_, fun a b k' ha hb => ?_, fun j => ?_⟩
  · rw [Set.mem_insert_iff, hSound.locked_iff]
    simp only [hMem]
    constructor
    · rintro (rfl | ⟨j, hj⟩)
      · exact ⟨i, .inl ⟨rfl, rfl⟩⟩
      · exact ⟨j, .inr hj⟩
    · rintro ⟨j, ⟨rfl, rfl⟩ | hj⟩
      · exact .inl rfl
      · exact .inr ⟨j, hj⟩
  · rcases (hMem a k').mp ha with ⟨rfl, rfl⟩ | ha'
    · rcases (hMem b k').mp hb with ⟨rfl, -⟩ | hb'
      · rfl
      · exact absurd hb' (hNone b)
    · rcases (hMem b k').mp hb with ⟨rfl, rfl⟩ | hb'
      · exact absurd ha' (hNone a)
      · exact hSound.alone a b k' ha' hb'
  · by_cases hj : j = i
    · subst hj
      simpa only [State.moves, update_self] using hFollows
    · simpa only [State.moves, update_of_ne hj] using hSound.follows j

theorem Sound.releases {k : κ} (hNot : k ∉ phase.held)
    (hHeld : ∀ k', k' ∈ (s.phase i).held ↔ k' = k ∨ k' ∈ phase.held)
    (hFollows : phase.Follows (plan i)) :
    Sound plan { s.moves i phase with locked := s.locked \ {k} } := by
  have hOwner (j : ι) (h : k ∈ (s.phase j).held) : j = i :=
    hSound.alone j i k h ((hHeld k).mpr (.inl rfl))
  have hMem (j : ι) (k' : κ) : k' ∈ ((s.moves i phase).phase j).held ↔ k' ∈ (s.phase j).held ∧ k' ≠ k := by
    by_cases hj : j = i
    · subst hj
      simp only [State.moves, update_self, hHeld]
      constructor
      · exact fun h => ⟨.inr h, fun he => hNot (he ▸ h)⟩
      · rintro ⟨h, hne⟩
        exact h.resolve_left hne
    · simp only [State.moves, update_of_ne hj]
      exact ⟨fun h => ⟨h, fun he => hj (hOwner j (he ▸ h))⟩, fun h => h.1⟩
  refine ⟨fun k' => ?_, fun a b k' ha hb => ?_, fun j => ?_⟩
  · rw [Set.mem_sdiff, Set.mem_singleton_iff, hSound.locked_iff]
    simp only [hMem]
    exact ⟨fun ⟨⟨j, hj⟩, hne⟩ => ⟨j, hj, hne⟩, fun ⟨j, hj, hne⟩ => ⟨⟨j, hj⟩, hne⟩⟩
  · exact hSound.alone a b k' ((hMem a k').mp ha).1 ((hMem b k').mp hb).1
  · by_cases hj : j = i
    · subst hj
      simpa only [State.moves, update_self] using hFollows
    · simpa only [State.moves, update_of_ne hj] using hSound.follows j

end Moves

theorem Sound.step (hSound : Sound plan s) (hStep : Step s t) : Sound plan t := by
  cases hStep with
  | @take i held rest k hPhase hFree =>
    have hFollows := hSound.follows i
    rw [hPhase] at hFollows
    have hNew : k ∉ held := by
      intro h
      exact hFree ((hSound.locked_iff k).mpr ⟨i, by rw [hPhase]; exact h⟩)
    refine hSound.takes hFree (fun k' => ?_) ⟨?_, ?_⟩
    · rw [hPhase]
      simp [or_comm]
    · rw [append_assoc]
      exact hFollows.1
    · exact nodup_append_comm.mp (nodup_cons.mpr ⟨hNew, hFollows.2⟩)
  | @enter i held hPhase =>
    have hFollows := hSound.follows i
    rw [hPhase] at hFollows
    refine hSound.keeps (fun k => ?_) ⟨?_, hFollows.2⟩
    · rw [hPhase]
      rfl
    · rw [← hFollows.1, append_nil]
  | @leave i held hPhase =>
    have hFollows := hSound.follows i
    rw [hPhase] at hFollows
    refine hSound.keeps (fun k => ?_) ⟨hFollows.1 ▸ hFollows.2, nodup_reverse.mpr hFollows.2⟩
    rw [hPhase]
    simp
  | @release i left k hPhase =>
    have hFollows := hSound.follows i
    rw [hPhase] at hFollows
    obtain ⟨hNot, hLeft⟩ := nodup_cons.mp hFollows.2
    refine hSound.releases hNot (fun k' => ?_) ⟨hFollows.1, hLeft⟩
    rw [hPhase]
    simp
  | @finish i hPhase =>
    have hFollows := hSound.follows i
    rw [hPhase] at hFollows
    refine hSound.keeps (fun k => ?_) hFollows.1
    rw [hPhase]
    simp

theorem sound_of_reaches (h : Transition.Reaches Step (start plan) s) : Sound plan s :=
  h.invariant (fun _ _ hSound hStep => hSound.step hStep) sound_start

omit [DecidableEq ι] in
theorem Sound.exclusive (hSound : Sound plan s) {i j : ι} {held held' : List κ}
    (hi : s.phase i = .inside held) (hj : s.phase j = .inside held') {k : κ} (hk : k ∈ plan i)
    (hk' : k ∈ plan j) : i = j := by
  have hFollows := hSound.follows i
  have hFollows' := hSound.follows j
  rw [hi] at hFollows
  rw [hj] at hFollows'
  refine hSound.alone i j k ?_ ?_
  · rw [hi]
    exact hFollows.1 ▸ hk
  · rw [hj]
    exact hFollows'.1 ▸ hk'

theorem waits_of_stuck (hStuck : Transition.AtRest Step s) {i : ι} (hi : s.phase i ≠ .gone) :
    ∃ held k rest, s.phase i = .taking held (k :: rest) ∧ k ∈ s.locked := by
  cases hPhase : s.phase i with
  | taking held rest =>
    cases rest with
    | nil => exact absurd (.enter hPhase) (hStuck _)
    | cons k rest =>
      refine ⟨held, k, rest, rfl, ?_⟩
      by_contra hFree
      exact hStuck _ (.take hPhase hFree)
  | inside held => exact absurd (.leave hPhase) (hStuck _)
  | leaving left =>
    cases left with
    | nil => exact absurd (.finish hPhase) (hStuck _)
    | cons k left => exact absurd (.release hPhase) (hStuck _)
  | gone => exact absurd hPhase hi

theorem Sound.progress [Finite ι] [LinearOrder κ] (hSound : Sound plan s)
    (hSorted : ∀ i, (plan i).Pairwise (· ≤ ·)) (hNodup : ∀ i, (plan i).Nodup)
    {i : ι} (hi : s.phase i ≠ .gone) : ∃ t, Step s t := by
  by_contra hNone
  have hStuck : Transition.AtRest Step s := fun t h => hNone ⟨t, h⟩
  let wanted : Set κ := {k | ∃ j held rest, s.phase j = .taking held (k :: rest)}
  have hFinite : wanted.Finite := by
    have hOne (j : ι) : {k | ∃ held rest, s.phase j = .taking held (k :: rest)}.Finite := by
      refine Set.Subsingleton.finite ?_
      rintro k ⟨held, rest, hk⟩ k' ⟨held', rest', hk'⟩
      cases hk.symm.trans hk'
      rfl
    refine (Set.finite_iUnion hOne).subset ?_
    rintro k ⟨j, held, rest, hk⟩
    exact Set.mem_iUnion.mpr ⟨j, held, rest, hk⟩
  obtain ⟨held, k, rest, hPhase, -⟩ := waits_of_stuck hStuck hi
  obtain ⟨top, ⟨j, held, rest, hj⟩, hTop⟩ :=
    hFinite.exists_maximal ⟨k, i, held, rest, hPhase⟩
  obtain ⟨held', k', rest', hj', hLocked⟩ :=
    waits_of_stuck hStuck (i := j) (by simp [hj])
  cases hj.symm.trans hj'
  obtain ⟨owner, hOwner⟩ := (hSound.locked_iff top).mp hLocked
  have hHolds : s.phase owner ≠ .gone := by
    intro h
    rw [h] at hOwner
    cases hOwner
  obtain ⟨held'', next, rest'', hOwns, -⟩ := waits_of_stuck hStuck hHolds
  have hFollows := (hSound.follows owner)
  rw [hOwns] at hOwner hFollows
  have hLe : top ≤ next := by
    have hPlan := hFollows.1 ▸ hSorted owner
    exact (pairwise_append.mp hPlan).2.2 top hOwner next mem_cons_self
  have hNe : top ≠ next := by
    have hPlan := hFollows.1 ▸ hNodup owner
    exact (nodup_append.mp hPlan).2.2 top hOwner next mem_cons_self
  exact hNe (le_antisymm hLe (hTop ⟨owner, held'', rest'', hOwns⟩ hLe))

end

end Locking
