import Mathlib.Algebra.Order.BigOperators.Group.Finset

/-! # Saturation by passes

A pass looks at every item still left and moves those that `hit` fires on, all judged against
what had been collected when the pass began. Passes repeat until one moves nothing. -/

namespace Saturation

open List

universe u v

variable {α : Type u} {β : Type v} (hit : List β → α → Option β)

/-- `none` is a loop that did not end in as many passes as it was given. -/
def saturate : ℕ → List β → List α → Option (List β × List α)
  | 0, _, _ => none
  | fuel + 1, got, left =>
    let moved := left.filterMap (hit got)
    if moved.isEmpty then some (got, left)
    else saturate fuel (got ++ moved) (left.filter fun a => (hit got a).isNone)

theorem filter_isNone_length_lt {hit : List β → α → Option β} {got : List β} {left : List α}
    (h : (left.filterMap (hit got)).isEmpty = false) :
    (left.filter fun a => (hit got a).isNone).length < left.length := by
  apply length_filter_lt_length_iff_exists.mpr
  obtain ⟨b, hb⟩ := exists_mem_of_ne_nil _ (isEmpty_eq_false_iff.mp h)
  obtain ⟨a, ha, hFire⟩ := mem_filterMap.mp hb
  exact ⟨a, ha, by simp [hFire]⟩

theorem exists_saturate (fuel : ℕ) (got : List β) (left : List α) (hFuel : left.length < fuel) :
    ∃ got' left', saturate hit fuel got left = some (got', left') := by
  induction fuel generalizing got left with
  | zero => omega
  | succ fuel ih =>
    rw [saturate]
    cases hEmpty : (left.filterMap (hit got)).isEmpty with
    | true => exact ⟨got, left, rfl⟩
    | false =>
      have hLess := filter_isNone_length_lt hEmpty
      obtain ⟨got', left', h⟩ := ih (got ++ left.filterMap (hit got))
        (left.filter fun a => (hit got a).isNone) (by omega)
      exact ⟨got', left', h⟩

variable {hit}

theorem saturate_invariant (holds : List β → List α → Prop)
    (hPass : ∀ got left, holds got left → holds (got ++ left.filterMap (hit got))
      (left.filter fun a => (hit got a).isNone))
    {fuel : ℕ} {got got' : List β} {left left' : List α}
    (h : saturate hit fuel got left = some (got', left')) (hSeed : holds got left) :
    holds got' left' ∧ ∀ a ∈ left', hit got' a = none := by
  induction fuel generalizing got left with
  | zero => cases h
  | succ fuel ih =>
    rw [saturate] at h
    cases hEmpty : (left.filterMap (hit got)).isEmpty with
    | true =>
      rw [hEmpty] at h
      cases h
      exact ⟨hSeed, filterMap_eq_nil_iff.mp (List.isEmpty_iff.mp hEmpty)⟩
    | false =>
      rw [hEmpty] at h
      exact ih h (hPass got left hSeed)

theorem saturate_stable {fuel : ℕ} {got got' : List β} {left left' : List α}
    (h : saturate hit fuel got left = some (got', left')) : ∀ a ∈ left', hit got' a = none :=
  (saturate_invariant (fun _ _ => True) (fun _ _ _ => trivial) h trivial).2

section

variable (source : β → α) (hSource : ∀ got a b, hit got a = some b → source b = a)
include hSource

theorem map_source_moved (got : List β) (left : List α) :
    (left.filterMap (hit got)).map source = left.filter fun a => (hit got a).isSome := by
  induction left with
  | nil => rfl
  | cons a rest ih =>
    cases hFire : hit got a with
    | none => simp [hFire, ih]
    | some b => simp [hFire, ih, hSource got a b hFire]

theorem saturate_perm {fuel : ℕ} {got got' : List β} {left left' : List α}
    (h : saturate hit fuel got left = some (got', left')) :
    (got'.map source ++ left').Perm (got.map source ++ left) := by
  refine (saturate_invariant
    (fun got₁ left₁ => (got₁.map source ++ left₁).Perm (got.map source ++ left)) ?_ h
    (List.Perm.refl _)).1
  intro got₁ left₁ hPerm
  refine List.Perm.trans ?_ hPerm
  rw [map_append, append_assoc, map_source_moved source hSource]
  exact Perm.append_left _
    (by simpa using filter_append_perm (fun a => (hit got₁ a).isSome) left₁)

end

theorem saturate_induction (holds : β → Prop) {got got' : List β} {left left' : List α}
    (hStep : ∀ got₁, (∀ b ∈ got₁, holds b) → ∀ a ∈ left, ∀ b, hit got₁ a = some b → holds b)
    {fuel : ℕ} (h : saturate hit fuel got left = some (got', left'))
    (hSeed : ∀ b ∈ got, holds b) : ∀ b ∈ got', holds b := by
  refine (saturate_invariant
    (fun got₁ left₁ => (∀ b ∈ got₁, holds b) ∧ ∀ a ∈ left₁, a ∈ left) ?_ h
    ⟨hSeed, fun _ ha => ha⟩).1.1
  rintro got₁ left₁ ⟨hHolds, hSub⟩
  refine ⟨?_, fun a ha => hSub a (mem_of_mem_filter ha)⟩
  intro b hb
  rcases mem_append.mp hb with hOld | hNew
  · exact hHolds b hOld
  · obtain ⟨a, ha, hFire⟩ := mem_filterMap.mp hNew
    exact hStep got₁ hHolds a (hSub a ha) b hFire

end Saturation

/-! ## Closing a set under a successor function

A stack of nodes to look at: the top one is marked, and those of its successors that are not marked
yet are pushed, in any order. What is marked in the end is what the start reaches. -/

namespace Worklist

open List

universe u

variable {κ : Type u} [DecidableEq κ]

/-- An order to go through a collection in, which may depend on how it was built. -/
abbrev Order (κ : Type u) := { order : List κ → List κ // ∀ l, (order l).Perm l }

variable (next : κ → List κ) (order : Order κ)

/-- The top of the stack stands first; `none` is a loop that outlasted its rounds. -/
def walk : ℕ → List κ → List κ → Option (List κ)
  | _, visited, [] => some visited
  | 0, _, _ :: _ => none
  | fuel + 1, visited, name :: stack =>
    if name ∈ visited then walk fuel visited stack
    else
      let marked := name :: visited
      walk fuel marked (order.val ((next name).filter (· ∉ marked)) ++ stack)

def Next (a b : κ) : Prop := b ∈ next a

structure Frontier (start : κ) (visited stack : List κ) : Prop where
  reached : ∀ a ∈ visited ++ stack, Relation.ReflTransGen (Next next) start a
  begun : start ∈ visited ++ stack
  closed : ∀ a ∈ visited, ∀ b ∈ next a, b ∈ visited ++ stack
  nodup : visited.Nodup

variable {next order}

omit [DecidableEq κ] in
theorem frontier_begin (start : κ) : Frontier next start [] [start] where
  reached a ha := by
    obtain rfl := mem_singleton.mp ha
    exact .refl
  begun := mem_singleton.mpr rfl
  closed := nofun
  nodup := nodup_nil

variable {start name : κ} {visited stack : List κ}

omit [DecidableEq κ] in
theorem Frontier.skip (h : Frontier next start visited (name :: stack)) (hSeen : name ∈ visited) :
    Frontier next start visited stack := by
  have hDrop (a : κ) (ha : a ∈ visited ++ name :: stack) : a ∈ visited ++ stack := by
    rcases mem_append.mp ha with hVisited | hStack
    · exact mem_append_left _ hVisited
    · rcases mem_cons.mp hStack with rfl | hRest
      · exact mem_append_left _ hSeen
      · exact mem_append_right _ hRest
  refine ⟨fun a ha => h.reached a ?_, hDrop _ h.begun, fun a ha b hb => hDrop b (h.closed a ha b hb),
    h.nodup⟩
  rcases mem_append.mp ha with hVisited | hStack
  · exact mem_append_left _ hVisited
  · exact mem_append_right _ (mem_cons_of_mem _ hStack)

theorem Frontier.mark (h : Frontier next start visited (name :: stack)) (hNew : name ∉ visited) :
    Frontier next start (name :: visited)
      (order.val ((next name).filter (· ∉ name :: visited)) ++ stack) := by
  have hPushed (b : κ) : b ∈ order.val ((next name).filter (· ∉ name :: visited)) ↔
      b ∈ next name ∧ b ∉ name :: visited := by
    rw [(order.property _).mem_iff, mem_filter, decide_eq_true_iff]
  have hName := h.reached name (mem_append_right _ mem_cons_self)
  have hKeep (a : κ) (ha : a ∈ visited ++ name :: stack) :
      a ∈ name :: visited ++ (order.val ((next name).filter (· ∉ name :: visited)) ++ stack) := by
    rcases mem_append.mp ha with hVisited | hStack
    · exact mem_append_left _ (mem_cons_of_mem _ hVisited)
    · rcases mem_cons.mp hStack with rfl | hRest
      · exact mem_append_left _ mem_cons_self
      · exact mem_append_right _ (mem_append_right _ hRest)
  refine ⟨fun a ha => ?_, hKeep _ h.begun, fun a ha b hb => ?_, nodup_cons.mpr ⟨hNew, h.nodup⟩⟩
  · rcases mem_append.mp ha with hMarked | hWaiting
    · rcases mem_cons.mp hMarked with rfl | hVisited
      · exact hName
      · exact h.reached a (mem_append_left _ hVisited)
    · rcases mem_append.mp hWaiting with hPush | hRest
      · exact hName.tail ((hPushed a).mp hPush).1
      · exact h.reached a (mem_append_right _ (mem_cons_of_mem _ hRest))
  · rcases mem_cons.mp ha with rfl | hVisited
    · by_cases hMarked : b ∈ a :: visited
      · exact mem_append_left _ hMarked
      · exact mem_append_right _ (mem_append_left _ ((hPushed b).mpr ⟨hb, hMarked⟩))
    · exact hKeep b (h.closed a hVisited b hb)

omit [DecidableEq κ] in
theorem Frontier.done (h : Frontier next start visited []) (a : κ) :
    a ∈ visited ↔ Relation.ReflTransGen (Next next) start a := by
  have hClosed := h.closed
  have hBegun := h.begun
  rw [append_nil] at hClosed hBegun
  constructor
  · exact fun ha => h.reached a (mem_append_left _ ha)
  · intro hReach
    induction hReach with
    | refl => exact hBegun
    | tail _ hStep ih => exact hClosed _ ih _ hStep

theorem walk_eq_some (fuel : ℕ) {start : κ} {visited stack found : List κ}
    (h : Frontier next start visited stack) (hWalk : walk next order fuel visited stack = some found) :
    found.Nodup ∧ ∀ a, a ∈ found ↔ Relation.ReflTransGen (Next next) start a := by
  induction fuel generalizing visited stack with
  | zero =>
    cases stack with
    | nil =>
      cases hWalk
      exact ⟨h.nodup, h.done⟩
    | cons name stack => cases hWalk
  | succ fuel ih =>
    cases stack with
    | nil =>
      cases hWalk
      exact ⟨h.nodup, h.done⟩
    | cons name stack =>
      rw [walk] at hWalk
      split at hWalk
      · exact ih (h.skip ‹_›) hWalk
      · exact ih (h.mark ‹_›) hWalk

section Rounds

variable (next) (nodes : Finset κ)

def pending (visited : List κ) : ℕ := (nodes.filter (· ∉ visited)).sum fun a => (next a).length

variable {next nodes} (hNodes : ∀ a ∉ nodes, next a = [])
include hNodes

theorem pending_mark {name : κ} {visited : List κ} (hNew : name ∉ visited) :
    pending next nodes (name :: visited) + (next name).length ≤ pending next nodes visited := by
  have hErase : nodes.filter (· ∉ name :: visited) = (nodes.filter (· ∉ visited)).erase name := by
    ext a
    simp only [Finset.mem_filter, Finset.mem_erase, mem_cons, not_or]
    tauto
  unfold pending
  rw [hErase]
  by_cases hListed : name ∈ nodes
  · rw [Finset.sum_erase_add _ _ (Finset.mem_filter.mpr ⟨hListed, hNew⟩)]
  · rw [hNodes name hListed, length_nil, Nat.add_zero]
    exact Finset.sum_le_sum_of_subset (Finset.erase_subset _ _)

theorem exists_walk (fuel : ℕ) (visited stack : List κ)
    (hFuel : stack.length + pending next nodes visited ≤ fuel) :
    ∃ found, walk next order fuel visited stack = some found := by
  induction fuel generalizing visited stack with
  | zero =>
    cases stack with
    | nil => exact ⟨visited, rfl⟩
    | cons name stack =>
      rw [length_cons] at hFuel
      omega
  | succ fuel ih =>
    cases stack with
    | nil => exact ⟨visited, rfl⟩
    | cons name stack =>
      rw [length_cons] at hFuel
      rw [walk]
      split
      · apply ih
        omega
      · rename_i hNew
        have hPushed := (order.property ((next name).filter (· ∉ name :: visited))).length_eq
        have hFewer := length_filter_le (· ∉ name :: visited) (next name)
        have hPending := pending_mark hNodes hNew
        apply ih
        rw [length_append]
        omega

end Rounds

end Worklist
