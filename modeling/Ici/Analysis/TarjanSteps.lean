import Ici.Analysis.ImportCycles

/-! # What one step of the component search keeps

The nodes in work lie on the stack, and the numbers on the stack grow towards its top. Nodes that
left the stack are settled: no edge leads from them back to the stack. -/

namespace Ici.ImportCycles

open Dict List Relation StrongComponents

universe u

variable {α : Type u} [DecidableEq α] {graph : Graph α}

abbrev Reach (graph : Graph α) : α → α → Prop := ReflTransGen (Edge graph)

namespace Tarjan

def active (s : Tarjan α) : List α := s.work.map Prod.fst

def Waits (s : Tarjan α) (a b : α) : Prop := ∃ rest, (a, rest) ∈ s.work ∧ b ∈ rest

def Settled (s : Tarjan α) (a : α) : Prop := s.isIndexed a ∧ a ∉ s.stack

structure Numbered (s : Tarjan α) : Prop where
  below : ∀ a, s.isIndexed a → s.index a < s.indexCounter
  linked : ∀ a, s.isIndexed a → (Dict.get? s.lowlink a).isSome ∧ s.low a ≤ s.index a
  stacked : ∀ a ∈ s.stack, s.isIndexed a
  sorted : s.stack.Pairwise fun a b => s.index b < s.index a
  onStack : ∀ a, a ∈ s.onStack ↔ a ∈ s.stack
  active : s.active.Sublist s.stack

structure Explored (graph : Graph α) (hole : α → α → Prop) (s : Tarjan α) : Prop where
  waiting : ∀ frame ∈ s.work, frame.2 ⊆ neighbors graph frame.1
  followed : ∀ a b, s.isIndexed a → Edge graph a b → ¬hole a b → s.isIndexed b ∨ s.Waits a b
  settled : ∀ a b, s.Settled a → Edge graph a b → s.Settled b
  lowered : ∀ f ∈ s.active, ∀ a ∈ s.stack, s.index f ≤ s.index a → ∀ b ∈ s.stack, Edge graph a b →
    ¬hole a b → ¬s.Waits a b → ∃ g ∈ s.active, s.index f ≤ s.index g ∧ s.low g ≤ s.index b

structure Connected (graph : Graph α) (s : Tarjan α) : Prop where
  toActive : ∀ a ∈ s.stack, ∃ g ∈ s.active, s.index g ≤ s.index a ∧ Reach graph a g
  fromActive : ∀ g ∈ s.active, ∀ a ∈ s.stack, s.index g ≤ s.index a → Reach graph g a
  low : ∀ g ∈ s.active, ∃ b ∈ s.stack, s.index b = s.low g ∧ Reach graph g b

structure Reported (graph : Graph α) (s : Tarjan α) : Prop where
  cycle : ∀ members ∈ s.cycles, members.Nodup ∧ IsComponent (Edge graph) members ∧
    IsCyclic (Edge graph) members ∧ ∀ a ∈ members, s.Settled a
  apart : s.cycles.Pairwise List.Disjoint
  complete : ∀ members, IsComponent (Edge graph) members → IsCyclic (Edge graph) members →
    ∀ a ∈ members, s.Settled a → ∃ found ∈ s.cycles, a ∈ found

/-! ## Reading the records -/

section

variable (s : Tarjan α) (node a : α)

theorem isIndexed_enter : (enter graph s node).isIndexed a = (decide (node = a) || s.isIndexed a) := by
  by_cases h : node = a <;> simp [isIndexed, enter, get?_set, h]

theorem index_enter : (enter graph s node).index a = if node = a then s.indexCounter else s.index a := by
  by_cases h : node = a <;> simp [index, enter, get?_set, h]

theorem low_enter : (enter graph s node).low a = if node = a then s.indexCounter else s.low a := by
  by_cases h : node = a <;> simp [low, enter, get?_set, h]

theorem low_lower (found : ℕ) :
    (s.lower node found).low a = if node = a then min (s.low node) found else s.low a := by
  by_cases h : node = a <;> simp [low, lower, get?_set, h]

theorem low_lower_le (found : ℕ) : (s.lower node found).low a ≤ s.low a := by
  rw [low_lower]
  split
  · next h => exact h ▸ min_le_left _ _
  · exact le_rfl

end

theorem waits_enter {s : Tarjan α} {node a b : α} (h : s.Waits a b) : (enter graph s node).Waits a b := by
  obtain ⟨rest, hFrame, hb⟩ := h
  exact ⟨rest, mem_cons_of_mem _ hFrame, hb⟩

theorem waits_entered (s : Tarjan α) {node b : α} (h : Edge graph node b) :
    (enter graph s node).Waits node b :=
  ⟨neighbors graph node, mem_cons_self, h⟩

namespace Numbered

variable {s : Tarjan α}

section

variable (h : Numbered s)
include h

theorem active_mem {g : α} (hg : g ∈ s.active) : g ∈ s.stack :=
  h.active.subset hg

theorem stack_nodup : s.stack.Nodup :=
  h.sorted.imp fun hLess hSame => absurd (hSame ▸ hLess) (lt_irrefl _)

theorem top {node : α} {rest : List α} {work : List (α × List α)}
    (hWork : s.work = (node, rest) :: work) : ∀ g ∈ work.map Prod.fst, s.index g < s.index node := by
  have hActive : s.active = node :: work.map Prod.fst := by simp [Tarjan.active, hWork]
  have hSorted := h.sorted.sublist h.active
  rw [hActive] at hSorted
  exact (pairwise_cons.mp hSorted).1

theorem enter {node : α} (hFresh : ¬s.isIndexed node) : Numbered (enter graph s node) := by
  have hOther (a : α) (ha : s.isIndexed a) : node ≠ a := by
    rintro rfl
    exact hFresh ha
  refine ⟨fun a ha => ?_, fun a ha => ?_, fun a ha => ?_, ?_, fun a => ?_, ?_⟩
  · rw [index_enter]
    split
    · exact Nat.lt_succ_self _
    · next hne =>
      rw [isIndexed_enter, decide_eq_false hne, Bool.false_or] at ha
      exact Nat.lt_succ_of_lt (h.below a ha)
  · rw [index_enter, low_enter]
    split
    · next hSame => simp [Tarjan.enter, hSame]
    · next hne =>
      rw [isIndexed_enter, decide_eq_false hne, Bool.false_or] at ha
      simpa [Tarjan.enter, get?_set, hne] using h.linked a ha
  · rw [isIndexed_enter]
    rcases mem_cons.mp ha with rfl | hOld
    · simp
    · simp [h.stacked a hOld]
  · refine pairwise_cons.mpr ⟨fun b hb => ?_, h.sorted.imp_of_mem fun {a b} ha hb hLess => ?_⟩
    · rw [index_enter, index_enter, if_pos rfl, if_neg (hOther b (h.stacked b hb))]
      exact h.below b (h.stacked b hb)
    · rw [index_enter, index_enter, if_neg (hOther a (h.stacked a ha)), if_neg (hOther b (h.stacked b hb))]
      exact hLess
  · simp [Tarjan.enter, h.onStack]
  · exact h.active.cons_cons node

theorem lower (node : α) (found : ℕ) : Numbered (s.lower node found) where
  below := h.below
  linked a ha := by
    refine ⟨?_, (low_lower_le s node a found).trans (h.linked a ha).2⟩
    by_cases hSame : node = a
    · simp [Tarjan.lower, hSame]
    · simpa [Tarjan.lower, get?_set, hSame] using (h.linked a ha).1
  stacked := h.stacked
  sorted := h.sorted
  onStack := h.onStack
  active := h.active

theorem withWork {work : List (α × List α)}
    (hActive : (work.map Prod.fst).Sublist s.active) : Numbered { s with work } where
  below := h.below
  linked := h.linked
  stacked := h.stacked
  sorted := h.sorted
  onStack := h.onStack
  active := hActive.trans h.active

end

end Numbered

section Enter

variable {s : Tarjan α} {node : α} {hole : α → α → Prop}

section

variable {a : α} (hFresh : ¬s.isIndexed node) (ha : s.isIndexed a)
include hFresh ha

theorem ne_of_fresh : node ≠ a := by
  rintro rfl
  exact hFresh ha

theorem index_enter_of_indexed : (enter graph s node).index a = s.index a := by
  rw [index_enter, if_neg (ne_of_fresh hFresh ha)]

theorem low_enter_of_indexed : (enter graph s node).low a = s.low a := by
  rw [low_enter, if_neg (ne_of_fresh hFresh ha)]

end

theorem settled_enter_iff (hFresh : ¬s.isIndexed node) (a : α) :
    (enter graph s node).Settled a ↔ s.Settled a := by
  by_cases hSame : node = a
  · subst hSame
    simp [Settled, Tarjan.enter, hFresh]
  · rw [Settled, isIndexed_enter, decide_eq_false hSame, Bool.false_or, Settled]
    simp [Tarjan.enter, Ne.symm hSame]

theorem Explored.enter (h : Explored graph hole s) (hNumbered : Numbered s)
    (hFresh : ¬s.isIndexed node) (hHole : ∀ a b, hole a b → b = node) :
    Explored graph (fun _ _ => False) (enter graph s node) where
  waiting frame hFrame := by
    rcases mem_cons.mp hFrame with rfl | hOld
    · exact Subset.refl _
    · exact h.waiting frame hOld
  followed a b ha hEdge _ := by
    by_cases hSame : node = a
    · exact .inr (hSame ▸ waits_entered s (hSame ▸ hEdge))
    · rw [isIndexed_enter, decide_eq_false hSame, Bool.false_or] at ha
      by_cases hb : node = b
      · exact .inl (by simp [isIndexed_enter, hb])
      · rcases h.followed a b ha hEdge fun hIn => hb (hHole a b hIn).symm with hIndexed | hWaits
        · exact .inl (by simp [isIndexed_enter, hIndexed])
        · exact .inr (waits_enter hWaits)
  settled a b ha hEdge := by
    rw [settled_enter_iff hFresh] at ha ⊢
    exact h.settled a b ha hEdge
  lowered f hf a ha hLe b hb hEdge _ hWaits := by
    have hBelow (c : α) (hc : c ∈ s.stack) : s.index c < s.indexCounter :=
      hNumbered.below c (hNumbered.stacked c hc)
    rcases mem_cons.mp ha with rfl | haOld
    · exact absurd (waits_entered s hEdge) hWaits
    rw [index_enter_of_indexed hFresh (hNumbered.stacked a haOld)] at hLe
    rcases mem_cons.mp hf with rfl | hfOld
    · rw [index_enter, if_pos rfl] at hLe
      exact absurd (hBelow a haOld) (by omega)
    have hfStack : s.isIndexed f := hNumbered.stacked f (hNumbered.active_mem hfOld)
    rw [index_enter_of_indexed hFresh hfStack] at hLe ⊢
    rcases mem_cons.mp hb with rfl | hbOld
    · refine ⟨f, mem_cons_of_mem _ hfOld, ?_, ?_⟩
      · rw [index_enter_of_indexed hFresh hfStack]
      · rw [low_enter_of_indexed hFresh hfStack, index_enter, if_pos rfl]
        exact (hNumbered.linked f hfStack).2.trans (hNumbered.below f hfStack).le
    · have hne : node ≠ b := ne_of_fresh hFresh (hNumbered.stacked b hbOld)
      obtain ⟨g, hg, hfg, hgb⟩ := h.lowered f hfOld a haOld hLe b hbOld hEdge
        (fun hIn => hne (hHole a b hIn).symm) (fun hOld => hWaits (waits_enter hOld))
      have hgIndexed : s.isIndexed g := hNumbered.stacked g (hNumbered.active_mem hg)
      refine ⟨g, mem_cons_of_mem _ hg, ?_, ?_⟩
      · rwa [index_enter_of_indexed hFresh hgIndexed]
      · rwa [low_enter_of_indexed hFresh hgIndexed, index_enter_of_indexed hFresh (hNumbered.stacked b hbOld)]

theorem Connected.enter (h : Connected graph s) (hNumbered : Numbered s)
    (hFresh : ¬s.isIndexed node) (hReach : ∀ g ∈ s.active, Reach graph g node) :
    Connected graph (enter graph s node) where
  toActive a ha := by
    rcases mem_cons.mp ha with rfl | haOld
    · exact ⟨a, mem_cons_self, le_rfl, .refl⟩
    · obtain ⟨g, hg, hLe, hTo⟩ := h.toActive a haOld
      refine ⟨g, mem_cons_of_mem _ hg, ?_, hTo⟩
      rwa [index_enter_of_indexed hFresh (hNumbered.stacked g (hNumbered.active_mem hg)),
        index_enter_of_indexed hFresh (hNumbered.stacked a haOld)]
  fromActive g hg a ha hLe := by
    rcases mem_cons.mp ha with rfl | haOld
    · rcases mem_cons.mp hg with rfl | hgOld
      · exact .refl
      · exact hReach g hgOld
    · have haIndexed := hNumbered.stacked a haOld
      rw [index_enter_of_indexed hFresh haIndexed] at hLe
      rcases mem_cons.mp hg with rfl | hgOld
      · rw [index_enter, if_pos rfl] at hLe
        exact absurd (hNumbered.below a haIndexed) (by omega)
      · rw [index_enter_of_indexed hFresh (hNumbered.stacked g (hNumbered.active_mem hgOld))] at hLe
        exact h.fromActive g hgOld a haOld hLe
  low g hg := by
    rcases mem_cons.mp hg with rfl | hgOld
    · exact ⟨g, mem_cons_self, by rw [index_enter, low_enter, if_pos rfl, if_pos rfl], .refl⟩
    · obtain ⟨b, hb, hSame, hTo⟩ := h.low g hgOld
      refine ⟨b, mem_cons_of_mem _ hb, ?_, hTo⟩
      rwa [index_enter_of_indexed hFresh (hNumbered.stacked b hb),
        low_enter_of_indexed hFresh (hNumbered.stacked g (hNumbered.active_mem hgOld))]

theorem Reported.enter (h : Reported graph s) (hFresh : ¬s.isIndexed node) :
    Reported graph (enter graph s node) where
  cycle members hMem := by
    obtain ⟨hNodup, hComponent, hCyclic, hSettled⟩ := h.cycle members hMem
    exact ⟨hNodup, hComponent, hCyclic, fun a ha => (settled_enter_iff hFresh a).mpr (hSettled a ha)⟩
  apart := h.apart
  complete members hComponent hCyclic a ha hSettled :=
    h.complete members hComponent hCyclic a ha ((settled_enter_iff hFresh a).mp hSettled)

end Enter

end Tarjan

end Ici.ImportCycles
