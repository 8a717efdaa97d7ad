import Mathlib.Algebra.GroupWithZero.Nat
import Ici.Analysis.TarjanLeaves

/-! # The component search is exact

Every step keeps the invariant and lowers the work that is left; when nothing is left all keys are
settled. -/

namespace Ici.ImportCycles

open Dict List Relation StrongComponents Dict

universe u

variable {α : Type u} [DecidableEq α] {graph : Graph α}

namespace Tarjan

structure Invariant (graph : Graph α) (s : Tarjan α) : Prop where
  numbered : Numbered s
  explored : Explored graph (fun _ _ => False) s
  connected : Connected graph s
  reported : Reported graph s
  roots : ∀ a ∈ keys graph, s.isIndexed a ∨ a ∈ s.roots

theorem not_isIndexed_start (a : α) : ¬(start graph).isIndexed a := by simp [isIndexed, start]

theorem invariant_start (graph : Graph α) : Invariant graph (start graph) where
  numbered :=
    { below := fun a ha => absurd ha (not_isIndexed_start a)
      linked := fun a ha => absurd ha (not_isIndexed_start a)
      stacked := by simp [start]
      sorted := List.Pairwise.nil
      onStack := by simp [start]
      active := Sublist.refl _ }
  explored :=
    { waiting := by simp [start]
      followed := fun a _ ha => absurd ha (not_isIndexed_start a)
      settled := fun a _ ha => absurd ha.1 (not_isIndexed_start a)
      lowered := by simp [start] }
  connected :=
    { toActive := by simp [start]
      fromActive := by simp [start]
      low := by simp [start, active] }
  reported :=
    { cycle := by simp [start]
      apart := List.Pairwise.nil
      complete := fun _ _ _ a _ hSettled => absurd hSettled.1 (not_isIndexed_start a) }
  roots _ ha := .inr ha

namespace Invariant

variable {s : Tarjan α} {node dep : α} {rest : List α} {work : List (α × List α)}

theorem stack_nil (h : Invariant graph s) (hWork : s.work = []) : s.stack = [] := by
  by_contra hne
  obtain ⟨a, ha⟩ := exists_mem_of_ne_nil _ hne
  obtain ⟨g, hg, -⟩ := h.connected.toActive a ha
  simp [active, hWork] at hg

theorem roots_enter (h : ∀ a ∈ keys graph, s.isIndexed a ∨ a = node ∨ a ∈ s.roots) :
    ∀ a ∈ keys graph, (enter graph s node).isIndexed a ∨ a ∈ (enter graph s node).roots := by
  intro a ha
  rw [isIndexed_enter]
  rcases h a ha with hIndexed | rfl | hRoot
  · simp [hIndexed]
  · simp
  · exact .inr hRoot

theorem tryRoot (h : Invariant graph s) (hWork : s.work = []) {root : α} {roots : List α}
    (hRoots : s.roots = root :: roots) (hFresh : ¬s.isIndexed root) :
    Invariant graph (enter graph { s with roots } root) := by
  have hActive : s.active = [] := by simp [active, hWork]
  have hNumbered : Numbered { s with roots } := ⟨h.numbered.below, h.numbered.linked, h.numbered.stacked,
    h.numbered.sorted, h.numbered.onStack, h.numbered.active⟩
  have hExplored : Explored graph (fun _ _ => False) { s with roots } :=
    ⟨h.explored.waiting, h.explored.followed, h.explored.settled, h.explored.lowered⟩
  have hConnected : Connected graph { s with roots } :=
    ⟨h.connected.toActive, h.connected.fromActive, h.connected.low⟩
  have hReported : Reported graph { s with roots } :=
    ⟨h.reported.cycle, h.reported.apart, h.reported.complete⟩
  refine ⟨hNumbered.enter hFresh, hExplored.enter hNumbered hFresh (fun _ _ hIn => hIn.elim),
    hConnected.enter hNumbered hFresh fun g hg => ?_, hReported.enter hFresh, roots_enter fun a ha => ?_⟩
  · have hIn : g ∈ s.active := hg
    rw [hActive] at hIn
    cases hIn
  · rcases h.roots a ha with hIndexed | hRoot
    · exact .inl hIndexed
    · rw [hRoots] at hRoot
      exact .inr (mem_cons.mp hRoot)

theorem skipRoot (h : Invariant graph s) {root : α} {roots : List α} (hRoots : s.roots = root :: roots)
    (hIndexed : s.isIndexed root) : Invariant graph { s with roots } where
  numbered := ⟨h.numbered.below, h.numbered.linked, h.numbered.stacked, h.numbered.sorted,
    h.numbered.onStack, h.numbered.active⟩
  explored := ⟨h.explored.waiting, h.explored.followed, h.explored.settled, h.explored.lowered⟩
  connected := ⟨h.connected.toActive, h.connected.fromActive, h.connected.low⟩
  reported := ⟨h.reported.cycle, h.reported.apart, h.reported.complete⟩
  roots a ha := by
    rcases h.roots a ha with hBefore | hRoot
    · exact .inl hBefore
    · rw [hRoots] at hRoot
      rcases mem_cons.mp hRoot with rfl | hLater
      · exact .inl hIndexed
      · exact .inr hLater

/-! ## The next neighbour -/

omit [DecidableEq α] in
theorem node_active (hWork : s.work = (node, rest) :: work) : node ∈ s.active := by
  simp [active, hWork]

section Neighbor

variable (h : Invariant graph s) (hWork : s.work = (node, dep :: rest) :: work)

include h hWork

theorem edge : Edge graph node dep :=
  h.explored.waiting (node, dep :: rest) (hWork ▸ mem_cons_self) mem_cons_self

theorem active_le {g : α} (hg : g ∈ s.active) : s.index g ≤ s.index node := by
  rw [active, hWork, map_cons] at hg
  rcases mem_cons.mp hg with rfl | hBelow
  · exact le_rfl
  · exact (h.numbered.top hWork g hBelow).le

theorem numbered_take : Numbered { s with work := (node, rest) :: work } := by
  apply h.numbered.withWork
  simp [active, hWork]

theorem connected_take : Connected graph { s with work := (node, rest) :: work } := by
  have hActive := active_withWork hWork
  refine ⟨?_, ?_, ?_⟩
  · rw [hActive]
    exact h.connected.toActive
  · rw [hActive]
    exact h.connected.fromActive
  · rw [hActive]
    exact h.connected.low

omit hWork in
theorem reported_take : Reported graph { s with work := (node, rest) :: work } :=
  ⟨h.reported.cycle, h.reported.apart, h.reported.complete⟩

theorem descend (hFresh : ¬s.isIndexed dep) :
    Invariant graph (enter graph { s with work := (node, rest) :: work } dep) := by
  have hNumbered := h.numbered_take hWork
  refine ⟨hNumbered.enter hFresh, (h.explored.take hWork).enter hNumbered hFresh (fun _ _ hIn => hIn.2),
    (h.connected_take hWork).enter hNumbered hFresh fun g hg => ?_, h.reported_take.enter hFresh,
    roots_enter fun a ha => (h.roots a ha).imp_right .inr⟩
  rw [active_withWork hWork] at hg
  have hNode := h.numbered.active_mem (node_active hWork)
  exact (h.connected.fromActive g hg node hNode (h.active_le hWork hg)).tail (h.edge hWork)

theorem skip (hIndexed : s.isIndexed dep) (hGone : dep ∉ s.onStack) :
    Invariant graph { s with work := (node, rest) :: work } where
  numbered := h.numbered_take hWork
  explored := (h.explored.take hWork).skip hIndexed fun hIn => hGone ((h.numbered.onStack dep).mpr hIn)
  connected := h.connected_take hWork
  reported := h.reported_take
  roots := h.roots

theorem note (hIndexed : s.isIndexed dep) (hOn : dep ∈ s.onStack) :
    Invariant graph (lower { s with work := (node, rest) :: work } node (s.index dep)) where
  numbered := (h.numbered_take hWork).lower node _
  explored := by
    apply (h.explored.take hWork).note hIndexed
    · rw [active_withWork hWork]
      exact node_active hWork
    · rw [active_withWork hWork]
      exact fun g hg => h.active_le hWork hg
  connected := (h.connected_take hWork).lower ((h.numbered.onStack dep).mp hOn) rfl
    (.single (h.edge hWork))
  reported := ⟨h.reported.cycle, h.reported.apart, h.reported.complete⟩
  roots := h.roots

end Neighbor

/-! ## The last neighbour was looked at -/

section Leave

theorem pass_cons (s : Tarjan α) (parent : α) (others : List α) (below : List (α × List α)) :
    pass { s with work := (parent, others) :: below } node =
      lower { s with work := (parent, others) :: below } parent (s.low node) := rfl

variable (h : Invariant graph s) (hWork : s.work = (node, []) :: work)

include h hWork

theorem node_not_below : node ∉ work.map Prod.fst := fun hIn =>
  absurd (h.numbered.top hWork node hIn) (lt_irrefl _)

theorem low_pass_node : (pass { s with work } node).low node = s.low node := by
  cases work with
  | nil => rfl
  | cons frame below =>
    rw [pass_cons, low_lower, if_neg]
    · rfl
    · rintro rfl
      exact h.node_not_below hWork (by simp)

omit h in
theorem index_pass (a : α) : (pass { s with work } node).index a = s.index a := by
  cases work <;> rfl

theorem passOn (hLess : s.low node < s.index node) : Invariant graph (pass { s with work } node) := by
  obtain ⟨g, hg, -⟩ := h.connected.exists_below hWork hLess
  cases work with
  | nil => cases hg
  | cons frame below =>
    rw [pass_cons]
    refine ⟨Numbered.lower (h.numbered.withWork ?_) _ _, h.explored.pass hWork h.numbered rfl,
      h.connected.pass hWork h.numbered hLess (by simp),
      ⟨h.reported.cycle, h.reported.apart, h.reported.complete⟩, h.roots⟩
    simp [active, hWork]

theorem closing (hRoot : s.low node = s.index node) :
    Closing graph s node work (popThrough node s.stack).1 (popThrough node s.stack).2 := by
  have hNode : node ∈ s.stack := h.numbered.active_mem (by simp [active, hWork])
  obtain ⟨hSplit, hLast⟩ := popThrough_spec hNode
  exact ⟨h.numbered, h.explored, h.connected, hRoot, hWork, hSplit, hLast⟩

theorem closed (hRoot : s.low node = s.index node) :
    Closed graph s (close graph (pass { s with work } node) node) work
      (popThrough node s.stack).1 (popThrough node s.stack).2 := by
  have hClosing := h.closing hWork hRoot
  have hCyclic := isCyclic_iff (E := Edge graph) hClosing.component_nodup hClosing.node_mem
  have hStack : (pass { s with work } node).stack = s.stack := by cases work <;> rfl
  have hCycles : (pass { s with work } node).cycles = s.cycles := by cases work <;> rfl
  refine ⟨?_, ?_, by rw [close, hStack], ?_, ?_, fun a hSome => ?_, fun g hg => ?_, ?_⟩
  · cases work <;> rfl
  · cases work <;> rfl
  · rw [close, hStack]
    cases work <;> rfl
  · cases work <;> rfl
  · show (get? (pass { s with work } node).lowlink a).isSome ∧ (pass { s with work }
      node).low a ≤ s.low a
    cases work with
    | nil => exact ⟨hSome, le_rfl⟩
    | cons frame below =>
      rw [pass_cons]
      refine ⟨?_, low_lower_le _ _ a _⟩
      by_cases hSame : frame.1 = a
      · simp [lower, hSame]
      · simpa [lower, get?_set, hSame] using hSome
  · show (pass { s with work } node).low g = s.low g
    cases work with
    | nil => cases hg
    | cons frame below =>
      rw [pass_cons, low_lower]
      split
      · next hSame =>
        -- The number of the node below is smaller than that of the root.
        have hLess : s.index frame.1 < s.index node := h.numbered.top hWork frame.1 (by simp)
        have hFrame : s.isIndexed frame.1 :=
          h.numbered.stacked _ (h.numbered.active_mem (by simp [active, hWork]))
        have hLow := (h.numbered.linked frame.1 hFrame).2
        rw [hRoot, ← hSame]
        exact min_eq_left (hLow.trans hLess.le)
      · rfl
  · rw [hCyclic, close, hStack, hCycles]
    by_cases hMore : 1 < (popThrough node s.stack).1.length ∨ Edge graph node node
    · exact .inl ⟨hMore, if_pos hMore⟩
    · exact .inr ⟨hMore, if_neg hMore⟩

theorem finish : Invariant graph (leave graph { s with work } node) := by
  rw [leave, h.low_pass_node hWork, index_pass hWork]
  split
  · next hRoot =>
    have hClosing := h.closing hWork hRoot
    have hClosed := h.closed hWork hRoot
    refine ⟨hClosed.numbered hClosing, hClosed.explored hClosing, hClosed.connected hClosing,
      hClosed.reported hClosing h.reported, fun a ha => ?_⟩
    rw [hClosed.isIndexed]
    have hRoots : (close graph (pass { s with work } node) node).roots = s.roots := by
      cases work <;> rfl
    rw [hRoots]
    exact h.roots a ha
  · next hOther =>
    have hIndexed : s.isIndexed node := h.numbered.stacked node (h.numbered.active_mem (by simp [active,
      hWork]))
    exact h.passOn hWork (lt_of_le_of_ne (h.numbered.linked node hIndexed).2 hOther)

end Leave

theorem step (h : Invariant graph s) : Invariant graph (step graph s) := by
  rw [Tarjan.step]
  split
  · exact h
  · next root roots hWork hRoots =>
    split
    · next hIndexed => exact h.skipRoot hRoots hIndexed
    · next hFresh => exact h.tryRoot hWork hRoots hFresh
  · next _ node dep rest work hWork =>
    show Invariant graph (if !s.isIndexed dep then _ else if dep ∈ s.onStack then _ else _)
    split
    · next hFresh => exact h.descend hWork (by simpa using hFresh)
    · next hSeen =>
      have hIndexed : s.isIndexed dep := by simpa using hSeen
      split
      · next hOn => exact h.note hWork hIndexed hOn
      · next hGone => exact h.skip hWork hIndexed hGone
  · next _ node work hWork => exact h.finish hWork

end Invariant

/-! ## The work that is left -/

def weight (frame : List α) : ℕ := 2 * frame.length + 1

def unseen (graph : Graph α) (s : Tarjan α) (keys : List α) : ℕ :=
  (keys.map fun key => if s.isIndexed key then 0 else weight (neighbors graph key) + 1).sum

def potential (graph : Graph α) (s : Tarjan α) : ℕ :=
  (s.work.map fun frame => weight frame.2).sum + unseen graph s (keys graph) + 2 * s.roots.length

variable {s : Tarjan α} {node : α}

variable (graph) in
theorem unseen_enter_le (hFresh : ¬s.isIndexed node) (keys : List α) :
    unseen graph (enter graph s node) keys ≤ unseen graph s keys ∧ (node ∈ keys →
        unseen graph (enter graph s node) keys + (weight (neighbors graph node) + 1) ≤
          unseen graph s keys) := by
  induction keys with
  | nil => simp [unseen]
  | cons key keys ih =>
    obtain ⟨hLe, hMem⟩ := ih
    simp only [unseen, map_cons, sum_cons, isIndexed_enter] at hLe hMem ⊢
    by_cases hSame : node = key
    · subst hSame
      rw [Bool.not_eq_true] at hFresh
      simp only [decide_true, Bool.true_or, if_true, hFresh, Bool.false_eq_true, if_false]
      omega
    · simp only [hSame, decide_false, Bool.false_or, mem_cons, false_or]
      split
      all_goals exact ⟨by omega, fun hIn => by have := hMem hIn; omega⟩

variable (graph) in
theorem potential_enter (hFresh : ¬s.isIndexed node) :
    potential graph (enter graph s node) < potential graph s + 2 := by
  obtain ⟨hLe, hMem⟩ := unseen_enter_le graph hFresh (keys graph)
  have hWork : ((enter graph s node).work.map fun frame => weight frame.2).sum =
      weight (neighbors graph node) + (s.work.map fun frame => weight frame.2).sum := by
    simp [enter]
  have hRoots : (enter graph s node).roots = s.roots := rfl
  rw [potential, potential, hWork, hRoots]
  by_cases hKey : node ∈ keys graph
  · have := hMem hKey
    omega
  · have hNone : neighbors graph node = [] := by
      rw [neighbors, (get?_eq_none_iff graph node).mpr hKey]
      rfl
    rw [hNone]
    simp only [weight, length_nil]
    omega

theorem potential_leave (s : Tarjan α) (node : α) :
    potential graph (leave graph s node) = potential graph s := by
  have hPass : potential graph (pass s node) = potential graph s := by
    rw [pass]
    split <;> rfl
  rw [leave]
  split
  · exact hPass
  · exact hPass

variable (graph) in
theorem potential_step (h : ¬(s.work = [] ∧ s.roots = [])) :
    potential graph (step graph s) < potential graph s := by
  rw [step]
  split
  · next hWork hRoots => exact absurd ⟨hWork, hRoots⟩ h
  · next root roots hWork hRoots =>
    have hTaken : potential graph { s with roots } + 2 = potential graph s := by
      have hSame : unseen graph { s with roots } (keys graph) = unseen graph s (keys graph) := rfl
      simp only [potential, hSame, hRoots, length_cons]
      omega
    split
    · omega
    · next hFresh =>
      have hFresh' : ¬Tarjan.isIndexed { s with roots } root := hFresh
      have := potential_enter graph hFresh'
      omega
  · next _ node dep rest work hWork =>
    have hTaken : potential graph { s with work := (node, rest) :: work } + 2 = potential graph s := by
      have hSame : unseen graph { s with work := (node, rest) :: work } (keys graph) =
        unseen graph s (keys graph) := rfl
      simp only [potential, hSame, hWork, map_cons, sum_cons, weight, length_cons]
      omega
    show potential graph (if !s.isIndexed dep then _ else if dep ∈ s.onStack then _ else _) < _
    split
    · next hFresh =>
      have hFresh' : ¬Tarjan.isIndexed { s with work := (node, rest) :: work } dep := by
        simpa [isIndexed] using hFresh
      have := potential_enter graph hFresh'
      omega
    · split
      · show potential graph { s with work := (node, rest) :: work } < _
        omega
      · omega
  · next _ node work hWork =>
    have hTaken : potential graph { s with work } + 1 = potential graph s := by
      have hSame : unseen graph { s with work } (keys graph) = unseen graph s (keys graph) := rfl
      simp only [potential, hSame, hWork, map_cons, sum_cons, weight, length_nil]
      omega
    rw [potential_leave]
    omega

theorem run_eq (fuel : ℕ) (h : Invariant graph s) (hEnough : potential graph s ≤ fuel) :
    ∃ t, Invariant graph t ∧ t.work = [] ∧ t.roots = [] ∧ run graph fuel s = some t.cycles := by
  induction fuel generalizing s with
  | zero =>
    by_cases hDone : s.work = [] ∧ s.roots = []
    · exact ⟨s, h, hDone.1, hDone.2, by rw [run, if_pos hDone]⟩
    · exact absurd (potential_step graph hDone) (by omega)
  | succ fuel ih =>
    by_cases hDone : s.work = [] ∧ s.roots = []
    · exact ⟨s, h, hDone.1, hDone.2, by rw [run, if_pos hDone]⟩
    · have hLess := potential_step graph hDone
      obtain ⟨t, ht, hWork, hRoots, hRun⟩ := ih h.step (by omega)
      exact ⟨t, ht, hWork, hRoots, by rw [run, if_neg hDone, hRun]⟩

theorem run_add {cycles : List (List α)} {rounds : ℕ} (h : run graph rounds s = some cycles) (fuel : ℕ) :
    run graph (rounds + fuel) s = some cycles := by
  induction rounds generalizing s with
  | zero =>
    rw [run] at h
    split at h
    · next hDone => cases fuel <;> rw [← h, Nat.zero_add, run, if_pos hDone]
    · cases h
  | succ rounds ih =>
    rw [run] at h
    rw [show rounds + 1 + fuel = rounds + fuel + 1 by omega, run]
    split
    · next hDone => rwa [if_pos hDone] at h
    · next hNot =>
      rw [if_neg hNot] at h
      exact ih h

theorem Invariant.done (h : Invariant graph s) (hWork : s.work = []) (hRoots : s.roots = [])
    {members : List α} (hComponent : IsComponent (Edge graph) members)
    (hCyclic : IsCyclic (Edge graph) members) :
    ∃ found ∈ s.cycles, ∀ a, a ∈ found ↔ a ∈ members := by
  obtain ⟨a, ha⟩ := exists_mem_of_ne_nil _ hComponent.begun
  obtain ⟨b, -, hEdge⟩ := hComponent.exists_step hCyclic ha
  have hKey : a ∈ keys graph := by
    by_contra hNot
    rw [Edge, neighbors, (get?_eq_none_iff graph a).mpr hNot] at hEdge
    cases hEdge
  have hIndexed : s.isIndexed a := by
    rcases h.roots a hKey with hIndexed | hRoot
    · exact hIndexed
    · rw [hRoots] at hRoot
      cases hRoot
  have hSettled : s.Settled a := ⟨hIndexed, by rw [h.stack_nil hWork]; exact not_mem_nil⟩
  obtain ⟨found, hFound, hIn⟩ := h.reported.complete members hComponent hCyclic a ha hSettled
  exact ⟨found, hFound, (h.reported.cycle found hFound).2.1.mem_iff_of_mem hComponent hIn ha⟩

end Tarjan

end Ici.ImportCycles
