import Ici.Analysis.TarjanSteps

/-! # Looking at an edge, leaving a node, closing a component

A node is left when its neighbours are used up. Where its low link is its own number, the top of the
stack down to it is a component; otherwise an active node below it takes the low link over. -/

namespace Ici.ImportCycles

open List Relation StrongComponents

universe u

variable {α : Type u} [DecidableEq α] {graph : Graph α}

namespace Tarjan

variable {s : Tarjan α} {node dep : α} {rest : List α} {work : List (α × List α)}

omit [DecidableEq α] in
theorem active_withWork (hWork : s.work = (node, dep :: rest) :: work) :
    Tarjan.active { s with work := (node, rest) :: work } = s.active := by
  simp [active, hWork]

theorem Explored.take (h : Explored graph (fun _ _ => False) s)
    (hWork : s.work = (node, dep :: rest) :: work) :
    Explored graph (fun a b => a = node ∧ b = dep) { s with work := (node, rest) :: work } := by
  have hWaits (a b : α) (hNot : ¬(a = node ∧ b = dep)) (hOld : s.Waits a b) :
      Waits { s with work := (node, rest) :: work } a b := by
    obtain ⟨others, hFrame, hb⟩ := hOld
    rw [hWork] at hFrame
    rcases mem_cons.mp hFrame with hTop | hBelow
    · obtain ⟨rfl, rfl⟩ := Prod.mk.inj hTop
      rcases mem_cons.mp hb with rfl | hLater
      · exact absurd ⟨rfl, rfl⟩ hNot
      · exact ⟨rest, mem_cons_self, hLater⟩
    · exact ⟨others, mem_cons_of_mem _ hBelow, hb⟩
  refine ⟨fun frame hFrame => ?_, fun a b ha hEdge hNot => ?_, h.settled, ?_⟩
  · rcases mem_cons.mp hFrame with rfl | hBelow
    · exact fun b hb => h.waiting (node, dep :: rest) (hWork ▸ mem_cons_self)
        (mem_cons_of_mem _ hb)
    · exact h.waiting frame (hWork ▸ mem_cons_of_mem _ hBelow)
  · exact (h.followed a b ha hEdge (fun hIn => hIn)).imp_right (hWaits a b hNot)
  · intro f hf a ha hLe b hb hEdge hNot hStill
    rw [active_withWork hWork] at hf ⊢
    exact h.lowered f hf a ha hLe b hb hEdge (fun hIn => hIn) fun hOld => hStill (hWaits a b hNot hOld)

section

variable (h : Explored graph (fun a b => a = node ∧ b = dep) s) (hIndexed : s.isIndexed dep)
include h hIndexed

theorem Explored.skip (hGone : dep ∉ s.stack) : Explored graph (fun _ _ => False) s where
  waiting := h.waiting
  followed a b ha hEdge _ := by
    by_cases hb : b = dep
    · exact .inl (hb ▸ hIndexed)
    · exact h.followed a b ha hEdge fun hIn => hb hIn.2
  settled := h.settled
  lowered f hf a ha hLe b hb hEdge _ hNot :=
    h.lowered f hf a ha hLe b hb hEdge (fun hIn => hGone (hIn.2 ▸ hb)) hNot

theorem Explored.note (hNode : node ∈ s.active) (hTop : ∀ g ∈ s.active, s.index g ≤ s.index node) :
    Explored graph (fun _ _ => False) (s.lower node (s.index dep)) where
  waiting := h.waiting
  followed a b ha hEdge _ := by
    by_cases hb : b = dep
    · exact .inl (hb ▸ hIndexed)
    · exact h.followed a b ha hEdge fun hIn => hb hIn.2
  settled := h.settled
  lowered f hf a ha hLe b hb hEdge _ hNot := by
    by_cases hIn : a = node ∧ b = dep
    · refine ⟨node, hNode, hTop f hf, ?_⟩
      rw [low_lower, if_pos rfl, hIn.2]
      exact min_le_right _ _
    · obtain ⟨g, hg, hfg, hgb⟩ := h.lowered f hf a ha hLe b hb hEdge hIn hNot
      exact ⟨g, hg, hfg, (low_lower_le s node g _).trans hgb⟩

end

theorem Connected.lower (h : Connected graph s) {found : ℕ} {b : α} (hb : b ∈ s.stack)
    (hFound : s.index b = found) (hReach : Reach graph node b) :
    Connected graph (s.lower node found) where
  toActive := h.toActive
  fromActive := h.fromActive
  low g hg := by
    obtain ⟨c, hc, hSame, hTo⟩ := h.low g hg
    rw [low_lower]
    by_cases hg : node = g
    · subst hg
      rw [if_pos rfl]
      rcases le_total (s.low node) found with hLess | hLess
      · exact ⟨c, hc, by rw [min_eq_left hLess]; exact hSame, hTo⟩
      · exact ⟨b, hb, by rw [min_eq_right hLess]; exact hFound, hReach⟩
    · exact ⟨c, hc, by rw [if_neg hg]; exact hSame, hTo⟩

section Leave

variable (hWork : s.work = (node, []) :: work)

include hWork

omit [DecidableEq α] in
theorem active_of_work : s.active = node :: work.map Prod.fst := by simp [active, hWork]

omit [DecidableEq α] in
theorem waits_below {a b : α} (h : s.Waits a b) : ∃ rest, (a, rest) ∈ work ∧ b ∈ rest := by
  obtain ⟨rest, hFrame, hb⟩ := h
  rw [hWork] at hFrame
  rcases mem_cons.mp hFrame with hTop | hBelow
  · rw [(Prod.mk.inj hTop).2] at hb
    cases hb
  · exact ⟨rest, hBelow, hb⟩

theorem Connected.exists_below (h : Connected graph s) (hLess : s.low node < s.index node) :
    ∃ g ∈ work.map Prod.fst, s.index g ≤ s.low node ∧ Reach graph node g := by
  have hActive := active_of_work hWork
  obtain ⟨b, hb, hSame, hTo⟩ := h.low node (hActive ▸ mem_cons_self)
  obtain ⟨g, hg, hLe, hFrom⟩ := h.toActive b hb
  rw [hActive] at hg
  rcases mem_cons.mp hg with rfl | hBelow
  · omega
  · exact ⟨g, hBelow, hSame ▸ hLe, hTo.trans hFrom⟩

theorem Explored.pass (h : Explored graph (fun _ _ => False) s) (hNumbered : Numbered s)
    {parent : α} {others : List α} {below : List (α × List α)} (hBelow : work = (parent, others) :: below) :
    Explored graph (fun _ _ => False) (Tarjan.lower { s with work } parent (s.low node)) := by
  have hActive := active_of_work hWork
  have hParent : parent ∈ work.map Prod.fst := by simp [hBelow]
  refine ⟨fun frame hFrame => h.waiting frame (hWork ▸ mem_cons_of_mem _ hFrame), ?_, h.settled, ?_⟩
  · exact fun a b ha hEdge hNot => (h.followed a b ha hEdge hNot).imp_right fun hWaits =>
      waits_below hWork hWaits
  · intro f hf a ha hLe b hb hEdge hNot hStill
    have hfActive : f ∈ s.active := hActive ▸ mem_cons_of_mem _ hf
    obtain ⟨g, hg, hfg, hgb⟩ := h.lowered f hfActive a ha hLe b hb hEdge hNot fun hWaits =>
      hStill (waits_below hWork hWaits)
    rw [hActive] at hg
    rcases mem_cons.mp hg with rfl | hOther
    · refine ⟨parent, hParent, ?_, ?_⟩
      · -- The parent is on top of what is left.
        have hfWork : f ∈ work.map Prod.fst := hf
        rw [hBelow, map_cons] at hfWork
        rcases mem_cons.mp hfWork with rfl | hDeeper
        · exact le_rfl
        · have hSub : Numbered { s with work } := hNumbered.withWork (by
            rw [hActive]
            exact sublist_cons_self _ _)
          exact (hSub.top hBelow f hDeeper).le
      · rw [low_lower, if_pos rfl]
        exact (min_le_right _ _).trans hgb
    · exact ⟨g, hOther, hfg, (low_lower_le _ parent g _).trans hgb⟩

theorem Connected.pass (h : Connected graph s) (hNumbered : Numbered s)
    (hLess : s.low node < s.index node) {parent : α} (hParent : parent ∈ work.map Prod.fst) :
    Connected graph (Tarjan.lower { s with work } parent (s.low node)) := by
  have hActive := active_of_work hWork
  have hNode : node ∈ s.stack := hNumbered.active_mem (hActive ▸ mem_cons_self)
  obtain ⟨c, hc, hSame, hTo⟩ := h.low node (hActive ▸ mem_cons_self)
  have hFromParent : Reach graph parent node :=
    h.fromActive parent (hActive ▸ mem_cons_of_mem _ hParent) node hNode
      (hNumbered.top hWork parent hParent).le
  apply Connected.lower (s := { s with work }) (b := c) ?_ hc hSame (hFromParent.trans hTo)
  refine ⟨fun a ha => ?_, fun g hg => ?_, fun g hg => ?_⟩
  · obtain ⟨g, hg, hLe, hReach⟩ := h.toActive a ha
    rw [hActive] at hg
    rcases mem_cons.mp hg with rfl | hBelow
    · obtain ⟨g', hg', hLow, hFurther⟩ := h.exists_below hWork hLess
      refine ⟨g', hg', ?_, hReach.trans hFurther⟩
      exact hLow.trans (hLess.le.trans hLe)
    · exact ⟨g, hBelow, hLe, hReach⟩
  · exact h.fromActive g (hActive ▸ mem_cons_of_mem _ hg)
  · exact h.low g (hActive ▸ mem_cons_of_mem _ hg)

end Leave

/-! ## Closing a component -/

theorem popThrough_spec {node : α} {stack : List α} (h : node ∈ stack) :
    stack = (popThrough node stack).1 ++ (popThrough node stack).2 ∧
      ∃ others, (popThrough node stack).1 = others ++ [node] := by
  induction stack with
  | nil => cases h
  | cons member stack ih =>
    rw [popThrough]
    split
    · next hSame => exact ⟨rfl, [], by simp [hSame]⟩
    · next hne =>
      obtain ⟨hSplit, others, hLast⟩ := ih ((mem_cons.mp h).resolve_left (Ne.symm hne))
      exact ⟨congrArg (member :: ·) hSplit, member :: others, congrArg (member :: ·) hLast⟩

omit [DecidableEq α] in
theorem sublist_of_cons {node : α} {l others stack : List α} (hNot : node ∉ others)
    (h : (node :: l).Sublist (others ++ ([node] ++ stack))) : l.Sublist stack := by
  induction others with
  | nil => exact cons_sublist_cons.mp h
  | cons a others ih =>
    obtain ⟨hne, hRest⟩ := not_or.mp (mt mem_cons.mpr hNot)
    cases h with
    | cons _ hLater => exact ih hRest hLater
    | cons_cons _ _ => exact absurd rfl hne

structure Closing (graph : Graph α) (s : Tarjan α) (node : α) (work : List (α × List α))
    (component stack : List α) : Prop where
  numbered : Numbered s
  explored : Explored graph (fun _ _ => False) s
  connected : Connected graph s
  root : s.low node = s.index node
  work_eq : s.work = (node, []) :: work
  stack_eq : s.stack = component ++ stack
  last : ∃ others, component = others ++ [node]

namespace Closing

variable {component stack : List α}

section

variable (h : Closing graph s node work component stack)
include h

theorem node_mem : node ∈ component := by
  obtain ⟨others, rfl⟩ := h.last
  simp

theorem active_eq : s.active = node :: work.map Prod.fst := active_of_work h.work_eq

theorem mem_stack (a : α) : a ∈ s.stack ↔ a ∈ component ∨ a ∈ stack := by rw [h.stack_eq, mem_append]

variable {a : α}

theorem above (ha : a ∈ component) : s.index node ≤ s.index a := by
  obtain ⟨others, rfl⟩ := h.last
  have hSorted := h.numbered.sorted
  rw [h.stack_eq] at hSorted
  have hPairs := (pairwise_append.mp (pairwise_append.mp hSorted).1).2.2
  rcases mem_append.mp ha with hOther | hSame
  · exact (hPairs a hOther node (by simp)).le
  · rw [mem_singleton.mp hSame]

theorem under (ha : a ∈ stack) : s.index a < s.index node := by
  have hSorted := h.numbered.sorted
  rw [h.stack_eq] at hSorted
  exact (pairwise_append.mp hSorted).2.2 node h.node_mem a ha

theorem mem_of_above (ha : a ∈ s.stack) (hLe : s.index node ≤ s.index a) : a ∈ component := by
  rcases (h.mem_stack a).mp ha with hIn | hBelow
  · exact hIn
  · exact absurd (h.under hBelow) (by omega)

theorem mem_of_under (ha : a ∈ s.stack) (hLess : s.index a < s.index node) : a ∈ stack := by
  rcases (h.mem_stack a).mp ha with hIn | hBelow
  · exact absurd (h.above hIn) (by omega)
  · exact hBelow

theorem below {g : α} (hg : g ∈ s.active) (hne : g ≠ node) : g ∈ work.map Prod.fst := by
  rw [h.active_eq] at hg
  exact (mem_cons.mp hg).resolve_left hne

theorem below_lt {g : α} (hg : g ∈ work.map Prod.fst) : s.index g < s.index node :=
  h.numbered.top h.work_eq g hg

theorem below_active {g : α} (hg : g ∈ work.map Prod.fst) : g ∈ s.active :=
  h.active_eq ▸ mem_cons_of_mem _ hg

theorem node_active : node ∈ s.active :=
  h.active_eq ▸ mem_cons_self

theorem component_stack (ha : a ∈ component) : a ∈ s.stack := (h.mem_stack a).mpr (.inl ha)

theorem out {a b : α} (ha : a ∈ component) (hEdge : Edge graph a b) : b ∈ component ∨ s.Settled b := by
  have haStack := h.component_stack ha
  have hDone : ¬s.Waits a b := by
    intro hWaits
    obtain ⟨rest, hFrame, -⟩ := waits_below h.work_eq hWaits
    have hLess : s.index a < s.index node := h.below_lt (mem_map_of_mem (f := Prod.fst) hFrame)
    exact absurd (h.above ha) (by omega)
  have hIndexed : s.isIndexed b := by
    rcases h.explored.followed a b (h.numbered.stacked a haStack) hEdge (fun hIn => hIn) with hb | hb
    · exact hb
    · exact absurd hb hDone
  by_cases hb : b ∈ s.stack
  · obtain ⟨g, hg, hLe, hLow⟩ := h.explored.lowered node h.node_active a haStack (h.above ha) b hb hEdge
      (fun hIn => hIn) hDone
    have hSame : g = node := by
      by_contra hne
      exact absurd (h.below_lt (h.below hg hne)) (by omega)
    rw [hSame, h.root] at hLow
    exact .inl (h.mem_of_above hb hLow)
  · exact .inr ⟨hIndexed, hb⟩

theorem isComponent : IsComponent (Edge graph) component := by
  apply isComponent_of_closed (R := s.Settled) h.node_mem
  · intro a ha
    refine ⟨h.connected.fromActive node h.node_active a (h.component_stack ha) (h.above ha), ?_⟩
    obtain ⟨g, hg, -, hTo⟩ := h.connected.toActive a (h.component_stack ha)
    by_cases hSame : g = node
    · exact hSame ▸ hTo
    · have hLess := h.below_lt (h.below hg hSame)
      exact hTo.trans (h.connected.fromActive g hg node (h.component_stack h.node_mem) hLess.le)
  · exact fun a ha b hEdge => h.out ha hEdge
  · exact fun a b ha hEdge => h.explored.settled a b ha hEdge
  · exact fun a ha hSettled => hSettled.2 (h.component_stack ha)

theorem component_nodup : component.Nodup := by
  have hNodup := h.numbered.stack_nodup
  rw [h.stack_eq] at hNodup
  exact hNodup.of_append_left

theorem apart (ha : a ∈ component) :
    a ∉ stack := fun hb => absurd (h.under hb) (by have := h.above ha; omega)

end

end Closing

structure Closed (graph : Graph α) (s t : Tarjan α) (work : List (α × List α))
    (component stack : List α) : Prop where
  indices : t.indices = s.indices
  indexCounter : t.indexCounter = s.indexCounter
  stack_eq : t.stack = stack
  onStack : t.onStack = s.onStack \ component.toFinset
  work_eq : t.work = work
  linked : ∀ a, (Dict.get? s.lowlink a).isSome → (Dict.get? t.lowlink a).isSome ∧ t.low a ≤ s.low a
  low : ∀ g ∈ work.map Prod.fst, t.low g = s.low g
  cycles : IsCyclic (Edge graph) component ∧ t.cycles = s.cycles ++ [component] ∨
    ¬IsCyclic (Edge graph) component ∧ t.cycles = s.cycles

namespace Closed

variable {t : Tarjan α} {component stack : List α}

section

variable (h : Closed graph s t work component stack)
include h

theorem isIndexed (a : α) :
    t.isIndexed a = s.isIndexed a := by rw [Tarjan.isIndexed, h.indices, Tarjan.isIndexed]

theorem index (a : α) : t.index a = s.index a := by
  rw [Tarjan.index, h.indices, Tarjan.index]

theorem active : t.active = work.map Prod.fst := by
  rw [Tarjan.active, h.work_eq]

end

variable (h : Closed graph s t work component stack) (hClosing : Closing graph s node work component stack)

include h hClosing

theorem numbered : Numbered t where
  below a ha := by
    rw [h.isIndexed] at ha
    rw [h.index, h.indexCounter]
    exact hClosing.numbered.below a ha
  linked a ha := by
    rw [h.isIndexed] at ha
    obtain ⟨hSome, hLe⟩ := hClosing.numbered.linked a ha
    rw [h.index]
    exact ⟨(h.linked a hSome).1, (h.linked a hSome).2.trans hLe⟩
  stacked a ha := by
    rw [h.stack_eq] at ha
    rw [h.isIndexed]
    exact hClosing.numbered.stacked a ((hClosing.mem_stack a).mpr (.inr ha))
  sorted := by
    have hSorted := hClosing.numbered.sorted
    rw [hClosing.stack_eq] at hSorted
    rw [h.stack_eq]
    simpa only [h.index] using (pairwise_append.mp hSorted).2.1
  onStack a := by
    rw [h.onStack, h.stack_eq, Finset.mem_sdiff, mem_toFinset, hClosing.numbered.onStack, hClosing.mem_stack]
    constructor
    · rintro ⟨hIn | hBelow, hNot⟩
      · exact absurd hIn hNot
      · exact hBelow
    · exact fun hBelow => ⟨.inr hBelow, fun hIn => hClosing.apart hIn hBelow⟩
  active := by
    obtain ⟨others, hLast⟩ := hClosing.last
    have hSub := hClosing.numbered.active
    rw [hClosing.active_eq, hClosing.stack_eq, hLast, append_assoc] at hSub
    have hNot : node ∉ others := by
      have hNodup := hClosing.component_nodup
      rw [hLast] at hNodup
      exact fun hIn => (nodup_append.mp hNodup).2.2 node hIn node (by simp) rfl
    rw [h.active, h.stack_eq]
    exact sublist_of_cons hNot hSub

theorem settled_iff (a : α) : t.Settled a ↔ s.Settled a ∨ a ∈ component := by
  rw [Settled, h.isIndexed, h.stack_eq, Settled, hClosing.mem_stack]
  constructor
  · rintro ⟨hIndexed, hNot⟩
    by_cases hIn : a ∈ component
    · exact .inr hIn
    · exact .inl ⟨hIndexed, not_or.mpr ⟨hIn, hNot⟩⟩
  · rintro (⟨hIndexed, hNot⟩ | hIn)
    · exact ⟨hIndexed, fun hBelow => hNot (.inr hBelow)⟩
    · exact ⟨hClosing.numbered.stacked a (hClosing.component_stack hIn), hClosing.apart hIn⟩

theorem explored : Explored graph (fun _ _ => False) t where
  waiting frame hFrame := by
    rw [h.work_eq] at hFrame
    exact hClosing.explored.waiting frame (hClosing.work_eq ▸ mem_cons_of_mem _ hFrame)
  followed a b ha hEdge hNot := by
    rw [h.isIndexed] at ha ⊢
    refine (hClosing.explored.followed a b ha hEdge hNot).imp_right fun hWaits => ?_
    rw [Waits, h.work_eq]
    exact waits_below hClosing.work_eq hWaits
  settled a b ha hEdge := by
    rw [h.settled_iff hClosing] at ha ⊢
    rcases ha with hOld | hIn
    · exact .inl (hClosing.explored.settled a b hOld hEdge)
    · exact (hClosing.out hIn hEdge).symm
  lowered f hf a ha hLe b hb hEdge hNot hStill := by
    rw [h.active] at hf
    rw [h.stack_eq] at ha hb
    rw [h.index, h.index] at hLe
    have hWaits : ¬s.Waits a b := fun hWaits => hStill (by
      rw [Waits, h.work_eq]
      exact waits_below hClosing.work_eq hWaits)
    obtain ⟨g, hg, hfg, hgb⟩ := hClosing.explored.lowered f (hClosing.below_active hf) a
      ((hClosing.mem_stack a).mpr (.inr ha)) hLe b ((hClosing.mem_stack b).mpr (.inr hb)) hEdge hNot
      hWaits
    have hne : g ≠ node := by
      rintro rfl
      rw [hClosing.root] at hgb
      exact absurd (hClosing.under hb) (by omega)
    have hBelow := hClosing.below hg hne
    refine ⟨g, h.active ▸ hBelow, ?_, ?_⟩
    · rwa [h.index, h.index]
    · rwa [h.low g hBelow, h.index]

theorem connected : Connected graph t where
  toActive a ha := by
    rw [h.stack_eq] at ha
    obtain ⟨g, hg, hLe, hTo⟩ := hClosing.connected.toActive a ((hClosing.mem_stack a).mpr (.inr ha))
    have hne : g ≠ node := by
      rintro rfl
      exact absurd (hClosing.under ha) (by omega)
    refine ⟨g, h.active ▸ hClosing.below hg hne, ?_, hTo⟩
    rwa [h.index, h.index]
  fromActive g hg a ha hLe := by
    rw [h.active] at hg
    rw [h.stack_eq] at ha
    rw [h.index, h.index] at hLe
    exact hClosing.connected.fromActive g (hClosing.below_active hg) a
      ((hClosing.mem_stack a).mpr (.inr ha)) hLe
  low g hg := by
    rw [h.active] at hg
    have hActive := hClosing.below_active hg
    obtain ⟨b, hb, hSame, hTo⟩ := hClosing.connected.low g hActive
    have hgIndexed := hClosing.numbered.stacked g (hClosing.numbered.active_mem hActive)
    have hLess : s.index b < s.index node := by
      rw [hSame]
      exact (hClosing.numbered.linked g hgIndexed).2.trans_lt (hClosing.below_lt hg)
    refine ⟨b, h.stack_eq ▸ hClosing.mem_of_under hb hLess, ?_, hTo⟩
    rw [h.index, h.low g hg, hSame]

theorem reported (hReported : Reported graph s) : Reported graph t := by
  have hCycle (members : List α) (hMem : members ∈ s.cycles) : members.Nodup ∧
      IsComponent (Edge graph) members ∧ IsCyclic (Edge graph) members ∧ ∀ a ∈ members, t.Settled a := by
    obtain ⟨hNodup, hComponent, hCyclic, hSettled⟩ := hReported.cycle members hMem
    exact ⟨hNodup, hComponent, hCyclic, fun a ha => (h.settled_iff hClosing a).mpr (.inl (hSettled a ha))⟩
  have hOld (members : List α) (hComponent : IsComponent (Edge graph) members)
      (hCyclic : IsCyclic (Edge graph) members) (a : α) (ha : a ∈ members) (hSettled : t.Settled a) :
      (∃ found ∈ s.cycles, a ∈ found) ∨ a ∈ component := by
    rcases (h.settled_iff hClosing a).mp hSettled with hBefore | hIn
    · exact .inl (hReported.complete members hComponent hCyclic a ha hBefore)
    · exact .inr hIn
  rcases h.cycles with ⟨hCyclic, hCycles⟩ | ⟨hNot, hCycles⟩
  · refine ⟨fun members hMem => ?_, ?_, fun members hComponent hMembers a ha hSettled => ?_⟩
    · rw [hCycles] at hMem
      rcases mem_append.mp hMem with hBefore | hNew
      · exact hCycle members hBefore
      · obtain rfl := mem_singleton.mp hNew
        exact ⟨hClosing.component_nodup, hClosing.isComponent, hCyclic, fun a ha =>
          (h.settled_iff hClosing a).mpr (.inr ha)⟩
    · rw [hCycles, pairwise_append]
      refine ⟨hReported.apart, pairwise_singleton _ _, fun members hMem others hOther a ha hb => ?_⟩
      rw [mem_singleton.mp hOther] at hb
      exact ((hReported.cycle members hMem).2.2.2 a ha).2 (hClosing.component_stack hb)
    · rw [hCycles]
      rcases hOld members hComponent hMembers a ha hSettled with ⟨found, hFound, hIn⟩ | hIn
      · exact ⟨found, mem_append_left _ hFound, hIn⟩
      · exact ⟨component, by simp, hIn⟩
  · refine ⟨fun members hMem => hCycle members (hCycles ▸ hMem), hCycles ▸ hReported.apart,
      fun members hComponent hMembers a ha hSettled => ?_⟩
    rw [hCycles]
    rcases hOld members hComponent hMembers a ha hSettled with hFound | hIn
    · exact hFound
    · exact absurd (isCyclic_of_same (hComponent.mem_iff_of_mem hClosing.isComponent ha hIn) hMembers) hNot

end Closed

end Tarjan

end Ici.ImportCycles
