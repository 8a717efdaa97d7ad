import Mathlib.Data.Finset.Card
import Mathlib.Data.List.Chain
import Ici.Analysis.TarjanExact

/-! # The path of a component is a real cycle

Exploring a node tries all simple ways on; when it gives up, no way from its neighbours back to the
first node avoids the nodes on the path. -/

namespace Ici.ImportCycles

open List Relation StrongComponents

universe u

variable {α : Type u} [DecidableEq α] {graph : Graph α} {component : List α} {first : α}

structure IsWay (graph : Graph α) (component : List α) (first node : α) (path : List α) : Prop where
  head : path.head? = some first
  last : path.getLast? = some node
  nodup : path.Nodup
  edges : path.IsChain (Edge graph)
  inside : ∀ a ∈ path, a ∈ component

def IsClosedPath (graph : Graph α) (component : List α) (first : α) (path : List α) : Prop :=
  ∃ node, IsWay graph component first node path ∧ Edge graph node first

namespace IsWay

variable {node nxt : α} {path : List α}

theorem single (h : first ∈ component) : IsWay graph component first first [first] :=
  ⟨rfl, rfl, nodup_singleton _, isChain_singleton _, by simpa using h⟩

theorem append (h : IsWay graph component first node path) (hEdge : Edge graph node nxt)
    (hInside : nxt ∈ component) (hNew : nxt ∉ path) :
    IsWay graph component first nxt (path ++ [nxt]) where
  head := by simp [h.head]
  last := by simp
  nodup := by
    rw [nodup_append]
    refine ⟨h.nodup, nodup_singleton _, fun a ha b hb hSame => ?_⟩
    rw [mem_singleton.mp hb] at hSame
    exact hNew (hSame ▸ ha)
  edges := by
    rw [isChain_append]
    refine ⟨h.edges, isChain_singleton _, fun a ha b hb => ?_⟩
    rw [h.last] at ha
    cases ha
    cases hb
    exact hEdge
  inside a ha := by
    rcases mem_append.mp ha with hOld | hLast
    · exact h.inside a hOld
    · exact mem_singleton.mp hLast ▸ hInside

end IsWay

namespace Trail

theorem mem_inside {node a : α} : a ∈ inside graph component node ↔ Edge graph node a ∧ a ∈ component := by
  simp [inside, Edge]

def Ends (graph : Graph α) (component : List α) (first : α) (t after : Trail α) (rest : List α) : Prop :=
  (∃ path, IsClosedPath graph component first path ∧
      ∃ rounds, ∀ fuel, run graph component first (rounds + fuel) t = some (.closed path)) ∨
    (∀ b ∈ rest, ¬Escapes (Edge graph) component first (· ∈ t.visiting) b) ∧
      ∃ rounds, ∀ fuel, run graph component first (rounds + fuel) t = run graph component first fuel after

theorem run_of_step {t t' : Trail α} (h : step graph component first t = .inr t') (rounds fuel : ℕ) :
    run graph component first (rounds + 1 + fuel) t = run graph component first (rounds + fuel) t' := by
  rw [show rounds + 1 + fuel = rounds + fuel + 1 by omega, run, h]

theorem run_of_found {t : Trail α} {found : Found α} (h : step graph component first t = .inl found)
    (fuel : ℕ) : run graph component first (1 + fuel) t = some found := by
  rw [Nat.add_comm, run, h]

theorem Ends.of_step {t t' after : Trail α} {nxt : α} {rest : List α}
    (hStep : step graph component first t = .inr t') (hSame : t'.visiting = t.visiting)
    (hBlocked : ¬Escapes (Edge graph) component first (· ∈ t.visiting) nxt)
    (h : Ends graph component first t' after rest) : Ends graph component first t after (nxt :: rest) := by
  rcases h with ⟨path, hPath, rounds, hRun⟩ | ⟨hRest, rounds, hRun⟩
  · exact .inl ⟨path, hPath, rounds + 1, fun fuel => (run_of_step hStep rounds fuel).trans (hRun fuel)⟩
  · refine .inr ⟨fun b hb => ?_, rounds + 1, fun fuel => (run_of_step hStep rounds fuel).trans (hRun fuel)⟩
    rcases mem_cons.mp hb with rfl | hLater
    · exact hBlocked
    · exact hSame ▸ hRest b hLater

theorem ends_explore (room : ℕ) : ∀ (path : List α) (visiting : Finset α) (node : α) (rest : List α)
    (work : List (α × List α)), IsWay graph component first node path →
    (∀ a, a ∈ visiting ↔ a ∈ path) → (∀ b ∈ rest, Edge graph node b ∧ b ∈ component) →
    (component.toFinset \ visiting).card < room →
    Ends graph component first ⟨path, visiting, (node, rest) :: work⟩
      ⟨path.dropLast, visiting.erase node, work⟩ rest := by
  -- A node that is entered leaves fewer nodes to enter below it.
  induction room with
  | zero => exact fun _ _ _ _ _ _ _ _ hRoom => absurd hRoom (Nat.not_lt_zero _)
  | succ room ih =>
    intro path visiting node rest work hWay hVisiting hRest hRoom
    induction rest with
    | nil =>
      refine .inr ⟨by simp, 1, fun fuel => ?_⟩
      rw [Nat.add_comm, run]
      rfl
    | cons nxt rest ihRest =>
      obtain ⟨hEdge, hInside⟩ := hRest nxt mem_cons_self
      have hLater := ihRest fun b hb => hRest b (mem_cons_of_mem _ hb)
      by_cases hFirst : nxt = first
      · refine .inl ⟨path, ⟨node, hWay, hFirst ▸ hEdge⟩, 1, run_of_found ?_⟩
        simp [step, hFirst]
      by_cases hSeen : nxt ∈ visiting
      · have hStep : step graph component first ⟨path, visiting, (node, nxt :: rest) :: work⟩ =
            .inr ⟨path, visiting, (node, rest) :: work⟩ := by
          simp [step, hFirst, hSeen]
        exact hLater.of_step hStep rfl (not_escapes_of_avoided hSeen hFirst)
      have hStep : step graph component first ⟨path, visiting, (node, nxt :: rest) :: work⟩ =
          .inr ⟨path ++ [nxt], insert nxt visiting,
            (nxt, inside graph component nxt) :: (node, rest) :: work⟩ := by
        simp [step, hFirst, hSeen]
      have hNew : nxt ∉ path := fun hIn => hSeen ((hVisiting nxt).mpr hIn)
      have hSmaller : (component.toFinset \ insert nxt visiting).card < room := by
        have hOne : nxt ∈ component.toFinset \ visiting := by simp [hInside, hSeen]
        rw [Finset.sdiff_insert]
        have := Finset.card_erase_lt_of_mem hOne
        omega
      have hBelow := ih (path ++ [nxt]) (insert nxt visiting) nxt (inside graph component nxt)
        ((node, rest) :: work) (hWay.append hEdge hInside hNew) (fun a => by simp [hVisiting, or_comm])
        (fun b hb => mem_inside.mp hb) hSmaller
      rw [dropLast_concat, Finset.erase_insert hSeen] at hBelow
      rcases hBelow with ⟨found, hFound, rounds, hRun⟩ | ⟨hNone, rounds, hRun⟩
      · exact .inl ⟨found, hFound, rounds + 1, fun fuel =>
          (run_of_step hStep rounds fuel).trans (hRun fuel)⟩
      · have hBlocked : ¬Escapes (Edge graph) component first (· ∈ visiting) nxt := by
          intro hEscapes
          obtain ⟨b, hb, hStepTo, hOn⟩ := hEscapes.exists_next hFirst
          refine hNone b (mem_inside.mpr ⟨hStepTo, hb⟩) ?_
          simpa only [Finset.mem_insert] using hOn
        rcases hLater with ⟨found, hFound, more, hMore⟩ | ⟨hOthers, more, hMore⟩
        · refine .inl ⟨found, hFound, rounds + more + 1, fun fuel => ?_⟩
          rw [run_of_step hStep, Nat.add_assoc, hRun]
          exact hMore fuel
        · refine .inr ⟨fun b hb => ?_, rounds + more + 1, fun fuel => ?_⟩
          · rcases mem_cons.mp hb with rfl | hIn
            · exact hBlocked
            · exact hOthers b hIn
          · rw [run_of_step hStep, Nat.add_assoc, hRun]
            exact hMore fuel

end Trail

theorem exists_closed_path (hComponent : IsComponent (Edge graph) component)
    (hCyclic : IsCyclic (Edge graph) component) (hFirst : first ∈ component) :
    ∃ path, IsClosedPath graph component first path ∧
      ∃ rounds, ∀ fuel, searchCyclePath graph component first (rounds + fuel) = some (.closed path) := by
  have hWay : IsWay graph component first first [first] := IsWay.single hFirst
  have hEnds := Trail.ends_explore _ [first] {first} first (Trail.inside graph component first) [] hWay
    (by simp) (fun b hb => Trail.mem_inside.mp hb) (Nat.lt_succ_self _)
  rcases hEnds with hFound | ⟨hNone, -⟩
  · exact hFound
  · obtain ⟨b, hb, hEdge⟩ := hComponent.exists_step hCyclic hFirst
    refine absurd (hComponent.escapes hFirst hb) ?_
    simpa using hNone b (Trail.mem_inside.mpr ⟨hEdge, hb⟩)

/-- The components with a cycle are found once each, and each has a cycle to show. -/
theorem import_cycles_exact (graph : Graph α) :
    ∃ cycles, (∃ rounds, ∀ fuel, findCyclesTarjan graph (rounds + fuel) = some cycles) ∧
      (∀ members ∈ cycles, members.Nodup ∧ IsComponent (Edge graph) members ∧
        IsCyclic (Edge graph) members) ∧
      cycles.Pairwise List.Disjoint ∧
      (∀ members, IsComponent (Edge graph) members → IsCyclic (Edge graph) members →
        ∃ found ∈ cycles, ∀ a, a ∈ found ↔ a ∈ members) ∧
      ∀ (str : α → String) (members : List α), IsComponent (Edge graph) members →
        IsCyclic (Edge graph) members → ∀ first ∈ members, ∃ path,
          IsClosedPath graph members first path ∧ ∃ rounds, ∀ fuel,
            searchCyclePath graph members first (rounds + fuel) = some (.closed path) ∧
            findActualCyclePath str graph members first (rounds + fuel) = some path := by
  obtain ⟨s, hInvariant, hWork, hRoots, hRun⟩ :=
    Tarjan.run_eq _ (Tarjan.invariant_start graph) (le_refl (Tarjan.potential graph (Tarjan.start graph)))
  refine ⟨s.cycles, ⟨_, fun fuel => Tarjan.run_add hRun fuel⟩, fun members hMem => ?_,
    hInvariant.reported.apart, fun members => hInvariant.done hWork hRoots,
    fun str members hComponent hCyclic first hFirst => ?_⟩
  · obtain ⟨hNodup, hComponent, hCyclic, -⟩ := hInvariant.reported.cycle members hMem
    exact ⟨hNodup, hComponent, hCyclic⟩
  · obtain ⟨path, hPath, rounds, hFound⟩ := exists_closed_path hComponent hCyclic hFirst
    refine ⟨path, hPath, rounds, fun fuel => ⟨hFound fuel, ?_⟩⟩
    rw [findActualCyclePath, hFound]
    rfl

-- A chain into a cycle of two, whose last neighbour is no key.
example : findCyclesTarjan [(0, [1]), (1, [2]), (2, [1, 3])] 20 = some [[2, 1]] := by decide

end Ici.ImportCycles
