import Mathlib.Data.List.Chain
import Mathlib.Data.List.Nodup
import Mathlib.Data.List.Perm.Subperm
import Ici.Library.Raising

/-! # Looking for a cycle depth first

The nodes being visited form a chain of edges; a settled node reaches no cycle. -/

namespace Cycles

open List Raising

universe u

inductive Halt (κ : Type u) where
  | cycle (nodes : List κ)
  | outOfFuel

variable {κ : Type u} [DecidableEq κ] (edges : κ → List κ)

def visit : ℕ → List κ → List κ → κ → Except (Halt κ) (List κ)
  | 0, _, _, _ => .error .outOfFuel
  | fuel + 1, visiting, settled, node =>
    if node ∈ settled then .ok settled
    else if node ∈ visiting then .error (.cycle (visiting.drop (visiting.idxOf node)))
    else do
      let settled ← (edges node).foldlM (visit fuel (visiting ++ [node])) settled
      return node :: settled

def search (fuel : ℕ) (nodes : List κ) : Except (Halt κ) (List κ) :=
  nodes.foldlM (visit edges fuel []) []

/-- `b` is followed from `a`. -/
def Edge (b a : κ) : Prop := b ∈ edges a

def Ends (a : κ) : Prop := Acc (Edge edges) a

variable {edges}

omit [DecidableEq κ] in
theorem Ends.not_cycle {a : κ} (h : Ends edges a) : ¬Relation.TransGen (Edge edges) a a := by
  intro hCycle
  induction h with
  | intro a _ ih =>
    obtain ⟨b, hBefore, hEdge⟩ := Relation.TransGen.tail'_iff.mp hCycle
    exact ih b hEdge ((Relation.TransGen.single hEdge).trans_left hBefore)

omit [DecidableEq κ] in
theorem Ends.mono {fewer : κ → List κ} (hFewer : ∀ a, ∀ b ∈ fewer a, b ∈ edges a) {a : κ}
    (h : Ends edges a) : Ends fewer a := by
  induction h with
  | intro a _ ih => exact .intro a fun b hb => ih b (hFewer a b hb)

theorem visit_ok (fuel : ℕ) {visiting settled settled' : List κ} {node : κ}
    (hSettled : ∀ a ∈ settled, Ends edges a)
    (h : visit edges fuel visiting settled node = .ok settled') :
    node ∈ settled' ∧ settled ⊆ settled' ∧ ∀ a ∈ settled', Ends edges a := by
  induction fuel generalizing visiting settled settled' node with
  | zero => cases h
  | succ fuel ih =>
    rw [visit] at h
    split_ifs at h with hIn hVisiting
    · cases h
      exact ⟨hIn, fun _ ha => ha, hSettled⟩
    · obtain ⟨below, hBelow, hDone⟩ := bind_eq_ok.mp h
      cases hDone
      have hFollowed : ∀ (follow settled below : List κ), (∀ a ∈ settled, Ends edges a) →
          follow.foldlM (visit edges fuel (visiting ++ [node])) settled = .ok below →
          (∀ b ∈ follow, b ∈ below) ∧ settled ⊆ below ∧ ∀ a ∈ below, Ends edges a := by
        intro follow
        induction follow with
        | nil =>
          intro settled below hSettled hRun
          cases hRun
          exact ⟨by simp, fun _ ha => ha, hSettled⟩
        | cons b rest ihRest =>
          intro settled below hSettled hRun
          obtain ⟨middle, hFirst, hRest⟩ := foldlM_cons_eq_ok.mp hRun
          obtain ⟨hMem, hSub, hEnds⟩ := ih hSettled hFirst
          obtain ⟨hAll, hSub', hEnds'⟩ := ihRest middle below hEnds hRest
          exact ⟨forall_mem_cons.mpr ⟨hSub' hMem, hAll⟩, Subset.trans hSub hSub', hEnds'⟩
      obtain ⟨hAll, hSub, hEnds⟩ := hFollowed (edges node) settled below hSettled hBelow
      refine ⟨mem_cons_self, fun a ha => mem_cons_of_mem _ (hSub ha), ?_⟩
      rintro a (_ | ⟨_, ha⟩)
      · exact .intro node fun b hb => hEnds b (hAll b hb)
      · exact hEnds a ha

variable {nodes visiting : List κ} {node : κ}

theorem search_ok {fuel : ℕ} {settled : List κ} (h : search edges fuel nodes = .ok settled) :
    ∀ a ∈ nodes, Ends edges a := by
  have hAll : ∀ (nodes settled settled' : List κ), (∀ a ∈ settled, Ends edges a) →
      nodes.foldlM (visit edges fuel []) settled = .ok settled' → ∀ a ∈ nodes, Ends edges a := by
    intro nodes
    induction nodes with
    | nil => simp
    | cons b rest ih =>
      intro settled settled' hSettled hRun
      obtain ⟨middle, hFirst, hRest⟩ := foldlM_cons_eq_ok.mp hRun
      obtain ⟨hMem, -, hEnds⟩ := visit_ok fuel hSettled hFirst
      exact forall_mem_cons.mpr ⟨hEnds b hMem, ih middle settled' hEnds hRest⟩
  exact hAll nodes [] settled (by simp) h

/-! ## What stops a visit is a cycle

The nodes being visited, followed by the node that comes next, are a way along the edges. -/

structure IsRing (edges : κ → List κ) (nodes : List κ) : Prop where
  nodup : nodes.Nodup
  linked : nodes.IsChain fun a b => b ∈ edges a
  closed : ∀ first ∈ nodes.head?, ∀ last ∈ nodes.getLast?, first ∈ edges last

omit [DecidableEq κ] in
theorem IsRing.reached_of_linked {first : κ} {rest : List κ}
    (h : (first :: rest).IsChain fun a b => b ∈ edges a) (a : κ) (ha : a ∈ rest) :
    Relation.TransGen (Edge edges) a first := by
  induction rest generalizing first with
  | nil => cases ha
  | cons next rest ih =>
    rw [isChain_cons_cons] at h
    rcases mem_cons.mp ha with rfl | ha
    · exact .single h.1
    · exact (ih h.2 ha).tail h.1

omit [DecidableEq κ] in
theorem IsRing.exists_cycle (h : IsRing edges nodes) (hSome : nodes ≠ []) :
    ∃ a, Relation.TransGen (Edge edges) a a := by
  obtain ⟨first, rest, rfl⟩ := exists_cons_of_ne_nil hSome
  have hLast : (first :: rest).getLast hSome ∈ (first :: rest).getLast? := by
    rw [getLast?_eq_some_getLast hSome]
    rfl
  have hClosing := h.closed first rfl _ hLast
  rcases mem_cons.mp (getLast_mem hSome) with hFirst | hRest
  · rw [hFirst] at hClosing
    exact ⟨first, .single hClosing⟩
  · exact ⟨first, .head hClosing (IsRing.reached_of_linked h.linked _ hRest)⟩

structure Way (edges : κ → List κ) (nodes visiting : List κ) (node : κ) : Prop where
  nodup : visiting.Nodup
  known : visiting ++ [node] ⊆ nodes
  linked : (visiting ++ [node]).IsChain fun a b => b ∈ edges a

omit [DecidableEq κ] in
theorem Way.start (h : node ∈ nodes) : Way edges nodes [] node where
  nodup := nodup_nil
  known := by simpa using h
  linked := by simp

omit [DecidableEq κ] in
theorem Way.extend {b : κ} (h : Way edges nodes visiting node)
    (hNew : node ∉ visiting) (hEdge : b ∈ edges node) (hKnown : b ∈ nodes) :
    Way edges nodes (visiting ++ [node]) b where
  nodup := by
    apply nodup_append.mpr
    refine ⟨h.nodup, nodup_singleton node, ?_⟩
    intro a ha c hc hSame
    rw [mem_singleton.mp hc] at hSame
    exact hNew (hSame ▸ ha)
  known := append_subset.mpr ⟨h.known, by simpa using hKnown⟩
  linked := by
    apply isChain_append.mpr
    refine ⟨h.linked, isChain_singleton b, ?_⟩
    simpa using hEdge

theorem Way.closes (h : Way edges nodes visiting node)
    (hBack : node ∈ visiting) : IsRing edges (visiting.drop (visiting.idxOf node)) where
  nodup := h.nodup.sublist (drop_sublist ..)
  linked := (isChain_append.mp h.linked).1.drop _
  closed := by
    have hIndex : visiting.idxOf node < visiting.length := idxOf_lt_length_iff.mpr hBack
    intro first hFirst last hLast
    rw [head?_drop, getElem?_idxOf hBack] at hFirst
    rw [getLast?_drop, if_neg (by omega)] at hLast
    have hClosing := (isChain_append.mp h.linked).2.2 last hLast node (by simp)
    cases hFirst
    exact hClosing

def IsMet (edges : κ → List κ) (nodes : List κ) (halt : Halt κ) : Prop :=
  ∃ ring, halt = .cycle ring ∧ ring ≠ [] ∧ ring ⊆ nodes ∧ IsRing edges ring

theorem visit_ring (hClosed : ∀ a ∈ nodes, edges a ⊆ nodes) (fuel : ℕ)
    {visiting settled : List κ} {node : κ} {halt : Halt κ} (hWay : Way edges nodes visiting node)
    (hFuel : nodes.length < fuel + visiting.length)
    (h : visit edges fuel visiting settled node = .error halt) : IsMet edges nodes halt := by
  induction fuel generalizing visiting settled node halt with
  | zero =>
    have hKnown : visiting ⊆ nodes := (append_subset.mp hWay.known).1
    have hFits := (subperm_of_subset hWay.nodup hKnown).length_le
    omega
  | succ fuel ih =>
    rw [visit] at h
    split_ifs at h with hIn hVisiting
    · cases h
      have hKnown : visiting ⊆ nodes := (append_subset.mp hWay.known).1
      have hIndex : visiting.idxOf node < visiting.length := idxOf_lt_length_iff.mpr hVisiting
      refine ⟨_, rfl, ?_, ?_, hWay.closes hVisiting⟩
      · simpa using hIndex
      · exact Subset.trans (drop_subset ..) hKnown
    · rcases bind_eq_error.mp h with hBelow | ⟨_, -, hDone⟩
      · apply foldlM_error (fun _ => True) (IsMet edges nodes)
          (fun _ _ _ _ _ _ => trivial) ?_ trivial hBelow
        intro settled b halt hb _ hStop
        have hNode : node ∈ nodes := hWay.known (by simp)
        apply ih (hWay.extend hVisiting hb (hClosed node hNode hb)) ?_ hStop
        rw [length_append, length_singleton]
        omega
      · cases hDone

section

variable (hClosed : ∀ a ∈ nodes, edges a ⊆ nodes) {fuel : ℕ} {halt : Halt κ} (hFuel : nodes.length < fuel)
  (h : search edges fuel nodes = .error halt)
include hClosed hFuel h

theorem search_ring : IsMet edges nodes halt := by
  apply foldlM_error (fun _ => True) (IsMet edges nodes) (fun _ _ _ _ _ _ => trivial) ?_
    trivial h
  intro settled node halt hNode _ hStop
  exact visit_ring hClosed fuel (.start hNode) (by simpa using hFuel) hStop

theorem search_error : (∃ cycle, halt = .cycle cycle) ∧ ∃ a, Relation.TransGen (Edge edges) a a := by
  obtain ⟨ring, hHalt, hSome, -, hRing⟩ := search_ring hClosed hFuel h
  exact ⟨⟨ring, hHalt⟩, hRing.exists_cycle hSome⟩

end

theorem search_returns_iff (hClosed : ∀ a ∈ nodes, edges a ⊆ nodes)
    (hNone : ∀ a ∉ nodes, edges a = []) (fuel : ℕ) (hFuel : nodes.length < fuel) :
    (∃ settled, search edges fuel nodes = .ok settled) ↔ ∀ a, Ends edges a := by
  constructor
  · rintro ⟨settled, h⟩ a
    by_cases ha : a ∈ nodes
    · exact search_ok h a ha
    · refine .intro a fun b hb => ?_
      rw [Edge, hNone a ha] at hb
      cases hb
  · intro hEnds
    cases hSearch : search edges fuel nodes with
    | ok settled => exact ⟨settled, rfl⟩
    | error halt =>
      obtain ⟨_, a, hCycle⟩ := search_error hClosed hFuel hSearch
      exact absurd hCycle (hEnds a).not_cycle

end Cycles
