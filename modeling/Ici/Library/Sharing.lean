import Mathlib.Data.Set.Finite.List

/-! # Folding nodes of a dependency graph

Nodes with one key are folded into a single node that waits for everything any of them needs from
outside. A node runs when what it needs ran and went well. Folding changes who runs exactly where
two folded nodes would not have run alike; `exempt` keys are those where it makes no difference
whether they run. -/

namespace Sharing

universe u v

variable {α : Type u} {κ : Type v} {nodes : Set α} {needs : α → α → Prop} {key : α → κ}
  {good exempt : κ → Prop} {own shared : α → Prop}

def Runs (needs : α → α → Prop) (key : α → κ) (good : κ → Prop) (p : α) : Prop :=
  ∀ q, Relation.TransGen needs p q → good (key q)

section

variable (nodes : Set α) (needs : α → α → Prop) (key : α → κ)

def IsOwn (good : κ → Prop) (own : α → Prop) : Prop :=
  ∀ p ∈ nodes, own p ↔ ∀ q, needs p q → own q ∧ good (key q)

def IsShared (good : κ → Prop) (shared : α → Prop) : Prop :=
  ∀ p ∈ nodes, shared p ↔ ∀ p' ∈ nodes, key p' = key p → ∀ q, needs p' q → key q ≠ key p →
    shared q ∧ good (key q)

def FoldedNeeds (k k' : κ) : Prop :=
  k ≠ k' ∧ ∃ p ∈ nodes, ∃ q, needs p q ∧ key p = k ∧ key q = k'

end

theorem wellFounded_of_acyclic (listed : List α) (hClosed : ∀ p ∈ listed, ∀ q, needs p q → q ∈ listed)
    (hAcyclic : ∀ p ∈ listed, ¬Relation.TransGen needs p p) :
    WellFounded fun q p => p ∈ listed ∧ needs p q := by
  let below (q p : {p // p ∈ listed}) : Prop := Relation.TransGen needs p.val q.val
  have hFinite : Finite {p // p ∈ listed} := listed.finite_toSet
  have hTrans : IsTrans _ below := ⟨fun _ _ _ h h' => h'.trans h⟩
  have hIrrefl : Std.Irrefl below := ⟨fun p => hAcyclic p.val p.property⟩
  have hWf : WellFounded below := Finite.wellFounded_of_trans_of_irrefl below
  have hAcc (p : {p // p ∈ listed}) : Acc (fun q p => p ∈ listed ∧ needs p q) p.val := by
    induction p using hWf.induction with
    | _ p ih =>
      refine ⟨_, ?_⟩
      rintro q ⟨hp, hq⟩
      exact ih ⟨q, hClosed p.val hp q hq⟩ (.single hq)
  refine ⟨fun p => ⟨_, ?_⟩⟩
  rintro q ⟨hp, hq⟩
  exact hAcc ⟨q, hClosed p hp q hq⟩

theorem acyclic_of_rank (rank : α → ℕ) (hClosed : ∀ p ∈ nodes, ∀ q, needs p q → q ∈ nodes)
    (hRank : ∀ p ∈ nodes, ∀ q, needs p q → rank q < rank p) :
    ∀ p ∈ nodes, ¬Relation.TransGen needs p p := by
  have hDrop {p q : α} (h : Relation.TransGen needs p q) (hp : p ∈ nodes) : rank q < rank p := by
    induction h using Relation.TransGen.head_induction_on with
    | single hStep => exact hRank _ hp _ hStep
    | head hStep _ ih => exact (ih (hClosed _ hp _ hStep)).trans (hRank _ hp _ hStep)
  intro p hp h
  exact lt_irrefl _ (hDrop h hp)

section

variable (hClosed : ∀ p ∈ nodes, ∀ q, needs p q → q ∈ nodes)
  (hOwnWf : WellFounded fun q p => p ∈ nodes ∧ needs p q)

include hClosed hOwnWf

theorem own_iff_runs (hOwn : IsOwn nodes needs key good own) {p : α} (hp : p ∈ nodes) :
    own p ↔ Runs needs key good p := by
  constructor
  · intro h q hq
    induction hq using Relation.TransGen.head_induction_on with
    | single hStep => exact ((hOwn _ hp).mp h _ hStep).2
    | head hStep _ ih => exact ih (hClosed _ hp _ hStep) ((hOwn _ hp).mp h _ hStep).1
  · induction p using hOwnWf.induction with
    | _ p ih =>
      intro hRuns
      apply (hOwn p hp).mpr
      intro q hq
      refine ⟨ih q ⟨hp, hq⟩ (hClosed p hp q hq) ?_, hRuns q (.single hq)⟩
      intro r hr
      exact hRuns r (.head hq hr)

section

variable (hOwn : IsOwn nodes needs key good own) (hShared : IsShared nodes needs key good shared)
include hOwn hShared

theorem shared_iff_own_step {p : α} (hp : p ∈ nodes)
    (hAlike : ∀ p' ∈ nodes, key p' = key p → (own p' ↔ own p))
    (hBelow : ∀ q ∈ nodes, FoldedNeeds nodes needs key (key p) (key q) →
      (shared q ∧ good (key q) ↔ own q ∧ good (key q))) :
    shared p ↔ own p := by
  constructor
  · intro h
    obtain ⟨first, ⟨hFirst, hKey⟩, hMin⟩ :=
      hOwnWf.has_min {p' | p' ∈ nodes ∧ key p' = key p} ⟨p, hp, rfl⟩
    apply (hAlike first hFirst hKey).mp
    apply (hOwn first hFirst).mpr
    intro q hq
    have hMem := hClosed first hFirst q hq
    have hOut : key q ≠ key p := fun hIn => hMin q ⟨hMem, hIn⟩ ⟨hFirst, hq⟩
    exact (hBelow q hMem ⟨hOut.symm, first, hFirst, q, hq, hKey, rfl⟩).mp
      ((hShared p hp).mp h first hFirst hKey q hq hOut)
  · intro h
    apply (hShared p hp).mpr
    intro p' hp' hKey q hq hOut
    have hMem := hClosed p' hp' q hq
    exact (hBelow q hMem ⟨hOut.symm, p', hp', q, hq, hKey, rfl⟩).mpr
      ((hOwn p' hp').mp ((hAlike p' hp' hKey).mpr h) q hq)

theorem transparent_iff (hSharedWf : WellFounded fun k' k => FoldedNeeds nodes needs key k k')
    (hExempt : ∀ k, exempt k → ¬good k) :
    (∀ p ∈ nodes, exempt (key p) ∨ (shared p ↔ own p)) ↔ ∀ p ∈ nodes, ∀ q ∈ nodes, key p = key q →
        exempt (key p) ∨ (Runs needs key good p ↔ Runs needs key good q) := by
  have hRuns {p : α} (hp : p ∈ nodes) := own_iff_runs hClosed hOwnWf hOwn hp
  constructor
  · intro h p hp q hq hKey
    rcases h p hp with hFree | hSame
    · exact .inl hFree
    rcases h q hq with hFree | hSame'
    · exact .inl (hKey ▸ hFree)
    · right
      have hOne : shared p ↔ shared q := by
        rw [hShared p hp, hShared q hq, hKey]
      rw [← hRuns hp, ← hRuns hq, ← hSame, ← hSame', hOne]
  · intro h p hp
    -- by induction along the folded graph
    generalize hk : key p = k
    induction k using hSharedWf.induction generalizing p with
    | _ k ih =>
      subst hk
      by_cases hFree : exempt (key p)
      · exact .inl hFree
      right
      refine shared_iff_own_step hClosed hOwnWf hOwn hShared hp ?_ ?_
      · intro p' hp' hKey
        rw [hRuns hp', hRuns hp]
        exact (h p' hp' p hp hKey).resolve_left (hKey ▸ hFree)
      · intro q hq hNeeds
        rcases ih (key q) hNeeds q hq rfl with hFree' | hSame
        · have hBad := hExempt _ hFree'
          exact iff_of_false (fun hBoth => hBad hBoth.2) (fun hBoth => hBad hBoth.2)
        · rw [hSame]

end

end

end Sharing
