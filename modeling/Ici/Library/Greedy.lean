import Mathlib.Algebra.Order.BigOperators.Group.List
import Mathlib.Algebra.Order.Group.Nat
import Mathlib.Data.List.Sort

/-! # Greedy selection by rank

Items are gone through from the highest rank down, those of one rank in the order they stand in, and
an item is kept where it conflicts with none that was kept before it. -/

namespace Greedy

open List

universe u v

/-! ## Sorting and filtering -/

section Sorting

variable {α : Type u} {r : α → α → Prop} [DecidableRel r] {p : α → Bool}

theorem filter_orderedInsert_of_neg {a : α} (ha : ¬p a) (l : List α) :
    (l.orderedInsert r a).filter p = l.filter p := by
  induction l with
  | nil => simp [ha]
  | cons b rest ih =>
    rw [orderedInsert_cons]
    split
    · rw [filter_cons_of_neg ha]
    · rw [filter_cons, filter_cons, ih]

theorem filter_orderedInsert_of_pos [IsTrans α r] {a : α} (ha : p a) {l : List α} (h : l.Pairwise r) :
    (l.orderedInsert r a).filter p = (l.filter p).orderedInsert r a := by
  induction l with
  | nil => simp [ha]
  | cons b rest ih =>
    obtain ⟨hBehind, hRest⟩ := pairwise_cons.mp h
    rw [orderedInsert_cons]
    split
    · rename_i hFirst
      rw [filter_cons_of_pos ha]
      cases hFilter : (b :: rest).filter p with
      | nil => rfl
      | cons c kept =>
        have hc : c ∈ b :: rest := mem_of_mem_filter (hFilter ▸ mem_cons_self)
        have hBefore : r a c := by
          rcases mem_cons.mp hc with rfl | hLater
          · exact hFirst
          · exact IsTrans.trans _ _ _ hFirst (hBehind c hLater)
        rw [orderedInsert_cons, if_pos hBefore]
    · rename_i hLater
      by_cases hb : p b
      · rw [filter_cons_of_pos hb, filter_cons_of_pos hb, ih hRest, orderedInsert_cons, if_neg hLater]
      · rw [filter_cons_of_neg hb, filter_cons_of_neg hb, ih hRest]

theorem filter_insertionSort [IsTrans α r] [Std.Total r] (l : List α) :
    (l.insertionSort r).filter p = (l.filter p).insertionSort r := by
  induction l with
  | nil => rfl
  | cons a rest ih =>
    rw [insertionSort_cons]
    by_cases ha : p a
    · rw [filter_orderedInsert_of_pos ha (pairwise_insertionSort r rest), ih, filter_cons_of_pos ha,
      insertionSort_cons]
    · rw [filter_orderedInsert_of_neg ha, ih, filter_cons_of_neg ha]

end Sorting

section Selection

variable {α : Type u} (rank : α → ℕ) (conflict : α → α → Bool)

def byRank (l : List α) : List α := l.insertionSort fun a b => rank b ≤ rank a

def keep (kept : List α) (a : α) : List α := if kept.any (conflict a) then kept else kept ++ [a]

def select (l : List α) : List α := (byRank rank l).foldl (keep conflict) []

variable {rank conflict} {l kept : List α} {a b : α}

instance rankTrans : IsTrans α fun a b => rank b ≤ rank a := ⟨fun _ _ _ hFirst hSecond => hSecond.trans hFirst⟩

instance rankTotal : Std.Total fun a b : α => rank b ≤ rank a := ⟨fun a b => Nat.le_total (rank b) (rank a)⟩

/-! ## What is kept -/

theorem keep_extends (kept : List α) (a : α) : kept <+: keep conflict kept a := by
  unfold keep
  split
  · exact prefix_rfl
  · exact prefix_append _ _

theorem keep_foldl_extends (l kept : List α) : kept <+: l.foldl (keep conflict) kept := by
  induction l generalizing kept with
  | nil => exact prefix_rfl
  | cons a rest ih => exact (keep_extends kept a).trans (ih _)

theorem foldl_keep_spec (conflict : α → α → Bool) (l : List α)
    (h : kept.Pairwise fun b a => conflict a b = false) :
    ∃ added, l.foldl (keep conflict) kept = kept ++ added ∧ added.Sublist l ∧
      (kept ++ added).Pairwise fun b a => conflict a b = false := by
  induction l generalizing kept with
  | nil => exact ⟨[], by simp, .refl _, by simpa using h⟩
  | cons a rest ih =>
    rw [foldl_cons, keep]
    split
    · obtain ⟨added, hFold, hSublist, hApart⟩ := ih h
      exact ⟨added, hFold, hSublist.cons a, hApart⟩
    · rename_i hFree
      have hNone : ∀ b ∈ kept, conflict a b = false := by simpa using hFree
      have hNext : (kept ++ [a]).Pairwise fun b a => conflict a b = false := by
        rw [pairwise_append]
        refine ⟨h, by simp, fun b hb c hc => ?_⟩
        obtain rfl := mem_singleton.mp hc
        exact hNone b hb
      obtain ⟨added, hFold, hSublist, hApart⟩ := ih hNext
      refine ⟨a :: added, ?_, hSublist.cons_cons a, ?_⟩
      · rw [hFold, append_assoc, singleton_append]
      · rwa [append_assoc, singleton_append] at hApart

theorem exists_conflict (hSorted : l.Pairwise fun a b => rank b ≤ rank a)
    (hBefore : ∀ a ∈ l, ∀ b ∈ kept, rank a ≤ rank b) (ha : a ∈ l)
    (hDropped : a ∉ l.foldl (keep conflict) kept) :
    ∃ b ∈ l.foldl (keep conflict) kept, rank a ≤ rank b ∧ conflict a b := by
  induction l generalizing kept with
  | nil => cases ha
  | cons c rest ih =>
    obtain ⟨hBehind, hRest⟩ := pairwise_cons.mp hSorted
    rw [foldl_cons] at hDropped ⊢
    by_cases hConflict : kept.any (conflict c)
    · have hKeep : keep conflict kept c = kept := if_pos hConflict
      rw [hKeep] at hDropped ⊢
      rcases mem_cons.mp ha with rfl | hLater
      · obtain ⟨b, hb, hWith⟩ := any_eq_true.mp hConflict
        exact ⟨b, (keep_foldl_extends rest kept).subset hb, hBefore _ mem_cons_self b hb, hWith⟩
      · exact ih hRest (fun a ha => hBefore a (mem_cons_of_mem _ ha)) hLater hDropped
    · have hKeep : keep conflict kept c = kept ++ [c] := if_neg hConflict
      rw [hKeep] at hDropped ⊢
      rcases mem_cons.mp ha with rfl | hLater
      · exact absurd ((keep_foldl_extends rest _).subset (mem_append_right _ (mem_singleton_self _)))
          hDropped
      · apply ih hRest _ hLater hDropped
        intro a ha b hb
        rcases mem_append.mp hb with hOld | hNew
        · exact hBefore a (mem_cons_of_mem _ ha) b hOld
        · rw [mem_singleton.mp hNew]
          exact hBehind a ha

theorem mem_of_mem_select (h : a ∈ select rank conflict l) : a ∈ l := by
  obtain ⟨added, hFold, hSublist, -⟩ := foldl_keep_spec conflict (byRank rank l) .nil
  rw [select, hFold, nil_append] at h
  exact (mem_insertionSort _).mp (hSublist.subset h)

def TieFree (rank : α → ℕ) (conflict : α → α → Bool) (l : List α) : Prop :=
  ∀ a ∈ l, ∀ b ∈ l, a ≠ b → rank a = rank b → conflict a b = false

theorem mem_select_iff (hTies : TieFree rank conflict l) : a ∈ select rank conflict l ↔
      a ∈ l ∧ ∀ b ∈ select rank conflict l, rank a < rank b → conflict a b = false := by
  have hSorted : (byRank rank l).Pairwise fun a b => rank b ≤ rank a := pairwise_insertionSort _ l
  constructor
  · intro ha
    refine ⟨mem_of_mem_select ha, fun b hb hHigher => ?_⟩
    obtain ⟨added, hFold, hSublist, hApart⟩ := foldl_keep_spec conflict (byRank rank l) .nil
    rw [select, hFold] at ha hb
    have hDown := hSorted.sublist hSublist
    rw [nil_append] at ha hb hApart
    obtain ⟨i, hi, rfl⟩ := getElem_of_mem ha
    obtain ⟨j, hj, rfl⟩ := getElem_of_mem hb
    rcases Nat.lt_trichotomy i j with hLess | rfl | hMore
    · have hRank := pairwise_iff_getElem.mp hDown i j hi hj hLess
      omega
    · omega
    · exact pairwise_iff_getElem.mp hApart j i hj hi hMore
  · rintro ⟨ha, hFree⟩
    by_contra hDropped
    obtain ⟨b, hb, hRank, hConflict⟩ := exists_conflict hSorted (by simp)
      ((mem_insertionSort _).mpr ha) hDropped
    change b ∈ select rank conflict l at hb
    have hNone : conflict a b = false := by
      rcases Nat.lt_or_eq_of_le hRank with hHigher | hSame
      · exact hFree b hb hHigher
      · apply hTies a ha b (mem_of_mem_select hb) _ hSame
        rintro rfl
        exact hDropped hb
    rw [hNone] at hConflict
    cases hConflict

theorem filter_select {p : α → Bool} (h : ∀ a b, conflict a b → p a = p b) (l : List α) :
    (select rank conflict l).filter p = select rank conflict (l.filter p) := by
  have hFold : ∀ l kept : List α, (l.foldl (keep conflict) kept).filter p =
      (l.filter p).foldl (keep conflict) (kept.filter p) := by
    intro l
    induction l with
    | nil => exact fun kept => rfl
    | cons a rest ih =>
      intro kept
      rw [foldl_cons, ih]
      by_cases ha : p a
      · have hAny : (kept.filter p).any (conflict a) = kept.any (conflict a) := by
          rw [any_filter]
          congr 1
          funext b
          by_cases hConflict : conflict a b
          · rw [hConflict, Bool.and_true, ← h a b hConflict, ha]
          · simp [hConflict]
        rw [filter_cons_of_pos ha, foldl_cons, keep, keep, hAny]
        split
        · rfl
        · rw [filter_append, filter_cons_of_pos ha, filter_nil]
      · rw [filter_cons_of_neg ha, keep]
        split
        · rfl
        · rw [filter_append, filter_cons_of_neg ha, filter_nil, append_nil]
  rw [select, select, hFold, byRank, byRank, filter_insertionSort]
  rfl

section Image

variable {β : Type v} {rank' : β → ℕ} {conflict' : β → β → Bool} {l' : List β} {f : α → β}

theorem map_select (hRank : ∀ a ∈ l, rank' (f a) = rank a)
    (hConflict : ∀ a ∈ l, ∀ b ∈ l, conflict' (f a) (f b) = conflict a b) :
    (select rank conflict l).map f = select rank' conflict' (l.map f) := by
  have hFold : ∀ s kept : List α, (∀ a ∈ s, a ∈ l) → (∀ a ∈ kept, a ∈ l) →
      (s.foldl (keep conflict) kept).map f = (s.map f).foldl (keep conflict') (kept.map f) := by
    intro s
    induction s with
    | nil => exact fun kept _ _ => rfl
    | cons a rest ih =>
      intro kept hs hKept
      rw [forall_mem_cons] at hs
      rw [foldl_cons, map_cons, foldl_cons]
      have hAny : (kept.map f).any (conflict' (f a)) = kept.any (conflict a) := by
        rw [any_map, Bool.eq_iff_iff, any_eq_true, any_eq_true]
        apply exists_congr
        intro b
        apply and_congr_right
        intro hb
        rw [Function.comp_apply, hConflict a hs.1 b (hKept b hb)]
      rw [keep, keep, hAny]
      split
      · exact ih kept hs.2 hKept
      · rw [ih _ hs.2 (by simpa [or_imp, forall_and] using ⟨hKept, hs.1⟩), map_append]
        rfl
  have hSort : (byRank rank l).map f = byRank rank' (l.map f) := by
    apply map_insertionSort
    intro a ha b hb
    rw [hRank a ha, hRank b hb]
  rw [select, hFold (byRank rank l) [] (fun a ha => (mem_insertionSort _).mp ha) (by simp), hSort]
  rfl

theorem mem_select_image (hTies : TieFree rank conflict l) (hImage : ∀ b, b ∈ l' ↔ ∃ a ∈ l, f a = b)
    (hRank : ∀ a ∈ l, rank' (f a) = rank a)
    (hConflict : ∀ a ∈ l, ∀ b ∈ l, conflict' (f a) (f b) = conflict a b) (ha : a ∈ l) :
    a ∈ select rank conflict l ↔ f a ∈ select rank' conflict' l' := by
  have hTies' : TieFree rank' conflict' l' := by
    intro x hx y hy hDifferent hSame
    obtain ⟨a, ha, rfl⟩ := (hImage x).mp hx
    obtain ⟨b, hb, rfl⟩ := (hImage y).mp hy
    rw [hRank a ha, hRank b hb] at hSame
    rw [hConflict a ha b hb]
    exact hTies a ha b hb (fun h => hDifferent (congrArg f h)) hSame
  obtain ⟨top, hTop⟩ : ∃ top, ∀ a ∈ l, rank a ≤ top :=
    ⟨(l.map rank).sum, fun a ha => le_sum_of_mem (mem_map_of_mem ha)⟩
  -- the induction goes down the ranks
  induction hBelow : top - rank a using Nat.strong_induction_on generalizing a with
  | _ n ih =>
    subst hBelow
    have hHigher : ∀ b ∈ l, rank a < rank b →
        (b ∈ select rank conflict l ↔ f b ∈ select rank' conflict' l') := by
      intro b hb hLess
      have hbTop := hTop b hb
      exact ih _ (by omega) hb rfl
    rw [mem_select_iff hTies, mem_select_iff hTies', and_iff_right ha,
      and_iff_right ((hImage _).mpr ⟨a, ha, rfl⟩)]
    constructor
    · intro hFree x hx hLess
      obtain ⟨b, hb, rfl⟩ := (hImage x).mp (mem_of_mem_select hx)
      rw [hRank a ha, hRank b hb] at hLess
      rw [hConflict a ha b hb]
      exact hFree b ((hHigher b hb hLess).mpr hx) hLess
    · intro hFree b hb hLess
      have hbMem := mem_of_mem_select hb
      rw [← hConflict a ha b hbMem]
      apply hFree (f b) ((hHigher b hbMem hLess).mp hb)
      rwa [hRank a ha, hRank b hbMem]

end Image

end Selection

end Greedy
