import Mathlib.Data.List.Pairwise
import Mathlib.Data.List.TakeWhile
import Mathlib.Order.Lattice
import Mathlib.Tactic.Tauto

/-! # Sets of integers as sorted intervals

Closed intervals in order, no two of which touch. Places in such a list are found by bisection, so
a place is the number of intervals that come before it. -/

namespace Intervals

open List

abbrev Interval := ℤ × ℤ

def less (a b : Interval) : Bool := a.1 < b.1 || (a.1 = b.1 && a.2 < b.2)

section

variable (intervals : List Interval)

def Covers (x : ℤ) : Prop := ∃ i ∈ intervals, i.1 ≤ x ∧ x ≤ i.2

structure Separated (intervals : List Interval) : Prop where
  apart : intervals.Pairwise fun a b => a.2 + 1 < b.1
  filled : ∀ i ∈ intervals, i.1 ≤ i.2

/-- Whether the last interval that does not come behind the probe holds its position. -/
def contains (probe : Interval) : Bool :=
  match (intervals.takeWhile fun i => !less probe i).getLast? with
  | some i => i.1 ≤ probe.1 && probe.1 ≤ i.2
  | none => false

def absorb (start stop : ℤ) : List Interval → List Interval
  | [] => [(start, stop)]
  | i :: rest =>
    if i.1 ≤ stop + 1 then absorb (min start i.1) (max stop i.2) rest else (start, stop) :: i :: rest

/-- Add an interval, merged with the one before its place where they touch. -/
def add (start stop : ℤ) : List Interval :=
  let before := intervals.takeWhile (less · (start, -1))
  let after := intervals.dropWhile (less · (start, -1))
  match before.getLast? with
  | some i =>
    if start ≤ i.2 + 1 then before.dropLast ++ absorb (min start i.1) (max stop i.2) after
    else before ++ absorb start stop after
  | none => absorb start stop after

end

variable {i : Interval} {x : ℤ} {after front : List Interval}

theorem covers_cons {rest : List Interval} : Covers (i :: rest) x ↔ i.1 ≤ x ∧ x ≤ i.2 ∨ Covers rest x := by
  simp [Covers]

theorem covers_append {l m : List Interval} : Covers (l ++ m) x ↔ Covers l x ∨ Covers m x := by
  simp only [Covers, mem_append, or_and_right, exists_or]

theorem Separated.tail {i : Interval} {rest : List Interval} (h : Separated (i :: rest))
    : Separated rest where
  apart := (pairwise_cons.mp h.apart).2
  filled := fun j hj => h.filled j (mem_cons_of_mem _ hj)

theorem covers_absorb {start stop : ℤ} (h : Separated after)
    (hFilled : start ≤ stop) (hBehind : ∀ i ∈ after, start ≤ i.1) {x : ℤ} :
    Covers (absorb start stop after) x ↔ start ≤ x ∧ x ≤ stop ∨ Covers after x := by
  induction after generalizing start stop with
  | nil => simp [absorb, Covers]
  | cons i rest ih =>
    rw [absorb]
    split_ifs with hTouch
    · have hFirst := hBehind i mem_cons_self
      have hIn := h.filled i mem_cons_self
      rw [ih h.tail (by omega) (fun j hj => by
        have hj' := hBehind j (mem_cons_of_mem _ hj)
        omega), covers_cons, ← or_assoc]
      apply or_congr_left
      omega
    · rw [covers_cons]

theorem separated_absorb {start stop : ℤ} (h : Separated after)
    (hFilled : start ≤ stop) : Separated (absorb start stop after) := by
  induction after generalizing start stop with
  | nil => exact ⟨by simp [absorb], by simpa [absorb] using hFilled⟩
  | cons i rest ih =>
    rw [absorb]
    split_ifs with hTouch
    · have hIn := h.filled i mem_cons_self
      exact ih h.tail (by omega)
    · refine ⟨pairwise_cons.mpr ⟨?_, h.apart⟩, ?_⟩
      · intro j hj
        have hIn := h.filled i mem_cons_self
        rcases mem_cons.mp hj with rfl | hRest
        · omega
        · have hApart := (pairwise_cons.mp h.apart).1 j hRest
          omega
      · intro j hj
        rcases mem_cons.mp hj with rfl | hOld
        · exact hFilled
        · exact h.filled j hOld

theorem start_le_of_mem_absorb {start stop : ℤ} {low : ℤ} (hStart : low ≤ start)
    (hAfter : ∀ i ∈ after, low ≤ i.1) : ∀ i ∈ absorb start stop after, low ≤ i.1 := by
  induction after generalizing start stop with
  | nil => simpa [absorb] using hStart
  | cons i rest ih =>
    rw [forall_mem_cons] at hAfter
    rw [absorb]
    split_ifs
    · exact ih (by omega) hAfter.2
    · intro j hj
      rcases mem_cons.mp hj with rfl | hOld
      · exact hStart
      · rcases mem_cons.mp hOld with rfl | hRest
        · exact hAfter.1
        · exact hAfter.2 j hRest

theorem splice (start stop : ℤ) (hFront : Separated front)
    (hAfter : Separated after) (hFilled : start ≤ stop) (hApart : ∀ i ∈ front, i.2 + 1 < start)
    (hBehind : ∀ i ∈ after, start ≤ i.1) :
    Separated (front ++ absorb start stop after) ∧ ∀ x, Covers (front ++ absorb start stop after) x ↔
        Covers front x ∨ (start ≤ x ∧ x ≤ stop) ∨ Covers after x := by
  have hAbsorbed := separated_absorb hAfter hFilled
  refine ⟨⟨pairwise_append.mpr ⟨hFront.apart, hAbsorbed.apart, ?_⟩, ?_⟩, fun x => ?_⟩
  · intro i hi j hj
    have hStart := start_le_of_mem_absorb le_rfl hBehind j hj
    have hGap := hApart i hi
    omega
  · intro i hi
    rcases mem_append.mp hi with hOld | hNew
    · exact hFront.filled i hOld
    · exact hAbsorbed.filled i hNew
  · rw [covers_append, covers_absorb hAfter hFilled hBehind]

theorem Separated.append (h : Separated (front ++ after)) :
    Separated front ∧ Separated after ∧ ∀ i ∈ front, ∀ j ∈ after, i.2 + 1 < j.1 := by
  obtain ⟨hFront, hAfter, hApart⟩ := pairwise_append.mp h.apart
  exact ⟨⟨hFront, fun i hi => h.filled i (mem_append_left _ hi)⟩,
    ⟨hAfter, fun i hi => h.filled i (mem_append_right _ hi)⟩, hApart⟩

/-- An interval holds the position of a probe, but for one that comes behind the probe. -/
theorem contains_iff {intervals : List Interval} {probe : Interval} (h : Separated intervals) :
    contains intervals probe = true ↔ ∃ i ∈ intervals, (i.1 ≤ probe.1 ∧ probe.1 ≤ i.2) ∧ less probe i = false := by
  constructor
  · intro hContains
    unfold contains at hContains
    split at hContains
    · rename_i i hLast
      have hIn := mem_of_getLast? hLast
      simp only [Bool.and_eq_true, decide_eq_true_eq] at hContains
      exact ⟨i, (List.takeWhile_prefix _).subset hIn, hContains, by simpa using mem_takeWhile_imp hIn⟩
    · cases hContains
  · rintro ⟨i, hi, hHolds, hProbe⟩
    obtain ⟨front, after, rfl⟩ := append_of_mem hi
    have hOrder := pairwise_append.mp h.apart
    have hFront : ∀ j ∈ front, (!less probe j) = true := by
      intro j hj
      have hGap := hOrder.2.2 j hj i mem_cons_self
      have hFilled := h.filled j (mem_append_left _ hj)
      simp only [less, Bool.not_eq_true', Bool.or_eq_false_iff, Bool.and_eq_false_iff, decide_eq_false_iff_not]
      omega
    have hBehind : after.takeWhile (fun j => !less probe j) = [] := by
      refine takeWhile_eq_nil_iff.mpr fun hSome => ?_
      have hGap := (pairwise_cons.mp hOrder.2.1).1 _ (get_mem after ⟨0, hSome⟩)
      simp only [less, Bool.not_eq_true', Bool.or_eq_false_iff, decide_eq_false_iff_not, get_eq_getElem] at hGap ⊢
      omega
    rw [contains, takeWhile_append_of_pos hFront, takeWhile_cons_of_pos (by simp [hProbe]), hBehind, getLast?_concat]
    simpa using hHolds

section Add

variable {intervals : List Interval} {start stop : ℤ}

theorem place_spec (start : ℤ) (h : Separated intervals) :
    (∀ i ∈ intervals.takeWhile (less · (start, -1)), i.1 ≤ start) ∧
      ∀ i ∈ intervals.dropWhile (less · (start, -1)), start ≤ i.1 := by
  constructor
  · intro i hi
    have hLess := mem_takeWhile_imp hi
    simp only [less, Bool.or_eq_true, Bool.and_eq_true, decide_eq_true_eq] at hLess
    omega
  · intro i hi
    have hAfter : Separated (intervals.dropWhile (less · (start, -1))) :=
      ⟨h.apart.sublist (dropWhile_sublist _), fun j hj => h.filled j ((dropWhile_suffix _).subset
        hj)⟩
    cases hDrop : intervals.dropWhile (less · (start, -1)) with
    | nil =>
      rw [hDrop] at hi
      cases hi
    | cons first rest =>
      rw [hDrop] at hi hAfter
      have hFirst : start ≤ first.1 := by
        have hHead := head?_dropWhile_not (less · (start, -1)) intervals
        simp only [hDrop, head?_cons] at hHead
        simp only [less, Bool.or_eq_false_iff, decide_eq_false_iff_not] at hHead
        omega
      rcases mem_cons.mp hi with rfl | hRest
      · exact hFirst
      · have hApart := (pairwise_cons.mp hAfter.apart).1 i hRest
        have hFilled := hAfter.filled first mem_cons_self
        omega

theorem add_spec (h : Separated intervals) (hFilled : start ≤ stop) : Separated (add intervals start stop) ∧
      ∀ x, Covers (add intervals start stop) x ↔ Covers intervals x ∨ start ≤ x ∧ x ≤ stop := by
  obtain ⟨hBefore, hBehind⟩ := place_spec start h
  have hSplit : intervals.takeWhile (less · (start, -1)) ++ intervals.dropWhile (less · (start, -1)) =
      intervals := takeWhile_append_dropWhile
  rw [add]
  generalize intervals.takeWhile (less · (start, -1)) = before at hBefore hSplit
  generalize intervals.dropWhile (less · (start, -1)) = after at hBehind hSplit
  rw [← hSplit] at h ⊢
  obtain ⟨hFront, hAfter, hApart⟩ := h.append
  rcases eq_nil_or_concat before with rfl | ⟨front, last, rfl⟩
  · obtain ⟨hSeparated, hCovers⟩ := splice start stop hFront hAfter hFilled (by simp) hBehind
    refine ⟨hSeparated, fun x => ?_⟩
    have hAdded := hCovers x
    have hNone : ¬Covers [] x := by simp [Covers]
    rw [nil_append] at hAdded ⊢
    change Covers (absorb start stop after) x ↔ _
    tauto
  · rw [concat_eq_append] at *
    rw [getLast?_concat]
    dsimp only
    obtain ⟨hEarlier, hLast, hGap⟩ := hFront.append
    have hLastFilled : last.1 ≤ last.2 := hFront.filled last (by simp)
    have hLastStart : last.1 ≤ start := hBefore last (by simp)
    have hLastBehind : ∀ i ∈ after, last.1 ≤ i.1 := by
      intro i hi
      have hi' := hBehind i hi
      omega
    split_ifs with hTouch
    · have hMerged : min start last.1 = last.1 := min_eq_right (by omega)
      rw [dropLast_concat, hMerged]
      obtain ⟨hSeparated, hCovers⟩ := splice last.1 (max stop last.2) hEarlier hAfter
        (by omega) (fun i hi => hGap i hi last (by simp)) hLastBehind
      refine ⟨hSeparated, fun x => ?_⟩
      have hUnion : last.1 ≤ x ∧ x ≤ max stop last.2 ↔ (last.1 ≤ x ∧ x ≤ last.2) ∨ start ≤ x ∧ x ≤ stop := by
        omega
      rw [hCovers x, hUnion, covers_append, covers_append, covers_cons]
      have hNone : ¬Covers [] x := by simp [Covers]
      tauto
    · obtain ⟨hSeparated, hCovers⟩ := splice start stop hFront hAfter hFilled (fun i hi => by
        rcases mem_append.mp hi with hOld | hNew
        · have hOldGap := hGap i hOld last (by simp)
          omega
        · rw [mem_singleton.mp hNew]
          omega) hBehind
      refine ⟨hSeparated, fun x => ?_⟩
      rw [hCovers x, covers_append, covers_append, covers_append]
      tauto

end Add

end Intervals
