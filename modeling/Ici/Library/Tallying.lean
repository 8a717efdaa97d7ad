import Mathlib.Algebra.BigOperators.Group.Finset.Piecewise
import Mathlib.Algebra.GroupWithZero.Nat
import Mathlib.Algebra.Order.BigOperators.Group.Finset
import Ici.Library.Marking

/-! # Keeping the first of every kind -/

namespace Deduplication

open Option List

universe u v

variable {α : Type u} {κ : Type v} [DecidableEq κ] (key : α → κ)

def keepFirst (seen : List κ) : List α → List α
  | [] => []
  | a :: rest => if key a ∈ seen then keepFirst seen rest else a :: keepFirst (key a :: seen) rest

/-- `a` comes first among those with its key. -/
def IsFirst (l : List α) (a : α) : Prop := l.find? (key · = key a) = some a

variable {key} {l : List α} {a : α}

theorem IsFirst.mem (h : IsFirst key l a) : a ∈ l := mem_of_find?_eq_some h

theorem exists_isFirst (h : a ∈ l) : ∃ first, IsFirst key l first ∧ key first = key a := by
  cases hFind : l.find? (key · = key a) with
  | none => simpa using find?_eq_none.mp hFind a h
  | some first =>
    have hKey : key first = key a := by simpa using find?_some hFind
    exact ⟨first, by rw [IsFirst, hKey, hFind], hKey⟩

theorem IsFirst.unique {b : α} (ha : IsFirst key l a) (hb : IsFirst key l b) (h : key a = key b) : a = b := by
  rw [IsFirst, h] at ha
  exact some.inj (ha.symm.trans hb)

theorem mem_keepFirst_iff {seen : List κ} : a ∈ keepFirst key seen l ↔ key a ∉ seen ∧ IsFirst key l a := by
  induction l generalizing seen with
  | nil => simp [keepFirst, IsFirst]
  | cons b rest ih =>
    unfold keepFirst IsFirst
    by_cases hSame : key b = key a
    · rw [find?_cons_of_pos (by simpa using hSame)]
      split_ifs with hSeen
      · rw [ih, hSame] at *
        exact ⟨fun h => absurd hSeen h.1, fun h => absurd hSeen h.1⟩
      · rw [mem_cons, ih, hSame]
        rw [hSame] at hSeen
        simp only [mem_cons, not_true_eq_false, false_and, or_false, hSeen,
          not_false_eq_true, true_and, some.injEq, eq_comm]
    · rw [find?_cons_of_neg (by simpa using hSame)]
      split_ifs with hSeen
      · exact ih
      · have hNe : a ≠ b := fun hEq => hSame (hEq ▸ rfl)
        rw [mem_cons, ih]
        simp only [hNe, false_or, mem_cons, Ne.symm hSame, IsFirst]

end Deduplication

/-! ## Records counted one by one, and by place

Items have a place or none, and records. Marked place by place the records count at most as often as
one by one; just as often where every record has a place and none repeats a key at its place. -/

namespace Tallying

open Dict Finset

universe u

variable {α : Type u} {π κ : Type u} [DecidableEq π] (place : α → Option π)
  (records : α → List (κ × Bool))

def recordsAt (items : List α) (p : π) : List (κ × Bool) := (items.filter (place · = some p)).flatMap records

def Placed (places : Finset π) (items : List α) : Prop :=
  ∀ item ∈ items, records item ≠ [] → ∃ p ∈ places, place item = some p

def Distinct (places : Finset π) (items : List α) : Prop :=
  ∀ p ∈ places, ((recordsAt place records items p).map Prod.fst).Nodup

variable {place records} {places : Finset π} {items : List α}

theorem sum_recordsAt (weight : List (κ × Bool) → ℕ) (hNil : weight [] = 0)
    (hAppend : ∀ l m, weight (l ++ m) = weight l + weight m) :
    ∑ p ∈ places, weight (recordsAt place records items p) =
      (items.map fun item => if ∃ p ∈ places, place item = some p then weight (records item) else 0).sum := by
  induction items with
  | nil => simp [recordsAt, hNil]
  | cons item items ih =>
    have hSplit (p : π) : weight (recordsAt place records (item :: items) p) =
        (if place item = some p then weight (records item) else 0) +
          weight (recordsAt place records items p) := by
      unfold recordsAt
      by_cases hPlace : place item = some p
      · rw [List.filter_cons_of_pos (by simpa using hPlace), List.flatMap_cons, hAppend, if_pos hPlace]
      · rw [List.filter_cons_of_neg (by simpa using hPlace), if_neg hPlace, Nat.zero_add]
    rw [sum_congr rfl fun p _ => hSplit p, sum_add_distrib, ih, List.map_cons, List.sum_cons]
    refine congrArg (· + _) ?_
    cases hPlace : place item with
    | none => simp
    | some q => simp [sum_ite_eq]

theorem sum_length_recordsAt_le :
    ∑ p ∈ places, (recordsAt place records items p).length ≤ (items.flatMap records).length := by
  rw [sum_recordsAt List.length rfl fun _ _ => List.length_append, List.length_flatMap]
  refine List.sum_le_sum fun item _ => ?_
  split
  · exact le_rfl
  · exact Nat.zero_le _

theorem sum_length_recordsAt_eq_iff :
    ∑ p ∈ places, (recordsAt place records items p).length = (items.flatMap records).length ↔
      Placed place records places items := by
  rw [sum_recordsAt List.length rfl fun _ _ => List.length_append, List.length_flatMap]
  unfold Placed
  induction items with
  | nil => simp
  | cons item items ih =>
    have hRest : (items.map fun item => if ∃ p ∈ places, place item =
      some p then (records item).length else 0).sum ≤
        (items.map fun item => (records item).length).sum := by
      refine List.sum_le_sum fun item _ => ?_
      split
      · exact le_rfl
      · exact Nat.zero_le _
    rw [List.map_cons, List.map_cons, List.sum_cons, List.sum_cons, List.forall_mem_cons, ← ih]
    by_cases hPlace : ∃ p ∈ places, place item = some p
    · rw [if_pos hPlace]
      constructor
      · intro h
        exact ⟨fun _ => hPlace, Nat.add_left_cancel h⟩
      · rintro ⟨-, h⟩
        rw [h]
    · rw [if_neg hPlace, Nat.zero_add]
      constructor
      · intro h
        have hNone : records item = [] := List.eq_nil_of_length_eq_zero (by omega)
        exact ⟨fun hSome => absurd hNone hSome, by omega⟩
      · rintro ⟨hNone, h⟩
        rw [show records item = [] from of_not_not fun hSome => hPlace (hNone hSome), h, List.length_nil,
          Nat.zero_add]

section Marked

variable [DecidableEq κ] (place records places items)

def markedTotal : ℕ :=
  ∑ p ∈ places, (markAll [] (recordsAt place records items p)).length

def markedCovered : ℕ :=
  ∑ p ∈ places, (markAll [] (recordsAt place records items p)).countMarked

variable {place records places items}

theorem markedTotal_le : markedTotal place records places items ≤ (items.flatMap records).length :=
  (sum_le_sum fun p _ => by
    have hLength := length_markAll_le [] (recordsAt place records items p)
    rwa [List.length_nil, Nat.zero_add] at hLength).trans sum_length_recordsAt_le

theorem markedTotal_eq_iff : markedTotal place records places items = (items.flatMap records).length ↔
      Placed place records places items ∧ Distinct place records places items := by
  have hEach (p : π) (_ : p ∈ places) : (markAll [] (recordsAt place records items p)).length ≤
      (recordsAt place records items p).length := by
    have hLength := length_markAll_le [] (recordsAt place records items p)
    rwa [List.length_nil, Nat.zero_add] at hLength
  have hDistinct : markedTotal place records places items =
      ∑ p ∈ places, (recordsAt place records items p).length ↔ Distinct place records places items := by
    rw [markedTotal, sum_eq_sum_iff_of_le hEach]
    exact forall₂_congr fun p _ => length_markAll_eq_iff
  rw [← sum_length_recordsAt_eq_iff, ← hDistinct]
  have hBelow : ∑ p ∈ places, (recordsAt place records items p).length ≤ (items.flatMap records).length :=
    sum_length_recordsAt_le
  have hMarked : markedTotal place records places items ≤
      ∑ p ∈ places, (recordsAt place records items p).length := sum_le_sum hEach
  constructor
  · intro h
    exact ⟨by omega, by omega⟩
  · rintro ⟨hPlaced, hSame⟩
    omega

theorem markedCovered_eq (hPlaced : Placed place records places items)
    (hDistinct : Distinct place records places items) :
    markedCovered place records places items = (items.flatMap records).countP (·.2) := by
  have hMarks (p : π) (hp : p ∈ places) : (markAll [] (recordsAt place records items p)).countMarked =
      (recordsAt place records items p).countP (·.2) := by
    have hKept : markAll [] (recordsAt place records items p) = recordsAt place records items p :=
      markAll_of_nodup (hDistinct p hp)
    rw [hKept, countMarked, values, List.count_eq_countP, List.countP_map]
    exact List.countP_congr fun pair _ => by simp
  rw [markedCovered, sum_congr rfl hMarks,
    sum_recordsAt (List.countP (·.2)) rfl fun _ _ => List.countP_append, List.countP_flatMap]
  refine congrArg List.sum (List.map_congr_left fun item hItem => ?_)
  split
  · rfl
  · rename_i hPlace
    rw [Function.comp_apply, show records item = [] from of_not_not fun hSome => hPlace (hPlaced item hItem
      hSome)]
    rfl

end Marked

end Tallying
