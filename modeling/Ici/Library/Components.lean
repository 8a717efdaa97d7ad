import Mathlib.Data.List.Lex
import Mathlib.Order.BoundedOrder.Basic
import Mathlib.Order.Lattice

/-! # Sequences of components of different lengths

Lists compare by their first difference, and a proper prefix is below what it is a prefix of. Where
components that are missing count as the least one, the order differs from that on exactly the pairs
of which one is the other with least components added. -/

namespace Components

open List

universe u

variable {α : Type u} [LinearOrder α] [OrderBot α]

def component (l : List α) (n : ℕ) : α := l.getD n ⊥

/-- At the first place where the components differ, the first list has the greater one. -/
def IsNotBelow (l m : List α) : Prop :=
  ∀ n, (∀ k < n, component l k = component m k) → component m n ≤ component l n

def IsCutShort (l m : List α) : Prop := ∃ n, m = l ++ List.replicate (n + 1) ⊥

@[simp] theorem component_nil (n : ℕ) : component ([] : List α) n = ⊥ := rfl

@[simp] theorem component_cons_zero (a : α) (l : List α) : component (a :: l) 0 = a := rfl

@[simp] theorem component_cons_succ (a : α) (l : List α) (n : ℕ) :
    component (a :: l) (n + 1) = component l n := rfl

theorem isNotBelow_nil (l : List α) : IsNotBelow l [] := fun n _ => by
  rw [component_nil]
  exact bot_le

variable {b a : α} {m l : List α}

theorem isNotBelow_nil_cons : IsNotBelow [] (b :: m) ↔ b = ⊥ ∧ IsNotBelow [] m := by
  constructor
  · intro h
    have hFirst : b = ⊥ := le_bot_iff.mp (h 0 (by omega))
    refine ⟨hFirst, fun n hSame => h (n + 1) fun k hk => ?_⟩
    cases k with
    | zero => exact hFirst.symm
    | succ k => exact hSame k (by omega)
  · rintro ⟨rfl, h⟩ n hSame
    cases n with
    | zero => exact le_rfl
    | succ n => exact h n fun k hk => hSame (k + 1) (by omega)

theorem isNotBelow_cons : IsNotBelow (a :: l) (b :: m) ↔ b < a ∨ a = b ∧ IsNotBelow l m := by
  constructor
  · intro h
    have hFirst : b ≤ a := h 0 (by omega)
    rcases lt_or_eq_of_le hFirst with hLess | rfl
    · exact .inl hLess
    · refine .inr ⟨rfl, fun n hSame => h (n + 1) fun k hk => ?_⟩
      cases k with
      | zero => rfl
      | succ k => exact hSame k (by omega)
  · rintro (hLess | ⟨rfl, h⟩) n hSame
    · cases n with
      | zero => exact hLess.le
      | succ n => exact absurd (hSame 0 (by omega)) hLess.ne'
    · cases n with
      | zero => exact le_rfl
      | succ n => exact h n fun k hk => hSame (k + 1) (by omega)

theorem isCutShort_cons : IsCutShort (a :: l) (b :: m) ↔ a = b ∧ IsCutShort l m := by
  constructor
  · rintro ⟨n, h⟩
    cases h
    exact ⟨rfl, n, rfl⟩
  · rintro ⟨rfl, n, rfl⟩
    exact ⟨n, rfl⟩

theorem isNotBelow_nil_iff : IsNotBelow [] m ↔ m = [] ∨ IsCutShort [] m := by
  induction m with
  | nil => exact iff_of_true (isNotBelow_nil []) (.inl rfl)
  | cons b m ih =>
    rw [isNotBelow_nil_cons, ih]
    constructor
    · rintro ⟨rfl, rfl | ⟨n, rfl⟩⟩
      · exact .inr ⟨0, rfl⟩
      · exact .inr ⟨n + 1, rfl⟩
    · rintro (h | ⟨n, h⟩)
      · cases h
      · rw [nil_append, replicate_succ, cons.injEq] at h
        obtain ⟨rfl, rfl⟩ := h
        cases n with
        | zero => exact ⟨rfl, .inl rfl⟩
        | succ n => exact ⟨rfl, .inr ⟨n, rfl⟩⟩

theorem isNotBelow_iff : IsNotBelow l m ↔ ¬l < m ∨ IsCutShort l m := by
  induction l generalizing m with
  | nil =>
    rw [isNotBelow_nil_iff]
    cases m with
    | nil => exact iff_of_true (.inl rfl) (.inl (lt_irrefl _))
    | cons b m => exact or_congr_left (iff_of_false nofun (not_not_intro (nil_lt_cons b m)))
  | cons a l ih =>
    cases m with
    | nil => exact iff_of_true (isNotBelow_nil _) (.inl (not_lt_nil _))
    | cons b m =>
      rw [isNotBelow_cons, ih, isCutShort_cons, cons_lt_cons_iff]
      constructor
      · rintro (hLess | ⟨rfl, hRest | hCut⟩)
        · refine .inl ?_
          rintro (hFirst | ⟨rfl, -⟩)
          · exact lt_asymm hLess hFirst
          · exact lt_irrefl _ hLess
        · refine .inl ?_
          rintro (hFirst | ⟨-, hLess⟩)
          · exact lt_irrefl _ hFirst
          · exact hRest hLess
        · exact .inr ⟨rfl, hCut⟩
      · rintro (hNot | ⟨rfl, hCut⟩)
        · rcases lt_trichotomy a b with hFirst | rfl | hFirst
          · exact absurd (.inl hFirst) hNot
          · exact .inr ⟨rfl, .inl fun hLess => hNot (.inr ⟨rfl, hLess⟩)⟩
          · exact .inl hFirst
        · exact .inr ⟨rfl, .inr hCut⟩

end Components
