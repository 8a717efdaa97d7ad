import Mathlib.Data.List.Nodup
import Mathlib.Logic.Relation

/-! # Strongly connected components of a relation

Two nodes are mutual when each reaches the other; a component is a class of mutual nodes. -/

namespace StrongComponents

open Relation

universe u

variable {α : Type u} (E : α → α → Prop)

def Mutual (a b : α) : Prop := ReflTransGen E a b ∧ ReflTransGen E b a

structure IsComponent (members : List α) : Prop where
  begun : members ≠ []
  mem_iff : ∀ a ∈ members, ∀ b, b ∈ members ↔ Mutual E a b

def IsCyclic (members : List α) : Prop :=
  (∃ a ∈ members, ∃ b ∈ members, a ≠ b) ∨ ∃ a ∈ members, E a a

variable {E}

namespace Mutual

theorem refl (a : α) : Mutual E a a := ⟨.refl, .refl⟩

theorem symm {a b : α} (h : Mutual E a b) : Mutual E b a := ⟨h.2, h.1⟩

theorem trans {a b c : α} (h : Mutual E a b) (h' : Mutual E b c) : Mutual E a c :=
  ⟨h.1.trans h'.1, h'.2.trans h.2⟩

end Mutual

theorem reach_closed {R : α → Prop} (hR : ∀ a b, R a → E a b → R b) {a b : α}
    (h : ReflTransGen E a b) (ha : R a) : R b := by
  induction h with
  | refl => exact ha
  | tail _ hStep ih => exact hR _ _ ih hStep

theorem isComponent_of_closed {members : List α} {R : α → Prop} {root : α} (hRoot : root ∈ members)
    (hMutual : ∀ a ∈ members, Mutual E root a) (hClosed : ∀ a ∈ members, ∀ b, E a b → b ∈ members ∨ R b)
    (hR : ∀ a b, R a → E a b → R b) (hApart : ∀ a ∈ members, ¬R a) : IsComponent E members where
  begun := List.ne_nil_of_mem hRoot
  mem_iff a ha b := by
    have hRootOf : Mutual E root a := hMutual a ha
    constructor
    · intro hb
      exact hRootOf.symm.trans (hMutual b hb)
    · intro hSame
      have hOut : b ∈ members ∨ R b := by
        apply reach_closed (fun c d hc hStep => ?_) hSame.1 (.inl ha)
        rcases hc with hIn | hGone
        · exact hClosed c hIn d hStep
        · exact .inr (hR c d hGone hStep)
      rcases hOut with hIn | hGone
      · exact hIn
      · exact absurd (reach_closed hR hSame.2 hGone) (hApart a ha)

theorem isCyclic_iff {members : List α} (hNodup : members.Nodup) {root : α} (hRoot : root ∈ members) :
    IsCyclic E members ↔ 1 < members.length ∨ E root root := by
  have hMany : (∃ a ∈ members, ∃ b ∈ members, a ≠ b) ↔ 1 < members.length := by
    match members, hNodup with
    | [], _ => simp
    | [a], _ => simp
    | a :: b :: rest, hNodup =>
      have hne : a ≠ b := by
        rintro rfl
        simp at hNodup
      simp only [List.length_cons, show 1 < rest.length + 1 + 1 by omega, iff_true]
      exact ⟨a, by simp, b, by simp, hne⟩
  rw [IsCyclic, hMany]
  constructor
  · rintro (hMore | ⟨a, ha, hLoop⟩)
    · exact .inl hMore
    · by_cases hMore : 1 < members.length
      · exact .inl hMore
      · have hSame : a = root := by
          by_contra hne
          exact hMore (hMany.mp ⟨a, ha, root, hRoot, hne⟩)
        exact .inr (hSame ▸ hLoop)
  · exact Or.imp_right fun hLoop => ⟨root, hRoot, hLoop⟩

theorem isCyclic_of_same {members others : List α} (hSame : ∀ a, a ∈ members ↔ a ∈ others)
    (h : IsCyclic E members) : IsCyclic E others := by
  simpa only [IsCyclic, hSame] using h

namespace IsComponent

variable {members : List α}

theorem mem_of_reach (h : IsComponent E members) {a b : α} (ha : a ∈ members)
    (hTo : ReflTransGen E a b) (hBack : ReflTransGen E b a) : b ∈ members :=
  (h.mem_iff a ha b).mpr ⟨hTo, hBack⟩

theorem exists_step (h : IsComponent E members) (hCyclic : IsCyclic E members) {a : α}
    (ha : a ∈ members) : ∃ b ∈ members, E a b := by
  have hOther (b : α) (hb : b ∈ members) (hne : a ≠ b) : ∃ c ∈ members, E a c := by
    obtain ⟨hTo, hBack⟩ := (h.mem_iff a ha b).mp hb
    rcases hTo.cases_head with hSame | ⟨c, hStep, hRest⟩
    · exact absurd hSame hne
    · exact ⟨c, h.mem_of_reach ha (.single hStep) (hRest.trans hBack), hStep⟩
  rcases hCyclic with ⟨b, hb, c, hc, hne⟩ | ⟨b, hb, hLoop⟩
  · by_cases hab : a = b
    · exact hOther c hc (hab ▸ hne)
    · exact hOther b hb hab
  · by_cases hab : a = b
    · exact ⟨b, hb, hab ▸ hLoop⟩
    · exact hOther b hb hab

theorem mem_iff_of_mem (h : IsComponent E members) {others : List α} (h' : IsComponent E others)
    {a : α} (ha : a ∈ members) (ha' : a ∈ others) (b : α) : b ∈ members ↔ b ∈ others := by
  rw [h.mem_iff a ha, h'.mem_iff a ha']

end IsComponent

variable (E)

def Escapes (members : List α) (goal : α) (avoided : α → Prop) (a : α) : Prop :=
  ReflTransGen (fun b c => ¬avoided b ∧ c ∈ members ∧ E b c) a goal

variable {E} {members : List α} {goal : α} {avoided : α → Prop}

theorem not_escapes_of_avoided {a : α} (hAvoided : avoided a) (hne : a ≠ goal) :
    ¬Escapes E members goal avoided a := by
  intro h
  rcases h.cases_head with hSame | ⟨b, hStep, _⟩
  · exact hne hSame
  · exact hStep.1 hAvoided

theorem Escapes.leave {a b : α} (h : Escapes E members goal avoided a) :
    Escapes E members goal (fun c => c = b ∨ avoided c) a ∨
      ∃ c ∈ members, E b c ∧ Escapes E members goal (fun c => c = b ∨ avoided c) c := by
  induction h using ReflTransGen.head_induction_on with
  | refl => exact .inl .refl
  | @head a c hStep _ ih =>
    rcases ih with hRest | hFound
    · by_cases hab : a = b
      · subst hab
        exact .inr ⟨c, hStep.2.1, hStep.2.2, hRest⟩
      · exact .inl (hRest.head ⟨not_or.mpr ⟨hab, hStep.1⟩, hStep.2⟩)
    · exact .inr hFound

theorem Escapes.exists_next {a : α} (h : Escapes E members goal avoided a) (hne : a ≠ goal) :
    ∃ c ∈ members, E a c ∧ Escapes E members goal (fun c => c = a ∨ avoided c) c := by
  rcases h.leave with hStuck | hFound
  · exact absurd hStuck (not_escapes_of_avoided (.inl rfl) hne)
  · exact hFound

theorem IsComponent.escapes (h : IsComponent E members) (hGoal : goal ∈ members) {a : α}
    (ha : a ∈ members) : Escapes E members goal (fun b => b = goal) a := by
  have hBack : ReflTransGen E a goal := ((h.mem_iff a ha goal).mp hGoal).1
  induction hBack using ReflTransGen.head_induction_on with
  | refl => exact .refl
  | @head a c hStep hRest ih =>
    by_cases hSame : a = goal
    · exact hSame ▸ .refl
    · have hc : c ∈ members :=
        h.mem_of_reach ha (.single hStep) (hRest.trans ((h.mem_iff goal hGoal a).mp ha).1)
      exact (ih hc).head ⟨hSame, hc, hStep⟩

end StrongComponents
