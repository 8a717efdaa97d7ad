import Mathlib.Data.List.Nodup
import Mathlib.Data.List.Pairwise
import Mathlib.Data.List.Perm.Subperm

/-! # Names joined by a separator

A separator that may occur on both sides of itself does not tell where a joined name is to be cut. -/

namespace Joining

open List

variable {α γ : Type*}

theorem append_cons_eq_iff {separator : γ} {front front' back back' : List γ} :
    front ++ separator :: back = front' ++ separator :: back' ↔ front = front' ∧ back = back' ∨
      (∃ between, front' = front ++ separator :: between ∧ back = between ++ separator :: back') ∨
      ∃ between, front = front' ++ separator :: between ∧ back' = between ++ separator :: back := by
  constructor
  · intro h
    rcases append_eq_append_iff.mp h with ⟨between, rfl, hBack⟩ | ⟨between, rfl, hBack⟩
    · cases between with
      | nil =>
        rw [nil_append, cons.injEq] at hBack
        exact .inl ⟨(append_nil _).symm, hBack.2⟩
      | cons c between =>
        rw [cons_append, cons.injEq] at hBack
        obtain ⟨rfl, rfl⟩ := hBack
        exact .inr (.inl ⟨between, rfl, rfl⟩)
    · cases between with
      | nil =>
        rw [nil_append, cons.injEq] at hBack
        exact .inl ⟨append_nil _, hBack.2.symm⟩
      | cons c between =>
        rw [cons_append, cons.injEq] at hBack
        obtain ⟨rfl, rfl⟩ := hBack
        exact .inr (.inr ⟨between, rfl, rfl⟩)
  · rintro (⟨rfl, rfl⟩ | ⟨between, rfl, rfl⟩ | ⟨between, rfl, rfl⟩)
    · rfl
    · rw [append_assoc, cons_append]
    · rw [append_assoc, cons_append]

/-- No owner whose key goes on where another's ends has a name that makes up for it. -/
def AreApart (key : α → List γ) (names : α → List (List γ)) (separator : γ) (owners : List α) : Prop :=
  ∀ a ∈ owners, ∀ b ∈ owners, ∀ between, key b = key a ++ separator :: between →
    ∀ name ∈ names b, between ++ separator :: name ∉ names a

theorem nodup_joined_iff {key : α → List γ} {names : α → List (List γ)} {separator : γ} {owners : List α}
    (hKeys : (owners.map key).Nodup) :
    (owners.flatMap fun a => (names a).map (key a ++ separator :: ·)).Nodup ↔
      (∀ a ∈ owners, (names a).Nodup) ∧ AreApart key names separator owners := by
  have hOwn (a : α) : ((names a).map (key a ++ separator :: ·)).Nodup ↔ (names a).Nodup :=
    nodup_map_iff fun _ _ h => cons_injective (append_cancel_left h)
  rw [nodup_flatMap]
  refine and_congr (forall₂_congr fun a _ => hOwn a) ?_
  constructor
  · intro hPairs a ha b hb between hBetween name hName hOther
    have hNe : a ≠ b := by
      rintro rfl
      have hLength := congrArg List.length hBetween
      simp at hLength
    have : Std.Symm (Function.onFun List.Disjoint fun a => (names a).map (key a ++ separator :: ·)) :=
      ⟨fun _ _ h _ hb ha => h ha hb⟩
    refine hPairs.forall ha hb hNe (mem_map_of_mem hOther) (mem_map.mpr ⟨name, hName, ?_⟩)
    rw [hBetween, append_assoc, cons_append]
  · intro hApart
    rw [List.Nodup, pairwise_map] at hKeys
    refine hKeys.imp_of_mem fun ha hb hNe => ?_
    intro joined hLeft hRight
    obtain ⟨name, hName, rfl⟩ := mem_map.mp hLeft
    obtain ⟨name', hName', hEq⟩ := mem_map.mp hRight
    rcases append_cons_eq_iff.mp hEq with ⟨hKey, -⟩ | ⟨between, hKey, rfl⟩ | ⟨between, hKey, rfl⟩
    · exact hNe hKey.symm
    · exact hApart _ hb _ ha between hKey name hName hName'
    · exact hApart _ ha _ hb between hKey name' hName' hName

end Joining

/-! ## Telling names apart by numbers

A name that is taken is given the first number that makes it new, counted from two. -/

namespace Numbering

open List

variable {α : Type*} [DecidableEq α]

def firstFree (candidate : ℕ → α) (used : List α) : ℕ → ℕ → α
  | 0, n => candidate n
  | fuel + 1, n => if candidate n ∈ used then firstFree candidate used fuel (n + 1) else candidate n

variable (number : α → ℕ → α)

def uniqueName (used : List α) (wanted : α) : α :=
  if wanted ∈ used then firstFree (number wanted) used used.length 2 else wanted

def uniqueNames (used : List α) : List α → List α
  | [] => []
  | wanted :: rest =>
    uniqueName number used wanted :: uniqueNames (uniqueName number used wanted :: used) rest

variable {number}

theorem firstFree_mem {candidate : ℕ → α} {used : List α} {fuel n : ℕ}
    (h : firstFree candidate used fuel n ∈ used) : ∀ i ≤ fuel, candidate (n + i) ∈ used := by
  induction fuel generalizing n with
  | zero =>
    intro i hi
    obtain rfl := Nat.le_zero.mp hi
    exact h
  | succ fuel ih =>
    rw [firstFree] at h
    split at h
    · rename_i hHere
      rintro (_ | i) hi
      · exact hHere
      · rw [Nat.add_comm i 1, ← Nat.add_assoc]
        exact ih h i (Nat.le_of_succ_le_succ hi)
    · contradiction

theorem firstFree_notMem {candidate : ℕ → α} (hCandidate : Function.Injective candidate) (used : List α)
    (n : ℕ) : firstFree candidate used used.length n ∉ used := by
  intro h
  have hAll := firstFree_mem h
  have hNodup : ((List.range (used.length + 1)).map fun i => candidate (n + i)).Nodup :=
    nodup_range.map fun _ _ hEq => Nat.add_left_cancel (hCandidate hEq)
  have hSubset : ((List.range (used.length + 1)).map fun i => candidate (n + i)) ⊆ used := by
    intro name hName
    obtain ⟨i, hi, rfl⟩ := mem_map.mp hName
    exact hAll i (Nat.le_of_lt_succ (mem_range.mp hi))
  have hLength := (hNodup.subperm hSubset).length_le
  rw [length_map, length_range] at hLength
  omega

theorem exists_firstFree_eq (candidate : ℕ → α) (used : List α) (fuel n : ℕ) :
    ∃ m, firstFree candidate used fuel n = candidate m := by
  induction fuel generalizing n with
  | zero => exact ⟨n, rfl⟩
  | succ fuel ih =>
    rw [firstFree]
    split
    · exact ih (n + 1)
    · exact ⟨n, rfl⟩

theorem uniqueName_of_notMem {used : List α} {wanted : α} (h : wanted ∉ used) :
    uniqueName number used wanted = wanted := if_neg h

theorem uniqueName_cases (used : List α) (wanted : α) : uniqueName number used wanted = wanted ∨
      wanted ∈ used ∧ ∃ n, uniqueName number used wanted = number wanted n := by
  unfold uniqueName
  split
  · rename_i hUsed
    exact .inr ⟨hUsed, exists_firstFree_eq _ _ _ _⟩
  · exact .inl rfl

theorem length_uniqueNames (used wanted : List α) :
    (uniqueNames number used wanted).length = wanted.length := by
  induction wanted generalizing used with
  | nil => rfl
  | cons name rest ih => exact congrArg (· + 1) (ih _)

theorem forall_uniqueNames {holds : α → Prop} (hNumber : ∀ wanted n, holds wanted → holds (number wanted n))
    {wanted : List α} (h : ∀ name ∈ wanted, holds name) (used : List α) :
    ∀ name ∈ uniqueNames number used wanted, holds name := by
  induction wanted generalizing used with
  | nil => exact fun name hName => nomatch hName
  | cons first rest ih =>
    rw [forall_mem_cons] at h
    rw [uniqueNames, forall_mem_cons]
    refine ⟨?_, ih h.2 _⟩
    rcases uniqueName_cases used first with hKept | ⟨-, n, hNumbered⟩
    · rw [hKept]
      exact h.1
    · rw [hNumbered]
      exact hNumber first n h.1

section

variable (hNumber : ∀ wanted, Function.Injective (number wanted))

include hNumber

theorem uniqueName_notMem (used : List α) (wanted : α) : uniqueName number used wanted ∉ used := by
  unfold uniqueName
  split
  · exact firstFree_notMem (hNumber wanted) used 2
  · assumption

theorem uniqueNames_notMem (used wanted : List α) : ∀ name ∈ uniqueNames number used wanted, name ∉ used := by
  induction wanted generalizing used with
  | nil => exact fun name h => nomatch h
  | cons first rest ih =>
    intro name hName
    rcases mem_cons.mp hName with rfl | hRest
    · exact uniqueName_notMem hNumber used first
    · exact fun hUsed => ih _ name hRest (mem_cons_of_mem _ hUsed)

theorem uniqueNames_nodup (used wanted : List α) : (uniqueNames number used wanted).Nodup := by
  induction wanted generalizing used with
  | nil => exact nodup_nil
  | cons first rest ih =>
    exact nodup_cons.mpr
      ⟨fun hIn => uniqueNames_notMem hNumber _ rest _ hIn mem_cons_self, ih _⟩

end

theorem exists_kind_iff {kind : α → Prop} (hKind : ∀ wanted n, ¬kind (number wanted n)) {used : List α}
    (hUsed : ∀ name ∈ used, ¬kind name) (wanted : List α) :
    (∃ name ∈ uniqueNames number used wanted, kind name) ↔ ∃ name ∈ wanted, kind name := by
  induction wanted generalizing used with
  | nil => rfl
  | cons first rest ih =>
    rw [uniqueNames, exists_mem_cons_iff, exists_mem_cons_iff]
    by_cases hFirst : kind first
    · have hNew : first ∉ used := fun hIn => hUsed first hIn hFirst
      rw [uniqueName_of_notMem hNew]
      exact iff_of_true (.inl hFirst) (.inl hFirst)
    · have hGiven : ¬kind (uniqueName number used first) := by
        rcases uniqueName_cases used first with hKept | ⟨-, n, hNumbered⟩
        · rwa [hKept]
        · rw [hNumbered]
          exact hKind first n
      rw [or_iff_right hGiven, or_iff_right hFirst]
      exact ih (forall_mem_cons.mpr ⟨hGiven, hUsed⟩)

end Numbering
