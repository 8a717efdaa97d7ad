import Mathlib.Data.List.Nodup
import Ici.Library.Raising

/-! # Loops in which every name is claimed once -/

namespace Claiming

open List Raising

universe u

variable {σ α κ : Type u} {ε : Type u}

structure IsClaim (taken : σ → κ → Prop) (claim : σ → κ → Except ε σ) : Prop where
  exists_iff : ∀ s k, (∃ t, claim s k = .ok t) ↔ ¬taken s k
  taken_iff : ∀ {s k t}, claim s k = .ok t → ∀ n, taken t n ↔ n = k ∨ taken s n

variable {taken : σ → κ → Prop}

section

variable {claim : σ → κ → Except ε σ} (h : IsClaim taken claim)

include h

theorem IsClaim.taken_foldlM {names : List κ} {s t : σ} (hRun : names.foldlM claim s = .ok t) (n : κ) :
    taken t n ↔ n ∈ names ∨ taken s n := by
  induction names generalizing s with
  | nil =>
    cases hRun
    simp
  | cons k rest ih =>
    obtain ⟨s', hHead, hTail⟩ := foldlM_cons_eq_ok.mp hRun
    rw [ih hTail, h.taken_iff hHead, mem_cons]
    tauto

theorem IsClaim.exists_foldlM_iff (names : List κ) (s : σ) :
    (∃ t, names.foldlM claim s = .ok t) ↔ names.Nodup ∧ ∀ n ∈ names, ¬taken s n := by
  induction names generalizing s with
  | nil => exact iff_of_true ⟨s, rfl⟩ ⟨nodup_nil, fun _ hIn => nomatch hIn⟩
  | cons k rest ih =>
    rw [nodup_cons, forall_mem_cons]
    constructor
    · rintro ⟨t, hRun⟩
      obtain ⟨s', hHead, hTail⟩ := foldlM_cons_eq_ok.mp hRun
      obtain ⟨hNodup, hFree⟩ := (ih s').mp ⟨t, hTail⟩
      have hOpen : ∀ n ∈ rest, n ≠ k ∧ ¬taken s n := fun n hn =>
        not_or.mp (mt (h.taken_iff hHead n).mpr (hFree n hn))
      exact ⟨⟨fun hIn => (hOpen k hIn).1 rfl, hNodup⟩, (h.exists_iff s k).mp ⟨s', hHead⟩,
        fun n hn => (hOpen n hn).2⟩
    · rintro ⟨⟨hOut, hNodup⟩, hFree, hRest⟩
      obtain ⟨s', hHead⟩ := (h.exists_iff s k).mpr hFree
      obtain ⟨t, hTail⟩ := (ih s').mpr ⟨hNodup, fun n hn hTaken =>
        ((h.taken_iff hHead n).mp hTaken).elim (fun hEq => hOut (hEq ▸ hn)) (hRest n hn)⟩
      exact ⟨t, foldlM_cons_eq_ok.mpr ⟨s', hHead, hTail⟩⟩

end

theorem exists_claims_iff {claim : α → σ → κ → Except ε σ} (h : ∀ a, IsClaim taken (claim a))
    (names : α → List κ) (items : List α) (s : σ) :
    (∃ t, items.foldlM (fun s a => (names a).foldlM (claim a) s) s = .ok t) ↔
      (items.flatMap names).Nodup ∧ ∀ n ∈ items.flatMap names, ¬taken s n := by
  induction items generalizing s with
  | nil => exact iff_of_true ⟨s, rfl⟩ ⟨nodup_nil, fun _ hIn => nomatch hIn⟩
  | cons a rest ih =>
    rw [flatMap_cons, nodup_append, forall_mem_append]
    constructor
    · rintro ⟨t, hRun⟩
      obtain ⟨s', hHead, hTail⟩ := foldlM_cons_eq_ok.mp hRun
      obtain ⟨hNodup, hFree⟩ := ((h a).exists_foldlM_iff (names a) s).mp ⟨s', hHead⟩
      obtain ⟨hRestNodup, hRestFree⟩ := (ih s').mp ⟨t, hTail⟩
      have hOpen : ∀ n ∈ rest.flatMap names, n ∉ names a ∧ ¬taken s n := fun n hn =>
        not_or.mp (mt ((h a).taken_foldlM hHead n).mpr (hRestFree n hn))
      refine ⟨⟨hNodup, hRestNodup, ?_⟩, hFree, fun n hn => (hOpen n hn).2⟩
      rintro n hn m hm rfl
      exact (hOpen n hm).1 hn
    · rintro ⟨⟨hNodup, hRestNodup, hApart⟩, hFree, hRestFree⟩
      obtain ⟨s', hHead⟩ := ((h a).exists_foldlM_iff (names a) s).mpr ⟨hNodup, hFree⟩
      obtain ⟨t, hTail⟩ := (ih s').mpr ⟨hRestNodup, fun n hn hTaken =>
        (((h a).taken_foldlM hHead n).mp hTaken).elim (fun hIn => hApart n hIn n hn rfl) (hRestFree n hn)⟩
      exact ⟨t, foldlM_cons_eq_ok.mpr ⟨s', hHead, hTail⟩⟩

end Claiming
