import Mathlib.Data.Fintype.Card
import Mathlib.Data.List.Permutation
import Mathlib.GroupTheory.Perm.Basic
import Ici.Library.Matching

/-! # Arranging occurrences under fixed keys

A stable sort decides the key at every position, not which of two occurrences with that key stands
there. Any two arrangements differ by exchanges of two occurrences with one key. -/

namespace Matching

open List Equiv Function

universe u v w x y

variable {ι : Type u} {γ : Type v} {κ : Type w}

structure Rearranged [Fintype ι] (key : γ → κ) (x x' : ι → γ) : Prop where
  occurrences : Finset.univ.val.map x' = Finset.univ.val.map x
  keys : key ∘ x' = key ∘ x

theorem comp_swap_of_eq [DecidableEq ι] {x : ι → γ} {i j : ι} (h : x i = x j) : x ∘ swap i j = x := by
  funext k
  rw [comp_apply, swap_apply_def]
  split_ifs with hi hj
  · rw [hi, h]
  · rw [hj, h]
  · rfl

section

variable [Fintype ι] {key : γ → κ} {x x' z : ι → γ}

theorem Rearranged.refl (key : γ → κ) (x : ι → γ) : Rearranged key x x := ⟨rfl, rfl⟩

section

variable (h : Rearranged key x x')
include h

theorem Rearranged.symm : Rearranged key x' x :=
  ⟨h.occurrences.symm, h.keys.symm⟩

theorem Rearranged.trans (h' : Rearranged key x' z) : Rearranged key x z :=
  ⟨h'.occurrences.trans h.occurrences, h'.keys.trans h.keys⟩

theorem Rearranged.key_eq (i : ι) : key (x' i) = key (x i) :=
  congrFun h.keys i

theorem Rearranged.exists_eq (i : ι) : ∃ j, x j = x' i := by
  have hMem : x' i ∈ Finset.univ.val.map x := by
    rw [← h.occurrences]
    exact Multiset.mem_map_of_mem x' (Finset.mem_univ i)
  obtain ⟨j, -, hj⟩ := Multiset.mem_map.mp hMem
  exact ⟨j, hj⟩

theorem Rearranged.exists_misplaced {i : ι} (hi : x i ≠ x' i) : ∃ j, x j = x' i ∧ x' j ≠ x' i := by
  classical
  by_contra hNone
  push Not at hNone
  have hCard : (Finset.univ.filter fun j => x j = x' i).card =
      (Finset.univ.filter fun j => x' j = x' i).card := by
    have hCount := congrArg (Multiset.count (x' i)) h.occurrences
    rw [Multiset.count_map, Multiset.count_map] at hCount
    simpa only [Finset.card, Finset.filter_val, eq_comm] using hCount.symm
  have hLess : (Finset.univ.filter fun j => x j = x' i) ⊂ (Finset.univ.filter fun j => x' j = x' i) := by
    refine Finset.ssubset_iff_subset_ne.mpr ⟨fun j hj => ?_, fun hEq => hi ?_⟩
    · exact Finset.mem_filter.mpr ⟨Finset.mem_univ j, hNone j (Finset.mem_filter.mp hj).2⟩
    · have hMem : i ∈ Finset.univ.filter fun j => x' j = x' i :=
        Finset.mem_filter.mpr ⟨Finset.mem_univ i, rfl⟩
      rw [← hEq] at hMem
      exact (Finset.mem_filter.mp hMem).2
  exact (Finset.card_lt_card hLess).ne hCard

end

variable [DecidableEq ι]

theorem rearranged_swap {i j : ι} (hKey : key (x i) = key (x j)) : Rearranged key x (x ∘ swap i j) where
  occurrences := by
    rw [← Multiset.map_map]
    congr 1
    exact congrArg Finset.val (Finset.map_univ_equiv (swap i j))
  keys := by
    funext k
    simp only [comp_apply, swap_apply_def]
    split_ifs with hi hj
    · rw [hi, hKey]
    · rw [hj, hKey]
    · rfl

theorem Rearranged.induction {motive : (ι → γ) → Prop}
    (hSwap : ∀ z, Rearranged key x z → motive z → ∀ i j, i ≠ j → key (z i) = key (z j) →
      motive (z ∘ swap i j))
    (hFirst : motive x) (h : Rearranged key x x') : motive x' := by
  classical
  suffices hAll : ∀ n z, Rearranged key x z → motive z →
      (Finset.univ.filter fun i => z i ≠ x' i).card = n → motive x' from
    hAll _ x (.refl key x) hFirst rfl
  intro n
  induction n using Nat.strong_induction_on with
  | _ n ih =>
    intro z hz hMotive hn
    have hRest := hz.symm.trans h
    by_cases hSame : ∀ i, z i = x' i
    · rwa [← (funext hSame : z = x')]
    push Not at hSame
    obtain ⟨i, hi⟩ := hSame
    obtain ⟨j, hj, hj'⟩ := hRest.exists_misplaced hi
    have hij : i ≠ j := fun hEq => hi (by rw [hEq] at hj ⊢; exact hj)
    have hKey : key (z i) = key (z j) := by rw [hj, hRest.key_eq]
    refine ih _ ?_ _ (hz.trans (rearranged_swap hKey)) (hSwap z hz hMotive i j hij hKey) rfl
    rw [← hn]
    refine Finset.card_lt_card (Finset.ssubset_iff_subset_ne.mpr ⟨fun k hk => ?_, fun hEq => ?_⟩)
    · rw [Finset.mem_filter, comp_apply, swap_apply_def] at hk
      refine Finset.mem_filter.mpr ⟨Finset.mem_univ k, ?_⟩
      split_ifs at hk with hki hkj
      · rwa [hki]
      · rw [hkj, hj]
        exact hj'.symm
      · exact hk.2
    · have hMem : i ∈ Finset.univ.filter fun k => z k ≠ x' k :=
        Finset.mem_filter.mpr ⟨Finset.mem_univ i, hi⟩
      rw [← hEq, Finset.mem_filter, comp_apply, swap_apply_left] at hMem
      exact hMem.2 hj

theorem exists_rearranged {i j a b : ι} (hij : i ≠ j) (hNe : x a ≠ x b)
    (hi : key (x i) = key (x a)) (hj : key (x j) = key (x b)) :
    ∃ x', Rearranged key x x' ∧ x' i = x a ∧ x' j = x b := by
  have hFirst := rearranged_swap hi
  obtain ⟨b', hb'⟩ := hFirst.symm.exists_eq b
  have hib' : i ≠ b' := by
    rintro rfl
    rw [comp_apply, swap_apply_left] at hb'
    exact hNe hb'
  have hKey : key ((x ∘ swap i a) j) = key ((x ∘ swap i a) b') := by
    rw [hFirst.key_eq, hb', hj]
  refine ⟨_, hFirst.trans (rearranged_swap hKey), ?_, ?_⟩
  · rw [comp_apply, swap_apply_of_ne_of_ne hij hib', comp_apply, swap_apply_left]
  · rw [comp_apply, swap_apply_left, hb']

end

theorem perm_pair_iff {δ : Type u} {a b c d : δ} : [a, b].Perm [c, d] ↔ a = c ∧ b = d ∨ a = d ∧ b = c := by
  simp [perm_pair]

section

variable {τ : Type x} {δ : Type y} {slot : τ → Option ι} {value : (ι → γ) → τ → δ}

def ReadsSlot (slot : τ → Option ι) (value : (ι → γ) → τ → δ) : Prop :=
  ∀ p z z', (∀ i, slot p = some i → z i = z' i) → value z p = value z' p

theorem exists_slots_split {l : List τ} (hNodup : (l.filterMap slot).Nodup) {p q : τ} (hp : p ∈ l)
    (hq : q ∈ l) {i j : ι} (hi : slot p = some i) (hj : slot q = some j) (hij : i ≠ j) :
    ∃ rest, l.Perm (p :: q :: rest) ∧ ∀ r ∈ rest, slot r ≠ some i ∧ slot r ≠ some j := by
  classical
  have hpq : q ≠ p := by
    rintro rfl
    exact hij (Option.some.inj (hi.symm.trans hj))
  have hRest := perm_cons_erase hp
  have hRest' := perm_cons_erase (mem_of_ne_of_mem hpq (hRest.subset hq))
  have hSplit : l.Perm (p :: q :: (l.erase p).erase q) := hRest.trans (hRest'.cons p)
  refine ⟨_, hSplit, fun r hr => ?_⟩
  have hSlots := (hSplit.filterMap slot).nodup_iff.mp hNodup
  rw [filterMap_cons_some hi, filterMap_cons_some hj, nodup_cons, nodup_cons] at hSlots
  constructor
  · exact fun h => hSlots.1 (mem_cons_of_mem j (mem_filterMap.mpr ⟨r, hr, h⟩))
  · exact fun h => hSlots.2.1 (mem_filterMap.mpr ⟨r, hr, h⟩)

variable [DecidableEq ι]

theorem exchange_perm_iff (hReads : ReadsSlot slot value) {l : List τ}
    (hNodup : (l.filterMap slot).Nodup) {p q : τ} (hp : p ∈ l) (hq : q ∈ l) {i j : ι}
    (hi : slot p = some i) (hj : slot q = some j) (hij : i ≠ j) (z : ι → γ) :
    (l.map (value (z ∘ swap i j))).Perm (l.map (value z)) ↔
      [value (z ∘ swap i j) p, value (z ∘ swap i j) q].Perm [value z p, value z q] := by
  obtain ⟨rest, hSplit, hRest⟩ := exists_slots_split hNodup hp hq hi hj hij
  have hKept : rest.map (value (z ∘ swap i j)) = rest.map (value z) := by
    refine map_congr_left fun r hr => hReads r _ _ fun k hk => ?_
    have hki : k ≠ i := fun h => (hRest r hr).1 (h ▸ hk)
    have hkj : k ≠ j := fun h => (hRest r hr).2 (h ▸ hk)
    rw [comp_apply, swap_apply_of_ne_of_ne hki hkj]
  rw [((hSplit.map _).congr_left _), ((hSplit.map _).congr_right _)]
  simp only [map_cons, hKept]
  exact @List.perm_append_right_iff _ [_, _] [_, _] (rest.map (value z))

end

/-! ## The positions of a comparison -/

section

variable {α : Type u} {β : Type v} {π : Type x} [LinearOrder κ] [DecidableEq π]

def positions {n m : ℕ} (place : κ → π) (keysA : Fin n → κ) (keysB : Fin m → κ) :
    List (Fate (Fin n) (Fin m)) := compare place keysA keysB (List.finRange n) (List.finRange m)

variable {n m : ℕ} {l : List γ}

section

variable (place : κ → π) (keysA : Fin n → κ) (keysB : Fin m → κ)

theorem nodup_positions_left : ((positions place keysA keysB).filterMap Fate.left).Nodup :=
  (compare_left_perm _ _).nodup_iff.mpr (nodup_finRange n)

theorem nodup_positions_right : ((positions place keysA keysB).filterMap Fate.right).Nodup :=
  (compare_right_perm _ _).nodup_iff.mpr (nodup_finRange m)

theorem exists_position_left (i : Fin n) : ∃ p ∈ positions place keysA keysB, p.left = some i :=
  mem_filterMap.mp ((compare_left_perm _ _).mem_iff.mpr (mem_finRange i))

theorem exists_position_right (j : Fin m) : ∃ p ∈ positions place keysA keysB, p.right = some j :=
  mem_filterMap.mp ((compare_right_perm _ _).mem_iff.mpr (mem_finRange j))

end

/-- `x` lays the sorted occurrences of `l` out. -/
def LaysOut {n : ℕ} (key : γ → κ) (l : List γ) (x : Fin n → γ) : Prop :=
  List.ofFn x = sorted key l

theorem exists_laysOut (key : γ → κ) (l : List γ) : ∃ n, ∃ x : Fin n → γ, LaysOut key l x :=
  ⟨_, (sorted key l).get, ofFn_get _⟩

theorem LaysOut.mem_iff {key : γ → κ} {x : Fin n → γ} (h : LaysOut key l x)
    {c : γ} : c ∈ l ↔ ∃ i, x i = c := by
  rw [← (sorted_perm key l).mem_iff, ← h, mem_ofFn']
  rfl

theorem compare_eq_positions {place : κ → π} {keyA : α → κ} {keyB : β → κ} {l : List α}
    {k : List β} {x : Fin n → α} {y : Fin m → β} (hx : LaysOut keyA l x) (hy : LaysOut keyB k y) :
    compare place keyA keyB l k =
      (positions place (keyA ∘ x) (keyB ∘ y)).map (Fate.map x y) := by
  rw [← compare_sorted, ← hx, ← hy, ofFn_eq_map, ofFn_eq_map, compare_renamed]
  rfl

theorem LaysOut.exists_rearranged {key : γ → κ} {l' : List γ} {x : Fin n → γ}
    (h : LaysOut key l x) (hPerm : l'.Perm l) : ∃ x', LaysOut key l' x' ∧ Rearranged key x x' := by
  obtain ⟨n', x', hx'⟩ := exists_laysOut key l'
  have hLength : n' = n := by
    have hSorted := ((sorted_perm key l').trans hPerm).length_eq.trans
      (sorted_perm key l).length_eq.symm
    rwa [← hx', ← h, length_ofFn, length_ofFn] at hSorted
  subst hLength
  refine ⟨x', hx', ?_, ?_⟩
  · rw [Fin.univ_val_map, Fin.univ_val_map, hx', h]
    exact Multiset.coe_eq_coe.mpr (((sorted_perm key l').trans hPerm).trans (sorted_perm key l).symm)
  · have hKeys := map_sorted_eq key hPerm
    rw [← hx', ← h, map_ofFn, map_ofFn] at hKeys
    exact ofFn_injective hKeys

theorem LaysOut.of_rearranged {key : γ → κ} {x x' : Fin n → γ}
    (h : LaysOut key l x) (hx' : Rearranged key x x') :
    LaysOut key (List.ofFn x') x' ∧ (List.ofFn x').Perm l := by
  have hPerm : (List.ofFn x').Perm (List.ofFn x) := by
    rw [← Multiset.coe_eq_coe, ← Fin.univ_val_map, ← Fin.univ_val_map, hx'.occurrences]
  refine ⟨(sorted_of_pairwise ?_).symm, hPerm.trans (h ▸ sorted_perm key l)⟩
  have hSorted := pairwise_sorted key l
  rw [← h, ← pairwise_map (R := (· ≤ ·)), map_ofFn] at hSorted
  rwa [← pairwise_map (R := (· ≤ ·)), map_ofFn, hx'.keys]

end

end Matching

/-! ## Where a member stands after a stable sort

Behind it stand the members with a greater key, and those with its own key that came later. -/

namespace List

universe u v

section OrderedInsert

variable {α : Type u} {r : α → α → Prop} [DecidableRel r] {a x : α}

theorem orderedInsert_append_of_rel (h : r a x) (older newer : List α) :
    orderedInsert r a (older ++ x :: newer) = orderedInsert r a older ++ x :: newer := by
  induction older with
  | nil => simp [h]
  | cons b older ih =>
    rw [cons_append, orderedInsert_cons, orderedInsert_cons, ih]
    split <;> rfl

theorem orderedInsert_append_of_not_rel {older : List α} (hOlder : ∀ b ∈ older, ¬r a b) (h : ¬r a x)
    (newer : List α) :
    orderedInsert r a (older ++ x :: newer) = older ++ x :: orderedInsert r a newer := by
  induction older with
  | nil => simp [h]
  | cons b older ih =>
    obtain ⟨hHead, hTail⟩ := forall_mem_cons.mp hOlder
    rw [cons_append, orderedInsert_cons, if_neg hHead, ih hTail]
    rfl

end OrderedInsert

section Keys

variable {α : Type u} {κ : Type v} [LinearOrder κ] (key : α → κ)

local instance keyTrans : IsTrans α fun a b => key a ≤ key b := ⟨fun _ _ _ => le_trans⟩

local instance keyTotal : Std.Total fun a b : α => key a ≤ key b := ⟨fun a b => le_total (key a) (key b)⟩

theorem length_dropWhile_sorted {l : List α} (h : l.Pairwise (key · ≤ key ·)) (x : α) :
    (l.dropWhile fun b => ¬key x ≤ key b).length = (l.filter fun b => key x ≤ key b).length := by
  induction l with
  | nil => rfl
  | cons b l ih =>
    obtain ⟨hHead, hTail⟩ := pairwise_cons.mp h
    by_cases hLe : key x ≤ key b
    · have hAll : ∀ c ∈ b :: l, key x ≤ key c :=
        forall_mem_cons.mpr ⟨hLe, fun c hc => hLe.trans (hHead c hc)⟩
      rw [filter_eq_self.mpr (by simpa using hAll), dropWhile_cons_of_neg (by simpa using hLe)]
    · rw [dropWhile_cons_of_pos (by simpa using hLe), filter_cons_of_neg (by simpa using hLe), ih hTail]

theorem insertionSort_split (before after : List α) (x : α) : ∃ older newer,
      (before ++ x :: after).insertionSort (fun a b => key a ≤ key b) = older ++ x :: newer ∧
      newer.length = (before.filter fun b => key x < key b).length +
        (after.filter fun b => key x ≤ key b).length := by
  induction before with
  | nil =>
    let sorted := after.insertionSort fun a b => key a ≤ key b
    have hSorted : sorted.Pairwise fun a b => key a ≤ key b := pairwise_insertionSort _ after
    have hPerm : sorted.Perm after := perm_insertionSort _ after
    refine ⟨sorted.takeWhile fun b => ¬key x ≤ key b, sorted.dropWhile fun b => ¬key x ≤ key b,
      orderedInsert_eq_take_drop (fun a b => key a ≤ key b) x sorted, ?_⟩
    rw [length_dropWhile_sorted key hSorted, filter_nil, length_nil, Nat.zero_add]
    exact (hPerm.filter _).length_eq
  | cons b before ih =>
    obtain ⟨older, newer, hSort, hLength⟩ := ih
    have hSorted : (older ++ x :: newer).Pairwise fun a b => key a ≤ key b := by
      rw [← hSort]
      exact pairwise_insertionSort _ _
    rw [cons_append, insertionSort_cons, hSort]
    by_cases hLe : key b ≤ key x
    · have hInsert := orderedInsert_append_of_rel (r := fun a b => key a ≤ key b) hLe older newer
      refine ⟨orderedInsert (fun a b => key a ≤ key b) b older, newer, hInsert, ?_⟩
      rw [hLength, filter_cons_of_neg (by simpa using hLe)]
    · have hOlder : ∀ c ∈ older, ¬key b ≤ key c := fun c hc hLess =>
        hLe (hLess.trans ((pairwise_append.mp hSorted).2.2 c hc x mem_cons_self))
      have hInsert := orderedInsert_append_of_not_rel (r := fun a b => key a ≤ key b) hOlder hLe newer
      refine ⟨older, orderedInsert (fun a b => key a ≤ key b) b newer, hInsert, ?_⟩
      rw [orderedInsert_length, hLength, filter_cons_of_pos (by simpa using not_le.mp hLe), length_cons]
      omega

end Keys

theorem mem_take_iff_of_nodup {α : Type u} {older newer : List α} {x : α}
    (h : (older ++ x :: newer).Nodup) (k : ℕ) :
    x ∈ (older ++ x :: newer).take k ↔ older.length < k := by
  have hOlder : x ∉ older := fun hMem => (nodup_append.mp h).2.2 x hMem x mem_cons_self rfl
  rw [take_append, mem_append]
  constructor
  · rintro (hMem | hMem)
    · exact absurd (mem_of_mem_take hMem) hOlder
    · have hPos : 0 < k - older.length :=
        Nat.pos_of_ne_zero fun hZero => by simp [hZero] at hMem
      omega
  · intro hLess
    obtain ⟨rest, hRest⟩ := Nat.exists_eq_add_of_lt hLess
    right
    have hSucc : k - older.length = rest + 1 := by omega
    rw [hSucc, take_succ_cons]
    exact mem_cons_self

end List
