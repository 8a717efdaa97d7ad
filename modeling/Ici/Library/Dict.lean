import Mathlib.Data.List.Induction
import Mathlib.Data.List.Nodup
import Mathlib.Data.List.Perm.Basic
import Ici.Library.Raising

/-! # Dictionaries that keep insertion order

A key keeps the place of its first insertion; assigning to it again replaces its value there. -/

universe u v

abbrev Dict (κ : Type u) (ν : Type v) := List (κ × ν)

namespace Dict

open Option List

variable {κ : Type u} {ν : Type v} [DecidableEq κ]

section

variable (d : Dict κ ν)

def keys : List κ := d.map Prod.fst

def values : List ν := d.map Prod.snd

def get? : Dict κ ν → κ → Option ν
  | [], _ => none
  | (key, value) :: rest, k => if key = k then some value else get? rest k

def set : Dict κ ν → κ → ν → Dict κ ν
  | [], k, v => [(k, v)]
  | (key, value) :: rest, k, v =>
    if key = k then (key, v) :: rest else (key, value) :: set rest k v

def setDefault (k : κ) (v : ν) : Dict κ ν :=
  if (d.get? k).isSome then d else d.set k v

def setAll (pairs : List (κ × ν)) : Dict κ ν :=
  pairs.foldl (fun found pair => found.set pair.1 pair.2) d

@[simp] theorem get?_nil (k : κ) : get? ([] : Dict κ ν) k = none := rfl

theorem get?_set (k k' : κ) (v : ν) : (d.set k v).get? k' = if k = k' then some v else d.get? k' := by
  induction d with
  | nil => rfl
  | cons pair rest ih =>
    obtain ⟨key, value⟩ := pair
    by_cases hKey : key = k
    · subst key
      by_cases hk : k = k' <;> simp [set, get?, hk]
    · by_cases hk : key = k'
      · subst key
        simp [set, get?, hKey, Ne.symm hKey]
      · simp [set, get?, hKey, hk, ih]

@[simp] theorem get?_set_self (k : κ) (v : ν) : (d.set k v).get? k = some v := by
  rw [get?_set, if_pos rfl]

end

variable {k : κ} {d : Dict κ ν} {v : ν} {pairs : List (κ × ν)}

theorem get?_set_of_ne {k' : κ} (h : k ≠ k') (d : Dict κ ν) (v : ν) : (d.set k v).get? k' = d.get? k' := by
  rw [get?_set, if_neg h]

theorem get?_eq_none_iff (d : Dict κ ν) (k : κ) : d.get? k = none ↔ k ∉ d.keys := by
  induction d with
  | nil => simp [keys]
  | cons pair rest ih =>
    obtain ⟨key, value⟩ := pair
    by_cases hKey : key = k
    · simp [get?, keys, hKey]
    · simpa [get?, keys, hKey, Ne.symm hKey] using ih

theorem mem_of_get? (h : d.get? k = some v) : (k, v) ∈ d := by
  induction d with
  | nil => cases h
  | cons pair rest ih =>
    obtain ⟨key, value⟩ := pair
    by_cases hKey : key = k
    · subst key
      simp only [get?, if_true, some.injEq] at h
      exact h ▸ mem_cons_self
    · exact mem_cons_of_mem _ (ih (by simpa [get?, hKey] using h))

theorem get?_of_mem (hd : d.keys.Nodup) {k : κ} {v : ν} (h : (k, v) ∈ d) : d.get? k = some v := by
  induction d with
  | nil => cases h
  | cons pair rest ih =>
    obtain ⟨key, value⟩ := pair
    obtain ⟨hNot, hRest⟩ := nodup_cons.mp hd
    rcases mem_cons.mp h with hEq | hMem
    · cases hEq
      simp [get?]
    · have hne : key ≠ k := by
        rintro rfl
        exact hNot (mem_map.mpr ⟨_, hMem, rfl⟩)
      simpa [get?, hne] using ih hRest hMem

theorem get?_append (d d' : Dict κ ν) (k : κ) : get? (d ++ d') k = (get? d k).or (get? d' k) := by
  induction d with
  | nil => rfl
  | cons pair rest ih =>
    obtain ⟨key, value⟩ := pair
    rw [cons_append, get?, get?, ih]
    split <;> rfl

theorem get?_map {ν' : Type*} (f : ν → ν') (d : Dict κ ν) (k : κ) :
    get? (d.map fun pair => (pair.1, f pair.2)) k = (get? d k).map f := by
  induction d with
  | nil => rfl
  | cons pair rest ih =>
    obtain ⟨key, value⟩ := pair
    rw [map_cons, get?, get?, ih]
    split <;> rfl

theorem map_set {ν' : Type*} (f : ν → ν') (d : Dict κ ν) (k : κ) (v : ν) :
    (d.set k v).map (fun pair => (pair.1, f pair.2)) =
      Dict.set (d.map fun pair => (pair.1, f pair.2)) k (f v) := by
  induction d with
  | nil => rfl
  | cons pair rest ih =>
    obtain ⟨key, value⟩ := pair
    rw [map_cons, set, set]
    split
    · rw [map_cons]
    · rw [map_cons, ih]

theorem get?_perm {d' : Dict κ ν} (hd : d.keys.Nodup) (h : d.Perm d') (k : κ) : d.get? k = d'.get? k := by
  have hd' : d'.keys.Nodup := (h.map Prod.fst).nodup_iff.mp hd
  cases hGet : d.get? k with
  | none =>
    rw [get?_eq_none_iff] at hGet
    exact ((get?_eq_none_iff d' k).mpr fun hMem => hGet ((h.map Prod.fst).mem_iff.mpr hMem)).symm
  | some v => exact (get?_of_mem hd' (h.mem_iff.mp (mem_of_get? hGet))).symm

theorem set_of_notMem (h : k ∉ d.keys) (v : ν) : d.set k v = d ++ [(k, v)] := by
  induction d with
  | nil => rfl
  | cons pair rest ih =>
    obtain ⟨key, value⟩ := pair
    obtain ⟨hne, hRest⟩ := not_or.mp (mt mem_cons.mpr h)
    simp [set, Ne.symm hne, ih hRest]

theorem keys_set (d : Dict κ ν) (k : κ) (v : ν) :
    (d.set k v).keys = if k ∈ d.keys then d.keys else d.keys ++ [k] := by
  induction d with
  | nil => rfl
  | cons pair rest ih =>
    obtain ⟨key, value⟩ := pair
    by_cases hKey : key = k
    · simp [set, keys, hKey]
    · have hSet : keys (set ((key, value) :: rest) k v) = key :: keys (set rest k v) := by
        simp [set, keys, hKey]
      have hCons : keys ((key, value) :: rest) = key :: keys rest := rfl
      rw [hSet, hCons, ih]
      by_cases hMem : k ∈ keys rest
      · rw [if_pos hMem, if_pos (mem_cons_of_mem _ hMem)]
      · rw [if_neg hMem, if_neg (by simp [hMem, Ne.symm hKey])]
        rfl

theorem mem_keys_set (d : Dict κ ν) (k k' : κ) (v : ν) : k' ∈ (d.set k v).keys ↔ k' = k ∨ k' ∈ d.keys := by
  rw [keys_set]
  split
  · rename_i h
    exact ⟨.inr, fun hOr => hOr.elim (fun hEq => hEq ▸ h) id⟩
  · rw [mem_append, mem_singleton, or_comm]

theorem nodup_keys_set (h : d.keys.Nodup) (k : κ) (v : ν) : (d.set k v).keys.Nodup := by
  rw [keys_set]
  split
  · exact h
  · rename_i hNot
    exact Nodup.append h (nodup_singleton k)
      (by simpa [disjoint_singleton] using hNot)

theorem setAll_eq_append {pairs : Dict κ ν} (h : (d.keys ++ pairs.keys).Nodup) :
    d.setAll pairs = d ++ pairs := by
  induction pairs generalizing d with
  | nil => simp [setAll]
  | cons pair rest ih =>
    obtain ⟨k, v⟩ := pair
    have hk : k ∉ d.keys := by
      intro hMem
      exact (disjoint_of_nodup_append h) hMem mem_cons_self
    have hStep : d.setAll ((k, v) :: rest) = (d.set k v).setAll rest := rfl
    rw [hStep, set_of_notMem hk, ih]
    · simp
    · simpa [keys, append_assoc] using h

/-! Many assignments, one after the other. -/

theorem setAll_append (d : Dict κ ν) (first second : List (κ × ν)) :
    d.setAll (first ++ second) = (d.setAll first).setAll second :=
  foldl_append

theorem setAll_concat (d : Dict κ ν) (pairs : List (κ × ν)) (k : κ) (v : ν) :
    d.setAll (pairs ++ [(k, v)]) = (d.setAll pairs).set k v := by
  rw [setAll_append]
  rfl

theorem mem_of_mem_set {pair : κ × ν} (h : pair ∈ d.set k v) : pair = (k, v) ∨ pair ∈ d := by
  induction d with
  | nil => exact .inl (mem_singleton.mp h)
  | cons first rest ih =>
    obtain ⟨key, value⟩ := first
    by_cases hKey : key = k
    · rw [set, if_pos hKey] at h
      rcases mem_cons.mp h with rfl | hRest
      · exact .inl (by rw [hKey])
      · exact .inr (mem_cons_of_mem _ hRest)
    · rw [set, if_neg hKey] at h
      rcases mem_cons.mp h with rfl | hRest
      · exact .inr mem_cons_self
      · exact (ih hRest).imp id (mem_cons_of_mem _)

theorem mem_of_mem_setAll {pair : κ × ν} (h : pair ∈ d.setAll pairs) : pair ∈ d ∨ pair ∈ pairs := by
  induction pairs generalizing d with
  | nil => exact .inl h
  | cons first rest ih =>
    rcases ih (d := d.set first.1 first.2) h with hSet | hRest
    · rcases mem_of_mem_set hSet with rfl | hOld
      · exact .inr mem_cons_self
      · exact .inl hOld
    · exact .inr (mem_cons_of_mem _ hRest)

theorem nodup_keys_setAll (hd : d.keys.Nodup) (pairs : List (κ × ν)) : (d.setAll pairs).keys.Nodup := by
  induction pairs generalizing d with
  | nil => exact hd
  | cons first rest ih => exact ih (nodup_keys_set hd first.1 first.2)

theorem mem_keys_setAll : k ∈ (d.setAll pairs).keys ↔ k ∈ d.keys ∨ ∃ pair ∈ pairs, pair.1 = k := by
  induction pairs generalizing d with
  | nil => simp [setAll]
  | cons first rest ih =>
    have hStep : d.setAll (first :: rest) = (d.set first.1 first.2).setAll rest := rfl
    rw [hStep, ih, mem_keys_set]
    simp only [mem_cons, exists_eq_or_imp]
    rw [eq_comm (a := k)]
    tauto

theorem get?_setAll_of_forall
    (hSame : ∀ pair ∈ pairs, pair.1 = k → pair.2 = v) (hSome : ∃ pair ∈ pairs, pair.1 = k) :
    (d.setAll pairs).get? k = some v := by
  induction pairs using List.reverseRecOn with
  | nil =>
    obtain ⟨pair, hPair, -⟩ := hSome
    cases hPair
  | append_singleton rest last ih =>
    obtain ⟨key, value⟩ := last
    rw [setAll_concat, get?_set]
    split
    · rename_i hKey
      exact congrArg some (hSame (key, value) (mem_append_right _ mem_cons_self) hKey)
    · rename_i hKey
      apply ih
      · intro pair hPair
        exact hSame pair (mem_append_left _ hPair)
      · obtain ⟨pair, hPair, hEq⟩ := hSome
        rcases mem_append.mp hPair with hRest | hLast
        · exact ⟨pair, hRest, hEq⟩
        · cases mem_singleton.mp hLast
          exact absurd hEq hKey

theorem get?_setAll_of_notMem (hNone : ¬∃ pair ∈ pairs, pair.1 = k) : (d.setAll pairs).get? k = d.get? k := by
  induction pairs using List.reverseRecOn with
  | nil => rfl
  | append_singleton rest last ih =>
    obtain ⟨key, value⟩ := last
    have hKey : key ≠ k := fun hEq =>
      hNone ⟨(key, value), mem_append_right _ mem_cons_self, hEq⟩
    rw [setAll_concat, get?_set_of_ne hKey]
    exact ih fun ⟨pair, hPair, hEq⟩ => hNone ⟨pair, mem_append_left _ hPair, hEq⟩

theorem setAll_perm (hd : d.keys.Nodup) (hPairs : (pairs.map Prod.fst).Nodup) :
    (d.setAll pairs).Perm (d.filter (·.1 ∉ pairs.map Prod.fst) ++ pairs) := by
  have hSet := nodup_keys_setAll hd pairs
  have hNew {pair : κ × ν} (h : pair ∈ pairs) : (d.setAll pairs).get? pair.1 = some pair.2 :=
    get?_setAll_of_forall (fun other hOther hKey => congrArg Prod.snd
      (inj_on_of_nodup_map hPairs hOther h hKey)) ⟨pair, h, rfl⟩
  have hOld {pair : κ × ν} (h : pair.1 ∉ pairs.map Prod.fst) : (d.setAll pairs).get? pair.1 = d.get? pair.1 :=
    get?_setAll_of_notMem fun ⟨other, hOther, hKey⟩ => h (mem_map.mpr ⟨other, hOther, hKey⟩)
  refine (perm_ext_iff_of_nodup hSet.of_map ?_).mpr fun pair => ?_
  · refine nodup_append.mpr ⟨hd.of_map.filter _, hPairs.of_map, fun old hFiltered new hPair hEq => ?_⟩
    exact of_decide_eq_true (mem_filter.mp hFiltered).2 (mem_map.mpr ⟨new, hPair,
      congrArg Prod.fst hEq.symm⟩)
  · rw [mem_append, mem_filter, decide_eq_true_eq]
    by_cases hKey : pair.1 ∈ pairs.map Prod.fst
    · constructor
      · intro h
        obtain ⟨other, hOther, hSame⟩ := mem_map.mp hKey
        have hGet := hNew hOther
        rw [hSame, get?_of_mem hSet h, some_inj] at hGet
        rw [show pair = other from Prod.ext hSame.symm hGet]
        exact .inr hOther
      · rintro (⟨-, hNot⟩ | h)
        · exact absurd hKey hNot
        · exact mem_of_get? (hNew h)
    · constructor
      · intro h
        have hGet := hOld hKey
        rw [get?_of_mem hSet h] at hGet
        exact .inl ⟨mem_of_get? hGet.symm, hKey⟩
      · rintro (⟨h, -⟩ | h)
        · refine mem_of_get? ?_
          rw [hOld hKey]
          exact get?_of_mem hd h
        · exact absurd (mem_map_of_mem h) hKey

theorem foldlM_set_eq_ok {ε α : Type*} {d' : Dict κ ν} {key : α → κ} {value : α → Except ε ν} {l : List α} :
    (l.foldlM (fun found a => (value a).map fun v => found.set (key a) v) d = .ok d') ↔
      ∃ vs, List.Forall₂ (fun a v => value a = .ok v) l vs ∧
        d' = d.setAll ((l.map key).zip vs) := by
  induction l generalizing d with
  | nil =>
    constructor
    · intro h
      cases h
      exact ⟨[], .nil, rfl⟩
    · rintro ⟨vs, hVs, rfl⟩
      cases hVs
      rfl
  | cons a l ih =>
    rw [foldlM_cons]
    constructor
    · intro h
      cases hValue : value a with
      | error e =>
        rw [hValue] at h
        cases h
      | ok v =>
        rw [hValue] at h
        obtain ⟨vs, hVs, rfl⟩ := ih.mp h
        exact ⟨v :: vs, .cons hValue hVs, rfl⟩
    · rintro ⟨_, hVs, rfl⟩
      obtain _ | ⟨hValue, hRest⟩ := hVs
      rw [hValue]
      exact ih.mpr ⟨_, hRest, rfl⟩

/-! Grouping a list by a key, as `setdefault(key, []).append(item)` does. -/

section GroupBy

variable {α : Type v} (key : α → κ)

def addTo (groups : Dict κ (List α)) (a : α) : Dict κ (List α) :=
  groups.set (key a) ((groups.get? (key a)).getD [] ++ [a])

section

variable (l : List α)

def groupBy : Dict κ (List α) := l.foldl (addTo key) []

theorem getD_groupBy_from (groups : Dict κ (List α)) (k : κ) :
    ((l.foldl (addTo key) groups).get? k).getD [] =
      (groups.get? k).getD [] ++ l.filter (key · = k) := by
  induction l generalizing groups with
  | nil => simp
  | cons a l ih =>
    rw [foldl_cons, ih, addTo, get?_set]
    by_cases h : key a = k
    · subst h
      simp
    · simp [h]

@[simp] theorem getD_groupBy (k : κ) : ((groupBy key l).get? k).getD [] = l.filter (key · = k) := by
  simpa [groupBy] using getD_groupBy_from key l [] k

theorem keys_groupBy_from (groups : Dict κ (List α)) (hd : groups.keys.Nodup) :
    (l.foldl (addTo key) groups).keys.Nodup ∧
      ∀ k, k ∈ (l.foldl (addTo key) groups).keys ↔ k ∈ groups.keys ∨ ∃ a ∈ l, key a = k := by
  induction l generalizing groups with
  | nil => simpa using hd
  | cons a l ih =>
    obtain ⟨hNodup, hMem⟩ := ih (addTo key groups a) (nodup_keys_set hd _ _)
    refine ⟨hNodup, fun k => ?_⟩
    rw [foldl_cons, hMem, addTo, mem_keys_set]
    constructor
    · rintro ((rfl | hOld) | ⟨b, hb, rfl⟩)
      · exact .inr ⟨a, mem_cons_self, rfl⟩
      · exact .inl hOld
      · exact .inr ⟨b, mem_cons_of_mem _ hb, rfl⟩
    · rintro (hOld | ⟨b, hb, rfl⟩)
      · exact .inl (.inr hOld)
      · rcases mem_cons.mp hb with rfl | hb
        · exact .inl (.inl rfl)
        · exact .inr ⟨b, hb, rfl⟩

theorem nodup_keys_groupBy : (groupBy key l).keys.Nodup :=
  (keys_groupBy_from key l [] nodup_nil).1

theorem mem_keys_groupBy {l : List α} {k : κ} : k ∈ (groupBy key l).keys ↔ ∃ a ∈ l, key a = k := by
  rw [groupBy, (keys_groupBy_from key l [] nodup_nil).2 k]
  simp [keys]

theorem mem_groupBy {l : List α} {k : κ} {members : List α} :
    (k, members) ∈ groupBy key l ↔ members = l.filter (key · = k) ∧ members ≠ [] := by
  have hGet (members : List α) : (k, members) ∈ groupBy key l ↔ (groupBy key l).get? k = some members :=
    ⟨get?_of_mem (nodup_keys_groupBy key l), mem_of_get?⟩
  have hDefault := getD_groupBy key l k
  rw [hGet]
  constructor
  · intro h
    rw [h, getD_some] at hDefault
    refine ⟨hDefault, ?_⟩
    obtain ⟨a, ha, hKey⟩ := (mem_keys_groupBy key).mp
      (mem_map.mpr ⟨(k, members), mem_of_get? h, rfl⟩)
    rw [hDefault]
    exact ne_nil_of_mem (mem_filter.mpr ⟨ha, by simpa using hKey⟩)
  · rintro ⟨rfl, hne⟩
    cases h : (groupBy key l).get? k with
    | none =>
      rw [h, getD_none] at hDefault
      exact absurd hDefault.symm hne
    | some members => rw [h, getD_some] at hDefault; rw [hDefault]

theorem flatMap_set_perm (groups : Dict κ (List α)) (k : κ) (a : α) :
    ((groups.set k ((groups.get? k).getD [] ++ [a])).flatMap Prod.snd).Perm
      (groups.flatMap Prod.snd ++ [a]) := by
  induction groups with
  | nil => simp [set]
  | cons pair rest ih =>
    obtain ⟨key, members⟩ := pair
    by_cases h : key = k
    · simp only [set, get?, h, if_true, getD_some, flatMap_cons, append_assoc]
      exact Perm.append_left _ perm_append_comm
    · simp only [set, get?, h, if_false, flatMap_cons, append_assoc]
      exact Perm.append_left _ ih

theorem flatMap_groupBy_perm : ((groupBy key l).flatMap Prod.snd).Perm l := by
  have hFrom (groups : Dict κ (List α)) :
      ((l.foldl (addTo key) groups).flatMap Prod.snd).Perm (groups.flatMap Prod.snd ++ l) := by
    induction l generalizing groups with
    | nil => simp
    | cons a l ih =>
      rw [foldl_cons, append_cons]
      exact (ih _).trans ((flatMap_set_perm groups (key a) a).append_right l)
  simpa [groupBy] using hFrom []

end

theorem groupBy_congr {other : α → κ} {l : List α} (h : ∀ a ∈ l, key a = other a) :
    groupBy key l = groupBy other l :=
  foldl_ext _ _ _ fun groups a ha => by rw [addTo, addTo, h a ha]

theorem groupBy_map {β : Type*} (f : β → α) (l : List β) :
    groupBy key (l.map f) = (groupBy (key ∘ f) l).map fun group => (group.1, group.2.map f) := by
  have hFrom (groups : Dict κ (List β)) :
      (l.map f).foldl (addTo key) (groups.map fun group => (group.1, group.2.map f)) =
        (l.foldl (addTo (key ∘ f)) groups).map fun group => (group.1, group.2.map f) := by
    induction l generalizing groups with
    | nil => rfl
    | cons b l ih =>
      have hAdd : addTo key (groups.map fun group => (group.1, group.2.map f)) (f b) =
          (addTo (key ∘ f) groups b).map fun group => (group.1, group.2.map f) := by
        rw [addTo, addTo, map_set (List.map f), get?_map (List.map f), Function.comp_apply]
        cases get? groups (key (f b)) <;> simp
      rw [map_cons, foldl_cons, foldl_cons, ← ih, hAdd]
  exact hFrom []

end GroupBy

end Dict
