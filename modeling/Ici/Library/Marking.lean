import Mathlib.Data.List.Perm.Subperm
import Ici.Library.Dict

/-! # Dictionaries of marks

A key is marked once some record of it is. What was recorded is ordered by what it mentions and what
it marks, and a recording is determined by its records as a set. -/

namespace Dict

open List

universe u

variable {κ : Type u}

def countMarked (d : Dict κ Bool) : ℕ := d.values.count true

def marked (d : Dict κ Bool) : List κ := keys (d.filter Prod.snd)

variable {d d' : Dict κ Bool} {records : List (κ × Bool)}

theorem nodup_marked (h : d.keys.Nodup) : d.marked.Nodup :=
  h.sublist (filter_sublist.map Prod.fst)

theorem length_marked (d : Dict κ Bool) : d.marked.length = d.countMarked := by
  unfold marked countMarked keys values
  rw [length_map, count_eq_length_filter, filter_map, length_map]
  congr 1
  refine filter_congr fun pair _ => ?_
  cases hPair : pair.2 <;> simp [hPair]

theorem marked_subset_keys (d : Dict κ Bool) : d.marked ⊆ d.keys :=
  (filter_sublist.map Prod.fst).subset

theorem countMarked_le_length (d : Dict κ Bool) : d.countMarked ≤ d.length := by
  rw [← length_marked]
  unfold marked keys
  rw [length_map]
  exact length_filter_le _ _

variable [DecidableEq κ]

/-- `d[k] = d.get(k, False) or v`. -/
def mark (d : Dict κ Bool) (record : κ × Bool) : Dict κ Bool :=
  d.set record.1 ((d.get? record.1).getD false || record.2)

def markAll (d : Dict κ Bool) (records : List (κ × Bool)) : Dict κ Bool := records.foldl mark d

theorem markAll_append (d : Dict κ Bool) (records more : List (κ × Bool)) :
    d.markAll (records ++ more) = (d.markAll records).markAll more := foldl_append

theorem nodup_keys_markAll (h : d.keys.Nodup) (records : List (κ × Bool)) :
    (d.markAll records).keys.Nodup := by
  induction records generalizing d with
  | nil => exact h
  | cons record records ih => exact ih (nodup_keys_set h _ _)

theorem mem_keys_markAll {k : κ} : k ∈ (d.markAll records).keys ↔ k ∈ d.keys ∨ ∃ v, (k, v) ∈ records := by
  induction records generalizing d with
  | nil => simp [markAll]
  | cons record records ih =>
    obtain ⟨key, value⟩ := record
    change k ∈ ((d.mark (key, value)).markAll records).keys ↔ _
    rw [ih, mark, mem_keys_set]
    constructor
    · rintro ((rfl | hKey) | ⟨v, hMem⟩)
      · exact .inr ⟨value, mem_cons_self⟩
      · exact .inl hKey
      · exact .inr ⟨v, mem_cons_of_mem _ hMem⟩
    · rintro (hKey | ⟨v, hMem⟩)
      · exact .inl (.inr hKey)
      · rcases mem_cons.mp hMem with hEq | hMem
        · cases hEq
          exact .inl (.inl rfl)
        · exact .inr ⟨v, hMem⟩

theorem get?_markAll_eq_true_iff {k : κ} :
    (d.markAll records).get? k = some true ↔ d.get? k = some true ∨ (k, true) ∈ records := by
  induction records generalizing d with
  | nil => simp [markAll]
  | cons record records ih =>
    obtain ⟨key, value⟩ := record
    have hStep : (d.mark (key, value)).get? k = some true ↔
        d.get? k = some true ∨ (k, true) = (key, value) := by
      rw [mark, get?_set]
      by_cases hKey : key = k
      · subst hKey
        rw [if_pos rfl]
        cases hGet : d.get? key with
        | none => cases value <;> simp
        | some found => cases found <;> cases value <;> simp
      · rw [if_neg hKey]
        have hNe : (k, true) ≠ (key, value) := fun hEq => hKey (congrArg Prod.fst hEq).symm
        simp [hNe]
    change ((d.mark (key, value)).markAll records).get? k = some true ↔ _
    rw [ih, hStep, mem_cons, or_assoc]

theorem mem_marked_iff (h : d.keys.Nodup) {k : κ} : k ∈ d.marked ↔ d.get? k = some true := by
  unfold marked keys
  constructor
  · intro hMem
    obtain ⟨⟨key, value⟩, hPair, rfl⟩ := mem_map.mp hMem
    obtain ⟨hPair, hValue⟩ := mem_filter.mp hPair
    obtain rfl : value = true := hValue
    exact get?_of_mem h hPair
  · intro hGet
    exact mem_map.mpr ⟨(k, true), mem_filter.mpr ⟨mem_of_get? hGet, rfl⟩, rfl⟩

theorem length_mark (d : Dict κ Bool) (record : κ × Bool) :
    (d.mark record).length = if record.1 ∈ d.keys then d.length else d.length + 1 := by
  have hKeys := congrArg List.length (keys_set d record.1 ((d.get? record.1).getD false || record.2))
  have hLength (d : Dict κ Bool) : d.keys.length = d.length := length_map _
  rw [hLength] at hKeys
  rw [mark, hKeys]
  split <;> simp [hLength]

theorem mark_of_notMem {record : κ × Bool} (h : record.1 ∉ d.keys) : d.mark record = d ++ [record] := by
  rw [mark, set_of_notMem h, (get?_eq_none_iff d record.1).mpr h]
  rfl

theorem length_markAll_le (d : Dict κ Bool) (records : List (κ × Bool)) :
    (d.markAll records).length ≤ d.length + records.length := by
  induction records generalizing d with
  | nil => exact Nat.le_refl _
  | cons record records ih =>
    have hRest := ih (d.mark record)
    have hFirst := length_mark d record
    rw [length_cons]
    change ((d.mark record).markAll records).length ≤ _
    split at hFirst <;> omega

theorem markAll_of_nodup (h : (keys (d ++ records)).Nodup) : d.markAll records = d ++ records := by
  induction records generalizing d with
  | nil => exact (append_nil d).symm
  | cons record records ih =>
    have hSplit : d ++ record :: records = (d ++ [record]) ++ records := by simp
    rw [hSplit] at h ⊢
    have hNew : record.1 ∉ d.keys := by
      intro hOld
      rw [keys, map_append, map_append] at h
      have hFront := (nodup_append.mp h).1
      exact (nodup_append.mp hFront).2.2 _ hOld _ (mem_singleton_self _) rfl
    change (d.mark record).markAll records = _
    rw [mark_of_notMem hNew, ih h]

theorem length_markAll_eq_iff :
    (markAll [] records).length = records.length ↔ (records.map Prod.fst).Nodup := by
  have hRun (d : Dict κ Bool) (hd : d.keys.Nodup)
      (hLength : (d.markAll records).length = d.length + records.length) : (keys (d ++ records)).Nodup := by
    induction records generalizing d with
    | nil => rwa [append_nil]
    | cons record records ih =>
      have hRest := length_markAll_le (d.mark record) records
      have hFirst := length_mark d record
      rw [length_cons] at hLength
      change ((d.mark record).markAll records).length = _ at hLength
      by_cases hOld : record.1 ∈ d.keys
      · rw [if_pos hOld] at hFirst
        omega
      · rw [if_neg hOld] at hFirst
        have hNodup := ih (d.mark record) (nodup_keys_set hd _ _) (by omega)
        rw [mark_of_notMem hOld, append_assoc] at hNodup
        exact hNodup
  constructor
  · intro h
    exact hRun [] nodup_nil (by rw [h, length_nil, Nat.zero_add])
  · intro h
    rw [markAll_of_nodup (d := []) h]
    rfl

structure Below (d d' : Dict κ Bool) : Prop where
  keys : d.keys ⊆ d'.keys
  marks : ∀ k, d.get? k = some true → d'.get? k = some true

theorem markAll_below {records' : List (κ × Bool)} (h : records ⊆ records') :
    Below (markAll [] records) (markAll [] records') where
  keys k hKey := by
    rcases mem_keys_markAll.mp hKey with hNone | ⟨v, hMem⟩
    · cases hNone
    · exact mem_keys_markAll.mpr (.inr ⟨v, h hMem⟩)
  marks k hMark := by
    rcases get?_markAll_eq_true_iff.mp hMark with hNone | hMem
    · cases hNone
    · exact get?_markAll_eq_true_iff.mpr (.inr (h hMem))

theorem Below.countMarked_le (h : Below d d') (hd : d.keys.Nodup)
    (hd' : d'.keys.Nodup) : d.countMarked ≤ d'.countMarked := by
  rw [← length_marked, ← length_marked]
  have hSubset : d.marked ⊆ d'.marked := fun k hk =>
    (mem_marked_iff hd').mpr (h.marks k ((mem_marked_iff hd).mp hk))
  exact (subperm_of_subset (nodup_marked hd) hSubset).length_le

theorem Below.length_le (h : Below d d') (hd : d.keys.Nodup) : d.length ≤ d'.length := by
  have hLength := (subperm_of_subset hd h.keys).length_le
  rwa [Dict.keys, Dict.keys, length_map, length_map] at hLength

theorem Below.perm (h : Below d d') (h' : Below d' d) (hd : d.keys.Nodup)
    (hd' : d'.keys.Nodup) : d.Perm d' := by
  have hGet (k : κ) : d.get? k = d'.get? k := by
    cases hk : d.get? k with
    | none =>
      rw [get?_eq_none_iff] at hk
      exact ((get?_eq_none_iff d' k).mpr fun hKey => hk (h'.keys hKey)).symm
    | some value =>
      have hKey : k ∈ d'.keys := h.keys (mem_map_of_mem (mem_of_get? hk))
      obtain ⟨value', hk'⟩ := Option.ne_none_iff_exists'.mp
        (mt (get?_eq_none_iff d' k).mp (not_not.mpr hKey))
      rw [hk']
      cases value with
      | true => rw [← hk', h.marks k hk]
      | false =>
        cases value' with
        | false => rfl
        | true => rw [h'.marks k hk'] at hk; cases hk
  refine (perm_ext_iff_of_nodup (Nodup.of_map _ hd) (Nodup.of_map _ hd')).mpr ?_
  rintro ⟨k, value⟩
  exact ⟨fun hMem => mem_of_get? (hGet k ▸ get?_of_mem hd hMem),
    fun hMem => mem_of_get? ((hGet k).symm ▸ get?_of_mem hd' hMem)⟩

end Dict
