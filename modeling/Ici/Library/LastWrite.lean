import Ici.Library.Dict

/-! # Folds whose items overwrite

Where each item that matters replaces what the items before it left, the last one decides. -/

namespace Library

open Option List

universe u v

variable {α : Type u} {γ : Type v}

def lastWrite (p : α → Bool) (g : α → γ) (start : γ) (l : List α) : γ :=
  l.foldl (fun held a => if p a then g a else held) start

variable {p : α → Bool} {g : α → γ} {start : γ}

@[simp] theorem lastWrite_nil : lastWrite p g start [] = start := rfl

@[simp] theorem lastWrite_cons (a : α) (l : List α) :
    lastWrite p g start (a :: l) = lastWrite p g (if p a then g a else start) l := rfl

theorem lastWrite_concat (l : List α) (a : α) :
    lastWrite p g start (l ++ [a]) = if p a then g a else lastWrite p g start l := by
  rw [lastWrite, foldl_append, foldl_cons, foldl_nil, lastWrite]

theorem lastWrite_of_forall_not {l : List α} (h : ∀ a ∈ l, p a = false) : lastWrite p g start l = start := by
  induction l with
  | nil => rfl
  | cons a l ih =>
    rw [lastWrite_cons, h a mem_cons_self, if_neg Bool.false_ne_true]
    exact ih fun b hb => h b (mem_cons_of_mem a hb)

theorem exists_lastWrite_eq {l : List α} {a : α} (ha : a ∈ l) (hp : p a = true) :
    ∃ b ∈ l, p b = true ∧ lastWrite p g start l = g b := by
  induction l using List.reverseRecOn with
  | nil => exact nomatch ha
  | append_singleton l last ih =>
    rw [lastWrite_concat]
    by_cases hLast : p last = true
    · exact ⟨last, by simp, hLast, if_pos hLast⟩
    · have hEarlier : a ∈ l := by
        rcases mem_append.mp ha with hIn | hIn
        · exact hIn
        · obtain rfl := mem_singleton.mp hIn
          exact absurd hp hLast
      obtain ⟨b, hb, hWrites, hEq⟩ := ih hEarlier
      exact ⟨b, mem_append_left _ hb, hWrites, by rw [if_neg hLast, hEq]⟩

theorem lastWrite_perm_iff {l : List α} :
    (∀ l' : List α, l'.Perm l → lastWrite p g start l' = lastWrite p g start l) ↔
      ∀ a ∈ l, ∀ b ∈ l, p a = true → p b = true → g a = g b := by
  constructor
  · intro h
    -- each writer can be moved to the end
    have hMoved (a : α) (ha : a ∈ l) (hp : p a = true) : g a = lastWrite p g start l := by
      obtain ⟨front, back, rfl⟩ := append_of_mem ha
      have hPerm : (front ++ back ++ [a]).Perm (front ++ a :: back) := by
        rw [append_assoc]
        exact (perm_append_singleton a back).append_left front
      rw [← h _ hPerm, lastWrite_concat, if_pos hp]
    intro a ha b hb hpa hpb
    rw [hMoved a ha hpa, hMoved b hb hpb]
  · intro h l' hPerm
    by_cases hWritten : ∃ a ∈ l, p a = true
    · obtain ⟨a, ha, hp⟩ := hWritten
      obtain ⟨b, hb, hpb, hEq⟩ := @exists_lastWrite_eq _ _ p g start _ _ ha hp
      obtain ⟨c, hc, hpc, hEq'⟩ := @exists_lastWrite_eq _ _ p g start _ _ (hPerm.mem_iff.mpr ha) hp
      rw [hEq, hEq', h c (hPerm.mem_iff.mp hc) b hb hpc hpb]
    · have hNone (a : α) (ha : a ∈ l) : p a = false := by
        simpa using fun hp => hWritten ⟨a, ha, hp⟩
      rw [lastWrite_of_forall_not hNone, lastWrite_of_forall_not fun a ha => hNone a (hPerm.mem_iff.mp ha)]

section Logs

variable {κ ν : Type*} [DecidableEq κ]

def lastNamed (pairs : List (κ × ν)) (k : κ) : Option ν := (pairs.filter (·.1 = k)).getLast?.map Prod.snd

theorem lastNamed_append (front back : List (κ × ν)) (k : κ) :
    lastNamed (front ++ back) k = (lastNamed back k).or (lastNamed front k) := by
  rw [lastNamed, filter_append, getLast?_append, map_or, lastNamed, lastNamed]

theorem lastNamed_eq_none_iff {pairs : List (κ × ν)} {k : κ} :
    lastNamed pairs k = none ↔ ∀ v, (k, v) ∉ pairs := by
  rw [lastNamed, map_eq_none_iff, getLast?_eq_none_iff, filter_eq_nil_iff]
  constructor
  · intro h v hMem
    exact h (k, v) hMem (decide_eq_true rfl)
  · rintro h ⟨key, v⟩ hMem hKey
    obtain rfl := of_decide_eq_true hKey
    exact h v hMem

theorem get?_setAll (d : Dict κ ν) (pairs : List (κ × ν)) (k : κ) :
    (d.setAll pairs).get? k = (lastNamed pairs k).or (d.get? k) := by
  induction pairs using List.reverseRecOn with
  | nil => rfl
  | append_singleton rest last ih =>
    obtain ⟨key, v⟩ := last
    rw [Dict.setAll_concat, Dict.get?_set, lastNamed_append, ih]
    by_cases hKey : key = k <;> simp [lastNamed, hKey]

/-- A log beside what stays of it: the entries that count are kept whole, of the others nothing is.
Both end with the same values unless an entry that does not count is the last one of a key. -/
theorem lastNamed_flatMap_eq_iff {log own : α → List (κ × ν)} (hOwn : ∀ a, own a = log a ∨ own a = [])
    (entries : List α) :
    (∀ k, lastNamed (entries.flatMap log) k = lastNamed (entries.flatMap own) k) ↔
      ∀ front a back k v, entries = front ++ a :: back → own a = [] → lastNamed (log a) k = some v →
        (∀ b ∈ back, ∀ w, (k, w) ∉ log b) → lastNamed (entries.flatMap own) k = some v := by
  have hNone {l : List α} {k : κ} (h : ∀ b ∈ l, ∀ w, (k, w) ∉ log b) :
      lastNamed (l.flatMap log) k = none ∧ lastNamed (l.flatMap own) k = none := by
    simp only [lastNamed_eq_none_iff, mem_flatMap, not_exists, not_and]
    refine ⟨fun v b hb => h b hb v, fun v b hb hMem => ?_⟩
    rcases hOwn b with hSame | hNil
    · exact h b hb v (hSame ▸ hMem)
    · rw [hNil] at hMem
      cases hMem
  have hSplit (f : α → List (κ × ν)) (front : List α) (a : α) (back : List α) (k : κ)
      (h : lastNamed (back.flatMap f) k = none) :
      lastNamed ((front ++ a :: back).flatMap f) k =
        (lastNamed (f a) k).or (lastNamed (front.flatMap f) k) := by
    rw [flatMap_append, flatMap_cons, lastNamed_append, lastNamed_append, h, none_or]
  constructor
  · rintro h front a back k v rfl - hLast hBack
    rw [← h k, hSplit log front a back k (hNone hBack).1, hLast, some_or]
  · intro h k
    -- the last entry that names the key decides
    by_cases hNamed : ∃ a ∈ entries, lastNamed (log a) k ≠ none
    · obtain ⟨a, ha, hLog⟩ := hNamed
      obtain ⟨a, front, back, hEntries, hLog, hBack⟩ :
          ∃ a front back, entries = front ++ a :: back ∧ lastNamed (log a) k ≠ none ∧
            ∀ b ∈ back, ∀ w, (k, w) ∉ log b := by
        clear h
        induction entries generalizing a with
        | nil => cases ha
        | cons b rest ih =>
          by_cases hRest : ∃ a ∈ rest, lastNamed (log a) k ≠ none
          · obtain ⟨c, hc, hNe⟩ := hRest
            obtain ⟨d, front, back, rfl, hd, hBack⟩ := ih c hc hNe
            exact ⟨d, b :: front, back, rfl, hd, hBack⟩
          · have hRest' (c : α) (hc : c ∈ rest) (w : ν) : (k, w) ∉ log c :=
              lastNamed_eq_none_iff.mp (not_not.mp fun hNe => hRest ⟨c, hc, hNe⟩) w
            rcases mem_cons.mp ha with rfl | hIn
            · exact ⟨a, [], rest, rfl, hLog, hRest'⟩
            · exact absurd ⟨a, hIn, hLog⟩ hRest
      obtain ⟨v, hv⟩ := ne_none_iff_exists'.mp hLog
      rcases hOwn a with hSame | hNil
      · rw [hEntries, hSplit log front a back k (hNone hBack).1, hSplit own front a back k (hNone hBack).2,
        hSame, hv, some_or, some_or]
      · rw [h front a back k v hEntries hNil hv hBack, hEntries, hSplit log front a back k (hNone hBack).1,
        hv, some_or]
    · have hAll (a : α) (ha : a ∈ entries) (w : ν) : (k, w) ∉ log a :=
        lastNamed_eq_none_iff.mp (not_not.mp fun hNe => hNamed ⟨a, ha, hNe⟩) w
      rw [(hNone hAll).1, (hNone hAll).2]

end Logs

theorem foldlM_eq_ite {ε σ : Type*} {step : σ → α → Except ε σ} {refused : α → Bool} {e : ε}
    {apply : σ → α → σ} (hStep : ∀ s a, step s a = if refused a then .error e else .ok (apply s a))
    (l : List α) (s : σ) :
    l.foldlM step s = if l.any refused then .error e else .ok (l.foldl apply s) := by
  induction l generalizing s with
  | nil => rfl
  | cons a l ih =>
    rw [foldlM_cons, hStep, any_cons, foldl_cons]
    cases refused a
    · exact ih (apply s a)
    · rfl

end Library
