import Mathlib.Data.List.Sort
import Ici.Library.Dict

/-! # Matching two lists of occurrences

Occurrences are sorted by their keys. Those at one place are paired in that order, what is left
over on both sides is paired in order again, and the rest has no counterpart. -/

namespace Matching

open Dict List Dict Function

universe u v w x

inductive Fate (α : Type u) (β : Type v) where
  | same (a : α) (b : β)
  | moved (a : α) (b : β)
  | fresh (a : α)
  | gone (b : β)
deriving DecidableEq

namespace Fate

variable {α : Type u} {α' : Type*} {β : Type v} {β' : Type*}

def left : Fate α β → Option α
  | same a _ | moved a _ | fresh a => some a
  | gone _ => none

def right : Fate α β → Option β
  | same _ b | moved _ b | gone b => some b
  | fresh _ => none

section

variable (f : α → α') (g : β → β')

def map : Fate α β → Fate α' β'
  | same a b => same (f a) (g b)
  | moved a b => moved (f a) (g b)
  | fresh a => fresh (f a)
  | gone b => gone (g b)

theorem map_map {α'' β'' : Type*} (f : α → α') (g : β → β') (f' : α' → α'') (g' : β' → β'')
    (p : Fate α β) : (p.map f g).map f' g' = p.map (f' ∘ f) (g' ∘ g) := by
  cases p <;> rfl

@[simp] theorem left_map (p : Fate α β) : (p.map f g).left = p.left.map f := by
  cases p <;> rfl

@[simp] theorem right_map (p : Fate α β) : (p.map f g).right = p.right.map g := by
  cases p <;> rfl

end

end Fate

variable {α : Type u} {β : Type v} {κ : Type w} {π : Type x}

/-- What one pass over the first list leaves: the pairs, the unpaired, and what still waits. -/
structure Pass (α : Type u) (β : Type v) (π : Type x) where
  pairs : List (α × β)
  left : List α
  waiting : Dict π (List β)

section

variable [DecidableEq π] (at' : α → π)

def Pass.at (waiting : Dict π (List β)) (p : π) : List β := (waiting.get? p).getD []

def pass : List α → Dict π (List β) → Pass α β π
  | [], waiting => ⟨[], [], waiting⟩
  | a :: rest, waiting =>
    match Pass.at waiting (at' a) with
    | [] =>
      let later := pass rest waiting
      { later with left := a :: later.left }
    | b :: others =>
      let later := pass rest (waiting.set (at' a) others)
      { later with pairs := (a, b) :: later.pairs }

theorem at_set (waiting : Dict π (List β)) (p q : π) (items : List β) :
    Pass.at (waiting.set p items) q = if p = q then items else Pass.at waiting q := by
  unfold Pass.at
  rw [get?_set]
  split <;> rfl

section

variable (l : List α) (waiting : Dict π (List β))

theorem pass_at (p : π) : ((pass at' l waiting).pairs.filter (at' ·.1 = p)) =
        (l.filter (at' · = p)).zip (Pass.at waiting p) ∧
      ((pass at' l waiting).left.filter (at' · = p)) =
        (l.filter (at' · = p)).drop (Pass.at waiting p).length ∧
      Pass.at (pass at' l waiting).waiting p =
        (Pass.at waiting p).drop (l.filter (at' · = p)).length := by
  induction l generalizing waiting with
  | nil => simp [pass]
  | cons a rest ih =>
    unfold pass
    split
    · rename_i hNone
      obtain ⟨hPairs, hLeft, hWaiting⟩ := ih waiting
      by_cases hp : at' a = p
      · subst hp
        simp_all
      · simp_all
    · rename_i b others hSome
      obtain ⟨hPairs, hLeft, hWaiting⟩ := ih (waiting.set (at' a) others)
      rw [at_set] at hPairs hLeft hWaiting
      by_cases hp : at' a = p
      · subst hp
        simp_all
      · simp_all

theorem pass_left_perm : ((pass at' l waiting).pairs.map Prod.fst ++ (pass at' l waiting).left).Perm l := by
  induction l generalizing waiting with
  | nil => simp [pass]
  | cons a rest ih =>
    unfold pass
    split
    · exact perm_middle.trans ((ih waiting).cons a)
    · rename_i b others hSome
      exact (ih _).cons a

theorem flatMap_set_perm {waiting : Dict π (List β)} {p : π} {b : β} {others : List β}
    (h : Pass.at waiting p = b :: others) :
    (b :: (waiting.set p others).flatMap Prod.snd).Perm (waiting.flatMap Prod.snd) := by
  induction waiting with
  | nil => cases h
  | cons first rest ih =>
    obtain ⟨q, items⟩ := first
    by_cases hq : q = p
    · subst hq
      have hItems : items = b :: others := by simpa [Pass.at, get?] using h
      simp [Dict.set, hItems]
    · have hRest : Pass.at rest p = b :: others := by simpa [Pass.at, get?, hq] using h
      simp only [Dict.set, hq, if_false, flatMap_cons]
      exact perm_middle.symm.trans ((ih hRest).append_left items)

theorem pass_right_perm : ((pass at' l waiting).pairs.map Prod.snd ++
      (pass at' l waiting).waiting.flatMap Prod.snd).Perm (waiting.flatMap Prod.snd) := by
  induction l generalizing waiting with
  | nil => simp [pass]
  | cons a rest ih =>
    unfold pass
    split
    · exact ih waiting
    · rename_i b others hSome
      exact ((ih _).cons b).trans (flatMap_set_perm hSome)

end

theorem mem_set {ν : Type*} {waiting : Dict π ν} {p q : π} {items items' : ν}
    (h : (q, items') ∈ waiting.set p items) : (q, items') ∈ waiting ∨ (q = p ∧ items' = items) := by
  rcases mem_of_mem_set h with hNew | hOld
  · exact .inr (Prod.mk.inj hNew)
  · exact .inl hOld

theorem pass_waiting (atB : β → π) (l : List α) {waiting : Dict π (List β)}
    (hKeys : waiting.keys.Nodup) (hAt : ∀ q items, (q, items) ∈ waiting → ∀ b ∈ items, atB b = q) :
    (pass at' l waiting).waiting.keys.Nodup ∧
      ∀ q items, (q, items) ∈ (pass at' l waiting).waiting → ∀ b ∈ items, atB b = q := by
  induction l generalizing waiting with
  | nil => exact ⟨hKeys, hAt⟩
  | cons a rest ih =>
    unfold pass
    split
    · exact ih hKeys hAt
    · rename_i b others hSome
      refine ih (nodup_keys_set hKeys _ _) fun q items hEntry b' hb' => ?_
      rcases mem_set hEntry with hOld | ⟨rfl, rfl⟩
      · exact hAt q items hOld b' hb'
      · unfold Pass.at at hSome
        cases hGet : waiting.get? (at' a) with
        | none =>
          rw [hGet] at hSome
          cases hSome
        | some found =>
          rw [hGet] at hSome
          refine hAt _ found (mem_of_get? hGet) b' ?_
          rw [show found = b :: items from hSome]
          exact mem_cons_of_mem b hb'

variable {α' β' : Type*}

def renamed (g : β → β') (waiting : Dict π (List β)) : Dict π (List β') :=
  waiting.map fun entry => (entry.1, entry.2.map g)

section

variable (g : β → β') (waiting : Dict π (List β)) (p : π)

theorem get?_renamed : (renamed g waiting).get? p = (waiting.get? p).map (·.map g) := by
  induction waiting with
  | nil => rfl
  | cons entry rest ih =>
    unfold renamed at ih ⊢
    simp only [map_cons, get?, ih]
    split <;> rfl

theorem at_renamed : Pass.at (renamed g waiting) p = (Pass.at waiting p).map g := by
  unfold Pass.at
  rw [get?_renamed]
  cases waiting.get? p <;> rfl

theorem renamed_set (items : List β) :
    renamed g (waiting.set p items) = (renamed g waiting).set p (items.map g) := by
  induction waiting with
  | nil => rfl
  | cons entry rest ih =>
    unfold renamed at ih ⊢
    simp only [Dict.set, map_cons]
    split
    · rfl
    · rw [map_cons, ih]

end

theorem pass_renamed (f : α → α') (g : β → β') {at' : α' → π} (l : List α) (waiting : Dict π (List β)) :
    pass at' (l.map f) (renamed g waiting) =
      { pairs := (pass (at' ∘ f) l waiting).pairs.map (Prod.map f g)
        left := (pass (at' ∘ f) l waiting).left.map f
        waiting := renamed g (pass (at' ∘ f) l waiting).waiting } := by
  induction l generalizing waiting with
  | nil => rfl
  | cons a rest ih =>
    rw [map_cons, pass, pass, at_renamed, comp_apply]
    cases Pass.at waiting (at' (f a)) with
    | nil => simp [ih]
    | cons b others => simp [ih, ← renamed_set]

theorem groupBy_renamed (g : β → β') (at' : β' → π) (l : List β) :
    renamed g (groupBy (at' ∘ g) l) = groupBy at' (l.map g) := by
  unfold groupBy
  suffices h : ∀ groups : Dict π (List β), renamed g (l.foldl (addTo (at' ∘ g)) groups) =
        (l.map g).foldl (addTo at') (renamed g groups) from h []
  induction l with
  | nil => exact fun _ => rfl
  | cons b rest ih =>
    intro groups
    rw [map_cons, foldl_cons, foldl_cons, ih]
    unfold addTo
    rw [renamed_set, get?_renamed, comp_apply]
    cases groups.get? (at' (g b)) <;> simp

end

/-! ## The whole comparison -/

section

variable [LinearOrder κ] [DecidableEq π] (place : κ → π) (keyA : α → κ) (keyB : β → κ)

def sorted {γ : Type*} (key : γ → κ) (l : List γ) : List γ := l.insertionSort (key · ≤ key ·)

section

variable (l : List α) (m : List β)

def firstPass : Pass α β π :=
  pass (place ∘ keyA) (sorted keyA l) (groupBy (place ∘ keyB) (sorted keyB m))

def leftOver : List β :=
  sorted keyB ((firstPass place keyA keyB l m).waiting.flatMap Prod.snd)

def compare : List (Fate α β) :=
  let first := firstPass place keyA keyB l m
  let unpaired := leftOver place keyA keyB l m
  let count := min first.left.length unpaired.length
  first.pairs.map (fun pair => .same pair.1 pair.2) ++ List.zipWith .moved first.left unpaired ++
    (first.left.drop count).map .fresh ++ (unpaired.drop count).map .gone

end

section

variable {γ : Type*} (key : γ → κ)

theorem sorted_perm (l : List γ) : (sorted key l).Perm l :=
  perm_insertionSort _ l

theorem sorted_map {γ δ : Type*} (key : δ → κ) (f : γ → δ) (l : List γ) :
    sorted key (l.map f) = (sorted (key ∘ f) l).map f :=
  (map_insertionSort _ _ f l fun _ _ _ _ => Iff.rfl).symm

theorem pairwise_sorted (l : List γ) : (sorted key l).Pairwise (key · ≤ key ·) :=
  have : Std.Total fun a b : γ => key a ≤ key b := ⟨fun a b => le_total (key a) (key b)⟩
  have : IsTrans γ fun a b : γ => key a ≤ key b := ⟨fun _ _ _ => le_trans⟩
  pairwise_insertionSort _ l

theorem sorted_of_pairwise {γ : Type*} {key : γ → κ} {l : List γ}
    (h : l.Pairwise (key · ≤ key ·)) : sorted key l = l := h.insertionSort_eq

theorem sorted_sorted (l : List γ) :
    sorted key (sorted key l) = sorted key l := sorted_of_pairwise (pairwise_sorted key l)

theorem map_sorted_eq {l l' : List γ} (h : l'.Perm l) :
    (sorted key l').map key = (sorted key l).map key := by
  have hPerm := (((sorted_perm key l').trans h).trans (sorted_perm key l).symm).map key
  exact hPerm.eq_of_pairwise' (pairwise_map.mpr (pairwise_sorted key l'))
    (pairwise_map.mpr (pairwise_sorted key l))

end

variable {place keyA keyB}

section

variable {α' β' : Type*} (f : α → α') (g : β → β') {keyA : α' → κ} {keyB : β' → κ} (l : List α)

theorem firstPass_renamed (m : List β) : firstPass place keyA keyB (l.map f) (m.map g) =
      { pairs := (firstPass place (keyA ∘ f) (keyB ∘ g) l m).pairs.map (Prod.map f g)
        left := (firstPass place (keyA ∘ f) (keyB ∘ g) l m).left.map f
        waiting := renamed g (firstPass place (keyA ∘ f) (keyB ∘ g) l m).waiting } := by
  unfold firstPass
  rw [sorted_map, sorted_map, ← groupBy_renamed]
  exact pass_renamed f g _ _

theorem leftOver_renamed (m : List β) : leftOver place keyA keyB (l.map f) (m.map g) =
      (leftOver place (keyA ∘ f) (keyB ∘ g) l m).map g := by
  unfold leftOver
  rw [firstPass_renamed, ← sorted_map]
  congr 1
  simp only [renamed, flatMap_map, map_flatMap]

theorem compare_renamed (m : List β) : compare place keyA keyB (l.map f) (m.map g) =
      (compare place (keyA ∘ f) (keyB ∘ g) l m).map (Fate.map f g) := by
  unfold compare
  rw [firstPass_renamed, leftOver_renamed]
  simp [map_zipWith, zipWith_map, Fate.map, map_drop, comp_def]

end

section

variable (l : List α) (m : List β)

theorem compare_sorted :
    compare place keyA keyB (sorted keyA l) (sorted keyB m) = compare place keyA keyB l m := by
  unfold compare leftOver firstPass
  rw [sorted_sorted, sorted_sorted]

theorem filterMap_left_moved :
    (List.zipWith Fate.moved l m).filterMap Fate.left = l.take (min l.length m.length) := by
  induction l generalizing m with
  | nil => simp
  | cons a rest ih =>
    cases m with
    | nil => simp
    | cons b others => simp [Fate.left, ih, Nat.succ_min_succ]

theorem filterMap_right_moved :
    (List.zipWith Fate.moved l m).filterMap Fate.right = m.take (min l.length m.length) := by
  induction l generalizing m with
  | nil => simp
  | cons a rest ih =>
    cases m with
    | nil => simp
    | cons b others => simp [Fate.right, ih, Nat.succ_min_succ]

theorem firstPass_left_perm : ((firstPass place keyA keyB l m).pairs.map Prod.fst ++
      (firstPass place keyA keyB l m).left).Perm l :=
  (pass_left_perm (place ∘ keyA) (sorted keyA l)
    (groupBy (place ∘ keyB) (sorted keyB m))).trans (sorted_perm keyA l)

theorem firstPass_right_perm : ((firstPass place keyA keyB l m).pairs.map Prod.snd ++
      leftOver place keyA keyB l m).Perm m := by
  have hGroups : ((groupBy (place ∘ keyB) (sorted keyB m)).flatMap Prod.snd).Perm m :=
    (flatMap_groupBy_perm (place ∘ keyB) (sorted keyB m)).trans (sorted_perm keyB m)
  have hPerm := (pass_right_perm (place ∘ keyA) (sorted keyA l)
    (groupBy (place ∘ keyB) (sorted keyB m))).trans hGroups
  exact ((sorted_perm keyB _).append_left _).trans hPerm

theorem compare_left_perm : ((compare place keyA keyB l m).filterMap Fate.left).Perm l := by
  have hShape : (compare place keyA keyB l m).filterMap Fate.left =
      (firstPass place keyA keyB l m).pairs.map Prod.fst ++
        (firstPass place keyA keyB l m).left := by
    unfold compare
    simp only [filterMap_append, filterMap_map, filterMap_left_moved, comp_def, Fate.left,
      filterMap_eq_map', filterMap_some, filterMap_none, append_nil, append_assoc, take_append_drop]
  rw [hShape]
  exact firstPass_left_perm l m

theorem compare_right_perm : ((compare place keyA keyB l m).filterMap Fate.right).Perm m := by
  have hShape : (compare place keyA keyB l m).filterMap Fate.right =
      (firstPass place keyA keyB l m).pairs.map Prod.snd ++ leftOver place keyA keyB l m := by
    unfold compare
    simp only [filterMap_append, filterMap_map, filterMap_right_moved, comp_def, Fate.right,
      filterMap_eq_map', filterMap_some, filterMap_none, nil_append, append_assoc, take_append_drop]
  rw [hShape]
  exact firstPass_right_perm l m

end

section Sorted

variable {γ : Type*} {r : γ → γ → Prop} (holds : γ → Bool) {l : List γ}

theorem holds_getElem_iff (hDown : ∀ a b, r a b → holds b = true → holds a = true)
    (hSorted : l.Pairwise r) {i : ℕ} (hi : i < l.length) :
    holds l[i] = true ↔ i < l.countP holds := by
  induction l generalizing i with
  | nil => cases hi
  | cons a rest ih =>
    obtain ⟨hFirst, hRest⟩ := pairwise_cons.mp hSorted
    by_cases ha : holds a = true
    · rw [countP_cons_of_pos ha]
      cases i with
      | zero => simpa using ha
      | succ i =>
        rw [getElem_cons_succ, ih hRest (Nat.lt_of_succ_lt_succ hi)]
        omega
    · have hNone : rest.countP holds = 0 :=
        countP_eq_zero.mpr fun b hb hHolds => ha (hDown a b (hFirst b hb) hHolds)
      rw [countP_cons_of_neg ha, hNone]
      refine iff_of_false (fun hHolds => ha ?_) (Nat.not_lt_zero i)
      cases i with
      | zero => exact hHolds
      | succ i => exact hDown a _ (hFirst _ (getElem_mem _)) hHolds

theorem forall_zip_le_iff {r' : β → β → Prop} {rank : γ → ℕ} {rank' : β → ℕ} {m : List β}
    (hl : l.Pairwise r) (hm : m.Pairwise r') (hRank : ∀ a b, r a b → rank a ≤ rank b)
    (hRank' : ∀ a b, r' a b → rank' a ≤ rank' b) (hLength : l.length ≤ m.length) :
    (∀ pair ∈ l.zip m, rank pair.1 ≤ rank' pair.2) ↔
      ∀ a ∈ l, m.countP (rank' · < rank a) ≤ l.countP (rank · < rank a) := by
  have hLeft (s : ℕ) {i : ℕ} (hi : i < l.length) : rank l[i] < s ↔ i < l.countP (rank · < s) := by
    have h := holds_getElem_iff (fun a => decide (rank a < s)) (fun a b hab hb =>
      decide_eq_true ((hRank a b hab).trans_lt (of_decide_eq_true hb))) hl hi
    rwa [decide_eq_true_iff] at h
  have hRight (s : ℕ) {i : ℕ} (hi : i < m.length) : rank' m[i] < s ↔ i < m.countP (rank' · < s) := by
    have h := holds_getElem_iff (fun b => decide (rank' b < s)) (fun a b hab hb =>
      decide_eq_true ((hRank' a b hab).trans_lt (of_decide_eq_true hb))) hm hi
    rwa [decide_eq_true_iff] at h
  constructor
  · intro h a ha
    by_contra hMore
    have hBelow : l.countP (rank · < rank a) < l.length := by
      refine lt_of_le_of_ne countP_le_length fun hAll => ?_
      have hSelf := (countP_eq_length.mp hAll) a ha
      simp at hSelf
    have hPair : (l[l.countP (rank · < rank a)], m[l.countP (rank · < rank a)]) ∈ l.zip m := by
      rw [← getElem_zip (h := by rw [length_zip]; omega)]
      exact getElem_mem _
    have hNot := (hLeft (rank a) hBelow).not.mpr (Nat.lt_irrefl _)
    have hLow := (hRight (rank a) (hBelow.trans_le hLength)).mpr (by omega)
    have hLe := h _ hPair
    dsimp only at hLe
    omega
  · intro h pair hPair
    obtain ⟨i, hi, rfl⟩ := getElem_of_mem hPair
    rw [length_zip] at hi
    have hil : i < l.length := by omega
    rw [getElem_zip]
    dsimp only
    by_contra hAbove
    have hCount := h l[i] (getElem_mem hil)
    have hNot := (hLeft (rank l[i]) hil).not.mp (Nat.lt_irrefl _)
    have hLow := (hRight (rank l[i]) (i := i) (by omega)).mp (by omega)
    omega

end Sorted

section Places

def placed {γ : Type*} (place : κ → π) (key : γ → κ) (l : List γ) (p : π) : List γ :=
  (sorted key l).filter ((place ∘ key) · = p)

variable {l : List α} {m : List β}

theorem firstPass_at (p : π) : (firstPass place keyA keyB l m).pairs.filter ((place ∘ keyA) ·.1 = p) =
        (placed place keyA l p).zip (placed place keyB m p) ∧
      (firstPass place keyA keyB l m).left.filter ((place ∘ keyA) · = p) =
        (placed place keyA l p).drop (placed place keyB m p).length ∧
      Pass.at (firstPass place keyA keyB l m).waiting p =
        (placed place keyB m p).drop (placed place keyA l p).length := by
  have hWaiting : Pass.at (groupBy (place ∘ keyB) (sorted keyB m)) p = placed place keyB m p :=
    getD_groupBy (place ∘ keyB) (sorted keyB m) p
  have hAt := pass_at (place ∘ keyA) (sorted keyA l)
    (groupBy (place ∘ keyB) (sorted keyB m)) p
  rw [hWaiting] at hAt
  exact hAt

theorem mem_pairs_iff {a : α} {b : β} : (a, b) ∈ (firstPass place keyA keyB l m).pairs ↔
    (a, b) ∈ (placed place keyA l (place (keyA a))).zip (placed place keyB m (place (keyA a))) := by
  rw [← (firstPass_at (place (keyA a))).1, mem_filter]
  simp

theorem place_eq_of_pair {a : α} {b : β} (h : (a, b) ∈ (firstPass place keyA keyB l m).pairs) :
    place (keyA a) = place (keyB b) := by
  have hRight := (of_mem_zip (mem_pairs_iff.mp h)).2
  simpa [placed, eq_comm] using (mem_filter.mp hRight).2

end Places

theorem left_eq_nil (h : ∀ p, (placed place keyA l p).length ≤ (placed place keyB m p).length) :
    (firstPass place keyA keyB l m).left = [] := by
  rw [eq_nil_iff_forall_not_mem]
  intro a ha
  have hAt : a ∈ (firstPass place keyA keyB l m).left.filter
      ((place ∘ keyA) · = place (keyA a)) := mem_filter.mpr ⟨ha, by simp⟩
  rw [(firstPass_at (place (keyA a))).2.1, drop_eq_nil_of_le (h _)] at hAt
  cases hAt

section Members

variable {l : List α} {m : List β} {a : α} {b : β}

theorem mem_zipWith_moved {p : Fate α β} {l' : List α} {m' : List β} :
    p ∈ List.zipWith Fate.moved l' m' ↔ ∃ a b, (a, b) ∈ l'.zip m' ∧ p = .moved a b := by
  rw [← map_uncurry_zip_eq_zipWith, mem_map]
  constructor
  · rintro ⟨⟨a, b⟩, hMem, rfl⟩
    exact ⟨a, b, hMem, rfl⟩
  · rintro ⟨a, b, hMem, rfl⟩
    exact ⟨(a, b), hMem, rfl⟩

theorem mem_compare_same :
    .same a b ∈ compare place keyA keyB l m ↔ (a, b) ∈ (firstPass place keyA keyB l m).pairs := by
  simp [compare, mem_zipWith_moved, -map_drop]

theorem of_mem_moved (h : .moved a b ∈ compare place keyA keyB l m) :
    a ∈ (firstPass place keyA keyB l m).left ∧ b ∈ leftOver place keyA keyB l m := by
  have hZip : (a, b) ∈ (firstPass place keyA keyB l m).left.zip (leftOver place keyA keyB l m) := by
    simpa [compare, mem_zipWith_moved, -map_drop] using h
  exact of_mem_zip hZip

theorem place_eq_of_same (h : .same a b ∈ compare place keyA keyB l m) : place (keyA a) = place (keyB b) :=
  place_eq_of_pair (mem_compare_same.mp h)

theorem mem_compare_gone : .gone b ∈ compare place keyA keyB l m ↔
    b ∈ (leftOver place keyA keyB l m).drop (min (firstPass place keyA keyB l m).left.length
      (leftOver place keyA keyB l m).length) := by
  simp [compare, mem_zipWith_moved, -map_drop]

theorem mem_compare_fresh : .fresh a ∈ compare place keyA keyB l m ↔
    a ∈ (firstPass place keyA keyB l m).left.drop (min (firstPass place keyA keyB l m).left.length
      (leftOver place keyA keyB l m).length) := by
  simp [compare, mem_zipWith_moved, -map_drop]

theorem exists_gone_iff : (∃ b, .gone b ∈ compare place keyA keyB l m) ↔ l.length < m.length := by
  have hLeft : ((firstPass place keyA keyB l m).pairs.map Prod.fst ++
      (firstPass place keyA keyB l m).left).length = l.length := (firstPass_left_perm l m).length_eq
  have hRight : ((firstPass place keyA keyB l m).pairs.map Prod.snd ++
      leftOver place keyA keyB l m).length = m.length := (firstPass_right_perm l m).length_eq
  rw [length_append, length_map] at hLeft hRight
  simp only [mem_compare_gone]
  rw [← length_pos_iff_exists_mem, length_drop]
  omega

end Members

end

/-! ## What one side has more of -/

section Surplus

variable [DecidableEq π] (at' : α → π)

/-- The occurrences of a list beyond the number that is spared at their place. -/
def surplus : List α → (π → ℕ) → List α
  | [], _ => []
  | a :: rest, spare =>
    if spare (at' a) = 0 then a :: surplus rest spare
    else surplus rest (update spare (at' a) (spare (at' a) - 1))

theorem surplus_sublist (l : List α) (spare : π → ℕ) : (surplus at' l spare).Sublist l := by
  induction l generalizing spare with
  | nil => exact List.Sublist.slnil
  | cons a rest ih =>
    unfold surplus
    split
    · exact (ih spare).cons_cons a
    · exact (ih _).cons a

theorem filter_surplus (l : List α) (spare : π → ℕ) (p : π) :
    (surplus at' l spare).filter (at' · = p) = (l.filter (at' · = p)).drop (spare p) := by
  induction l generalizing spare with
  | nil => exact drop_nil.symm
  | cons a rest ih =>
    unfold surplus
    split
    · rename_i hNone
      by_cases hp : at' a = p
      · subst hp
        rw [filter_cons_of_pos (by simp), filter_cons_of_pos (by simp), ih, hNone, drop_zero, drop_zero]
      · rw [filter_cons_of_neg (by simpa using hp), filter_cons_of_neg (by simpa using hp), ih]
    · rename_i hSome
      rw [ih]
      by_cases hp : at' a = p
      · subst hp
        obtain ⟨n, hn⟩ := Nat.exists_eq_succ_of_ne_zero hSome
        rw [filter_cons_of_pos (by simp), update_self, hn]
        rfl
      · rw [filter_cons_of_neg (by simpa using hp), update_of_ne (Ne.symm hp)]

theorem pass_left_eq (l : List α) (waiting : Dict π (List β)) :
    (pass at' l waiting).left = surplus at' l fun p => (Pass.at waiting p).length := by
  induction l generalizing waiting with
  | nil => rfl
  | cons a rest ih =>
    unfold pass surplus
    split
    · rename_i hNone
      have hZero : (Pass.at waiting (at' a)).length = 0 := congrArg List.length hNone
      rw [if_pos hZero]
      exact congrArg (a :: ·) (ih waiting)
    · rename_i b others hSome
      have hSpare : (fun p => (Pass.at (waiting.set (at' a) others) p).length) =
          update (fun p => (Pass.at waiting p).length) (at' a)
            ((Pass.at waiting (at' a)).length - 1) := by
        funext p
        rw [at_set, update_apply, hSome]
        by_cases hp : at' a = p
        · rw [if_pos hp, if_pos hp.symm]
          rfl
        · rw [if_neg hp, if_neg (Ne.symm hp)]
      have hMore : (Pass.at waiting (at' a)).length ≠ 0 := by
        rw [hSome]
        exact Nat.succ_ne_zero _
      rw [if_neg hMore, ← hSpare]
      exact ih _

end Surplus

section Determined

variable [LinearOrder κ]

theorem filter_sorted {γ : Type*} (key : γ → κ) (l : List γ) (k : κ) :
    (sorted key l).filter (key · = k) = l.filter (key · = k) := by
  have hPairwise : (l.filter (key · = k)).Pairwise (key · ≤ key ·) := by
    refine pairwise_of_forall_mem_list fun a ha b hb => ?_
    have hKeyA : key a = k := by simpa using (mem_filter.mp ha).2
    have hKeyB : key b = k := by simpa using (mem_filter.mp hb).2
    rw [hKeyA, hKeyB]
  have hTotal : Std.Total fun a b : γ => key a ≤ key b := ⟨fun a b => le_total (key a) (key b)⟩
  have hTrans : IsTrans γ fun a b : γ => key a ≤ key b := ⟨fun _ _ _ => le_trans⟩
  have hSub := (sublist_insertionSort hPairwise filter_sublist).filter (key · = k)
  rw [filter_filter, filter_congr fun a _ => Bool.and_self _] at hSub
  exact (hSub.eq_of_length ((sorted_perm key l).filter _).length_eq.symm).symm

theorem eq_of_filters {γ : Type*} {key : γ → κ} {l m : List γ} (hl : l.Pairwise (key · ≤ key ·))
    (hm : m.Pairwise (key · ≤ key ·)) (h : ∀ k, l.filter (key · = k) = m.filter (key · = k)) : l = m := by
  induction l generalizing m with
  | nil =>
    refine (eq_nil_iff_forall_not_mem.mpr fun b hb => ?_).symm
    have hMem : b ∈ m.filter (key · = key b) := mem_filter.mpr ⟨hb, by simp⟩
    rw [← h] at hMem
    cases hMem
  | cons a rest ih =>
    have hFirst : a ∈ m.filter (key · = key a) := by
      rw [← h]
      exact mem_filter.mpr ⟨mem_cons_self, by simp⟩
    cases m with
    | nil => cases hFirst
    | cons b others =>
      have hSecond : b ∈ (a :: rest).filter (key · = key b) := by
        rw [h]
        exact mem_filter.mpr ⟨mem_cons_self, by simp⟩
      have hBelow : key a ≤ key b := by
        rcases mem_cons.mp (mem_filter.mp hSecond).1 with rfl | hRest
        · exact le_rfl
        · exact (pairwise_cons.mp hl).1 b hRest
      have hAbove : key b ≤ key a := by
        rcases mem_cons.mp (mem_filter.mp hFirst).1 with rfl | hRest
        · exact le_rfl
        · exact (pairwise_cons.mp hm).1 a hRest
      have hKey : key a = key b := le_antisymm hBelow hAbove
      have hHeads := h (key a)
      rw [filter_cons_of_pos (by simp), filter_cons_of_pos (by simp [hKey])] at hHeads
      obtain ⟨rfl, hTails⟩ := cons.inj hHeads
      refine congrArg (a :: ·) (ih (pairwise_cons.mp hl).2 (pairwise_cons.mp hm).2 fun k => ?_)
      by_cases hk : key a = k
      · rw [← hk, hTails]
      · have hRest := h k
        rwa [filter_cons_of_neg (by simpa using hk), filter_cons_of_neg (by simpa using hk)]
          at hRest

variable [DecidableEq π] {place : κ → π} {keyA : α → κ} {keyB : β → κ}

theorem filter_flatMap_at {at' : β → π} {waiting : Dict π (List β)} (hKeys : waiting.keys.Nodup)
    (hAt : ∀ q items, (q, items) ∈ waiting → ∀ b ∈ items, at' b = q) (p : π) :
    (waiting.flatMap Prod.snd).filter (at' · = p) = Pass.at waiting p := by
  induction waiting with
  | nil => rfl
  | cons first rest ih =>
    obtain ⟨q, items⟩ := first
    obtain ⟨hNew, hRest⟩ := nodup_cons.mp hKeys
    have hItems := hAt q items mem_cons_self
    have hLater := ih hRest fun q' items' hMem => hAt q' items' (mem_cons_of_mem _ hMem)
    rw [flatMap_cons, filter_append, hLater]
    unfold Pass.at
    by_cases hq : q = p
    · subst hq
      have hNone : get? rest q = none := by
        rw [get?_eq_none_iff]
        exact hNew
      rw [filter_eq_self.mpr fun b hb => decide_eq_true (hItems b hb), hNone]
      simp [get?]
    · rw [filter_eq_nil_iff.mpr fun b hb => by simpa [hItems b hb] using hq]
      simp [get?, hq]

theorem firstPass_left_eq (l : List α) (m : List β) : (firstPass place keyA keyB l m).left =
    surplus (place ∘ keyA) (sorted keyA l) fun p => (placed place keyB m p).length := by
  have hSpare : (fun p => (Pass.at (groupBy (place ∘ keyB) (sorted keyB m)) p).length) =
      fun p => (placed place keyB m p).length := by
    funext p
    exact congrArg List.length (getD_groupBy (place ∘ keyB) (sorted keyB m) p)
  unfold firstPass
  rw [pass_left_eq, hSpare]

theorem leftOver_eq (l : List α) (m : List β) : leftOver place keyA keyB l m =
    surplus (place ∘ keyB) (sorted keyB m) fun p => (placed place keyA l p).length := by
  obtain ⟨hKeys, hAt⟩ := pass_waiting (place ∘ keyA) (place ∘ keyB) (sorted keyA l)
    (nodup_keys_groupBy (place ∘ keyB) (sorted keyB m)) (by
      intro q items hEntry b hb
      rw [((mem_groupBy (place ∘ keyB)).mp hEntry).1, mem_filter] at hb
      simpa using hb.2)
  refine eq_of_filters (pairwise_sorted keyB _)
    ((pairwise_sorted keyB m).sublist (surplus_sublist _ _ _)) fun k => ?_
  have hNarrow (x : List β) : x.filter (keyB · = k) =
      (x.filter ((place ∘ keyB) · = place k)).filter (keyB · = k) := by
    rw [filter_filter]
    refine filter_congr fun b _ => ?_
    by_cases hb : keyB b = k <;> simp [hb]
  have hPlaced : (leftOver place keyA keyB l m).filter (keyB · = k) =
      (Pass.at (firstPass place keyA keyB l m).waiting (place k)).filter (keyB · = k) := by
    unfold leftOver
    rw [filter_sorted, hNarrow]
    exact congrArg (List.filter _) (filter_flatMap_at hKeys hAt (place k))
  rw [hPlaced, (firstPass_at (place k)).2.2, hNarrow (surplus _ _ _), filter_surplus]
  rfl

end Determined

end Matching
