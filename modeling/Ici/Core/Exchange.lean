import Ici.Core.Resolved
import Ici.Library.Arrangement

/-! # Exchanging occurrences within a group

The sort key leaves out whether an occurrence is suppressed. Which of two occurrences with one key
comes first is decided by the order of the lists, and the entries may show it. -/

namespace Ici.Core

open Option Python Matching Equiv Fate

universe u v

def fateState {α : Type u} {β : Type v} : Fate α β → DeltaState
  | .same _ _ => .unchanged
  | .moved _ _ => .moved
  | .fresh _ => .new
  | .gone _ => .resolved

def keyFates (current baseline : List FindingRecord) : List (Fate RecordKey RecordKey) :=
  Matching.compare RecordKey.place id id (current.map recordKey) (baseline.map recordKey)

/-- Exchanging two occurrences with one key between the two fates cannot be seen in the entries. -/
structure Interchangeable (current baseline : List FindingRecord) (p q : Fate RecordKey RecordKey) :
    Prop where
  ofCurrent : ∀ now ∈ current, ∀ now' ∈ current, now ≠ now' → recordKey now = recordKey now' →
    p.left = some (recordKey now) → q.left = some (recordKey now') →
    fateState p = fateState q ∧ ∀ before ∈ baseline, ∀ before' ∈ baseline,
      p.right = some (recordKey before) → q.right = some (recordKey before') →
      before.location = before'.location ∧ before.severity = before'.severity ∧
        isRegressed now before = isRegressed now before'
  ofBaseline : ∀ before ∈ baseline, ∀ before' ∈ baseline, before ≠ before' →
    recordKey before = recordKey before' →
    p.right = some (recordKey before) → q.right = some (recordKey before') →
    (fateState p = .resolved ↔ fateState q = .resolved) ∧ ∀ now ∈ current, ∀ now' ∈ current,
      p.left = some (recordKey now) → q.left = some (recordKey now') →
      (isRegressed now before = isRegressed now before' ∧
        isRegressed now' before = isRegressed now' before') ∨ (now = now' ∧ fateState p = fateState q)

theorem Interchangeable.symm {current baseline : List FindingRecord} {p q : Fate RecordKey RecordKey}
    (h : Interchangeable current baseline p q) : Interchangeable current baseline q p where
  ofCurrent now hNow now' hNow' hNe hKey hp hq := by
    obtain ⟨hState, hRight⟩ := h.ofCurrent now hNow now' hNow' hNe hKey (hKey ▸ hq) (hKey ▸ hp)
    refine ⟨hState.symm, fun before hBefore before' hBefore' hp' hq' => ?_⟩
    obtain ⟨hLocation, hSeverity, hRegressed⟩ := hRight before' hBefore' before hBefore hq' hp'
    exact ⟨hLocation.symm, hSeverity.symm, hRegressed.symm⟩
  ofBaseline before hBefore before' hBefore' hNe hKey hp hq := by
    obtain ⟨hGone, hLeft⟩ := h.ofBaseline before hBefore before' hBefore' hNe hKey (hKey ▸ hq) (hKey ▸ hp)
    refine ⟨hGone.symm, fun now hNow now' hNow' hp' hq' => ?_⟩
    rcases hLeft now' hNow' now hNow hq' hp' with ⟨hFirst, hSecond⟩ | ⟨hSame, hState⟩
    · exact .inl ⟨hSecond, hFirst⟩
    · exact .inr ⟨hSame.symm, hState.symm⟩

theorem getD_zero_inj {a b : Option ℤ} (ha : ∀ n ∈ a, 1 ≤ n) (hb : ∀ n ∈ b, 1 ≤ n)
    (h : a.getD 0 = b.getD 0) : a = b := by
  cases a with
  | none =>
    cases b with
    | none => rfl
    | some n =>
      have hn := hb n rfl
      simp only [Option.getD] at h
      omega
  | some m =>
    have hm := ha m rfl
    cases b with
    | none =>
      simp only [Option.getD] at h
      omega
    | some n => exact congrArg some h

theorem locationKey_injective : Function.Injective locationKey := by
  intro a b h
  obtain ⟨-, hEndA, hStartColumnA, hEndColumnA⟩ := a.one_le
  obtain ⟨-, hEndB, hStartColumnB, hEndColumnB⟩ := b.one_le
  simp only [locationKey, EmbeddingLike.apply_eq_iff_eq, Prod.mk.injEq] at h
  obtain ⟨hPath, hStart, hStartColumn, hEnd, hEndColumn, hLabel⟩ := h
  have hEnd' := getD_zero_inj hEndA hEndB hEnd
  have hStartColumn' := getD_zero_inj hStartColumnA hStartColumnB hStartColumn
  have hEndColumn' := getD_zero_inj hEndColumnA hEndColumnB hEndColumn
  refine Subtype.ext ?_
  cases hA : a.val
  cases hB : b.val
  simp_all

theorem severityRank_injective : Function.Injective severityRank := by
  intro a b h
  cases a <;> cases b <;> first | rfl | cases h

theorem recordKey_eq_iff {a b : FindingRecord} : recordKey a = recordKey b ↔
    a.location = b.location ∧ a.severity = b.severity ∧ a.message = b.message := by
  simp only [recordKey, EmbeddingLike.apply_eq_iff_eq, Prod.mk.injEq,
    locationKey_injective.eq_iff, severityRank_injective.eq_iff]

/-! ## What an entry tells -/

def told {α : Type u} {β : Type v} (x : α → FindingRecord) (y : β → FindingRecord) (p : Fate α β) :
    FindingDelta := toDelta (p.map x y)

section

variable {α : Type u} {β : Type v} {x x' : α → FindingRecord} {y y' : β → FindingRecord}
  {p q : Fate α β} {i j : α} {k l : β}

theorem fateState_map {α' : Type*} {β' : Type*} (f : α → α') (g : β → β') (p : Fate α β) :
    fateState (p.map f g) = fateState p := by
  cases p <;> rfl

theorem told_state (x : α → FindingRecord) (y : β → FindingRecord) (p : Fate α β) :
    (told x y p).state = fateState p := by
  cases p <;> rfl

theorem eq_of_told_eq (h : told x y p = told x' y' q) (hp : p.left = some i) (hq : q.left = some j) :
    x i = x' j := by
  have hShown (x : α → FindingRecord) (y : β → FindingRecord) {p : Fate α β} {i : α}
      (hp : p.left = some i) :
      (told x y p).engineName = (x i).engineName ∧ (told x y p).fingerprint = (x i).fingerprint ∧
        (told x y p).ruleId = (x i).ruleId ∧ (told x y p).message = (x i).message ∧
        (told x y p).currentLocation = some (x i).location ∧
        (told x y p).currentSeverity = some (x i).severity ∧
        (told x y p).suppressed = (x i).suppressed := by
    cases p <;> cases hp
    all_goals exact ⟨rfl, rfl, rfl, rfl, rfl, rfl, rfl⟩
  obtain ⟨h1, h2, h3, h4, h5, h6, h7⟩ := hShown x y hp
  obtain ⟨h1', h2', h3', h4', h5', h6', h7'⟩ := hShown x' y' hq
  rw [h] at h1 h2 h3 h4 h5 h6 h7
  cases hA : x i
  cases hB : x' j
  simp_all

theorem told_eq_iff (hp : p.left = some i) (hq : q.left = some j) (hSame : x i = x' j) :
    told x y p = told x' y' q ↔ fateState p = fateState q ∧
      ∀ k l, p.right = some k → q.right = some l → (y k).location = (y' l).location ∧
        (y k).severity = (y' l).severity ∧ isRegressed (x i) (y k) = isRegressed (x i) (y' l) := by
  cases p <;> cases q <;> cases hp <;> cases hq <;>
    simp [told, toDelta, map, fateState, right, pairedDelta, newDelta, hSame] <;> grind

theorem told_gone (hp : fateState p = .resolved) (hk : p.right = some k) :
    told x y p = resolvedDelta (y k) := by
  cases p with
  | gone b =>
    cases hk
    rfl
  | same a b | moved a b | fresh a => cases hp

theorem exists_left_of_state_ne (hp : fateState p ≠ .resolved) : ∃ i, p.left = some i := by
  cases p with
  | gone b => exact absurd rfl hp
  | same a b | moved a b | fresh a => exact ⟨a, rfl⟩

end

theorem resolvedDelta_injective : Function.Injective resolvedDelta := by
  rintro ⟨⟩ ⟨⟩ h
  simp_all [resolvedDelta]

/-! ## One group -/

section

variable {n m : ℕ} {x : Fin n → FindingRecord} {y : Fin m → FindingRecord}

/-- The positions of a group whose sorted keys are those of `x` and `y`. -/
def placesOf (x : Fin n → FindingRecord) (y : Fin m → FindingRecord) : List (Fate (Fin n) (Fin m)) :=
  positions RecordKey.place (recordKey ∘ x) (recordKey ∘ y)

section

variable {current baseline : List FindingRecord} (hx : LaysOut recordKey current x)
  (hy : LaysOut recordKey baseline y)
include hx hy

theorem compareGroup_eq : compareGroup current baseline = (placesOf x y).map (told x y) := by
  unfold compareGroup pairGroup
  rw [compare_eq_positions hx hy, List.map_map]
  rfl

theorem keyFates_eq :
    keyFates current baseline = (placesOf x y).map (map (recordKey ∘ x) (recordKey ∘ y)) := by
  unfold keyFates
  rw [compare_renamed]
  refine (congrArg (List.map _) (compare_eq_positions hx hy)).trans ?_
  rw [List.map_map]
  exact List.map_congr_left fun p _ => map_map _ _ _ _ p

end

theorem readsSlot_left (y : Fin m → FindingRecord) :
    ReadsSlot (left : Fate (Fin n) (Fin m) → Option (Fin n)) (fun x => told x y) := by
  intro p z z' h
  cases p with
  | gone b => rfl
  | same a b | moved a b | fresh a => simp only [told, map, h a rfl]

theorem readsSlot_right (x : Fin n → FindingRecord) :
    ReadsSlot (right : Fate (Fin n) (Fin m) → Option (Fin m)) (fun y => told x y) := by
  intro p z z' h
  cases p with
  | fresh a => rfl
  | same a b | moved a b | gone b => simp only [told, map, h b rfl]

end

def Stable (current baseline : List FindingRecord) : Prop :=
  ∀ current' baseline', current'.Perm current → baseline'.Perm baseline →
    (compareGroup current' baseline').Perm (compareGroup current baseline)

section

variable {n m : ℕ} {x : Fin n → FindingRecord} {y : Fin m → FindingRecord}
  {current baseline : List FindingRecord} (hx : LaysOut recordKey current x)
  (hy : LaysOut recordKey baseline y)
include hx hy

theorem stable_iff_arrangements : Stable current baseline ↔ ∀ x' y', Rearranged recordKey x x' →
    Rearranged recordKey y y' → ((placesOf x y).map (told x' y')).Perm ((placesOf x y).map (told x y)) := by
  rw [Stable, compareGroup_eq hx hy]
  have hPlaces {x' : Fin n → FindingRecord} {y' : Fin m → FindingRecord}
      (hx' : Rearranged recordKey x x') (hy' : Rearranged recordKey y y') :
      placesOf x' y' = placesOf x y := by
    unfold placesOf
    rw [hx'.keys, hy'.keys]
  constructor
  · intro h x' y' hx' hy'
    obtain ⟨hLays, hPerm⟩ := hx.of_rearranged hx'
    obtain ⟨hLays', hPerm'⟩ := hy.of_rearranged hy'
    have hSame := h _ _ hPerm hPerm'
    rwa [compareGroup_eq hLays hLays', hPlaces hx' hy'] at hSame
  · intro h current' baseline' hCurrent hBaseline
    obtain ⟨x', hLays, hx'⟩ := hx.exists_rearranged hCurrent
    obtain ⟨y', hLays', hy'⟩ := hy.exists_rearranged hBaseline
    rw [compareGroup_eq hLays hLays', hPlaces hx' hy']
    exact h x' y' hx' hy'

theorem pairwise_keyFates_iff : (keyFates current baseline).Pairwise (Interchangeable current baseline) ↔
    (placesOf x y).Pairwise fun p q => Interchangeable current baseline
      (p.map (recordKey ∘ x) (recordKey ∘ y)) (q.map (recordKey ∘ x) (recordKey ∘ y)) := by
  rw [keyFates_eq hx hy, List.pairwise_map]

end

section

variable {n m : ℕ} {x : Fin n → FindingRecord} {y : Fin m → FindingRecord}
  {p q : Fate (Fin n) (Fin m)}

variable {κ κ' : Type} {f : Fin n → κ} {g : Fin m → κ'}

theorem left_map_key {i : Fin n} (h : p.left = some i) : (p.map f g).left = some (f i) := by
  rw [left_map, h]
  rfl

theorem right_map_key {k : Fin m} (h : p.right = some k) : (p.map f g).right = some (g k) := by
  rw [right_map, h]
  rfl

section

variable (current baseline : List FindingRecord) (hx : ∀ i, x i ∈ current) (hy : ∀ k, y k ∈ baseline)
  (h : Interchangeable current baseline (p.map (recordKey ∘ x) (recordKey ∘ y)) (q.map (recordKey ∘ x) (recordKey ∘ y)))
include hx hy h

theorem told_left_exchange {i j : Fin n} (hi : p.left = some i)
    (hj : q.left = some j) (hKey : recordKey (x i) = recordKey (x j)) :
    [told (x ∘ swap i j) y p, told (x ∘ swap i j) y q].Perm [told x y p, told x y q] := by
  by_cases hSame : x i = x j
  · rw [comp_swap_of_eq hSame]
  have hiKey : (p.map (recordKey ∘ x) (recordKey ∘ y)).left = some (recordKey (x i)) := left_map_key hi
  have hjKey : (q.map (recordKey ∘ x) (recordKey ∘ y)).left = some (recordKey (x j)) := left_map_key hj
  obtain ⟨hState, hFirst⟩ := h.ofCurrent _ (hx i) _ (hx j) hSame hKey hiKey hjKey
  obtain ⟨-, hSecond⟩ := h.ofCurrent _ (hx j) _ (hx i) (Ne.symm hSame) hKey.symm (hKey ▸ hiKey)
    (hKey.symm ▸ hjKey)
  rw [fateState_map, fateState_map] at hState
  have hAt : (x ∘ swap i j) i = x j := congrArg x (swap_apply_left i j)
  have hAt' : (x ∘ swap i j) j = x i := congrArg x (swap_apply_right i j)
  have hLeft : told (x ∘ swap i j) y p = told x y q := by
    refine (told_eq_iff hi hj hAt).mpr ⟨hState, fun k l hk hl => ?_⟩
    rw [hAt]
    exact hSecond _ (hy k) _ (hy l) (right_map_key hk) (right_map_key hl)
  have hRight : told (x ∘ swap i j) y q = told x y p := by
    refine (told_eq_iff hj hi hAt').mpr ⟨hState.symm, fun l k hl hk => ?_⟩
    rw [hAt']
    obtain ⟨hLocation, hSeverity, hRegressed⟩ :=
      hFirst _ (hy k) _ (hy l) (right_map_key hk) (right_map_key hl)
    exact ⟨hLocation.symm, hSeverity.symm, hRegressed.symm⟩
  rw [hLeft, hRight]
  exact List.Perm.swap _ _ _

theorem told_right_exchange {k l : Fin m} (hk : p.right = some k)
    (hl : q.right = some l) (hKey : recordKey (y k) = recordKey (y l)) :
    [told x (y ∘ swap k l) p, told x (y ∘ swap k l) q].Perm [told x y p, told x y q] := by
  by_cases hSame : y k = y l
  · rw [comp_swap_of_eq hSame]
  have hAt : (y ∘ swap k l) k = y l := congrArg y (swap_apply_left k l)
  have hAt' : (y ∘ swap k l) l = y k := congrArg y (swap_apply_right k l)
  obtain ⟨hLocation, hSeverity, -⟩ := recordKey_eq_iff.mp hKey
  obtain ⟨hGone, hLeft⟩ := h.ofBaseline _ (hy k) _ (hy l) hSame hKey (right_map_key hk)
    (right_map_key hl)
  rw [fateState_map, fateState_map] at hGone hLeft
  by_cases hp : fateState p = .resolved
  · rw [told_gone hp hk, told_gone hp hk, told_gone (hGone.mp hp) hl, told_gone (hGone.mp hp) hl, hAt, hAt']
    exact List.Perm.swap _ _ _
  obtain ⟨i, hi⟩ := exists_left_of_state_ne hp
  obtain ⟨j, hj⟩ := exists_left_of_state_ne (hGone.not.mp hp)
  rcases hLeft _ (hx i) _ (hx j) (left_map_key hi) (left_map_key hj) with
    ⟨hFirst, hSecond⟩ | ⟨hNow, hState⟩
  · have hKeptLeft : told x (y ∘ swap k l) p = told x y p := by
      refine (told_eq_iff hi hi rfl).mpr ⟨rfl, fun k' k'' hk' hk'' => ?_⟩
      obtain rfl : k = k' := some.inj (hk.symm.trans hk')
      obtain rfl : k = k'' := some.inj (hk.symm.trans hk'')
      rw [hAt]
      exact ⟨hLocation.symm, hSeverity.symm, hFirst.symm⟩
    have hKeptRight : told x (y ∘ swap k l) q = told x y q := by
      refine (told_eq_iff hj hj rfl).mpr ⟨rfl, fun l' l'' hl' hl'' => ?_⟩
      obtain rfl : l = l' := some.inj (hl.symm.trans hl')
      obtain rfl : l = l'' := some.inj (hl.symm.trans hl'')
      rw [hAt']
      exact ⟨hLocation, hSeverity, hSecond⟩
    rw [hKeptLeft, hKeptRight]
  · have hMovedLeft : told x (y ∘ swap k l) p = told x y q := by
      refine (told_eq_iff hi hj hNow).mpr ⟨hState, fun k' l' hk' hl' => ?_⟩
      obtain rfl : k = k' := some.inj (hk.symm.trans hk')
      obtain rfl : l = l' := some.inj (hl.symm.trans hl')
      rw [hAt]
      exact ⟨rfl, rfl, rfl⟩
    have hMovedRight : told x (y ∘ swap k l) q = told x y p := by
      refine (told_eq_iff hj hi hNow.symm).mpr ⟨hState.symm, fun l' k' hl' hk' => ?_⟩
      obtain rfl : k = k' := some.inj (hk.symm.trans hk')
      obtain rfl : l = l' := some.inj (hl.symm.trans hl')
      rw [hAt']
      exact ⟨rfl, rfl, rfl⟩
    rw [hMovedLeft, hMovedRight]
    exact List.Perm.swap _ _ _

end

end

end Ici.Core
