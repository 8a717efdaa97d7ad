import Ici.Core.Exchange

/-! # When the order of a group does not matter

Exactly when no exchange of two occurrences with one key can be seen. -/

namespace Ici.Core

open Option List Python Matching RecordKey

section

variable {n m : ℕ} {x : Fin n → FindingRecord} {y : Fin m → FindingRecord}
  {current baseline : List FindingRecord} {p q : Fate (Fin n) (Fin m)}

def ArrangedAlike (x : Fin n → FindingRecord) (y : Fin m → FindingRecord) : Prop :=
  ∀ x' y', Rearranged recordKey x x' → Rearranged recordKey y y' →
    ((placesOf x y).map (told x' y')).Perm ((placesOf x y).map (told x y))

variable {κ κ' : Type} {f : Fin n → κ} {g : Fin m → κ'}

theorem exists_left_of_map {a : κ} (h : (p.map f g).left = some a) : ∃ i, p.left = some i ∧ f i = a :=
  map_eq_some_iff.mp ((Fate.left_map f g p).symm.trans h)

theorem exists_right_of_map {b : κ'} (h : (p.map f g).right = some b) : ∃ k, p.right = some k ∧ g k = b :=
  map_eq_some_iff.mp ((Fate.right_map f g p).symm.trans h)

theorem mem_of_rearranged {key : FindingRecord → RecordKey} (hx : LaysOut key current x)
    {z : Fin n → FindingRecord} (hz : Rearranged key x z) (i : Fin n) : z i ∈ current :=
  hx.mem_iff.mpr (hz.exists_eq i)

theorem arrangedAlike_of_pairwise (hx : LaysOut recordKey current x) (hy : LaysOut recordKey baseline y)
    (h : (keyFates current baseline).Pairwise (Interchangeable current baseline)) :
    ArrangedAlike x y := by
  have hAll {p q : Fate (Fin n) (Fin m)} (hp : p ∈ placesOf x y) (hq : q ∈ placesOf x y) (hpq : p ≠ q) :
      Interchangeable current baseline (p.map (recordKey ∘ x) (recordKey ∘ y))
        (q.map (recordKey ∘ x) (recordKey ∘ y)) :=
    have : Std.Symm fun p q : Fate (Fin n) (Fin m) => Interchangeable current baseline
        (p.map (recordKey ∘ x) (recordKey ∘ y)) (q.map (recordKey ∘ x) (recordKey ∘ y)) :=
      ⟨fun _ _ h => h.symm⟩
    ((pairwise_keyFates_iff hx hy).mp h).forall hp hq hpq
  intro x' y' hx' hy'
  have hLeft : ((placesOf x y).map (told x' y)).Perm ((placesOf x y).map (told x y)) := by
    refine hx'.induction (motive := fun z => ((placesOf x y).map (told z y)).Perm
      ((placesOf x y).map (told x y))) (fun z hz hMotive i j hij hKey => ?_) (List.Perm.refl _)
    obtain ⟨p, hp, hi⟩ := exists_position_left place (recordKey ∘ x) (recordKey ∘ y) i
    obtain ⟨q, hq, hj⟩ := exists_position_left place (recordKey ∘ x) (recordKey ∘ y) j
    have hpq : p ≠ q := fun hEq => hij (some.inj (hi.symm.trans (hEq ▸ hj)))
    refine ((exchange_perm_iff (readsSlot_left y) (nodup_positions_left _ _ _) hp hq hi hj hij
      z).mpr ?_).trans hMotive
    refine told_left_exchange current baseline ?_ ?_ ?_ hi hj hKey
    · exact mem_of_rearranged hx hz
    · exact mem_of_rearranged hy (.refl _ y)
    · rw [hz.keys]
      exact hAll hp hq hpq
  refine List.Perm.trans ?_ hLeft
  refine hy'.induction (motive := fun z => ((placesOf x y).map (told x' z)).Perm
    ((placesOf x y).map (told x' y))) (fun z hz hMotive k l hkl hKey => ?_) (List.Perm.refl _)
  obtain ⟨p, hp, hk⟩ := exists_position_right place (recordKey ∘ x) (recordKey ∘ y) k
  obtain ⟨q, hq, hl⟩ := exists_position_right place (recordKey ∘ x) (recordKey ∘ y) l
  have hpq : p ≠ q := fun hEq => hkl (some.inj (hk.symm.trans (hEq ▸ hl)))
  refine ((exchange_perm_iff (readsSlot_right x') (nodup_positions_right _ _ _) hp hq hk hl hkl
    z).mpr ?_).trans hMotive
  refine told_right_exchange current baseline ?_ ?_ ?_ hk hl hKey
  · exact mem_of_rearranged hx hx'
  · exact mem_of_rearranged hy hz
  · rw [hz.keys, hx'.keys]
    exact hAll hp hq hpq

section

variable (hAlike : ArrangedAlike x y) (hp : p ∈ placesOf x y) (hq : q ∈ placesOf x y)
include hAlike hp hq

variable {x' : Fin n → FindingRecord} {y' : Fin m → FindingRecord}

theorem alike_of_current (hx' : Rearranged recordKey x x') (hy' : Rearranged recordKey y y') {i j : Fin n}
    (hi : p.left = some i) (hj : q.left = some j) (hij : i ≠ j) (hNe : x' i ≠ x' j)
    (hKey : recordKey (x' i) = recordKey (x' j)) : fateState p = fateState q ∧
      ∀ k l, p.right = some k → q.right = some l → (y' k).location = (y' l).location ∧
        (y' k).severity = (y' l).severity ∧
        isRegressed (x' i) (y' k) = isRegressed (x' i) (y' l) := by
  have hAt : (x' ∘ Equiv.swap i j) i = x' j := congrArg x' (Equiv.swap_apply_left i j)
  have hAt' : (x' ∘ Equiv.swap i j) j = x' i := congrArg x' (Equiv.swap_apply_right i j)
  have hPerm := (hAlike _ y' (hx'.trans (rearranged_swap hKey)) hy').trans (hAlike x' y' hx' hy').symm
  have hPair := (exchange_perm_iff (readsSlot_left y') (nodup_positions_left _ _ _) hp hq hi hj hij x').mp hPerm
  rcases perm_pair_iff.mp hPair with ⟨hKept, -⟩ | ⟨-, hMoved⟩
  · have hEq := eq_of_told_eq hKept hi hi
    rw [hAt] at hEq
    exact absurd hEq.symm hNe
  · exact (told_eq_iff hi hj hAt'.symm).mp hMoved.symm

theorem alike_of_baseline (hx' : Rearranged recordKey x x') (hy' : Rearranged recordKey y y') {k l : Fin m}
    (hk : p.right = some k) (hl : q.right = some l) (hkl : k ≠ l) (hNe : y' k ≠ y' l)
    (hKey : recordKey (y' k) = recordKey (y' l)) :
    (fateState p ≠ .resolved ∧ fateState q ≠ .resolved ∧ ∀ i j, p.left = some i → q.left = some j →
      isRegressed (x' i) (y' k) = isRegressed (x' i) (y' l) ∧
        isRegressed (x' j) (y' k) = isRegressed (x' j) (y' l)) ∨
      fateState p = fateState q ∧ ∀ i j, p.left = some i → q.left = some j → x' i = x' j := by
  have hAt : (y' ∘ Equiv.swap k l) k = y' l := congrArg y' (Equiv.swap_apply_left k l)
  have hAt' : (y' ∘ Equiv.swap k l) l = y' k := congrArg y' (Equiv.swap_apply_right k l)
  have hPerm := (hAlike x' _ hx' (hy'.trans (rearranged_swap hKey))).trans (hAlike x' y' hx' hy').symm
  have hPair := (exchange_perm_iff (readsSlot_right x') (nodup_positions_right _ _ _) hp hq hk hl hkl y').mp hPerm
  rcases perm_pair_iff.mp hPair with ⟨hKept, hKept'⟩ | ⟨hMoved, -⟩
  · refine .inl ⟨fun hGone => ?_, fun hGone => ?_, fun i j hi hj => ⟨?_, ?_⟩⟩
    · rw [told_gone hGone hk, told_gone hGone hk, hAt] at hKept
      exact hNe (resolvedDelta_injective hKept).symm
    · rw [told_gone hGone hl, told_gone hGone hl, hAt'] at hKept'
      exact hNe (resolvedDelta_injective hKept')
    · obtain ⟨-, hRight⟩ := (told_eq_iff hi hi rfl).mp hKept
      have hRegressed := (hRight k k hk hk).2.2
      rw [hAt] at hRegressed
      exact hRegressed.symm
    · obtain ⟨-, hRight⟩ := (told_eq_iff hj hj rfl).mp hKept'
      have hRegressed := (hRight l l hl hl).2.2
      rwa [hAt'] at hRegressed
  · refine .inr ⟨?_, fun i j hi hj => eq_of_told_eq hMoved hi hj⟩
    have hState := congrArg FindingDelta.state hMoved
    rwa [told_state, told_state] at hState

variable (hx : LaysOut recordKey current x) (hy : LaysOut recordKey baseline y)
  (hLefts : ∀ i, p.left = some i → ∀ j, q.left = some j → i ≠ j)
  (hRights : ∀ k, p.right = some k → ∀ l, q.right = some l → k ≠ l)
include hx hy hLefts hRights

theorem interchangeable_current {now now' : FindingRecord} (hNow : now ∈ current)
    (hNow' : now' ∈ current) (hNe : now ≠ now') (hKey : recordKey now = recordKey now')
    (hpKey : (p.map (recordKey ∘ x) (recordKey ∘ y)).left = some (recordKey now))
    (hqKey : (q.map (recordKey ∘ x) (recordKey ∘ y)).left = some (recordKey now')) :
    fateState p = fateState q ∧ ∀ before ∈ baseline, ∀ before' ∈ baseline,
      (p.map (recordKey ∘ x) (recordKey ∘ y)).right = some (recordKey before) →
      (q.map (recordKey ∘ x) (recordKey ∘ y)).right = some (recordKey before') →
      before.location = before'.location ∧ before.severity = before'.severity ∧
        isRegressed now before = isRegressed now before' := by
  obtain ⟨i, hi, hiKey⟩ := exists_left_of_map hpKey
  obtain ⟨j, hj, hjKey⟩ := exists_left_of_map hqKey
  obtain ⟨a, rfl⟩ := hx.mem_iff.mp hNow
  obtain ⟨b, rfl⟩ := hx.mem_iff.mp hNow'
  have hij := hLefts i hi j hj
  obtain ⟨x', hx', hAt, hAt'⟩ := exists_rearranged hij hNe hiKey hjKey
  rw [← hAt, ← hAt'] at hNe hKey
  refine ⟨(alike_of_current hAlike hp hq hx' (.refl _ y) hi hj hij hNe hKey).1, ?_⟩
  intro before hBefore before' hBefore' hpRight hqRight
  by_cases hSame : before = before'
  · rw [hSame]
    exact ⟨rfl, rfl, rfl⟩
  obtain ⟨k, hk, hkKey⟩ := exists_right_of_map hpRight
  obtain ⟨l, hl, hlKey⟩ := exists_right_of_map hqRight
  obtain ⟨c, rfl⟩ := hy.mem_iff.mp hBefore
  obtain ⟨d, rfl⟩ := hy.mem_iff.mp hBefore'
  obtain ⟨y', hy', hAtK, hAtL⟩ := exists_rearranged (hRights k hk l hl) hSame hkKey hlKey
  have hRight := (alike_of_current hAlike hp hq hx' hy' hi hj hij hNe hKey).2 k l hk hl
  rwa [hAtK, hAtL, hAt] at hRight

theorem interchangeable_baseline {before before' : FindingRecord} (hBefore : before ∈ baseline)
    (hBefore' : before' ∈ baseline) (hNe : before ≠ before')
    (hKey : recordKey before = recordKey before')
    (hpKey : (p.map (recordKey ∘ x) (recordKey ∘ y)).right = some (recordKey before))
    (hqKey : (q.map (recordKey ∘ x) (recordKey ∘ y)).right = some (recordKey before')) :
    (fateState p = .resolved ↔ fateState q = .resolved) ∧ ∀ now ∈ current, ∀ now' ∈ current,
      (p.map (recordKey ∘ x) (recordKey ∘ y)).left = some (recordKey now) →
      (q.map (recordKey ∘ x) (recordKey ∘ y)).left = some (recordKey now') →
      (isRegressed now before = isRegressed now before' ∧
        isRegressed now' before = isRegressed now' before') ∨
      (now = now' ∧ fateState p = fateState q) := by
  obtain ⟨k, hk, hkKey⟩ := exists_right_of_map hpKey
  obtain ⟨l, hl, hlKey⟩ := exists_right_of_map hqKey
  obtain ⟨c, rfl⟩ := hy.mem_iff.mp hBefore
  obtain ⟨d, rfl⟩ := hy.mem_iff.mp hBefore'
  have hkl := hRights k hk l hl
  obtain ⟨y', hy', hAt, hAt'⟩ := exists_rearranged hkl hNe hkKey hlKey
  rw [← hAt, ← hAt'] at hNe hKey ⊢
  constructor
  · rcases alike_of_baseline hAlike hp hq (.refl _ x) hy' hk hl hkl hNe hKey with
      ⟨hpState, hqState, -⟩ | ⟨hState, -⟩
    · exact iff_of_false hpState hqState
    · rw [hState]
  intro now hNow now' hNow' hpLeft hqLeft
  obtain ⟨i, hi, hiKey⟩ := exists_left_of_map hpLeft
  obtain ⟨j, hj, hjKey⟩ := exists_left_of_map hqLeft
  by_cases hSame : now = now'
  · subst hSame
    by_cases hState : fateState p = fateState q
    · exact .inr ⟨rfl, hState⟩
    -- with different states every occurrence of that key is the same, so both fates have it already
    have hOnly (a : Fin n) (ha : recordKey (x a) = recordKey now) : x a = now := by
      by_contra hOther
      exact hState (interchangeable_current hAlike hp hq hx hy hLefts hRights hNow
        (mem_of_rearranged hx (.refl _ x) a) (Ne.symm hOther) ha.symm hpLeft (ha ▸ hqLeft)).1
    rcases alike_of_baseline hAlike hp hq (.refl _ x) hy' hk hl hkl hNe hKey with
      ⟨-, -, hHidden⟩ | ⟨hEq, -⟩
    · have hRegressed := (hHidden i j hi hj).1
      rw [hOnly i hiKey] at hRegressed
      exact .inl ⟨hRegressed, hRegressed⟩
    · exact absurd hEq hState
  obtain ⟨a, rfl⟩ := hx.mem_iff.mp hNow
  obtain ⟨b, rfl⟩ := hx.mem_iff.mp hNow'
  obtain ⟨x', hx', hAtI, hAtJ⟩ := exists_rearranged (hLefts i hi j hj) hSame hiKey hjKey
  rw [← hAtI, ← hAtJ] at hSame ⊢
  rcases alike_of_baseline hAlike hp hq hx' hy' hk hl hkl hNe hKey with
    ⟨-, -, hHidden⟩ | ⟨-, hEq⟩
  · exact .inl (hHidden i j hi hj)
  · exact absurd (hEq i j hi hj) hSame

end

theorem pairwise_of_arrangedAlike (hx : LaysOut recordKey current x) (hy : LaysOut recordKey baseline y)
    (hAlike : ArrangedAlike x y) :
    (keyFates current baseline).Pairwise (Interchangeable current baseline) := by
  rw [pairwise_keyFates_iff hx hy]
  have hLefts := pairwise_filterMap.mp
    (nodup_positions_left place (recordKey ∘ x) (recordKey ∘ y))
  have hRights := pairwise_filterMap.mp
    (nodup_positions_right place (recordKey ∘ x) (recordKey ∘ y))
  refine (hLefts.and hRights).imp_of_mem fun {p q} hp hq h => ⟨?_, ?_⟩
  · intro now hNow now' hNow' hNe hKey hpKey hqKey
    rw [fateState_map, fateState_map]
    exact interchangeable_current hAlike hp hq hx hy h.1 h.2 hNow hNow' hNe hKey hpKey hqKey
  · intro before hBefore before' hBefore' hNe hKey hpKey hqKey
    rw [fateState_map, fateState_map]
    exact interchangeable_baseline hAlike hp hq hx hy h.1 h.2 hBefore hBefore' hNe hKey hpKey hqKey

end

theorem stable_iff (current baseline : List FindingRecord) : Stable current baseline ↔
    (keyFates current baseline).Pairwise (Interchangeable current baseline) := by
  obtain ⟨n, x, hx⟩ := exists_laysOut recordKey current
  obtain ⟨m, y, hy⟩ := exists_laysOut recordKey baseline
  rw [stable_iff_arrangements hx hy]
  exact ⟨pairwise_of_arrangedAlike hx hy, arrangedAlike_of_pairwise hx hy⟩

/-! ## What a comparison accounts for, and when order does not matter -/

section

variable {unlooked unlooked' : Dict Text Text} {current current' baseline baseline' : List FindingRecord}

theorem groupOf_append_rest {key : GroupKey} {records group : List FindingRecord}
    (hGroup : group.Perm (groupOf key records)) :
    (group ++ records.filter (! groupKey · = key)).Perm records ∧
      groupOf key (group ++ records.filter (! groupKey · = key)) = group := by
  constructor
  · exact (hGroup.append_right _).trans (filter_append_perm _ _)
  · have hRest : groupOf key (records.filter (! groupKey · = key)) = [] :=
      groupOf_eq_nil fun record hMem => by simpa using (mem_filter.mp hMem).2
    have hAll : groupOf key group = group :=
      filter_eq_self.mpr fun record hMem => by
        simpa using (mem_groupOf.mp (hGroup.subset hMem)).2
    unfold groupOf at hRest hAll ⊢
    rw [filter_append, hRest, hAll, append_nil]

theorem isCompared_of_perm (hUnlooked : ∀ name, unlooked'.get? name = unlooked.get? name)
    (hCurrent : current'.Perm current) (key : GroupKey) :
    IsCompared unlooked' current' key ↔ IsCompared unlooked current key := by
  unfold IsCompared
  rw [hUnlooked, ← length_eq_zero_iff, (groupOf_perm hCurrent).length_eq, length_eq_zero_iff]

theorem unlooked_of_perm (suite : List EngineResult) (hBaseline : baseline'.Perm baseline)
    (name : Text) : (enginesThatDidNotLook suite baseline').get? name =
      (enginesThatDidNotLook suite baseline).get? name := by
  rw [get?_enginesThatDidNotLook, get?_enginesThatDidNotLook]
  exact if_congr (hBaseline.map _).mem_iff rfl rfl

def deltaKey (entry : FindingDelta) : GroupKey := toLex (entry.engineName, entry.fingerprint)

theorem deltaKey_of_mem {key : GroupKey} {entry : FindingDelta}
    (h : entry ∈ compareGroup (groupOf key current) (groupOf key baseline)) : deltaKey entry = key := by
  obtain ⟨p, hp, rfl⟩ := mem_map.mp h
  cases p with
  | same now before | moved now before | fresh now => exact (mem_groupOf.mp (mem_of_mem_pairGroup_left hp rfl)).2
  | gone before => exact (mem_groupOf.mp (mem_of_mem_pairGroup_right hp rfl)).2

theorem filter_entries {key : GroupKey} (hCompared : IsCompared unlooked current key) :
    ((fates unlooked current baseline).map toDelta).filter (deltaKey · = key) =
      compareGroup (groupOf key current) (groupOf key baseline) := by
  have hKeys : ∀ keys : List GroupKey, keys.Nodup → (keys.flatMap fun other =>
      compareGroup (groupOf other current) (groupOf other baseline)).filter (deltaKey · = key) =
      if key ∈ keys then compareGroup (groupOf key current) (groupOf key baseline) else [] := by
    intro keys hNodup
    induction keys with
    | nil => rfl
    | cons other keys ih =>
      obtain ⟨hNotMem, hRest⟩ := nodup_cons.mp hNodup
      rw [flatMap_cons, filter_append, ih hRest]
      by_cases hOther : other = key
      · subst hOther
        rw [if_neg hNotMem, if_pos mem_cons_self, append_nil]
        exact filter_eq_self.mpr fun entry hEntry => decide_eq_true (deltaKey_of_mem hEntry)
      · have hNone : (compareGroup (groupOf other current) (groupOf other baseline)).filter
            (deltaKey · = key) = [] := filter_eq_nil_iff.mpr fun entry hEntry => by
          simpa [deltaKey_of_mem hEntry] using hOther
        rw [hNone, nil_append]
        simp only [mem_cons, Ne.symm hOther, false_or]
  unfold fates
  rw [map_flatMap]
  refine (hKeys _ nodup_comparedKeys).trans ?_
  split_ifs with hMem
  · rfl
  · have hAbsent : ∀ record ∈ current ++ baseline, groupKey record ≠ key := by
      intro record hRecord hKey
      refine hMem (mem_filter.mpr ⟨mem_groupKeys.mpr ⟨record, hRecord, hKey⟩, ?_⟩)
      exact decide_eq_true hCompared
    rw [groupOf_eq_nil fun record h => hAbsent record (mem_append_left _ h),
      groupOf_eq_nil fun record h => hAbsent record (mem_append_right _ h)]
    rfl

theorem entries_perm (hUnlooked : ∀ name, unlooked'.get? name = unlooked.get? name)
    (hCurrent : current'.Perm current) (hBaseline : baseline'.Perm baseline)
    (hStable : ∀ key, IsCompared unlooked current key →
      Stable (groupOf key current) (groupOf key baseline)) :
    ((fates unlooked' current' baseline').map toDelta).Perm
      ((fates unlooked current baseline).map toDelta) := by
  unfold fates
  rw [map_flatMap, map_flatMap]
  have hKeys : ((groupKeys current' baseline').filter (IsCompared unlooked' current')).Perm
      ((groupKeys current baseline).filter (IsCompared unlooked current)) := by
    refine (perm_ext_iff_of_nodup nodup_comparedKeys nodup_comparedKeys).mpr fun key => ?_
    simp only [mem_filter, decide_eq_true_iff, mem_groupKeys,
      isCompared_of_perm hUnlooked hCurrent, (hCurrent.append hBaseline).mem_iff]
  refine hKeys.flatMap fun key hKey => ?_
  have hCompared : IsCompared unlooked current key :=
    (isCompared_of_perm hUnlooked hCurrent key).mp (of_decide_eq_true (mem_filter.mp hKey).2)
  exact hStable key hCompared _ _ (groupOf_perm hCurrent) (groupOf_perm hBaseline)

end

/-- Each occurrence is accounted for once, the gate follows from the entries, and neither depends on
the order in which the occurrences are listed. -/
structure Faithful (suite : List EngineResult) (current : List FindingRecord)
    (coverageWarnings : List Text) (document : BaselineDocument) (metadata : AnalysisMetadata)
    (failOnNew : Bool) (comparison : BaselineComparison) : Prop where
  accounts : ∃ l : List (Fate FindingRecord FindingRecord), comparison.entries.Perm (l.map toDelta) ∧
    (l.filterMap Fate.left).Perm current ∧
    (l.filterMap Fate.right).Perm (document.findings.filter fun record =>
      IsCompared (enginesThatDidNotLook suite document.findings) current (groupKey record))
  leftOut : ∀ record ∈ document.findings,
    ¬IsCompared (enginesThatDidNotLook suite document.findings) current (groupKey record) →
      (verdictOn suite record.engineName).isSome
  gate : comparison.gateFailed = true ↔
    failOnNew = true ∧ ∃ entry ∈ comparison.entries, entry.gated = true
  order : ∀ current' findings', current'.Perm current → findings'.Perm document.findings →
    ∃ comparison', compareCurrent suite current' coverageWarnings
      { document with findings := findings' } metadata failOnNew = .ok comparison' ∧
      comparison'.entries.Perm comparison.entries ∧ comparison'.gateFailed = comparison.gateFailed

end Ici.Core
