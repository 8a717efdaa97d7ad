import Ici.Analysis.DupWindows

/-! # Clones, and how seeds grow into them

What an extension keeps is that both sides are equal line by line, inside one region each and apart
from each other. Where it begins and stops makes it the only one on its alignment that can hold a
line it holds. -/

namespace Ici.Duplicates

open List Raising Python

def Before (a b : ℕ × ℕ) : Prop := a.1 < b.1 ∨ a.1 = b.1 ∧ a.2 < b.2

theorem mem_pairsBehind {l : List (ℕ × ℕ)} (h : l.Pairwise Before) {seed : Seed} :
    seed ∈ pairsBehind l ↔ (seed.firstFile, seed.firstSeed) ∈ l ∧ (seed.secondFile, seed.secondSeed) ∈ l ∧
      Before (seed.firstFile, seed.firstSeed) (seed.secondFile, seed.secondSeed) := by
  obtain ⟨firstFile, firstSeed, secondFile, secondSeed⟩ := seed
  induction l with
  | nil => simp [pairsBehind]
  | cons a rest ih =>
    obtain ⟨hBehind, hRest⟩ := pairwise_cons.mp h
    rw [pairsBehind, mem_append, ih hRest]
    constructor
    · rintro (hHead | ⟨hFirst, hSecond, hBefore⟩)
      · obtain ⟨second, hSecond, hSeed⟩ := mem_map.mp hHead
        cases hSeed
        exact ⟨mem_cons_self, mem_cons_of_mem _ hSecond, hBehind second hSecond⟩
      · exact ⟨mem_cons_of_mem _ hFirst, mem_cons_of_mem _ hSecond, hBefore⟩
    · rintro ⟨hFirst, hSecond, hBefore⟩
      rcases mem_cons.mp hFirst with hHead | hFirst
      · rcases mem_cons.mp hSecond with hSame | hSecond
        · rw [hHead, hSame] at hBefore
          simp [Before] at hBefore
        · refine .inl (mem_map.mpr ⟨_, hSecond, ?_⟩)
          rw [← hHead]
      · rcases mem_cons.mp hSecond with hHead | hSecond
        · have hOther := hBehind _ hFirst
          rw [← hHead] at hOther
          unfold Before at hBefore hOther
          dsimp only at hBefore hOther
          omega
        · exact .inr ⟨hFirst, hSecond, hBefore⟩

section Buckets

variable {recordHash : Text → ℕ} {windowSize : ℕ} {filesData : List DuplicateFileData} {key : Text × ℤ}

structure IsWindow (windowSize : ℕ) (filesData : List DuplicateFileData) (file position : ℕ) : Prop where
  file_lt : file < filesData.length
  fits : position + windowSize ≤ recordCount filesData file
  indexed : isIndexed windowSize (fileAt filesData file) position

theorem mem_bucket {file position : ℕ} : (file, position) ∈ bucket recordHash windowSize filesData key ↔
      IsWindow windowSize filesData file position ∧
        windowKey recordHash windowSize (fileAt filesData file) position = key := by
  have hItem : ∀ fileData, (fileData, file) ∈ filesData.zipIdx ↔
      file < filesData.length ∧ fileAt filesData file = fileData := by
    intro fileData
    rw [mem_zipIdx_iff_getElem?, List.getElem?_eq_some_iff, fileAt]
    constructor
    · rintro ⟨hFile, hData⟩
      exact ⟨hFile, by rw [getD_eq_getElem _ _ hFile, hData]⟩
    · rintro ⟨hFile, hData⟩
      exact ⟨hFile, by rw [← hData, getD_eq_getElem _ _ hFile]⟩
  simp only [bucket, mem_flatMap, mem_map, Prod.mk.injEq, positionsAt, mem_filter,
    mem_range, Bool.and_eq_true, decide_eq_true_eq]
  constructor
  · rintro ⟨⟨fileData, file'⟩, hMem, position', ⟨hRange, hIndexed, hKey⟩, hFile, hPosition⟩
    dsimp only at *
    subst hFile hPosition
    obtain ⟨hLess, rfl⟩ := (hItem fileData).mp hMem
    exact ⟨⟨hLess, by unfold recordCount; omega, hIndexed⟩, hKey⟩
  · rintro ⟨⟨hLess, hFits, hIndexed⟩, hKey⟩
    refine ⟨(fileAt filesData file, file), (hItem _).mpr ⟨hLess, rfl⟩, position, ⟨?_, hIndexed, hKey⟩, rfl,
      rfl⟩
    unfold recordCount at hFits
    dsimp only
    omega

theorem pairwise_bucket : (bucket recordHash windowSize filesData key).Pairwise Before := by
  have hFiles : filesData.zipIdx.Pairwise fun a b => a.2 < b.2 := by
    apply pairwise_map.mp
    rw [zipIdx_map_snd]
    exact pairwise_lt_range'
  apply pairwise_flatMap.mpr
  constructor
  · intro item _
    apply pairwise_map.mpr
    exact (pairwise_lt_range.filter _).imp fun hLess => .inr ⟨rfl, hLess⟩
  · refine hFiles.imp fun hLess => ?_
    intro x hx y hy
    obtain ⟨_, _, rfl⟩ := mem_map.mp hx
    obtain ⟨_, _, rfl⟩ := mem_map.mp hy
    exact .inl hLess

structure IsSeed (recordHash : Text → ℕ) (windowSize : ℕ) (filesData : List DuplicateFileData) (seed : Seed) :
    Prop where
  first : IsWindow windowSize filesData seed.firstFile seed.firstSeed
  second : IsWindow windowSize filesData seed.secondFile seed.secondSeed
  key : windowKey recordHash windowSize (fileAt filesData seed.firstFile) seed.firstSeed =
    windowKey recordHash windowSize (fileAt filesData seed.secondFile) seed.secondSeed
  before : Before (seed.firstFile, seed.firstSeed) (seed.secondFile, seed.secondSeed)

theorem mem_seedPairs (hSize : 0 < windowSize) {limits : DuplicateMatchLimits} {windowMap : WindowMap}
    (h : buildWindowMap recordHash filesData windowSize limits = .ok windowMap) {seed : Seed} :
    seed ∈ seedPairs windowMap ↔ IsSeed recordHash windowSize filesData seed := by
  simp only [seedPairs, mem_flatMap, mem_insertionSort]
  constructor
  · rintro ⟨key, -, hSeed⟩
    rw [occurrencesAt_buildWindowMap hSize h, mem_pairsBehind pairwise_bucket, mem_bucket, mem_bucket]
      at hSeed
    obtain ⟨⟨hFirst, hFirstKey⟩, ⟨hSecond, hSecondKey⟩, hBefore⟩ := hSeed
    exact ⟨hFirst, hSecond, hFirstKey.trans hSecondKey.symm, hBefore⟩
  · rintro ⟨hFirst, hSecond, hKey, hBefore⟩
    have hPair : seed ∈ pairsBehind (occurrencesAt windowMap
        (windowKey recordHash windowSize (fileAt filesData seed.firstFile) seed.firstSeed)) := by
      rw [occurrencesAt_buildWindowMap hSize h, mem_pairsBehind pairwise_bucket, mem_bucket, mem_bucket]
      exact ⟨⟨hFirst, rfl⟩, ⟨hSecond, hKey.symm⟩, hBefore⟩
    refine ⟨_, ?_, hPair⟩
    by_contra hNone
    rw [occurrencesAt, (Dict.get?_eq_none_iff _ _).mpr hNone] at hPair
    simp [pairsBehind] at hPair

end Buckets

/-! ## What an extension keeps -/

section Extensions

variable (filesData : List DuplicateFileData) (windowSize : ℕ)

/-- Two places, in one file or in two, with the same lines in one region each. -/
structure IsClone (extent : Extent) : Prop where
  first_lt : extent.start.firstFile < filesData.length
  second_lt : extent.start.secondFile < filesData.length
  language : (fileAt filesData extent.start.firstFile).language =
    (fileAt filesData extent.start.secondFile).language
  long : windowSize ≤ extent.size
  first_fits : extent.start.firstSeed + extent.size ≤ recordCount filesData extent.start.firstFile
  second_fits : extent.start.secondSeed + extent.size ≤ recordCount filesData extent.start.secondFile
  lines : ∀ i < extent.size, normalizedAt filesData extent.start.firstFile (extent.start.firstSeed + i) =
    normalizedAt filesData extent.start.secondFile (extent.start.secondSeed + i)
  first_region : ∀ i < extent.size, regionAt filesData extent.start.firstFile (extent.start.firstSeed + i) =
    regionAt filesData extent.start.firstFile extent.start.firstSeed
  second_region : ∀ i < extent.size, regionAt filesData extent.start.secondFile (extent.start.secondSeed + i)
    =
    regionAt filesData extent.start.secondFile extent.start.secondSeed
  apart : extent.start.firstFile = extent.start.secondFile →
    extent.start.firstSeed + extent.size ≤ extent.start.secondSeed

def Stops (extent : Extent) : Prop :=
  recordCount filesData extent.start.firstFile ≤ extent.start.firstSeed + extent.size ∨
  recordCount filesData extent.start.secondFile ≤ extent.start.secondSeed + extent.size ∨
  (extent.start.firstFile = extent.start.secondFile ∧
    extent.start.secondSeed - extent.start.firstSeed ≤ extent.size) ∨
  regionAt filesData extent.start.firstFile (extent.start.firstSeed + extent.size) ≠
    regionAt filesData extent.start.firstFile extent.start.firstSeed ∨
  regionAt filesData extent.start.secondFile (extent.start.secondSeed + extent.size) ≠
    regionAt filesData extent.start.secondFile extent.start.secondSeed ∨
  normalizedAt filesData extent.start.firstFile (extent.start.firstSeed + extent.size) ≠
    normalizedAt filesData extent.start.secondFile (extent.start.secondSeed + extent.size)

def Begins (extent : Extent) : Prop :=
  extent.start.firstSeed = 0 ∨ extent.start.secondSeed = 0 ∨
  regionAt filesData extent.start.firstFile (extent.start.firstSeed - 1) ≠
    regionAt filesData extent.start.firstFile extent.start.firstSeed ∨
  regionAt filesData extent.start.secondFile (extent.start.secondSeed - 1) ≠
    regionAt filesData extent.start.secondFile extent.start.secondSeed ∨
  normalizedAt filesData extent.start.firstFile (extent.start.firstSeed - 1) ≠
    normalizedAt filesData extent.start.secondFile (extent.start.secondSeed - 1)

def grown (seed : Seed) (backward : ℕ) : Extent :=
  ⟨{ seed with firstSeed := seed.firstSeed - backward, secondSeed := seed.secondSeed - backward },
    windowSize + backward⟩

variable {filesData windowSize} {limits : DuplicateMatchLimits} {seed : Seed}

variable {budget budget' : ComparisonBudget} {same : Bool} {backward size : ℕ} {start : Seed}

theorem equal_ok {firstFile first secondFile second : ℕ}
    (h : equal filesData limits budget firstFile first secondFile second = .ok (same, budget')) :
    same = decide (normalizedAt filesData firstFile first = normalizedAt filesData secondFile second) := by
  unfold equal at h
  dsimp only at h
  split_ifs at h
  cases h
  rfl

theorem seedIsEqual_ok {offsets : List ℕ}
    (h : seedIsEqual filesData limits seed offsets budget = .ok (same, budget')) :
    same = true ↔ ∀ offset ∈ offsets, normalizedAt filesData seed.firstFile (seed.firstSeed + offset) =
      normalizedAt filesData seed.secondFile (seed.secondSeed + offset) := by
  induction offsets generalizing budget with
  | nil =>
    cases h
    simp
  | cons offset offsets ih =>
    obtain ⟨⟨first, between⟩, hFirst, hRest⟩ := bind_eq_ok.mp h
    have hSame := equal_ok hFirst
    rw [forall_mem_cons]
    by_cases hEqual : normalizedAt filesData seed.firstFile (seed.firstSeed + offset) =
        normalizedAt filesData seed.secondFile (seed.secondSeed + offset)
    · rw [decide_eq_true hEqual] at hSame
      dsimp only at hRest
      rw [hSame, if_pos rfl] at hRest
      rw [ih hRest]
      exact (and_iff_right hEqual).symm
    · rw [decide_eq_false hEqual] at hSame
      dsimp only at hRest
      rw [hSame, if_neg (by simp)] at hRest
      cases hRest
      simp [hEqual]

theorem le_of_backwardLimit (h : backward ≤ backwardLimit windowSize seed) :
    backward ≤ seed.firstSeed ∧ backward ≤ seed.secondSeed ∧
      (seed.firstFile = seed.secondFile → backward ≤ seed.secondSeed - seed.firstSeed - windowSize) := by
  unfold backwardLimit at h
  dsimp only at h
  split_ifs at h with hSame
  · exact ⟨by omega, by omega, fun _ => by omega⟩
  · exact ⟨by omega, by omega, fun hFile => absurd hFile hSame⟩

section

variable (hSize : 0 < windowSize) {backward : ℕ}
  (h : IsClone filesData windowSize (grown windowSize seed backward))
include hSize h

theorem IsClone.region_start (hLimit : backward ≤ backwardLimit windowSize seed) :
    regionAt filesData seed.firstFile seed.firstSeed =
        regionAt filesData seed.firstFile (seed.firstSeed - backward) ∧
      regionAt filesData seed.secondFile seed.secondSeed =
        regionAt filesData seed.secondFile (seed.secondSeed - backward) := by
  obtain ⟨hFirstLe, hSecondLe, -⟩ := le_of_backwardLimit hLimit
  have hFirst := h.first_region backward (by dsimp only [grown]; omega)
  have hSecond := h.second_region backward (by dsimp only [grown]; omega)
  dsimp only [grown] at hFirst hSecond
  rw [Nat.sub_add_cancel hFirstLe] at hFirst
  rw [Nat.sub_add_cancel hSecondLe] at hSecond
  exact ⟨hFirst, hSecond⟩

omit hSize h in
theorem oneRegion_cons {file position : ℕ} (hLe : backward + 1 ≤ position)
    (hOld : ∀ i < size, regionAt filesData file (position - backward + i) =
      regionAt filesData file (position - backward))
    (hStart : regionAt filesData file position = regionAt filesData file (position - backward))
    (hNew : regionAt filesData file (position - backward - 1) = regionAt filesData file position) :
    ∀ i < size + 1, regionAt filesData file (position - (backward + 1) + i) =
      regionAt filesData file (position - (backward + 1)) := by
  intro i hi
  cases i with
  | zero => rfl
  | succ i =>
    have hAt : position - (backward + 1) + (i + 1) = position - backward + i := by omega
    rw [hAt, hOld i (by omega), ← hStart]
    exact hNew.symm

theorem IsClone.grow (hLimit : backward + 1 ≤ backwardLimit windowSize seed)
    (hFirst : regionAt filesData seed.firstFile (seed.firstSeed - backward - 1) =
      regionAt filesData seed.firstFile seed.firstSeed)
    (hSecond : regionAt filesData seed.secondFile (seed.secondSeed - backward - 1) =
      regionAt filesData seed.secondFile seed.secondSeed)
    (hLine : normalizedAt filesData seed.firstFile (seed.firstSeed - backward - 1) =
      normalizedAt filesData seed.secondFile (seed.secondSeed - backward - 1)) :
    IsClone filesData windowSize (grown windowSize seed (backward + 1)) := by
  obtain ⟨hFirstLe, hSecondLe, hApart⟩ := le_of_backwardLimit hLimit
  obtain ⟨hFirstStart, hSecondStart⟩ := h.region_start hSize (Nat.le_of_succ_le hLimit)
  have hFirstFits := h.first_fits
  have hSecondFits := h.second_fits
  have hOldLines := h.lines
  have hOldApart := h.apart
  simp only [grown] at hFirstFits hSecondFits hOldLines hOldApart
  have hFirstAt : ∀ i, seed.firstSeed - (backward + 1) + (i + 1) = seed.firstSeed - backward + i := by omega
  have hSecondAt : ∀ i, seed.secondSeed - (backward + 1) + (i + 1) = seed.secondSeed - backward + i :=
    by omega
  refine ⟨h.first_lt, h.second_lt, h.language, ?_, ?_, ?_, ?_,
    oneRegion_cons hFirstLe h.first_region hFirstStart hFirst,
    oneRegion_cons hSecondLe h.second_region hSecondStart hSecond, ?_⟩
  · dsimp only [grown]
    omega
  · dsimp only [grown]
    omega
  · dsimp only [grown]
    omega
  · intro i hi
    dsimp only [grown] at hi ⊢
    cases i with
    | zero => exact hLine
    | succ i =>
      rw [hFirstAt, hSecondAt]
      exact hOldLines i (by omega)
  · intro hFile
    dsimp only [grown] at hFile ⊢
    have hDistance := hApart hFile
    have hOld := hOldApart hFile
    omega

end

theorem extendBackward_ok (hSize : 0 < windowSize) {left backward result : ℕ}
    {budget budget' : ComparisonBudget}
    (hClone : IsClone filesData windowSize (grown windowSize seed backward))
    (hLimit : backward + left = backwardLimit windowSize seed)
    (h : extendBackward filesData limits seed left backward budget = .ok (result, budget')) :
    IsClone filesData windowSize (grown windowSize seed result) ∧ result ≤ backwardLimit windowSize seed ∧
      (result = backwardLimit windowSize seed ∨ Begins filesData (grown windowSize seed result)) := by
  induction left generalizing backward budget with
  | zero =>
    cases h
    exact ⟨hClone, by omega, .inl (by omega)⟩
  | succ left ih =>
    rw [extendBackward] at h
    dsimp only at h
    obtain ⟨hFirstStart, hSecondStart⟩ := hClone.region_start hSize (by omega)
    split_ifs at h with hRegions
    · cases h
      refine ⟨hClone, by omega, .inr ?_⟩
      rw [hFirstStart, hSecondStart] at hRegions
      rcases hRegions with hFirst | hSecond
      · exact .inr (.inr (.inl hFirst))
      · exact .inr (.inr (.inr (.inl hSecond)))
    · obtain ⟨⟨same, between⟩, hEqual, hRest⟩ := bind_eq_ok.mp h
      have hSame := equal_ok hEqual
      dsimp only at hRest
      split_ifs at hRest with hTurn
      · rw [hTurn, eq_comm, decide_eq_true_eq] at hSame
        simp only [not_or, not_not] at hRegions
        exact ih (hClone.grow hSize (by omega) hRegions.1 hRegions.2 hSame) (by omega) hRest
      · cases hRest
        rw [Bool.not_eq_true] at hTurn
        rw [hTurn, eq_comm, decide_eq_false_iff_not] at hSame
        exact ⟨hClone, by omega, .inr (.inr (.inr (.inr (.inr hSame))))⟩

theorem IsClone.lengthen (h : IsClone filesData windowSize ⟨start, size⟩)
    (hOn : ¬Stops filesData ⟨start, size⟩) : IsClone filesData windowSize ⟨start, size + 1⟩ := by
  simp only [Stops, not_or, not_and, not_not, not_le] at hOn
  obtain ⟨hFirst, hSecond, hOverlap, hFirstRegion, hSecondRegion, hLine⟩ := hOn
  have hLast : ∀ {p : ℕ → Prop}, (∀ i < size, p i) → p size → ∀ i < size + 1, p i := by
    intro p hBefore hEnd i hi
    rcases Nat.lt_succ_iff_lt_or_eq.mp hi with hLess | rfl
    · exact hBefore i hLess
    · exact hEnd
  refine ⟨h.first_lt, h.second_lt, h.language, ?_, hFirst, hSecond, hLast h.lines hLine,
    hLast h.first_region hFirstRegion, hLast h.second_region hSecondRegion, ?_⟩
  · have hLong := h.long
    dsimp only at hLong ⊢
    omega
  · intro hFile
    have hDistance := hOverlap hFile
    dsimp only at hDistance ⊢
    omega

theorem extendForward_ok {left result : ℕ} (hClone : IsClone filesData windowSize ⟨start, size⟩)
    (hLeft : recordCount filesData start.firstFile = start.firstSeed + size + left)
    (h : extendForward filesData limits start left size budget = .ok (result, budget')) :
    IsClone filesData windowSize ⟨start, result⟩ ∧ Stops filesData ⟨start, result⟩ ∧ size ≤ result := by
  induction left generalizing size budget with
  | zero =>
    cases h
    exact ⟨hClone, .inl (by dsimp only; omega), le_rfl⟩
  | succ left ih =>
    rw [extendForward] at h
    split_ifs at h with hEnds
    · cases h
      refine ⟨hClone, .inr ?_, le_rfl⟩
      rcases hEnds with hSecond | hOverlap | hFirstRegion | hSecondRegion
      · exact .inl hSecond
      · exact .inr (.inl hOverlap)
      · exact .inr (.inr (.inl hFirstRegion))
      · exact .inr (.inr (.inr (.inl hSecondRegion)))
    · obtain ⟨⟨same, between⟩, hEqual, hRest⟩ := bind_eq_ok.mp h
      have hSame := equal_ok hEqual
      dsimp only at hRest
      split_ifs at hRest with hTurn
      · rw [hTurn, eq_comm, decide_eq_true_eq] at hSame
        simp only [not_or, not_not] at hEnds
        have hOn : ¬Stops filesData ⟨start, size⟩ := by
          simp only [Stops, not_or, not_not]
          exact ⟨by omega, hEnds.1, hEnds.2.1, hEnds.2.2.1, hEnds.2.2.2, hSame⟩
        obtain ⟨hLonger, hStops, hLess⟩ := ih (hClone.lengthen hOn) (by omega) hRest
        exact ⟨hLonger, hStops, by omega⟩
      · cases hRest
        rw [Bool.not_eq_true] at hTurn
        rw [hTurn, eq_comm, decide_eq_false_iff_not] at hSame
        exact ⟨hClone, .inr (.inr (.inr (.inr (.inr hSame)))), le_rfl⟩

/-- The clone that a seed grows into: to the left as far as its limit or to where it begins, and to the
right to where it stops. -/
structure Grows (filesData : List DuplicateFileData) (windowSize : ℕ) (seed : Seed) (extent : Extent) :
    Prop where
  clone : IsClone filesData windowSize extent
  stops : Stops filesData extent
  backward : ∃ backward ≤ backwardLimit windowSize seed,
    extent.start = (grown windowSize seed backward).start ∧ windowSize + backward ≤ extent.size ∧
      (backward = backwardLimit windowSize seed ∨ Begins filesData extent)

theorem extendSeed_ok (hSize : 0 < windowSize) {budget budget' : ComparisonBudget} {extent : Extent}
    (hClone : IsClone filesData windowSize ⟨seed, windowSize⟩)
    (h : extendSeed filesData limits windowSize budget seed = .ok (extent, budget')) :
    Grows filesData windowSize seed extent := by
  obtain ⟨⟨backward, between⟩, hBackward, hRest⟩ := bind_eq_ok.mp h
  obtain ⟨⟨size, after⟩, hForward, hDone⟩ := bind_eq_ok.mp hRest
  cases hDone
  obtain ⟨hGrown, hLimit, hBegins⟩ := extendBackward_ok hSize hClone (by omega) hBackward
  have hFits := hGrown.first_fits
  dsimp only [grown] at hFits
  obtain ⟨hLonger, hStops, hLess⟩ := extendForward_ok hGrown (by dsimp only; omega) hForward
  exact ⟨hLonger, hStops, backward, hLimit, rfl, hLess, hBegins⟩

/-! ## Clones on one alignment -/

section Alignment

variable {extent other : Extent}

section

variable (h : IsClone filesData windowSize extent) (hOther : IsClone filesData windowSize other)
  (hAlignment : alignment extent.start = alignment other.start) {i j : ℕ} (hi : i < extent.size)
  (hj : j < other.size)
include h hOther hAlignment hi hj

section

variable (hShared : extent.start.firstSeed + i = other.start.firstSeed + j)
include hShared

theorem IsClone.start_regions : regionAt filesData other.start.firstFile extent.start.firstSeed =
        regionAt filesData other.start.firstFile other.start.firstSeed ∧
      regionAt filesData other.start.secondFile extent.start.secondSeed =
        regionAt filesData other.start.secondFile other.start.secondSeed := by
  simp only [alignment, Prod.mk.injEq] at hAlignment
  obtain ⟨hFirstFile, hSecondFile, hDistance⟩ := hAlignment
  have hSecondShared : extent.start.secondSeed + i = other.start.secondSeed + j := by omega
  constructor
  · rw [← hFirstFile, ← h.first_region i hi, hShared, hFirstFile, hOther.first_region j hj]
  · rw [← hSecondFile, ← h.second_region i hi, hSecondShared, hSecondFile, hOther.second_region j hj]

theorem IsClone.not_begins (hBefore : other.start.firstSeed < extent.start.firstSeed) :
    ¬Begins filesData extent := by
  obtain ⟨hFirstRegion, hSecondRegion⟩ := h.start_regions hOther hAlignment hi hj hShared
  simp only [alignment, Prod.mk.injEq] at hAlignment
  obtain ⟨hFirstFile, hSecondFile, hDistance⟩ := hAlignment
  obtain ⟨k, hk⟩ : ∃ k, extent.start.firstSeed = other.start.firstSeed + (k + 1) :=
    ⟨extent.start.firstSeed - other.start.firstSeed - 1, by omega⟩
  have hFirstAt : extent.start.firstSeed - 1 = other.start.firstSeed + k := by omega
  have hSecondAt : extent.start.secondSeed - 1 = other.start.secondSeed + k := by omega
  rintro (hFirst | hSecond | hFirst | hSecond | hLine)
  · omega
  · omega
  · rw [hFirstAt, hFirstFile, hFirstRegion, hOther.first_region k (by omega)] at hFirst
    exact hFirst rfl
  · rw [hSecondAt, hSecondFile, hSecondRegion, hOther.second_region k (by omega)] at hSecond
    exact hSecond rfl
  · rw [hFirstAt, hSecondAt, hFirstFile, hSecondFile, hOther.lines k (by omega)] at hLine
    exact hLine rfl

theorem IsClone.meets (hBehind : extent.start.firstSeed + extent.size < other.start.firstSeed + other.size)
    (hStops : Stops filesData extent) : extent.start.firstFile = extent.start.secondFile ∧
      extent.start.secondSeed - extent.start.firstSeed ≤ extent.size := by
  obtain ⟨hFirstRegion, hSecondRegion⟩ := h.start_regions hOther hAlignment hi hj hShared
  simp only [alignment, Prod.mk.injEq] at hAlignment
  obtain ⟨hFirstFile, hSecondFile, hDistance⟩ := hAlignment
  obtain ⟨k, hk⟩ : ∃ k, extent.start.firstSeed + extent.size = other.start.firstSeed + k :=
    ⟨extent.start.firstSeed + extent.size - other.start.firstSeed, by omega⟩
  have hSecondAt : extent.start.secondSeed + extent.size = other.start.secondSeed + k := by omega
  have hFirstFits := hOther.first_fits
  have hSecondFits := hOther.second_fits
  rcases hStops with hFirst | hSecond | hOverlap | hFirst | hSecond | hLine
  · rw [hFirstFile] at hFirst
    omega
  · rw [hSecondFile] at hSecond
    omega
  · exact hOverlap
  · rw [hk, hFirstFile, hFirstRegion, hOther.first_region k (by omega)] at hFirst
    exact absurd rfl hFirst
  · rw [hSecondAt, hSecondFile, hSecondRegion, hOther.second_region k (by omega)] at hSecond
    exact absurd rfl hSecond
  · rw [hk, hSecondAt, hFirstFile, hSecondFile, hOther.lines k (by omega)] at hLine
    exact absurd rfl hLine

end

end

theorem IsClone.size_le (h : IsClone filesData windowSize extent)
    (hOther : IsClone filesData windowSize other) (hSize : 0 < windowSize)
    (hStart : extent.start = other.start) (hStops : Stops filesData extent) :
    other.size ≤ extent.size := by
  by_contra hLonger
  have hLong := h.long
  obtain ⟨hFile, hOverlap⟩ := h.meets hOther (i := 0) (j := 0) (congrArg alignment hStart) (by omega)
    (by omega) (by rw [hStart]) (by rw [hStart]; omega) hStops
  have hApart := hOther.apart (hStart ▸ hFile)
  rw [hStart] at hOverlap
  omega

theorem extent_ext (hStart : extent.start = other.start) (hSize : extent.size = other.size) :
    extent = other := by
  cases extent
  cases other
  simp_all

theorem start_eq (hAlignment : alignment extent.start = alignment other.start)
    (hFirst : extent.start.firstSeed = other.start.firstSeed) : extent.start = other.start := by
  obtain ⟨⟨firstFile, first, secondFile, second⟩, size⟩ := extent
  obtain ⟨⟨firstFile', first', secondFile', second'⟩, size'⟩ := other
  simp only [alignment, Prod.mk.injEq] at hAlignment hFirst
  simp only [Seed.mk.injEq]
  omega

theorem Grows.alignment (h : Grows filesData windowSize seed extent) :
    Duplicates.alignment extent.start = Duplicates.alignment seed := by
  obtain ⟨backward, hLimit, hStart, -⟩ := h.backward
  obtain ⟨hFirst, hSecond, -⟩ := le_of_backwardLimit hLimit
  rw [hStart]
  simp only [Duplicates.alignment, grown, Prod.mk.injEq, true_and]
  omega

theorem Grows.unique (hSize : 0 < windowSize) (h : Grows filesData windowSize seed extent)
    (hOther : Grows filesData windowSize seed other) : extent = other := by
  -- the one that went further to the left would hold the line where the other begins
  have hNotFurther : ∀ {extent other : Extent}, Grows filesData windowSize seed extent →
      Grows filesData windowSize seed other → extent.start.firstSeed ≤ other.start.firstSeed := by
    intro extent other h hOther
    by_contra hBefore
    have hAlignment := h.alignment.trans hOther.alignment.symm
    obtain ⟨backward, hLimit, hStart, hLong, hBegins⟩ := h.backward
    obtain ⟨further, hLimit', hStart', hLong', -⟩ := hOther.backward
    have hFirst : extent.start.firstSeed = seed.firstSeed - backward := by rw [hStart]; rfl
    have hFirst' : other.start.firstSeed = seed.firstSeed - further := by rw [hStart']; rfl
    obtain ⟨hFirstLe, -, -⟩ := le_of_backwardLimit hLimit
    obtain ⟨hFirstLe', -, -⟩ := le_of_backwardLimit hLimit'
    refine h.clone.not_begins hOther.clone hAlignment (by omega : backward < extent.size)
      (by omega : further < other.size) (by omega) (by omega) ?_
    rcases hBegins with hAll | hHere
    · omega
    · exact hHere
  have hFirst := Nat.le_antisymm (hNotFurther h hOther) (hNotFurther hOther h)
  have hStart := start_eq (h.alignment.trans hOther.alignment.symm) hFirst
  exact extent_ext hStart (Nat.le_antisymm (hOther.clone.size_le h.clone hSize hStart.symm hOther.stops)
    (h.clone.size_le hOther.clone hSize hStart h.stops))

end Alignment

/-! ## Good seeds -/

/-- The windows of the seed are equal line by line, and apart where they lie in one file. -/
structure IsGood (filesData : List DuplicateFileData) (windowSize : ℕ) (seed : Seed) : Prop where
  lines : ∀ i < windowSize, normalizedAt filesData seed.firstFile (seed.firstSeed + i) =
    normalizedAt filesData seed.secondFile (seed.secondSeed + i)
  apart : seed.firstFile = seed.secondFile → seed.firstSeed + windowSize ≤ seed.secondSeed

theorem IsWindow.region (hSize : 0 < windowSize) {file position : ℕ}
    (hRegions : ∀ fileData ∈ filesData, fileData.regions.length = fileData.indexed.length)
    (h : IsWindow windowSize filesData file position) : ∀ i < windowSize,
      regionAt filesData file (position + i) = regionAt filesData file position := by
  have hFile : fileAt filesData file ∈ filesData := by
    rw [fileAt, getD_eq_getElem _ _ h.file_lt]
    exact getElem_mem h.file_lt
  have hFits := h.fits
  rw [recordCount, ← hRegions _ hFile] at hFits
  have hIndexed := h.indexed
  simp only [isIndexed, Bool.and_eq_true, decide_eq_true_eq] at hIndexed
  exact (le_regionRun_iff hSize hFits).mp hIndexed.2

theorem IsSeed.clone (hSize : 0 < windowSize) {recordHash : Text → ℕ}
    (hRegions : ∀ fileData ∈ filesData, fileData.regions.length = fileData.indexed.length)
    (h : IsSeed recordHash windowSize filesData seed) (hGood : IsGood filesData windowSize seed) :
    IsClone filesData windowSize ⟨seed, windowSize⟩ where
  first_lt := h.first.file_lt
  second_lt := h.second.file_lt
  language := congrArg Prod.fst h.key
  long := le_rfl
  first_fits := h.first.fits
  second_fits := h.second.fits
  lines := hGood.lines
  first_region := h.first.region hSize hRegions
  second_region := h.second.region hSize hRegions
  apart := hGood.apart

theorem acceptsSeedPair_ok {accepted : Bool}
    (h : acceptsSeedPair filesData limits windowSize budget seed = .ok (accepted, budget')) :
    accepted = true ↔ (seed.firstFile = seed.secondFile → windowSize ≤ seed.secondSeed - seed.firstSeed) := by
  unfold acceptsSeedPair at h
  dsimp only at h
  split_ifs at h with hFile
  · cases h
    simp [hFile]
  · cases h
    simp [hFile]

def coveredAt (state : Matching) (key : ℕ × ℕ × ℤ) : List Intervals.Interval :=
  (state.covered.get? key).getD []

def Matching.addExtent (filesData : List DuplicateFileData) (state : Matching) (key : ℕ × ℕ × ℤ)
    (extent : Extent) (budget : ComparisonBudget) : Matching where
  budget
  covered := state.covered.set key (Intervals.add (coveredAt state key) extent.start.firstSeed
    (extent.start.firstSeed + extent.size - 1))
  rawMatches := state.rawMatches ++ [locationMatch filesData extent]

theorem coveredAt_addExtent (state : Matching) (key key' : ℕ × ℕ × ℤ) (extent : Extent)
    (budget : ComparisonBudget) : coveredAt (state.addExtent filesData key extent budget) key' =
      if key = key' then Intervals.add (coveredAt state key) extent.start.firstSeed
        (extent.start.firstSeed + extent.size - 1)
      else coveredAt state key' := by
  rw [coveredAt, Matching.addExtent, Dict.get?_set]
  split_ifs <;> rfl

theorem matchSeed_cases (hSize : 0 < windowSize) {recordHash : Text → ℕ}
    (hRegions : ∀ fileData ∈ filesData, fileData.regions.length = fileData.indexed.length)
    {state state' : Matching} (hSeed : IsSeed recordHash windowSize filesData seed)
    (h : matchSeed filesData limits windowSize state seed = .ok state') :
    (∃ budget, state' = { state with budget } ∧ (¬IsGood filesData windowSize seed ∨
        intervalContains (coveredAt state (alignment seed)) seed.firstSeed = true)) ∨
    (∃ extent budget, IsGood filesData windowSize seed ∧
      intervalContains (coveredAt state (alignment seed)) seed.firstSeed = false ∧
      Grows filesData windowSize seed extent ∧
      state' = state.addExtent filesData (alignment seed) extent budget) := by
  obtain ⟨⟨accepted, budget⟩, hAccepts, h⟩ := bind_eq_ok.mp h
  have hAccepted := acceptsSeedPair_ok hAccepts
  dsimp only at h
  split_ifs at h with hRefused hCovered
  · cases h
    refine .inl ⟨budget, rfl, .inl fun hGood => ?_⟩
    have hApart := hAccepted.mpr fun hFile => by
      have hDistance := hGood.apart hFile
      omega
    simp [hApart] at hRefused
  · cases h
    exact .inl ⟨budget, rfl, .inr hCovered⟩
  · obtain ⟨⟨same, between⟩, hEqual, h⟩ := bind_eq_ok.mp h
    have hSame := seedIsEqual_ok hEqual
    dsimp only at h
    split_ifs at h with hDifferent
    · cases h
      refine .inl ⟨between, rfl, .inl fun hGood => ?_⟩
      have hLines := hSame.mpr fun offset hOffset => hGood.lines offset (mem_range.mp hOffset)
      simp [hLines] at hDifferent
    · obtain ⟨⟨extent, after⟩, hExtend, h⟩ := bind_eq_ok.mp h
      have hGood : IsGood filesData windowSize seed := by
        refine ⟨fun i hi => hSame.mp (by simpa using hDifferent) i (mem_range.mpr hi), fun hFile => ?_⟩
        have hDistance := hAccepted.mp (by simpa using hRefused) hFile
        omega
      have hGrows := extendSeed_ok hSize (hSeed.clone hSize hRegions hGood) hExtend
      dsimp only [appendBounded] at h
      split_ifs at h
      cases h
      exact .inr ⟨extent, after, hGood, Bool.eq_false_of_not_eq_true hCovered, hGrows, rfl⟩

end Extensions

end Ici.Duplicates
