import Ici.Analysis.DupSound

/-! # The same files in another order

A reordering moves every file to its new place. Seeds and extents move along; the two sides of one that
joins different files change places where the files do. -/

namespace Ici.Duplicates

open Dict List Raising Python Seed

structure Reordering (filesData filesData' : List DuplicateFileData) (place back : ℕ → ℕ) : Prop where
  place_lt : ∀ file < filesData.length, place file < filesData'.length
  same : ∀ file < filesData.length, fileAt filesData' (place file) = fileAt filesData file
  back_place : ∀ file < filesData.length, back (place file) = file
  back_lt : ∀ file < filesData'.length, back file < filesData.length
  place_back : ∀ file < filesData'.length, place (back file) = file

section Reordering

variable {filesData filesData' : List DuplicateFileData} {place back : ℕ → ℕ} {windowSize : ℕ}

theorem Reordering.symm (h : Reordering filesData filesData' place back) :
    Reordering filesData' filesData back place where
  place_lt := h.back_lt
  same file hFile := by
    have hSame := h.same (back file) (h.back_lt file hFile)
    rw [h.place_back file hFile] at hSame
    exact hSame.symm
  back_place := h.place_back
  back_lt := h.place_lt
  place_back := h.back_place

theorem Reordering.injective (h : Reordering filesData filesData' place back) {first second : ℕ}
    (hFirst : first < filesData.length) (hSecond : second < filesData.length) :
    place first = place second ↔ first = second := by
  refine ⟨fun hSame => ?_, congrArg place⟩
  rw [← h.back_place first hFirst, hSame, h.back_place second hSecond]

theorem exists_reordering (hPerm : filesData.Perm filesData') (hNodup : filesData.Nodup) :
    ∃ place back, Reordering filesData filesData' place back := by
  have hNodup' := hPerm.nodup_iff.mp hNodup
  have hAt : ∀ {filesData : List DuplicateFileData} {file : ℕ}, file < filesData.length →
      fileAt filesData file ∈ filesData := by
    intro filesData file hFile
    rw [fileAt, getD_eq_getElem _ _ hFile]
    exact getElem_mem hFile
  have hFound : ∀ {filesData : List DuplicateFileData} {fileData : DuplicateFileData}, fileData ∈ filesData →
      fileAt filesData (filesData.idxOf fileData) = fileData := by
    intro filesData fileData hMem
    have hLess := idxOf_lt_length_iff.mpr hMem
    rw [fileAt, getD_eq_getElem _ _ hLess, getElem_idxOf]
  have hIndex : ∀ {filesData : List DuplicateFileData} {file : ℕ}, filesData.Nodup → file < filesData.length →
      filesData.idxOf (fileAt filesData file) = file := by
    intro filesData file hNodup hFile
    rw [fileAt, getD_eq_getElem _ _ hFile]
    exact hNodup.idxOf_getElem file hFile
  have hMem : ∀ {file}, file < filesData.length → fileAt filesData file ∈ filesData' := fun hFile =>
    hPerm.mem_iff.mp (hAt hFile)
  have hMem' : ∀ {file}, file < filesData'.length → fileAt filesData' file ∈ filesData := fun hFile =>
    hPerm.mem_iff.mpr (hAt hFile)
  refine ⟨fun file => filesData'.idxOf (fileAt filesData file),
    fun file => filesData.idxOf (fileAt filesData' file), ?_, ?_, ?_, ?_, ?_⟩
  · exact fun file hFile => idxOf_lt_length_iff.mpr (hMem hFile)
  · exact fun file hFile => hFound (hMem hFile)
  · intro file hFile
    rw [hFound (hMem hFile), hIndex hNodup hFile]
  · exact fun file hFile => idxOf_lt_length_iff.mpr (hMem' hFile)
  · intro file hFile
    rw [hFound (hMem' hFile), hIndex hNodup' hFile]

/-! ## Moving -/

def Seed.moved (place : ℕ → ℕ) (seed : Seed) : Seed :=
  { seed with firstFile := place seed.firstFile, secondFile := place seed.secondFile }

def Extent.moved (place : ℕ → ℕ) (extent : Extent) : Extent :=
  { extent with start := extent.start.moved place }

def Seed.InFiles (filesData : List DuplicateFileData) (seed : Seed) : Prop :=
  seed.firstFile < filesData.length ∧ seed.secondFile < filesData.length

theorem IsClone.inFiles {extent : Extent} (h : IsClone filesData windowSize extent) :
    extent.start.InFiles filesData := ⟨h.first_lt, h.second_lt⟩

section Moved

variable (h : Reordering filesData filesData' place back)
include h

variable {file : ℕ} {seed : Seed} {extent : Extent}

section

variable (hFile : file < filesData.length)
include hFile

theorem normalizedAt_place (position : ℕ) :
    normalizedAt filesData' (place file) position = normalizedAt filesData file position := by
  rw [normalizedAt, normalizedAt, h.same file hFile]

theorem regionAt_place (position : ℕ) :
    regionAt filesData' (place file) position = regionAt filesData file position := by
  rw [regionAt, regionAt, h.same file hFile]

theorem recordCount_place : recordCount filesData' (place file) = recordCount filesData file := by
  rw [recordCount, recordCount, h.same file hFile]

theorem isWindow_place (position : ℕ) :
    IsWindow windowSize filesData' (place file) position ↔ IsWindow windowSize filesData file position := by
  constructor
  · rintro ⟨-, hFits, hIndexed⟩
    rw [recordCount_place h hFile] at hFits
    rw [h.same file hFile] at hIndexed
    exact ⟨hFile, hFits, hIndexed⟩
  · rintro ⟨-, hFits, hIndexed⟩
    refine ⟨h.place_lt file hFile, ?_, ?_⟩
    · rwa [recordCount_place h hFile]
    · rwa [h.same file hFile]

end

theorem isGood_moved (hFiles : seed.InFiles filesData) :
    IsGood filesData' windowSize (seed.moved place) ↔ IsGood filesData windowSize seed := by
  have hLines : ∀ i, normalizedAt filesData' (place seed.firstFile) (seed.firstSeed + i) =
      normalizedAt filesData' (place seed.secondFile) (seed.secondSeed + i) ↔
      normalizedAt filesData seed.firstFile (seed.firstSeed + i) =
        normalizedAt filesData seed.secondFile (seed.secondSeed + i) := by
    intro i
    rw [normalizedAt_place h hFiles.1, normalizedAt_place h hFiles.2]
  have hFile := h.injective hFiles.1 hFiles.2
  constructor
  · intro hGood
    exact ⟨fun i hi => (hLines i).mp (hGood.lines i hi), fun hSame => hGood.apart (hFile.mpr hSame)⟩
  · intro hGood
    exact ⟨fun i hi => (hLines i).mpr (hGood.lines i hi), fun hSame => hGood.apart (hFile.mp hSame)⟩

theorem IsClone.moved (hClone : IsClone filesData windowSize extent) :
    IsClone filesData' windowSize (extent.moved place) where
  first_lt := h.place_lt _ hClone.first_lt
  second_lt := h.place_lt _ hClone.second_lt
  language := by
    dsimp only [Extent.moved, Seed.moved]
    rw [h.same _ hClone.first_lt, h.same _ hClone.second_lt]
    exact hClone.language
  long := hClone.long
  first_fits := by
    dsimp only [Extent.moved, Seed.moved]
    rw [recordCount_place h hClone.first_lt]
    exact hClone.first_fits
  second_fits := by
    dsimp only [Extent.moved, Seed.moved]
    rw [recordCount_place h hClone.second_lt]
    exact hClone.second_fits
  lines i hi := by
    dsimp only [Extent.moved, Seed.moved]
    rw [normalizedAt_place h hClone.first_lt, normalizedAt_place h hClone.second_lt]
    exact hClone.lines i hi
  first_region i hi := by
    dsimp only [Extent.moved, Seed.moved]
    rw [regionAt_place h hClone.first_lt, regionAt_place h hClone.first_lt]
    exact hClone.first_region i hi
  second_region i hi := by
    dsimp only [Extent.moved, Seed.moved]
    rw [regionAt_place h hClone.second_lt, regionAt_place h hClone.second_lt]
    exact hClone.second_region i hi
  apart hFile := hClone.apart ((h.injective hClone.first_lt hClone.second_lt).mp hFile)

theorem stops_moved (hFiles : extent.start.InFiles filesData) :
    Stops filesData' (extent.moved place) ↔ Stops filesData extent := by
  obtain ⟨hFirst, hSecond⟩ := hFiles
  simp only [Stops, Extent.moved, moved, recordCount_place h hFirst, recordCount_place h hSecond,
    regionAt_place h hFirst, regionAt_place h hSecond, normalizedAt_place h hFirst,
    normalizedAt_place h hSecond, h.injective hFirst hSecond]

theorem begins_moved (hFiles : extent.start.InFiles filesData) :
    Begins filesData' (extent.moved place) ↔ Begins filesData extent := by
  obtain ⟨hFirst, hSecond⟩ := hFiles
  simp only [Begins, Extent.moved, moved, regionAt_place h hFirst, regionAt_place h hSecond,
    normalizedAt_place h hFirst, normalizedAt_place h hSecond]

theorem Grows.moved (hGrows : Grows filesData windowSize seed extent) :
    Grows filesData' windowSize (seed.moved place) (extent.moved place) := by
  have hFiles := hGrows.clone.inFiles
  obtain ⟨backward, hLimit, hStart, hLong, hBegins⟩ := hGrows.backward
  have hSeed : seed.firstFile = extent.start.firstFile ∧ seed.secondFile = extent.start.secondFile := by
    rw [hStart]
    exact ⟨rfl, rfl⟩
  have hSameLimit : backwardLimit windowSize (seed.moved place) = backwardLimit windowSize seed := by
    have hFile := h.injective hFiles.1 hFiles.2
    rw [← hSeed.1, ← hSeed.2] at hFile
    simp only [backwardLimit, Seed.moved, hFile]
  refine ⟨hGrows.clone.moved h, (stops_moved h hFiles).mpr hGrows.stops, backward, ?_, ?_, hLong, ?_⟩
  · rwa [hSameLimit]
  · rw [Extent.moved, hStart]
    rfl
  · rwa [hSameLimit, begins_moved h hFiles]

theorem Gathers.moved {covered : ℤ → List Intervals.Interval} {seeds : List Seed} {extents : List Extent}
    (hFiles : ∀ seed ∈ seeds, seed.InFiles filesData)
    (hGathers : Gathers filesData windowSize covered seeds extents) :
    Gathers filesData' windowSize covered (seeds.map (moved place))
      (extents.map (Extent.moved place)) := by
  induction hGathers with
  | done covered => exact .done covered
  | skip hSkip _ ih =>
    rw [forall_mem_cons] at hFiles
    apply Gathers.skip _ (ih hFiles.2)
    rw [isGood_moved h hFiles.1]
    exact hSkip
  | take hGood hNew hGrows _ ih =>
    rw [forall_mem_cons] at hFiles
    exact .take ((isGood_moved h hFiles.1).mpr hGood) hNew (hGrows.moved h) (ih hFiles.2)

end Moved

theorem Gathers.unique (hSize : 0 < windowSize) {covered : ℤ → List Intervals.Interval} {seeds : List Seed}
    {extents others : List Extent} (h : Gathers filesData windowSize covered seeds extents)
    (hOther : Gathers filesData windowSize covered seeds others) : extents = others := by
  induction h generalizing others with
  | done covered =>
    cases hOther
    rfl
  | skip hSkip _ ih =>
    cases hOther with
    | skip _ hRest => exact ih hRest
    | take hGood hNew =>
      rcases hSkip with hBad | hCovered
      · exact absurd hGood hBad
      · rw [hNew] at hCovered
        cases hCovered
  | take hGood hNew hGrows _ ih =>
    cases hOther with
    | skip hSkip =>
      rcases hSkip with hBad | hCovered
      · exact absurd hGood hBad
      · rw [hNew] at hCovered
        cases hCovered
    | take _ _ hGrows' hRest =>
      obtain rfl := hGrows.unique hSize hGrows'
      rw [ih hRest]

theorem Gathers.exists_seed {covered : ℤ → List Intervals.Interval} {seeds : List Seed}
    {extents : List Extent} (h : Gathers filesData windowSize covered seeds extents) {extent : Extent}
    (hExtent : extent ∈ extents) :
    ∃ seed ∈ seeds, IsGood filesData windowSize seed ∧ Grows filesData windowSize seed extent := by
  induction h with
  | done => cases hExtent
  | skip _ _ ih =>
    obtain ⟨seed, hSeed, hGrows⟩ := ih hExtent
    exact ⟨seed, mem_cons_of_mem _ hSeed, hGrows⟩
  | take hGood _ hGrows _ ih =>
    rcases mem_cons.mp hExtent with rfl | hLater
    · exact ⟨_, mem_cons_self, hGood, hGrows⟩
    · obtain ⟨seed, hSeed, hGrows⟩ := ih hLater
      exact ⟨seed, mem_cons_of_mem _ hSeed, hGrows⟩

/-! ## Seeds inside one file -/

theorem filter_pairsBehind (file : ℕ) (l : List (ℕ × ℕ)) :
    (pairsBehind l).filter (isBetween file file) = pairsBehind (l.filter (·.1 = file)) := by
  induction l with
  | nil => rfl
  | cons a rest ih =>
    rw [pairsBehind, filter_append, ih, filter_map]
    by_cases ha : a.1 = file
    · rw [filter_cons_of_pos (by simpa using ha), pairsBehind]
      congr 3
      funext b
      simp [isBetween, ha]
    · rw [filter_cons_of_neg (by simpa using ha)]
      have hNone : rest.filter (isBetween file file ∘ fun second => ⟨a.1, a.2, second.1, second.2⟩) = [] :=
        filter_eq_nil_iff.mpr fun b _ => by simp [isBetween, ha]
      rw [hNone, map_nil, nil_append]

theorem pairsBehind_map (place : ℕ → ℕ) (l : List (ℕ × ℕ)) :
    pairsBehind (l.map fun a => (place a.1, a.2)) = (pairsBehind l).map (moved place) := by
  induction l with
  | nil => rfl
  | cons a rest ih =>
    rw [map_cons, pairsBehind, pairsBehind, ih, map_append, List.map_map, List.map_map]
    rfl

instance : Std.Irrefl Before := ⟨fun a h => by unfold Before at h; omega⟩

instance : Std.Antisymm Before := ⟨fun a b h h' => by unfold Before at h h'; omega⟩

theorem filter_bucket (h : Reordering filesData filesData' place back) {recordHash : Text → ℕ}
    {key : Text × ℤ} {file : ℕ} (hFile : file < filesData.length) :
    (bucket recordHash windowSize filesData' key).filter (·.1 = place file) =
      ((bucket recordHash windowSize filesData key).filter (·.1 = file)).map fun a => (place a.1, a.2) := by
  apply Pairwise.eq_of_mem_iff (r := Before)
  · exact pairwise_bucket.filter _
  · apply pairwise_map.mpr
    apply (pairwise_bucket.filter (·.1 = file)).imp_of_mem
    intro a b ha hb hBefore
    have haFile : a.1 = file := by simpa using (mem_filter.mp ha).2
    have hbFile : b.1 = file := by simpa using (mem_filter.mp hb).2
    unfold Before at hBefore ⊢
    dsimp only
    rw [haFile, hbFile] at hBefore ⊢
    omega
  · rintro ⟨file', position⟩
    have hKey : windowKey recordHash windowSize (fileAt filesData' (place file)) position =
        windowKey recordHash windowSize (fileAt filesData file) position := by rw [h.same file hFile]
    simp only [mem_filter, mem_map, decide_eq_true_eq, Prod.exists, Prod.mk.injEq]
    constructor
    · rintro ⟨hMem, rfl⟩
      rw [mem_bucket, isWindow_place h hFile, hKey, ← mem_bucket] at hMem
      exact ⟨file, position, ⟨hMem, rfl⟩, rfl, rfl⟩
    · rintro ⟨_, _, ⟨hMem, rfl⟩, rfl, rfl⟩
      rw [mem_bucket, isWindow_place h hFile, hKey, ← mem_bucket]
      exact ⟨hMem, rfl⟩

theorem nodup_keys_buildWindowMap {recordHash : Text → ℕ} {limits : DuplicateMatchLimits}
    {windowMap : WindowMap} (h : buildWindowMap recordHash filesData windowSize limits = .ok windowMap) :
    windowMap.keys.Nodup := by
  refine foldlM_invariant (fun windowMap : WindowMap => windowMap.keys.Nodup) ?_
    (show (Dict.keys []).Nodup from nodup_nil) h
  intro before item after _ hBefore hItem
  unfold indexFileWindows at hItem
  split_ifs at hItem
  · cases hItem
    exact hBefore
  · obtain ⟨⟨found, stop⟩, hFound, hDone⟩ := bind_eq_ok.mp hItem
    cases hDone
    refine foldlM_invariant (fun state : WindowMap × ℤ => state.1.keys.Nodup) ?_ hBefore hFound
    intro state window state' _ hState hWindow
    unfold indexWindow at hWindow
    dsimp only at hWindow
    split_ifs at hWindow <;> cases hWindow
    · exact hState
    · exact hState
    · exact nodup_keys_set hState _ _
    · exact hState
    · exact nodup_keys_set hState _ _

theorem flatMap_filter_ne_nil {α β : Type*} (f : α → List β) (l : List α) :
    (l.filter fun a => !(f a).isEmpty).flatMap f = l.flatMap f := by
  induction l with
  | nil => rfl
  | cons a rest ih =>
    rw [flatMap_cons, filter_cons]
    split
    · rw [flatMap_cons, ih]
    · rename_i hEmpty
      have hNone : f a = [] := by simpa using hEmpty
      rw [hNone, ih, nil_append]

theorem filter_seedPairs (h : Reordering filesData filesData' place back) (hSize : 0 < windowSize)
    {recordHash : Text → ℕ} {limits : DuplicateMatchLimits} {windowMap windowMap' : WindowMap}
    (hMap : buildWindowMap recordHash filesData windowSize limits = .ok windowMap)
    (hMap' : buildWindowMap recordHash filesData' windowSize limits = .ok windowMap') {file : ℕ}
    (hFile : file < filesData.length) :
    (seedPairs windowMap').filter (isBetween (place file) (place file)) =
      ((seedPairs windowMap).filter (isBetween file file)).map (moved place) := by
  have hPairs : ∀ key,
      (pairsBehind (occurrencesAt windowMap' key)).filter (isBetween (place file) (place file)) =
        ((pairsBehind (occurrencesAt windowMap key)).filter (isBetween file file)).map
          (moved place) := by
    intro key
    rw [occurrencesAt_buildWindowMap hSize hMap', occurrencesAt_buildWindowMap hSize hMap,
      filter_pairsBehind, filter_pairsBehind, filter_bucket h hFile, pairsBehind_map]
  have hMem : ∀ {windowMap : WindowMap} {file : ℕ} {key : Text × ℤ},
      ((pairsBehind (occurrencesAt windowMap key)).filter (isBetween file file)).isEmpty = false →
        key ∈ windowMap.keys := by
    intro windowMap file key hNonempty
    by_contra hNone
    rw [occurrencesAt, (get?_eq_none_iff _ _).mpr hNone] at hNonempty
    simp [pairsBehind] at hNonempty
  have hSorted : ∀ {windowMap : WindowMap}, windowMap.keys.Nodup →
      (windowMap.keys.insertionSort fun a b => toLex a ≤ toLex b).Pairwise fun a b => toLex a < toLex b := by
    intro windowMap hNodup
    have hSorted := pairwise_insertionSort (fun a b : Text × ℤ => toLex a ≤ toLex b) windowMap.keys
    have hOnce := (perm_insertionSort (fun a b : Text × ℤ => toLex a ≤ toLex b) _).nodup_iff.mpr hNodup
    exact hSorted.imp₂ (fun a b hLe hNe => lt_of_le_of_ne hLe fun hSame => hNe (toLex.injective hSame)) hOnce
  rw [seedPairs, seedPairs, filter_flatMap, filter_flatMap, map_flatMap]
  rw [← flatMap_filter_ne_nil, ← flatMap_filter_ne_nil fun key =>
    ((pairsBehind (occurrencesAt windowMap key)).filter (isBetween file file)).map (moved place)]
  simp only [hPairs]
  congr 1
  apply Pairwise.eq_of_mem_iff (r := fun a b : Text × ℤ => toLex a < toLex b)
  · exact (hSorted (nodup_keys_buildWindowMap hMap')).filter _
  · exact (hSorted (nodup_keys_buildWindowMap hMap)).filter _
  · intro key
    simp only [mem_filter, mem_insertionSort, Bool.not_eq_true', and_congr_left_iff]
    intro hNonempty
    constructor
    · intro _
      apply hMem
      simpa using hNonempty
    · intro _
      rw [← hPairs] at hNonempty
      exact hMem hNonempty

end Reordering

end Ici.Duplicates
