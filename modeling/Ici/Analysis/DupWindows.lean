import Mathlib.Data.Int.ModEq
import Mathlib.Data.List.GetD
import Mathlib.Tactic.Ring
import Ici.Analysis.DupMatching

/-! # What the window index holds

The rolling hash of a window depends on its lines only, and the bucket of a key lists the windows
with that key in the order of files and positions. -/

namespace Ici.Duplicates

open List Raising Python List

/-! ## Rolling hashes -/

section Hash

variable (recordHash : Text → ℕ)

section

variable (records : List (ℕ × Text))

def polynomial : ℤ :=
  records.foldl (fun rolling record => rolling * rollingHashBase + recordHash record.2) 0

theorem foldl_polynomial (start : ℤ) :
    records.foldl (fun rolling record => rolling * rollingHashBase + recordHash record.2) start =
      start * rollingHashBase ^ records.length + polynomial recordHash records := by
  induction records generalizing start with
  | nil => simp [polynomial]
  | cons record rest ih =>
    rw [polynomial, foldl_cons, foldl_cons, ih, ih (0 * rollingHashBase + _), length_cons]
    ring

theorem polynomial_cons (record : ℕ × Text) (rest : List (ℕ × Text)) :
    polynomial recordHash (record :: rest) =
      recordHash record.2 * rollingHashBase ^ rest.length + polynomial recordHash rest := by
  rw [polynomial, foldl_cons, foldl_polynomial]
  ring

theorem polynomial_concat (front : List (ℕ × Text)) (record : ℕ × Text) :
    polynomial recordHash (front ++ [record]) =
      polynomial recordHash front * rollingHashBase + recordHash record.2 := by
  rw [polynomial, foldl_append]
  rfl

theorem firstHash_eq :
    firstHash recordHash records = polynomial recordHash records % rollingHashModulus := by
  induction records using reverseRecOn with
  | nil => rfl
  | append_singleton front record ih =>
    rw [polynomial_concat, firstHash, foldl_append]
    change (firstHash recordHash front * rollingHashBase + recordHash record.2) % rollingHashModulus = _
    rw [ih]
    exact ((Int.mod_modEq _ _).mul_right _).add_right _

end

theorem rolled_eq (outgoing incoming : ℕ × Text) (middle : List (ℕ × Text)) :
    ((firstHash recordHash (outgoing :: middle) -
        recordHash outgoing.2 * (rollingHashBase ^ middle.length % rollingHashModulus)) * rollingHashBase +
        recordHash incoming.2) % rollingHashModulus =
      firstHash recordHash (middle ++ [incoming]) := by
  rw [firstHash_eq, firstHash_eq, polynomial_cons, polynomial_concat]
  apply Int.ModEq.add_right
  apply Int.ModEq.mul_right
  have hHigh : (recordHash outgoing.2 : ℤ) * (rollingHashBase ^ middle.length % rollingHashModulus) ≡
      recordHash outgoing.2 * rollingHashBase ^ middle.length [ZMOD rollingHashModulus] :=
    (Int.mod_modEq _ _).mul_left _
  have hBoth := (Int.mod_modEq (recordHash outgoing.2 * rollingHashBase ^ middle.length +
    polynomial recordHash middle) rollingHashModulus).sub hHigh
  simpa using hBoth

section

variable (indexed : List (ℕ × Text))

def windowRecords (windowSize position : ℕ) : List (ℕ × Text) :=
  (indexed.drop position).take windowSize

theorem rolledHashes_eq (windowSize : ℕ) (indexed : List (ℕ × Text)) :
    rolledHashes recordHash (rollingHashBase ^ windowSize % rollingHashModulus)
        (firstHash recordHash (indexed.take (windowSize + 1))) (indexed.zip (indexed.drop (windowSize + 1))) =
      (range (indexed.length - (windowSize + 1))).map fun position =>
        firstHash recordHash (windowRecords indexed (windowSize + 1) (position + 1)) := by
  induction indexed with
  | nil => simp [rolledHashes]
  | cons outgoing rest ih =>
    cases hIncoming : rest.drop windowSize with
    | nil =>
      have hShort : rest.length - windowSize = 0 := by
        have hLength := congrArg length hIncoming
        simpa using hLength
      simp [rolledHashes, hIncoming, hShort]
    | cons incoming behind =>
      have hLong : windowSize < rest.length := by
        have hLength := congrArg length hIncoming
        simp only [length_drop, length_cons] at hLength
        omega
      have hAt : rest[windowSize]? = some incoming := by
        have hHead := congrArg head? hIncoming
        rwa [head?_drop, head?_cons] at hHead
      have hNext : rest.take (windowSize + 1) = rest.take windowSize ++ [incoming] := by
        rw [take_add_one, hAt]
        rfl
      have hBehind : rest.drop (windowSize + 1) = behind := by
        rw [← tail_drop, hIncoming, tail_cons]
      have hRolled := rolled_eq recordHash outgoing incoming (rest.take windowSize)
      rw [length_take_of_le hLong.le, ← hNext] at hRolled
      have hCount : (outgoing :: rest).length - (windowSize + 1) = (rest.length - (windowSize + 1)) + 1 := by
        rw [length_cons]
        omega
      rw [take_succ_cons, drop_succ_cons, hIncoming, zip_cons_cons, rolledHashes, hRolled, hCount,
        range_succ_eq_map, map_cons, map_map, ← hBehind, ih]
      rfl

theorem windowHashes_eq {windowSize : ℕ} (h : 0 < windowSize) :
    windowHashes recordHash indexed windowSize = (range (indexed.length + 1 - windowSize)).map fun
      position =>
      firstHash recordHash (windowRecords indexed windowSize position) := by
  obtain ⟨size, rfl⟩ := Nat.exists_eq_succ_of_ne_zero h.ne'
  rw [windowHashes]
  split_ifs with hShort
  · have hNone : indexed.length + 1 - (size + 1) = 0 := by omega
    simp [hNone]
  · have hCount : indexed.length + 1 - (size + 1) = (indexed.length - (size + 1)) + 1 := by omega
    rw [hCount, range_succ_eq_map, map_cons, map_map]
    exact congrArg _ (rolledHashes_eq recordHash size indexed)

/-- `_window_hashes`, run to its end. -/
def yieldedHashes (windowSize : ℤ) : Result (List ℤ) :=
  if windowSize ≤ 0 then .error (valueError (py "window_size must be a positive integer"))
  else .ok (windowHashes recordHash indexed windowSize.toNat)

end

theorem polynomial_congr {records records' : List (ℕ × Text)}
    (h : records.map Prod.snd = records'.map Prod.snd) : polynomial recordHash records = polynomial recordHash records' := by
  have hTexts (records : List (ℕ × Text)) : polynomial recordHash records =
      (records.map Prod.snd).foldl (fun rolling text => rolling * rollingHashBase + recordHash text) 0 :=
    by rw [polynomial, foldl_map]
  rw [hTexts, hTexts, h]

theorem window_hashes_direct (indexed : List (ℕ × Text)) (windowSize : ℤ) :
    yieldedHashes recordHash indexed windowSize =
      (if windowSize ≤ 0 then .error (valueError (py "window_size must be a positive integer"))
      else .ok ((range (indexed.length + 1 - windowSize.toNat)).map fun position =>
        polynomial recordHash (windowRecords indexed windowSize.toNat position) % rollingHashModulus)) ∧
    ∀ (other : List (ℕ × Text)) (position position' : ℕ),
      (windowRecords indexed windowSize.toNat position).map Prod.snd =
        (windowRecords other windowSize.toNat position').map Prod.snd →
      polynomial recordHash (windowRecords indexed windowSize.toNat position) =
        polynomial recordHash (windowRecords other windowSize.toNat position') := by
  refine ⟨?_, fun other position position' h => polynomial_congr recordHash h⟩
  rw [yieldedHashes]
  split_ifs with hSize
  · rfl
  · rw [windowHashes_eq recordHash indexed (by omega)]
    simp only [firstHash_eq]

end Hash

theorem empty_window_refused : ¬∀ (recordHash : Text → ℕ) (indexed : List (ℕ × Text)) (windowSize : ℤ),
    ∃ values, yieldedHashes recordHash indexed windowSize = .ok values ∧
      (values.length : ℤ) = max 0 (indexed.length - windowSize + 1) := fun h => by
  obtain ⟨values, hValues, -⟩ := h (fun _ => 0) [] 0
  cases hValues

/-! ## Covered intervals -/

section Covered

open Intervals

structure Range where
  start : ℤ
  stop : ℤ
  filled : start ≤ stop

/-- The intervals when `_add_interval` has taken each range in turn. -/
def addIntervals (ranges : List Range) : List Interval :=
  ranges.foldl (fun intervals range => add intervals range.start range.stop) []

theorem addIntervals_spec (ranges : List Range) : Separated (addIntervals ranges) ∧
    ∀ x, Covers (addIntervals ranges) x ↔ ∃ range ∈ ranges, range.start ≤ x ∧ x ≤ range.stop := by
  induction ranges using reverseRecOn with
  | nil => exact ⟨⟨.nil, nofun⟩, fun x => by simp [addIntervals, Covers]⟩
  | append_singleton ranges range ih =>
    obtain ⟨hSeparated, hCovers⟩ := add_spec ih.1 range.filled
    rw [addIntervals, foldl_concat]
    refine ⟨hSeparated, fun x => (hCovers x).trans ?_⟩
    rw [ih.2]
    simp [or_and_right, exists_or]

theorem covered_intervals_exact (ranges : List Range) : Separated (addIntervals ranges) ∧
    (∀ x, Covers (addIntervals ranges) x ↔ ∃ range ∈ ranges, range.start ≤ x ∧ x ≤ range.stop) ∧
    ∀ position, intervalContains (addIntervals ranges) position = true ↔
      ∃ i ∈ addIntervals ranges, (i.1 ≤ position ∧ position ≤ i.2) ∧ ¬(i.1 = position ∧ 2 ^ 63 ≤ i.2) := by
  obtain ⟨hSeparated, hCovers⟩ := addIntervals_spec ranges
  refine ⟨hSeparated, hCovers, fun position => (contains_iff hSeparated).trans ?_⟩
  refine exists_congr fun i => and_congr_right fun _ => and_congr_right fun hHolds => ?_
  simp only [less, Bool.or_eq_false_iff, Bool.and_eq_false_iff, decide_eq_false_iff_not]
  omega

/-- An interval that ends later than the probe looks is missed at its start. -/
theorem long_interval_missed : Covers (addIntervals [⟨0, 2 ^ 63, by decide⟩]) 0 ∧
    intervalContains (addIntervals [⟨0, 2 ^ 63, by decide⟩]) 0 = false :=
  ⟨⟨(0, 2 ^ 63), by decide, by decide⟩, by decide⟩

end Covered

theorem le_length_takeWhile_iff {α : Type*} {p : α → Bool} {l : List α} {n : ℕ} (h : n ≤ l.length) :
    n ≤ (l.takeWhile p).length ↔ ∀ a ∈ l.take n, p a := by
  induction l generalizing n with
  | nil => simp_all
  | cons a rest ih =>
    cases n with
    | zero => simp
    | succ n =>
      rw [length_cons] at h
      rw [take_succ_cons, forall_mem_cons, takeWhile_cons]
      split_ifs with ha
      · rw [length_cons, Nat.add_le_add_iff_right, ih (by omega)]
        exact (and_iff_right ha).symm
      · simp [ha]

section Regions

variable {regions : List (ℤ × ℤ)} {position : ℕ}

theorem regionRun_succ (h : position + 1 ≤ regionRun regions position) :
    regionRun regions (position + 1) = regionRun regions position := by
  unfold regionRun at h ⊢
  cases hDrop : regions.drop (position + 1) with
  | nil => simp [hDrop] at h
  | cons region rest =>
    have hAt : regions[position + 1]? = some region := by
      have hHead := congrArg head? hDrop
      rwa [head?_drop, head?_cons] at hHead
    have hRest : regions.drop (position + 1 + 1) = rest := by
      rw [← tail_drop, hDrop, tail_cons]
    have hSame : region = regions.getD position (0, 0) := by
      by_contra hOther
      rw [hDrop, takeWhile_cons_of_neg (by simpa using hOther)] at h
      simp at h
    rw [hRest, getD_eq_getElem?_getD, hAt, Option.getD_some, takeWhile_cons,
      if_pos (by simpa using hSame), length_cons, ← hSame]
    omega

theorem le_regionRun_iff {windowSize : ℕ} (hSize : 0 < windowSize)
    (hFits : position + windowSize ≤ regions.length) :
    position + windowSize ≤ regionRun regions position + 1 ↔
      ∀ i < windowSize, regions.getD (position + i) (0, 0) = regions.getD position (0, 0) := by
  have hLong : windowSize - 1 ≤ (regions.drop (position + 1)).length := by
    rw [length_drop]
    omega
  have hRun : position + windowSize ≤ regionRun regions position + 1 ↔
      windowSize - 1 ≤ ((regions.drop (position + 1)).takeWhile (· = regions.getD position (0, 0))).length := by
    unfold regionRun
    omega
  rw [hRun, le_length_takeWhile_iff hLong]
  constructor
  · intro h i hi
    cases i with
    | zero => rfl
    | succ i =>
      have hMem : regions.getD (position + (i + 1)) (0, 0) ∈ (regions.drop (position + 1)).take (windowSize -
        1) := by
        rw [mem_take_iff_getElem]
        refine ⟨i, by rw [length_drop]; omega, ?_⟩
        rw [getElem_drop, getD_eq_getElem _ _ (by omega)]
        congr 1
        omega
      exact of_decide_eq_true (h _ hMem)
  · intro h region hRegion
    obtain ⟨i, hi, rfl⟩ := mem_take_iff_getElem.mp hRegion
    rw [length_drop] at hi
    have hNext := h (i + 1) (by omega)
    rw [getD_eq_getElem _ _ (by omega)] at hNext
    rw [getElem_drop]
    apply decide_eq_true
    rw [← hNext]
    congr 1
    omega

end Regions

/-! ## The index -/

section Index

variable (recordHash : Text → ℕ) (windowSize : ℕ)

section

variable (fileData : DuplicateFileData)

def isIndexed (position : ℕ) : Bool :=
  hasDuplicateSignal (duplicateSignalPrefix fileData.indexed) position windowSize &&
    position + windowSize ≤ regionRun fileData.regions position + 1

def windowKey (position : ℕ) : Text × ℤ :=
  (fileData.language, firstHash recordHash (windowRecords fileData.indexed windowSize position))

def positionsAt (key : Text × ℤ) (count : ℕ) : List ℕ :=
  (range count).filter fun position =>
    isIndexed windowSize fileData position && windowKey recordHash windowSize fileData position = key

end

def bucket (filesData : List DuplicateFileData) (key : Text × ℤ) : List (ℕ × ℕ) :=
  filesData.zipIdx.flatMap fun item =>
    (positionsAt recordHash windowSize item.1 key (item.1.indexed.length + 1 - windowSize)).map (item.2, ·)

variable {recordHash windowSize} {fileData : DuplicateFileData} {fileIndex : ℕ}
  {limits : DuplicateMatchLimits}

theorem occurrencesAt_set (windowMap : WindowMap) (key key' : Text × ℤ) (occurrences : List (ℕ × ℕ)) :
    occurrencesAt (windowMap.set key occurrences) key' =
      if key = key' then occurrences else occurrencesAt windowMap key' := by
  rw [occurrencesAt, Dict.get?_set]
  split_ifs <;> rfl

theorem indexWindow_ok {windowMap windowMap' : WindowMap} {regionEnd regionEnd' : ℤ} {position : ℕ}
    (hEnd : position ≤ regionEnd → regionRun fileData.regions position = regionEnd)
    (h : indexWindow fileData fileIndex (duplicateSignalPrefix fileData.indexed) windowSize limits
      (windowMap, regionEnd) ((windowKey recordHash windowSize fileData position).2, position) =
        .ok (windowMap', regionEnd')) :
    (∀ key, occurrencesAt windowMap' key = occurrencesAt windowMap key ++
      if isIndexed windowSize fileData position ∧ windowKey recordHash windowSize fileData position = key then
        [(fileIndex, position)] else []) ∧
    ((position : ℤ) + 1 ≤ regionEnd' → regionRun fileData.regions (position + 1) = regionEnd') := by
  have hLater : ∀ stop : ℤ, (position ≤ stop → regionRun fileData.regions position = stop) →
      (position : ℤ) + 1 ≤ stop → (regionRun fileData.regions (position + 1) : ℤ) = stop := by
    intro stop hStop hInside
    have hRun := hStop (by omega)
    rw [regionRun_succ (by omega), hRun]
  have hAdded : position + windowSize ≤ regionRun fileData.regions position + 1 →
      hasDuplicateSignal (duplicateSignalPrefix fileData.indexed) position windowSize = true → ∀ key,
        occurrencesAt (windowMap.set (fileData.language, (windowKey recordHash windowSize fileData
          position).2)
          (occurrencesAt windowMap (fileData.language, (windowKey recordHash windowSize fileData position).2)
            ++
            [(fileIndex, position)])) key = occurrencesAt windowMap key ++
          if isIndexed windowSize fileData position ∧ windowKey recordHash windowSize fileData position =
            key then
            [(fileIndex, position)] else [] := by
    intro hLong hSignal key
    have hKept : isIndexed windowSize fileData position = true := by simp [isIndexed, hLong, hSignal]
    have hKey : (fileData.language, (windowKey recordHash windowSize fileData position).2) =
      windowKey recordHash windowSize fileData position := rfl
    rw [occurrencesAt_set, hKey]
    by_cases hSame : windowKey recordHash windowSize fileData position = key
    · simp [hSame, hKept]
    · simp [hSame]
  unfold indexWindow at h
  dsimp only at h
  split_ifs at h with hSignal hLookup hOutside hLimit hOutside hLimit
  · cases h
    exact ⟨fun key => by simp_all [isIndexed], hLater _ hEnd⟩
  · cases h
    have hShort : ¬position + windowSize ≤ regionRun fileData.regions position + 1 := by omega
    exact ⟨fun key => by simp [isIndexed, hShort], hLater _ fun _ => rfl⟩
  · cases h
    have hLong : position + windowSize ≤ regionRun fileData.regions position + 1 := by omega
    exact ⟨hAdded hLong (by simpa using hSignal), hLater _ fun _ => rfl⟩
  · cases h
    have hRun := hEnd (by omega)
    have hShort : ¬position + windowSize ≤ regionRun fileData.regions position + 1 := by omega
    exact ⟨fun key => by simp [isIndexed, hShort], hLater _ hEnd⟩
  · cases h
    have hRun := hEnd (by omega)
    have hLong : position + windowSize ≤ regionRun fileData.regions position + 1 := by omega
    exact ⟨hAdded hLong (by simpa using hSignal), hLater _ hEnd⟩

theorem foldlM_indexWindow {windowMap windowMap' : WindowMap} {regionEnd : ℤ} (count : ℕ)
    (h : ((range count).map fun position =>
      ((windowKey recordHash windowSize fileData position).2, position)).foldlM
        (indexWindow fileData fileIndex (duplicateSignalPrefix fileData.indexed) windowSize limits)
        (windowMap, -1) = .ok (windowMap', regionEnd)) :
    (∀ key, occurrencesAt windowMap' key = occurrencesAt windowMap key ++
      (positionsAt recordHash windowSize fileData key count).map (fileIndex, ·)) ∧
    (count ≤ regionEnd → regionRun fileData.regions count = regionEnd) := by
  induction count generalizing windowMap' regionEnd with
  | zero =>
    cases h
    refine ⟨fun key => by simp [positionsAt], fun hNone => ?_⟩
    omega
  | succ count ih =>
    rw [range_succ, map_append, foldlM_append] at h
    obtain ⟨⟨before, stop⟩, hBefore, hLast⟩ := bind_eq_ok.mp h
    obtain ⟨hOld, hStop⟩ := ih hBefore
    obtain ⟨⟨after, stop'⟩, hStep, hDone⟩ := foldlM_cons_eq_ok.mp hLast
    cases hDone
    obtain ⟨hNew, hStop'⟩ := indexWindow_ok hStop hStep
    refine ⟨fun key => ?_, by simpa using hStop'⟩
    rw [hNew key, hOld key, positionsAt, positionsAt, range_succ, filter_append, map_append, append_assoc]
    congr 2
    by_cases hKept : isIndexed windowSize fileData count ∧ windowKey recordHash windowSize fileData count =
      key
    · simp [hKept]
    · simp [hKept]

theorem zipIdx_map_range {α : Type*} (f : ℕ → α) (count : ℕ) :
    ((range count).map f).zipIdx = (range count).map fun position => (f position, position) := by
  apply ext_getElem
  · simp
  · intro i hi hi'
    simp

theorem indexFileWindows_ok (hSize : 0 < windowSize) {windowMap windowMap' : WindowMap}
    (h : indexFileWindows recordHash windowMap fileData fileIndex (duplicateSignalPrefix fileData.indexed)
      windowSize limits = .ok windowMap') (key : Text × ℤ) :
    occurrencesAt windowMap' key = occurrencesAt windowMap key ++
      (positionsAt recordHash windowSize fileData key (fileData.indexed.length + 1 - windowSize)).map
        (fileIndex, ·) := by
  unfold indexFileWindows at h
  split_ifs at h with hShort
  · cases h
    have hNone : fileData.indexed.length + 1 - windowSize = 0 := by omega
    simp [hNone, positionsAt]
  · obtain ⟨⟨found, stop⟩, hFound, hDone⟩ := bind_eq_ok.mp h
    cases hDone
    rw [windowHashes_eq recordHash _ hSize, zipIdx_map_range] at hFound
    exact (foldlM_indexWindow _ hFound).1 key

theorem occurrencesAt_buildWindowMap (hSize : 0 < windowSize) {filesData : List DuplicateFileData}
    {windowMap : WindowMap} (h : buildWindowMap recordHash filesData windowSize limits = .ok windowMap)
    (key : Text × ℤ) : occurrencesAt windowMap key = bucket recordHash windowSize filesData key := by
  have hAll : ∀ (items : List (DuplicateFileData × ℕ)) (before after : WindowMap),
      items.foldlM (fun windowMap item => indexFileWindows recordHash windowMap item.1 item.2
        (duplicateSignalPrefix item.1.indexed) windowSize limits) before = .ok after →
      occurrencesAt after key = occurrencesAt before key ++ items.flatMap fun item =>
        (positionsAt recordHash windowSize item.1 key (item.1.indexed.length + 1 - windowSize)).map (item.2,
          ·) := by
    intro items
    induction items with
    | nil =>
      intro before after hRun
      cases hRun
      simp
    | cons item rest ih =>
      intro before after hRun
      obtain ⟨middle, hFirst, hRest⟩ := foldlM_cons_eq_ok.mp hRun
      rw [ih middle after hRest, indexFileWindows_ok hSize hFirst key, flatMap_cons, append_assoc]
  exact hAll filesData.zipIdx [] windowMap h

end Index

end Ici.Duplicates
