import Ici.Analysis.DupClones

/-! # Matches are clones, and seeds are matched

A run keeps why an alignment counts as covered at a place, so each good seed starts inside a match.
Between two files, what is found is told by the seeds between them. -/

namespace Ici.Duplicates

open List Raising Python

section Runs

variable {filesData : List DuplicateFileData} {windowSize : ℕ} {limits : DuplicateMatchLimits} {seed : Seed}

/-! ## What a run finds -/

structure Found (filesData : List DuplicateFileData) (windowSize : ℕ) (state : Matching)
    (extents : List Extent) :
    Prop where
  matches' : state.rawMatches = extents.map (locationMatch filesData)
  clone : ∀ extent ∈ extents, IsClone filesData windowSize extent
  stops : ∀ extent ∈ extents, Stops filesData extent
  separated : ∀ key, Intervals.Separated ((state.covered.get? key).getD [])
  covered : ∀ key x, Intervals.Covers ((state.covered.get? key).getD []) x →
    ∃ extent ∈ extents, alignment extent.start = key ∧ (extent.start.firstSeed : ℤ) ≤ x ∧
      x < extent.start.firstSeed + extent.size

def Reaches (extent : Extent) (seed : Seed) : Prop :=
  alignment extent.start = alignment seed ∧ extent.start.firstSeed ≤ seed.firstSeed ∧
    seed.firstSeed < extent.start.firstSeed + extent.size

variable {state : Matching} {extents : List Extent} {extent : Extent}

theorem Found.skip (h : Found filesData windowSize state extents)
    (budget : ComparisonBudget) : Found filesData windowSize { state with budget } extents :=
  ⟨h.matches', h.clone, h.stops, h.separated, h.covered⟩

theorem Found.add (h : Found filesData windowSize state extents)
    {extent : Extent} (hGrows : Grows filesData windowSize seed extent) (hSize : 0 < windowSize)
    (budget : ComparisonBudget) :
    Found filesData windowSize (state.addExtent filesData (alignment seed) extent budget)
      (extents ++ [extent]) := by
  have hLong := hGrows.clone.long
  obtain ⟨hSeparated, hCovers⟩ := Intervals.add_spec (h.separated (alignment seed))
    (show (extent.start.firstSeed : ℤ) ≤ extent.start.firstSeed + extent.size - 1 by omega)
  refine ⟨?_, ?_, ?_, ?_, ?_⟩
  · rw [map_append, ← h.matches']
    rfl
  · intro e he
    rcases mem_append.mp he with hOld | hNew
    · exact h.clone e hOld
    · exact mem_singleton.mp hNew ▸ hGrows.clone
  · intro e he
    rcases mem_append.mp he with hOld | hNew
    · exact h.stops e hOld
    · exact mem_singleton.mp hNew ▸ hGrows.stops
  · intro key
    change Intervals.Separated (coveredAt _ key)
    rw [coveredAt_addExtent]
    split_ifs
    · exact hSeparated
    · exact h.separated key
  · intro key x hx
    change Intervals.Covers (coveredAt _ key) x at hx
    rw [coveredAt_addExtent] at hx
    split_ifs at hx with hKey
    · rcases (hCovers x).mp hx with hOld | hNew
      · obtain ⟨e, he, hPlace⟩ := h.covered _ x hOld
        exact ⟨e, mem_append_left _ he, hKey ▸ hPlace⟩
      · exact ⟨extent, by simp, hGrows.alignment.trans hKey, by omega, by omega⟩
    · obtain ⟨e, he, hPlace⟩ := h.covered key x hx
      exact ⟨e, mem_append_left _ he, hPlace⟩

def isBetween (first second : ℕ) (seed : Seed) : Bool := seed.firstFile = first && seed.secondFile = second

/-- The extents that the seeds between two files are grown into, one after the other, with what is
covered at each distance between the sides. -/
inductive Gathers (filesData : List DuplicateFileData) (windowSize : ℕ) :
    (ℤ → List Intervals.Interval) → List Seed → List Extent → Prop
  | done (covered) : Gathers filesData windowSize covered [] []
  | skip {covered} {seed : Seed} {seeds : List Seed} {extents : List Extent} :
    ¬IsGood filesData windowSize seed ∨
      intervalContains (covered (seed.secondSeed - seed.firstSeed)) seed.firstSeed = true →
    Gathers filesData windowSize covered seeds extents →
    Gathers filesData windowSize covered (seed :: seeds) extents
  | take {covered} {seed : Seed} {extent : Extent} {seeds : List Seed} {extents : List Extent} :
    IsGood filesData windowSize seed →
    intervalContains (covered (seed.secondSeed - seed.firstSeed)) seed.firstSeed = false →
    Grows filesData windowSize seed extent →
    Gathers filesData windowSize (Function.update covered (seed.secondSeed - seed.firstSeed)
      (Intervals.add (covered (seed.secondSeed - seed.firstSeed)) extent.start.firstSeed
        (extent.start.firstSeed + extent.size - 1))) seeds extents →
    Gathers filesData windowSize covered (seed :: seeds) (extent :: extents)

def coveredBetween (state : Matching) (first second : ℕ) (distance : ℤ) : List Intervals.Interval :=
  coveredAt state (first, second, distance)

theorem Grows.reaches (h : Grows filesData windowSize seed extent)
    (hSize : 0 < windowSize) : Reaches extent seed := by
  obtain ⟨backward, hLimit, hStart, hLong, -⟩ := h.backward
  obtain ⟨hFirst, -, -⟩ := le_of_backwardLimit hLimit
  refine ⟨h.alignment, ?_, ?_⟩
  · rw [hStart]
    exact Nat.sub_le _ _
  · rw [hStart]
    dsimp only [grown]
    omega

theorem Grows.between (h : Grows filesData windowSize seed extent) (first second : ℕ) :
    isBetween first second extent.start = isBetween first second seed := by
  have hAlignment := h.alignment
  simp only [Duplicates.alignment, Prod.mk.injEq] at hAlignment
  rw [isBetween, isBetween, hAlignment.1, hAlignment.2.1]

theorem alignment_of_isBetween {first second : ℕ} (h : isBetween first second seed) :
    alignment seed = (first, second, (seed.secondSeed : ℤ) - seed.firstSeed) := by
  simp only [isBetween, Bool.and_eq_true, decide_eq_true_eq] at h
  rw [alignment, h.1, h.2]

theorem coveredBetween_addExtent (state : Matching) (extent : Extent) (budget : ComparisonBudget)
    (first second : ℕ) :
    coveredBetween (state.addExtent filesData (alignment seed) extent budget) first second =
      if isBetween first second seed then
        Function.update (coveredBetween state first second) (seed.secondSeed - seed.firstSeed)
          (Intervals.add (coveredBetween state first second (seed.secondSeed - seed.firstSeed))
            extent.start.firstSeed (extent.start.firstSeed + extent.size - 1))
      else coveredBetween state first second := by
  funext distance
  rw [coveredBetween, coveredAt_addExtent]
  by_cases hBetween : isBetween first second seed
  · rw [if_pos hBetween, alignment_of_isBetween hBetween, Function.update_apply]
    simp only [coveredBetween, Prod.mk.injEq, true_and, eq_comm]
  · rw [if_neg hBetween, if_neg]
    · rfl
    · intro hSame
      simp only [alignment, Prod.mk.injEq] at hSame
      simp [isBetween, hSame.1, hSame.2.1] at hBetween

section

variable (hSize : 0 < windowSize) {recordHash : Text → ℕ}
  (hRegions : ∀ fileData ∈ filesData, fileData.regions.length = fileData.indexed.length)
include hSize hRegions

theorem matchSeed_ok {state state' : Matching} {extents : List Extent}
    (hFound : Found filesData windowSize state extents)
    (hSeed : IsSeed recordHash windowSize filesData seed)
    (h : matchSeed filesData limits windowSize state seed = .ok state') :
    ∃ added, Found filesData windowSize state' (extents ++ added) ∧
      (IsGood filesData windowSize seed → ∃ extent ∈ extents ++ added, Reaches extent seed) ∧
      ∀ first second seeds later, Gathers filesData windowSize (coveredBetween state' first second)
          (seeds.filter (isBetween first second)) later →
        Gathers filesData windowSize (coveredBetween state first second)
          ((seed :: seeds).filter (isBetween first second))
          (added.filter (fun extent => isBetween first second extent.start) ++ later) := by
  have hCoveredAt : ∀ first second, isBetween first second seed → coveredAt state (alignment seed) =
      coveredBetween state first second (seed.secondSeed - seed.firstSeed) := by
    intro first second hBetween
    rw [alignment_of_isBetween hBetween]
    rfl
  rcases matchSeed_cases hSize hRegions hSeed h with ⟨budget, rfl, hSkip⟩ | ⟨extent, budget, hGood, hNew,
    hGrows, rfl⟩
  · refine ⟨[], by simpa using hFound.skip budget, fun hGood => ?_, fun first second seeds later hLater => ?_⟩
    · rcases hSkip with hBad | hCovered
      · exact absurd hGood hBad
      · obtain ⟨i, hi, hHolds, -⟩ := (Intervals.contains_iff (hFound.separated (alignment seed))).mp hCovered
        obtain ⟨extent, hExtent, hAlignment, hStart, hEnd⟩ := hFound.covered _ _ ⟨i, hi, hHolds⟩
        exact ⟨extent, by simpa using hExtent, hAlignment, by omega, by omega⟩
    · by_cases hBetween : isBetween first second seed
      · rw [filter_cons_of_pos hBetween]
        rw [hCoveredAt first second hBetween] at hSkip
        exact .skip hSkip hLater
      · rw [filter_cons_of_neg hBetween]
        exact hLater
  · refine ⟨[extent], hFound.add hGrows hSize budget, fun _ => ⟨extent, by simp, hGrows.reaches hSize⟩,
      fun first second seeds later hLater => ?_⟩
    rw [coveredBetween_addExtent] at hLater
    by_cases hBetween : isBetween first second seed
    · rw [if_pos hBetween] at hLater
      rw [hCoveredAt first second hBetween] at hNew
      rw [filter_cons_of_pos hBetween, filter_cons_of_pos (by rwa [hGrows.between])]
      exact .take hGood hNew hGrows hLater
    · rw [if_neg hBetween] at hLater
      rw [filter_cons_of_neg hBetween, filter_cons_of_neg (by rwa [hGrows.between])]
      exact hLater

theorem foldlM_matchSeed {seeds : List Seed}
    (hSeeds : ∀ seed ∈ seeds, IsSeed recordHash windowSize filesData seed) {state state' : Matching}
    {extents : List Extent} (hFound : Found filesData windowSize state extents)
    (h : seeds.foldlM (matchSeed filesData limits windowSize) state = .ok state') :
    ∃ added, Found filesData windowSize state' (extents ++ added) ∧
      (∀ seed ∈ seeds, IsGood filesData windowSize seed → ∃ extent ∈ extents ++ added, Reaches extent seed) ∧
      ∀ first second, Gathers filesData windowSize (coveredBetween state first second)
        (seeds.filter (isBetween first second))
        (added.filter fun extent => isBetween first second extent.start) := by
  induction seeds generalizing state extents with
  | nil =>
    cases h
    exact ⟨[], by simpa using hFound, by simp, fun _ _ => .done _⟩
  | cons seed rest ih =>
    rw [forall_mem_cons] at hSeeds
    obtain ⟨middle, hFirst, hRest⟩ := foldlM_cons_eq_ok.mp h
    obtain ⟨early, hEarly, hReached, hGathers⟩ := matchSeed_ok hSize hRegions hFound hSeeds.1 hFirst
    obtain ⟨later, hLater, hReached', hGathers'⟩ := ih hSeeds.2 hEarly hRest
    rw [append_assoc] at hLater hReached'
    refine ⟨early ++ later, hLater, forall_mem_cons.mpr ⟨fun hGood => ?_, hReached'⟩,
      fun first second => ?_⟩
    · obtain ⟨extent, hExtent, hReaches⟩ := hReached hGood
      exact ⟨extent, by rw [← append_assoc]; exact mem_append_left _ hExtent, hReaches⟩
    · rw [filter_append]
      exact hGathers first second rest _ (hGathers' first second)

end

end Runs

/-! ## Soundness and completeness -/

theorem found_start (filesData : List DuplicateFileData) (windowSize : ℕ) : Found filesData windowSize {} []
    where
  matches' := rfl
  clone := by simp
  stops := by simp
  separated := by
    intro key
    exact ⟨by simp, by simp⟩
  covered := by
    intro key x hx
    obtain ⟨i, hi, -⟩ := hx
    simp at hi

theorem validateMatchInputs_ok {filesData : List DuplicateFileData} {windowSize : ℤ}
    (h : validateMatchInputs filesData windowSize = .ok ()) : 0 < windowSize ∧
      ∀ fileData ∈ filesData, fileData.regions.length = fileData.indexed.length := by
  unfold validateMatchInputs at h
  split_ifs at h with hSize
  · cases h
  · refine ⟨by omega, fun fileData hFile => ?_⟩
    have hOne := forM_eq_ok.mp h fileData hFile
    split_ifs at hOne with hCount
    exact not_not.mp hCount

theorem findRawMatches_found {recordHash : Text → ℕ} {filesData : List DuplicateFileData} {windowSize : ℤ}
    {limits : DuplicateMatchLimits} {rawMatches : List MatchPair}
    (h : findRawMatches recordHash filesData windowSize limits = .ok rawMatches) :
    0 < windowSize ∧ ∃ (windowMap : WindowMap) (extents : List Extent),
      buildWindowMap recordHash filesData windowSize.toNat limits = .ok windowMap ∧
      rawMatches = extents.map (locationMatch filesData) ∧
      (∀ extent ∈ extents, IsClone filesData windowSize.toNat extent ∧ Stops filesData extent) ∧
      (∀ seed, IsSeed recordHash windowSize.toNat filesData seed → IsGood filesData windowSize.toNat seed →
        ∃ extent ∈ extents, Reaches extent seed) ∧
      ∀ first second, Gathers filesData windowSize.toNat (fun _ => [])
        ((seedPairs windowMap).filter (isBetween first second))
        (extents.filter fun extent => isBetween first second extent.start) := by
  obtain ⟨_, hValid, h⟩ := bind_eq_ok.mp h
  obtain ⟨hSize, hRegions⟩ := validateMatchInputs_ok hValid
  have hPositive : 0 < windowSize.toNat := by omega
  obtain ⟨windowMap, hMap, h⟩ := bind_eq_ok.mp h
  obtain ⟨state, hRun, hDone⟩ := bind_eq_ok.mp h
  cases hDone
  obtain ⟨extents, hFound, hReached, hGathers⟩ := foldlM_matchSeed hPositive hRegions
    (fun seed => (mem_seedPairs hPositive hMap).mp) (found_start filesData windowSize.toNat) hRun
  exact ⟨hSize, windowMap, extents, hMap, hFound.matches', fun e he => ⟨hFound.clone e he, hFound.stops e he⟩,
    fun seed hSeed => hReached seed ((mem_seedPairs hPositive hMap).mpr hSeed), hGathers⟩

/-- Every match that is returned denotes two clones of at least the window. -/
theorem findRawMatches_sound {recordHash : Text → ℕ} {filesData : List DuplicateFileData} {windowSize : ℤ}
    {limits : DuplicateMatchLimits} {rawMatches : List MatchPair}
    (h : findRawMatches recordHash filesData windowSize limits = .ok rawMatches) :
    ∀ pair ∈ rawMatches, ∃ extent, pair = locationMatch filesData extent ∧
      IsClone filesData windowSize.toNat extent := by
  obtain ⟨-, -, extents, -, rfl, hClones, -⟩ := findRawMatches_found h
  intro pair hPair
  obtain ⟨extent, hExtent, rfl⟩ := mem_map.mp hPair
  exact ⟨extent, rfl, (hClones extent hExtent).1⟩

section Complete

variable {recordHash : Text → ℕ} {filesData : List DuplicateFileData} {windowSize : ℕ}

/-- A window position a match may start from: in its file, in one region and with enough signal. -/
structure IsEligible (filesData : List DuplicateFileData) (windowSize file position : ℕ) : Prop where
  file_lt : file < filesData.length
  fits : position + windowSize ≤ recordCount filesData file
  signal : hasDuplicateSignal (duplicateSignalPrefix (fileAt filesData file).indexed) position windowSize
  region : ∀ i < windowSize, regionAt filesData file (position + i) = regionAt filesData file position

theorem IsEligible.isWindow (hSize : 0 < windowSize)
    (hRegions : ∀ fileData ∈ filesData, fileData.regions.length = fileData.indexed.length) {file position : ℕ}
    (h : IsEligible filesData windowSize file position) : IsWindow windowSize filesData file position where
  file_lt := h.file_lt
  fits := h.fits
  indexed := by
    have hFile : fileAt filesData file ∈ filesData := by
      rw [fileAt, getD_eq_getElem _ _ h.file_lt]
      exact getElem_mem h.file_lt
    have hFits := h.fits
    rw [recordCount, ← hRegions _ hFile] at hFits
    rw [isIndexed, h.signal, Bool.true_and]
    exact decide_eq_true ((le_regionRun_iff hSize hFits).mpr h.region)

theorem firstHash_congr {records records' : List (ℕ × Text)} (h : records.map Prod.snd =
    records'.map Prod.snd) :
    firstHash recordHash records = firstHash recordHash records' := by
  have hTexts : ∀ records : List (ℕ × Text), firstHash recordHash records =
      (records.map Prod.snd).foldl (fun rolling text =>
        (rolling * rollingHashBase + recordHash text) % rollingHashModulus) 0 := by
    intro records
    rw [firstHash, foldl_map]
  rw [hTexts, hTexts, h]

theorem windowKey_eq {file position file' position' : ℕ}
    (hFits : position + windowSize ≤ recordCount filesData file)
    (hFits' : position' + windowSize ≤ recordCount filesData file')
    (hLanguage : (fileAt filesData file).language = (fileAt filesData file').language)
    (hLines : ∀ i < windowSize, normalizedAt filesData file (position + i) =
      normalizedAt filesData file' (position' + i)) :
    windowKey recordHash windowSize (fileAt filesData file) position =
      windowKey recordHash windowSize (fileAt filesData file') position' := by
  refine Prod.ext hLanguage (firstHash_congr ?_)
  unfold recordCount at hFits hFits'
  apply ext_getElem
  · simp only [windowRecords, length_map, length_take, length_drop]
    omega
  · intro i hi hi'
    simp only [windowRecords, length_map, length_take, length_drop] at hi hi'
    have hLine := hLines i (by omega)
    simp only [normalizedAt] at hLine
    rw [getD_eq_getElem _ _ (by omega), getD_eq_getElem _ _ (by omega)] at hLine
    simpa [windowRecords] using hLine

theorem contained_of_reaches {extent : Extent} {seed : Seed} (hClone : IsClone filesData windowSize extent)
    (hStops : Stops filesData extent) (hReaches : Reaches extent seed)
    (hSeed : IsClone filesData windowSize ⟨seed, windowSize⟩) :
    seed.firstSeed + windowSize ≤ extent.start.firstSeed + extent.size ∨
      seed.firstFile = seed.secondFile ∧ extent.size = seed.secondSeed - seed.firstSeed := by
  obtain ⟨hAlignment, hStart, hEnd⟩ := hReaches
  by_contra hInside
  rw [not_or] at hInside
  obtain ⟨hShort, hMet⟩ := hInside
  have hPositive : 0 < windowSize := by omega
  obtain ⟨hFile, hOverlap⟩ := hClone.meets hSeed hAlignment (i := seed.firstSeed - extent.start.firstSeed)
    (j := 0) (by omega) hPositive (by dsimp only; omega) (by dsimp only; omega) hStops
  have hApart := hClone.apart hFile
  simp only [alignment, Prod.mk.injEq] at hAlignment
  obtain ⟨hFirstFile, hSecondFile, hDistance⟩ := hAlignment
  rw [hFirstFile, hSecondFile] at hFile
  exact hMet ⟨hFile, by omega⟩

/-- Every two eligible windows with the same lines, in one language and apart, are covered by a match
on their alignment: whole, or from where they start, where they lie in one file and the match
reaches from its first side to its second. -/
theorem findRawMatches_complete {windowSize : ℤ} {limits : DuplicateMatchLimits} {rawMatches : List MatchPair}
    (h : findRawMatches recordHash filesData windowSize limits = .ok rawMatches) (seed : Seed)
    (hFirst : IsEligible filesData windowSize.toNat seed.firstFile seed.firstSeed)
    (hSecond : IsEligible filesData windowSize.toNat seed.secondFile seed.secondSeed)
    (hLanguage : (fileAt filesData seed.firstFile).language = (fileAt filesData seed.secondFile).language)
    (hLines : ∀ i < windowSize.toNat, normalizedAt filesData seed.firstFile (seed.firstSeed + i) =
      normalizedAt filesData seed.secondFile (seed.secondSeed + i))
    (hApart : seed.firstFile < seed.secondFile ∨
      seed.firstFile = seed.secondFile ∧ seed.firstSeed + windowSize.toNat ≤ seed.secondSeed) :
    ∃ extent, locationMatch filesData extent ∈ rawMatches ∧ IsClone filesData windowSize.toNat extent ∧
      Reaches extent seed ∧
      (seed.firstSeed + windowSize.toNat ≤ extent.start.firstSeed + extent.size ∨
        seed.firstFile = seed.secondFile ∧ extent.size = seed.secondSeed - seed.firstSeed) := by
  obtain ⟨hSize, -, extents, -, rfl, hClones, hReached, -⟩ := findRawMatches_found h
  obtain ⟨_, hValid, -⟩ := bind_eq_ok.mp h
  have hRegions := (validateMatchInputs_ok hValid).2
  have hPositive : 0 < windowSize.toNat := by omega
  have hSeed : IsSeed recordHash windowSize.toNat filesData seed := by
    refine ⟨hFirst.isWindow hPositive hRegions, hSecond.isWindow hPositive hRegions,
      windowKey_eq hFirst.fits hSecond.fits hLanguage hLines, ?_⟩
    rcases hApart with hLess | ⟨hSame, hBehind⟩
    · exact .inl hLess
    · exact .inr ⟨hSame, by dsimp only; omega⟩
  have hGood : IsGood filesData windowSize.toNat seed := by
    refine ⟨hLines, fun hSame => ?_⟩
    rcases hApart with hLess | ⟨-, hBehind⟩
    · omega
    · exact hBehind
  obtain ⟨extent, hExtent, hReaches⟩ := hReached seed hSeed hGood
  obtain ⟨hClone, hStops⟩ := hClones extent hExtent
  exact ⟨extent, mem_map_of_mem hExtent, hClone, hReaches,
    contained_of_reaches hClone hStops hReaches (hSeed.clone hPositive hRegions hGood)⟩

end Complete

/-! ## Eight equal lines -/

def returnHash (_ : Text) : ℕ := 0x7187f0675eb3827939741acf7342ba78

def repeated : DuplicateFileData where
  filePath := py "src/a.py"
  language := py "python"
  rawLines := List.replicate 8 (py "    return\n")
  indexed := (List.range 8).map fun i => (i + 1, py "return")
  regions := List.replicate 8 (1, 0)

def wideLimits : DuplicateMatchLimits := ⟨1000, 1000, 1000, 1000, 1000, 1000⟩

def repeatedMatches : List MatchPair := [
  ⟨0, 1, 3, 0, 4, 6, 3⟩, ⟨0, 1, 4, 0, 5, 8, 4⟩, ⟨0, 1, 3, 0, 6, 8, 3⟩]

theorem findRawMatches_repeated :
    findRawMatches returnHash [repeated] 3 wideLimits = .ok repeatedMatches := by
  decide +kernel

theorem repeated_sound : ∃ extent, (⟨0, 1, 4, 0, 5, 8, 4⟩ : MatchPair) = locationMatch [repeated] extent ∧
    IsClone [repeated] 3 extent :=
  findRawMatches_sound findRawMatches_repeated _ (by decide)

theorem eligible_second : IsEligible [repeated] 3 0 1 :=
  ⟨by decide, by decide +kernel, by decide +kernel, by decide +kernel⟩

theorem eligible_fifth : IsEligible [repeated] 3 0 4 :=
  ⟨by decide, by decide +kernel, by decide +kernel, by decide +kernel⟩

/-- The windows at the second and the fifth line are equal and apart, but the one match on their
alignment ends with the third line. -/
theorem second_window_lost :
    (∃ rawMatches, findRawMatches returnHash [repeated] 3 wideLimits = .ok rawMatches ∧
      ∀ pair ∈ rawMatches, pair.secondStart = pair.firstStart + 3 → ¬(pair.firstStart ≤ 2 ∧
        4 ≤ pair.firstEnd)) ∧
    IsEligible [repeated] 3 0 1 ∧ IsEligible [repeated] 3 0 4 ∧
    ∀ i < 3, normalizedAt [repeated] 0 (1 + i) = normalizedAt [repeated] 0 (4 + i) := by
  exact ⟨⟨repeatedMatches, findRawMatches_repeated, by decide⟩, eligible_second, eligible_fifth,
    by decide +kernel⟩

theorem repeated_complete : ∃ extent, locationMatch [repeated] extent ∈ repeatedMatches ∧
    IsClone [repeated] 3 extent ∧ Reaches extent ⟨0, 1, 0, 4⟩ ∧
    (1 + 3 ≤ extent.start.firstSeed + extent.size ∨ 0 = 0 ∧ extent.size = 4 - 1) :=
  findRawMatches_complete findRawMatches_repeated ⟨0, 1, 0, 4⟩
    eligible_second eligible_fifth rfl (by decide +kernel) (.inr ⟨rfl, by decide⟩)

end Ici.Duplicates
