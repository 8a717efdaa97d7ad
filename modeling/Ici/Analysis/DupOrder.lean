import Ici.Analysis.DupClustering
import Ici.Analysis.DupReorder
import Ici.Library.Greedy

/-! # What a report owes to the order of the files

Inside one file the same matches are found in the same order wherever the file stands. Between two
files the clones that cannot be extended are found, in an order that depends on which file is first.
Dropping the matches that overlap a larger one forgets that order where no two matches of one size
overlap, and clustering forgets it altogether. -/

namespace Ici.Duplicates

open List Python MatchPair

variable {filesData filesData' : List DuplicateFileData} {place back : ℕ → ℕ} {windowSize : ℕ}

def Seed.swapped (seed : Seed) : Seed := ⟨seed.secondFile, seed.secondSeed, seed.firstFile, seed.firstSeed⟩

def Extent.swapped (extent : Extent) : Extent := { extent with start := extent.start.swapped }

variable {extent : Extent} {seed : Seed} {a b : MatchPair}

theorem IsClone.swapped (h : IsClone filesData windowSize extent)
    (hFiles : extent.start.firstFile ≠ extent.start.secondFile) :
    IsClone filesData windowSize extent.swapped where
  first_lt := h.second_lt
  second_lt := h.first_lt
  language := h.language.symm
  long := h.long
  first_fits := h.second_fits
  second_fits := h.first_fits
  lines i hi := (h.lines i hi).symm
  first_region := h.second_region
  second_region := h.first_region
  apart hSame := absurd hSame.symm hFiles

theorem Stops.swapped (h : Stops filesData extent)
    (hFiles : extent.start.firstFile ≠ extent.start.secondFile) : Stops filesData extent.swapped := by
  rcases h with hFirst | hSecond | hOverlap | hFirst | hSecond | hLine
  · exact .inr (.inl hFirst)
  · exact .inl hSecond
  · exact absurd hOverlap.1 hFiles
  · exact .inr (.inr (.inr (.inr (.inl hFirst))))
  · exact .inr (.inr (.inr (.inl hSecond)))
  · exact .inr (.inr (.inr (.inr (.inr (Ne.symm hLine)))))

theorem Begins.swapped (h : Begins filesData extent) : Begins filesData extent.swapped := by
  rcases h with hFirst | hSecond | hFirst | hSecond | hLine
  · exact .inr (.inl hFirst)
  · exact .inl hSecond
  · exact .inr (.inr (.inr (.inl hFirst)))
  · exact .inr (.inr (.inl hSecond))
  · exact .inr (.inr (.inr (.inr (Ne.symm hLine))))

def Seed.relocated (place : ℕ → ℕ) (seed : Seed) : Seed :=
  if place seed.secondFile < place seed.firstFile then (seed.moved place).swapped else seed.moved place

def Extent.relocated (place : ℕ → ℕ) (extent : Extent) : Extent :=
  { extent with start := extent.start.relocated place }

structure IsMaximal (filesData : List DuplicateFileData) (windowSize : ℕ) (extent : Extent) : Prop where
  clone : IsClone filesData windowSize extent
  stops : Stops filesData extent
  begins : Begins filesData extent

theorem Grows.isMaximal (h : Grows filesData windowSize seed extent)
    (hFiles : extent.start.firstFile ≠ extent.start.secondFile) : IsMaximal filesData windowSize extent := by
  refine ⟨h.clone, h.stops, ?_⟩
  obtain ⟨backward, hLimit, hStart, -, hBegins | hBegins⟩ := h.backward
  · have hOther : seed.firstFile ≠ seed.secondFile := by
      rw [hStart] at hFiles
      exact hFiles
    rw [backwardLimit, if_neg hOther] at hBegins
    rw [Begins, hStart]
    dsimp only [grown]
    omega
  · exact hBegins

theorem IsMaximal.unique {other : Extent} (h : IsMaximal filesData windowSize extent)
    (hOther : IsMaximal filesData windowSize other) (hSize : 0 < windowSize) (hReaches : Reaches extent seed)
    (hReachesOther : Reaches other seed) : extent = other := by
  have hNotBefore : ∀ {extent other : Extent}, IsMaximal filesData windowSize extent →
      IsMaximal filesData windowSize other → Reaches extent seed → Reaches other seed →
        extent.start.firstSeed ≤ other.start.firstSeed := by
    intro extent other h hOther ⟨hAlignment, hStart, hEnd⟩ ⟨hAlignment', hStart', hEnd'⟩
    by_contra hBefore
    exact h.clone.not_begins hOther.clone (hAlignment.trans hAlignment'.symm)
      (by omega : seed.firstSeed - extent.start.firstSeed < extent.size)
      (by omega : seed.firstSeed - other.start.firstSeed < other.size) (by omega) (by omega) h.begins
  have hFirst := Nat.le_antisymm (hNotBefore h hOther hReaches hReachesOther)
    (hNotBefore hOther h hReachesOther hReaches)
  have hStart := start_eq (hReaches.1.trans hReachesOther.1.symm) hFirst
  exact extent_ext hStart (Nat.le_antisymm (hOther.clone.size_le h.clone hSize hStart.symm hOther.stops)
    (h.clone.size_le hOther.clone hSize hStart h.stops))

section Cross

variable (h : Reordering filesData filesData' place back)
include h

theorem IsMaximal.relocated {extent : Extent} (hMaximal : IsMaximal filesData windowSize extent)
    (hFiles : extent.start.firstFile ≠ extent.start.secondFile) :
    IsMaximal filesData' windowSize (extent.relocated place) := by
  have hIn := hMaximal.clone.inFiles
  have hMoved : IsMaximal filesData' windowSize (extent.moved place) :=
    ⟨hMaximal.clone.moved h, (stops_moved h hIn).mpr hMaximal.stops, (begins_moved h hIn).mpr hMaximal.begins⟩
  have hMovedFiles : (extent.moved place).start.firstFile ≠ (extent.moved place).start.secondFile :=
    fun hSame => hFiles ((h.injective hIn.1 hIn.2).mp hSame)
  unfold Extent.relocated Seed.relocated
  split
  · exact ⟨hMoved.clone.swapped hMovedFiles, hMoved.stops.swapped hMovedFiles, hMoved.begins.swapped⟩
  · exact hMoved

theorem IsSeed.relocated {recordHash : Text → ℕ} {seed : Seed} (hSeed : IsSeed recordHash windowSize filesData
    seed) (hFiles : seed.firstFile ≠ seed.secondFile) :
    IsSeed recordHash windowSize filesData' (seed.relocated place) := by
  have hFirst := hSeed.first.file_lt
  have hSecond := hSeed.second.file_lt
  have hMovedFiles : place seed.firstFile ≠ place seed.secondFile := fun hSame =>
    hFiles ((h.injective hFirst hSecond).mp hSame)
  have hKey := hSeed.key
  rw [← h.same _ hFirst, ← h.same _ hSecond] at hKey
  have hFirstWindow := (isWindow_place h hFirst seed.firstSeed).mpr hSeed.first
  have hSecondWindow := (isWindow_place h hSecond seed.secondSeed).mpr hSeed.second
  unfold Seed.relocated
  split
  · exact ⟨hSecondWindow, hFirstWindow, hKey.symm, .inl ‹_›⟩
  · refine ⟨hFirstWindow, hSecondWindow, hKey, .inl ?_⟩
    dsimp only [Seed.moved]
    omega

theorem IsGood.relocated {seed : Seed} (hGood : IsGood filesData windowSize seed)
    (hIn : seed.InFiles filesData) (hFiles : seed.firstFile ≠ seed.secondFile) :
    IsGood filesData' windowSize (seed.relocated place) := by
  have hMoved := (isGood_moved h hIn).mpr hGood
  unfold Seed.relocated
  split
  · refine ⟨fun i hi => (hMoved.lines i hi).symm, fun hSame => ?_⟩
    exact absurd ((h.injective hIn.2 hIn.1).mp hSame).symm hFiles
  · exact hMoved

end Cross

theorem Reaches.relocated (h : Reaches extent seed) :
    Reaches (extent.relocated place) (seed.relocated place) := by
  obtain ⟨hAlignment, hStart, hEnd⟩ := h
  obtain ⟨⟨firstFile, first, secondFile, second⟩, size⟩ := extent
  simp only [alignment, Prod.mk.injEq] at hAlignment
  obtain ⟨rfl, rfl, hDistance⟩ := hAlignment
  unfold Extent.relocated Seed.relocated Reaches alignment
  dsimp only at *
  split
  · simp only [Seed.moved, Seed.swapped, Prod.mk.injEq, true_and]
    omega
  · simp only [Seed.moved, Prod.mk.injEq, true_and]
    omega

/-! ## The same matches -/

def MatchPair.moved (place : ℕ → ℕ) (pair : MatchPair) : MatchPair :=
  { pair with firstFile := place pair.firstFile, secondFile := place pair.secondFile }

def MatchPair.swapped (pair : MatchPair) : MatchPair where
  firstFile := pair.secondFile
  firstStart := pair.secondStart
  firstEnd := pair.secondEnd
  secondFile := pair.firstFile
  secondStart := pair.firstStart
  secondEnd := pair.firstEnd
  size := pair.size

def MatchPair.relocated (place : ℕ → ℕ) (pair : MatchPair) : MatchPair :=
  if place pair.secondFile < place pair.firstFile then (pair.moved place).swapped else pair.moved place

theorem MatchPair.relocated_of_lt (pair : MatchPair) (h : place pair.secondFile < place pair.firstFile) :
    pair.relocated place = (pair.moved place).swapped := if_pos h

theorem MatchPair.relocated_of_not_lt (pair : MatchPair)
    (h : ¬place pair.secondFile < place pair.firstFile) : pair.relocated place = pair.moved place := if_neg h

theorem files_relocated (hFirst : a.firstFile = b.firstFile)
    (hSecond : a.secondFile = b.secondFile) (place : ℕ → ℕ) :
    (a.relocated place).firstFile = (b.relocated place).firstFile ∧
      (a.relocated place).secondFile = (b.relocated place).secondFile := by
  unfold relocated
  rw [hFirst, hSecond]
  split
  · exact ⟨congrArg place hSecond, congrArg place hFirst⟩
  · exact ⟨congrArg place hFirst, congrArg place hSecond⟩

def pairIsBetween (first second : ℕ) (pair : MatchPair) : Bool :=
  pair.firstFile = first && pair.secondFile = second

def MatchPair.InOrder (filesData : List DuplicateFileData) (pair : MatchPair) : Prop :=
  pair.firstFile ≤ pair.secondFile ∧ pair.secondFile < filesData.length

/-- Matches found in one order are found in the other: those between two files in any order, those
inside a file in the same one. -/
structure SameMatches (filesData : List DuplicateFileData) (place : ℕ → ℕ) (rawMatches rawMatches' :
    List MatchPair) : Prop where
  inOrder : ∀ pair ∈ rawMatches, pair.InOrder filesData
  across : ∀ pair ∈ rawMatches, pair.firstFile ≠ pair.secondFile → pair.relocated place ∈ rawMatches'
  inside : ∀ file < filesData.length, rawMatches'.filter (pairIsBetween (place file) (place file)) =
    (rawMatches.filter (pairIsBetween file file)).map (relocated place)

theorem exists_seed_of_gathers (hSize : 0 < windowSize) {recordHash : Text → ℕ}
    {limits : DuplicateMatchLimits} {windowMap : WindowMap} {extents : List Extent}
    (hMap : buildWindowMap recordHash filesData windowSize limits = .ok windowMap)
    (hGathers : ∀ first second, Gathers filesData windowSize (fun _ => [])
      ((seedPairs windowMap).filter (isBetween first second))
      (extents.filter fun extent => isBetween first second extent.start)) (extent : Extent)
    (hExtent : extent ∈ extents) : ∃ seed, IsSeed recordHash windowSize filesData seed ∧
      IsGood filesData windowSize seed ∧ Grows filesData windowSize seed extent := by
  have hMem : extent ∈ extents.filter fun other =>
      isBetween extent.start.firstFile extent.start.secondFile other.start :=
    mem_filter.mpr ⟨hExtent, by simp [isBetween]⟩
  obtain ⟨seed, hSeed, hGood, hGrows⟩ := (hGathers _ _).exists_seed hMem
  exact ⟨seed, (mem_seedPairs hSize hMap).mp (mem_of_mem_filter hSeed), hGood, hGrows⟩

section Matches

variable (h : Reordering filesData filesData' place back)
include h

theorem relocated_back {pair : MatchPair} (hPair : pair.InOrder filesData) :
    (pair.relocated place).relocated back = pair := by
  obtain ⟨hOrder, hSecond⟩ := hPair
  have hFirst := h.back_place pair.firstFile (by omega)
  have hBack := h.back_place pair.secondFile hSecond
  have hMoved : (pair.moved place).moved back = pair := by
    unfold moved
    dsimp only
    rw [hFirst, hBack]
  by_cases hSwap : place pair.secondFile < place pair.firstFile
  · have hAgain : back (pair.moved place).swapped.secondFile < back (pair.moved place).swapped.firstFile := by
      change back (place pair.firstFile) < back (place pair.secondFile)
      rw [hFirst, hBack]
      refine lt_of_le_of_ne hOrder fun hSame => ?_
      rw [hSame] at hSwap
      exact lt_irrefl _ hSwap
    rw [relocated_of_lt _ hSwap, relocated_of_lt _ hAgain]
    exact hMoved
  · have hAgain : ¬back (pair.moved place).secondFile < back (pair.moved place).firstFile := by
      change ¬back (place pair.secondFile) < back (place pair.firstFile)
      rw [hFirst, hBack]
      omega
    rw [relocated_of_not_lt _ hSwap, relocated_of_not_lt _ hAgain]
    exact hMoved

theorem files_ne_relocated {pair : MatchPair} (hPair : pair.InOrder filesData)
    (hFiles : pair.firstFile ≠ pair.secondFile) :
    (pair.relocated place).firstFile ≠ (pair.relocated place).secondFile := by
  obtain ⟨hOrder, hSecond⟩ := hPair
  have hMoved : place pair.firstFile ≠ place pair.secondFile := fun hSame =>
    hFiles ((h.injective (by omega) hSecond).mp hSame)
  unfold relocated
  split
  · exact hMoved.symm
  · exact hMoved

theorem lineAt_place {file : ℕ} (hFile : file < filesData.length) (position : ℕ) :
    lineAt filesData' (place file) position = lineAt filesData file position := by
  rw [lineAt, lineAt, h.same file hFile]

theorem locationMatch_relocated {extent : Extent} (hIn : extent.start.InFiles filesData) :
    locationMatch filesData' (extent.relocated place) = (locationMatch filesData extent).relocated place := by
  by_cases hSwap : place extent.start.secondFile < place extent.start.firstFile
  · have hPair := relocated_of_lt (locationMatch filesData extent) hSwap
    have hExtent : extent.relocated place = ⟨(extent.start.moved place).swapped, extent.size⟩ := by
      rw [Extent.relocated, Seed.relocated, if_pos hSwap]
    rw [hPair, hExtent]
    simp only [locationMatch, Seed.swapped, Seed.moved, swapped, moved,
      lineAt_place h hIn.1, lineAt_place h hIn.2]
  · have hPair := relocated_of_not_lt (locationMatch filesData extent) hSwap
    have hExtent : extent.relocated place = ⟨extent.start.moved place, extent.size⟩ := by
      rw [Extent.relocated, Seed.relocated, if_neg hSwap]
    rw [hPair, hExtent]
    simp only [locationMatch, Seed.moved, moved, lineAt_place h hIn.1, lineAt_place h hIn.2]

theorem extent_relocated (hSize : 0 < windowSize) {recordHash : Text → ℕ} {extents' : List Extent}
    (hGrown' : ∀ extent ∈ extents', ∃ seed, IsSeed recordHash windowSize filesData' seed ∧
      IsGood filesData' windowSize seed ∧ Grows filesData' windowSize seed extent)
    (hReached' : ∀ seed, IsSeed recordHash windowSize filesData' seed → IsGood filesData' windowSize seed →
      ∃ extent ∈ extents', Reaches extent seed) {seed : Seed} {extent : Extent}
    (hSeed : IsSeed recordHash windowSize filesData seed) (hGood : IsGood filesData windowSize seed)
    (hGrows : Grows filesData windowSize seed extent)
    (hFiles : extent.start.firstFile ≠ extent.start.secondFile) : extent.relocated place ∈ extents' := by
  have hAlignment := hGrows.alignment
  simp only [alignment, Prod.mk.injEq] at hAlignment
  have hIn : seed.InFiles filesData := ⟨hSeed.first.file_lt, hSeed.second.file_lt⟩
  have hSeedFiles : seed.firstFile ≠ seed.secondFile := by
    rw [← hAlignment.1, ← hAlignment.2.1]
    exact hFiles
  obtain ⟨other, hOther, hReaches⟩ := hReached' (seed.relocated place) (hSeed.relocated h hSeedFiles)
    (hGood.relocated h hIn hSeedFiles)
  obtain ⟨seed', -, -, hGrows'⟩ := hGrown' other hOther
  have hOtherFiles : other.start.firstFile ≠ other.start.secondFile := by
    have hSame := hReaches.1
    simp only [alignment, Prod.mk.injEq] at hSame
    rw [hSame.1, hSame.2.1]
    unfold Seed.relocated
    split
    · exact fun hBoth => hSeedFiles ((h.injective hIn.2 hIn.1).mp hBoth).symm
    · exact fun hBoth => hSeedFiles ((h.injective hIn.1 hIn.2).mp hBoth)
  have hMaximal := (hGrows.isMaximal hFiles).relocated h hFiles
  rw [hMaximal.unique (hGrows'.isMaximal hOtherFiles) hSize (hGrows.reaches hSize).relocated hReaches]
  exact hOther

theorem inside_moved (hSize : 0 < windowSize) {recordHash : Text → ℕ} {limits : DuplicateMatchLimits}
    {windowMap windowMap' : WindowMap}
    (hMap : buildWindowMap recordHash filesData windowSize limits = .ok windowMap)
    (hMap' : buildWindowMap recordHash filesData' windowSize limits = .ok windowMap') {file : ℕ}
    (hFile : file < filesData.length) {extents extents' : List Extent}
    (hGathers : Gathers filesData windowSize (fun _ => [])
      ((seedPairs windowMap).filter (isBetween file file)) extents)
    (hGathers' : Gathers filesData' windowSize (fun _ => [])
      ((seedPairs windowMap').filter (isBetween (place file) (place file))) extents') :
    extents' = extents.map (Extent.moved place) := by
  have hMoved := hGathers.moved h fun seed hSeed => by
    have hWindow := (mem_seedPairs hSize hMap).mp (mem_of_mem_filter hSeed)
    exact ⟨hWindow.first.file_lt, hWindow.second.file_lt⟩
  rw [← filter_seedPairs h hSize hMap hMap' hFile] at hMoved
  exact hGathers'.unique hSize hMoved

theorem findRawMatches_same {recordHash : Text → ℕ} {windowSize : ℤ} {limits : DuplicateMatchLimits}
    {rawMatches rawMatches' : List MatchPair}
    (hRun : findRawMatches recordHash filesData windowSize limits = .ok rawMatches)
    (hRun' : findRawMatches recordHash filesData' windowSize limits = .ok rawMatches') :
    SameMatches filesData place rawMatches rawMatches' := by
  obtain ⟨hSize, windowMap, extents, hMap, rfl, hClones, -, hGathers⟩ := findRawMatches_found hRun
  obtain ⟨-, windowMap', extents', hMap', rfl, -, hReached', hGathers'⟩ := findRawMatches_found hRun'
  have hPositive : 0 < windowSize.toNat := by omega
  have hGrown := exists_seed_of_gathers hPositive hMap hGathers
  refine ⟨?_, ?_, ?_⟩
  · intro pair hPair
    obtain ⟨extent, hExtent, rfl⟩ := mem_map.mp hPair
    obtain ⟨seed, hSeed, -, hGrows⟩ := hGrown extent hExtent
    have hBefore := hSeed.before
    have hAlignment := hGrows.alignment
    simp only [alignment, Prod.mk.injEq] at hAlignment
    refine ⟨?_, hGrows.clone.second_lt⟩
    dsimp only [locationMatch]
    unfold Before at hBefore
    dsimp only at hBefore
    omega
  · intro pair hPair hFiles
    obtain ⟨extent, hExtent, rfl⟩ := mem_map.mp hPair
    obtain ⟨seed, hSeed, hGood, hGrows⟩ := hGrown extent hExtent
    rw [← locationMatch_relocated h hGrows.clone.inFiles]
    exact mem_map_of_mem (extent_relocated h hPositive (exists_seed_of_gathers hPositive hMap' hGathers')
      hReached' hSeed hGood hGrows hFiles)
  · intro file hFile
    have hMoved := inside_moved h hPositive hMap hMap' hFile (hGathers file file)
      (hGathers' (place file) (place file))
    rw [filter_map, filter_map]
    change (extents'.filter fun extent => isBetween (place file) (place file) extent.start).map _ =
      ((extents.filter fun extent => isBetween file file extent.start).map _).map _
    rw [hMoved, List.map_map, List.map_map]
    apply map_congr_left
    intro extent hExtent
    obtain ⟨hMem, hBetween⟩ := mem_filter.mp hExtent
    simp only [isBetween, Bool.and_eq_true, decide_eq_true_eq] at hBetween
    have hRelocated : extent.moved place = extent.relocated place := by
      unfold Extent.relocated Seed.relocated
      rw [if_neg (by rw [hBetween.1, hBetween.2]; exact lt_irrefl _)]
      rfl
    rw [Function.comp_apply, Function.comp_apply, hRelocated]
    exact locationMatch_relocated h (hClones extent hMem).1.inFiles

end Matches

/-! ## Matches that are kept -/

/-- No two matches of one size between the same two files overlap on both sides. -/
def TieFreeAcross (rawMatches : List MatchPair) : Prop :=
  ∀ a ∈ rawMatches, ∀ b ∈ rawMatches, a ≠ b → a.firstFile ≠ a.secondFile → a.size = b.size →
    isRedundant a b = false

instance (rawMatches : List MatchPair) : Decidable (TieFreeAcross rawMatches) :=
  inferInstanceAs (Decidable (∀ a ∈ rawMatches, ∀ b ∈ rawMatches, _))

theorem files_of_isRedundant (h : isRedundant a b) :
    a.firstFile = b.firstFile ∧ a.secondFile = b.secondFile := by
  simp only [isRedundant, Bool.and_eq_true, decide_eq_true_eq] at h
  exact ⟨h.1.1.1, h.1.1.2⟩

theorem isRedundant_relocated {first second : ℕ} (ha : pairIsBetween first second a)
    (hb : pairIsBetween first second b) :
    isRedundant (a.relocated place) (b.relocated place) = isRedundant a b := by
  simp only [pairIsBetween, Bool.and_eq_true, decide_eq_true_eq] at ha hb
  unfold isRedundant relocated
  rw [ha.1, ha.2, hb.1, hb.2]
  split
  · simp only [swapped, moved, ha, hb, decide_true, Bool.true_and]
    exact Bool.and_comm _ _
  · simp only [moved, ha, hb, decide_true, Bool.true_and]

theorem size_relocated (place : ℕ → ℕ) (pair : MatchPair) : (pair.relocated place).size = pair.size := by
  unfold relocated
  split <;> rfl

theorem filter_filterSubsumed (first second : ℕ) (rawMatches : List MatchPair) :
    (filterSubsumedMatches rawMatches).filter (pairIsBetween first second) =
      Greedy.select size isRedundant (rawMatches.filter (pairIsBetween first second)) := by
  apply Greedy.filter_select
  intro a b hRedundant
  obtain ⟨hFirst, hSecond⟩ := files_of_isRedundant hRedundant
  rw [pairIsBetween, pairIsBetween, hFirst, hSecond]

theorem pairIsBetween_self (pair : MatchPair) : pairIsBetween pair.firstFile pair.secondFile pair := by
  simp [pairIsBetween]

section Kept

variable {rawMatches rawMatches' : List MatchPair}

theorem inside_kept (hSame : SameMatches filesData place rawMatches rawMatches') {file : ℕ}
    (hFile : file < filesData.length) :
    (filterSubsumedMatches rawMatches').filter (pairIsBetween (place file) (place file)) =
      ((filterSubsumedMatches rawMatches).filter (pairIsBetween file file)).map
        (relocated place) := by
  rw [filter_filterSubsumed, filter_filterSubsumed, hSame.inside file hFile]
  symm
  apply Greedy.map_select
  · exact fun pair _ => size_relocated place pair
  · exact fun a ha b hb => isRedundant_relocated (mem_filter.mp ha).2 (mem_filter.mp hb).2

section

variable (h : Reordering filesData filesData' place back)
  (hSame : SameMatches filesData place rawMatches rawMatches')
  (hSame' : SameMatches filesData' back rawMatches' rawMatches) (hTies : TieFreeAcross rawMatches)
  {pair : MatchPair} (hPair : pair ∈ filterSubsumedMatches rawMatches)
include h hSame hSame' hTies hPair

theorem across_kept (hFiles : pair.firstFile ≠ pair.secondFile) :
    pair.relocated place ∈ filterSubsumedMatches rawMatches' := by
  have hKept : pair ∈ (filterSubsumedMatches rawMatches).filter
      (pairIsBetween pair.firstFile pair.secondFile) := mem_filter.mpr ⟨hPair, pairIsBetween_self pair⟩
  rw [filter_filterSubsumed] at hKept
  have hRaw := Greedy.mem_of_mem_select hKept
  have hOrder := hSame.inOrder pair (mem_of_mem_filter hRaw)
  suffices hMoved : pair.relocated place ∈ (filterSubsumedMatches rawMatches').filter
      (pairIsBetween (pair.relocated place).firstFile (pair.relocated place).secondFile) from
    mem_of_mem_filter hMoved
  rw [filter_filterSubsumed]
  refine (Greedy.mem_select_image ?_ ?_ ?_ ?_ hRaw).mp hKept
  · intro a ha b hb hDifferent hSize
    obtain ⟨haMem, haFiles⟩ := mem_filter.mp ha
    simp only [pairIsBetween, Bool.and_eq_true, decide_eq_true_eq] at haFiles
    exact hTies a haMem b (mem_of_mem_filter hb) hDifferent (by rwa [haFiles.1, haFiles.2]) hSize
  · intro b
    constructor
    · intro hb
      obtain ⟨hbMem, hbFiles⟩ := mem_filter.mp hb
      simp only [pairIsBetween, Bool.and_eq_true, decide_eq_true_eq] at hbFiles
      have hBack := files_relocated hbFiles.1 hbFiles.2 back
      rw [relocated_back h hOrder] at hBack
      refine ⟨b.relocated back, mem_filter.mpr ⟨?_, ?_⟩, relocated_back h.symm (hSame'.inOrder b hbMem)⟩
      · apply hSame'.across b hbMem
        rw [hbFiles.1, hbFiles.2]
        exact files_ne_relocated h hOrder hFiles
      · rw [← hBack.1, ← hBack.2]
        exact pairIsBetween_self _
    · rintro ⟨a, ha, rfl⟩
      obtain ⟨haMem, haFiles⟩ := mem_filter.mp ha
      simp only [pairIsBetween, Bool.and_eq_true, decide_eq_true_eq] at haFiles
      have hMoved := files_relocated haFiles.1 haFiles.2 place
      refine mem_filter.mpr ⟨hSame.across a haMem (by rwa [haFiles.1, haFiles.2]), ?_⟩
      rw [← hMoved.1, ← hMoved.2]
      exact pairIsBetween_self _
  · exact fun a _ => size_relocated place a
  · exact fun a ha b hb => isRedundant_relocated (mem_filter.mp ha).2 (mem_filter.mp hb).2

theorem kept_relocated : pair.relocated place ∈ filterSubsumedMatches rawMatches' := by
  by_cases hFiles : pair.firstFile = pair.secondFile
  · have hOrder := hSame.inOrder pair (mem_of_mem_filterSubsumed hPair)
    have hInside := inside_kept hSame (lt_of_le_of_lt hOrder.1 hOrder.2)
    have hMem : pair ∈ (filterSubsumedMatches rawMatches).filter
        (pairIsBetween pair.firstFile pair.firstFile) :=
      mem_filter.mpr ⟨hPair, by simp [pairIsBetween, hFiles]⟩
    have hMoved := mem_map_of_mem (f := relocated place) hMem
    rw [← hInside] at hMoved
    exact mem_of_mem_filter hMoved
  · exact across_kept h hSame hSame' hTies hPair hFiles

end

theorem TieFreeAcross.moved (h : Reordering filesData filesData' place back)
    (hSame' : SameMatches filesData' back rawMatches' rawMatches) (hTies : TieFreeAcross rawMatches) :
    TieFreeAcross rawMatches' := by
  intro a ha b hb hDifferent hFiles hSize
  by_contra hRedundant
  rw [Bool.not_eq_false] at hRedundant
  obtain ⟨hFirst, hSecond⟩ := files_of_isRedundant hRedundant
  have haBack := relocated_back h.symm (hSame'.inOrder a ha)
  have hbBack := relocated_back h.symm (hSame'.inOrder b hb)
  have hFree := hTies (a.relocated back) (hSame'.across a ha hFiles) (b.relocated back)
    (hSame'.across b hb (by rwa [← hFirst, ← hSecond])) ?_
    (files_ne_relocated h.symm (hSame'.inOrder a ha) hFiles) (by rwa [size_relocated, size_relocated])
  · have hBetween : pairIsBetween a.firstFile a.secondFile b := by
      rw [hFirst, hSecond]
      exact pairIsBetween_self b
    rw [isRedundant_relocated (pairIsBetween_self a) hBetween, hRedundant] at hFree
    cases hFree
  · intro hBoth
    rw [← haBack, ← hbBack, hBoth] at hDifferent
    exact hDifferent rfl

end Kept

end Ici.Duplicates
