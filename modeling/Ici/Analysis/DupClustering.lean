import Ici.Analysis.DupSound
import Ici.Library.Connected
import Ici.Library.Lines
import Ici.Library.Worklist

/-! # Groups of duplicated code

Matches that overlap a larger one on both sides are dropped. The two sides of each match left are
joined, and the connected parts are the groups. The order in which a set of locations is gone through
and the hash of a group's text are parameters. -/

namespace Ici.Duplicates

open Dict List Raising Python

def spansOverlap (start stop keptStart keptStop : ℕ) : Bool := !(stop < keptStart || keptStop < start)

/-- The match lies between the same files as the kept one and overlaps it on both sides. -/
def isRedundant (pair kept : MatchPair) : Bool :=
  pair.firstFile = kept.firstFile && pair.secondFile = kept.secondFile &&
    spansOverlap pair.firstStart pair.firstEnd kept.firstStart kept.firstEnd &&
    spansOverlap pair.secondStart pair.secondEnd kept.secondStart kept.secondEnd

def keepMatch (filtered : List MatchPair) (pair : MatchPair) : List MatchPair :=
  if filtered.any (isRedundant pair) then filtered else filtered ++ [pair]

def filterSubsumedMatches (rawMatches : List MatchPair) : List MatchPair :=
  (rawMatches.insertionSort fun a b => b.size ≤ a.size).foldl keepMatch []

variable {pair : MatchPair} {a b : LocTuple} {links : Adjacency × MatchLengths}

theorem mem_foldl_keepMatch {pairs filtered : List MatchPair}
    (h : pair ∈ pairs.foldl keepMatch filtered) : pair ∈ filtered ∨ pair ∈ pairs := by
  induction pairs generalizing filtered with
  | nil => exact .inl h
  | cons first rest ih =>
    rcases ih h with hFiltered | hRest
    · unfold keepMatch at hFiltered
      split at hFiltered
      · exact .inl hFiltered
      · rcases mem_append.mp hFiltered with hOld | hNew
        · exact .inl hOld
        · obtain rfl := mem_singleton.mp hNew
          exact .inr mem_cons_self
    · exact .inr (mem_cons_of_mem _ hRest)

theorem mem_of_mem_filterSubsumed {rawMatches : List MatchPair}
    (h : pair ∈ filterSubsumedMatches rawMatches) : pair ∈ rawMatches := by
  rcases mem_foldl_keepMatch h with hNone | hSorted
  · cases hNone
  · exact (mem_insertionSort _).mp hSorted

/-! ## Locations and what joins them -/

abbrev LocTuple := ℕ × ℕ × ℕ

def MatchPair.firstLoc (pair : MatchPair) : LocTuple := (pair.firstFile, pair.firstStart, pair.firstEnd)

def MatchPair.secondLoc (pair : MatchPair) : LocTuple := (pair.secondFile, pair.secondStart, pair.secondEnd)

abbrev Adjacency := Dict LocTuple (List LocTuple)

def neighbors (adjacency : Adjacency) (loc : LocTuple) : List LocTuple := (adjacency.get? loc).getD []

def addNeighbor (adjacency : Adjacency) (loc neighbor : LocTuple) : Adjacency :=
  adjacency.set loc ((neighbors adjacency loc).insert neighbor)

abbrev MatchLengths := Dict LocTuple ℕ

def lengthAt (matchLen : MatchLengths) (loc : LocTuple) : ℕ := (matchLen.get? loc).getD 0

def raiseLength (matchLen : MatchLengths) (loc : LocTuple) (size : ℕ) : MatchLengths :=
  matchLen.set loc (max (lengthAt matchLen loc) size)

def linkMatch (links : Adjacency × MatchLengths) (pair : MatchPair) : Adjacency × MatchLengths :=
  (addNeighbor (addNeighbor links.1 pair.firstLoc pair.secondLoc) pair.secondLoc pair.firstLoc,
    raiseLength (raiseLength links.2 pair.firstLoc pair.size) pair.secondLoc pair.size)

def locKey (loc : LocTuple) : ℕ ×ₗ ℕ ×ₗ ℕ := toLex (loc.1, toLex (loc.2.1, loc.2.2))

/-! ## Groups -/

structure CloneGroup where
  index : ℕ
  lineCount : ℕ
  fingerprint : Text
  language : Text
  snippet : Text
  locations : List LocTuple
deriving DecidableEq

structure DuplicateClustering where
  groups : List CloneGroup
  duplicatedPositions : List (ℕ × ℕ)
deriving DecidableEq

def fingerprintAlgorithm : Text := py "sha256/type2-region-v2"

/-- `items[start - 1 : stop]`; a start of zero counts from the end. -/
def numberedSlice {α : Type*} (items : List α) (start stop : ℕ) : List α :=
  (items.take stop).drop (if start = 0 then items.length - 1 else start - 1)

def normalizedLines (fileData : DuplicateFileData) (start stop : ℕ) : List Text :=
  (fileData.indexed.filter fun record => start ≤ record.1 && record.1 ≤ stop).map Prod.snd

def codeLines (fileData : DuplicateFileData) : List ℕ := fileData.indexed.map Prod.fst

section Clustering

variable (order : Worklist.Order LocTuple) (sha256 : List UInt8 → Text) (filesData : List DuplicateFileData)

def spanKey (loc : LocTuple) : Text ×ₗ ℕ ×ₗ ℕ :=
  toLex ((fileAt filesData loc.1).filePath, toLex (loc.2.1, loc.2.2))

section

variable (matchLen : MatchLengths) (component : List LocTuple)

def longest : ℕ :=
  (component.map (lengthAt matchLen)).foldl max 0

def componentKey : ℤ ×ₗ ℤ ×ₗ List (Text ×ₗ ℕ ×ₗ ℕ) :=
  toLex (-(longest matchLen component : ℤ), toLex (-(component.length : ℤ),
    component.map (spanKey filesData)))

end

-- the order on ℤ that can be run, wherever more of the library is in scope
local instance intPreorder : Preorder ℤ := Int.instLinearOrder.toPreorder

def representative (matchLen : MatchLengths) (component : List LocTuple) : LocTuple :=
  (component.argmin fun loc => toLex (-(lengthAt matchLen loc : ℤ), spanKey filesData loc)).getD (0, 0, 0)

def clusterFingerprint (language : Text) (lines : List Text) : Result Text := do
  let encoded ← utf8 (fingerprintAlgorithm ++ [0] ++ language ++ [0] ++ join (py "\n") lines)
  return sha256 encoded

def cloneGroup (matchLen : MatchLengths) (item : List LocTuple × ℕ) : Result CloneGroup := do
  let (component, index) := item
  let (repFile, repStart, repEnd) := representative filesData matchLen component
  let found := fileAt filesData repFile
  let fingerprint ← clusterFingerprint sha256 found.language (normalizedLines found repStart repEnd)
  return {
    index
    lineCount := longest matchLen component
    fingerprint
    language := found.language
    snippet := rstrip (numberedSlice found.rawLines repStart repEnd).flatten
    locations := component }

def countLocation (duplicated : List (ℕ × ℕ)) (loc : LocTuple) : List (ℕ × ℕ) :=
  (List.range' loc.2.1 (loc.2.2 + 1 - loc.2.1)).foldl (fun duplicated line =>
    if line ∈ codeLines (fileAt filesData loc.1) then duplicated.insert (loc.1, line) else duplicated)
      duplicated

def countComponent (duplicated : List (ℕ × ℕ)) (component : List LocTuple) : List (ℕ × ℕ) :=
  component.tail.foldl (countLocation filesData) duplicated

def components (adjacency : Adjacency) : Option (List (List LocTuple)) :=
  Connected.parts (fun loc => order.val (neighbors adjacency loc)) adjacency.length
    (adjacency.keys.insertionSort fun a b => locKey a ≤ locKey b) []

def sortComponents (matchLen : MatchLengths) (found : List (List LocTuple)) : List (List LocTuple) :=
  (found.map fun component => component.insertionSort fun a b => spanKey filesData a ≤ spanKey filesData
    b).insertionSort
    fun a b => componentKey filesData matchLen a ≤ componentKey filesData matchLen b

def clusterMatches (pairs : List MatchPair) : Result DuplicateClustering :=
  let (adjacency, matchLen) := pairs.foldl linkMatch ([], [])
  match components order adjacency with
  | none => .error noReturn
  | some found => do
    let clusters := sortComponents filesData matchLen found
    let groups ← (clusters.zipIdx 1).mapM (cloneGroup sha256 filesData matchLen)
    return ⟨groups, clusters.foldl (countComponent filesData) []⟩

end Clustering

/-! ## What joining records -/

def Joined (pairs : List MatchPair) (a b : LocTuple) : Prop :=
  ∃ pair ∈ pairs, (a = pair.firstLoc ∧ b = pair.secondLoc) ∨ (a = pair.secondLoc ∧ b = pair.firstLoc)

def IsSide (pairs : List MatchPair) (loc : LocTuple) : Prop :=
  ∃ pair ∈ pairs, loc = pair.firstLoc ∨ loc = pair.secondLoc

variable {pairs : List MatchPair}

theorem Joined.symm (h : Joined pairs a b) : Joined pairs b a := by
  obtain ⟨pair, hPair, ⟨ha, hb⟩ | ⟨ha, hb⟩⟩ := h
  · exact ⟨pair, hPair, .inr ⟨hb, ha⟩⟩
  · exact ⟨pair, hPair, .inl ⟨hb, ha⟩⟩

theorem Joined.isSide (h : Joined pairs a b) : IsSide pairs a := by
  obtain ⟨pair, hPair, ⟨ha, -⟩ | ⟨ha, -⟩⟩ := h
  · exact ⟨pair, hPair, .inl ha⟩
  · exact ⟨pair, hPair, .inr ha⟩

theorem mem_neighbors_addNeighbor {adjacency : Adjacency} {loc neighbor : LocTuple} :
    b ∈ neighbors (addNeighbor adjacency loc neighbor) a ↔
      b ∈ neighbors adjacency a ∨ (a = loc ∧ b = neighbor) := by
  unfold addNeighbor neighbors
  rw [get?_set]
  by_cases hLoc : loc = a
  · subst hLoc
    rw [if_pos rfl, Option.getD_some, mem_insert_iff]
    tauto
  · rw [if_neg hLoc]
    constructor
    · exact .inl
    · rintro (h | ⟨ha, -⟩)
      · exact h
      · exact absurd ha.symm hLoc

theorem mem_neighbors_linkMatch : b ∈ neighbors (linkMatch links pair).1 a ↔ b ∈ neighbors links.1 a ∨
      (a = pair.firstLoc ∧ b = pair.secondLoc) ∨ (a = pair.secondLoc ∧ b = pair.firstLoc) := by
  rw [linkMatch, mem_neighbors_addNeighbor, mem_neighbors_addNeighbor, or_assoc]

theorem mem_neighbors_foldl :
    b ∈ neighbors (pairs.foldl linkMatch links).1 a ↔ b ∈ neighbors links.1 a ∨ Joined pairs a b := by
  induction pairs generalizing links with
  | nil => simp [Joined]
  | cons pair rest ih =>
    rw [foldl_cons, ih, mem_neighbors_linkMatch, or_assoc]
    simp only [Joined, exists_mem_cons_iff]

theorem mem_keys_linkMatch :
    a ∈ (linkMatch links pair).1.keys ↔ a ∈ links.1.keys ∨ a = pair.firstLoc ∨ a = pair.secondLoc := by
  unfold linkMatch addNeighbor
  rw [mem_keys_set, mem_keys_set]
  tauto

theorem mem_keys_foldl : a ∈ (pairs.foldl linkMatch links).1.keys ↔ a ∈ links.1.keys ∨ IsSide pairs a := by
  induction pairs generalizing links with
  | nil => simp [IsSide]
  | cons pair rest ih =>
    rw [foldl_cons, ih, mem_keys_linkMatch, or_assoc]
    simp only [IsSide, exists_mem_cons_iff]

theorem mem_linked_neighbors : b ∈ neighbors (pairs.foldl linkMatch ([], [])).1 a ↔ Joined pairs a b := by
  rw [mem_neighbors_foldl]
  simp [neighbors, Dict.get?]

theorem mem_linked_keys : a ∈ (pairs.foldl linkMatch ([], [])).1.keys ↔ IsSide pairs a := by
  rw [mem_keys_foldl]
  simp [Dict.keys]

/-! ## Groups are the connected parts -/

section Partition

variable {order : Worklist.Order LocTuple} {sha256 : List UInt8 → Text} {filesData : List DuplicateFileData}
  {pairs : List MatchPair}

def Connects (pairs : List MatchPair) : LocTuple → LocTuple → Prop := Relation.ReflTransGen (Joined pairs)

theorem Connects.symm {a b : LocTuple} (h : Connects pairs a b) : Connects pairs b a := by
  induction h with
  | refl => exact .refl
  | tail _ hJoined ih => exact .head hJoined.symm ih

theorem next_linked : Connected.Next (fun loc => order.val (neighbors (pairs.foldl linkMatch ([], [])).1 loc))
    =
    Joined pairs := by
  funext a b
  rw [Connected.Next, (order.property _).mem_iff, mem_linked_neighbors]

theorem linked_symm (a b : LocTuple) (h : b ∈ order.val (neighbors (pairs.foldl linkMatch ([], [])).1 a)) :
    a ∈ order.val (neighbors (pairs.foldl linkMatch ([], [])).1 b) := by
  rw [(order.property _).mem_iff, mem_linked_neighbors] at h ⊢
  exact h.symm

variable {found : List (List LocTuple)} {matchLen : MatchLengths} {clustering : DuplicateClustering}

theorem components_eq_some (h : components order (pairs.foldl linkMatch ([], [])).1 = some found) :
    (∀ component ∈ found, ∃ start, ∀ a, a ∈ component ↔ Connects pairs start a) ∧ found.flatten.Nodup ∧
      ∀ a, a ∈ found.flatten ↔ IsSide pairs a := by
  have hSorted : ∀ a, a ∈ ((pairs.foldl linkMatch ([], [])).1.keys.insertionSort fun a b => locKey a ≤ locKey
    b) ↔
      IsSide pairs a := fun a => by rw [mem_insertionSort _, mem_linked_keys]
  obtain ⟨hParts, hOnce, hAll⟩ := Connected.parts_eq_some linked_symm _ nodup_nil nofun h
  rw [append_nil] at hOnce hAll
  unfold Connected.IsPart at hParts
  rw [next_linked] at hParts
  refine ⟨fun component hComponent => ?_, hOnce, fun a => ⟨fun ha => ?_, fun ha => ?_⟩⟩
  · obtain ⟨start, -, hPart⟩ := hParts component hComponent
    exact ⟨start, hPart⟩
  · obtain ⟨component, hComponent, ha⟩ := mem_flatten.mp ha
    obtain ⟨start, hStart, hPart⟩ := hParts component hComponent
    rcases Relation.ReflTransGen.cases_tail ((hPart a).mp ha) with hSame | ⟨b, -, hJoined⟩
    · rw [hSame]
      exact (hSorted start).mp hStart
    · exact hJoined.symm.isSide
  · exact hAll a ((hSorted a).mpr ha)

theorem exists_components (order : Worklist.Order LocTuple) (pairs : List MatchPair) :
    ∃ found, components order (pairs.foldl linkMatch ([], [])).1 = some found := by
  apply Connected.exists_parts (pairs.foldl linkMatch ([], [])).1.keys
  · intro a b hb
    rw [(order.property _).mem_iff, mem_linked_neighbors] at hb
    exact mem_linked_keys.mpr hb.symm.isSide
  · exact linked_symm
  · rw [Dict.keys, length_map]
  · intro a ha
    exact (mem_insertionSort _).mp ha
  · exact nodup_nil
  all_goals exact forall_mem_nil _

theorem mem_sortComponents {cluster : List LocTuple} :
    cluster ∈ sortComponents filesData matchLen found ↔ ∃ component ∈ found,
      (component.insertionSort fun a b => spanKey filesData a ≤ spanKey filesData b) = cluster := by
  rw [sortComponents, mem_insertionSort _, mem_map]

theorem sortComponents_flatten (filesData : List DuplicateFileData) (matchLen : MatchLengths)
    (found : List (List LocTuple)) :
    (sortComponents filesData matchLen found).flatten.Perm found.flatten := by
  refine (Perm.flatten (perm_insertionSort _ _)).trans ?_
  induction found with
  | nil => exact .refl _
  | cons component rest ih => exact (perm_insertionSort _ component).append ih

theorem cloneGroup_locations {item : List LocTuple × ℕ} {group : CloneGroup}
    (h : cloneGroup sha256 filesData matchLen item = .ok group) : group.locations = item.1 := by
  obtain ⟨fingerprint, -, hGroup⟩ := bind_eq_ok.mp h
  cases hGroup
  rfl

section

variable (h : clusterMatches order sha256 filesData pairs = .ok clustering)
include h

theorem clusterMatches_eq_ok : ∃ found, components order (pairs.foldl linkMatch ([], [])).1 = some found ∧
      clustering.groups.map CloneGroup.locations =
        sortComponents filesData (pairs.foldl linkMatch ([], [])).2 found ∧
      clustering.duplicatedPositions =
        (sortComponents filesData (pairs.foldl linkMatch ([], [])).2 found).foldl (countComponent filesData)
          [] := by
  unfold clusterMatches at h
  obtain ⟨found, hFound⟩ := exists_components order pairs
  simp only [hFound] at h
  obtain ⟨groups, hGroups, hDone⟩ := bind_eq_ok.mp h
  cases hDone
  refine ⟨found, hFound, ?_, rfl⟩
  have hLocations : groups.map CloneGroup.locations =
      ((sortComponents filesData (pairs.foldl linkMatch ([], [])).2 found).zipIdx 1).map Prod.fst :=
    map_of_mapM (fun _ _ => cloneGroup_locations) hGroups
  rw [hLocations, zipIdx_map_fst]

theorem clusterMatches_groups : (∀ group ∈ clustering.groups, group.locations ≠ [] ∧
      ∀ a ∈ group.locations, ∀ b, b ∈ group.locations ↔ Connects pairs a b) ∧
    (clustering.groups.flatMap CloneGroup.locations).Nodup ∧
    ∀ a, (∃ group ∈ clustering.groups, a ∈ group.locations) ↔ IsSide pairs a := by
  obtain ⟨found, hFound, hGroups, -⟩ := clusterMatches_eq_ok h
  obtain ⟨hComponents, hOnce, hSides⟩ := components_eq_some hFound
  have hPerm := sortComponents_flatten filesData (pairs.foldl linkMatch ([], [])).2 found
  rw [← hGroups] at hPerm
  refine ⟨fun group hGroup => ?_, ?_, fun a => ?_⟩
  · have hCluster := mem_map_of_mem (f := CloneGroup.locations) hGroup
    rw [hGroups] at hCluster
    obtain ⟨component, hComponent, hSorted⟩ := mem_sortComponents.mp hCluster
    obtain ⟨start, hStart⟩ := hComponents component hComponent
    have hMem : ∀ a, a ∈ group.locations ↔ Connects pairs start a := fun a => by
      rw [← hSorted, mem_insertionSort _, hStart]
    refine ⟨ne_nil_of_mem ((hMem start).mpr .refl), fun a ha b => ?_⟩
    rw [hMem]
    have hReach := (hMem a).mp ha
    exact ⟨fun hb => hReach.symm.trans hb, fun hb => hReach.trans hb⟩
  · rw [flatMap_def]
    exact hPerm.nodup_iff.mpr hOnce
  · rw [← hSides, ← hPerm.mem_iff, mem_flatten]
    simp only [mem_map, exists_exists_and_eq_and]

end

end Partition

/-! ## Groups hold equal lines -/

theorem filter_between {α : Type*} {key : α → ℕ} {l : List α} (h : l.Pairwise (key · < key ·))
    {start size low high : ℕ} (hSize : 0 < size) (hFits : start + size ≤ l.length) (hLow : low = key l[start])
    (hHigh : high = key l[start + size - 1]) :
    (l.filter fun a => low ≤ key a && key a ≤ high) = (l.drop start).take size := by
  have hLess : ∀ i j (hi : i < l.length) (hj : j < l.length), i < j → key l[i] < key l[j] := fun i j hi hj =>
    pairwise_iff_getElem.mp h i j hi hj
  have hLe : ∀ i j (hi : i < l.length) (hj : j < l.length), i ≤ j → key l[i] ≤ key l[j] :=
    fun i j hi hj hij => by
    rcases Nat.lt_or_eq_of_le hij with hStrict | rfl
    · exact (hLess i j hi hj hStrict).le
    · exact le_rfl
  have hBefore : (l.take start).filter (fun a => low ≤ key a && key a ≤ high) = [] := by
    apply filter_eq_nil_iff.mpr
    intro a ha
    obtain ⟨i, hi, rfl⟩ := mem_take_iff_getElem.mp ha
    have hFirst := hLess i start (by omega) (by omega) (by omega)
    simp only [Bool.and_eq_true, decide_eq_true_eq]
    omega
  have hInside : ((l.drop start).take size).filter (fun a => low ≤ key a && key a ≤ high) =
      (l.drop start).take size := by
    apply filter_eq_self.mpr
    intro a ha
    obtain ⟨i, hi, rfl⟩ := mem_take_iff_getElem.mp ha
    rw [length_drop] at hi
    rw [getElem_drop]
    have hFirst := hLe start (start + i) (by omega) (by omega) (by omega)
    have hLast := hLe (start + i) (start + size - 1) (by omega) (by omega) (by omega)
    simp only [Bool.and_eq_true, decide_eq_true_eq]
    omega
  have hBehind : ((l.drop start).drop size).filter (fun a => low ≤ key a && key a ≤ high) = [] := by
    apply filter_eq_nil_iff.mpr
    intro a ha
    rw [drop_drop] at ha
    obtain ⟨i, hi, rfl⟩ := mem_drop_iff_getElem.mp ha
    have hLast := hLess (start + size - 1) (start + size + i) (by omega) (by omega) (by omega)
    simp only [Bool.and_eq_true, decide_eq_true_eq]
    omega
  calc l.filter (fun a => low ≤ key a && key a ≤ high)
      = (l.take start ++ ((l.drop start).take size ++ (l.drop start).drop size)).filter
          (fun a => low ≤ key a && key a ≤ high) := by rw [take_append_drop, take_append_drop]
    _ = (l.drop start).take size := by
      rw [filter_append, filter_append, hBefore, hInside, hBehind, nil_append, append_nil]

section Lines

variable {filesData : List DuplicateFileData} {windowSize : ℕ} {pairs : List MatchPair}

def IsNumbered (fileData : DuplicateFileData) : Prop := fileData.indexed.Pairwise fun a b => a.1 < b.1

def linesAt (filesData : List DuplicateFileData) (loc : LocTuple) : List Text :=
  normalizedLines (fileAt filesData loc.1) loc.2.1 loc.2.2

theorem isNumbered_fileAt (h : ∀ fileData ∈ filesData, IsNumbered fileData) (file : ℕ) :
    IsNumbered (fileAt filesData file) := by
  unfold fileAt
  rw [getD_eq_getElem?_getD]
  cases hFile : filesData[file]? with
  | none => exact List.Pairwise.nil
  | some fileData => exact h fileData (mem_of_getElem? hFile)

theorem linesAt_run (h : ∀ fileData ∈ filesData, IsNumbered fileData) {file start size : ℕ} (hSize : 0 < size)
    (hFits : start + size ≤ recordCount filesData file) :
    linesAt filesData (file, lineAt filesData file start, lineAt filesData file (start + size - 1)) =
      (List.range size).map fun i => normalizedAt filesData file (start + i) := by
  unfold recordCount at hFits
  have hLow : lineAt filesData file start = (fileAt filesData file).indexed[start].1 := by
    rw [lineAt, getD_eq_getElem]
  have hHigh : lineAt filesData file (start + size - 1) =
      (fileAt filesData file).indexed[start + size - 1].1 := by
    rw [lineAt, getD_eq_getElem]
  have hRun := filter_between (isNumbered_fileAt h file) hSize hFits hLow hHigh
  rw [linesAt, normalizedLines, hRun]
  apply ext_getElem
  · simp only [length_map, length_take, length_drop, length_range]
    omega
  · intro i hi _
    simp only [length_map, length_take, length_drop] at hi
    simp only [getElem_map, getElem_take, getElem_drop, getElem_range]
    rw [normalizedAt, getD_eq_getElem _ _ (by omega)]

def AreSound (filesData : List DuplicateFileData) (windowSize : ℕ) (pairs : List MatchPair) : Prop :=
  ∀ pair ∈ pairs, ∃ extent, pair = locationMatch filesData extent ∧ IsClone filesData windowSize extent

section

variable (hNumbered : ∀ fileData ∈ filesData, IsNumbered fileData) (hSize : 0 < windowSize)
  (hSound : AreSound filesData windowSize pairs) {a b : LocTuple}
include hNumbered hSize hSound

theorem Joined.same_lines (h : Joined pairs a b) : linesAt filesData a = linesAt filesData b ∧
      (fileAt filesData a.1).language = (fileAt filesData b.1).language := by
  have hSides : ∀ pair ∈ pairs, linesAt filesData pair.firstLoc = linesAt filesData pair.secondLoc ∧
      (fileAt filesData pair.firstLoc.1).language = (fileAt filesData pair.secondLoc.1).language := by
    intro pair hPair
    obtain ⟨extent, rfl, hClone⟩ := hSound pair hPair
    have hLong := hClone.long
    have hFirst := linesAt_run hNumbered (by omega : 0 < extent.size) hClone.first_fits
    have hSecond := linesAt_run hNumbered (by omega : 0 < extent.size) hClone.second_fits
    refine ⟨?_, hClone.language⟩
    refine hFirst.trans (Eq.trans ?_ hSecond.symm)
    apply map_congr_left
    intro i hi
    exact hClone.lines i (mem_range.mp hi)
  obtain ⟨pair, hPair, ⟨rfl, rfl⟩ | ⟨rfl, rfl⟩⟩ := h
  · exact hSides pair hPair
  · exact ⟨(hSides pair hPair).1.symm, (hSides pair hPair).2.symm⟩

theorem Connects.same_lines (h : Connects pairs a b) : linesAt filesData a = linesAt filesData b ∧
      (fileAt filesData a.1).language = (fileAt filesData b.1).language := by
  induction h with
  | refl => exact ⟨rfl, rfl⟩
  | tail _ hJoined ih =>
    have hStep := hJoined.same_lines hNumbered hSize hSound
    exact ⟨ih.1.trans hStep.1, ih.2.trans hStep.2⟩

end

end Lines

section Positions

variable {filesData : List DuplicateFileData}

def Counts (filesData : List DuplicateFileData) (loc : LocTuple) (position : ℕ × ℕ) : Prop :=
  position.1 = loc.1 ∧ (loc.2.1 ≤ position.2 ∧ position.2 ≤ loc.2.2) ∧
    position.2 ∈ codeLines (fileAt filesData loc.1)

variable {duplicated : List (ℕ × ℕ)} {position : ℕ × ℕ}

theorem mem_countLines {lines counted : List ℕ} {file : ℕ} : position ∈ lines.foldl (fun duplicated line =>
        if line ∈ counted then duplicated.insert (file, line) else duplicated) duplicated ↔
      position ∈ duplicated ∨ position.1 = file ∧ position.2 ∈ lines ∧ position.2 ∈ counted := by
  induction lines generalizing duplicated with
  | nil => simp
  | cons line rest ih =>
    rw [foldl_cons, ih]
    split
    · rename_i hLine
      rw [mem_insert_iff, mem_cons, Prod.ext_iff]
      constructor
      · rintro ((⟨hFile, hSame⟩ | hOld) | ⟨hFile, hRest, hCounted⟩)
        · exact .inr ⟨hFile, .inl hSame, by rwa [hSame]⟩
        · exact .inl hOld
        · exact .inr ⟨hFile, .inr hRest, hCounted⟩
      · rintro (hOld | ⟨hFile, hSame | hRest, hCounted⟩)
        · exact .inl (.inr hOld)
        · exact .inl (.inl ⟨hFile, hSame⟩)
        · exact .inr ⟨hFile, hRest, hCounted⟩
    · rename_i hLine
      rw [mem_cons]
      constructor
      · rintro (hOld | ⟨hFile, hRest, hCounted⟩)
        · exact .inl hOld
        · exact .inr ⟨hFile, .inr hRest, hCounted⟩
      · rintro (hOld | ⟨hFile, hSame | hRest, hCounted⟩)
        · exact .inl hOld
        · exact absurd (hSame ▸ hCounted) hLine
        · exact .inr ⟨hFile, hRest, hCounted⟩

theorem mem_countLocation {loc : LocTuple} : position ∈ countLocation filesData duplicated loc ↔
      position ∈ duplicated ∨ Counts filesData loc position := by
  rw [countLocation, mem_countLines, Counts, mem_range'_1]
  have hBounds : (loc.2.1 ≤ position.2 ∧ position.2 < loc.2.1 + (loc.2.2 + 1 - loc.2.1)) ↔
      loc.2.1 ≤ position.2 ∧ position.2 ≤ loc.2.2 := by omega
  rw [hBounds]

theorem mem_countComponents {clusters : List (List LocTuple)} :
    position ∈ clusters.foldl (countComponent filesData) duplicated ↔
      position ∈ duplicated ∨ ∃ component ∈ clusters, ∃ loc ∈ component.tail, Counts filesData loc position := by
  have hOne : ∀ (locs : List LocTuple) (duplicated : List (ℕ × ℕ)),
      position ∈ locs.foldl (countLocation filesData) duplicated ↔
        position ∈ duplicated ∨ ∃ loc ∈ locs, Counts filesData loc position := by
    intro locs
    induction locs with
    | nil => simp
    | cons loc rest ih =>
      intro duplicated
      rw [foldl_cons, ih, mem_countLocation, or_assoc]
      simp only [exists_mem_cons_iff]
  induction clusters generalizing duplicated with
  | nil => simp
  | cons component rest ih =>
    rw [foldl_cons]
    refine ih.trans ?_
    rw [countComponent, hOne, or_assoc]
    simp only [exists_mem_cons_iff]

theorem nodup_countComponents {clusters : List (List LocTuple)}
    (h : duplicated.Nodup) : (clusters.foldl (countComponent filesData) duplicated).Nodup := by
  have hLine : ∀ (lines counted : List ℕ) (file : ℕ) (duplicated : List (ℕ × ℕ)), duplicated.Nodup →
      (lines.foldl (fun duplicated line =>
        if line ∈ counted then duplicated.insert (file, line) else duplicated) duplicated).Nodup := by
    intro lines counted file
    induction lines with
    | nil => exact fun _ h => h
    | cons line rest ih =>
      intro duplicated h
      rw [foldl_cons]
      apply ih
      split
      · exact h.insert
      · exact h
  have hLocations : ∀ (locs : List LocTuple) (duplicated : List (ℕ × ℕ)), duplicated.Nodup →
      (locs.foldl (countLocation filesData) duplicated).Nodup := by
    intro locs
    induction locs with
    | nil => exact fun _ h => h
    | cons loc rest ih => exact fun duplicated h => ih _ (hLine _ _ _ _ h)
  induction clusters generalizing duplicated with
  | nil => exact h
  | cons component rest ih => exact ih (hLocations component.tail duplicated h)

theorem length_positions_le {positions : List (ℕ × ℕ)} (hNodup : positions.Nodup)
    (hCode : ∀ position ∈ positions, position.2 ∈ codeLines (fileAt filesData position.1)) :
    positions.length ≤ (filesData.map fun fileData => fileData.indexed.length).sum := by
  have hAll : positions.Subperm (filesData.zipIdx.flatMap fun item => (codeLines item.1).map (item.2, ·)) := by
    apply hNodup.subperm
    intro position hPosition
    have hLine := hCode position hPosition
    unfold fileAt at hLine
    rw [getD_eq_getElem?_getD] at hLine
    cases hFile : filesData[position.1]? with
    | none =>
      rw [hFile] at hLine
      cases hLine
    | some fileData =>
      rw [hFile] at hLine
      exact mem_flatMap.mpr ⟨(fileData, position.1), mem_zipIdx_iff_getElem?.mpr hFile,
        mem_map.mpr ⟨position.2, hLine, rfl⟩⟩
  refine hAll.length_le.trans (le_of_eq ?_)
  rw [length_flatMap]
  simp only [length_map, codeLines]
  rw [← zipIdx_map_fst 0 filesData, List.map_map]
  simp only [zipIdx_map_fst]
  rfl

end Positions

/-! ## Clusters are a partition -/

section Whole

variable {order : Worklist.Order LocTuple} {sha256 : List UInt8 → Text} {filesData : List DuplicateFileData}
  {pairs : List MatchPair}

/-- The groups are the connected parts of what the matches join, each location stands in one of them,
and the positions that count as duplicated are code lines of the files. -/
structure IsPartition (filesData : List DuplicateFileData) (pairs : List MatchPair)
    (clustering : DuplicateClustering) : Prop where
  nonempty : ∀ group ∈ clustering.groups, group.locations ≠ []
  connected : ∀ group ∈ clustering.groups, ∀ a ∈ group.locations, ∀ b,
    b ∈ group.locations ↔ Connects pairs a b
  once : (clustering.groups.flatMap CloneGroup.locations).Nodup
  sides : ∀ a, (∃ group ∈ clustering.groups, a ∈ group.locations) ↔ IsSide pairs a
  same_lines : ∀ group ∈ clustering.groups, ∀ a ∈ group.locations, ∀ b ∈ group.locations,
    linesAt filesData a = linesAt filesData b ∧
      (fileAt filesData a.1).language = (fileAt filesData b.1).language
  distinct : clustering.duplicatedPositions.Nodup
  code_lines : ∀ position ∈ clustering.duplicatedPositions,
    position.2 ∈ codeLines (fileAt filesData position.1)
  at_most_all : clustering.duplicatedPositions.length ≤
    (filesData.map fun fileData => fileData.indexed.length).sum

theorem noSurrogate_fingerprint {language : Text} (lines : List Text) (hLanguage : NoSurrogate language)
    (hLines : ∀ line ∈ lines, NoSurrogate line) :
    ∃ fingerprint, clusterFingerprint sha256 language lines = .ok fingerprint := by
  have hJoin : NoSurrogate (join (py "\n") lines) := by
    intro c hc
    rcases mem_join hc with hSeparator | ⟨line, hLine, hc⟩
    · obtain rfl := mem_singleton.mp hSeparator
      rfl
    · exact hLines line hLine c hc
  have hFront : NoSurrogate fingerprintAlgorithm := by decide
  have hText : NoSurrogate (fingerprintAlgorithm ++ [0] ++ language ++ [0] ++ join (py "\n") lines) := by
    rw [noSurrogate_append, noSurrogate_append, noSurrogate_append, noSurrogate_append]
    exact ⟨⟨⟨⟨hFront, by decide⟩, hLanguage⟩, by decide⟩, hJoin⟩
  obtain ⟨encoded, hEncoded⟩ := exists_utf8_iff.mpr hText
  exact ⟨sha256 encoded, step hEncoded rfl⟩

def CanBeEncoded (filesData : List DuplicateFileData) : Prop :=
  ∀ fileData ∈ filesData, NoSurrogate fileData.language ∧ ∀ record ∈ fileData.indexed, NoSurrogate record.2

theorem exists_cloneGroup (sha256 : List UInt8 → Text) (h : CanBeEncoded filesData) (matchLen : MatchLengths)
    (item : List LocTuple × ℕ) :
    ∃ group, cloneGroup sha256 filesData matchLen item = .ok group := by
  have hFile : ∀ file, NoSurrogate (fileAt filesData file).language ∧
      ∀ record ∈ (fileAt filesData file).indexed, NoSurrogate record.2 := by
    intro file
    unfold fileAt
    rw [getD_eq_getElem?_getD]
    cases hFound : filesData[file]? with
    | none => exact ⟨nofun, nofun⟩
    | some fileData => exact h fileData (mem_of_getElem? hFound)
  obtain ⟨component, index⟩ := item
  unfold cloneGroup
  dsimp only
  obtain ⟨hLanguage, hRecords⟩ := hFile (representative filesData matchLen component).1
  have hLines : ∀ line ∈ linesAt filesData (representative filesData matchLen component), NoSurrogate line := by
    intro line hLine
    obtain ⟨record, hRecord, rfl⟩ := mem_map.mp hLine
    exact hRecords record (mem_of_mem_filter hRecord)
  obtain ⟨fingerprint, hFingerprint⟩ := noSurrogate_fingerprint _ hLanguage hLines
  exact ⟨_, step hFingerprint rfl⟩

/-- Clustering sound matches of files whose lines are in order returns a partition, and it returns
whenever the text can be encoded. -/
theorem clusterMatches_partition {windowSize : ℕ} (hSize : 0 < windowSize)
    (hNumbered : ∀ fileData ∈ filesData, IsNumbered fileData) (hSound : AreSound filesData windowSize pairs) :
    (CanBeEncoded filesData → ∃ clustering, clusterMatches order sha256 filesData pairs = .ok clustering) ∧
    ∀ clustering, clusterMatches order sha256 filesData pairs = .ok clustering →
      IsPartition filesData pairs clustering := by
  constructor
  · intro hEncoded
    obtain ⟨found, hFound⟩ := exists_components order pairs
    unfold clusterMatches
    simp only [hFound]
    obtain ⟨groups, hGroups⟩ := exists_mapM_eq_ok.mpr fun item _ =>
      exists_cloneGroup sha256 hEncoded (pairs.foldl linkMatch ([], [])).2 item
    exact ⟨_, step hGroups rfl⟩
  · intro clustering h
    obtain ⟨hConnected, hOnce, hSides⟩ := clusterMatches_groups h
    obtain ⟨found, -, -, hPositions⟩ := clusterMatches_eq_ok h
    have hDistinct : clustering.duplicatedPositions.Nodup := by
      rw [hPositions]
      exact nodup_countComponents nodup_nil
    have hCode : ∀ position ∈ clustering.duplicatedPositions,
        position.2 ∈ codeLines (fileAt filesData position.1) := by
      intro position hPosition
      rw [hPositions, mem_countComponents] at hPosition
      obtain hNone | ⟨_, _, loc, _, hFile, _, hLine⟩ := hPosition
      · cases hNone
      · rwa [hFile]
    exact {
      nonempty := fun group hGroup => (hConnected group hGroup).1
      connected := fun group hGroup => (hConnected group hGroup).2
      once := hOnce
      sides := hSides
      same_lines := fun group hGroup a ha b hb =>
        Connects.same_lines hNumbered hSize hSound (((hConnected group hGroup).2 a ha b).mp hb)
      distinct := hDistinct
      code_lines := hCode
      at_most_all := length_positions_le hDistinct hCode }

end Whole

def returnsDigest (_ : List UInt8) : Text :=
  py "a2973b7437f920b6da6015fc223934290f236de9c2a85bece68121265319b0a2"

def asBuilt : Worklist.Order LocTuple := ⟨id, fun _ => .refl _⟩

def repeatedClustering : DuplicateClustering where
  groups := [⟨1, 4, returnsDigest [], py "python",
    py "    return\n    return\n    return\n    return", [(0, 1, 4), (0, 5, 8)]⟩]
  duplicatedPositions := [(0, 8), (0, 7), (0, 6), (0, 5)]

theorem clusterMatches_repeated : clusterMatches asBuilt returnsDigest [repeated]
    (filterSubsumedMatches repeatedMatches) = .ok repeatedClustering := by
  decide +kernel

theorem repeated_partition : IsPartition [repeated] (filterSubsumedMatches repeatedMatches)
    repeatedClustering := by
  have hSound : AreSound [repeated] 3 (filterSubsumedMatches repeatedMatches) := by
    intro pair hPair
    obtain ⟨-, -, extents, -, hMatches, hClones, -⟩ := findRawMatches_found findRawMatches_repeated
    have hRaw := mem_of_mem_filterSubsumed hPair
    rw [hMatches] at hRaw
    obtain ⟨extent, hExtent, rfl⟩ := mem_map.mp hRaw
    exact ⟨extent, rfl, (hClones extent hExtent).1⟩
  have hNumbered : ∀ fileData ∈ [repeated], IsNumbered fileData := by
    intro fileData hFile
    obtain rfl := mem_singleton.mp hFile
    unfold IsNumbered
    decide
  exact (clusterMatches_partition (by decide) hNumbered hSound).2 _ clusterMatches_repeated

end Ici.Duplicates
