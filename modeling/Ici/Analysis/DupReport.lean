import Ici.Analysis.DupOrder

/-! # Reports without file numbers

A report names a location by the path of its file. Clusters hold what the kept matches connect, in an
order that paths and lines decide, so the report is the same for every order of the files. -/

namespace Ici.Duplicates

open List Python DuplicateClustering DuplicateFileData List

structure ReportedGroup where
  index : ℕ
  lineCount : ℕ
  fingerprint : Text
  language : Text
  snippet : Text
  locations : List (Text × ℕ × ℕ)

structure DuplicateReport where
  groups : List ReportedGroup
  duplicatedPositions : Finset (Text × ℕ)

def located (filesData : List DuplicateFileData) (loc : LocTuple) : Text × ℕ × ℕ :=
  ((fileAt filesData loc.1).filePath, loc.2)

def CloneGroup.reported (filesData : List DuplicateFileData) (group : CloneGroup) : ReportedGroup where
  index := group.index
  lineCount := group.lineCount
  fingerprint := group.fingerprint
  language := group.language
  snippet := group.snippet
  locations := group.locations.map (located filesData)

def DuplicateClustering.reported (filesData : List DuplicateFileData) (clustering : DuplicateClustering) :
    DuplicateReport where
  groups := clustering.groups.map (CloneGroup.reported filesData)
  duplicatedPositions := (clustering.duplicatedPositions.map fun position =>
    ((fileAt filesData position.1).filePath, position.2)).toFinset

/-! ## Joined locations move with the files -/

def movedLoc (place : ℕ → ℕ) (loc : LocTuple) : LocTuple := (place loc.1, loc.2)

structure SamePairs (filesData filesData' : List DuplicateFileData) (place back : ℕ → ℕ)
    (pairs pairs' : List MatchPair) : Prop where
  files : Reordering filesData filesData' place back
  inOrder : ∀ pair ∈ pairs, pair.InOrder filesData
  inOrder' : ∀ pair ∈ pairs', pair.InOrder filesData'
  forward : ∀ pair ∈ pairs, pair.relocated place ∈ pairs'
  backward : ∀ pair ∈ pairs', pair.relocated back ∈ pairs

variable {filesData filesData' : List DuplicateFileData} {place back : ℕ → ℕ} {pairs pairs' : List MatchPair}

theorem SamePairs.symm (h : SamePairs filesData filesData' place back pairs pairs') :
    SamePairs filesData' filesData back place pairs' pairs :=
  ⟨h.files.symm, h.inOrder', h.inOrder, h.backward, h.forward⟩

theorem locs_relocated (place : ℕ → ℕ) (pair : MatchPair) :
    ((pair.relocated place).firstLoc = movedLoc place pair.firstLoc ∧
      (pair.relocated place).secondLoc = movedLoc place pair.secondLoc) ∨
    ((pair.relocated place).firstLoc = movedLoc place pair.secondLoc ∧
      (pair.relocated place).secondLoc = movedLoc place pair.firstLoc) := by
  unfold MatchPair.relocated
  split
  · exact .inr ⟨rfl, rfl⟩
  · exact .inl ⟨rfl, rfl⟩

theorem side_relocated (place : ℕ → ℕ) {pair : MatchPair} {a : LocTuple}
    (h : a = pair.firstLoc ∨ a = pair.secondLoc) :
    movedLoc place a = (pair.relocated place).firstLoc ∨
      movedLoc place a = (pair.relocated place).secondLoc := by
  rcases locs_relocated place pair with ⟨hFirst, hSecond⟩ | ⟨hFirst, hSecond⟩
  · rw [hFirst, hSecond]
    exact h.imp (congrArg _) (congrArg _)
  · rw [hFirst, hSecond]
    exact h.symm.imp (congrArg _) (congrArg _)

section Moved

variable (h : SamePairs filesData filesData' place back pairs pairs')
include h

theorem SamePairs.joined {a b : LocTuple} (hJoined : Joined pairs a b) :
    Joined pairs' (movedLoc place a) (movedLoc place b) := by
  obtain ⟨pair, hPair, hSides⟩ := hJoined
  refine ⟨pair.relocated place, h.forward pair hPair, ?_⟩
  rcases locs_relocated place pair with ⟨hFirst, hSecond⟩ | ⟨hFirst, hSecond⟩ <;> rw [hFirst, hSecond] <;>
    rcases hSides with ⟨rfl, rfl⟩ | ⟨rfl, rfl⟩
  · exact .inl ⟨rfl, rfl⟩
  · exact .inr ⟨rfl, rfl⟩
  · exact .inr ⟨rfl, rfl⟩
  · exact .inl ⟨rfl, rfl⟩

section

variable {a : LocTuple} (hSide : IsSide pairs a)
include hSide

theorem SamePairs.isSide : IsSide pairs' (movedLoc place a) := by
  obtain ⟨pair, hPair, hSides⟩ := hSide
  exact ⟨pair.relocated place, h.forward pair hPair, side_relocated place hSides⟩

theorem SamePairs.side_lt : a.1 < filesData.length := by
  obtain ⟨pair, hPair, rfl | rfl⟩ := hSide
  · exact lt_of_le_of_lt (h.inOrder pair hPair).1 (h.inOrder pair hPair).2
  · exact (h.inOrder pair hPair).2

theorem SamePairs.movedLoc_back : movedLoc back (movedLoc place a) = a := by
  rw [movedLoc, movedLoc, h.files.back_place a.1 (h.side_lt hSide)]

theorem SamePairs.fileAt : fileAt filesData' (movedLoc place a).1 = Duplicates.fileAt filesData a.1 :=
  h.files.same a.1 (h.side_lt hSide)

end

theorem SamePairs.connects {a b : LocTuple} (hConnects : Connects pairs a b) :
    Connects pairs' (movedLoc place a) (movedLoc place b) :=
  hConnects.lift (movedLoc place) fun _ _ => h.joined

end Moved

theorem Connects.isSide {a b : LocTuple} (h : Connects pairs a b) (hSide : IsSide pairs a) :
    IsSide pairs b := by
  rcases Relation.ReflTransGen.cases_tail h with rfl | ⟨c, -, hJoined⟩
  · exact hSide
  · exact hJoined.symm.isSide

theorem SamePairs.connects_moved (h : SamePairs filesData filesData' place back pairs pairs') {a c : LocTuple}
    (hSide : IsSide pairs a) :
    Connects pairs' (movedLoc place a) c ↔ ∃ b, Connects pairs a b ∧ movedLoc place b = c := by
  constructor
  · intro hConnects
    have hBack := h.symm.connects hConnects
    rw [h.movedLoc_back hSide] at hBack
    exact ⟨movedLoc back c, hBack, h.symm.movedLoc_back (hConnects.isSide (h.isSide hSide))⟩
  · rintro ⟨b, hConnects, rfl⟩
    exact h.connects hConnects

theorem lengthAt_raiseLength_le {matchLen : MatchLengths} {loc a : LocTuple} {size limit : ℕ} :
    lengthAt (raiseLength matchLen loc size) a ≤ limit ↔
      lengthAt matchLen a ≤ limit ∧ (a = loc → size ≤ limit) := by
  rw [lengthAt, raiseLength, Dict.get?_set]
  split_ifs with hLoc
  · rw [Option.getD_some, max_le_iff, hLoc]
    simp
  · rw [and_iff_left fun hSame => absurd hSame.symm hLoc]
    rfl

theorem lengthAt_foldl_le (pairs : List MatchPair) (links : Adjacency × MatchLengths) (a : LocTuple)
    (limit : ℕ) : lengthAt (pairs.foldl linkMatch links).2 a ≤ limit ↔ lengthAt links.2 a ≤ limit ∧
      ∀ pair ∈ pairs, a = pair.firstLoc ∨ a = pair.secondLoc → pair.size ≤ limit := by
  induction pairs generalizing links with
  | nil => simp
  | cons pair rest ih =>
    rw [foldl_cons, ih, linkMatch, lengthAt_raiseLength_le, lengthAt_raiseLength_le,
      forall_mem_cons, or_imp, and_assoc, and_assoc, and_assoc]

def matchLengths (pairs : List MatchPair) : MatchLengths := (pairs.foldl linkMatch ([], [])).2

section

variable (h : SamePairs filesData filesData' place back pairs pairs') {a : LocTuple}
include h

theorem SamePairs.lengthAt_le :
    lengthAt (matchLengths pairs) a ≤ lengthAt (matchLengths pairs') (movedLoc place a) := by
  have hNone : ∀ a, lengthAt ([] : MatchLengths) a = 0 := fun _ => rfl
  rw [matchLengths, lengthAt_foldl_le]
  refine ⟨by rw [hNone]; exact Nat.zero_le _, fun pair hPair hSide => ?_⟩
  have hAll := (lengthAt_foldl_le pairs' ([], []) (movedLoc place a) _).mp le_rfl
  have hMoved := hAll.2 _ (h.forward pair hPair)
  rw [size_relocated] at hMoved
  exact hMoved (side_relocated place hSide)

theorem SamePairs.lengthAt_moved (hSide : IsSide pairs a) :
    lengthAt (matchLengths pairs') (movedLoc place a) = lengthAt (matchLengths pairs) a := by
  have hBack := h.symm.lengthAt_le (a := movedLoc place a)
  rw [h.movedLoc_back hSide] at hBack
  exact Nat.le_antisymm hBack h.lengthAt_le

end

/-! ## Clusters -/

def DistinctPaths (filesData : List DuplicateFileData) : Prop :=
  (filesData.map filePath).Nodup

theorem spanKey_inj (hPaths : DistinctPaths filesData) {a b : LocTuple} (ha : a.1 < filesData.length)
    (hb : b.1 < filesData.length) (h : spanKey filesData a = spanKey filesData b) : a = b := by
  have hBoth := toLex.injective h
  simp only [Prod.mk.injEq] at hBoth
  obtain ⟨hPath, hLines⟩ := hBoth
  have hFile : a.1 = b.1 := by
    rw [fileAt, fileAt, getD_eq_getElem _ _ ha, getD_eq_getElem _ _ hb] at hPath
    have hA : a.1 < (filesData.map filePath).length := by simpa using ha
    have hB : b.1 < (filesData.map filePath).length := by simpa using hb
    have hSame : (filesData.map filePath)[a.1] =
        (filesData.map filePath)[b.1] := by
      rw [getElem_map, getElem_map, hPath]
    exact hPaths.getElem_inj_iff.mp hSame
  exact Prod.ext hFile (toLex.injective hLines)

structure IsCluster (filesData : List DuplicateFileData) (pairs : List MatchPair) (cluster : List LocTuple) :
    Prop where
  sorted : cluster.Pairwise fun a b => spanKey filesData a ≤ spanKey filesData b
  nodup : cluster.Nodup
  part : ∃ a, IsSide pairs a ∧ ∀ b, b ∈ cluster ↔ Connects pairs a b

section

variable {cluster : List LocTuple} (h : IsCluster filesData pairs cluster)
include h

theorem IsCluster.isSide {a : LocTuple} (ha : a ∈ cluster) : IsSide pairs a := by
  obtain ⟨start, hSide, hPart⟩ := h.part
  exact ((hPart a).mp ha).isSide hSide

theorem IsCluster.ne_nil : cluster ≠ [] := by
  obtain ⟨start, -, hPart⟩ := h.part
  exact ne_nil_of_mem ((hPart start).mpr .refl)

end

theorem IsCluster.ext (hPaths : DistinctPaths filesData)
    (hFiles : ∀ a, IsSide pairs a → a.1 < filesData.length)
    {cluster other : List LocTuple} (h : IsCluster filesData pairs cluster)
    (hOther : IsCluster filesData pairs other) (hMem : ∀ a, a ∈ cluster ↔ a ∈ other) : cluster = other := by
  refine Perm.eq_of_pairwise (fun a b ha hb hLe hGe => ?_) h.sorted hOther.sorted
    ((perm_ext_iff_of_nodup h.nodup hOther.nodup).mpr hMem)
  exact spanKey_inj hPaths (hFiles a (h.isSide ha)) (hFiles b (hOther.isSide hb)) (le_antisymm hLe hGe)

section Clusters

variable {order : Worklist.Order LocTuple} {found : List (List LocTuple)}

def clustersOf (filesData : List DuplicateFileData) (pairs : List MatchPair) (found : List (List LocTuple)) :
    List (List LocTuple) := sortComponents filesData (matchLengths pairs) found

section

variable (hPaths : DistinctPaths filesData) (hFiles : ∀ a, IsSide pairs a → a.1 < filesData.length)
  (h : components order (pairs.foldl linkMatch ([], [])).1 = some found)
include hPaths hFiles h

theorem mem_clustersOf (cluster : List LocTuple) :
    cluster ∈ clustersOf filesData pairs found ↔ IsCluster filesData pairs cluster := by
  obtain ⟨hParts, hOnce, hSides⟩ := components_eq_some h
  have hSorted : ∀ component ∈ found, IsCluster filesData pairs
      (component.insertionSort fun a b => spanKey filesData a ≤ spanKey filesData b) := by
    intro component hComponent
    obtain ⟨start, hPart⟩ := hParts component hComponent
    refine ⟨pairwise_insertionSort _ _, ?_, start, ?_, fun b => ?_⟩
    · exact (perm_insertionSort _ _).nodup_iff.mpr ((nodup_flatten.mp hOnce).1 component hComponent)
    · exact (hSides start).mp (mem_flatten.mpr ⟨component, hComponent, (hPart start).mpr .refl⟩)
    · rw [mem_insertionSort, hPart]
  rw [clustersOf, mem_sortComponents]
  constructor
  · rintro ⟨component, hComponent, rfl⟩
    exact hSorted component hComponent
  · intro hCluster
    obtain ⟨start, hSide, hPart⟩ := hCluster.part
    obtain ⟨component, hComponent, hStart⟩ := mem_flatten.mp ((hSides start).mpr hSide)
    refine ⟨component, hComponent, (hSorted component hComponent).ext hPaths hFiles hCluster fun a => ?_⟩
    obtain ⟨first, hFirst⟩ := hParts component hComponent
    have hReach := (hFirst start).mp hStart
    rw [mem_insertionSort, hFirst, hPart]
    exact ⟨fun ha => hReach.symm.trans ha, fun ha => hReach.trans ha⟩

theorem nodup_clustersOf : (clustersOf filesData pairs found).Nodup := by
  have hOnce := (sortComponents_flatten filesData (matchLengths pairs) found).nodup_iff.mpr
    (components_eq_some h).2.1
  refine (nodup_flatten.mp hOnce).2.imp_of_mem fun {a b} ha _ hDisjoint hSame => ?_
  have hCluster := (mem_clustersOf hPaths hFiles h a).mp ha
  obtain ⟨loc, hLoc⟩ := exists_mem_of_ne_nil _ hCluster.ne_nil
  exact hDisjoint hLoc (hSame ▸ hLoc)

end

section

variable (h : SamePairs filesData filesData' place back pairs pairs')
include h

section

variable {cluster : List LocTuple} (hCluster : IsCluster filesData pairs cluster)
include hCluster

theorem IsCluster.moved : IsCluster filesData' pairs' (cluster.map (movedLoc place)) := by
  have hKey : ∀ a ∈ cluster, spanKey filesData' (movedLoc place a) = spanKey filesData a := by
    intro a ha
    rw [spanKey, h.fileAt (hCluster.isSide ha)]
    rfl
  refine ⟨?_, ?_, ?_⟩
  · apply pairwise_map.mpr
    refine hCluster.sorted.imp_of_mem fun ha hb hLe => ?_
    rwa [hKey _ ha, hKey _ hb]
  · refine hCluster.nodup.map_on fun a ha b hb hSame => ?_
    rw [← h.movedLoc_back (hCluster.isSide ha), hSame, h.movedLoc_back (hCluster.isSide hb)]
  · obtain ⟨start, hSide, hPart⟩ := hCluster.part
    refine ⟨movedLoc place start, h.isSide hSide, fun b => ?_⟩
    rw [h.connects_moved hSide, mem_map]
    simp only [hPart]

theorem longest_moved :
    longest (matchLengths pairs') (cluster.map (movedLoc place)) = longest (matchLengths pairs) cluster := by
  rw [longest, longest, map_map]
  congr 1
  apply map_congr_left
  intro a ha
  exact h.lengthAt_moved (hCluster.isSide ha)

theorem componentKey_moved : componentKey filesData' (matchLengths pairs') (cluster.map (movedLoc place)) =
      componentKey filesData (matchLengths pairs) cluster := by
  have hKeys : (cluster.map (movedLoc place)).map (spanKey filesData') = cluster.map (spanKey filesData) := by
    rw [map_map]
    apply map_congr_left
    intro a ha
    rw [Function.comp_apply, spanKey, h.fileAt (hCluster.isSide ha)]
    rfl
  rw [componentKey, componentKey, longest_moved h hCluster, hKeys, length_map]

end

omit h in
theorem componentKey_inj (hPaths : DistinctPaths filesData)
    (hFiles : ∀ a, IsSide pairs a → a.1 < filesData.length) {matchLen : MatchLengths}
    {cluster other : List LocTuple} (h : IsCluster filesData pairs cluster)
    (hOther : IsCluster filesData pairs other)
    (hKey : componentKey filesData matchLen cluster = componentKey filesData matchLen other) :
    cluster = other := by
  have hKeys := toLex.injective hKey
  simp only [Prod.mk.injEq] at hKeys
  have hSpans := (Prod.mk.injEq .. ▸ toLex.injective hKeys.2 :).2
  apply h.ext hPaths hFiles hOther
  have hSubset : ∀ {cluster other : List LocTuple}, IsCluster filesData pairs cluster →
      IsCluster filesData pairs other →
      cluster.map (spanKey filesData) = other.map (spanKey filesData) → ∀ a ∈ cluster, a ∈ other := by
    intro cluster other h hOther hSpans a ha
    have hMem := mem_map_of_mem (f := spanKey filesData) ha
    rw [hSpans] at hMem
    obtain ⟨b, hb, hSame⟩ := mem_map.mp hMem
    rwa [← spanKey_inj hPaths (hFiles b (hOther.isSide hb)) (hFiles a (h.isSide ha)) hSame]
  exact fun a => ⟨hSubset h hOther hSpans a, hSubset hOther h hSpans.symm a⟩

theorem map_movedLoc_back {cluster : List LocTuple} (hCluster : IsCluster filesData pairs cluster) :
    (cluster.map (movedLoc place)).map (movedLoc back) = cluster := by
  rw [map_map]
  conv_rhs => rw [← map_id cluster]
  apply map_congr_left
  intro a ha
  exact h.movedLoc_back (hCluster.isSide ha)

theorem clustersOf_moved (hPaths : DistinctPaths filesData) (hPaths' : DistinctPaths filesData')
    {order' : Worklist.Order LocTuple}
    {found' : List (List LocTuple)}
    (hFound : components order (pairs.foldl linkMatch ([], [])).1 = some found)
    (hFound' : components order' (pairs'.foldl linkMatch ([], [])).1 = some found') :
    clustersOf filesData' pairs' found' =
      (clustersOf filesData pairs found).map (map (movedLoc place)) := by
  have hMem := mem_clustersOf hPaths (fun _ => h.side_lt) hFound
  have hMem' := mem_clustersOf hPaths' (fun _ => h.symm.side_lt) hFound'
  have hImage : ∀ cluster, cluster ∈ clustersOf filesData' pairs' found' ↔
      cluster ∈ (clustersOf filesData pairs found).map (map (movedLoc place)) := by
    intro cluster
    rw [hMem', mem_map]
    constructor
    · intro hCluster
      exact ⟨cluster.map (movedLoc back), (hMem _).mpr (hCluster.moved h.symm),
        map_movedLoc_back h.symm hCluster⟩
    · rintro ⟨other, hOther, rfl⟩
      exact ((hMem _).mp hOther).moved h
  have hNodup : ((clustersOf filesData pairs found).map (map (movedLoc place))).Nodup := by
    refine (nodup_clustersOf hPaths (fun _ => h.side_lt) hFound).map_on fun a ha b hb hSame => ?_
    rw [← map_movedLoc_back h ((hMem _).mp ha), hSame, map_movedLoc_back h ((hMem _).mp hb)]
  have hSorted' : (clustersOf filesData' pairs' found').Pairwise fun a b =>
      componentKey filesData' (matchLengths pairs') a ≤ componentKey filesData' (matchLengths pairs') b :=
    pairwise_insertionSort _ _
  refine Perm.eq_of_pairwise ?_ hSorted' ?_ ((perm_ext_iff_of_nodup
    (nodup_clustersOf hPaths' (fun _ => h.symm.side_lt) hFound') hNodup).mpr hImage)
  · intro a b ha hb hLe hGe
    exact componentKey_inj hPaths' (fun _ => h.symm.side_lt) ((hMem' _).mp ha)
      ((hMem' _).mp ((hImage _).mpr hb)) (le_antisymm hLe hGe)
  · apply pairwise_map.mpr
    refine (pairwise_insertionSort (fun a b => componentKey filesData (matchLengths pairs) a ≤
      componentKey filesData (matchLengths pairs) b) _).imp_of_mem fun ha hb hLe => ?_
    rwa [componentKey_moved h ((hMem _).mp ha), componentKey_moved h ((hMem _).mp hb)]

/-! ## Groups -/

omit h in
def representativeKey (filesData : List DuplicateFileData) (matchLen : MatchLengths) (loc : LocTuple) :
    ℤ ×ₗ Text ×ₗ ℕ ×ₗ ℕ := toLex (-(lengthAt matchLen loc : ℤ), spanKey filesData loc)

omit h in
theorem representative_spec (hPaths : DistinctPaths filesData)
    (hFiles : ∀ a, IsSide pairs a → a.1 < filesData.length) (matchLen : MatchLengths)
    {cluster : List LocTuple} (h : IsCluster filesData pairs cluster) {a : LocTuple} :
    representative filesData matchLen cluster = a ↔ a ∈ cluster ∧ ∀ b ∈ cluster,
      representativeKey filesData matchLen a ≤ representativeKey filesData matchLen b := by
  obtain ⟨least, hLeast⟩ : ∃ least, cluster.argmin (representativeKey filesData matchLen) = some least := by
    cases hArg : cluster.argmin (representativeKey filesData matchLen) with
    | none => exact absurd (argmin_eq_none.mp hArg) h.ne_nil
    | some least => exact ⟨least, rfl⟩
  have hMem := argmin_mem hLeast
  have hLe := fun b (hb : b ∈ cluster) => le_of_mem_argmin hb hLeast
  change (cluster.argmin (representativeKey filesData matchLen)).getD (0, 0, 0) = a ↔ _
  rw [hLeast, Option.getD_some]
  constructor
  · rintro rfl
    exact ⟨hMem, hLe⟩
  · rintro ⟨ha, haLe⟩
    have hKeys := toLex.injective (le_antisymm (hLe a ha) (haLe least hMem))
    exact spanKey_inj hPaths (hFiles least (h.isSide hMem)) (hFiles a (h.isSide ha)) (congrArg Prod.snd hKeys)

theorem representative_moved (hPaths : DistinctPaths filesData) (hPaths' : DistinctPaths filesData')
    {cluster : List LocTuple}
    (hCluster : IsCluster filesData pairs cluster) :
    representative filesData' (matchLengths pairs') (cluster.map (movedLoc place)) =
      movedLoc place (representative filesData (matchLengths pairs) cluster) := by
  obtain ⟨hMem, hLe⟩ := (representative_spec hPaths (fun _ => h.side_lt) (matchLengths pairs) hCluster).mp rfl
  have hKey : ∀ a ∈ cluster, representativeKey filesData' (matchLengths pairs') (movedLoc place a) =
      representativeKey filesData (matchLengths pairs) a := by
    intro a ha
    rw [representativeKey, h.lengthAt_moved (hCluster.isSide ha), spanKey, h.fileAt (hCluster.isSide ha)]
    rfl
  apply (representative_spec hPaths' (fun _ => h.symm.side_lt) _ (hCluster.moved h)).mpr
  refine ⟨mem_map_of_mem hMem, fun b hb => ?_⟩
  obtain ⟨a, ha, rfl⟩ := mem_map.mp hb
  rw [hKey _ hMem, hKey a ha]
  exact hLe a ha

omit h in
def CloneGroup.moved (place : ℕ → ℕ) (group : CloneGroup) : CloneGroup :=
  { group with locations := group.locations.map (movedLoc place) }

theorem cloneGroup_moved (hPaths : DistinctPaths filesData) (hPaths' : DistinctPaths filesData')
    (sha256 : List UInt8 → Text)
    {cluster : List LocTuple} (hCluster : IsCluster filesData pairs cluster) (index : ℕ) :
    cloneGroup sha256 filesData' (matchLengths pairs') (cluster.map (movedLoc place), index) =
      (cloneGroup sha256 filesData (matchLengths pairs) (cluster, index)).map (CloneGroup.moved place) := by
  have hMem := ((representative_spec hPaths (fun _ => h.side_lt) (matchLengths pairs) hCluster).mp rfl).1
  have hFile := h.fileAt (hCluster.isSide hMem)
  unfold cloneGroup
  dsimp only
  rw [representative_moved h hPaths hPaths' hCluster, longest_moved h hCluster]
  generalize representative filesData (matchLengths pairs) cluster = rep at hFile
  obtain ⟨repFile, repStart, repEnd⟩ := rep
  dsimp only [movedLoc] at hFile ⊢
  rw [hFile]
  cases clusterFingerprint sha256 (fileAt filesData repFile).language
    (normalizedLines (fileAt filesData repFile) repStart repEnd) <;> rfl

theorem located_moved {a : LocTuple}
    (hSide : IsSide pairs a) : located filesData' (movedLoc place a) = located filesData a := by
  rw [located, h.fileAt hSide]
  rfl

theorem reported_moved {group : CloneGroup} (hSides : ∀ a ∈ group.locations, IsSide pairs a) :
    (group.moved place).reported filesData' = group.reported filesData := by
  have hLocations : (group.locations.map (movedLoc place)).map (located filesData') =
      group.locations.map (located filesData) := by
    rw [map_map]
    exact map_congr_left fun a ha => located_moved h (hSides a ha)
  rw [CloneGroup.reported, CloneGroup.reported, CloneGroup.moved]
  dsimp only
  rw [hLocations]

omit h in
theorem mem_reported_positions {clusters : List (List LocTuple)} {position : Text × ℕ} :
    position ∈ ((clusters.foldl (countComponent filesData) []).map fun position =>
        ((fileAt filesData position.1).filePath, position.2)).toFinset ↔
      ∃ cluster ∈ clusters, ∃ loc ∈ cluster.tail, (located filesData loc).1 = position.1 ∧
        (loc.2.1 ≤ position.2 ∧ position.2 ≤ loc.2.2) ∧ position.2 ∈ codeLines (fileAt filesData loc.1) := by
  rw [mem_toFinset, mem_map]
  constructor
  · rintro ⟨⟨file, line⟩, hMem, rfl⟩
    rcases mem_countComponents.mp hMem with hNone | ⟨cluster, hCluster, loc, hLoc, hFile, hLine, hCode⟩
    · cases hNone
    · dsimp only at hFile
      exact ⟨cluster, hCluster, loc, hLoc, by rw [located, hFile], hLine, hCode⟩
  · rintro ⟨cluster, hCluster, loc, hLoc, hPath, hLine, hCode⟩
    exact ⟨(loc.1, position.2),
      mem_countComponents.mpr (.inr ⟨cluster, hCluster, loc, hLoc, rfl, hLine, hCode⟩), Prod.ext hPath rfl⟩

theorem positions_moved {clusters : List (List LocTuple)} (hClusters : ∀ cluster ∈ clusters, IsCluster
    filesData pairs cluster) :
    (((clusters.map (map (movedLoc place))).foldl (countComponent filesData') []).map fun position =>
        ((fileAt filesData' position.1).filePath, position.2)).toFinset =
      ((clusters.foldl (countComponent filesData) []).map fun position =>
        ((fileAt filesData position.1).filePath, position.2)).toFinset := by
  ext position
  rw [mem_reported_positions, mem_reported_positions]
  constructor
  · rintro ⟨cluster, hCluster, loc, hLoc, hSpec⟩
    obtain ⟨other, hOther, rfl⟩ := mem_map.mp hCluster
    rw [← map_tail] at hLoc
    obtain ⟨a, ha, rfl⟩ := mem_map.mp hLoc
    have hSide := (hClusters other hOther).isSide (mem_of_mem_tail ha)
    rw [located_moved h hSide, h.fileAt hSide] at hSpec
    exact ⟨other, hOther, a, ha, hSpec⟩
  · rintro ⟨cluster, hCluster, loc, hLoc, hSpec⟩
    have hSide := (hClusters cluster hCluster).isSide (mem_of_mem_tail hLoc)
    rw [← located_moved h hSide, ← h.fileAt hSide] at hSpec
    refine ⟨_, mem_map_of_mem hCluster, movedLoc place loc, ?_, hSpec⟩
    rw [← map_tail]
    exact mem_map_of_mem hLoc

omit h in
theorem clusterMatches_eq {sha256 : List UInt8 → Text} (order : Worklist.Order LocTuple)
    (hFound : components order (pairs.foldl linkMatch ([], [])).1 = some found) :
    clusterMatches order sha256 filesData pairs = (((clustersOf filesData pairs found).zipIdx 1).mapM
        (cloneGroup sha256 filesData (matchLengths pairs))).map fun groups =>
          { groups
            duplicatedPositions :=
              (clustersOf filesData pairs found).foldl (countComponent filesData) [] } := by
  unfold clusterMatches
  simp only [hFound]
  change ((clustersOf filesData pairs found).zipIdx 1).mapM
    (cloneGroup sha256 filesData (matchLengths pairs)) >>= _ = _
  cases ((clustersOf filesData pairs found).zipIdx 1).mapM
    (cloneGroup sha256 filesData (matchLengths pairs)) <;> rfl

theorem clusterMatches_reported (hPaths : DistinctPaths filesData) (hPaths' : DistinctPaths filesData')
    (order order' : Worklist.Order LocTuple) (sha256 : List UInt8 → Text) :
    (clusterMatches order' sha256 filesData' pairs').map (reported filesData') =
      (clusterMatches order sha256 filesData pairs).map (reported filesData) := by
  obtain ⟨found, hFound⟩ := exists_components order pairs
  obtain ⟨found', hFound'⟩ := exists_components order' pairs'
  have hClusters := clustersOf_moved h hPaths hPaths' hFound hFound'
  have hAll : ∀ cluster ∈ clustersOf filesData pairs found, IsCluster filesData pairs cluster :=
    fun cluster => (mem_clustersOf hPaths (fun _ => h.side_lt) hFound cluster).mp
  have hItem : ∀ item ∈ (clustersOf filesData pairs found).zipIdx 1, IsCluster filesData pairs item.1 :=
    fun item hItem => hAll _ (fst_mem_of_mem_zipIdx hItem)
  have hGroups : ((clustersOf filesData' pairs' found').zipIdx 1).mapM
        (cloneGroup sha256 filesData' (matchLengths pairs')) =
      (((clustersOf filesData pairs found).zipIdx 1).mapM
        (cloneGroup sha256 filesData (matchLengths pairs))).map (map (CloneGroup.moved place)) := by
    rw [hClusters, zipIdx_map]
    apply Raising.mapM_map
    intro item hMem
    exact cloneGroup_moved h hPaths hPaths' sha256 (hItem item hMem) item.2
  have hPositions := positions_moved h hAll
  rw [← hClusters] at hPositions
  rw [clusterMatches_eq order' hFound', clusterMatches_eq order hFound, hGroups]
  cases hRun : ((clustersOf filesData pairs found).zipIdx 1).mapM
    (cloneGroup sha256 filesData (matchLengths pairs)) with
  | error => rfl
  | ok groups =>
    have hSides : ∀ group ∈ groups, ∀ a ∈ group.locations, IsSide pairs a := by
      intro group hGroup a ha
      obtain ⟨item, hMem, hMade⟩ := Raising.exists_of_mem_mapM hRun hGroup
      rw [cloneGroup_locations hMade] at ha
      exact (hItem item hMem).isSide ha
    have hReported : (groups.map (CloneGroup.moved place)).map (CloneGroup.reported filesData') =
        groups.map (CloneGroup.reported filesData) := by
      rw [map_map]
      exact map_congr_left fun group hGroup => reported_moved h (hSides group hGroup)
    change Except.ok _ = Except.ok _
    rw [reported, reported]
    dsimp only
    rw [hReported, hPositions]

end

end Clusters

/-- Where no two matches of one size between two files overlap on both sides, every order of the files
is reported alike. -/
theorem reported_of_perm {recordHash : Text → ℕ} {windowSize : ℤ} {limits : DuplicateMatchLimits}
    {rawMatches rawMatches' : List MatchPair} (hPerm : filesData.Perm filesData')
    (hPaths : DistinctPaths filesData)
    (hRun : findRawMatches recordHash filesData windowSize limits = .ok rawMatches)
    (hRun' : findRawMatches recordHash filesData' windowSize limits = .ok rawMatches')
    (hTies : TieFreeAcross rawMatches) (order order' : Worklist.Order LocTuple) (sha256 : List UInt8 → Text) :
    (clusterMatches order' sha256 filesData' (filterSubsumedMatches rawMatches')).map
        (reported filesData') =
      (clusterMatches order sha256 filesData (filterSubsumedMatches rawMatches)).map
        (reported filesData) := by
  obtain ⟨place, back, hFiles⟩ := exists_reordering hPerm (Nodup.of_map _ hPaths)
  have hPaths' : DistinctPaths filesData' := (hPerm.map _).nodup_iff.mp hPaths
  have hSame := findRawMatches_same hFiles hRun hRun'
  have hSame' := findRawMatches_same hFiles.symm hRun' hRun
  have hPairs : SamePairs filesData filesData' place back (filterSubsumedMatches rawMatches)
      (filterSubsumedMatches rawMatches') :=
    { files := hFiles
      inOrder := fun pair hPair => hSame.inOrder pair (mem_of_mem_filterSubsumed hPair)
      inOrder' := fun pair hPair => hSame'.inOrder pair (mem_of_mem_filterSubsumed hPair)
      forward := fun _ => kept_relocated hFiles hSame hSame' hTies
      backward := fun _ => kept_relocated hFiles.symm hSame' hSame (hTies.moved hFiles hSame') }
  exact clusterMatches_reported hPairs hPaths hPaths' order order' sha256

/-! ## One block twice in two files -/

def wordHash (line : Text) : ℕ :=
  if line = py "return" then 0x7187f0675eb3827939741acf7342ba78
  else if line = py "break" then 0x14ebe56a5008e7c251101e9e1fdbe281
  else if line = py "raise" then 0xe49b5c7a9e738d485bc77b54d9906a92
  else 0x8bbcba42d48dcffe6ea6efa3f5656ec8

/-- The digests of the block, and of the block between the other two words. -/
def wordDigest (encoded : List UInt8) : Text :=
  if encoded.getLast? = some 0x64 then
    py "ba0c54957d978669f965651c463036ba7c30140f3c50bb707b22a6af40e46eb4"
  else if encoded.getLast? = some 0x65 then
    py "c80427cbd27d373e198ae9c819e8d4cca1e4281dbc6770dc4b1067ba412ba36d"
  else py "dce817c83c4a5660df25dae452a80eced5d8dde58f533e53feef499b538de0d6"

def wordFile (path : String) (words : List String) : DuplicateFileData where
  filePath := py path
  language := py "python"
  rawLines := words.map fun word => py word ++ py "\n"
  indexed := (words.zipIdx 1).map fun word => (word.2, py word.1)
  regions := words.map fun _ => (1, 0)

def block : List String := ["return", "break", "return", "return", "return", "return"]

def raising : DuplicateFileData := wordFile "src/a.py" (["raise"] ++ block ++ ["yield"] ++ block ++ ["raise"])

def yielding : DuplicateFileData :=
  wordFile "src/b.py" (["yield"] ++ block ++ ["raise"] ++ block ++ ["yield"])

def crossedMatches : List MatchPair := [
  ⟨0, 2, 7, 0, 9, 14, 6⟩, ⟨0, 2, 7, 1, 2, 7, 6⟩, ⟨0, 1, 8, 1, 8, 15, 8⟩, ⟨0, 8, 15, 1, 1, 8, 8⟩,
  ⟨0, 9, 14, 1, 9, 14, 6⟩, ⟨1, 2, 7, 1, 9, 14, 6⟩]

theorem findRawMatches_crossed :
    findRawMatches wordHash [raising, yielding] 6 wideLimits = .ok crossedMatches := by
  decide +kernel

theorem findRawMatches_crossed_back :
    findRawMatches wordHash [yielding, raising] 6 wideLimits = .ok crossedMatches := by
  decide +kernel

def groupsOf (filesData : List DuplicateFileData) (rawMatches : List MatchPair) :
    Result (List (Finset (Text × ℕ × ℕ))) :=
  (clusterMatches asBuilt wordDigest filesData (filterSubsumedMatches rawMatches)).map fun clustering =>
    clustering.groups.map fun group => (group.locations.map (located filesData)).toFinset

/-- Two matches of eight lines overlap on both sides. The one whose first side stands first in the
first file is kept, so the groups depend on which file is first. -/
theorem groups_follow_order : [raising, yielding].Perm [yielding, raising] ∧
    findRawMatches wordHash [raising, yielding] 6 wideLimits = .ok crossedMatches ∧
    findRawMatches wordHash [yielding, raising] 6 wideLimits = .ok crossedMatches ∧
    ∃ groups groups', groupsOf [raising, yielding] crossedMatches = .ok groups ∧
      groupsOf [yielding, raising] crossedMatches = .ok groups' ∧
      ∃ group ∈ groups, group ∉ groups' := by
  refine ⟨.swap _ _ [], findRawMatches_crossed, findRawMatches_crossed_back,
    [{(py "src/a.py", 1, 8), (py "src/b.py", 8, 15)}, {(py "src/a.py", 2, 7), (py "src/a.py", 9, 14),
      (py "src/b.py", 2, 7), (py "src/b.py", 9, 14)}],
    [{(py "src/a.py", 8, 15), (py "src/b.py", 1, 8)}, {(py "src/a.py", 2, 7), (py "src/a.py", 9, 14),
      (py "src/b.py", 2, 7), (py "src/b.py", 9, 14)}], ?_, ?_, ?_⟩
  · decide +kernel
  · decide +kernel
  · exact ⟨_, mem_cons_self, by decide +kernel⟩

def blockFile : DuplicateFileData := wordFile "src/c.py" block

def sharedMatches : List MatchPair := [⟨0, 2, 7, 0, 9, 14, 6⟩, ⟨0, 2, 7, 1, 1, 6, 6⟩, ⟨0, 9, 14, 1, 1, 6, 6⟩]

def sharedMatches' : List MatchPair := [⟨0, 1, 6, 1, 2, 7, 6⟩, ⟨0, 1, 6, 1, 9, 14, 6⟩, ⟨1, 2, 7, 1, 9, 14, 6⟩]

theorem block_reported :
    (clusterMatches asBuilt wordDigest [blockFile, raising] (filterSubsumedMatches sharedMatches')).map
        (reported [blockFile, raising]) =
      (clusterMatches asBuilt wordDigest [raising, blockFile] (filterSubsumedMatches sharedMatches)).map
        (reported [raising, blockFile]) :=
  reported_of_perm (.swap _ _ []) (by unfold DistinctPaths; decide +kernel)
    (by decide +kernel : findRawMatches wordHash [raising, blockFile] 6 wideLimits = .ok sharedMatches)
    (by decide +kernel : findRawMatches wordHash [blockFile, raising] 6 wideLimits = .ok sharedMatches')
    (by decide +kernel) asBuilt asBuilt wordDigest

end Ici.Duplicates
