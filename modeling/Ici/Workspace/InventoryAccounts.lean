import Ici.Workspace.InventoryIdentifies

/-! # Every claimed file is accounted for

An inventory lists each claimed file once, as read or as unreadable, whatever order the components
stand in. Taking it raises on what its own entries refuse and on an external input it cannot read. -/

namespace Ici

namespace Inventory

open List Python Raising SourceInventory SourceTree ExternalInputFields

theorem mem_sortedSet {items : List Text} {item : Text} : item ∈ sortedSet items ↔ item ∈ items := by
  rw [sortedSet, mem_insertionSort, mem_dedup]

theorem nodup_sortedSet (items : List Text) : (sortedSet items).Nodup :=
  (perm_insertionSort _ _).nodup_iff.mpr items.nodup_dedup

theorem pairwise_sortedSet (items : List Text) : (sortedSet items).Pairwise (· < ·) := by
  have hSorted := pairwise_insertionSort (· ≤ ·) items.dedup
  exact (hSorted.and (nodup_sortedSet items)).imp fun ⟨hLe, hNe⟩ => lt_of_le_of_ne hLe hNe

theorem sortedSet_congr {items items' : List Text} (h : ∀ item, item ∈ items ↔ item ∈ items') :
    sortedSet items = sortedSet items' := by
  refine Perm.eq_of_pairwise' (pairwise_sortedSet items) (pairwise_sortedSet items') ?_
  refine (perm_ext_iff_of_nodup (nodup_sortedSet items) (nodup_sortedSet items')).mpr fun item => ?_
  rw [mem_sortedSet, mem_sortedSet, h item]

/-! ## What a component owns -/

namespace SourceTree

variable (tree : SourceTree)

/-- A glob of the component matches the path, and none of its excludes does. -/
def Claims (component : Component) (path : Text) : Prop :=
  (∃ pattern ∈ component.val.sources ++ component.val.include', path ∈ tree.expand pattern) ∧
    ∀ pattern ∈ component.val.exclude, path ∉ tree.expand pattern

/-- The path is claimed, or an external input of the component that lies inside. -/
def Owns (component : Component) (path : Text) : Prop :=
  tree.Claims component path ∨
    ∃ entry ∈ component.val.external, ∃ inside, tree.externalInside entry = .ok inside ∧ path ∈ inside

def IsBelow (entry : Text) : Prop :=
  (tree.inside (tree.candidate entry)).isSome → tree.node (tree.candidate entry) = .directory →
    ∀ path ∈ tree.rglob (tree.candidate entry), tree.node path = .file →
      (path.relativeTo tree.root).isSome

/-- What is at a declared path can be read, every file of it, under a name that can be encoded. -/
def IsReadable (entry : Text) : Prop :=
  (tree.node (tree.candidate entry) = .directory →
    ∀ path ∈ tree.rglob (tree.candidate entry), tree.node path = .file →
      (∃ content, tree.content path = .ok content) ∧ NoSurrogate path.asPosix) ∧
  (tree.node (tree.candidate entry) ≠ .missing → tree.node (tree.candidate entry) ≠ .directory →
    ∃ content, tree.content (tree.candidate entry) = .ok content)

variable {tree}

theorem exists_relativeToRoot_iff {path : PurePath} :
    (∃ text, tree.relativeToRoot path = .ok text) ↔ (path.relativeTo tree.root).isSome := by
  unfold relativeToRoot
  cases path.relativeTo tree.root with
  | none => simp
  | some relative => simp

theorem exists_externalInside_iff {entry : Text} :
    (∃ inside, tree.externalInside entry = .ok inside) ↔ tree.IsBelow entry := by
  unfold externalInside IsBelow
  cases hInside : tree.inside (tree.candidate entry) with
  | none => simp
  | some relative =>
    cases hNode : tree.node (tree.candidate entry) with
    | directory =>
      simp only [exists_mapM_eq_ok, exists_relativeToRoot_iff, mem_filter, decide_eq_true_eq, and_imp,
        Option.isSome_some, forall_const]
    | _ => simp

theorem mem_owned_iff {component : Component} {paths : List Text} (h : tree.owned component = .ok paths)
    {path : Text} : path ∈ paths ↔ tree.Owns component path := by
  unfold owned at h
  obtain ⟨inside, hInside, rfl⟩ := map_eq_ok.mp h
  rw [mem_append, mem_filter, mem_flatMap, mem_flatten, Owns, Claims]
  refine or_congr (and_congr_right fun _ => ?_) ?_
  · rw [decide_eq_true_eq, mem_flatMap]
    simp only [not_exists, not_and]
  · constructor
    · rintro ⟨part, hPart, hPath⟩
      obtain ⟨entry, hEntry, hOk⟩ := exists_of_mem_mapM hInside hPart
      exact ⟨entry, hEntry, part, hOk, hPath⟩
    · rintro ⟨entry, hEntry, part, hOk, hPath⟩
      exact ⟨part, (mem_mapM_iff hInside).mpr ⟨entry, hEntry, hOk⟩, hPath⟩

theorem exists_owned_iff {component : Component} :
    (∃ paths, tree.owned component = .ok paths) ↔ ∀ entry ∈ component.val.external, tree.IsBelow entry := by
  unfold owned
  simp only [map_eq_ok]
  rw [exists_comm]
  simp only [exists_and_left, exists_eq', and_true, exists_mapM_eq_ok, exists_externalInside_iff]

end SourceTree

/-! ## What is raised -/

variable {entry path : Text} {files : List InventoriedFile} {inventory : SourceInventory}
  {paths : List Text}

theorem requireText_external {workspace : Workspace} (h : entry ∈ workspace.externals) :
    requireText entry (py "external input") = .ok () := by
  obtain ⟨component, -, hEntry⟩ := mem_flatMap.mp h
  have hCheck := component.property
  unfold ComponentFields.check at hCheck
  simp only [seq_eq_ok, forM_eq_ok] at hCheck
  exact hCheck.2.2.2.2.2.2.2.2.2.2.2.2 entry hEntry

theorem isSpace_of_hex {c : CodePoint} (h : isHexChar c = true) : isSpace c = false := by
  apply isSpace_of_isLowerAlnum
  simp only [isHexChar, isLowerAlnum, Bool.or_eq_true, Bool.and_eq_true, decide_eq_true_eq] at h ⊢
  omega

section

variable (sha256 : FullSha256) (content : List UInt8)

theorem unpadded_text : Unpadded (sha256.text content) := by
  have hSome : (sha256 content).val.val ≠ [] :=
    ne_nil_of_length_pos (by rw [(sha256 content).property]; exact Nat.zero_lt_succ _)
  refine ⟨fun _ => ?_, fun _ => ?_⟩
  · exact (by decide : isSpace (py "s").head! = false)
  · simp only [FullSha256.text, getLast_append_of_ne_nil _ hSome]
    exact isSpace_of_hex ((sha256 content).val.property _ (getLast_mem hSome))

theorem requireDigest_text (description : Text) :
    requireDigest (sha256.text content) description = .ok () := by
  have hText : requireText (sha256.text content) description = .ok () := by
    rw [requireText, if_neg (by rw [FullSha256.text]; exact cons_ne_nil _ _),
      if_neg (by rw [(strip_eq_self_iff _).mpr (unpadded_text sha256 content)]; exact fun h => h rfl)]
  have hMatch : digestMatch (sha256.text content) = true := by
    have hFront : (sha256.text content).take 7 = py "sha256:" := rfl
    have hBack : (sha256.text content).drop 7 = (sha256 content).val.val := rfl
    rw [digestMatch, hFront, hBack, (sha256 content).property]
    exact all_eq_true.mpr fun c hc => (sha256 content).val.property c hc
  rw [requireDigest, hText, hMatch]
  rfl

theorem noSurrogate_text : NoSurrogate (sha256.text content) := by
  rw [FullSha256.text, noSurrogate_append]
  exact ⟨by decide, noSurrogate_of_hex (sha256 content).val.property⟩

end

theorem check_absent (h : requireText entry (py "external input") = .ok ()) :
    check { path := entry, present := false } = .ok () := by
  unfold check
  rw [h]
  rfl

theorem check_present (h : requireText entry (py "external input") = .ok ())
    (sha256 : FullSha256) (content : List UInt8) (files : List Text) :
    check
      { path := entry, present := true, digest := some (sha256.text content), files } = .ok () := by
  unfold check
  rw [h]
  simp only [seq_eq_ok, Option.toList_some, forM_eq_ok, mem_singleton, forall_eq]
  exact ⟨trivial, requireDigest_text sha256 content _, rfl⟩

variable {sha256 : FullSha256} {tree : SourceTree}

theorem exists_memberBytes_iff {path : PurePath} :
    (∃ part, tree.memberBytes sha256 path.asPosix = .ok part) ↔
      (∃ content, tree.content path = .ok content) ∧ NoSurrogate path.asPosix := by
  constructor
  · rintro ⟨part, h⟩
    obtain ⟨content, name, digest, hContent, hName, -, -⟩ := memberBytes_eq_ok h
    rw [PurePath.parse_asPosix] at hContent
    exact ⟨⟨content, hContent⟩, exists_utf8_iff.mp ⟨name, hName⟩⟩
  · rintro ⟨⟨content, hContent⟩, hName⟩
    obtain ⟨name, hName⟩ := exists_utf8_iff.mpr hName
    obtain ⟨digest, hDigest⟩ := exists_utf8_iff.mpr (noSurrogate_text sha256 content)
    refine ⟨name ++ 0 :: digest, ?_⟩
    rw [memberBytes, PurePath.parse_asPosix, hContent]
    exact step rfl (step hName (map_eq_ok.mpr ⟨digest, hDigest, rfl⟩))

theorem exists_members_iff (sha256 : FullSha256) {tree : SourceTree} {directory : PurePath} :
    (∃ parts, (tree.members directory).mapM (tree.memberBytes sha256) = .ok parts) ↔
      ∀ path ∈ tree.rglob directory, tree.node path = .file →
        (∃ content, tree.content path = .ok content) ∧ NoSurrogate path.asPosix := by
  rw [exists_mapM_eq_ok]
  simp only [SourceTree.members, mem_insertionSort, mem_map, mem_filter, decide_eq_true_eq,
    forall_exists_index, and_imp]
  constructor
  · intro h path hPath hFile
    exact exists_memberBytes_iff.mp (h _ path hPath hFile rfl)
  · rintro h _ path hPath hFile rfl
    exact exists_memberBytes_iff.mpr (h path hPath hFile)

theorem exists_external_iff (sha256 : FullSha256) {tree : SourceTree} {entry : Text}
    (h : requireText entry (py "external input") = .ok ()) :
    (∃ external, tree.external sha256 entry = .ok external) ↔ tree.IsReadable entry := by
  unfold external SourceTree.IsReadable
  cases hNode : tree.node (tree.candidate entry) with
  | missing => simp [Checked.construct_eq_ok (check_absent h)]
  | directory =>
    simp only [forall_const, ne_eq, not_true_eq_false, false_implies, implies_true, and_true]
    rw [← exists_members_iff sha256]
    constructor
    · rintro ⟨external, hExternal⟩
      obtain ⟨parts, hParts, -⟩ := bind_eq_ok.mp hExternal
      exact ⟨parts, hParts⟩
    · rintro ⟨parts, hParts⟩
      exact ⟨_, step hParts (Checked.construct_eq_ok (check_present h sha256 _ _))⟩
  | file | other =>
    simp only [reduceCtorEq, false_implies, true_and, ne_eq, not_false_eq_true, forall_const]
    constructor
    · rintro ⟨external, hExternal⟩
      obtain ⟨content, hContent, -⟩ := bind_eq_ok.mp hExternal
      exact ⟨content, hContent⟩
    · rintro ⟨content, hContent⟩
      exact ⟨_, step hContent (Checked.construct_eq_ok (check_present h sha256 _ _))⟩

theorem exists_inventoried_iff {workspace : Workspace}
    {claims : List (Component × List Text)} {content : List UInt8} :
    (∃ file, inventoried sha256 tree workspace claims path content = .ok file) ↔
      requireRelativePath path (py "inventoried file") false = .ok () := by
  unfold inventoried
  rw [Checked.exists_construct_iff]
  unfold InventoriedFileFields.check
  simp only [seq_eq_ok, requireDigest_text, and_true]

theorem noSurrogate_listing_iff (h : ∀ file ∈ files, ∃ content, IsRead sha256 tree file content) :
    NoSurrogate (listing files) ↔ ∀ file ∈ files, NoSurrogate file.val.path := by
  have hLine (file : InventoriedFile) (hFile : file ∈ files) :
      NoSurrogate (entryLine file) ↔ NoSurrogate file.val.path := by
    obtain ⟨content, hRead⟩ := h file hFile
    have hRole : NoSurrogate file.val.role.value := by
      cases file.val.role <;> decide
    have hTab : NoSurrogate (py "\t") := by decide
    simp only [entryLine, noSurrogate_append, hRead.digest, hRole, hTab, noSurrogate_text, true_and]
  have hBreak : NoSurrogate (py "\n") := by decide
  unfold listing NoSurrogate
  rw [Json.forall_join_iff hBreak, forall_mem_map]
  exact forall₂_congr hLine

/-! ## What is accounted for -/

def listedPaths (tree : SourceTree) (claims : List (Component × List Text)) : List Text :=
  (sortedSet (claims.flatMap Prod.snd)).filter fun path => tree.node (tree.candidate path) = .file

def readPaths (tree : SourceTree) (paths : List Text) : List (Text × List UInt8) :=
  paths.filterMap fun path => (tree.content (tree.candidate path)).toOption.map fun content => (path, content)

theorem take_eq_ok_iff {workspace : Workspace} :
    take sha256 tree workspace = .ok inventory ↔ ∃ claims externals files bytes,
      (workspace.val.components.mapM fun component =>
        (tree.owned component).map fun paths => (component, paths)) = .ok claims ∧
      workspace.externals.mapM (tree.external sha256) = .ok externals ∧
      (readPaths tree (listedPaths tree claims)).mapM
        (fun found => inventoried sha256 tree workspace claims found.1 found.2) = .ok files ∧
      utf8 (listing files) = .ok bytes ∧
      inventory =
        { workspaceId := workspace.val.id
          files, externals
          generatedRoots := workspace.generatedRoots
          unreadable := (listedPaths tree claims).filter fun path =>
            (tree.content (tree.candidate path)).toOption.isNone
          digest := sha256.text bytes } := by
  unfold take
  constructor
  · intro h
    obtain ⟨claims, hClaims, h⟩ := bind_eq_ok.mp h
    obtain ⟨externals, hExternals, h⟩ := bind_eq_ok.mp h
    obtain ⟨files, hFiles, h⟩ := bind_eq_ok.mp h
    obtain ⟨bytes, hBytes, h⟩ := bind_eq_ok.mp h
    exact ⟨claims, externals, files, bytes, hClaims, hExternals, hFiles, hBytes, (Except.ok.inj h).symm⟩
  · rintro ⟨claims, externals, files, bytes, hClaims, hExternals, hFiles, hBytes, rfl⟩
    exact step hClaims (step hExternals (step hFiles (step hBytes rfl)))

/-- What a workspace and its files have to be for an inventory to be taken of them. -/
structure IsAccountable (tree : SourceTree) (workspace : Workspace) : Prop where
  below : ∀ entry ∈ workspace.externals, tree.IsBelow entry
  readable : ∀ entry ∈ workspace.externals, tree.IsReadable entry
  names : ∀ component ∈ workspace.val.components, ∀ path, tree.Owns component path →
    tree.node (tree.candidate path) = .file → (∃ content, tree.content (tree.candidate path) = .ok content) →
      requireRelativePath path (py "inventoried file") false = .ok () ∧ NoSurrogate path

def UnderBuild (tree : SourceTree) (workspace : Workspace) (path : Text) : Prop :=
  ∃ build ∈ workspace.val.builds, build.val.directory ≠ [] ∧
    ((tree.candidate path).relativeTo (tree.candidate build.val.directory)).isSome

def InVendor (tree : SourceTree) (workspace : Workspace) (path : Text) : Prop :=
  ∃ component ∈ workspace.val.components, ∃ pattern ∈ component.val.vendor, path ∈ tree.expand pattern

structure IsAccounted (tree : SourceTree) (workspace : Workspace) (inventory : SourceInventory) : Prop where
  once : (inventory.files.map (·.val.path) ++ inventory.unreadable).Nodup
  all : ∀ path, path ∈ inventory.files.map (·.val.path) ++ inventory.unreadable ↔
    (∃ component ∈ workspace.val.components, tree.Owns component path) ∧
      tree.node (tree.candidate path) = .file
  read : ∀ path ∈ inventory.files.map (·.val.path), ∃ content,
    tree.content (tree.candidate path) = .ok content
  unread : ∀ path ∈ inventory.unreadable, ∃ e, tree.content (tree.candidate path) = .error e
  sorted : ∀ file ∈ inventory.files, file.val.units.Pairwise (· < ·)
  units : ∀ file ∈ inventory.files, ∀ unit, unit ∈ file.val.units ↔
    ∃ component ∈ workspace.val.components, tree.Owns component file.val.path ∧
      unit ∈ workspace.unitIds component
  generated : ∀ file ∈ inventory.files, file.val.role = .generated ↔ UnderBuild tree workspace file.val.path
  vendor : ∀ file ∈ inventory.files, file.val.role = .vendor ↔
    ¬UnderBuild tree workspace file.val.path ∧ InVendor tree workspace file.val.path
  source : ∀ file ∈ inventory.files, file.val.role = .source ↔
    ¬UnderBuild tree workspace file.val.path ∧ ¬InVendor tree workspace file.val.path

structure IsReordered (workspace other : Workspace) : Prop where
  id : other.val.id = workspace.val.id
  builds : other.val.builds = workspace.val.builds
  units : other.val.analysisUnits = workspace.val.analysisUnits
  components : workspace.val.components.Perm other.val.components

structure IsSameInventory (inventory other : SourceInventory) : Prop where
  workspaceId : other.workspaceId = inventory.workspaceId
  files : other.files = inventory.files
  unreadable : other.unreadable = inventory.unreadable
  generatedRoots : other.generatedRoots = inventory.generatedRoots
  digest : other.digest = inventory.digest
  externals : inventory.externals.Perm other.externals

variable {sha256 : FullSha256} {tree : SourceTree} {workspace : Workspace}
  {claims : List (Component × List Text)}

abbrev IsClaims (tree : SourceTree) (workspace : Workspace) (claims : List (Component × List Text)) : Prop :=
  (workspace.val.components.mapM fun component =>
    (tree.owned component).map fun paths => (component, paths)) = .ok claims

theorem exists_claims_iff :
    (∃ claims, IsClaims tree workspace claims) ↔ ∀ entry ∈ workspace.externals, tree.IsBelow entry := by
  rw [exists_mapM_eq_ok]
  simp only [Workspace.externals, mem_flatMap, forall_exists_index, and_imp]
  constructor
  · intro h entry component hComponent hEntry
    obtain ⟨claim, hClaim⟩ := h component hComponent
    obtain ⟨paths, hPaths, -⟩ := map_eq_ok.mp hClaim
    exact exists_owned_iff.mp ⟨paths, hPaths⟩ entry hEntry
  · intro h component hComponent
    obtain ⟨paths, hPaths⟩ := exists_owned_iff.mpr fun entry => h entry component hComponent
    exact ⟨(component, paths), map_eq_ok.mpr ⟨paths, hPaths, rfl⟩⟩

section

variable (h : IsClaims tree workspace claims)
include h

theorem mem_claims_iff {component : Component} {path : Text} :
    (∃ paths, (component, paths) ∈ claims ∧ path ∈ paths) ↔
      component ∈ workspace.val.components ∧ tree.Owns component path := by
  simp only [mem_mapM_iff h, map_eq_ok]
  constructor
  · rintro ⟨paths, ⟨other, hOther, found, hFound, hPair⟩, hPath⟩
    cases hPair
    exact ⟨hOther, (mem_owned_iff hFound).mp hPath⟩
  · rintro ⟨hComponent, hOwns⟩
    obtain ⟨claim, -, hClaim⟩ := mem_mapM_of_mem h hComponent
    obtain ⟨paths, hPaths, -⟩ := map_eq_ok.mp hClaim
    exact ⟨paths, ⟨component, hComponent, paths, hPaths, rfl⟩, (mem_owned_iff hPaths).mpr hOwns⟩

theorem mem_claimed_iff {path : Text} :
    path ∈ claims.flatMap Prod.snd ↔ ∃ component ∈ workspace.val.components, tree.Owns component path := by
  rw [mem_flatMap]
  constructor
  · rintro ⟨⟨component, paths⟩, hClaim, hPath⟩
    exact ⟨component, (mem_claims_iff h).mp ⟨paths, hClaim, hPath⟩⟩
  · rintro ⟨component, hOwns⟩
    obtain ⟨paths, hClaim, hPath⟩ := (mem_claims_iff h).mpr hOwns
    exact ⟨(component, paths), hClaim, hPath⟩

theorem mem_listedPaths_iff {path : Text} : path ∈ listedPaths tree claims ↔
      (∃ component ∈ workspace.val.components, tree.Owns component path) ∧
        tree.node (tree.candidate path) = .file := by
  rw [listedPaths, mem_filter, mem_sortedSet, mem_claimed_iff h, decide_eq_true_eq]

end

theorem nodup_listedPaths : (listedPaths tree claims).Nodup := (nodup_sortedSet _).filter _

theorem mem_readPaths_iff {found : Text × List UInt8} : found ∈ readPaths tree paths ↔
      found.1 ∈ paths ∧ tree.content (tree.candidate found.1) = .ok found.2 := by
  obtain ⟨path, content⟩ := found
  rw [readPaths, mem_filterMap]
  constructor
  · rintro ⟨other, hOther, h⟩
    cases hContent : tree.content (tree.candidate other) with
    | error e => rw [hContent] at h; cases h
    | ok bytes =>
      rw [hContent] at h
      cases h
      exact ⟨hOther, hContent⟩
  · rintro ⟨hPath, hContent⟩
    exact ⟨path, hPath, by rw [hContent]; rfl⟩

theorem map_fst_readPaths (paths : List Text) : (readPaths tree paths).map Prod.fst =
      paths.filter fun path => (tree.content (tree.candidate path)).toOption.isSome := by
  induction paths with
  | nil => rfl
  | cons path paths ih =>
    rw [readPaths, filterMap_cons, filter_cons, ← ih]
    cases tree.content (tree.candidate path) with
    | error e => rfl
    | ok content => rfl

theorem fields_of_inventoried {content : List UInt8} {file : InventoriedFile}
    (h : inventoried sha256 tree workspace claims path content = .ok file) :
    file.val.path = path ∧
      file.val.role = tree.role (workspace.val.components.flatMap fun component =>
        component.val.vendor.flatMap tree.expand) workspace.generatedRoots path ∧
      file.val.units = sortedSet ((claims.filter (path ∈ ·.2)).flatMap fun claim =>
        workspace.unitIds claim.1) := by
  rw [Checked.construct_eq_ok_iff.mp h]
  exact ⟨rfl, rfl, rfl⟩

section

variable (h : (readPaths tree paths).mapM (fun found => inventoried sha256 tree workspace claims found.1
    found.2) = .ok files)
include h

theorem isRead_of_mapM : ∀ file ∈ files, ∃ content, IsRead sha256 tree file content := by
  intro file hFile
  obtain ⟨⟨path, content⟩, hFound, hMade⟩ := exists_of_mem_mapM h hFile
  have hFields := Checked.construct_eq_ok_iff.mp hMade
  refine ⟨content, ?_, ?_⟩
  · rw [hFields]
    exact (mem_readPaths_iff.mp hFound).2
  · rw [hFields]

theorem paths_of_files : files.map (·.val.path) =
      paths.filter fun path => (tree.content (tree.candidate path)).toOption.isSome := by
  rw [← map_fst_readPaths]
  exact map_of_mapM (fun found file hFile => (fields_of_inventoried hFile).1) h

end

theorem any_generatedRoots_iff : (workspace.generatedRoots.any fun directory =>
      ((tree.candidate path).relativeTo (tree.candidate directory)).isSome) = true ↔
      UnderBuild tree workspace path := by
  rw [any_eq_true, UnderBuild]
  constructor
  · rintro ⟨directory, hDirectory, hBelow⟩
    obtain ⟨hMapped, hSome⟩ := mem_filter.mp (mem_sortedSet.mp hDirectory)
    obtain ⟨build, hBuild, rfl⟩ := mem_map.mp hMapped
    exact ⟨build, hBuild, of_decide_eq_true hSome, hBelow⟩
  · rintro ⟨build, hBuild, hSome, hBelow⟩
    exact ⟨build.val.directory, mem_sortedSet.mpr (mem_filter.mpr
      ⟨mem_map_of_mem hBuild, decide_eq_true hSome⟩), hBelow⟩

theorem role_eq (tree : SourceTree) (workspace : Workspace) (path : Text) :
    (UnderBuild tree workspace path ∧ tree.role (workspace.val.components.flatMap fun component =>
        component.val.vendor.flatMap tree.expand) workspace.generatedRoots path = .generated) ∨
    (¬UnderBuild tree workspace path ∧ InVendor tree workspace path ∧
      tree.role (workspace.val.components.flatMap fun component =>
        component.val.vendor.flatMap tree.expand) workspace.generatedRoots path = .vendor) ∨
    (¬UnderBuild tree workspace path ∧ ¬InVendor tree workspace path ∧
      tree.role (workspace.val.components.flatMap fun component =>
        component.val.vendor.flatMap tree.expand) workspace.generatedRoots path = .source) := by
  have hVendor : (path ∈ workspace.val.components.flatMap fun component =>
      component.val.vendor.flatMap tree.expand) ↔ InVendor tree workspace path := by
    simp only [mem_flatMap, InVendor]
  unfold role
  by_cases hBuild : UnderBuild tree workspace path
  · exact .inl ⟨hBuild, if_pos (any_generatedRoots_iff.mpr hBuild)⟩
  · rw [if_neg (any_generatedRoots_iff.not.mpr hBuild)]
    by_cases hPath : InVendor tree workspace path
    · exact .inr (.inl ⟨hBuild, hPath, if_pos (hVendor.mpr hPath)⟩)
    · exact .inr (.inr ⟨hBuild, hPath, if_neg (hVendor.not.mpr hPath)⟩)

theorem mem_units_iff (h : IsClaims tree workspace claims) {path unit : Text} :
    (unit ∈ sortedSet ((claims.filter (path ∈ ·.2)).flatMap fun claim => workspace.unitIds claim.1)) ↔
      ∃ component ∈ workspace.val.components, tree.Owns component path ∧
        unit ∈ workspace.unitIds component := by
  rw [mem_sortedSet, mem_flatMap]
  constructor
  · rintro ⟨⟨component, paths⟩, hClaim, hUnit⟩
    obtain ⟨hClaim, hPath⟩ := mem_filter.mp hClaim
    obtain ⟨hComponent, hOwns⟩ := (mem_claims_iff h).mp ⟨paths, hClaim, of_decide_eq_true hPath⟩
    exact ⟨component, hComponent, hOwns, hUnit⟩
  · rintro ⟨component, hComponent, hOwns, hUnit⟩
    obtain ⟨paths, hClaim, hPath⟩ := (mem_claims_iff h).mpr ⟨hComponent, hOwns⟩
    exact ⟨(component, paths), mem_filter.mpr ⟨hClaim, decide_eq_true hPath⟩, hUnit⟩

theorem isAccounted_of_take (h : take sha256 tree workspace = .ok inventory) :
    IsAccounted tree workspace inventory := by
  obtain ⟨claims, externals, files, bytes, hClaims, -, hFiles, -, rfl⟩ := take_eq_ok_iff.mp h
  have hPaths := paths_of_files hFiles
  have hMade : ∀ file ∈ files, ∃ content,
      inventoried sha256 tree workspace claims file.val.path content = .ok file := by
    intro file hFile
    obtain ⟨found, -, hFound⟩ := exists_of_mem_mapM hFiles hFile
    exact ⟨found.2, (fields_of_inventoried hFound).1 ▸ hFound⟩
  have hRole (file : InventoriedFile) (hFile : file ∈ files) :
      file.val.role = tree.role (workspace.val.components.flatMap fun component =>
        component.val.vendor.flatMap tree.expand) workspace.generatedRoots file.val.path := by
    obtain ⟨content, hMade⟩ := hMade file hFile
    exact (fields_of_inventoried hMade).2.1
  have hUnits (file : InventoriedFile) (hFile : file ∈ files) :
      file.val.units = sortedSet ((claims.filter (file.val.path ∈ ·.2)).flatMap fun claim =>
        workspace.unitIds claim.1) := by
    obtain ⟨content, hMade⟩ := hMade file hFile
    exact (fields_of_inventoried hMade).2.2
  refine
    { once := ?_
      all := fun path => ?_
      read := fun path hPath => ?_
      unread := fun path hPath => ?_
      sorted := fun file hFile => hUnits file hFile ▸ pairwise_sortedSet _
      units := fun file hFile unit => hUnits file hFile ▸ mem_units_iff hClaims
      generated := fun file hFile => ?_
      vendor := fun file hFile => ?_
      source := fun file hFile => ?_ }
  · rw [hPaths]
    refine (nodup_listedPaths.filter _).append (nodup_listedPaths.filter _) ?_
    intro path hRead hUnread
    have hSome := (mem_filter.mp hRead).2
    have hNone := (mem_filter.mp hUnread).2
    rw [Option.isNone_iff_eq_none.mp hNone] at hSome
    cases hSome
  · rw [hPaths, mem_append, mem_filter, mem_filter, ← and_or_left, ← mem_listedPaths_iff hClaims]
    cases (tree.content (tree.candidate path)).toOption <;> simp
  · rw [hPaths] at hPath
    have hSome := (mem_filter.mp hPath).2
    cases hContent : tree.content (tree.candidate path) with
    | error e => rw [hContent] at hSome; cases hSome
    | ok content => exact ⟨content, rfl⟩
  · have hNone := (mem_filter.mp hPath).2
    cases hContent : tree.content (tree.candidate path) with
    | error e => exact ⟨e, rfl⟩
    | ok content => rw [hContent] at hNone; cases hNone
  all_goals
    rw [hRole file hFile]
    rcases role_eq tree workspace file.val.path with
      ⟨hBuild, hEq⟩ | ⟨hBuild, hVendor, hEq⟩ | ⟨hBuild, hVendor, hEq⟩
    · simp only [hEq, hBuild, reduceCtorEq, not_true_eq_false, false_and]
    · simp only [hEq, hBuild, hVendor, reduceCtorEq, not_true_eq_false, not_false_eq_true, and_true,
      and_false]
    · simp only [hEq, hBuild, hVendor, reduceCtorEq, not_false_eq_true, and_true, and_false]

theorem exists_take_iff :
    (∃ inventory, take sha256 tree workspace = .ok inventory) ↔ IsAccountable tree workspace := by
  constructor
  · rintro ⟨inventory, h⟩
    have hTaken := isTaken_of_take h
    obtain ⟨claims, externals, files, bytes, hClaims, hExternals, hFiles, hBytes, rfl⟩ := take_eq_ok_iff.mp h
    refine ⟨exists_claims_iff.mp ⟨claims, hClaims⟩, fun entry hEntry => ?_, ?_⟩
    · exact (exists_external_iff sha256 (requireText_external hEntry)).mp
        (exists_mapM_eq_ok.mp ⟨externals, hExternals⟩ entry hEntry)
    · rintro component hComponent path hOwns hFile ⟨content, hContent⟩
      have hListed := (mem_listedPaths_iff hClaims).mpr ⟨⟨component, hComponent, hOwns⟩, hFile⟩
      obtain ⟨file, hMem, hMade⟩ := mem_mapM_of_mem hFiles (a := (path, content))
        (mem_readPaths_iff.mpr ⟨hListed, hContent⟩)
      refine ⟨exists_inventoried_iff.mp ⟨file, hMade⟩, ?_⟩
      rw [show path = file.val.path from (fields_of_inventoried hMade).1.symm]
      exact (noSurrogate_listing_iff hTaken.read).mp (exists_utf8_iff.mp ⟨bytes, hBytes⟩) file hMem
  · intro h
    obtain ⟨claims, hClaims⟩ := exists_claims_iff.mpr h.below
    obtain ⟨externals, hExternals⟩ := exists_mapM_eq_ok.mpr fun entry hEntry =>
      (exists_external_iff sha256 (requireText_external hEntry)).mpr (h.readable entry hEntry)
    have hNames (found : Text × List UInt8) (hFound : found ∈ readPaths tree (listedPaths tree claims)) :
        requireRelativePath found.1 (py "inventoried file") false = .ok () ∧ NoSurrogate found.1 := by
      obtain ⟨hListed, hContent⟩ := mem_readPaths_iff.mp hFound
      obtain ⟨⟨component, hComponent, hOwns⟩, hFile⟩ := (mem_listedPaths_iff hClaims).mp hListed
      exact h.names component hComponent found.1 hOwns hFile ⟨found.2, hContent⟩
    obtain ⟨files, hFiles⟩ := exists_mapM_eq_ok.mpr fun found hFound =>
      (exists_inventoried_iff ).mpr (hNames found hFound).1
    obtain ⟨bytes, hBytes⟩ := exists_utf8_iff.mpr ((noSurrogate_listing_iff (isRead_of_mapM hFiles)).mpr
      fun file hFile => by
      obtain ⟨found, hFound, hMade⟩ := exists_of_mem_mapM hFiles hFile
      rw [(fields_of_inventoried hMade).1]
      exact (hNames found hFound).2)
    exact ⟨_, take_eq_ok_iff.mpr ⟨claims, externals, files, bytes, hClaims, hExternals, hFiles, hBytes, rfl⟩⟩

/-! ## Another order -/

theorem perm_of_mapM {ε α β : Type} {f : α → Except ε β} {l l' : List α} {bs bs' : List β}
    (h : l.mapM f = .ok bs) (h' : l'.mapM f = .ok bs') (hPerm : l.Perm l') : bs.Perm bs' := by
  have hOk {l : List α} {bs : List β} (h : l.mapM f = .ok bs) : bs.map Except.ok = l.map f :=
    map_of_mapM (fun a b hb => hb.symm) h
  have hInjective : Function.Injective (Except.ok : β → Except ε β) := fun b b' => Except.ok.inj
  apply (map_perm_map_iff hInjective).mp
  rw [hOk h, hOk h']
  exact hPerm.map f

namespace IsReordered

variable {other : Workspace}

section

variable (h : IsReordered workspace other)
include h

theorem externals : workspace.externals.Perm other.externals :=
  h.components.flatMap_right _

theorem unitIds (component : Component) : other.unitIds component = workspace.unitIds component := by
  rw [Workspace.unitIds, Workspace.unitIds, h.units]

theorem isAccountable (hOwn : IsAccountable tree workspace) : IsAccountable tree other where
  below entry hEntry := hOwn.below entry (h.externals.mem_iff.mpr hEntry)
  readable entry hEntry := hOwn.readable entry (h.externals.mem_iff.mpr hEntry)
  names component hComponent := hOwn.names component (h.components.mem_iff.mpr hComponent)

theorem inventoried_eq {claims' : List (Component × List Text)}
    (hClaims : IsClaims tree workspace claims) (hClaims' : IsClaims tree other claims') (path : Text)
    (content : List UInt8) :
    inventoried sha256 tree workspace claims path content =
      inventoried sha256 tree other claims' path content := by
  have hUnits : sortedSet ((claims.filter (path ∈ ·.2)).flatMap fun claim => workspace.unitIds claim.1) =
      sortedSet ((claims'.filter (path ∈ ·.2)).flatMap fun claim => other.unitIds claim.1) := by
    refine sortedSet_congr fun unit => ?_
    rw [← mem_sortedSet, mem_units_iff hClaims, ← mem_sortedSet, mem_units_iff hClaims']
    simp only [h.components.mem_iff, h.unitIds]
  have hRoots : other.generatedRoots = workspace.generatedRoots := by
    rw [Workspace.generatedRoots, Workspace.generatedRoots, h.builds]
  have hVendor : (path ∈ workspace.val.components.flatMap fun component =>
      component.val.vendor.flatMap tree.expand) ↔ path ∈ other.val.components.flatMap fun component =>
        component.val.vendor.flatMap tree.expand := by
    simp only [mem_flatMap, h.components.mem_iff]
  have hRole : tree.role (workspace.val.components.flatMap fun component =>
      component.val.vendor.flatMap tree.expand) workspace.generatedRoots path =
        tree.role (other.val.components.flatMap fun component =>
          component.val.vendor.flatMap tree.expand) other.generatedRoots path := by
    unfold role
    simp only [hRoots, hVendor]
  unfold inventoried
  rw [hUnits, hRole]

theorem take_same {inventory inventory' : SourceInventory}
    (hTake : take sha256 tree workspace = .ok inventory) (hTake' : take sha256 tree other = .ok inventory') :
    IsSameInventory inventory inventory' := by
  obtain ⟨claims, externals, files, bytes, hClaims, hExternals, hFiles, hBytes, rfl⟩ :=
    take_eq_ok_iff.mp hTake
  obtain ⟨claims', externals', files', bytes', hClaims', hExternals', hFiles', hBytes', rfl⟩ :=
    take_eq_ok_iff.mp hTake'
  have hListed : listedPaths tree claims' = listedPaths tree claims := by
    unfold listedPaths
    rw [sortedSet_congr fun path => ?_]
    rw [mem_claimed_iff hClaims', mem_claimed_iff hClaims]
    simp only [h.components.mem_iff]
  obtain rfl : files' = files := by
    rw [hListed, ← mapM_congr fun found _ => h.inventoried_eq hClaims hClaims' found.1 found.2] at hFiles'
    exact Except.ok.inj (hFiles'.symm.trans hFiles)
  obtain rfl : bytes' = bytes := Except.ok.inj (hBytes'.symm.trans hBytes)
  exact
    { workspaceId := h.id
      files := rfl
      unreadable := by rw [hListed]
      generatedRoots := by rw [Workspace.generatedRoots, Workspace.generatedRoots, h.builds]
      digest := rfl
      externals := perm_of_mapM hExternals hExternals' h.externals }

end

end IsReordered

theorem fileAt_of_take (h : take sha256 tree workspace = .ok inventory)
    {path : Text} {file : InventoriedFile} :
    inventory.fileAt path = some file ↔ file ∈ inventory.files ∧ file.val.path = path :=
  get?_byPath_iff (isAccounted_of_take h).once.of_append_left

theorem externalAt_of_take (h : take sha256 tree workspace = .ok inventory)
    {path : Text} {external : ExternalInput} :
    inventory.externalAt path = some external ↔
      external ∈ inventory.externals ∧ external.val.path = path := by
  have hMade : ∀ other ∈ inventory.externals, tree.external sha256 other.val.path = .ok other := by
    obtain ⟨claims, externals, files, bytes, -, hExternals, -, -, rfl⟩ := take_eq_ok_iff.mp h
    intro other hOther
    obtain ⟨entry, -, hEntry⟩ := exists_of_mem_mapM hExternals hOther
    rwa [path_of_external hEntry]
  unfold SourceInventory.externalAt byPath
  constructor
  · intro hFound
    rcases Dict.mem_of_mem_setAll (Dict.mem_of_get? hFound) with hOld | hNew
    · cases hOld
    · obtain ⟨other, hOther, hPair⟩ := mem_map.mp hNew
      cases hPair
      exact ⟨hOther, rfl⟩
  · rintro ⟨hExternal, rfl⟩
    refine Dict.get?_setAll_of_forall ?_ ?_
    · intro pair hPair hPath
      obtain ⟨other, hOther, rfl⟩ := mem_map.mp hPair
      have hSame := hMade other hOther
      rw [show other.val.path = external.val.path from hPath, hMade external hExternal] at hSame
      exact (Except.ok.inj hSame).symm
    · exact ⟨(external.val.path, external), mem_map_of_mem hExternal, rfl⟩

/-- An inventory is taken that accounts for every claimed file, whatever the order of the components. -/
structure Accounts (sha256 : FullSha256) (tree : SourceTree) (workspace : Workspace)
    (inventory : SourceInventory) : Prop where
  taken : take sha256 tree workspace = .ok inventory
  accounted : IsAccounted tree workspace inventory
  reordered : ∀ other, IsReordered workspace other →
    ∃ inventory', take sha256 tree other = .ok inventory' ∧ IsSameInventory inventory inventory'
  fileAt : ∀ path file, inventory.fileAt path = some file ↔ file ∈ inventory.files ∧ file.val.path = path
  externalAt : ∀ path external, inventory.externalAt path = some external ↔
    external ∈ inventory.externals ∧ external.val.path = path

theorem exists_accounts_iff :
    (∃ inventory, Accounts sha256 tree workspace inventory) ↔ IsAccountable tree workspace := by
  constructor
  · rintro ⟨inventory, h⟩
    exact exists_take_iff.mp ⟨inventory, h.taken⟩
  · intro h
    obtain ⟨inventory, hTake⟩ : ∃ inventory, take sha256 tree workspace = .ok inventory :=
      exists_take_iff.mpr h
    refine ⟨inventory, hTake, isAccounted_of_take hTake, fun other hOther => ?_,
      fun _ _ => fileAt_of_take hTake, fun _ _ => externalAt_of_take hTake⟩
    obtain ⟨inventory', hTake'⟩ := exists_take_iff.mpr (hOther.isAccountable h)
    exact ⟨inventory', hTake', hOther.take_same hTake hTake'⟩

/-- Every claimed file is accounted for exactly where the claimed names are canonical and the external
    inputs can be read, and a difference tells all but a change of units or sizes alone. -/
theorem inventory_accounts_iff (sha256 : FullSha256) (tree : SourceTree) (workspace : Workspace) :
    ((∃ inventory, Accounts sha256 tree workspace inventory) ↔ IsAccountable tree workspace) ∧
      (∀ inventory, (diff inventory inventory).stable) ∧
      ∀ before after, (EntriesDiffer before after → ¬(diff before after).stable) ↔
        ¬DifferOnlyInUnits before after :=
  ⟨exists_accounts_iff, stable_diff_self, fun _ _ => differ_imp_unstable_iff⟩

section Churn

def linkedCheckout (linked : Bool) : SourceTree where
  root := .parse (py "/w")
  rootGlob pattern :=
    if pattern = py "src/*" then [.parse (py "/w/src/a.c")]
    else if pattern = py "lib/*" ∧ linked = true then [.parse (py "/w/lib/a.c")] else []
  glob _ := []
  rglob _ := []
  node path :=
    if path = .parse (py "/w/src/a.c") ∨ (path = .parse (py "/w/lib/a.c") ∧ linked = true) then .file
    else .missing
  inside path :=
    if path = .parse (py "/w/lib/a.c") then some (.parse (py "src/a.c"))
    else path.relativeTo (.parse (py "/w"))
  content path := if path = .parse (py "/w/src/a.c") then .ok [0x61] else .error ⟨py "FileNotFoundError", []⟩
  rglob_below := (checkoutOf (py "/w") [] []).rglob_below

def linkedWorkspace : Workspace :=
  ⟨{ id := py "w", name := py "w"
     components :=
       [⟨{ id := py "a", root := py ".", languages := [py "c"], sources := [py "src/*"] }, by decide +kernel⟩,
        ⟨{ id := py "b", root := py ".", languages := [py "c"], sources := [py "lib/*"] }, by decide +kernel⟩]
     analysisUnits :=
       [⟨{ id := py "u", componentId := py "a", language := py "c" }, by decide +kernel⟩,
        ⟨{ id := py "v", componentId := py "b", language := py "c" }, by decide +kernel⟩] },
    by decide +kernel⟩

/-- A padded name is refused, an external input that cannot be read is not caught, and a file that one
    component claims no longer leaves the difference stable. -/
theorem inventory_misses_files_and_churn :
    (¬∃ inventory, take frontDigest (checkoutOf (py "/w") [(py " a.c", [0x61])] [0x62]) checkoutWorkspace =
      .ok inventory) ∧
    (¬∃ inventory, take frontDigest
      { checkoutOf (py "/w") [(py "a.c", [0x61])] [0x62] with
        content := fun _ => .error ⟨py "PermissionError", []⟩ } checkoutWorkspace = .ok inventory) ∧
    ∃ before after, take frontDigest (linkedCheckout true) linkedWorkspace = .ok before ∧
      take frontDigest (linkedCheckout false) linkedWorkspace = .ok after ∧
      before.files.map (·.val.units) = [[py "u", py "v"]] ∧ after.files.map (·.val.units) = [[py "u"]] ∧
      EntriesDiffer before after ∧ (diff before after).stable := by
  have hNone {r : Result SourceInventory} (h : r.toOption.isSome = false) :
      ¬∃ inventory, r = .ok inventory := by
    rintro ⟨inventory, rfl⟩
    cases h
  have hTake : (take frontDigest (linkedCheckout true) linkedWorkspace).map
      (fun before => (before.files.map (·.val.units), (before.fileAt (py "src/a.c")).map (·.val.units))) =
        .ok ([[py "u", py "v"]], some [py "u", py "v"]) := by
    decide +kernel
  have hTake' : (take frontDigest (linkedCheckout false) linkedWorkspace).map
      (fun after => (after.files.map (·.val.units), (after.fileAt (py "src/a.c")).map (·.val.units))) =
        .ok ([[py "u"]], some [py "u"]) := by
    decide +kernel
  have hDrift : ((take frontDigest (linkedCheckout true) linkedWorkspace).bind fun before =>
      (take frontDigest (linkedCheckout false) linkedWorkspace).map (diff before)) = .ok {} := by
    decide +kernel
  refine ⟨hNone (by decide +kernel), hNone (by decide +kernel), ?_⟩
  obtain ⟨before, hBefore, hUnits⟩ := map_eq_ok.mp hTake
  obtain ⟨after, hAfter, hUnits'⟩ := map_eq_ok.mp hTake'
  rw [hBefore, hAfter] at hDrift
  refine ⟨before, after, hBefore, hAfter, congrArg Prod.fst hUnits, congrArg Prod.fst hUnits',
    ⟨py "src/a.c", .inl fun hSame => ?_⟩, ?_⟩
  · have hFile : (after.fileAt (py "src/a.c")).map (·.val.units) = some [py "u", py "v"] :=
      hSame ▸ congrArg Prod.snd hUnits
    exact absurd (hFile.symm.trans (congrArg Prod.snd hUnits')) (by decide)
  · rw [show diff before after = {} from Except.ok.inj hDrift]
    decide

end Churn

end Inventory

end Ici
