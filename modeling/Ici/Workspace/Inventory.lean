import Ici.Execution.CacheStoring

/-! # The files a workspace's globs name, hashed once each

The file system is a value: what a glob matches, what a path is, where it resolves to, what it holds. -/

namespace Ici

open Python

abbrev FullDigest := { digest : HexText // digest.val.length = 64 }

abbrev FullSha256 := List UInt8 → FullDigest

/-- `_hash`, of what was read. -/
def FullSha256.text (sha256 : FullSha256) (content : List UInt8) : Text :=
  py "sha256:" ++ (sha256 content).val.val

def sortedSet (items : List Text) : List Text := items.dedup.insertionSort (· ≤ ·)

def Workspace.generatedRoots (workspace : Workspace) : List Text :=
  sortedSet ((workspace.val.builds.map (·.val.directory)).filter (· ≠ []))

def Workspace.externals (workspace : Workspace) : List Text :=
  workspace.val.components.flatMap (·.val.external)

def Workspace.unitIds (workspace : Workspace) (component : Component) : List Text :=
  (workspace.val.analysisUnits.filter (·.val.componentId = component.val.id)).map (·.val.id)

namespace Inventory

inductive SourceRole where
  | source
  | vendor
  | generated
deriving DecidableEq

def SourceRole.value : SourceRole → Text
  | source => py "source"
  | vendor => py "vendor"
  | generated => py "generated"

structure InventoriedFileFields where
  path : Text
  role : SourceRole
  digest : Text
  size : ℕ
  units : List Text
deriving DecidableEq

def InventoriedFileFields.check (file : InventoriedFileFields) : Result Unit := do
  requireRelativePath file.path (py "inventoried file") false
  requireDigest file.digest (py "file digest")

abbrev InventoriedFile := Checked InventoriedFileFields.check

structure ExternalInputFields where
  path : Text
  present : Bool
  digest : Option Text := none
  files : List Text := []
deriving DecidableEq

def ExternalInputFields.check (external : ExternalInputFields) : Result Unit := do
  requireText external.path (py "external input")
  external.digest.toList.forM (requireDigest · (py "external input digest"))
  refuseIf (external.present = false ∧ external.digest ≠ none)
    (py "an absent external input cannot carry a digest")

abbrev ExternalInput := Checked ExternalInputFields.check

structure SourceInventory where
  workspaceId : Text
  files : List InventoriedFile
  externals : List ExternalInput
  generatedRoots : List Text
  unreadable : List Text
  digest : Text
deriving DecidableEq

/-- `snapshot`: the identity a run result carries. -/
def SourceInventory.snapshot (inventory : SourceInventory) (commit : Option Text) (dirty : Bool) :
    Result SourceSnapshot :=
  Checked.construct SourceSnapshotFields.check
    { digest := inventory.digest
      files := inventory.files.map (·.val.path)
      generated := (inventory.files.filter (·.val.role = .generated)).map (·.val.path)
      externalInputs := inventory.externals.map (·.val.path)
      commit, dirty }

/-! ## The file system -/

inductive Node where
  | missing
  | file
  | directory
  | other
deriving DecidableEq

structure SourceTree where
  root : PurePath
  rootGlob : Text → List PurePath
  /-- `glob(pattern, recursive=True)`, for a pattern that is a path from the top. -/
  glob : Text → List PurePath
  rglob : PurePath → List PurePath
  node : PurePath → Node
  /-- `path.resolve().relative_to(root.resolve())`, where it does not raise. -/
  inside : PurePath → Option PurePath
  /-- The bytes of a file, or the `OSError` of reading it. -/
  content : PurePath → Result (List UInt8)
  rglob_below : ∀ directory, ∀ path ∈ rglob directory, directory.names.length < path.names.length

namespace SourceTree

variable (tree : SourceTree)

/-- A declared path: its own where it is absolute, below the root otherwise. -/
def candidate (entry : Text) : PurePath := tree.root.join (.parse entry)

def expand (pattern : Text) : List Text :=
  let patterns :=
    if (py "/**").isSuffixOf pattern = true ∨ pattern = py "**" then [pattern, pattern ++ py "/*"]
    else [pattern]
  let matched :=
    if PurePosixPath.isAbsolute pattern then patterns.flatMap tree.glob else patterns.flatMap tree.rootGlob
  (matched.filter (tree.node · = .file)).filterMap fun path => (tree.inside path).map (·.asPosix)

def relativeToRoot (path : PurePath) : Result Text :=
  match path.relativeTo tree.root with
  | some relative => .ok relative.asPosix
  | none => .error (valueError (pyRepr path.asPosix ++ py " is not in the subpath of " ++
      pyRepr tree.root.asPosix))

/-- `_externals_inside`, for one entry. -/
def externalInside (entry : Text) : Result (List Text) :=
  match tree.inside (tree.candidate entry) with
  | none => .ok []
  | some relative =>
    match tree.node (tree.candidate entry) with
    | .file => .ok [relative.asPosix]
    | .directory =>
      ((tree.rglob (tree.candidate entry)).filter (tree.node · = .file)).mapM tree.relativeToRoot
    | _ => .ok []

def owned (component : Component) : Result (List Text) :=
  let excluded := component.val.exclude.flatMap tree.expand
  (component.val.external.mapM tree.externalInside).map fun inside =>
    ((component.val.sources ++ component.val.include').flatMap tree.expand).filter (· ∉ excluded) ++
      inside.flatten

def members (directory : PurePath) : List Text :=
  (((tree.rglob directory).filter (tree.node · = .file)).map (·.asPosix)).insertionSort (· ≤ ·)

def memberBytes (sha256 : FullSha256) (member : Text) : Result (List UInt8) :=
  (tree.content (.parse member)).bind fun content =>
    (utf8 member).bind fun name => (utf8 (sha256.text content)).map fun digest => name ++ 0 :: digest

def external (sha256 : FullSha256) (entry : Text) : Result ExternalInput :=
  match tree.node (tree.candidate entry) with
  | .missing => Checked.construct ExternalInputFields.check { path := entry, present := false }
  | .directory =>
    ((tree.members (tree.candidate entry)).mapM (tree.memberBytes sha256)).bind fun parts =>
      Checked.construct ExternalInputFields.check
        { path := entry, present := true, digest := some (sha256.text parts.flatten)
          files := tree.members (tree.candidate entry) }
  | _ =>
    (tree.content (tree.candidate entry)).bind fun content =>
      Checked.construct ExternalInputFields.check
        { path := entry, present := true, digest := some (sha256.text content), files := [entry] }

/-- `_role`: a build output is one whatever else names it. -/
def role (vendor generatedRoots : List Text) (path : Text) : SourceRole :=
  if generatedRoots.any fun directory =>
      ((tree.candidate path).relativeTo (tree.candidate directory)).isSome then .generated
  else if path ∈ vendor then .vendor
  else .source

end SourceTree

def entryLine (file : InventoriedFile) : Text :=
  file.val.role.value ++ py "\t" ++ file.val.digest ++ py "\t" ++ file.val.path

def listing (files : List InventoriedFile) : Text := join (py "\n") (files.map entryLine)

section

variable (sha256 : FullSha256) (tree : SourceTree) (workspace : Workspace)

def inventoried (claims : List (Component × List Text)) (path : Text) (content : List UInt8) : Result InventoriedFile :=
  Checked.construct InventoriedFileFields.check
    { path
      role := tree.role (workspace.val.components.flatMap fun component =>
        component.val.vendor.flatMap tree.expand) workspace.generatedRoots path
      digest := sha256.text content
      size := content.length
      units := sortedSet ((claims.filter (path ∈ ·.2)).flatMap fun claim => workspace.unitIds claim.1) }

def take : Result SourceInventory := do
  let claims ← workspace.val.components.mapM fun component =>
    (tree.owned component).map fun paths => (component, paths)
  let paths := (sortedSet (claims.flatMap Prod.snd)).filter fun path => tree.node (tree.candidate path) =
    .file
  let read := paths.filterMap fun path =>
    (tree.content (tree.candidate path)).toOption.map fun content => (path, content)
  let externals ← workspace.externals.mapM (tree.external sha256)
  let files ← read.mapM fun found => inventoried sha256 tree workspace claims found.1 found.2
  let bytes ← utf8 (listing files)
  return {
    workspaceId := workspace.val.id
    files, externals
    generatedRoots := workspace.generatedRoots
    unreadable := paths.filter fun path => (tree.content (tree.candidate path)).toOption.isNone
    digest := sha256.text bytes }

end

end Inventory

end Ici

/-! ## What changed between two inventories -/

open Dict

namespace Ici

namespace Inventory

open Option List Python

section Tables

variable {α β : Type}

/-- `{item.path: item for item in items}`. -/
def byPath (path : α → Text) (items : List α) : Dict Text α :=
  Dict.setAll [] (items.map fun item => (path item, item))

/-- `sorted(path for path in table if path not in other)`. -/
def pathsMissing (table other : Dict Text α) : List Text :=
  (table.keys.filter (· ∉ other.keys)).insertionSort (· ≤ ·)

section

variable [DecidableEq β] (shows : α → β) (earlier later : Dict Text α)

def pathsChanged : List Text :=
  ((earlier.keys.filter (· ∈ later.keys)).filter fun path =>
    (earlier.get? path).map shows ≠ (later.get? path).map shows).insertionSort (· ≤ ·)

theorem insertionSort_filter_eq_nil_iff {p : Text → Bool} {l : List Text} :
    (l.filter p).insertionSort (· ≤ ·) = [] ↔ ∀ path ∈ l, p path = false := by
  rw [← length_eq_zero_iff, length_insertionSort, length_eq_zero_iff, filter_eq_nil_iff]
  simp only [Bool.not_eq_true]

theorem pathsMissing_eq_nil_iff {table other : Dict Text α} :
    pathsMissing table other = [] ↔ ∀ path ∈ table.keys, path ∈ other.keys := by
  rw [pathsMissing, insertionSort_filter_eq_nil_iff]
  simp only [decide_eq_false_iff_not, not_not]

theorem pathsChanged_eq_nil_iff [DecidableEq β] {shows : α → β} {earlier later : Dict Text α} :
    pathsChanged shows earlier later = [] ↔ ∀ path ∈ earlier.keys, path ∈ later.keys →
        (earlier.get? path).map shows = (later.get? path).map shows := by
  rw [pathsChanged, insertionSort_filter_eq_nil_iff]
  simp only [mem_filter, decide_eq_true_eq, decide_eq_false_iff_not, not_not, and_imp]

theorem tables_agree_iff : (pathsMissing later earlier = [] ∧ pathsMissing earlier later = [] ∧
      pathsChanged shows earlier later = []) ↔
      ∀ path, (earlier.get? path).map shows = (later.get? path).map shows := by
  rw [pathsMissing_eq_nil_iff, pathsMissing_eq_nil_iff, pathsChanged_eq_nil_iff]
  constructor
  · rintro ⟨hLater, hEarlier, hBoth⟩ path
    by_cases hPath : path ∈ earlier.keys
    · exact hBoth path hPath (hEarlier path hPath)
    · have hOther : path ∉ later.keys := fun h => hPath (hLater path h)
      rw [(get?_eq_none_iff earlier path).mpr hPath, (get?_eq_none_iff later path).mpr hOther]
  · intro h
    have hNone (path : Text) : earlier.get? path = none ↔ later.get? path = none := by
      rw [← map_eq_none_iff (f := shows), h path, map_eq_none_iff]
    have hKeys (path : Text) : path ∈ earlier.keys ↔ path ∈ later.keys := by
      rw [← not_iff_not, ← get?_eq_none_iff, ← get?_eq_none_iff, hNone path]
    exact ⟨fun path => (hKeys path).mpr, fun path => (hKeys path).mp, fun path _ _ => h path⟩

end

theorem get?_byPath_iff {path : α → Text} {items : List α} (hNodup : (items.map path).Nodup) {key : Text}
    {item : α} : (byPath path items).get? key = some item ↔ item ∈ items ∧ path item = key := by
  have hKeys : Dict.keys (items.map fun item => (path item, item)) = items.map path := by
    rw [Dict.keys, List.map_map]
    rfl
  have hAll : byPath path items = items.map fun item => (path item, item) := by
    have hNew : (Dict.keys ([] : Dict Text α) ++
        Dict.keys (items.map fun item => (path item, item))).Nodup := by
      rwa [hKeys, Dict.keys, map_nil, nil_append]
    rw [byPath, setAll_eq_append hNew, nil_append]
  rw [hAll]
  constructor
  · intro h
    obtain ⟨other, hOther, hPair⟩ := mem_map.mp (mem_of_get? h)
    cases hPair
    exact ⟨hOther, rfl⟩
  · rintro ⟨hItem, rfl⟩
    exact get?_of_mem (hKeys.symm ▸ hNodup) (mem_map_of_mem hItem)

end Tables

structure InventoryDiff where
  added : List Text := []
  removed : List Text := []
  changed : List Text := []
  roleChanged : List Text := []
  externalsAdded : List Text := []
  externalsRemoved : List Text := []
  externalsChanged : List Text := []
deriving DecidableEq

def InventoryDiff.stable (drift : InventoryDiff) : Prop :=
  ¬(drift.added ≠ [] ∨ drift.removed ≠ [] ∨ drift.changed ≠ [] ∨ drift.roleChanged ≠ [] ∨
    drift.externalsAdded ≠ [] ∨ drift.externalsRemoved ≠ [] ∨ drift.externalsChanged ≠ [])

instance (drift : InventoryDiff) : Decidable drift.stable := inferInstanceAs (Decidable (¬_))

def diff (before after : SourceInventory) : InventoryDiff :=
  let earlier := byPath (fun file : InventoriedFile => file.val.path) before.files
  let later := byPath (fun file : InventoriedFile => file.val.path) after.files
  let earlierExternal := byPath (fun external : ExternalInput => external.val.path) before.externals
  let laterExternal := byPath (fun external : ExternalInput => external.val.path) after.externals
  { added := pathsMissing later earlier
    removed := pathsMissing earlier later
    changed := pathsChanged (·.val.digest) earlier later
    roleChanged := pathsChanged (·.val.role) earlier later
    externalsAdded := pathsMissing laterExternal earlierExternal
    externalsRemoved := pathsMissing earlierExternal laterExternal
    externalsChanged := pathsChanged id earlierExternal laterExternal }

namespace SourceInventory

def fileAt (inventory : SourceInventory) (path : Text) : Option InventoriedFile :=
  (byPath (fun file : InventoriedFile => file.val.path) inventory.files).get? path

def externalAt (inventory : SourceInventory) (path : Text) : Option ExternalInput :=
  (byPath (fun external : ExternalInput => external.val.path) inventory.externals).get? path

def EntriesDiffer (before after : SourceInventory) : Prop :=
  ∃ path, before.fileAt path ≠ after.fileAt path ∨ before.externalAt path ≠ after.externalAt path

/-- What two entries of one path show to `diff`. -/
def seen (file : InventoriedFile) : Text × SourceRole := (file.val.digest, file.val.role)

/-- Entries differ, and only in the units that claim a file or in its size. -/
def DifferOnlyInUnits (before after : SourceInventory) : Prop :=
  EntriesDiffer before after ∧ (∀ path, (before.fileAt path).map seen = (after.fileAt path).map seen) ∧
    ∀ path, before.externalAt path = after.externalAt path

end SourceInventory

open SourceInventory

theorem pathsChanged_seen {earlier later : Dict Text InventoriedFile} :
    pathsChanged seen earlier later = [] ↔ pathsChanged (·.val.digest) earlier later = [] ∧
      pathsChanged (·.val.role) earlier later = [] := by
  simp only [pathsChanged_eq_nil_iff]
  constructor
  · intro h
    have hPart {β : Type} (part : Text × SourceRole → β) (path : Text) (hEarlier : path ∈ earlier.keys)
        (hLater : path ∈ later.keys) :
        (earlier.get? path).map (part ∘ seen) = (later.get? path).map (part ∘ seen) := by
      rw [← Option.map_map, ← Option.map_map, h path hEarlier hLater]
    exact ⟨hPart Prod.fst, hPart Prod.snd⟩
  · rintro ⟨hDigest, hRole⟩ path hEarlier hLater
    have hDigest := hDigest path hEarlier hLater
    have hRole := hRole path hEarlier hLater
    cases hFile : earlier.get? path <;> cases hOther : later.get? path <;>
      simp_all only [map_none, map_some, some.injEq, reduceCtorEq, seen]

theorem stable_diff_iff {before after : SourceInventory} :
    (diff before after).stable ↔ (∀ path, (before.fileAt path).map seen = (after.fileAt path).map seen) ∧
      ∀ path, before.externalAt path = after.externalAt path := by
  have hFiles := tables_agree_iff seen (byPath (fun file : InventoriedFile => file.val.path) before.files)
    (byPath (fun file : InventoriedFile => file.val.path) after.files)
  have hExternals := tables_agree_iff (id : ExternalInput → ExternalInput)
    (byPath (fun external : ExternalInput => external.val.path) before.externals)
    (byPath (fun external : ExternalInput => external.val.path) after.externals)
  simp only [Option.map_id_fun, id_eq] at hExternals
  rw [pathsChanged_seen] at hFiles
  simp only [fileAt, externalAt, ← hFiles, ← hExternals, InventoryDiff.stable, diff, not_or, not_not]
  tauto

theorem stable_diff_self (inventory : SourceInventory) : (diff inventory inventory).stable :=
  stable_diff_iff.mpr ⟨fun _ => rfl, fun _ => rfl⟩

theorem differ_imp_unstable_iff {before after : SourceInventory} :
    (EntriesDiffer before after → ¬(diff before after).stable) ↔ ¬DifferOnlyInUnits before after := by
  rw [stable_diff_iff, DifferOnlyInUnits]
  exact not_and.symm

end Inventory

end Ici
