import Ici.Workspace.Inventory

/-! # What the digest of an inventory identifies

The paths, roles and contents of its files; a declared external input by the digest listed for it. -/

namespace Ici

namespace Inventory

open Option List Raising Python Framing SourceTree MarkedLines Checked

/-! ## Entry lines -/

section

variable (mark : SourceRole × FullDigest)

def entryMark : Text :=
  mark.1.value ++ (py "\t" ++ (py "sha256:" ++ (mark.2.val.val ++ py "\t")))

theorem framed_role : Framed fun role : SourceRole => role.value ++ py "\t" := by
  refine framed_of_prefix fun role role' hPrefix => ?_
  cases role <;> cases role' <;> first
    | rfl
    | exact absurd hPrefix (by decide)

theorem framed_entryMark : Framed entryMark := by
  have hDigest : Framed fun digest : FullDigest => digest.val.val :=
    framed_of_length (fun _ _ h => Subtype.ext (Subtype.ext h)) fun digest => digest.property
  have hEnd : Framed fun _ : Unit => py "\t" := fun _ _ _ _ hEq => ⟨rfl, append_cancel_left hEq⟩
  intro mark mark' rest rest' hEq
  obtain ⟨hRole, hEq⟩ := framed_role mark.1 mark'.1
    (py "sha256:" ++ (mark.2.val.val ++ (py "\t" ++ rest))) (py "sha256:" ++ (mark'.2.val.val ++ (py "\t" ++
      rest')))
    (by simpa only [entryMark, append_assoc] using hEq)
  obtain ⟨hDigest, hEq⟩ := hDigest _ _ _ _ (append_cancel_left hEq)
  exact ⟨Prod.ext hRole hDigest, append_cancel_left hEq⟩

theorem newline_notMem_entryMark : (0x0a : CodePoint) ∉ entryMark mark := by
  have hRole : (0x0a : CodePoint) ∉ mark.1.value := by
    cases mark.1 <;> decide
  have hDigest : (0x0a : CodePoint) ∉ mark.2.val.val := fun h => absurd (mark.2.val.property _ h) (by decide)
  simp only [entryMark, mem_append, not_or]
  exact ⟨hRole, by decide, by decide, hDigest, by decide⟩

theorem entryMark_ne_nil : entryMark mark ≠ [] := by
  rw [entryMark]
  cases mark.1 <;> exact cons_ne_nil _ _

end

def HidesEntry (path : Text) : Prop := ∃ mark, (0x0a :: entryMark mark) <:+: path

structure IsRead (sha256 : FullSha256) (tree : SourceTree) (file : InventoriedFile) (content : List UInt8) :
    Prop where
  read : tree.content (tree.candidate file.val.path) = .ok content
  digest : file.val.digest = sha256.text content

variable {sha256 : FullSha256}

variable {tree : SourceTree}

theorem entryLine_eq {file : InventoriedFile} {content : List UInt8} (h : IsRead sha256 tree file content) :
    entryLine file = line entryMark ((file.val.role, sha256 content), file.val.path) := by
  simp only [entryLine, line, entryMark, h.digest, FullSha256.text, append_assoc]

/-- What building an inventory hashes: contents, the listing of the files,
    and directories of external files. -/
inductive Hashed (sha256 : FullSha256) (tree : SourceTree) (workspace : Workspace) : List UInt8 → Prop
  | content {path : PurePath} {content : List UInt8} :
      tree.content path = .ok content → Hashed sha256 tree workspace content
  | files {inventory : SourceInventory} {bytes : List UInt8} :
      take sha256 tree workspace = .ok inventory → utf8 (listing inventory.files) = .ok bytes →
        Hashed sha256 tree workspace bytes
  | members {entry : Text} {parts : List (List UInt8)} :
      entry ∈ workspace.externals → tree.node (tree.candidate entry) = .directory →
        (tree.members (tree.candidate entry)).mapM (tree.memberBytes sha256) = .ok parts →
          Hashed sha256 tree workspace parts.flatten

structure IsTaken (sha256 : FullSha256) (tree : SourceTree) (workspace : Workspace)
    (inventory : SourceInventory) :
    Prop where
  read : ∀ file ∈ inventory.files, ∃ content, IsRead sha256 tree file content
  externals : List.Forall₂ (fun entry external => tree.external sha256 entry = .ok external)
    workspace.externals inventory.externals
  digest : ∃ bytes, utf8 (listing inventory.files) = .ok bytes ∧ inventory.digest = sha256.text bytes

theorem isTaken_of_take {workspace : Workspace}
    {inventory : SourceInventory} (h : take sha256 tree workspace = .ok inventory) :
    IsTaken sha256 tree workspace inventory := by
  obtain ⟨claims, -, h⟩ := bind_eq_ok.mp h
  obtain ⟨externals, hExternals, h⟩ := bind_eq_ok.mp h
  obtain ⟨files, hFiles, h⟩ := bind_eq_ok.mp h
  obtain ⟨bytes, hBytes, h⟩ := bind_eq_ok.mp h
  cases h
  refine ⟨fun file hFile => ?_, mapM_eq_ok.mp hExternals, bytes, hBytes, rfl⟩
  obtain ⟨⟨path, content⟩, hFound, hFile⟩ := exists_of_mem_mapM hFiles hFile
  obtain ⟨path', -, hContent⟩ := mem_filterMap.mp hFound
  obtain ⟨content', hRead, hSame⟩ := map_eq_some_iff.mp hContent
  cases hSame
  have hFields := construct_eq_ok_iff.mp hFile
  refine ⟨content, ?_, ?_⟩
  · rw [hFields]
    cases hTree : tree.content (tree.candidate path) with
    | error _ => rw [hTree] at hRead; cases hRead
    | ok _ => rw [hTree] at hRead; rw [some_inj.mp hRead]
  · rw [hFields]

theorem FullSha256.text_inj {a b : List UInt8} (h : sha256.text a = sha256.text b) : sha256 a = sha256 b :=
  Subtype.ext (Subtype.ext (append_cancel_left h))

def SourceTree.entry (tree : SourceTree) (file : InventoriedFile) : Text × SourceRole × Result (List UInt8) :=
  (file.val.path, file.val.role, tree.content (tree.candidate file.val.path))

theorem listing_eq {files : List InventoriedFile}
    (h : ∀ file ∈ files, ∃ content, IsRead sha256 tree file content) :
    ∃ contents, List.Forall₂ (IsRead sha256 tree) files contents ∧ listing files = text entryMark 0x0a
        (zipWith (fun file content => ((file.val.role, sha256 content), file.val.path)) files contents)
          := by
  have hContents : ∃ contents, List.Forall₂ (IsRead sha256 tree) files contents := by
    induction files with
    | nil => exact ⟨[], .nil⟩
    | cons file files ih =>
      obtain ⟨hOwn, hRest⟩ := forall_mem_cons.mp h
      obtain ⟨content, hContent⟩ := hOwn
      obtain ⟨contents, hContents⟩ := ih hRest
      exact ⟨content :: contents, .cons hContent hContents⟩
  obtain ⟨contents, hContents⟩ := hContents
  refine ⟨contents, hContents, ?_⟩
  have hLines : files.map entryLine = (zipWith (fun file content =>
      ((file.val.role, sha256 content), file.val.path)) files contents).map (line entryMark) := by
    induction hContents with
    | nil => rfl
    | cons hContent _ ih =>
      rw [map_cons, zipWith_cons_cons, map_cons, entryLine_eq hContent,
        ih fun file hFile => h file (mem_cons_of_mem _ hFile)]
  rw [listing, hLines]
  rfl

theorem plain_entries {files : List InventoriedFile} {contents : List (List UInt8)}
    (h : ∀ file ∈ files, ¬HidesEntry file.val.path) :
    ∀ entry ∈ zipWith (fun file content => ((file.val.role, sha256 content), file.val.path))
      files contents,
      MarkedLines.Plain entryMark 0x0a entry.2 := by
  intro entry hEntry
  rw [← map_uncurry_zip_eq_zipWith] at hEntry
  obtain ⟨⟨file, content⟩, hZip, rfl⟩ := mem_map.mp hEntry
  exact fun mark hHidden => h file (of_mem_zip hZip).1 ⟨mark, hHidden⟩

theorem entries_eq {tree tree' : SourceTree} {files files' : List InventoriedFile}
    {contents contents' : List (List UInt8)} (hFiles : List.Forall₂ (IsRead sha256 tree) files contents)
    (hFiles' : List.Forall₂ (IsRead sha256 tree') files' contents')
    (hCollisionFree : ∀ file ∈ files, ∀ file' ∈ files', ∀ content content', IsRead sha256 tree file content →
      IsRead sha256 tree' file' content' → sha256 content = sha256 content' → content = content')
    (hEq : zipWith (fun file content => ((file.val.role, sha256 content), file.val.path))
      files contents =
      zipWith (fun file content => ((file.val.role, sha256 content), file.val.path)) files' contents') :
    files.map tree.entry = files'.map tree'.entry := by
  induction hFiles generalizing files' contents' with
  | nil =>
    cases hFiles' with
    | nil => rfl
    | cons _ _ => cases hEq
  | @cons file content files contents hRead hFiles ih =>
    cases hFiles' with
    | nil => cases hEq
    | @cons file' content' files' contents' hRead' hFiles' =>
      obtain ⟨hHead, hTail⟩ := cons.inj hEq
      obtain ⟨⟨hRole, hDigest⟩, hPath⟩ := Prod.mk.inj hHead |>.imp_left Prod.mk.inj
      obtain rfl := hCollisionFree file mem_cons_self file' mem_cons_self content content' hRead
        hRead'
        hDigest
      rw [map_cons, map_cons, ih hFiles' (fun other hOther other' hOther' => hCollisionFree other
        (mem_cons_of_mem _ hOther) other' (mem_cons_of_mem _ hOther')) hTail, entry,
        entry, hRead.read, hRead'.read, hRole, hPath]

/-! ## External inputs -/

/-- A declared external input as it was read: nothing where it is missing, else its files. -/
def SourceTree.readExternal (tree : SourceTree) (entry : Text) : Option (List (Text × Result (List UInt8))) :=
  match tree.node (tree.candidate entry) with
  | .missing => none
  | .directory => some ((tree.members (tree.candidate entry)).map fun member => (member,
    tree.content (.parse member)))
  | _ => some [(entry, tree.content (tree.candidate entry))]

theorem notMem_members (tree : SourceTree) (entry : Text) : entry ∉ tree.members (tree.candidate entry) := by
  intro hEntry
  obtain ⟨path, hPath, hText⟩ := mem_map.mp ((mem_insertionSort _).mp hEntry)
  have hBelow := tree.rglob_below _ path (mem_of_mem_filter hPath)
  rw [candidate, ← hText, PurePath.parse_asPosix, PurePath.join] at hBelow
  split at hBelow
  · exact lt_irrefl _ hBelow
  · rw [length_append] at hBelow
    omega

theorem length_utf8_text {content bytes : List UInt8}
    (h : utf8 (sha256.text content) = .ok bytes) : bytes.length = 71 := by
  have hAscii : ∀ c ∈ sha256.text content, c.val < 0x80 := by
    intro c hc
    rcases mem_append.mp hc with hFront | hDigest
    · have hAll : ((py "sha256:").all fun c => decide (c.val < 0x80)) = true := by decide
      exact of_decide_eq_true (all_eq_true.mp hAll c hFront)
    · have hHex := (sha256 content).val.property c hDigest
      simp only [isHexChar, Bool.or_eq_true, Bool.and_eq_true, decide_eq_true_eq] at hHex
      omega
  have hChars : (sha256.text content).flatMap utf8Char = (sha256.text content).map fun c => .ofNat c.val := by
    rw [map_eq_flatMap]
    exact flatMap_congr fun c hc => if_pos (hAscii c hc)
  rw [utf8_eq_ok h, hChars, length_map, FullSha256.text, length_append, (sha256 content).property]
  rfl

theorem memberBytes_eq_ok {member : Text} {part : List UInt8}
    (h : tree.memberBytes sha256 member = .ok part) :
    ∃ content name digest, tree.content (.parse member) = .ok content ∧ utf8 member = .ok name ∧
      utf8 (sha256.text content) = .ok digest ∧ part = name ++ 0 :: digest := by
  obtain ⟨content, hContent, h⟩ := bind_eq_ok.mp h
  obtain ⟨name, hName, h⟩ := bind_eq_ok.mp h
  obtain ⟨digest, hDigest, rfl⟩ := map_eq_ok.mp h
  exact ⟨content, name, digest, hContent, hName, hDigest, rfl⟩

theorem members_eq {tree tree' : SourceTree} {members : List Text} {parts parts' : List (List UInt8)}
    (hParts : List.Forall₂ (fun member part => tree.memberBytes sha256 member = .ok part) members parts)
    (hParts' : List.Forall₂ (fun member part => tree'.memberBytes sha256 member = .ok part) members parts')
    (hCollisionFree : ∀ path content content', tree.content path = .ok content → tree'.content path =
      .ok content' →
      sha256 content = sha256 content' → content = content')
    (hEq : parts.flatten = parts'.flatten) :
    ∀ member ∈ members, tree.content (.parse member) = tree'.content (.parse member) := by
  induction hParts generalizing parts' with
  | nil => exact fun _ h => absurd h not_mem_nil
  | @cons member part members parts hPart hParts ih =>
    cases hParts' with
    | @cons _ part' _ parts' hPart' hParts' =>
      obtain ⟨content, name, digest, hContent, hName, hDigest, rfl⟩ := memberBytes_eq_ok hPart
      obtain ⟨content', name', digest', hContent', hName', hDigest', rfl⟩ := memberBytes_eq_ok hPart'
      obtain rfl : name = name' := Except.ok.inj (hName.symm.trans hName')
      rw [flatten_cons, flatten_cons, append_assoc, append_assoc] at hEq
      obtain ⟨hSame, hRest⟩ := append_inj (cons.inj (append_cancel_left hEq)).2
        ((length_utf8_text hDigest).trans (length_utf8_text hDigest').symm)
      subst hSame
      have hText : sha256.text content = sha256.text content' :=
        utf8_injective ((utf8_eq_ok hDigest).symm.trans (utf8_eq_ok hDigest'))
      obtain rfl := hCollisionFree _ content content' hContent hContent' (FullSha256.text_inj hText)
      exact forall_mem_cons.mpr ⟨hContent.trans hContent'.symm, ih hParts' hRest⟩

inductive IsListed (sha256 : FullSha256) (tree : SourceTree) (entry : Text) (external : ExternalInput) : Prop
  | missing : external.val.present = false → tree.readExternal entry = none →
    IsListed sha256 tree entry external
  | directory {parts : List (List UInt8)} :
      tree.node (tree.candidate entry) = .directory → external.val.present = true → external.val.files =
        tree.members (tree.candidate entry) →
        external.val.digest = some (sha256.text parts.flatten) →
          (tree.members (tree.candidate entry)).mapM (tree.memberBytes sha256) = .ok parts →
            tree.readExternal entry = some ((tree.members (tree.candidate entry)).map fun member =>
              (member, tree.content (.parse member))) → IsListed sha256 tree entry external
  | file {content : List UInt8} :
      external.val.present = true → external.val.files = [entry] →
        external.val.digest = some (sha256.text content) → tree.content (tree.candidate entry) = .ok content →
          tree.readExternal entry = some [(entry, .ok content)] → IsListed sha256 tree entry external

section

variable {sha256 : FullSha256} {tree : SourceTree} {entry : Text} {external : ExternalInput}
  (h : tree.external sha256 entry = .ok external)
include h

theorem isListed_of_external : IsListed sha256 tree entry external := by
  unfold SourceTree.external at h
  split at h
  · rename_i hNode
    have hFields := construct_eq_ok_iff.mp h
    exact .missing (by rw [hFields]) (by rw [readExternal, hNode])
  · rename_i hNode
    obtain ⟨parts, hParts, h⟩ := bind_eq_ok.mp h
    have hFields := construct_eq_ok_iff.mp h
    exact .directory hNode (by rw [hFields]) (by rw [hFields]) (by rw [hFields]) hParts
      (by rw [readExternal, hNode])
  · rename_i hFile hDirectory
    obtain ⟨content, hContent, h⟩ := bind_eq_ok.mp h
    have hFields := construct_eq_ok_iff.mp h
    refine .file (by rw [hFields]) (by rw [hFields]) (by rw [hFields]) hContent ?_
    unfold readExternal
    split
    · rename_i hNode
      exact absurd hNode hFile
    · rename_i hNode
      exact absurd hNode hDirectory
    · rw [hContent]

omit h in
theorem external_eq {sha256 : FullSha256} {tree tree' : SourceTree} {workspace workspace' : Workspace}
    {entry : Text} {external : ExternalInput} (hEntry : entry ∈ workspace.externals)
    (hEntry' : entry ∈ workspace'.externals) (h : tree.external sha256 entry = .ok external)
    (h' : tree'.external sha256 entry = .ok external)
    (hCollisionFree : Set.InjOn sha256
      {bytes | Hashed sha256 tree workspace bytes ∨ Hashed sha256 tree' workspace' bytes}) :
    tree.readExternal entry = tree'.readExternal entry := by
  have hContents {path path' : PurePath} {content content' : List UInt8} (hContent : tree.content path =
    .ok content)
      (hContent' : tree'.content path' = .ok content') (hSame : sha256 content = sha256 content') :
      content = content' :=
    hCollisionFree (.inl (.content hContent)) (.inr (.content hContent')) hSame
  cases isListed_of_external h with
  | missing hAbsent hRead =>
    cases isListed_of_external h' with
    | missing _ hRead' => rw [hRead, hRead']
    | directory _ hPresent | file hPresent => exact absurd (hPresent.symm.trans hAbsent) (by decide)
  | @directory parts hNode hPresent hFiles hDigest hParts hRead =>
    cases isListed_of_external h' with
    | missing hAbsent => exact absurd (hPresent.symm.trans hAbsent) (by decide)
    | @directory parts' hNode' _ hFiles' hDigest' hParts' hRead' =>
      have hMembers := hFiles.symm.trans hFiles'
      have hBytes : parts.flatten = parts'.flatten :=
        hCollisionFree (.inl (.members hEntry hNode hParts)) (.inr (.members hEntry' hNode' hParts'))
          (FullSha256.text_inj (some_inj.mp (hDigest.symm.trans hDigest')))
      rw [hRead, hRead', ← hMembers]
      refine congrArg some (map_congr_left fun member hMember => ?_)
      rw [members_eq (mapM_eq_ok.mp hParts) (mapM_eq_ok.mp (hMembers ▸ hParts'))
        (fun _ _ _ hContent hContent' => hContents hContent hContent') hBytes member hMember]
    | file _ hFiles' =>
      refine absurd ?_ (notMem_members tree entry)
      rw [← hFiles, hFiles']
      exact mem_singleton_self entry
  | file hPresent hFiles hDigest hContent hRead =>
    cases isListed_of_external h' with
    | missing hAbsent => exact absurd (hPresent.symm.trans hAbsent) (by decide)
    | directory _ _ hFiles' =>
      refine absurd ?_ (notMem_members tree' entry)
      rw [← hFiles', hFiles]
      exact mem_singleton_self entry
    | file _ _ hDigest' hContent' hRead' =>
      rw [hRead, hRead', hContents hContent hContent'
        (FullSha256.text_inj (some_inj.mp (hDigest.symm.trans hDigest')))]

theorem path_of_external : external.val.path = entry := by
  unfold SourceTree.external at h
  split at h
  · rw [construct_eq_ok_iff.mp h]
  all_goals
    obtain ⟨_, -, h⟩ := bind_eq_ok.mp h
    rw [construct_eq_ok_iff.mp h]

end

theorem externals_shared {sha256 : FullSha256} {tree tree' : SourceTree} {entries entries' : List Text}
    {externals : List ExternalInput}
    (h : List.Forall₂ (fun entry external => tree.external sha256 entry = .ok external) entries externals)
    (h' : List.Forall₂ (fun entry external => tree'.external sha256 entry = .ok external) entries' externals) :
    entries = entries' ∧ ∀ entry ∈ entries, ∃ external, tree.external sha256 entry = .ok external ∧
      tree'.external sha256 entry = .ok external := by
  induction h generalizing entries' with
  | nil =>
    cases h'
    exact ⟨rfl, fun _ h => absurd h not_mem_nil⟩
  | @cons entry external entries externals hOwn _ ih =>
    cases h' with
    | @cons entry' _ entries' _ hOwn' h' =>
      obtain ⟨rfl, hAll⟩ := ih h'
      obtain rfl : entry = entry' := (path_of_external hOwn).symm.trans (path_of_external hOwn')
      exact ⟨rfl, forall_mem_cons.mpr ⟨⟨external, hOwn, hOwn'⟩, hAll⟩⟩

/-! ## The digest -/

section Checkouts

def checkoutOf (root : Text) (files : List (Text × List UInt8)) (outside : List UInt8) : SourceTree where
  root := .parse root
  rootGlob pattern := if pattern = py "*" then files.map fun file => (PurePath.parse root).join (.parse
    file.1) else []
  glob _ := []
  rglob _ := []
  node path :=
    if path = .parse (py "/opt/x") ∨ path ∈ files.map (fun file => (PurePath.parse root).join (.parse file.1))
      then
      .file
    else .missing
  inside path := path.relativeTo (.parse root)
  content path :=
    match files.find? fun file => (PurePath.parse root).join (.parse file.1) = path with
    | some file => .ok file.2
    | none => if path = .parse (py "/opt/x") then .ok outside else .error ⟨py "FileNotFoundError", []⟩
  rglob_below _ _ h := absurd h not_mem_nil

def checkoutComponent : Component :=
  ⟨{ id := py "c", root := py ".", languages := [py "c"], sources := [py "*"], external := [py "/opt/x"] },
    by decide +kernel⟩

def checkoutWorkspace : Workspace :=
  ⟨{ id := py "w", name := py "w", components := [checkoutComponent] }, by decide +kernel⟩

def frontDigest : FullSha256 := fun bytes =>
  ⟨⟨((spellHex bytes).val ++ replicate 64 0x30).take 64, fun c hc =>
      (mem_append.mp (mem_of_mem_take hc)).elim ((spellHex bytes).property c) fun hZero => by
        rw [eq_of_mem_replicate hZero]
        decide⟩, by simp⟩

theorem hashed_checkout {sha256 : FullSha256} {root : Text} {files : List (Text × List UInt8)}
    {outside bytes : List UInt8} {text : Text}
    (hTake : (take sha256 (checkoutOf root files outside) checkoutWorkspace).map (listing ·.files) = .ok text)
    (h : Hashed sha256 (checkoutOf root files outside) checkoutWorkspace bytes) :
    bytes ∈ text.flatMap utf8Char :: outside :: files.map Prod.snd := by
  cases h with
  | @content path _ hContent =>
    unfold checkoutOf at hContent
    dsimp only at hContent
    split at hContent
    · rename_i file hFile
      cases hContent
      exact mem_cons_of_mem _ (mem_cons_of_mem _
        (mem_map_of_mem (mem_of_find?_eq_some hFile)))
    · split at hContent
      · cases hContent
        exact mem_cons_of_mem _ mem_cons_self
      · cases hContent
  | files hTaken hBytes =>
    rw [hTaken] at hTake
    obtain rfl := Except.ok.inj hTake
    rw [utf8_eq_ok hBytes]
    exact mem_cons_self
  | members _ hNode =>
    unfold checkoutOf at hNode
    dsimp only at hNode
    split at hNode <;> cases hNode

theorem injOn_checkouts {sha256 : FullSha256} {root root' : Text} {files files' : List (Text × List UInt8)}
    {outside outside' : List UInt8} {text : Text} (contents : List (List UInt8))
    (hTake : (take sha256 (checkoutOf root files outside) checkoutWorkspace).map (listing ·.files) = .ok text)
    (hTake' : (take sha256 (checkoutOf root' files' outside') checkoutWorkspace).map (listing ·.files) =
      .ok text)
    (hContents : ∀ content ∈ [outside, outside'] ++ (files ++ files').map Prod.snd, content ∈ contents)
    (hDistinct : ((text.flatMap utf8Char :: contents).map sha256).Nodup) :
    Set.InjOn sha256 {bytes | Hashed sha256 (checkoutOf root files outside) checkoutWorkspace bytes ∨
      Hashed sha256 (checkoutOf root' files' outside') checkoutWorkspace bytes} := by
  have hAll : ∀ bytes, Hashed sha256 (checkoutOf root files outside) checkoutWorkspace bytes ∨
      Hashed sha256 (checkoutOf root' files' outside') checkoutWorkspace bytes →
        bytes ∈ text.flatMap utf8Char :: contents := by
    rintro bytes (hOwn | hOther)
    · rcases mem_cons.mp (hashed_checkout hTake hOwn) with rfl | hRest
      · exact mem_cons_self
      · refine mem_cons_of_mem _ (hContents bytes ?_)
        rw [map_append]
        rcases mem_cons.mp hRest with rfl | hFile
        · exact mem_append_left _ mem_cons_self
        · exact mem_append_right _ (mem_append_left _ hFile)
    · rcases mem_cons.mp (hashed_checkout hTake' hOther) with rfl | hRest
      · exact mem_cons_self
      · refine mem_cons_of_mem _ (hContents bytes ?_)
        rw [map_append]
        rcases mem_cons.mp hRest with rfl | hFile
        · exact mem_append_left _ (mem_cons_of_mem _ mem_cons_self)
        · exact mem_append_right _ (mem_append_right _ hFile)
  intro bytes hBytes bytes' hBytes' hSame
  exact inj_on_of_nodup_map hDistinct (hAll bytes hBytes) (hAll bytes' hBytes') hSame

theorem not_hidesEntry {path : Text} (h : 0x0a ∉ path) : ¬HidesEntry path :=
  Not.intro fun hHides => h (hHides.choose_spec.subset mem_cons_self)

def checkoutLine : Text := py "source\tsha256:61" ++ replicate 62 0x30 ++ py "\ta.c"

def doubleName : Text := py "a\nsource\tsha256:64" ++ replicate 62 0x30 ++ py "\tb"

def doubleLine : Text :=
  py "source\tsha256:61" ++ replicate 62 0x30 ++ py "\t" ++ doubleName

end Checkouts

end Inventory

end Ici
