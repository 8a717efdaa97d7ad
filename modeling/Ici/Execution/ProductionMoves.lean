import Ici.Execution.Production

/-! # What a rename needs, and what it leaves

A name is published where nothing but a file stands in its place, nothing but directories above it, and its
file is still staged. -/

namespace Ici.Outputs

open Option List Raising Python Filing Tracing FileTree Traced

structure IsTarget (name : Text) : Prop where
  relative : PurePosixPath.isAbsolute name = false
  named : PurePosixPath.parts name ≠ []
  inside : py ".." ∉ PurePosixPath.parts name

section Resolving

variable {rootPath : Text} {tree other : Tree} {name : Text} {path target : List Text}

theorem isLink_of_isOpen {entry : Option (Entry Content)} (h : isOpen entry = true) :
    isLink entry = false := by
  rcases isOpen_iff.mp h with rfl | rfl
  · rfl
  · rfl

theorem firstLink_eq_none_iff :
    firstLink tree path = none ↔ ∀ walked, walked <+: path → isLink (tree.entry walked) = false := by
  unfold firstLink
  rw [find?_eq_none]
  constructor
  · intro h walked hWalked
    cases path with
    | nil =>
      rw [prefix_nil.mp hWalked, tree.base]
      rfl
    | cons first rest =>
      have hMem := (mem_inits _ _).mpr hWalked
      rw [inits_cons, mem_cons] at hMem
      rcases hMem with rfl | hMem
      · rw [tree.base]
        rfl
      · simpa using h walked (by rwa [inits_cons, tail_cons])
  · intro h walked hWalked
    have hPrefix := (mem_inits _ _).mp (mem_of_mem_tail hWalked)
    simp [h walked hPrefix]

theorem resolve_eq_ok_iff : resolve rootPath tree name = .ok target ↔
    IsTarget name ∧ target = PurePosixPath.parts name ∧
      ∀ walked, walked <+: PurePosixPath.parts name → isLink (tree.entry walked) = false := by
  rw [← firstLink_eq_none_iff]
  unfold resolve
  dsimp only
  split_ifs with hAbsolute hNone hUp
  · exact ⟨fun h => (nomatch h), fun h => by rw [h.1.relative] at hAbsolute; cases hAbsolute⟩
  · exact ⟨fun h => (nomatch h), fun h => absurd hNone h.1.named⟩
  · exact ⟨fun h => (nomatch h), fun h => absurd hUp h.1.inside⟩
  · cases hLink : firstLink tree (PurePosixPath.parts name) with
    | some walked => exact ⟨fun h => (nomatch h), fun h => (nomatch h.2.2)⟩
    | none =>
      constructor
      · intro h
        cases h
        exact ⟨⟨by simpa using hAbsolute, hNone, hUp⟩, rfl, rfl⟩
      · rintro ⟨-, rfl, -⟩
        rfl

theorem resolve_congr (hLinks : ∀ walked, isLink (tree.entry walked) = isLink (other.entry walked)) :
    resolve rootPath tree name = .ok target ↔ resolve rootPath other name = .ok target := by
  rw [resolve_eq_ok_iff, resolve_eq_ok_iff]
  simp only [hLinks]

end Resolving

/-! ## Accepted paths -/

structure Accepts (tree : Tree) (path : List Text) : Prop where
  above : ∀ other, other <+: path → other ≠ path → isOpen (tree.entry other) = true
  here : tree.entry path = none ∨ isFile (tree.entry path) = true

theorem prefix_dropLast_iff {path other : List Text} (hNe : path ≠ []) :
    other <+: path.dropLast ↔ other <+: path ∧ other ≠ path := by
  constructor
  · intro h
    refine ⟨h.trans (List.dropLast_prefix path), fun hSame => ?_⟩
    have hLength := h.length_le
    have hPos := length_pos_of_ne_nil hNe
    rw [hSame, length_dropLast] at hLength
    omega
  · rintro ⟨⟨rest, rfl⟩, hOther⟩
    have hRest : rest ≠ [] := fun hNil => hOther (by rw [hNil, append_nil])
    rw [dropLast_append_of_ne_nil hRest]
    exact prefix_append _ _

theorem not_prefix_dropLast {path : List Text} (hNe : path ≠ []) : ¬path <+: path.dropLast := fun hPrefix =>
  ((prefix_dropLast_iff hNe).mp hPrefix).2 rfl

section Moves

variable {rootPath stagedPath : Text} {s t : OutputState} {name : Text}

structure Prepares (rootPath : Text) (tree : Tree) (name : Text) (after : Tree) : Prop where
  resolved : resolve rootPath tree name = .ok (PurePosixPath.parts name)
  made : tree.makeDirectories (PurePosixPath.parts name).dropLast = some after

theorem makeParents_eq_ok_iff {tree after : Tree} {path : List Text} :
    makeParents rootPath tree path = .ok after ↔ tree.makeDirectories path = some after := by
  unfold makeParents
  cases tree.makeDirectories path with
  | some made => simp
  | none =>
    dsimp only
    split_ifs
    · simp
    · simp

theorem replace_eq_ok_iff {source : Text} {tree after : Tree} {target : List Text} {content : Content} :
    replace rootPath source tree target content = .ok after ↔ tree.put target content = some after := by
  unfold replace
  cases tree.put target content with
  | some made => simp
  | none => simp

theorem ends_prepare_iff {seen : List OutputState} {target : List Text} :
    (prepare rootPath name).Ends s seen t target ↔ target = PurePosixPath.parts name ∧
        ∃ after, Prepares rootPath s.root name after ∧ t = { s with root := after } ∧ seen = [t] := by
  unfold prepare
  simp only [ends_bind_iff, ends_ask_iff, ends_step_iff, ends_pure_iff]
  constructor
  · rintro ⟨_, _, found, _, ⟨rfl, rfl, hFound⟩, ⟨_, made, _, _, ⟨rfl, hStep⟩, ⟨rfl, rfl, rfl⟩, rfl⟩, rfl⟩
    obtain ⟨after, hAfter, hMade⟩ := bind_eq_ok.mp hStep
    obtain ⟨-, rfl, -⟩ := resolve_eq_ok_iff.mp hFound
    obtain rfl := Except.ok.inj hMade
    exact ⟨rfl, after, ⟨hFound, makeParents_eq_ok_iff.mp hAfter⟩, rfl, rfl⟩
  · rintro ⟨rfl, after, hPrepares, rfl, rfl⟩
    refine ⟨[], s, _, _, ⟨rfl, rfl, hPrepares.resolved⟩, ⟨_, _, (), [], ⟨rfl, ?_⟩, ⟨rfl, rfl, rfl⟩, rfl⟩, rfl⟩
    rw [makeParents_eq_ok_iff.mpr hPrepares.made]
    rfl

structure Moves (rootPath : Text) (s : OutputState) (name : Text) (between : Tree) (t : OutputState) :
    Prop where
  prepared : Prepares rootPath s.root name between
  moved : ∃ content, s.staged.take (PurePosixPath.parts name) = some (content, t.staged) ∧
    between.put (PurePosixPath.parts name) content = some t.root

theorem ends_publishName_iff {seen : List OutputState} :
    (publishName rootPath stagedPath name).Ends s seen t () ↔
      ∃ between, Moves rootPath s name between t ∧ seen = [{ s with root := between }, t] := by
  unfold publishName
  simp only [ends_bind_iff, ends_prepare_iff, ends_step_iff]
  constructor
  · rintro ⟨_, _, _, _, ⟨rfl, between, hPrepares, rfl, rfl⟩, ⟨rfl, hStep⟩, rfl⟩
    dsimp only at hStep
    cases hTake : s.staged.take (PurePosixPath.parts name) with
    | none => rw [hTake] at hStep; cases hStep
    | some taken =>
      obtain ⟨content, staged⟩ := taken
      rw [hTake] at hStep
      obtain ⟨root, hPut, hMade⟩ := bind_eq_ok.mp hStep
      obtain rfl := Except.ok.inj hMade
      exact ⟨between, ⟨hPrepares, content, hTake, replace_eq_ok_iff.mp hPut⟩, rfl⟩
  · rintro ⟨between, ⟨hPrepares, content, hTake, hPut⟩, rfl⟩
    refine ⟨_, _, _, [t], ⟨rfl, between, hPrepares, rfl, rfl⟩, ⟨rfl, ?_⟩, rfl⟩
    dsimp only
    rw [hTake]
    dsimp only
    rw [replace_eq_ok_iff.mpr hPut]
    rfl

theorem Accepts.not_isLink {tree : Tree} {path walked : List Text} (h : Accepts tree path)
    (hWalked : walked <+: path) : isLink (tree.entry walked) = false := by
  by_cases hSame : walked = path
  · rw [hSame]
    rcases h.here with hNone | hFile
    · rw [hNone]
      rfl
    · obtain ⟨content, hContent⟩ := isFile_iff.mp hFile
      rw [hContent]
      rfl
  · exact isLink_of_isOpen (h.above walked hWalked hSame)

theorem accepts_iff_exists_prepares {tree : Tree} (hTarget : IsTarget name) :
    Accepts tree (PurePosixPath.parts name) ↔ (∃ after, Prepares rootPath tree name after) ∧
        isDirectory (tree.entry (PurePosixPath.parts name)) = false := by
  constructor
  · intro h
    have hMade : (tree.makeDirectories (PurePosixPath.parts name).dropLast).isSome := by
      rw [makeDirectories_isSome_iff]
      intro above hAbove
      obtain ⟨hPrefix, hNe⟩ := (prefix_dropLast_iff hTarget.named).mp hAbove
      exact h.above above hPrefix hNe
    obtain ⟨after, hAfter⟩ := isSome_iff_exists.mp hMade
    refine ⟨⟨after, resolve_eq_ok_iff.mpr ⟨hTarget, rfl, fun walked => h.not_isLink⟩, hAfter⟩, ?_⟩
    rcases h.here with hNone | hFile
    · rw [hNone]
      rfl
    · obtain ⟨content, hContent⟩ := isFile_iff.mp hFile
      rw [hContent]
      rfl
  · rintro ⟨⟨after, hResolved, hMade⟩, hDirectory⟩
    obtain ⟨-, -, hLinks⟩ := resolve_eq_ok_iff.mp hResolved
    have hOpen := makeDirectories_isSome_iff.mp (isSome_iff_exists.mpr ⟨after, hMade⟩)
    refine ⟨fun above hPrefix hNe => hOpen above ((prefix_dropLast_iff hTarget.named).mpr ⟨hPrefix, hNe⟩), ?_⟩
    have hLink := hLinks _ prefix_rfl
    cases hEntry : tree.entry (PurePosixPath.parts name) with
    | none => exact .inl rfl
    | some entry =>
      rw [hEntry] at hLink hDirectory
      cases entry with
      | file content => exact .inr rfl
      | directory => cases hDirectory
      | link toDirectory => cases hLink

theorem exists_moves_iff (hTarget : IsTarget name) : (∃ between t, Moves rootPath s name between t) ↔
    Accepts s.root (PurePosixPath.parts name) ∧
      isFile (s.staged.entry (PurePosixPath.parts name)) = true := by
  constructor
  · rintro ⟨between, t, hPrepares, content, hTake, hPut⟩
    have hMade := entry_makeDirectories hPrepares.made
    obtain ⟨-, -, hDirectory⟩ := put_isSome_iff.mp (isSome_iff_exists.mpr ⟨_, hPut⟩)
    have hNot := not_prefix_dropLast hTarget.named
    rw [hMade, if_neg hNot] at hDirectory
    refine ⟨(accepts_iff_exists_prepares hTarget).mpr ⟨⟨between, hPrepares⟩, hDirectory⟩, ?_⟩
    exact take_isSome_iff.mp (isSome_iff_exists.mpr ⟨_, hTake⟩)
  · rintro ⟨hAccepts, hFile⟩
    have hBoth : (∃ after, Prepares rootPath s.root name after) ∧ _ :=
      (accepts_iff_exists_prepares hTarget).mp hAccepts
    obtain ⟨⟨between, hPrepares⟩, hDirectory⟩ := hBoth
    have hMade := entry_makeDirectories hPrepares.made
    have hNot := not_prefix_dropLast hTarget.named
    obtain ⟨⟨content, staged⟩, hTake⟩ := isSome_iff_exists.mp (take_isSome_iff.mpr hFile)
    have hPut : (between.put (PurePosixPath.parts name) content).isSome := by
      refine put_isSome_iff.mpr ⟨hTarget.named, ?_, ?_⟩
      · rw [hMade, if_pos prefix_rfl]
        rfl
      · rw [hMade, if_neg hNot, hDirectory]
    obtain ⟨root, hRoot⟩ := isSome_iff_exists.mp hPut
    exact ⟨between, ⟨root, staged⟩, hPrepares, content, hTake, hRoot⟩

end Moves

end Ici.Outputs

/-! ## One rename after the other

After some of the names have been moved, the root holds the files of these and the directories above them, and
is otherwise what it was when the lock was taken. -/

namespace Ici.Outputs

open List Python Filing Tracing

variable {opened staged : Tree} {done : List (List Text)} {s t : OutputState} {path : List Text}

structure Moved (opened staged : Tree) (done : List (List Text)) (s : OutputState) : Prop where
  root : ∀ path, s.root.entry path =
    if path ∈ done then staged.entry path
    else if ∃ other ∈ done, path <+: other then some .directory else opened.entry path
  staged : ∀ path, s.staged.entry path = if path ∈ done then none else staged.entry path

def Within (opened staged : Tree) (paths : List (List Text)) (tree : Tree) : Prop :=
  ∀ path, tree.entry path = opened.entry path ∨
    (opened.entry path = none ∧ tree.entry path = some .directory) ∨
    (path ∈ paths ∧ tree.entry path = staged.entry path)

def Apart (path : List Text) (paths : List (List Text)) : Prop :=
  ∀ other ∈ paths, ¬other <+: path ∧ ¬path <+: other

structure Movable (opened staged : Tree) (path : List Text) : Prop where
  staged : isFile (staged.entry path) = true
  accepted : Accepts opened path

theorem apart_of_staged (hDone : ∀ other ∈ done, Movable opened staged other)
    (hPath : isFile (staged.entry path) = true) (hNew : path ∉ done) : Apart path done := by
  intro other hOther
  have hPresent {path : List Text} (h : isFile (staged.entry path) = true) : staged.entry path ≠ none := by
    intro hNone
    rw [hNone] at h
    cases h
  constructor
  · intro hPrefix
    exact hNew (FileTree.not_prefix_of_isFile (hDone other hOther).staged (hPresent hPath) hPrefix ▸ hOther)
  · intro hPrefix
    exact hNew (FileTree.not_prefix_of_isFile hPath (hPresent (hDone other hOther).staged) hPrefix ▸ hOther)

namespace Moved

variable (h : Moved opened staged done s) (hDone : ∀ other ∈ done, Movable opened staged other)
include h

omit h in
theorem start (opened staged : Tree) : Moved opened staged [] ⟨opened, staged⟩ where
  root path := by simp
  staged path := by simp

theorem root_of_apart (hApart : Apart path done) : s.root.entry path = opened.entry path := by
  have hNot : path ∉ done := fun hMem => (hApart path hMem).1 prefix_rfl
  have hNone : ¬∃ other ∈ done, path <+: other := fun ⟨other, hOther, hPrefix⟩ =>
    (hApart other hOther).2 hPrefix
  rw [h.root, if_neg hNot, if_neg hNone]

include hDone

theorem within : Within opened staged done s.root := by
  intro path
  rw [h.root]
  split_ifs with hMem hAbove
  · exact .inr (.inr ⟨hMem, rfl⟩)
  · obtain ⟨other, hOther, hPrefix⟩ := hAbove
    have hOpen := (hDone other hOther).accepted.above path hPrefix fun hSame => hMem (hSame ▸ hOther)
    rcases isOpen_iff.mp hOpen with hNone | hDirectory
    · exact .inr (.inl ⟨hNone, rfl⟩)
    · exact .inl hDirectory.symm
  · exact .inl rfl

theorem accepts_iff (hApart : Apart path done) : Accepts s.root path ↔ Accepts opened path := by
  have hAbove (other : List Text) (hPrefix : other <+: path) :
      isOpen (s.root.entry other) = isOpen (opened.entry other) := by
    have hNot : other ∉ done := fun hMem => (hApart other hMem).1 hPrefix
    rcases h.within hDone other with hSame | ⟨hNone, hDirectory⟩ | ⟨hMem, -⟩
    · rw [hSame]
    · rw [hNone, hDirectory]
      rfl
    · exact absurd hMem hNot
  have hHere := h.root_of_apart hApart
  constructor
  · intro hAccepts
    refine ⟨fun other hPrefix hNe => ?_, hHere ▸ hAccepts.here⟩
    rw [← hAbove other hPrefix]
    exact hAccepts.above other hPrefix hNe
  · intro hAccepts
    refine ⟨fun other hPrefix hNe => ?_, hHere.symm ▸ hAccepts.here⟩
    rw [hAbove other hPrefix]
    exact hAccepts.above other hPrefix hNe

end Moved

section Names

variable {rootPath stagedPath name : Text} {between : Tree}

theorem Moved.within_between (h : Moved opened staged done s)
    (hDone : ∀ other ∈ done, Movable opened staged other) (hTarget : IsTarget name)
    (hAccepted : Accepts opened (PurePosixPath.parts name))
    (hPrepares : Prepares rootPath s.root name between) :
    Within opened staged done between := by
  intro path
  rw [FileTree.entry_makeDirectories hPrepares.made]
  split_ifs with hAbove
  · obtain ⟨hPrefix, hNe⟩ := (prefix_dropLast_iff hTarget.named).mp hAbove
    rcases isOpen_iff.mp (hAccepted.above path hPrefix hNe) with hNone | hDirectory
    · exact .inr (.inl ⟨hNone, rfl⟩)
    · exact .inl hDirectory.symm
  · exact h.within hDone path

theorem Moved.next (h : Moved opened staged done s) (hMoves : Moves rootPath s name between t)
    (hTarget : IsTarget name) (hApart : Apart (PurePosixPath.parts name) done) :
    Moved opened staged (done ++ [PurePosixPath.parts name]) t := by
  obtain ⟨hPrepares, content, hTake, hPut⟩ := hMoves
  obtain ⟨hStaged, hRest⟩ := FileTree.entry_take hTake
  have hNew : PurePosixPath.parts name ∉ done := fun hMem => (hApart _ hMem).1 prefix_rfl
  rw [h.staged, if_neg hNew] at hStaged
  constructor
  · intro path
    rw [FileTree.entry_put hPut, FileTree.entry_makeDirectories hPrepares.made]
    simp only [mem_append, mem_singleton, prefix_dropLast_iff hTarget.named]
    by_cases hSame : path = PurePosixPath.parts name
    · rw [if_pos hSame, if_pos (.inr hSame), hSame, hStaged]
    · by_cases hMem : path ∈ done
      · rw [if_neg hSame, if_neg fun hPrefix => (hApart path hMem).1 hPrefix.1, if_pos (.inl hMem), h.root,
        if_pos hMem]
      · have hNot : ¬(path ∈ done ∨ path = PurePosixPath.parts name) := fun hOr => hOr.elim hMem hSame
        rw [if_neg hSame, if_neg hNot, h.root, if_neg hMem]
        by_cases hPrefix : path <+: PurePosixPath.parts name
        · rw [if_pos ⟨hPrefix, hSame⟩, if_pos ⟨_, mem_append_right done (mem_singleton_self _), hPrefix⟩]
        · rw [if_neg fun hBoth => hPrefix hBoth.1]
          congr 1
          simp only [eq_iff_iff]
          constructor
          · rintro ⟨other, hOther, hBelow⟩
            exact ⟨other, mem_append_left _ hOther, hBelow⟩
          · rintro ⟨other, hOther, hBelow⟩
            rcases mem_append.mp hOther with hOther | hOther
            · exact ⟨other, hOther, hBelow⟩
            · exact absurd (mem_singleton.mp hOther ▸ hBelow) hPrefix
  · intro path
    rw [hRest, h.staged]
    simp only [mem_append, mem_singleton]
    by_cases hSame : path = PurePosixPath.parts name
    · rw [if_pos hSame, if_pos (.inr hSame)]
    · simp only [hSame, or_false, if_false]

theorem Within.mono {paths others : List (List Text)} {tree : Tree} (h : Within opened staged paths tree)
    (hPaths : paths ⊆ others) : Within opened staged others tree := by
  intro path
  rcases h path with hSame | hMade | ⟨hMem, hStaged⟩
  · exact .inl hSame
  · exact .inr (.inl hMade)
  · exact .inr (.inr ⟨hPaths hMem, hStaged⟩)

structure Promised (staged : Tree) (name : Text) : Prop where
  target : IsTarget name
  staged : isFile (staged.entry (PurePosixPath.parts name)) = true

structure Renamed (opened staged : Tree) (done : List (List Text)) (names : List Text)
    (seen : List OutputState) (t : OutputState) : Prop where
  distinct : (done ++ names.map PurePosixPath.parts).Nodup
  movable : ∀ name ∈ names, Movable opened staged (PurePosixPath.parts name)
  moved : Moved opened staged (done ++ names.map PurePosixPath.parts) t
  within : ∀ u ∈ seen, Within opened staged (done ++ names.map PurePosixPath.parts) u.root
  reached : ∀ name ∈ names, ∃ u ∈ seen,
    u.root.entry (PurePosixPath.parts name) = staged.entry (PurePosixPath.parts name)

theorem renamed_of_ends {names : List Text} {seen : List OutputState}
    (hNames : ∀ name ∈ names, Promised staged name) (h : Moved opened staged done s)
    (hDone : ∀ other ∈ done, Movable opened staged other) (hNodup : done.Nodup)
    (hEnds : (publishNames rootPath stagedPath names).Ends s seen t ()) :
    Renamed opened staged done names seen t := by
  induction names generalizing done s seen with
  | nil =>
    obtain ⟨rfl, rfl, -⟩ := Traced.ends_pure_iff.mp hEnds
    constructor
    · simpa using hNodup
    · exact nofun
    · simpa using h
    · exact nofun
    · exact nofun
  | cons name names ih =>
    obtain ⟨hFirst, hRest⟩ := forall_mem_cons.mp hNames
    obtain ⟨before, middle, ⟨⟩, after, hName, hTail, rfl⟩ := Traced.ends_bind_iff.mp hEnds
    obtain ⟨between, hMoves, rfl⟩ := ends_publishName_iff.mp hName
    obtain ⟨hAccepts, hStill⟩ := (exists_moves_iff hFirst.target).mp ⟨between, middle, hMoves⟩
    -- a name moved before is no longer staged
    have hNew : PurePosixPath.parts name ∉ done := by
      intro hMem
      rw [h.staged, if_pos hMem] at hStill
      cases hStill
    have hApart := apart_of_staged hDone hFirst.staged hNew
    have hMovable : Movable opened staged (PurePosixPath.parts name) :=
      ⟨hFirst.staged, (h.accepts_iff hDone hApart).mp hAccepts⟩
    have hNext := h.next hMoves hFirst.target hApart
    have hDone' : ∀ other ∈ done ++ [PurePosixPath.parts name], Movable opened staged other := by
      intro other hOther
      rcases mem_append.mp hOther with hOther | hOther
      · exact hDone other hOther
      · exact mem_singleton.mp hOther ▸ hMovable
    have hNodup' : (done ++ [PurePosixPath.parts name]).Nodup := by
      rw [nodup_append]
      refine ⟨hNodup, nodup_singleton _, fun a ha b hb hSame => hNew ?_⟩
      rw [← mem_singleton.mp hb, ← hSame]
      exact ha
    have hAll := ih hRest hNext hDone' hNodup' hTail
    have hPaths : done ++ [PurePosixPath.parts name] ++ names.map PurePosixPath.parts =
        done ++ (name :: names).map PurePosixPath.parts := by simp
    refine ⟨hPaths ▸ hAll.distinct, ?_, hPaths ▸ hAll.moved, ?_, ?_⟩
    · exact forall_mem_cons.mpr ⟨hMovable, hAll.movable⟩
    · intro u hu
      simp only [cons_append, nil_append, mem_cons] at hu
      rcases hu with rfl | rfl | hu
      · exact (h.within_between hDone hFirst.target hMovable.accepted hMoves.prepared).mono
          (subset_append_left _ _)
      · refine (hNext.within hDone').mono ?_
        rw [← hPaths]
        exact subset_append_left _ _
      · exact hPaths ▸ hAll.within u hu
    · refine forall_mem_cons.mpr ⟨⟨middle, by simp, ?_⟩, fun other hOther => ?_⟩
      · rw [hNext.root, if_pos (mem_append_right _ (mem_singleton_self _))]
      · obtain ⟨u, hu, hReached⟩ := hAll.reached other hOther
        exact ⟨u, mem_append_right _ hu, hReached⟩

theorem exists_ends_publishNames {names : List Text} (hNames : ∀ name ∈ names, Promised staged name)
    (h : Moved opened staged done s) (hDone : ∀ other ∈ done, Movable opened staged other)
    (hNodup : (done ++ names.map PurePosixPath.parts).Nodup)
    (hAccepts : ∀ name ∈ names, Accepts opened (PurePosixPath.parts name)) :
    ∃ seen t, (publishNames rootPath stagedPath names).Ends s seen t () := by
  induction names generalizing done s with
  | nil => exact ⟨[], s, Traced.ends_pure_iff.mpr ⟨rfl, rfl, rfl⟩⟩
  | cons name names ih =>
    obtain ⟨hFirst, hRest⟩ := forall_mem_cons.mp hNames
    obtain ⟨hAccept, hOthers⟩ := forall_mem_cons.mp hAccepts
    have hNew : PurePosixPath.parts name ∉ done := by
      rw [map_cons, nodup_append] at hNodup
      exact fun hMem => hNodup.2.2 _ hMem _ mem_cons_self rfl
    have hApart := apart_of_staged hDone hFirst.staged hNew
    have hStill : isFile (s.staged.entry (PurePosixPath.parts name)) = true := by
      rw [h.staged, if_neg hNew, hFirst.staged]
    have hSome : ∃ between t, Moves rootPath s name between t :=
      (exists_moves_iff hFirst.target).mpr ⟨(h.accepts_iff hDone hApart).mpr hAccept, hStill⟩
    obtain ⟨between, middle, hMoves⟩ := hSome
    have hDone' : ∀ other ∈ done ++ [PurePosixPath.parts name], Movable opened staged other := by
      intro other hOther
      rcases mem_append.mp hOther with hOther | hOther
      · exact hDone other hOther
      · exact mem_singleton.mp hOther ▸ ⟨hFirst.staged, hAccept⟩
    have hPaths : done ++ [PurePosixPath.parts name] ++ names.map PurePosixPath.parts =
        done ++ (name :: names).map PurePosixPath.parts := by simp
    obtain ⟨seen, t, hTail⟩ := ih hRest (h.next hMoves hFirst.target hApart) hDone' (hPaths ▸ hNodup) hOthers
    exact ⟨_, t, Traced.ends_bind_iff.mpr
      ⟨_, middle, (), seen, ends_publishName_iff.mpr ⟨between, hMoves, rfl⟩, hTail, rfl⟩⟩

end Names

end Ici.Outputs
