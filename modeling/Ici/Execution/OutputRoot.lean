import Ici.Library.Links
import Ici.Library.PurePaths
import Ici.Library.Raising

/-! # Where a task may write

`resolve` compares a path with the root both as written and as it really is, `holds` only with the root as it
really is. -/

namespace Ici.OutputPaths

open List hiding splitOn
open Python Linking Option Raising FileSystem

structure Disk extends FileSystem Text where
  named : ∀ path name, entry (path ++ [name]) ≠ none → IsPathName name ∧ name ≠ py ".."
  /-- A walk through more links than this never ends. -/
  patience : List Text → ℕ
  patient : ∀ path links, toFileSystem.follow false links [] (path.map .down) ≠ none →
    toFileSystem.follow false (patience path) [] (path.map .down) ≠ none

namespace Disk

variable (disk : Disk)

section

variable (path : List Text)

/-- Where the system comes by a path, each name but the last a directory. -/
def place : Option (List Text) := disk.follow true disk.limit [] (path.map .down)

def pathExists : Bool := (disk.place path).any fun place => (disk.entry place).isSome

def isSymlink : Bool :=
  (disk.place path.dropLast).any fun place => disk.isLink (place ++ path.getLast?.toList)

/-- `Path.resolve`. What is not there stands as written; a loop raises up to Python 3.12. -/
def real : Result (List Text) :=
  match disk.follow false (disk.patience path) [] (path.map .down) with
  | some place => .ok place
  | none => .error ⟨py "RuntimeError", py "Symlink loop from " ++ pyRepr (py "/" ++ join (py "/") path)⟩

end

/-- The loop of `_resolved_parent`, from the parent of its target. -/
def nearest (path : List Text) : List Text :=
  if path = [] ∨ disk.pathExists path then path else nearest path.dropLast
termination_by path.length
decreasing_by
  rename_i h
  rw [length_dropLast]
  exact Nat.pred_lt (length_eq_zero_iff.not.mpr (not_or.mp h).1)

end Disk

/-- A root as `__post_init__` leaves it. -/
structure OutputRoot where
  path : PurePath
  absolute : path.isAbsolute
  normal : ∀ name ∈ path.names, name ≠ py ".."

def pathRefused (text : Text) : PyError := ⟨py "PathRefused", text⟩

namespace OutputRoot

variable (disk : Disk) (root : OutputRoot)

/-- The end of `resolve`: where the write would land. -/
def land (relative : Text) (settled : PurePath) : Result PurePath := do
  let landing ← disk.real (disk.nearest settled.parent.names)
  let real ← disk.real root.path.names
  if real <+: landing then return settled
  else throw (pathRefused (relative ++ py " would be written to /" ++ Python.join (py "/") landing ++
    py ", outside /" ++ Python.join (py "/") real))

def resolve (relative : Text) : Result PurePath :=
  let candidate := PurePath.parse relative
  if candidate.isAbsolute then
    .error (pathRefused (relative ++ py " is absolute; task output is relative to its root"))
  else if candidate.names = [] then .error (pathRefused (py "a task output needs a name"))
  else if py ".." ∈ candidate.names then .error (pathRefused (relative ++ py " climbs out of its root"))
  else match candidate.names.inits.tail.find? fun walked => disk.isSymlink (root.path.names ++ walked) with
    | some walked => .error (pathRefused (relative ++ py " goes through the symlink " ++ root.path.root.text ++
        Python.join (py "/") (root.path.names ++ walked)))
    | none =>
      let settled := normalPath (root.path.join candidate).asPosix
      if settled.relativeTo root.path = none then
        .error (pathRefused (relative ++ py " resolves to " ++ settled.asPosix ++ py ", outside " ++
          root.path.asPosix))
      else root.land disk relative settled

def holds (target : PurePath) : Result Bool := do
  let settled := normalPath target.asPosix
  let real ← disk.real root.path.names
  return settled.root = .slash ∧ real <+: settled.names

end OutputRoot

/-- Following every link on the way ends in a directory or below it. -/
def LandsIn (disk : Disk) (directory path : List Text) : Prop :=
  ∃ goal, disk.Leads [] (path.map .down) goal ∧ directory <+: goal

/-- What is asked of a root. -/
structure Contains (disk : Disk) (root : OutputRoot) : Prop where
  resolve_lands : ∀ relative path, root.resolve disk relative = .ok path →
    ∃ real, disk.real root.path.names = .ok real ∧ LandsIn disk real path.names
  resolve_plain : ∀ relative path, root.resolve disk relative = .ok path →
    ∃ names, path.names = root.path.names ++ names ∧
      ∀ walked, walked <+: names → walked ≠ [] → disk.isSymlink (root.path.names ++ walked) = false
  refused : ∀ relative error, root.resolve disk relative = .error error → error.name = py "PathRefused"
  holds_resolved : ∀ relative path, root.resolve disk relative = .ok path → root.holds disk path = .ok true
  holds_outside : ∀ target : PurePath, target.isAbsolute →
    (¬∃ real, disk.real root.path.names = .ok real ∧ LandsIn disk real (normalPath target.asPosix).names) →
    root.holds disk target = .ok false

/-- The root is no loop, every link below it leads into it, and where a write lands in it, it is as written
below where it really is. -/
structure IsKnown (disk : Disk) (root : OutputRoot) (real : List Text) : Prop where
  rooted : disk.real root.path.names = .ok real
  links : ∀ link, real <+: link → disk.isLink link = true → LandsIn disk real link
  written : ∀ place, disk.real (disk.nearest root.path.names) = .ok place → real <+: place →
    root.path.root = .slash ∧ real <+: root.path.names

variable {disk : Disk} {root : OutputRoot} {relative : Text} {path candidate : PurePath} {error : PyError}
  {real place names : List Text}

theorem leads_of_real (h : disk.real names = .ok place) : disk.Leads [] (names.map .down) place := by
  unfold Disk.real at h
  split at h
  · cases h
    exact leads_of_follow ‹_›
  · cases h

theorem real_nearest (disk : Disk) (names : List Text) : ∃ place, disk.real (disk.nearest names)
    = .ok place := by
  fun_induction Disk.nearest disk names with
  | case1 path hEnd =>
    rcases hEnd with rfl | hExists
    · refine ⟨[], ?_⟩
      unfold Disk.real
      cases disk.patience [] <;> rfl
    · obtain ⟨place, hPlace, -⟩ := (Option.any_eq_true _ _).mp hExists
      have hEnds := disk.patient path disk.limit (by rw [follow_of_strict hPlace]; nofun)
      obtain ⟨real, hReal⟩ := ne_none_iff_exists'.mp hEnds
      exact ⟨real, by rw [Disk.real, hReal]⟩
  | case2 path _ ih => exact ih

theorem pathExists_of_append {more : List Text} (h : disk.pathExists (names ++ more) = true) :
    disk.pathExists names = true := by
  cases more with
  | nil => rwa [append_nil] at h
  | cons name more =>
    obtain ⟨place, hPlace, -⟩ := (Option.any_eq_true _ _).mp h
    rw [Disk.place, map_append] at hPlace
    obtain ⟨middle, hMiddle, hDirectory⟩ := follow_front (isSome_of_eq_some hPlace)
    have hEntry := hDirectory (by simp)
    rw [Disk.pathExists, Disk.place, hMiddle, any_some]
    unfold isDirectory at hEntry
    split at hEntry
    · simp [*]
    · cases hEntry

theorem nearest_append (h : disk.pathExists names = false) (more : List Text) :
    disk.nearest (names ++ more) = disk.nearest names := by
  induction more using List.reverseRecOn with
  | nil => rw [append_nil]
  | append_singleton more name ih =>
    rw [← append_assoc, Disk.nearest, if_neg, dropLast_concat, ih]
    rintro (hNil | hExists)
    · simp at hNil
    · rw [append_assoc] at hExists
      simp [pathExists_of_append hExists] at h

theorem exists_fresh (disk : Disk) (path : List Text) :
    ∃ name, IsPathName name ∧ name ≠ py ".." ∧ disk.isSymlink (path ++ [name]) = false := by
  have hLast (name : Text) : disk.isSymlink (path ++ [name]) =
      (disk.place path).any fun place => disk.isLink (place ++ [name]) := by simp [Disk.isSymlink]
  cases hPlace : disk.place path with
  | none => exact ⟨py "a", by decide, by decide, by rw [hLast, hPlace, any_none]⟩
  | some place =>
    have hInjective : Function.Injective fun n : ℕ => place ++ [replicate (n + 1) (0x61 : CodePoint)] :=
      fun n m h => by simpa using congrArg (·.map length) (append_cancel_left h)
    obtain ⟨_, ⟨n, rfl⟩, hFree⟩ := (Set.infinite_range_of_injective hInjective).exists_notMem_finite disk.finite
    have hMem : 0x61 ∈ replicate (n + 1) (0x61 : CodePoint) := mem_replicate.mpr ⟨n.succ_ne_zero, rfl⟩
    refine ⟨replicate (n + 1) 0x61, ⟨by simp, fun h => ?_, by simp⟩, fun h => ?_, ?_⟩
    iterate 2 exact absurd (h ▸ hMem) (by decide)
    have hNone : disk.entry (place ++ [replicate (n + 1) 0x61]) = none := not_not.mp hFree
    rw [hLast, hPlace, any_some, isLink, hNone]

theorem named_of_isLink {link : List Text} (h : disk.isLink link = true) :
    ∀ name ∈ link, IsPathName name ∧ name ≠ py ".." := by
  have hEntry : disk.entry link ≠ none := fun hNone => by simp [isLink, hNone] at h
  clear h
  induction link using List.reverseRecOn with
  | nil => exact forall_mem_nil _
  | append_singleton link name ih =>
    intro other hOther
    rcases mem_append.mp hOther with hAbove | hLast
    · exact ih (by simp [disk.within link name hEntry]) other hAbove
    · rw [mem_singleton.mp hLast]
      exact disk.named link name hEntry

/-! ## What resolve takes -/

/-- A path that `resolve` may be asked for. -/
structure IsRelative (candidate : PurePath) : Prop where
  relative : candidate.isAbsolute = false
  named : candidate.names ≠ []
  normal : py ".." ∉ candidate.names

theorem join_eq (root : OutputRoot) (h : IsRelative candidate) :
    (root.path.join candidate).root = root.path.root ∧
    (root.path.join candidate).names = root.path.names ++ candidate.names := by
  rw [PurePath.join, if_neg (by simp [h.relative])]
  exact ⟨rfl, rfl⟩

theorem parent_eq (h : IsRelative candidate) :
    (root.path.join candidate).parent.names = root.path.names ++ candidate.names.dropLast :=
  (congrArg dropLast (join_eq root h).2).trans (dropLast_append_of_ne_nil h.named)

theorem settled_eq (h : IsRelative candidate) :
    normalPath (root.path.join candidate).asPosix = root.path.join candidate :=
  normalPath_asPosix fun name hName => by
    rw [(join_eq root h).2] at hName
    rcases mem_append.mp hName with hRoot | hIn
    · exact root.normal name hRoot
    · rintro rfl
      exact h.normal hIn

theorem resolve_eq (h : IsRelative (PurePath.parse relative))
    (hLinks : ∀ walked ∈ (PurePath.parse relative).names.inits.tail,
      disk.isSymlink (root.path.names ++ walked) = false) :
    root.resolve disk relative = root.land disk relative (root.path.join (PurePath.parse relative)) := by
  have hFound := find?_eq_none.mpr fun walked hIn => ne_true_of_eq_false (hLinks walked hIn)
  have hInside : (root.path.join (PurePath.parse relative)).relativeTo root.path ≠ none := by
    rw [PurePath.relativeTo, if_pos ⟨(join_eq root h).1, by simp [join_eq root h]⟩]
    exact Option.some_ne_none _
  unfold OutputRoot.resolve
  simp only [h.relative, h.named, h.normal, hFound, settled_eq h, hInside, Bool.false_eq_true, if_false]

theorem resolve_cases (disk : Disk) (root : OutputRoot) (relative : Text) :
    (∃ text, root.resolve disk relative = .error (pathRefused text)) ∨ IsRelative (PurePath.parse relative) ∧
      ∀ walked ∈ (PurePath.parse relative).names.inits.tail,
        disk.isSymlink (root.path.names ++ walked) = false := by
  rw [or_iff_not_imp_right]
  intro hNot
  unfold OutputRoot.resolve
  cases hFound : (PurePath.parse relative).names.inits.tail.find? fun walked =>
      disk.isSymlink (root.path.names ++ walked) with
  | some walked =>
    simp only [hFound]
    split_ifs <;> exact ⟨_, rfl⟩
  | none =>
    simp only [hFound]
    split_ifs with hAbsolute hNamed hUp
    iterate 3 exact ⟨_, rfl⟩
    all_goals exact (hNot ⟨⟨by simpa using hAbsolute, hNamed, hUp⟩,
      fun walked hIn => eq_false_of_ne_true (find?_eq_none.mp hFound walked hIn)⟩).elim

theorem resolve_ok (h : root.resolve disk relative = .ok path) : ∃ names landing real,
    path.root = root.path.root ∧ path.names = root.path.names ++ names ∧ normalPath path.asPosix = path ∧
    (∀ walked ∈ names.inits.tail, disk.isSymlink (root.path.names ++ walked) = false) ∧
    disk.real (disk.nearest (root.path.names ++ names.dropLast)) = .ok landing ∧
    disk.real root.path.names = .ok real ∧ real <+: landing := by
  rcases resolve_cases disk root relative with ⟨text, hError⟩ | ⟨hRelative, hLinks⟩
  · cases hError.symm.trans h
  · rw [resolve_eq hRelative hLinks] at h
    obtain ⟨landing, hLanding, h⟩ := bind_eq_ok.mp h
    obtain ⟨real, hReal, h⟩ := bind_eq_ok.mp h
    split at h
    · cases h
      obtain ⟨hRoot, hJoin⟩ := join_eq root hRelative
      refine ⟨_, landing, real, hRoot, hJoin, settled_eq hRelative, hLinks, ?_, hReal, ‹_›⟩
      rwa [parent_eq hRelative] at hLanding
    · cases h

theorem resolve_error (h : root.resolve disk relative = .error error) :
    error.name = py "PathRefused" ∨ disk.real root.path.names = .error error := by
  rcases resolve_cases disk root relative with ⟨text, hError⟩ | ⟨hRelative, hLinks⟩
  · cases hError.symm.trans h
    exact .inl rfl
  · obtain ⟨landing, hLanding⟩ := real_nearest disk (root.path.join (PurePath.parse relative)).parent.names
    rw [resolve_eq hRelative hLinks, OutputRoot.land, hLanding] at h
    cases hReal : disk.real root.path.names with
    | error other =>
      rw [hReal] at h
      exact .inr (congrArg Except.error (Except.error.inj h))
    | ok real =>
      rw [hReal] at h
      have hRefused := (ite_eq_iff.mp h).resolve_left nofun
      exact .inl (congrArg PyError.name (Except.error.inj hRefused.2)).symm

/-- A new name in the root is refused only for where the root is. -/
theorem exists_resolve (disk : Disk) (root : OutputRoot) : ∃ (name : Text) (path : PurePath),
    path.root = root.path.root ∧ path.names = root.path.names ++ [name] ∧ normalPath path.asPosix = path ∧
    ∃ landing, disk.real (disk.nearest root.path.names) = .ok landing ∧
      (∀ error, disk.real root.path.names = .error error → root.resolve disk name = .error error) ∧
      ∀ real, disk.real root.path.names = .ok real → real <+: landing → root.resolve disk name = .ok path := by
  obtain ⟨name, hName, hUp, hFree⟩ := exists_fresh disk root.path.names
  have hParse : PurePath.parse name = ⟨.relative, [name], by simpa using hName⟩ := by
    simpa [PurePath.asPosix, PathRoot.text, join_singleton] using PurePath.parse_asPosix ⟨.relative, [name], by simpa using hName⟩
  have hRelative : IsRelative (PurePath.parse name) := by
    rw [hParse]
    exact ⟨rfl, by simp, by simpa using hUp.symm⟩
  have hResolve : root.resolve disk name = _ := resolve_eq hRelative (by simp [hParse, hFree])
  obtain ⟨hRoot, hJoin⟩ := join_eq root hRelative
  obtain ⟨landing, hLanding⟩ := real_nearest disk root.path.names
  have hNames : (PurePath.parse name).names = [name] := by rw [hParse]
  rw [OutputRoot.land, parent_eq hRelative, hNames, dropLast_singleton, append_nil, hLanding] at hResolve
  rw [hNames] at hJoin
  refine ⟨name, _, hRoot, hJoin, settled_eq hRelative, landing, hLanding, fun error hError => ?_,
    fun real hReal hInside => ?_⟩
  · rw [hResolve, hError]
    rfl
  · rw [hResolve, hReal]
    exact if_pos hInside

/-! ## When the root contains what it hands out -/

section Known

variable (hReal : disk.real root.path.names = .ok real)
  (hLinks : ∀ link, real <+: link → disk.isLink link = true → LandsIn disk real link)

include hReal hLinks

theorem landsIn_append {above : List Text} (hAbove : disk.Leads [] (above.map .down) real) (names : List Text) :
    LandsIn disk real (above ++ names) := by
  have hPlain := (leads_of_real hReal).plain plain_nil
  obtain ⟨goal, hGoal, hInside⟩ :=
    Plain.leads_into hLinks (List.prefix_refl real) hPlain
  refine ⟨goal, ?_, hInside⟩
  rw [map_append]
  exact leads_append.mpr ⟨real, hAbove, hGoal⟩

end Known

theorem holds_eq (hReal : disk.real root.path.names = .ok real) (target : PurePath) : root.holds disk target =
    .ok (decide ((normalPath target.asPosix).root = .slash ∧ real <+: (normalPath target.asPosix).names)) := by
  rw [OutputRoot.holds, hReal]
  rfl

theorem IsKnown.contains (h : IsKnown disk root real) : Contains disk root := by
  have hLeads := leads_of_real h.rooted
  constructor
  · intro relative path hPath
    obtain ⟨names, _, _, -, hNames, -⟩ := resolve_ok hPath
    exact ⟨real, h.rooted, hNames ▸ landsIn_append h.rooted h.links hLeads names⟩
  · intro relative path hPath
    obtain ⟨names, _, _, -, hNames, -, hPlain, -⟩ := resolve_ok hPath
    refine ⟨names, hNames, fun walked hWalked hNe => hPlain walked ?_⟩
    cases names with
    | nil => exact (hNe (prefix_nil.mp hWalked)).elim
    | cons name names => exact (mem_cons.mp ((mem_inits _ _).mpr hWalked)).resolve_left hNe
  · intro relative error hError
    exact (resolve_error hError).resolve_right fun hReal => nomatch h.rooted.symm.trans hReal
  · intro relative path hPath
    obtain ⟨names, landing, other, hRoot, hNames, hNormal, -, hLanding, hReal, hInside⟩ := resolve_ok hPath
    cases h.rooted.symm.trans hReal
    have hWritten : root.path.root = .slash ∧ real <+: root.path.names := by
      cases hExists : disk.pathExists root.path.names with
      | true =>
        refine h.written real ?_ (List.prefix_refl real)
        rw [Disk.nearest, if_pos (.inr hExists), h.rooted]
      | false =>
        rw [nearest_append hExists] at hLanding
        exact h.written landing hLanding hInside
    rw [holds_eq h.rooted, hNormal, hRoot, hNames]
    exact congrArg _ (decide_eq_true ⟨hWritten.1, hWritten.2.trans (prefix_append _ _)⟩)
  · intro target _ hOutside
    rw [holds_eq h.rooted]
    refine congrArg _ (decide_eq_false fun hHeld => hOutside ⟨real, h.rooted, ?_⟩)
    obtain ⟨more, hMore⟩ := hHeld.2
    have hPlain := (hLeads.plain plain_nil).leads_base
    exact hMore ▸ landsIn_append h.rooted h.links hPlain more

theorem Contains.known (h : Contains disk root) : ∃ real, IsKnown disk root real := by
  obtain ⟨name, path, hRoot, hNames, hNormal, landing, hLanding, hLoop, hResolve⟩ := exists_resolve disk root
  cases hReal : disk.real root.path.names with
  | error error =>
    have hError := h.refused name error (hLoop error hReal)
    unfold Disk.real at hReal
    split at hReal <;> cases hReal
    cases hError
  | ok real =>
    refine ⟨real, hReal, fun link hPrefix hLink => ?_, fun place hPlace hInside => ?_⟩
    · by_contra hOut
      have hNamed := named_of_isLink hLink
      let target : PurePath := ⟨.slash, link, fun name hIn => (hNamed name hIn).1⟩
      have hTarget : normalPath target.asPosix = target := normalPath_asPosix fun name hIn => (hNamed name hIn).2
      have hHolds := h.holds_outside target rfl fun ⟨other, hOther, hLands⟩ => by
        cases hReal.symm.trans hOther
        rw [hTarget] at hLands
        exact hOut hLands
      rw [holds_eq hReal, hTarget] at hHolds
      exact of_decide_eq_false (Except.ok.inj hHolds) ⟨rfl, hPrefix⟩
    · cases hLanding.symm.trans hPlace
      have hHolds := h.holds_resolved name path (hResolve real hReal hInside)
      rw [holds_eq hReal, hNormal, hRoot, hNames] at hHolds
      obtain ⟨hSlash, hPrefix⟩ := of_decide_eq_true (Except.ok.inj hHolds)
      refine ⟨hSlash, (prefix_concat_iff.mp hPrefix).resolve_left fun hSame => ?_⟩
      -- no link lies above where the root really is, so the root would be as written
      have hLeads := leads_of_real hReal
      have hPlain := Plain.of_prefix (hLeads.plain plain_nil) ⟨[name], hSame.symm⟩
      have hRooted := hLeads.unique hPlain.leads_base
      exact absurd (congrArg length (hRooted.symm.trans hSame)) (by simp)

theorem contains_iff_known (disk : Disk) (root : OutputRoot) :
    Contains disk root ↔ ∃ real, IsKnown disk root real :=
  ⟨Contains.known, fun ⟨_, h⟩ => h.contains⟩

def linkedEntry (path : List Text) : Option (Entry Text) :=
  if path = [] ∨ path = [py "a"] then some .directory
  else if path = [py "b"] then some (.link true [.down (py "a")]) else none

/-- A directory and a link to it. -/
def linkedSystem : FileSystem Text where
  entry := linkedEntry
  base := rfl
  within path name h := by
    cases path with
    | nil => rfl
    | cons first path => simp [linkedEntry] at h
  finite := (Set.toFinite {[], [py "a"], [py "b"]}).subset fun path h => by
    by_contra hNot
    simp_all [linkedEntry]
  limit := 1

theorem walk_linked (through : List Text → List (Step Text) → Option (List Text)) {path : List Text}
    (hNe : path ≠ []) (names : List Text) : linkedSystem.walk false through path (names.map .down) =
      some (path ++ names) := by
  induction names generalizing path with
  | nil => simp [walk]
  | cons name names ih =>
    have hLink : linkedSystem.isLink (path ++ [name]) = false := by
      obtain ⟨first, rest, rfl⟩ := exists_cons_of_ne_nil hNe
      simp [isLink, linkedSystem, linkedEntry]
    simp [walk, advance_down hLink, ih]

theorem follow_linked (names : List Text) : linkedSystem.follow false 1 [] (names.map .down) ≠ none := by
  cases names with
  | nil => nofun
  | cons name names =>
    by_cases hLink : name = py "b"
    · subst hLink
      exact ne_of_eq_of_ne (walk_linked (fun _ _ => none) (cons_ne_nil (py "a") []) names) nofun
    · have hPlain : linkedSystem.isLink ([] ++ [name]) = false := by
        by_cases hName : name = py "a" <;> simp [isLink, linkedSystem, linkedEntry, hName, hLink]
      simp [follow, walk, advance_down hPlain, walk_linked]

def linked : Disk where
  toFileSystem := linkedSystem
  named path name h := by
    cases path with
    | nil =>
      have hName : name = py "a" ∨ name = py "b" := by
        by_contra hNot
        simp_all [linkedSystem, linkedEntry]
      rcases hName with rfl | rfl <;> decide
    | cons first path => simp [linkedSystem, linkedEntry] at h
  patience _ := 1
  patient path _ _ := follow_linked path

def linkedRoot : OutputRoot where
  path := ⟨.slash, [py "b"], by decide⟩
  absolute := rfl
  normal := by decide

theorem linked_not_contains : ¬Contains linked linkedRoot := fun h => by
  obtain ⟨real, hKnown⟩ := h.known
  cases hKnown.rooted
  have hNearest : linked.nearest [py "b"] = [py "b"] := by
    rw [Disk.nearest, if_pos (.inr (by decide))]
  obtain ⟨-, hPrefix⟩ := hKnown.written _ (hNearest ▸ rfl) (List.prefix_refl _)
  exact absurd hPrefix (by decide)

end Ici.OutputPaths
