import Mathlib.Data.List.Infix

/-! # Trees of files

A path is the list of the names on the way down. What is anywhere in the tree lies in a directory. -/

namespace Filing

open Option List

universe u v

inductive Entry (κ : Type v) where
  | file (content : κ)
  | directory
  /-- A symbolic link, and whether it leads to a directory. -/
  | link (toDirectory : Bool)
deriving DecidableEq

section Kinds

variable {κ : Type v}

def isDirectory : Option (Entry κ) → Bool
  | some .directory => true
  | _ => false

def isFile : Option (Entry κ) → Bool
  | some (.file _) => true
  | _ => false

def isLink : Option (Entry κ) → Bool
  | some (.link _) => true
  | _ => false

def isOpen (entry : Option (Entry κ)) : Bool := entry.isNone || isDirectory entry

variable {entry : Option (Entry κ)}

theorem isDirectory_iff : isDirectory entry = true ↔ entry = some .directory := by
  cases entry with
  | none => simp [isDirectory]
  | some entry => cases entry <;> simp [isDirectory]

theorem isFile_iff : isFile entry = true ↔ ∃ content, entry = some (.file content) := by
  cases entry with
  | none => simp [isFile]
  | some entry => cases entry <;> simp [isFile]

theorem isOpen_iff : isOpen entry = true ↔ entry = none ∨ entry = some .directory := by
  rw [isOpen, Bool.or_eq_true, isNone_iff_eq_none, isDirectory_iff]

end Kinds

structure FileTree (ν : Type u) (κ : Type v) where
  entry : List ν → Option (Entry κ)
  base : entry [] = some .directory
  within : ∀ path name, entry (path ++ [name]) ≠ none → entry path = some .directory

namespace FileTree

variable {ν : Type u} {κ : Type v} (tree : FileTree ν κ)

def empty : FileTree ν κ where
  entry path := if path.isEmpty then some .directory else none
  base := rfl
  within path name h := by simp at h

variable {tree} in
theorem entry_above {path below : List ν} (hPrefix : path <+: below) (hNe : path ≠ below)
    (hBelow : tree.entry below ≠ none) : tree.entry path = some .directory := by
  obtain ⟨rest, rfl⟩ := hPrefix
  induction rest using List.reverseRecOn with
  | nil => exact absurd (append_nil path).symm hNe
  | append_singleton rest name ih =>
    rw [← append_assoc] at hBelow
    have hAbove := tree.within _ _ hBelow
    cases rest with
    | nil => rwa [append_nil] at hAbove
    | cons next rest =>
      refine ih ?_ (by rw [hAbove]; exact some_ne_none _)
      intro hSame
      exact absurd (congrArg List.length hSame) (by simp)

variable {tree} in
theorem not_prefix_of_isFile {path below : List ν} (hPath : isFile (tree.entry path) = true)
    (hBelow : tree.entry below ≠ none) (hPrefix : path <+: below) : path = below := by
  by_contra hNe
  rw [entry_above hPrefix hNe hBelow] at hPath
  cases hPath

/-! ## Changes -/

variable [DecidableEq ν]

def makeDirectories (path : List ν) : Option (FileTree ν κ) :=
  if path.inits.all fun above => isOpen (tree.entry above) then
    some
      { entry := fun other => if other <+: path then some .directory else tree.entry other
        base := if_pos List.nil_prefix
        within := by
          intro other name h
          split_ifs with hOther
          · rfl
          · rw [if_neg fun hPrefix => hOther ((List.prefix_append _ _).trans hPrefix)] at h
            exact tree.within other name h }
  else none

def put (path : List ν) (content : κ) : Option (FileTree ν κ) :=
  if h : path ≠ [] ∧ isDirectory (tree.entry path.dropLast) = true ∧
      isDirectory (tree.entry path) = false then
    some
      { entry := fun other => if other = path then some (.file content) else tree.entry other
        base := by rw [if_neg (Ne.symm h.1), tree.base]
        within := by
          intro other name hName
          by_cases hPath : other ++ [name] = path
          · have hAbove := isDirectory_iff.mp h.2.1
            rw [← hPath, List.dropLast_concat] at hAbove
            have hNe : other ≠ path := fun hSame => by simp [← hSame] at hPath
            rw [if_neg hNe, hAbove]
          · rw [if_neg hPath] at hName
            have hOther := tree.within other name hName
            have hNe : other ≠ path := fun hSame => by
              rw [← hSame, hOther] at h
              exact absurd h.2.2 (by simp [isDirectory])
            rw [if_neg hNe, hOther] }
  else none

def take (path : List ν) : Option (κ × FileTree ν κ) :=
  match h : tree.entry path with
  | some (.file content) =>
    some (content,
      { entry := fun other => if other = path then none else tree.entry other
        base := by
          have hNe : [] ≠ path := fun hSame => by
            rw [← hSame, tree.base] at h
            cases h
          rw [if_neg hNe, tree.base]
        within := by
          intro other name hName
          split_ifs at hName with hPath
          · exact absurd rfl hName
          · have hOther := tree.within other name hName
            have hNe : other ≠ path := fun hSame => by
              rw [← hSame, hOther] at h
              cases h
            rw [if_neg hNe, hOther] })
  | _ => none

variable {tree} {after : FileTree ν κ} {path : List ν} {content : κ}

theorem entry_makeDirectories (h : tree.makeDirectories path = some after) (other : List ν) :
    after.entry other = if other <+: path then some .directory else tree.entry other := by
  rw [makeDirectories] at h
  split_ifs at h with hOpen
  rw [← some.inj h]

theorem makeDirectories_isSome_iff :
    (tree.makeDirectories path).isSome ↔ ∀ above, above <+: path → isOpen (tree.entry above) = true := by
  rw [makeDirectories]
  split_ifs with hOpen
  · simpa using hOpen
  · simpa using hOpen

theorem entry_put (h : tree.put path content = some after) (other : List ν) :
    after.entry other = if other = path then some (.file content) else tree.entry other := by
  rw [put] at h
  split_ifs at h
  rw [← some.inj h]

theorem put_isSome_iff : (tree.put path content).isSome ↔
    path ≠ [] ∧ isDirectory (tree.entry path.dropLast) = true ∧ isDirectory (tree.entry path) = false := by
  rw [put]
  split_ifs with h
  · simpa using h
  · simpa using h

theorem take_isSome_iff : (tree.take path).isSome ↔ isFile (tree.entry path) = true := by
  rw [take, isFile_iff]
  split
  · rename_i content h
    exact ⟨fun _ => ⟨content, h⟩, fun _ => rfl⟩
  · rename_i h
    exact ⟨fun hNone => (nomatch hNone), fun ⟨content, hContent⟩ => absurd hContent (h content)⟩

theorem entry_take (h : tree.take path = some (content, after)) : tree.entry path = some (.file content) ∧
      ∀ other, after.entry other = if other = path then none else tree.entry other := by
  rw [take] at h
  split at h
  · rename_i held hHeld
    obtain ⟨rfl, rfl⟩ := Prod.mk.inj (some.inj h)
    exact ⟨hHeld, fun other => rfl⟩
  · cases h

end FileTree

end Filing
