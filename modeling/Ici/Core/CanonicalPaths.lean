import Ici.Core.Models

/-! # What a canonical path is

A canonical path spells the names of a file below the project root. The cut at the root is made
by length after a folded comparison, so what is below the root is known only where the cut falls
on the separator behind the root. -/

namespace Ici.Core

open List hiding splitOn splitOn_ne_nil
open Raising Python

/-! ## The names of a file -/

structure IsFileName (name : Text) : Prop where
  isPathName : IsPathName name
  ne_parent : name ≠ py ".."
  not_drive : isDrivePart name = false

/-- The file a text below the root denotes: a name spelled like a drive stands for nothing. -/
def lexicalFile (rest : Text) : List Text :=
  ((PurePosixPath.parts rest).filter (!isDrivePart ·)).foldl (collapse false) []

variable {value part relative path root rest filePath : Text} {parts : List Text} {casefold : Casefold}

theorem collapsePart_eq (parts : List Text) (hPart : IsPathName part)
    (hDrive : isDrivePart part = false) : collapsePart value parts part =
      if part = py ".." then
        if parts = [] then .error (valueError (py "path escapes the project root: " ++ pyRepr value))
        else .ok parts.dropLast
      else .ok (parts ++ [part]) := by
  have hSlash : part ≠ py "/" := by
    rintro rfl
    exact hPart.2.2 (by decide)
  rw [collapsePart, if_neg (by simp [hPart.1, hPart.2.1, hSlash]), if_neg (by simp [hDrive])]

theorem collapsePart_drive (parts : List Text) (hDrive : isDrivePart part) :
    collapsePart value parts part = .ok parts := by
  rw [collapsePart]
  split_ifs <;> rfl

theorem collapse_eq (hParts : ∀ name ∈ parts, IsFileName name) (hSome : part = py ".." → parts ≠ []) :
    collapse false parts part = if part = py ".." then parts.dropLast else parts ++ [part] := by
  rw [collapse]
  by_cases hParent : part = py ".."
  · have hLast : parts.getLast? ≠ some (py "..") := by
      intro h
      exact (hParts _ (mem_of_getLast? h)).ne_parent rfl
    simp [hParent, hSome hParent, hLast]
  · simp [hParent]

theorem foldlM_collapsePart {more parts' : List Text}
    (hMore : ∀ name ∈ more, IsPathName name) (hParts : ∀ name ∈ parts, IsFileName name)
    (h : more.foldlM (collapsePart value) parts = .ok parts') :
    parts' = (more.filter (!isDrivePart ·)).foldl (collapse false) parts ∧
      ∀ name ∈ parts', IsFileName name := by
  induction more generalizing parts with
  | nil =>
    cases h
    exact ⟨rfl, hParts⟩
  | cons part more ih =>
    obtain ⟨middle, hFirst, hRest⟩ := foldlM_cons_eq_ok.mp h
    rw [forall_mem_cons] at hMore
    cases hDrive : isDrivePart part with
    | true =>
      rw [collapsePart_drive parts hDrive] at hFirst
      cases hFirst
      rw [filter_cons_of_neg (by simp [hDrive])]
      exact ih hMore.2 hParts hRest
    | false =>
      rw [collapsePart_eq parts hMore.1 hDrive] at hFirst
      rw [filter_cons_of_pos (by simp [hDrive]), foldl_cons]
      have hStep : middle = collapse false parts part ∧ ∀ name ∈ middle, IsFileName name := by
        split_ifs at hFirst with hParent hNone
        · cases hFirst
          rw [collapse_eq hParts (fun _ => hNone), if_pos hParent]
          exact ⟨rfl, fun name hName => hParts name (dropLast_subset _ hName)⟩
        · cases hFirst
          rw [collapse_eq hParts (fun hSame => absurd hSame hParent), if_neg hParent]
          refine ⟨rfl, fun name hName => ?_⟩
          rcases mem_append.mp hName with hOld | hNew
          · exact hParts name hOld
          · rw [mem_singleton.mp hNew]
            exact ⟨hMore.1, hParent, hDrive⟩
      rw [← hStep.1]
      exact ih hMore.2 hStep.2 hRest

def spelled (file : List Text) : Text := orDot (join (py "/") file)

theorem collapseRelative_ok (hRoot : (PurePath.parse relative).root ≠ .doubleSlash)
    (h : collapseRelative relative = .ok path) :
    path = spelled (lexicalFile relative) ∧ ∀ name ∈ lexicalFile relative, IsFileName name := by
  obtain ⟨parts, hParts, hPath⟩ := bind_eq_ok.mp h
  cases hPath
  have hNames : (PurePosixPath.parts relative).foldlM (collapsePart relative) [] = .ok parts := by
    rw [PurePath.parts] at hParts
    split_ifs at hParts with hAbsolute
    · have hSlash : (PurePath.parse relative).root.text = py "/" := by
        cases hAnchor : (PurePath.parse relative).root with
        | relative => simp [PurePath.isAbsolute, hAnchor] at hAbsolute
        | slash => rfl
        | doubleSlash => exact absurd hAnchor hRoot
      obtain ⟨middle, hFirst, hRest⟩ := foldlM_cons_eq_ok.mp hParts
      rw [hSlash, collapsePart, if_pos (by simp)] at hFirst
      cases hFirst
      exact hRest
    · exact hParts
  obtain ⟨rfl, hNamed⟩ := foldlM_collapsePart (fun name => PurePath.isPathName_of_mem_parts) (by simp) hNames
  exact ⟨rfl, hNamed⟩

/-! ## The path that spells a file -/

section Spelled

variable {file : List Text}

section

variable (hFile : ∀ name ∈ file, IsFileName name)
include hFile

theorem join_names_ne_nil (hSome : file ≠ []) : join (py "/") file ≠ [] := by
  intro hNone
  have hSplit : splitOn 0x2f (join (py "/") file) = file :=
    splitOn_join hSome fun name h => (hFile name h).isPathName.2.2
  rw [hNone] at hSplit
  have hEmpty : ([] : Text) ∈ file := hSplit ▸ mem_singleton.mpr rfl
  exact (hFile [] hEmpty).isPathName.1 rfl

theorem spelled_eq_join (hSome : file ≠ []) :
    spelled file = join (py "/") file := if_neg (join_names_ne_nil hFile hSome)

theorem splitOn_spelled (hSome : file ≠ []) : splitOn 0x2f (spelled file) = file := by
  rw [spelled_eq_join hFile hSome]
  exact splitOn_join hSome fun name h => (hFile name h).isPathName.2.2

omit hFile in
theorem spelled_inj {file' : List Text} (hFile : ∀ name ∈ file, IsFileName name)
    (hFile' : ∀ name ∈ file', IsFileName name) : spelled file = spelled file' ↔ file = file' := by
  refine ⟨fun hSame => ?_, congrArg spelled⟩
  have hRoot : ∀ {file : List Text}, (∀ name ∈ file, IsFileName name) → spelled file = py "." →
      file = [] := by
    intro file hFile hDot
    by_contra hSome
    have hSplit := splitOn_spelled hFile hSome
    rw [hDot] at hSplit
    have hName : py "." ∈ file := hSplit ▸ by decide
    exact (hFile _ hName).isPathName.2.1 rfl
  by_cases hNone : file = []
  · have hDot : spelled file' = py "." := by
      rw [← hSame, hNone]
      decide
    rw [hNone, hRoot hFile' hDot]
  · by_cases hNone' : file' = []
    · exact absurd (hRoot hFile (by rw [hSame, hNone']; decide)) hNone
    · rw [← splitOn_spelled hFile hNone, hSame, splitOn_spelled hFile' hNone']

theorem parts_spelled : PurePosixPath.parts (spelled file) = file := by
  by_cases hNone : file = []
  · rw [hNone]
    decide
  · rw [PurePosixPath.parts, splitOn_spelled hFile hNone]
    exact PurePath.filter_names fun name h => (hFile name h).isPathName

theorem head?_spelled : (spelled file).head? ≠ some 0x2f := by
  by_cases hNone : file = []
  · rw [hNone]
    decide
  · rw [spelled_eq_join hFile hNone]
    exact PurePath.head?_join_names fun name h => (hFile name h).isPathName

omit hFile in
theorem exists_of_hasDrive {t : Text} (h : hasDrive t) :
    ∃ letter rest, t = letter :: 0x3a :: 0x2f :: rest ∧ isDriveLetter letter := by
  unfold hasDrive at h
  split at h
  · rename_i letter colon slash rest
    simp only [Bool.and_eq_true, beq_iff_eq] at h
    obtain ⟨⟨hLetter, rfl⟩, rfl⟩ := h
    exact ⟨letter, rest, rfl, hLetter⟩
  · cases h

theorem hasDrive_spelled : hasDrive (spelled file) = false := by
  by_contra hDrive
  rw [Bool.not_eq_false] at hDrive
  obtain ⟨letter, rest, hSpelled, hLetter⟩ := exists_of_hasDrive hDrive
  have hSome : file ≠ [] := by
    rintro rfl
    exact absurd hDrive (by decide)
  have hSplit := splitOn_spelled hFile hSome
  have hNotSlash : letter ≠ 0x2f := by
    rintro rfl
    exact absurd hLetter (by decide)
  have hName : [letter, 0x3a] ∈ file := by
    rw [← hSplit, hSpelled]
    simp [splitOn, hNotSlash]
  have hPart := (hFile _ hName).not_drive
  simp [isDrivePart, hLetter] at hPart

theorem withoutTrailingSlash_spelled : withoutTrailingSlash (spelled file) = spelled file := by
  rcases eq_nil_or_concat file with rfl | ⟨front, last, rfl⟩
  · decide
  · have hLast : IsFileName last := hFile last (by simp)
    rw [concat_eq_append] at hFile ⊢
    rw [spelled_eq_join hFile (by simp)]
    have hEnds : ∃ before, join (py "/") (front ++ [last]) = before ++ last := by
      by_cases hFront : front = []
      · exact ⟨[], by rw [hFront, nil_append, join_singleton, nil_append]⟩
      · exact ⟨join (py "/") front ++ py "/", by rw [join_concat hFront, append_assoc]⟩
    obtain ⟨before, hBefore⟩ := hEnds
    rw [withoutTrailingSlash, rdropWhile_eq_self_iff]
    intro hText hSlash
    have hIn : (0x2f : CodePoint) ∈ last := by
      simp only [hBefore] at hSlash
      rw [getLast_append_of_ne_nil _ hLast.isPathName.1, beq_iff_eq] at hSlash
      exact hSlash ▸ getLast_mem hLast.isPathName.1
    exact hLast.isPathName.2.2 hIn

omit hFile in
theorem slashPath_spelled (hSlashes : ∀ name ∈ file, (0x5c : CodePoint) ∉ name) :
    slashPath (spelled file) = spelled file := by
  have hNone : (0x5c : CodePoint) ∉ spelled file := by
    rw [spelled, orDot]
    split_ifs
    · decide
    · intro hIn
      rcases mem_join hIn with hSeparator | ⟨name, hName, hc⟩
      · exact absurd hSeparator (by decide)
      · exact hSlashes name hName hc
  rw [slashPath]
  conv_rhs => rw [← List.map_id (spelled file)]
  apply map_congr_left
  intro c hc
  exact if_neg fun hSame : c = 0x5c => hNone (hSame ▸ hc)

theorem collapseRelative_spelled : collapseRelative (spelled file) = .ok (spelled file) := by
  have hRelative : (PurePath.parse (spelled file)).parts = file := by
    have hAbsolute : PurePosixPath.isAbsolute (spelled file) = false := by
      simpa [PurePosixPath.isAbsolute] using head?_spelled hFile
    rw [PurePath.parts, PurePath.isAbsolute_parse, hAbsolute]
    exact parts_spelled hFile
  have hKept : ∀ (more parts : List Text), (∀ name ∈ more, IsFileName name) →
      more.foldlM (collapsePart (spelled file)) parts = .ok (parts ++ more) := by
    intro more
    induction more with
    | nil => simp [pure, Except.pure]
    | cons name more ih =>
      intro parts hMore
      rw [forall_mem_cons] at hMore
      rw [foldlM_cons, collapsePart_eq parts hMore.1.isPathName hMore.1.not_drive, if_neg hMore.1.ne_parent]
      have hRest := ih (parts ++ [name]) hMore.2
      rw [append_assoc] at hRest
      exact hRest
  rw [collapseRelative, hRelative, hKept file [] hFile]
  rfl

theorem canonicalProjectPath_spelled (hSlashes : ∀ name ∈ file, (0x5c : CodePoint) ∉ name)
    (hDrive : isDriveRelative (spelled file) = false)
    (casefold : Casefold) (projectRoot : Option Text) :
    canonicalProjectPath casefold projectRoot (spelled file) = .ok (spelled file) := by
  have hValue : orDot (withoutTrailingSlash (slashPath (spelled file))) = spelled file := by
    rw [slashPath_spelled hSlashes, withoutTrailingSlash_spelled hFile]
    exact if_neg (orDot_ne_nil _)
  have hRelative (root : Text) : relativeValue casefold root (spelled file) = .ok (spelled file) := by
    rw [relativeValue, if_neg (by simp [head?_spelled hFile, hasDrive_spelled hFile])]
  rw [canonicalProjectPath, hValue, hDrive, hRelative]
  exact collapseRelative_spelled hFile

end

end Spelled

/-! ## What is below the root -/

def slashedValue (filePath : Text) : Text := orDot (withoutTrailingSlash (slashPath filePath))

/-- The text below the root: all of a relative path, nothing of the root itself, and otherwise what
stands behind the separator that follows as many code points as the root has, where these fold
to what the root folds to. -/
inductive IsBelow (casefold : Casefold) (root : Text) : Text → Text → Prop
  | relative {value : Text} (hRelative : ¬(value.head? = some 0x2f ∨ hasDrive value)) :
      IsBelow casefold root value value
  | root {value : Text} (hAbsolute : value.head? = some 0x2f ∨ hasDrive value) (hRoot : root ≠ [])
      (hSame : comparisonValue casefold value = comparisonValue casefold root) :
      IsBelow casefold root value (py ".")
  | anywhere {value : Text} (hAbsolute : value.head? = some 0x2f ∨ hasDrive value)
      (hOther : comparisonValue casefold value ≠ comparisonValue casefold root) (hRoot : root = py "/") :
      IsBelow casefold root value (value.dropWhile (· == 0x2f))
  | below {front rest : Text} (hAbsolute : (front ++ 0x2f :: rest).head? = some 0x2f ∨
        hasDrive (front ++ 0x2f :: rest)) (hRoot : root ≠ [] ∧ root ≠ py "/")
      (hOther : comparisonValue casefold (front ++ 0x2f :: rest) ≠ comparisonValue casefold root)
      (hLength : front.length = root.length)
      (hFront : comparisonValue casefold front = comparisonValue casefold root)
      (hFound : (comparisonValue casefold root ++ py "/").isPrefixOf
        (comparisonValue casefold (front ++ 0x2f :: rest))) :
      IsBelow casefold root (front ++ 0x2f :: rest) rest

theorem IsBelow.relativeValue_eq
    (h : IsBelow casefold root value rest) : relativeValue casefold root value = .ok rest := by
  cases h with
  | relative hRelative => rw [relativeValue, if_neg hRelative]
  | root hAbsolute hRoot hSame =>
    rw [relativeValue, if_pos hAbsolute, belowRoot, if_neg hRoot]
    exact if_pos hSame
  | anywhere hAbsolute hOther hRoot =>
    have hSome : root ≠ [] := by
      rw [hRoot]
      decide
    rw [relativeValue, if_pos hAbsolute, belowRoot, if_neg hSome]
    dsimp only
    rw [if_neg hOther, if_pos hRoot]
  | below hAbsolute hRoot hOther hLength hFront hFound =>
    rw [relativeValue, if_pos hAbsolute, belowRoot, if_neg hRoot.1]
    dsimp only
    rw [if_neg hOther, if_neg hRoot.2, if_pos hFound, ← hLength]
    simp

theorem notMem_slashedValue (filePath : Text) : (0x5c : CodePoint) ∉ slashedValue filePath := by
  rw [slashedValue, orDot]
  split_ifs
  · decide
  · intro hIn
    have hMapped : (0x5c : CodePoint) ∈ slashPath filePath :=
      (List.rdropWhile_prefix _ _).subset hIn
    obtain ⟨c, -, hc⟩ := mem_map.mp hMapped
    split_ifs at hc with hBack
    · exact absurd hc (by decide)
    · exact hBack hc

theorem notMem_of_relativeValue (h : relativeValue casefold root (slashedValue filePath) = .ok relative) :
    (0x5c : CodePoint) ∉ relative := by
  have hValue := notMem_slashedValue filePath
  rw [relativeValue] at h
  split_ifs at h with hAbsolute
  · rw [belowRoot] at h
    dsimp only at h
    split_ifs at h
    · cases h
      decide
    · cases h
      exact fun hIn => hValue ((dropWhile_suffix _).subset hIn)
    · cases h
      exact fun hIn => hValue (mem_of_mem_drop hIn)
  · cases h
    exact hValue

theorem notMem_lexicalFile {c : CodePoint} (h : c ∉ rest) : ∀ name ∈ lexicalFile rest, c ∉ name := by
  intro name hName hc
  rcases mem_foldl_collapse hName with hNil | hPart
  · exact absurd hNil not_mem_nil
  · have hPiece := (mem_filter.mp (mem_filter.mp hPart).1).1
    exact h (mem_of_mem_splitOn hPiece hc)

theorem canonicalProjectPath_ok {projectRoot : Option Text}
    (h : canonicalProjectPath casefold projectRoot filePath = .ok path) :
    ∃ relative, relativeValue casefold (rootText projectRoot) (slashedValue filePath) = .ok relative ∧
      collapseRelative relative = .ok path := by
  rw [canonicalProjectPath] at h
  split_ifs at h
  obtain ⟨relative, hRelative, hCollapse⟩ := bind_eq_ok.mp h
  exact ⟨relative, hRelative, hCollapse⟩

def CutIsClean (casefold : Casefold) (projectRoot : Option Text) (filePath : Text) : Prop :=
  ∀ relative, relativeValue casefold (rootText projectRoot) (slashedValue filePath) = .ok relative →
    (PurePath.parse relative).root ≠ .doubleSlash

/-- A canonical path is the root or has names only, is canonical again unless its first name starts
like a drive, and is shared by exactly the inputs that denote the same file below the root. -/
theorem canonicalProjectPath_canonical (casefold : Casefold) (projectRoot : Option Text)
    (filePath : Text) {path : Text} (h : canonicalProjectPath casefold projectRoot filePath = .ok path)
    (hClean : CutIsClean casefold projectRoot filePath) :
    (path = py "." ∨ ∀ segment ∈ splitOn 0x2f path,
      segment ≠ [] ∧ segment ≠ py "." ∧ segment ≠ py ".." ∧ isDrivePart segment = false) ∧
    (isDriveRelative path = false → ∀ otherRoot, canonicalProjectPath casefold otherRoot path = .ok path) ∧
    ∀ filePath' path' rest rest', canonicalProjectPath casefold projectRoot filePath' = .ok path' →
      CutIsClean casefold projectRoot filePath' →
      IsBelow casefold (rootText projectRoot) (slashedValue filePath) rest →
      IsBelow casefold (rootText projectRoot) (slashedValue filePath') rest' →
      (path = path' ↔ lexicalFile rest = lexicalFile rest') := by
  obtain ⟨relative, hRelative, hCollapse⟩ := canonicalProjectPath_ok h
  obtain ⟨rfl, hFile⟩ := collapseRelative_ok (hClean relative hRelative) hCollapse
  refine ⟨?_, ?_, ?_⟩
  · by_cases hSome : lexicalFile relative = []
    · refine .inl ?_
      rw [hSome]
      decide
    · refine .inr ?_
      rw [splitOn_spelled hFile hSome]
      intro segment hSegment
      have hName := hFile segment hSegment
      exact ⟨hName.isPathName.1, hName.isPathName.2.1, hName.ne_parent, hName.not_drive⟩
  · intro hDrive otherRoot
    have hSlashes := notMem_lexicalFile (notMem_of_relativeValue hRelative)
    exact canonicalProjectPath_spelled hFile hSlashes hDrive casefold otherRoot
  · intro filePath' path' rest rest' h' hClean' hBelow hBelow'
    obtain ⟨relative', hRelative', hCollapse'⟩ := canonicalProjectPath_ok h'
    obtain ⟨rfl, hFile'⟩ := collapseRelative_ok (hClean' relative' hRelative') hCollapse'
    rw [hBelow.relativeValue_eq] at hRelative
    rw [hBelow'.relativeValue_eq] at hRelative'
    cases hRelative
    cases hRelative'
    exact spelled_inj hFile hFile'

/-- Two files below `/srv/app`, one of them spelled with a detour. -/
theorem canonicalProjectPath_detour : (py "a/b" = py "." ∨ ∀ segment ∈ splitOn 0x2f (py "a/b"),
      segment ≠ [] ∧ segment ≠ py "." ∧ segment ≠ py ".." ∧ isDrivePart segment = false) ∧
    (isDriveRelative (py "a/b") = false →
      ∀ otherRoot, canonicalProjectPath id otherRoot (py "a/b") = .ok (py "a/b")) ∧
    ∀ filePath' path' rest rest', canonicalProjectPath id (some (py "/srv/app")) filePath' = .ok path' →
      CutIsClean id (some (py "/srv/app")) filePath' →
      IsBelow id (rootText (some (py "/srv/app"))) (slashedValue (py "/srv/app/c/../a//b/")) rest →
      IsBelow id (rootText (some (py "/srv/app"))) (slashedValue filePath') rest' →
      (py "a/b" = path' ↔ lexicalFile rest = lexicalFile rest') := by
  apply canonicalProjectPath_canonical id (some (py "/srv/app")) (py "/srv/app/c/../a//b/")
  · decide +kernel
  · intro relative hRelative
    have hCut : relativeValue id (rootText (some (py "/srv/app"))) (slashedValue (py "/srv/app/c/../a//b/")) =
        .ok (py "c/../a//b") := by decide +kernel
    rw [hCut] at hRelative
    cases hRelative
    decide +kernel

example : IsBelow id (py "/srv/app") (py "/srv/app" ++ 0x2f :: py "a") (py "a") :=
  .below (by decide) (by decide) (by decide) rfl rfl (by decide)

/-- The root itself is the segment `.`, and a name spelled like a drive is lost: a file in the
directory `a/c:` and a file in `a` share a path. -/
theorem drive_name_lost : canonicalProjectPath id none (py ".") = .ok (py ".") ∧
    canonicalProjectPath id none (py "a/c:/b") = .ok (py "a/b") ∧
    canonicalProjectPath id none (py "a/b") = .ok (py "a/b") ∧
    normpath (py "a/c:/b") ≠ normpath (py "a/b") := by
  decide +kernel

end Ici.Core
