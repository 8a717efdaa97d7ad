import Ici.Domain.Raised
import Ici.Domain.Scoping

/-! # What the parts of a workspace accept, and how they refuse -/

namespace Ici

open Option Python Raising Raises

structure IsRelativePath (t : Text) : Prop where
  isText : IsText t
  posix : 0x5c ∉ t
  relative : PurePosixPath.isAbsolute t = false
  contained : py ".." ∉ PurePosixPath.parts t
  canonical : PurePosixPath.asPosix t = t

def IsBelowRoot (t : Text) : Prop := IsRelativePath t ∧ t ≠ py "."

variable {value description : Text}

theorem requireRelativePath_eq_ok_iff {allowDot : Bool} :
    requireRelativePath value description allowDot = .ok () ↔
      IsRelativePath value ∧ (allowDot = false → value ≠ py ".") := by
  unfold requireRelativePath
  rw [seq_eq_ok, requireText_eq_ok_iff]
  constructor
  · rintro ⟨hText, h⟩
    split_ifs at h with hSlash hOutside hCanonical hDot
    obtain ⟨hRelative, hContained⟩ := not_or.mp hOutside
    refine ⟨⟨hText, hSlash, by simpa using hRelative, hContained, not_not.mp hCanonical⟩, ?_⟩
    rintro rfl rfl
    exact hDot ⟨rfl, rfl⟩
  · rintro ⟨h, hDot⟩
    refine ⟨h.isText, ?_⟩
    rw [if_neg h.posix, if_neg, if_neg (not_not.mpr h.canonical), if_neg]
    · rintro ⟨hAllow, hEq⟩
      exact hDot (by simpa using hAllow) hEq
    · rw [not_or]
      exact ⟨by simp [h.relative], h.contained⟩

theorem requireRelativePath_root_eq_ok_iff :
    requireRelativePath value description true = .ok () ↔ IsRelativePath value := by
  rw [requireRelativePath_eq_ok_iff]
  simp

theorem requireRelativePath_below_eq_ok_iff :
    requireRelativePath value description false = .ok () ↔ IsBelowRoot value := by
  rw [requireRelativePath_eq_ok_iff, IsBelowRoot]
  simp

theorem BuildUnitFields.check_eq_ok_iff {build : BuildUnitFields} :
    build.check = .ok () ↔ IsIdentifier build.id ∧ IsIdentifier build.system ∧
      IsIdentifier build.variant ∧ IsBelowRoot build.directory ∧
      (∀ definition ∈ build.definition, IsBelowRoot definition) ∧
      (∀ word ∈ build.prepareArgv, IsText word) ∧ ∀ glob ∈ build.artifacts, IsBelowRoot glob := by
  unfold check requireRelativePaths
  simp only [seq_eq_ok, forM_eq_ok, requireIdentifier_eq_ok_iff, requireText_eq_ok_iff,
    requireRelativePath_below_eq_ok_iff, mem_toList, mem_def]

theorem ComponentFields.check_eq_ok_iff {component : ComponentFields} :
    component.check = .ok () ↔ IsIdentifier component.id ∧ IsRelativePath component.root ∧
      ((∀ language ∈ component.languages, IsIdentifier language) ∧ component.languages.Nodup) ∧
      component.languages ≠ [] ∧ (∀ glob ∈ component.sources, IsBelowRoot glob) ∧
      ((∀ id ∈ component.buildIds, IsIdentifier id) ∧ component.buildIds.Nodup) ∧
      (∀ path ∈ component.testPaths, IsBelowRoot path) ∧
      ((∀ need ∈ component.needs, IsIdentifier need) ∧ component.needs.Nodup) ∧
      component.id ∉ component.needs ∧ (∀ glob ∈ component.include', IsBelowRoot glob) ∧
      (∀ glob ∈ component.exclude, IsBelowRoot glob) ∧ (∀ glob ∈ component.vendor, IsBelowRoot glob) ∧
      ∀ input ∈ component.external, IsText input := by
  unfold check requireRelativePaths
  simp only [seq_eq_ok, forM_eq_ok, requireIdentifier_eq_ok_iff, requireText_eq_ok_iff,
    requireRelativePath_below_eq_ok_iff, requireRelativePath_root_eq_ok_iff,
    requireIdentifiers_eq_ok_iff, refuseIf_eq_ok_iff, ne_eq]

/-! ## Refusals that say why -/

/-- A `ValueError` with a text of its own. -/
structure IsSpoken (e : PyError) : Prop where
  value : isValueError e = true
  text_ne : e.text ≠ []

abbrev RaisesSpoken {α : Type} (x : Result α) : Prop := Raises IsSpoken x

theorem isSpoken_valueError {text : Text} (h : text ≠ []) : IsSpoken (valueError text) := ⟨rfl, h⟩

theorem spoken_refuseIf {condition : Prop} [Decidable condition] {text : Text} (h : text ≠ []) :
    RaisesSpoken (refuseIf condition text) :=
  .ite (fun _ => .error (isSpoken_valueError h)) fun _ => .ok ()

section Primitives

variable (value description : Text)

theorem spoken_requireText : RaisesSpoken (requireText value description) := by
  refine .ite (fun _ => .error (isSpoken_valueError ?_)) fun _ =>
    .ite (fun _ => .error (isSpoken_valueError ?_)) fun _ => .ok ()
  · simp [py]
  · simp [py]

theorem spoken_requireIdentifier : RaisesSpoken (requireIdentifier value description) := by
  refine (spoken_requireText value description).bind fun _ =>
    .ite (fun _ => .ok ()) fun _ => .error (isSpoken_valueError ?_)
  simp [py]

theorem spoken_requireDigest : RaisesSpoken (requireDigest value description) := by
  refine (spoken_requireText value description).bind fun _ =>
    .ite (fun _ => .ok ()) fun _ => .error (isSpoken_valueError ?_)
  simp [py]

theorem spoken_requireUniqueIdentifiers (values : List Text) :
    RaisesSpoken (requireUniqueIdentifiers values description) := by
  refine .ite (fun _ => .ok ()) fun _ => .error (isSpoken_valueError ?_)
  simp [py]

theorem spoken_requireIdentifiers (values : List Text) :
    RaisesSpoken (requireIdentifiers values description) :=
  bind (.forM fun value _ => spoken_requireIdentifier value description) fun _ =>
    spoken_requireUniqueIdentifiers description values

end Primitives

theorem spoken_refuseCycle (components : List Component) : RaisesSpoken (refuseCycle components) := by
  unfold refuseCycle componentCycle
  split
  · exact .ok ()
  · apply error
    apply isSpoken_valueError
    simp [py]
  · rename_i hStop
    obtain ⟨⟨_, hCycle⟩, _⟩ := Cycles.search_error (fun id _ => componentEdges_subset components id)
      (by simp) hStop
    cases hCycle

section

variable (workspace : WorkspaceFields)

theorem spoken_checkUnit (unit : AnalysisUnit) : RaisesSpoken (workspace.checkUnit unit) := by
  apply Raises.bind
  · exact spoken_refuseIf (by simp [py])
  · intro _
    exact .forM fun build _ => spoken_refuseIf (by simp [py])

theorem spoken_checkDirectory (build : BuildUnit) : RaisesSpoken (workspace.checkDirectory build) := by
  unfold WorkspaceFields.checkDirectory
  split
  · exact spoken_refuseIf (by simp [py])
  · exact .ok ()

theorem spoken_checkReferences (component : Component) :
    RaisesSpoken (workspace.checkReferences component) := by
  apply Raises.bind
  · exact spoken_refuseIf (by simp [py])
  · intro _
    apply Raises.forM
    intro need _
    apply Raises.bind
    · exact spoken_refuseIf (by simp [py])
    · intro _
      exact spoken_refuseIf (by simp [py])

theorem spoken_workspaceCheck : RaisesSpoken workspace.check := by
  refine (spoken_requireIdentifier _ _).bind fun _ => ?_
  refine (spoken_requireText _ _).bind fun _ => ?_
  refine (spoken_requireUniqueIdentifiers _ _).bind fun _ => ?_
  refine (spoken_requireUniqueIdentifiers _ _).bind fun _ => ?_
  refine (spoken_requireUniqueIdentifiers _ _).bind fun _ => ?_
  refine bind (.forM fun unit _ => spoken_checkUnit workspace unit) fun _ => ?_
  refine bind (.forM fun build _ => spoken_checkDirectory workspace build) fun _ => ?_
  refine bind (.forM fun component _ => spoken_checkReferences workspace component) fun _ => ?_
  refine (spoken_refuseCycle _).bind fun _ => ?_
  refine (spoken_requireIdentifiers _ _).bind fun _ => ?_
  refine (spoken_refuseIf (by simp [py])).bind fun _ => ?_
  refine bind (.forM fun digest _ => spoken_requireDigest digest _) fun _ => ?_
  exact .forM fun limitation _ => spoken_requireText limitation _

end

theorem spoken_analysisUnitCheck {unit : AnalysisUnitFields} (h : unit.sources = []) :
    RaisesSpoken unit.check := by
  unfold AnalysisUnitFields.check
  rw [h]
  refine (spoken_requireIdentifier _ _).bind fun _ => ?_
  refine (spoken_requireIdentifier _ _).bind fun _ => ?_
  refine (spoken_requireIdentifier _ _).bind fun _ => ?_
  refine (ok ()).bind fun _ => ?_
  refine bind (.forM fun variant _ => spoken_requireIdentifier variant _) fun _ => ?_
  refine bind (.forM fun runtime _ => spoken_requireText runtime _) fun _ => ?_
  exact .forM fun build _ => spoken_requireIdentifier build _

theorem spoken_construct {α : Type} {check : α → Result Unit} {a : α}
    (h : RaisesSpoken (check a)) : RaisesSpoken (Checked.construct check a) :=
  fun e hEq => h e (Checked.construct_eq_error_iff.mp hEq)

end Ici
