import Mathlib.Data.Set.Finite.Basic

/-! # Following symbolic links

A path is walked name by name. Where a name is a link, the steps of its target come before the rest. -/

namespace Linking

open List

universe u

inductive Step (ν : Type u) where
  /-- An empty name or a dot. -/
  | stay
  | up
  | down (name : ν)

inductive Entry (ν : Type u) where
  | file
  | directory
  | link (absolute : Bool) (target : List (Step ν))

structure FileSystem (ν : Type u) where
  entry : List ν → Option (Entry ν)
  base : entry [] = some .directory
  within : ∀ path name, entry (path ++ [name]) ≠ none → entry path = some .directory
  finite : {path | entry path ≠ none}.Finite
  /-- The links the system follows on one walk. -/
  limit : Nat

namespace FileSystem

variable {ν : Type u} (fs : FileSystem ν)

def isDirectory (path : List ν) : Bool :=
  match fs.entry path with
  | some .directory => true
  | _ => false

def isLink (path : List ν) : Bool :=
  match fs.entry path with
  | some (.link _ _) => true
  | _ => false

/-- Where a step goes, and the target of the link it meets. -/
def advance (path : List ν) : Step ν → List ν × Option (List (Step ν))
  | .stay => (path, none)
  | .up => (path.dropLast, none)
  | .down name =>
    match fs.entry (path ++ [name]) with
    | some (.link absolute target) => (if absolute then [] else path, some target)
    | _ => (path ++ [name], none)

/-- A walk up to the first link. A strict one steps from directories only. -/
def walk (strict : Bool) (through : List ν → List (Step ν) → Option (List ν)) (path : List ν) :
    List (Step ν) → Option (List ν)
  | [] => some path
  | step :: rest =>
    if strict && !fs.isDirectory path then none
    else match fs.advance path step with
      | (next, none) => walk strict through next rest
      | (next, some target) => through next (target ++ rest)

def follow (strict : Bool) : Nat → List ν → List (Step ν) → Option (List ν)
  | 0 => fs.walk strict fun _ _ => none
  | links + 1 => fs.walk strict (follow strict links)

/-- Where a walk ends. -/
inductive Leads : List ν → List (Step ν) → List ν → Prop where
  | here (path : List ν) : Leads path [] path
  | step {path step rest goal} :
      Leads (fs.advance path step).1 ((fs.advance path step).2.getD [] ++ rest) goal →
      Leads path (step :: rest) goal

variable {fs} {path goal middle base names : List ν} {steps rest : List (Step ν)} {strict : Bool} {name : ν}

variable {through : List ν → List (Step ν) → Option (List ν)}

theorem leads_of_walk (hThrough : ∀ path steps, through path steps = some goal → fs.Leads path steps goal)
    (h : fs.walk strict through path steps = some goal) : fs.Leads path steps goal := by
  fun_induction walk fs strict through path steps with
  | case1 path =>
    cases h
    exact .here _
  | case2 => cases h
  | case3 path step rest _ next hNext ih => exact .step (by rw [hNext]; exact ih h)
  | case4 path step rest _ next target hNext => exact .step (by rw [hNext]; exact hThrough _ _ h)

theorem leads_of_follow {links : Nat} (h : fs.follow strict links path steps = some goal) :
    fs.Leads path steps goal := by
  induction links generalizing path steps with
  | zero => exact leads_of_walk (by exact fun _ _ => nofun) h
  | succ links ih => exact leads_of_walk (fun _ _ => ih) h

theorem walk_of_strict {through lenient : List ν → List (Step ν) → Option (List ν)}
    (hThrough : ∀ path steps, through path steps = some goal → lenient path steps = some goal)
    (h : fs.walk true through path steps = some goal) : fs.walk false lenient path steps = some goal := by
  fun_induction walk fs true through path steps with
  | case1 => exact h
  | case2 => cases h
  | case3 path step rest _ next hNext ih => simpa [walk, hNext] using ih h
  | case4 path step rest _ next target hNext => simpa [walk, hNext] using hThrough _ _ h

/-- A walk that steps from directories only ends where any other does. -/
theorem follow_of_strict {links : Nat} (h : fs.follow true links path steps = some goal) :
    fs.follow false links path steps = some goal := by
  induction links generalizing path steps with
  | zero => exact walk_of_strict (fun _ _ h => h) h
  | succ links ih => exact walk_of_strict (fun _ _ => ih) h

theorem walk_front (hThrough : ∀ path steps, (through path (steps ++ rest)).isSome →
      ∃ middle, through path steps = some middle ∧ (rest ≠ [] → fs.isDirectory middle = true))
    (h : (fs.walk true through path (steps ++ rest)).isSome) :
    ∃ middle, fs.walk true through path steps = some middle ∧ (rest ≠ [] → fs.isDirectory middle = true) := by
  induction steps generalizing path with
  | nil =>
    refine ⟨path, rfl, fun hRest => ?_⟩
    obtain ⟨step, later, rfl⟩ := exists_cons_of_ne_nil hRest
    rw [nil_append, walk] at h
    split at h
    · cases h
    · simpa using ‹¬(true && !fs.isDirectory path) = true›
  | cons step steps ih =>
    rw [cons_append, walk] at h
    rw [walk]
    split at h
    · cases h
    · rename_i hDirectory
      rw [if_neg hDirectory]
      cases hNext : fs.advance path step with
      | mk next target =>
        simp only [hNext] at h
        cases target with
        | none => exact ih h
        | some target => exact hThrough next (target ++ steps) (by rwa [append_assoc])

/-- What lies on the way of a walk is a directory. -/
theorem follow_front {links : Nat} (h : (fs.follow true links path (steps ++ rest)).isSome) :
    ∃ middle, fs.follow true links path steps = some middle ∧ (rest ≠ [] → fs.isDirectory middle = true) := by
  induction links generalizing path steps with
  | zero => exact walk_front (fun _ _ => nofun) h
  | succ links ih => exact walk_front (fun _ _ => ih) h

theorem Leads.unique {other : List ν} (h : fs.Leads path steps goal) (hOther : fs.Leads path steps other) :
    goal = other := by
  induction h with
  | here =>
    cases hOther
    rfl
  | step _ ih =>
    cases hOther with
    | step hOther => exact ih hOther

theorem leads_append : fs.Leads path (steps ++ rest) goal ↔
    ∃ middle, fs.Leads path steps middle ∧ fs.Leads middle rest goal := by
  constructor
  · intro h
    generalize hAll : steps ++ rest = all at h
    induction h generalizing steps with
    | here path =>
      obtain ⟨rfl, rfl⟩ := append_eq_nil_iff.mp hAll
      exact ⟨path, .here _, .here _⟩
    | step h ih =>
      rcases append_eq_cons_iff.mp hAll with ⟨rfl, rfl⟩ | ⟨later, rfl, rfl⟩
      · exact ⟨_, .here _, .step h⟩
      · obtain ⟨middle, hMiddle, hRest⟩ := ih (append_assoc _ later rest)
        exact ⟨middle, .step hMiddle, hRest⟩
  · rintro ⟨middle, h, hRest⟩
    induction h with
    | here => exact hRest
    | step _ ih => exact .step (append_assoc _ _ _ ▸ ih hRest)

/-! ## Paths without links -/

/-- No link lies on the way. -/
def Plain (fs : FileSystem ν) (path : List ν) : Prop := ∀ above, above <+: path → fs.isLink above = false

theorem advance_down (h : fs.isLink (path ++ [name]) = false) :
    fs.advance path (.down name) = (path ++ [name], none) := by
  unfold isLink at h
  unfold advance
  grind

theorem plain_nil : fs.Plain [] := fun above hAbove => by
  rw [prefix_nil.mp hAbove, isLink, fs.base]

theorem Plain.snoc (h : fs.Plain path) (hName : fs.isLink (path ++ [name]) = false) :
    fs.Plain (path ++ [name]) := fun above hAbove => by
  rcases prefix_concat_iff.mp hAbove with rfl | hAbove
  · exact hName
  · exact h above hAbove

theorem Plain.of_prefix (h : fs.Plain path) (hPrefix : base <+: path) : fs.Plain base :=
  fun above hAbove => h above (hAbove.trans hPrefix)

theorem Plain.advance (h : fs.Plain path) (step : Step ν) : fs.Plain (fs.advance path step).1 := by
  cases step with
  | stay => exact h
  | up => exact h.of_prefix (List.dropLast_prefix path)
  | down name =>
    cases hLink : fs.isLink (path ++ [name]) with
    | false => rw [advance_down hLink]; exact h.snoc hLink
    | true =>
      unfold isLink at hLink
      unfold FileSystem.advance
      split at hLink
      · rename_i absolute target hEntry
        cases absolute
        · simpa [hEntry] using h
        · simpa [hEntry] using plain_nil
      · cases hLink

theorem Leads.plain (h : fs.Leads path steps goal) (hPlain : fs.Plain path) : fs.Plain goal := by
  induction h with
  | here => exact hPlain
  | step _ ih => exact ih (hPlain.advance _)

theorem Plain.leads (h : fs.Plain (path ++ names)) : fs.Leads path (names.map .down) (path ++ names) := by
  induction names generalizing path with
  | nil => rw [append_nil]; exact .here _
  | cons name names ih =>
    rw [append_cons] at h ⊢
    refine .step ?_
    rw [advance_down (h _ (prefix_append _ _))]
    exact ih h

theorem Plain.leads_base (h : fs.Plain names) : fs.Leads [] (names.map .down) names :=
  leads h

/-- Where every link below a directory leads into it, so does every path. -/
theorem Plain.leads_into (hLinks : ∀ link, base <+: link → fs.isLink link = true →
      ∃ goal, fs.Leads [] (link.map .down) goal ∧ base <+: goal)
    (hBase : base <+: path) (hPlain : fs.Plain path) :
    ∃ goal, fs.Leads path (names.map .down) goal ∧ base <+: goal := by
  induction names generalizing path with
  | nil => exact ⟨path, .here _, hBase⟩
  | cons name names ih =>
    cases hLink : fs.isLink (path ++ [name]) with
    | false =>
      obtain ⟨goal, hGoal, hInside⟩ := ih (hBase.trans (prefix_append _ _)) (hPlain.snoc hLink)
      exact ⟨goal, .step (by rwa [advance_down hLink]), hInside⟩
    | true =>
      obtain ⟨next, hNext, hInside⟩ := hLinks _ (hBase.trans (prefix_append _ _)) hLink
      obtain ⟨goal, hGoal, hEnd⟩ := ih hInside (hNext.plain plain_nil)
      rw [map_append] at hNext
      obtain ⟨middle, hMiddle, hStep⟩ := leads_append.mp hNext
      cases hMiddle.unique hPlain.leads_base
      exact ⟨goal, leads_append.mpr ⟨next, hStep, hGoal⟩, hEnd⟩

end FileSystem

end Linking
