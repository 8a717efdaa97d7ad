import Ici.Config.CheckPolicy

/-! # Turning a declared component into the checks of one run -/

namespace Ici

open Python

def Profile.value : Profile → Text
  | fast => py "fast"
  | standard => py "standard"
  | deep => py "deep"

structure Omitted where
  check : CheckDefinition
  reason : Text
deriving DecidableEq

structure CheckSelection where
  selected : List CheckDefinition
  omitted : List Omitted
deriving DecidableEq

def withRequired (check : CheckDefinition) (required : Bool) : CheckDefinition :=
  { check with required := required }

def qualified (component name : Text) : Text := component ++ py "." ++ name

theorem qualified_injective (component : Text) : Function.Injective (qualified component) := fun _ _ h =>
  List.append_cancel_left h

/-- `_with_scope`: what a check needs and provides is its component's. -/
def withScope (check : CheckDefinition) (component : Text) : CheckDefinition :=
  { check with
    needs := check.needs.map (qualified component)
    provides := check.provides.map (qualified component)
    disjoint := by
      intro name hNeed hProvide
      obtain ⟨need, hOwn, rfl⟩ := List.mem_map.mp hNeed
      rw [List.mem_map_of_injective (qualified_injective component)] at hProvide
      exact check.disjoint need hOwn hProvide }

/-- One round of a selection loop: a check with the importance decided for it, or left out. -/
def chooseCheck (profile : Profile) (check : CheckDefinition) (enabled : Option Bool) (required : Bool) :
    Except Omitted CheckDefinition :=
  if profile ∉ check.profiles then
    .error ⟨check, py "not in profile '" ++ profile.value ++ py "'"⟩
  else if enabled = some false then .error ⟨check, py "disabled"⟩
  else .ok (if required = check.required then check else withRequired check required)

def omittedOf : Except Omitted CheckDefinition → Option Omitted
  | .error omitted => some omitted
  | .ok _ => none

def collectSelection (choose : CheckDefinition → Except Omitted CheckDefinition)
    (available : List CheckDefinition) : CheckSelection where
  selected := available.filterMap fun check => (choose check).toOption
  omitted := available.filterMap fun check => omittedOf (choose check)

/-- What `selected_checks` makes of one check. -/
def bodyChoice (component : ComponentBody) (profile : Profile) (check : CheckDefinition) :
    Except Omitted CheckDefinition :=
  let setting := (keyed CheckSetting.id component.checks).get? check.id
  chooseCheck profile check (setting.bind fun setting => setting.enabled.map (·.value))
    ((setting.bind fun setting => setting.required.map (·.value)).getD check.required)

def selectedChecks (component : ComponentBody) (available : List CheckDefinition) (profile : Profile) :
    CheckSelection :=
  collectSelection (bodyChoice component profile) available

/-- What `selected_effective_checks` makes of one check. -/
def effectiveChoice (component : EffectiveComponent) (profile : Profile) (check : CheckDefinition) :
    Except Omitted CheckDefinition :=
  let decided := (keyed EffectiveCheck.id component.checks).get? check.id
  chooseCheck profile check (decided.map (·.enabled.value))
    ((decided.map (·.required.value)).getD check.required)

def selectedEffectiveChecks (component : EffectiveComponent) (available : List CheckDefinition)
    (profile : Profile) : CheckSelection :=
  collectSelection (effectiveChoice component profile) available

theorem chooseCheck_eq_ok_iff {profile : Profile} {check chosen : CheckDefinition} {enabled : Option Bool}
    {required : Bool} :
    chooseCheck profile check enabled required = .ok chosen ↔
      profile ∈ check.profiles ∧ enabled ≠ some false ∧ chosen = withRequired check required := by
  have hChosen : (if required = check.required then check else withRequired check required) =
      withRequired check required := by
    split
    · rename_i hSame
      rw [withRequired, hSame]
    · rfl
  unfold chooseCheck
  rw [hChosen]
  by_cases hProfile : profile ∈ check.profiles
  · by_cases hDisabled : enabled = some false
    · simp [hProfile, hDisabled]
    · simp [hProfile, hDisabled, eq_comm]
  · simp [hProfile]

theorem mem_selected_iff {choose : CheckDefinition → Except Omitted CheckDefinition}
    {available : List CheckDefinition} {chosen : CheckDefinition} :
    chosen ∈ (collectSelection choose available).selected ↔
      ∃ check ∈ available, choose check = .ok chosen := by
  have hOption (check : CheckDefinition) : (choose check).toOption = some chosen ↔ choose check =
    .ok chosen := by
    cases choose check <;> simp [Except.toOption]
  simp only [collectSelection, List.mem_filterMap, hOption]

end Ici

/-! ## Two selection paths

A body read as it is and the same body composed on its own select alike, but for a setting that
leaves its importance open: composition fills in that it is not required. -/

namespace Ici

open Option List Python

section

variable {document : ComponentDocument} {componentId : Text} {environment : Environment}
  {config : EffectiveConfig} {component : EffectiveComponent}

theorem component_of_standalone (h : composeStandalone document componentId environment = .ok config)
    (hMem : component ∈ config.components) :
    ∃ identifier, (componentChecks identifier document.component [] []).reports = [] ∧
      component.checks = (componentChecks identifier document.component [] []).value := by
  obtain ⟨hReports, rfl⟩ := Reported.collect_eq_ok_iff.mp h
  rw [Reported.reports_bind] at hReports
  obtain ⟨hComponent, -⟩ := append_eq_nil_iff.mp hReports
  simp only [composeComponent, Reported.reports_bind, append_eq_nil_iff] at hComponent
  obtain ⟨-, -, -, -, hChecks, -⟩ := hComponent
  rw [Reported.value_bind] at hMem
  refine ⟨_, hChecks, ?_⟩
  rw [mem_singleton.mp hMem]
  rfl

theorem standalone_check {identifier id : Text} (body : ComponentBody) :
    (keyed EffectiveCheck.id (componentChecks identifier body [] []).value).get? id =
      (body.checks.find? (·.id = id)).map fun setting =>
        { id := id
          enabled := (defaultCheck id).enabled.decide setting.enabled .component
          required := (defaultCheck id).required.decide setting.required .component } := by
  have hNone : (([] : List CheckSetting).map (·.id)).Nodup := nodup_nil
  have hIds := ids_componentChecks_nodup hNone identifier body
  have hFound := find?_componentChecks hNone identifier body id
  rw [map_nil] at hIds hFound
  rw [get?_keyed hIds, hFound]
  cases hSetting : body.checks.find? fun setting => setting.id = id with
  | none => rfl
  | some setting =>
    have hName : setting.id = id := of_decide_eq_true (find?_some hSetting :)
    subst hName
    have hLowers : lowers (defaultCheck setting.id) setting = false := rfl
    simp only [adjustedCheck, inheritedCheck, adjust, find?_nil, map_none, getD_none, hLowers,
      Bool.false_eq_true, false_and, if_false, Reported.value_pure, map_some]
    rfl

end

/-- A setting of the body for a check of the profile that leaves open whether it is required. -/
def LeavesOpen (body : ComponentBody) (profile : Profile) (check : CheckDefinition) : Prop :=
  profile ∈ check.profiles ∧ ∃ setting ∈ body.checks, setting.id = check.id ∧
    setting.enabled.map (·.value) ≠ some false ∧ setting.required = none

section

variable {choose other : CheckDefinition → Except Omitted CheckDefinition}

theorem eq_of_filterMap_eq {α β : Type} {f g : α → Option β} {l : List α}
    (hSome : ∀ a ∈ l, (f a).isSome = (g a).isSome) (h : l.filterMap f = l.filterMap g) :
    ∀ a ∈ l, f a = g a := by
  induction l with
  | nil => exact nofun
  | cons a rest ih =>
    obtain ⟨hHead, hRest⟩ := forall_mem_cons.mp hSome
    cases hf : f a with
    | none =>
      have hg : g a = none := by
        rw [hf] at hHead
        exact not_isSome_iff_eq_none.mp (Bool.eq_false_iff.mp hHead.symm)
      rw [filterMap_cons_none hf, filterMap_cons_none hg] at h
      exact forall_mem_cons.mpr ⟨hf.trans hg.symm, ih hRest h⟩
    | some b =>
      obtain ⟨c, hg⟩ := isSome_iff_exists.mp (hHead.symm.trans (by rw [hf]; rfl))
      rw [filterMap_cons_some hf, filterMap_cons_some hg] at h
      obtain ⟨hSame, hLater⟩ := cons.inj h
      exact forall_mem_cons.mpr ⟨by rw [hf, hg, hSame], ih hRest hLater⟩

theorem collectSelection_congr {available : List CheckDefinition}
    (h : ∀ check ∈ available, choose check = other check) :
    collectSelection choose available = collectSelection other available := by
  have hSelected : available.filterMap (fun check => (choose check).toOption) =
      available.filterMap fun check => (other check).toOption :=
    filterMap_congr fun check hMem => by rw [h check hMem]
  have hOmitted : available.filterMap (fun check => omittedOf (choose check)) =
      available.filterMap fun check => omittedOf (other check) :=
    filterMap_congr fun check hMem => by rw [h check hMem]
  rw [collectSelection, collectSelection, hSelected, hOmitted]

end

theorem eq_withRequired_iff (check : CheckDefinition) :
    withRequired check false = check ↔ check.required = false := by
  constructor
  · intro hSame
    rw [← hSame]
    rfl
  · intro hOptional
    rw [withRequired, ← hOptional]

theorem chooseCheck_filled (profile : Profile) (check : CheckDefinition) (enabled required : Option Bool) :
    (chooseCheck profile check (some (enabled.getD true)) (required.getD false)).toOption.isSome =
        (chooseCheck profile check enabled (required.getD check.required)).toOption.isSome ∧
      ((chooseCheck profile check (some (enabled.getD true)) (required.getD false)).toOption =
          (chooseCheck profile check enabled (required.getD check.required)).toOption →
        chooseCheck profile check (some (enabled.getD true)) (required.getD false) =
          chooseCheck profile check enabled (required.getD check.required)) ∧
      (chooseCheck profile check (some (enabled.getD true)) (required.getD false) =
          chooseCheck profile check enabled (required.getD check.required) ↔
        (profile ∈ check.profiles ∧ enabled ≠ some false ∧ required = none → check.required = false)) := by
  have hDisabled : some (enabled.getD true) = some false ↔ enabled = some false := by
    rcases enabled with _ | enabled
    · exact ⟨nofun, nofun⟩
    · exact Iff.rfl
  have hChosen (required : Bool) : (if required = check.required then check else withRequired check required)
    =
      withRequired check required := by
    split
    · rename_i hSame
      rw [withRequired, hSame]
    · rfl
  unfold chooseCheck
  simp only [hDisabled, hChosen]
  by_cases hProfile : profile ∈ check.profiles
  · by_cases hOff : enabled = some false
    · simp [hProfile, hOff]
    · cases required with
      | some required => simp [hProfile, hOff]
      | none =>
        have hOwn : withRequired check check.required = check := rfl
        simp [hProfile, hOff, hOwn, eq_withRequired_iff, Except.toOption]
  · simp [hProfile]

theorem choices_of_setting {body : ComponentBody} {component : EffectiveComponent} {identifier : Text}
    (h : component.checks = (componentChecks identifier body [] []).value) (profile : Profile)
    (check : CheckDefinition) :
    (effectiveChoice component profile check).toOption.isSome =
        (bodyChoice body profile check).toOption.isSome ∧
      ((effectiveChoice component profile check).toOption = (bodyChoice body profile check).toOption →
        effectiveChoice component profile check = bodyChoice body profile check) ∧
      (effectiveChoice component profile check = bodyChoice body profile check ↔
        (LeavesOpen body profile check → check.required = false)) := by
  have hDecided := @standalone_check identifier check.id body
  have hSetting := get?_keyed body.checks_nodup check.id
  unfold effectiveChoice bodyChoice
  rw [h, hDecided, hSetting]
  cases hFound : body.checks.find? fun setting => setting.id = check.id with
  | none =>
    refine ⟨rfl, fun _ => rfl, fun _ => ?_, fun _ => rfl⟩
    rintro ⟨-, setting, hMem, hId, -⟩
    exact absurd (decide_eq_true hId) (find?_eq_none.mp hFound setting hMem)
  | some setting =>
    have hMem := mem_of_find?_eq_some hFound
    have hId : setting.id = check.id := of_decide_eq_true (find?_some hFound :)
    have hOpen : LeavesOpen body profile check ↔ profile ∈ check.profiles ∧
        setting.enabled.map (·.value) ≠ some false ∧ setting.required = none := by
      constructor
      · rintro ⟨hProfile, found, hIn, hName, hOwn⟩
        have hSame := find?_key body.checks_nodup hIn
        rw [hName, hFound] at hSame
        cases hSame
        exact ⟨hProfile, hOwn⟩
      · rintro ⟨hProfile, hOwn⟩
        exact ⟨hProfile, setting, hMem, hId, hOwn⟩
    rw [hOpen]
    have hBeats : Layer.component.beats Layer.defaults = true := rfl
    have hEnabled := @Decided.value_decide_of_beats _ (defaultCheck check.id).enabled _ hBeats setting.enabled
    have hRequired := @Decided.value_decide_of_beats _ (defaultCheck check.id).required _ hBeats
      setting.required
    have hFilled := chooseCheck_filled profile check (setting.enabled.map (·.value))
      (setting.required.map (·.value))
    rw [map_eq_none_iff] at hFilled
    simp only [map_some, getD_some, bind_some, hEnabled, hRequired]
    exact hFilled

/-- The composed form selects what the body selects exactly where no setting of the run leaves open
the importance of a check that is required by default. -/
theorem selections_agree_iff {document : ComponentDocument} {componentId : Text}
    {environment : Environment} {config : EffectiveConfig} {component : EffectiveComponent}
    (h : composeStandalone document componentId environment = .ok config)
    (hMem : component ∈ config.components) (available : List CheckDefinition) (profile : Profile) :
    selectedEffectiveChecks component available profile =
        selectedChecks document.component available profile ↔
      ∀ check ∈ available, LeavesOpen document.component profile check → check.required = false := by
  obtain ⟨identifier, -, hChecks⟩ := component_of_standalone h hMem
  have hChoices := choices_of_setting hChecks profile
  constructor
  · intro hSame check hCheck
    have hSelected := congrArg CheckSelection.selected hSame
    have hOptions := eq_of_filterMap_eq (fun check _ => (hChoices check).1) hSelected check hCheck
    exact (hChoices check).2.2.mp ((hChoices check).2.1 hOptions)
  · intro hOpen
    exact collectSelection_congr fun check hCheck => (hChoices check).2.2.mpr (hOpen check hCheck)

def bodyOrigin : Origin := .inRoot []

def settingDocument (setting : CheckSetting) : ComponentDocument where
  path := py "ici.toml"
  component :=
    { root := some ⟨py ".", bodyOrigin⟩
      languages := some ⟨[py "python"], bodyOrigin⟩
      origin := bodyOrigin
      checks := [setting]
      checks_nodup := List.nodup_singleton _ }

def lintSetting (required : Option (Sourced Bool)) : CheckSetting where
  id := py "python.lint"
  enabled := some ⟨true, bodyOrigin⟩
  required := required
  origin := bodyOrigin

def lintDefinition : CheckDefinition := pythonLintCheck

theorem selections_agree_iff_required : ∃ config component,
      composeStandalone (settingDocument (lintSetting (some ⟨true, bodyOrigin⟩))) (py "core") [] =
        .ok config ∧
      component ∈ config.components ∧
      selectedEffectiveChecks component [lintDefinition] .standard =
        selectedChecks (settingDocument (lintSetting (some ⟨true, bodyOrigin⟩))).component [lintDefinition]
          .standard := by
  refine ⟨_, _, rfl, mem_singleton_self _, (@selections_agree_iff
    (settingDocument (lintSetting (some ⟨true, bodyOrigin⟩))) (py "core") [] _ _ rfl
    (mem_singleton_self _) [lintDefinition] .standard).mpr ?_⟩
  rintro check - ⟨-, setting, hSetting, -, -, hOpen⟩
  rw [mem_singleton.mp hSetting] at hOpen
  cases hOpen

/-- The body asks for lint and leaves it required; composed, lint is optional. -/
theorem selections_differ :
    ∃ config component, composeStandalone (settingDocument (lintSetting none)) (py "core") [] = .ok config ∧
      component ∈ config.components ∧
      selectedEffectiveChecks component [lintDefinition] .standard ≠
        selectedChecks (settingDocument (lintSetting none)).component [lintDefinition] .standard :=
  ⟨_, _, rfl, mem_singleton_self _, by decide⟩

end Ici
