import Ici.Application.Selection

/-! # The ratchet on required checks

A component cannot make a required check optional without an exemption. It can turn the check off,
and that is the only way it can weaken it. -/

namespace Ici

open Option List Python

def CheckSetting.Demanded (setting : CheckSetting) : Prop :=
  (workspaceCheck setting).enabled.value = true ∧ (workspaceCheck setting).required.value = true

/-- A component keeps a demand: its check is enabled and required, and every run that has the check
and its profile selects it as required. -/
def EffectiveComponent.Keeps (component : EffectiveComponent) (id : Text) : Prop :=
  (∃ check, component.check id = some check ∧ check.enabled.value = true ∧ check.required.value = true) ∧
  ∀ available : List CheckDefinition, ∀ profile, ∀ definition ∈ available, definition.id = id →
    profile ∈ definition.profiles →
    withRequired definition true ∈ (selectedEffectiveChecks component available profile).selected

def ComponentBody.name (body : ComponentBody) : Text := (body.id.map (·.value)).getD []

def ComponentBody.TurnsOff (body : ComponentBody) (id : Text) : Prop :=
  ∃ adjustment ∈ body.checks, adjustment.id = id ∧ adjustment.enabled.map (·.value) = some false

section

variable {rootSettings : List CheckSetting} {componentId : Text} {setting : CheckSetting}
  {adjustment : CheckSetting}

theorem beats_root_component {setting : CheckSetting} :
    Layer.component.beats (workspaceCheck setting).enabled.layer = true ∧
      Layer.component.beats (workspaceCheck setting).required.layer = true := by
  unfold workspaceCheck Decided.decide
  constructor
  · cases setting.enabled <;> rfl
  · cases setting.required <;> rfl

theorem adjustedCheck_eq (hNodup : (rootSettings.map (·.id)).Nodup) (hSetting : setting ∈ rootSettings)
    (hId : adjustment.id = setting.id) :
    adjustedCheck componentId rootSettings adjustment =
      adjust componentId (workspaceCheck setting) adjustment (some setting) := by
  have hFound := find?_key hNodup hSetting
  rw [adjustedCheck, inheritedCheck, hId, hFound]
  rfl

theorem adjust_demanded (hDemanded : setting.Demanded) (hExemption : setting.exemptionFor componentId = none)
    (hReports : (adjust componentId (workspaceCheck setting) adjustment (some setting)).reports = []) :
    (adjust componentId (workspaceCheck setting) adjustment (some setting)).value.required.value = true ∧
    ((adjust componentId (workspaceCheck setting) adjustment (some setting)).value.enabled.value = true ↔
      adjustment.enabled.map (·.value) ≠ some false) := by
  obtain ⟨hEnabled, hRequired⟩ := hDemanded
  obtain ⟨hBeatsEnabled, hBeatsRequired⟩ := @beats_root_component setting
  have hGranted : (some setting).bind (·.exemptionFor componentId) = none := hExemption
  unfold adjust at hReports ⊢
  simp only [hGranted, and_true] at hReports ⊢
  have hKeeps : lowers (workspaceCheck setting) adjustment = false := by
    cases hLowers : lowers (workspaceCheck setting) adjustment with
    | false => rfl
    | true =>
      rw [hLowers, if_pos rfl] at hReports
      cases hReports
  rw [hKeeps] at hReports ⊢
  simp only [Bool.false_eq_true, if_false, Reported.value_pure]
  rw [Decided.value_decide_of_beats hBeatsEnabled, Decided.value_decide_of_beats hBeatsRequired,
    hEnabled, hRequired]
  rw [lowers, hRequired, Bool.true_and] at hKeeps
  constructor
  · cases hOwn : adjustment.required.map (·.value) with
    | none => rfl
    | some required =>
      rw [hOwn] at hKeeps
      cases required
      · cases hKeeps
      · rfl
  · cases adjustment.enabled.map (·.value) with
    | none => simp
    | some enabled => cases enabled <;> simp

end

/-! ## Components -/

section

variable {root : RootDocument} {overlay : LocalOverlay} {environment : Environment}
  {body : ComponentBody} {file : Text}

theorem componentChecks_of_reports
    (h : (composeComponent (workspaceContext root overlay environment) none body file).reports = []) :
    (componentChecks body.name body root.checks (root.checks.map workspaceCheck)).reports = [] := by
  simp only [composeComponent, Reported.reports_bind, append_eq_nil_iff] at h
  obtain ⟨-, -, -, -, hChecks, -⟩ := h
  exact hChecks

theorem check_composeComponent (id : Text) :
    (composeComponent (workspaceContext root overlay environment) none body file).value.check id =
      match body.checks.find? (·.id = id) with
      | some adjustment => some (adjustedCheck body.name root.checks adjustment).value
      | none => inheritedCheck root.checks id :=
  find?_componentChecks root.checks_nodup body.name body id

theorem get?_checks_composeComponent (id : Text) : (keyed EffectiveCheck.id
        (composeComponent (workspaceContext root overlay environment) none body file).value.checks).get? id =
      (composeComponent (workspaceContext root overlay environment) none body file).value.check id :=
  get?_keyed (ids_componentChecks_nodup root.checks_nodup body.name body) id

section

variable (h : (composeComponent (workspaceContext root overlay environment) none body file).reports = [])
  {setting : CheckSetting} (hSetting : setting ∈ root.checks) (hDemanded : setting.Demanded)
  (hExemption : setting.exemptionFor body.name = none)
include h hSetting hDemanded hExemption

theorem demanded_check :
    ∃ check, (composeComponent (workspaceContext root overlay environment) none body file).value.check
        setting.id = some check ∧ check.required.value = true ∧
      (check.enabled.value = true ↔ ¬body.TurnsOff setting.id) := by
  rw [check_composeComponent]
  cases hFound : body.checks.find? fun adjustment => adjustment.id = setting.id with
  | none =>
    have hUntouched : ¬body.TurnsOff setting.id := by
      rintro ⟨adjustment, hMem, hId, -⟩
      exact find?_eq_none.mp hFound adjustment hMem (decide_eq_true hId)
    refine ⟨workspaceCheck setting, ?_, hDemanded.2, ?_⟩
    · rw [inheritedCheck, find?_key root.checks_nodup hSetting]
      rfl
    · exact ⟨fun _ => hUntouched, fun _ => hDemanded.1⟩
  | some adjustment =>
    have hMem := mem_of_find?_eq_some hFound
    have hId : adjustment.id = setting.id := of_decide_eq_true (find?_some hFound :)
    have hOwn := (reports_componentChecks_eq_nil_iff root.checks_nodup body.name body).mp
      (componentChecks_of_reports h) adjustment hMem
    rw [adjustedCheck_eq root.checks_nodup hSetting hId] at hOwn
    obtain ⟨hRequired, hEnabled⟩ := adjust_demanded hDemanded hExemption hOwn
    refine ⟨_, congrArg (fun adjusted => some (Reported.value adjusted))
      (adjustedCheck_eq root.checks_nodup hSetting hId), hRequired, hEnabled.trans (not_congr ?_)⟩
    constructor
    · exact fun hOff => ⟨adjustment, hMem, hId, hOff⟩
    · rintro ⟨other, hOther, hOtherId, hOff⟩
      have hSame := find?_key body.checks_nodup hOther
      rw [hOtherId, hFound] at hSame
      cases hSame
      exact hOff

theorem keeps_iff :
    (composeComponent (workspaceContext root overlay environment) none body file).value.Keeps setting.id ↔
      ¬body.TurnsOff setting.id := by
  obtain ⟨check, hCheck, hRequired, hEnabled⟩ := demanded_check h hSetting hDemanded hExemption
  constructor
  · rintro ⟨⟨found, hFound, hOn, -⟩, -⟩
    rw [hCheck] at hFound
    cases hFound
    exact hEnabled.mp hOn
  · intro hUntouched
    have hOn := hEnabled.mpr hUntouched
    refine ⟨⟨check, hCheck, hOn, hRequired⟩, fun available profile definition hAvailable hId hProfile => ?_⟩
    refine mem_selected_iff.mpr ⟨definition, hAvailable, ?_⟩
    rw [effectiveChoice, hId, get?_checks_composeComponent, hCheck]
    refine chooseCheck_eq_ok_iff.mpr ⟨hProfile, ?_, ?_⟩
    · rw [map_some, hOn]
      exact nofun
    · rw [map_some, getD_some, hRequired]

end

end

/-- The demands of the root stand in every component exactly where no component turns off a check
that the root demands of it. -/
theorem ratchet_iff {root : RootDocument} {children : Dict Text ComponentDocument}
    {overlay : LocalOverlay} {environment : Environment} {config : EffectiveConfig}
    (h : compose root children overlay environment = .ok config) :
    (∀ component ∈ config.components, ∀ setting ∈ root.checks, setting.Demanded →
        setting.exemptionFor component.id = none → component.Keeps setting.id) ↔
      ∀ entry ∈ root.components, ∀ body file, (entryBody root.path children entry).value = some (body, file) →
        ∀ setting ∈ root.checks, setting.Demanded → setting.exemptionFor body.name = none →
          ¬body.TurnsOff setting.id := by
  constructor
  · intro hKeeps entry hEntry body file hBody setting hSetting hDemanded hExemption
    obtain ⟨hReports, hMem⟩ := component_of_entry h hEntry hBody
    exact (keeps_iff hReports hSetting hDemanded hExemption).mp
      (hKeeps _ hMem setting hSetting hDemanded hExemption)
  · intro hUntouched component hMem setting hSetting hDemanded hExemption
    obtain ⟨entry, hEntry, body, file, hBody, hReports, rfl⟩ := exists_component_of_compose h hMem
    exact (keeps_iff hReports hSetting hDemanded hExemption).mpr
      (hUntouched entry hEntry body file hBody setting hSetting hDemanded hExemption)

def policyOrigin : Origin := .inRoot []

def lintingRoot (enabled : Option (Sourced Bool)) : RootDocument where
  path := py "ici.toml"
  checks := [{ id := py "python.lint", required := some ⟨true, policyOrigin⟩, origin := policyOrigin }]
  components :=
    [.inline
      { id := some ⟨py "core", policyOrigin⟩
        root := some ⟨py "core", policyOrigin⟩
        languages := some ⟨[py "python"], policyOrigin⟩
        origin := policyOrigin
        checks := [{ id := py "python.lint", enabled := enabled, origin := policyOrigin }]
        checks_nodup := List.nodup_singleton _ }]

theorem ratchet_iff_enabled :
    ∃ config, compose (lintingRoot (some ⟨true, policyOrigin⟩)) [] .empty [] = .ok config ∧
      ∀ component ∈ config.components, ∀ setting ∈ (lintingRoot (some ⟨true, policyOrigin⟩)).checks,
        setting.Demanded → setting.exemptionFor component.id = none → component.Keeps setting.id := by
  refine ⟨_, rfl, (@ratchet_iff (lintingRoot (some ⟨true, policyOrigin⟩)) [] .empty [] _ rfl).mpr ?_⟩
  intro entry hEntry body file hBody setting _ _ _
  rw [mem_singleton.mp hEntry] at hBody
  cases hBody
  rintro ⟨adjustment, hAdjustment, -, hOff⟩
  rw [mem_singleton.mp hAdjustment] at hOff
  cases hOff

/-- The component turns the required check off, and nothing refuses it. -/
theorem demand_dropped :
    ∃ config, compose (lintingRoot (some ⟨false, policyOrigin⟩)) [] .empty [] = .ok config ∧
      ∃ component ∈ config.components, ∃ setting ∈ (lintingRoot (some ⟨false, policyOrigin⟩)).checks,
        setting.Demanded ∧ setting.exemptionFor component.id = none ∧ ¬component.Keeps setting.id := by
  refine ⟨_, rfl, _, mem_singleton_self _, _, mem_singleton_self _, ⟨rfl, rfl⟩, rfl, ?_⟩
  rintro ⟨⟨check, hCheck, hOn, -⟩, -⟩
  cases hCheck
  cases hOn

end Ici
