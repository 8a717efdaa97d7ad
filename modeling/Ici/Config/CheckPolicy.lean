import Ici.Config.Contained

/-! # The checks of a component

A component's check is the workspace's, adjusted by the component's own setting of that name. -/

namespace Ici

open Dict List Python Reported

section

variable {α : Type} {key : α → Text}

theorem keyed_eq {l : List α} (h : (l.map key).Nodup) : keyed key l = l.map fun a => (key a, a) := by
  have hKeys : (Dict.keys ([] : Dict Text α) ++ Dict.keys (l.map fun a => (key a, a))).Nodup := by
    simpa [Dict.keys, List.map_map, Function.comp_def] using h
  rw [keyed, setAll_eq_append hKeys, nil_append]

theorem get?_map_key (l : List α) (id : Text) :
    Dict.get? (l.map fun a => (key a, a)) id = l.find? fun a => key a = id := by
  induction l with
  | nil => rfl
  | cons a rest ih =>
    rw [map_cons, Dict.get?, find?_cons, ih]
    by_cases hKey : key a = id
    · rw [if_pos hKey, decide_eq_true hKey]
    · rw [if_neg hKey, decide_eq_false hKey]

theorem find?_key {l : List α} (h : (l.map key).Nodup) {a : α} (ha : a ∈ l) :
    (l.find? fun b => key b = key a) = some a := by
  have hKeys : (Dict.keys (l.map fun b => (key b, b))).Nodup := by
    rw [Dict.keys, List.map_map]
    exact h
  rw [← get?_map_key]
  exact get?_of_mem hKeys (mem_map.mpr ⟨a, ha, rfl⟩)

theorem get?_keyed {l : List α} (h : (l.map key).Nodup) (id : Text) :
    (keyed key l).get? id = l.find? fun a => key a = id := by
  rw [keyed_eq h, get?_map_key]

end

def EffectiveComponent.check (component : EffectiveComponent) (id : Text) : Option EffectiveCheck :=
  component.checks.find? (·.id = id)

/-! ## What the adjustments leave -/

theorem id_adjust (componentId : Text) (base : EffectiveCheck) (adjustment : CheckSetting)
    (rootSetting : Option CheckSetting) :
    (adjust componentId base adjustment rootSetting).value.id = base.id := by
  unfold adjust
  dsimp only
  split <;> rfl

structure FiledByName (composed : Dict Text EffectiveCheck) : Prop where
  nodup : composed.keys.Nodup
  id : ∀ key check, composed.get? key = some check → check.id = key

variable {composed : Dict Text EffectiveCheck}

section

variable (h : FiledByName composed)
include h

theorem FiledByName.set {check : EffectiveCheck} {key : Text} (hId : check.id = key) : FiledByName (composed.set key check) where
  nodup := nodup_keys_set h.nodup key check
  id := by
    intro other found hFound
    rw [get?_set] at hFound
    split at hFound
    · rename_i hSame
      cases hFound
      exact hId.trans hSame
    · exact h.id other found hFound

theorem filedByName_applyAdjustment (componentId : Text) (settings : Dict Text CheckSetting) (adjustment : CheckSetting) :
    FiledByName (applyAdjustment componentId settings composed adjustment).value := by
  refine h.set ?_
  rw [adjustCurrent, id_adjust]
  cases hFound : composed.get? adjustment.id with
  | none => rfl
  | some check => exact h.id _ _ hFound

omit h in
theorem filedByName_foldlM {adjustments : List CheckSetting} {composed : Dict Text EffectiveCheck}
    (h : FiledByName composed) (componentId : Text) (settings : Dict Text CheckSetting) :
    FiledByName (adjustments.foldlM (applyAdjustment componentId settings) composed).value := by
  induction adjustments generalizing composed with
  | nil => exact h
  | cons adjustment rest ih =>
    rw [foldlM_cons]
    exact ih (filedByName_applyAdjustment h componentId settings adjustment)

omit h in
theorem filedByName_workspaceChecks {settings : List CheckSetting} (h : (settings.map (·.id)).Nodup) :
    FiledByName (keyed EffectiveCheck.id (settings.map workspaceCheck)) := by
  have hIds : ((settings.map workspaceCheck).map (·.id)).Nodup := by
    rw [List.map_map]
    exact h
  refine ⟨?_, fun key check hFound => ?_⟩
  · rw [keyed_eq hIds]
    simpa [Dict.keys, List.map_map, Function.comp_def] using hIds
  · rw [get?_keyed hIds] at hFound
    have hName := find?_some hFound
    exact of_decide_eq_true hName

theorem find?_sorted (id : Text) :
    ((composed.keys.insertionSort (· ≤ ·)).filterMap composed.get?).find? (·.id = id) =
      composed.get? id := by
  have hFound (keys : List Text) :
      (keys.filterMap composed.get?).find? (·.id = id) =
        if id ∈ keys then composed.get? id else none := by
    induction keys with
    | nil => rfl
    | cons key keys ih =>
      cases hKey : composed.get? key with
      | none =>
        rw [filterMap_cons_none hKey, ih]
        by_cases hSame : id = key
        · subst hSame
          simp [hKey]
        · simp [hSame]
      | some check =>
        have hId := h.id key check hKey
        rw [filterMap_cons_some hKey, find?_cons, ih]
        by_cases hSame : id = key
        · subst hSame
          simp [hId, hKey]
        · simp [hId, hSame, Ne.symm hSame]
  rw [hFound]
  split
  · rfl
  · rename_i hMissing
    rw [mem_insertionSort] at hMissing
    exact ((get?_eq_none_iff _ _).mpr hMissing).symm

theorem ids_sublist (keys : List Text) : ((keys.filterMap composed.get?).map (·.id)).Sublist keys := by
  induction keys with
  | nil => exact List.Sublist.slnil
  | cons key keys ih =>
    cases hKey : composed.get? key with
    | none =>
      rw [filterMap_cons_none hKey]
      exact ih.cons key
    | some check =>
      rw [filterMap_cons_some hKey, map_cons, h.id key check hKey]
      exact ih.cons_cons key

theorem ids_sorted_nodup :
    (((composed.keys.insertionSort (· ≤ ·)).filterMap composed.get?).map (·.id)).Nodup :=
  (ids_sublist h _).nodup ((perm_insertionSort _ _).nodup_iff.mpr h.nodup)

end

def inheritedCheck (rootSettings : List CheckSetting) (id : Text) : Option EffectiveCheck :=
  (rootSettings.find? (·.id = id)).map workspaceCheck

def adjustedCheck (componentId : Text) (rootSettings : List CheckSetting) (adjustment : CheckSetting) :
    Reported ConfigProblem EffectiveCheck :=
  adjust componentId ((inheritedCheck rootSettings adjustment.id).getD (defaultCheck adjustment.id))
    adjustment (rootSettings.find? (·.id = adjustment.id))

section

variable {rootSettings : List CheckSetting}

theorem get?_workspaceChecks (h : (rootSettings.map (·.id)).Nodup) (id : Text) :
    (keyed EffectiveCheck.id (rootSettings.map workspaceCheck)).get? id =
      inheritedCheck rootSettings id := by
  have hIds : ((rootSettings.map workspaceCheck).map (·.id)).Nodup := by
    rw [List.map_map]
    exact h
  rw [get?_keyed hIds, find?_map]
  rfl

variable (h : (rootSettings.map (·.id)).Nodup) (componentId : Text) (body : ComponentBody)

include h

theorem adjustCurrent_eq (adjustment : CheckSetting) :
    adjustCurrent componentId (keyed CheckSetting.id rootSettings)
        ((keyed EffectiveCheck.id (rootSettings.map workspaceCheck)).get? adjustment.id) adjustment =
      adjustedCheck componentId rootSettings adjustment := by
  rw [adjustCurrent, get?_workspaceChecks h, get?_keyed h]
  rfl

theorem reports_componentChecks_eq_nil_iff :
    (componentChecks componentId body rootSettings (rootSettings.map workspaceCheck)).reports = [] ↔
      ∀ adjustment ∈ body.checks, (adjustedCheck componentId rootSettings adjustment).reports = [] := by
  have hReports := @reports_foldlM_assign ConfigProblem _ _ _ _ CheckSetting.id
    (adjustCurrent componentId (keyed CheckSetting.id rootSettings)) _ body.checks_nodup
    (keyed EffectiveCheck.id (rootSettings.map workspaceCheck))
  simp only [adjustCurrent_eq h] at hReports
  rw [componentChecks, reports_bind, reports_pure, append_nil]
  change (List.foldlM (assign _ _) _ _).reports = [] ↔ _
  rw [hReports, flatMap_eq_nil_iff]

theorem find?_componentChecks (id : Text) :
    (componentChecks componentId body rootSettings (rootSettings.map workspaceCheck)).value.find?
        (·.id = id) =
      match body.checks.find? (·.id = id) with
      | some adjustment => some (adjustedCheck componentId rootSettings adjustment).value
      | none => inheritedCheck rootSettings id := by
  have hGet := @get?_foldlM_assign ConfigProblem _ _ _ _ CheckSetting.id
    (adjustCurrent componentId (keyed CheckSetting.id rootSettings)) _ body.checks_nodup
    (keyed EffectiveCheck.id (rootSettings.map workspaceCheck)) id
  have hFiled := @filedByName_foldlM body.checks _ (filedByName_workspaceChecks h) componentId
    (keyed CheckSetting.id rootSettings)
  rw [componentChecks, value_bind, value_pure, find?_sorted hFiled]
  refine hGet.trans ?_
  cases hFound : body.checks.find? fun adjustment => adjustment.id = id with
  | none => exact get?_workspaceChecks h id
  | some adjustment =>
    have hName : adjustment.id = id := of_decide_eq_true (find?_some hFound :)
    subst hName
    exact congrArg (fun adjusted => some (value adjusted))
      (adjustCurrent_eq h componentId adjustment)

theorem ids_componentChecks_nodup :
    ((componentChecks componentId body rootSettings (rootSettings.map workspaceCheck)).value.map
      (·.id)).Nodup :=
  ids_sorted_nodup (@filedByName_foldlM body.checks _ (filedByName_workspaceChecks h) componentId
    (keyed CheckSetting.id rootSettings))

end

end Ici
