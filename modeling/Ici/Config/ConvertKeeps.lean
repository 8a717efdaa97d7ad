import Ici.Config.Convert

/-! # What a conversion accounts for -/

namespace Ici.Convert

open Dict List Python Raising StableSchema

/-! ## The settings of a document -/

mutual

def settingPaths (path : List Text) : Json → List (List Text × Json)
  | .obj fields => settingPathsOf path fields
  | value => [(path, value)]

def settingPathsOf (path : List Text) : List (Text × Json) → List (List Text × Json)
  | [] => []
  | (key, value) :: rest => settingPaths (path ++ [key]) value ++ settingPathsOf path rest

end

theorem mem_settingPathsOf {path : List Text} {fields : List (Text × Json)} {setting : List Text × Json} :
    setting ∈ settingPathsOf path fields ↔
      ∃ field ∈ fields, setting ∈ settingPaths (path ++ [field.1]) field.2 := by
  induction fields with
  | nil => simp [settingPathsOf]
  | cons field rest ih =>
    rw [settingPathsOf, mem_append, ih]
    simp only [exists_mem_cons_iff]

mutual

theorem below_of_mem {path : List Text} {setting : List Text × Json} :
    ∀ value : Json, setting ∈ settingPaths path value → path <+: setting.1
  | .obj fields => belowAll_of_mem fields
  | .null | .bool _ | .int _ | .float _ | .str _ | .arr _ => by
    intro h
    rw [settingPaths, mem_singleton] at h
    · rw [h]
    all_goals simp

theorem belowAll_of_mem {path : List Text} {setting : List Text × Json} :
    ∀ fields : List (Text × Json), setting ∈ settingPathsOf path fields → path <+: setting.1
  | [] => fun h => by simp [settingPathsOf] at h
  | (key, value) :: rest => by
    intro h
    rw [settingPathsOf, mem_append] at h
    rcases h with h | h
    · exact (prefix_append path [key]).trans (below_of_mem value h)
    · exact belowAll_of_mem rest h

end

def dotted (path : List Text) : Text := join (py ".") path

def IsNamed (notes : List Note) (path : List Text) : Prop :=
  ∃ note ∈ notes, ∃ front, front ≠ [] ∧ front <+: path ∧ note.key = dotted front

inductive IsCarried (converted : Converted) : List Text → Json → Prop
  | profile {value : Json} (h : converted.workspace.get? (py "profile") = some value) :
    IsCarried converted [py "ici", py "profile"] value
  | name {value : Json} (h : converted.component.get? (py "id") = some value) :
    IsCarried converted [py "project", py "name"] value
  | sources {value : Json} (h : converted.component.get? (py "sources") = some (sourceGlobs value)) :
    IsCarried converted [py "project", py "source_dirs"] value
  | switch {engine key : Text} {targets : List Text} {value : Json} (hKey : isSwitch key = true)
    (hTargets : engineToChecks.lookup engine = some targets) (hSome : targets ≠ [])
    (h : ∀ target ∈ targets, ((converted.checks.get? target).getD []).get? key = some value) :
    IsCarried converted [py "engines", engine, key] value

/-- Nothing a document sets is lost silently, and no engine gets into another one's way. -/
structure Keeps (stable : Dict Text Json) (converted : Converted) : Prop where
  accounted : ∀ setting ∈ settingPathsOf [] stable,
    IsCarried converted setting.1 setting.2 ∨ IsNamed converted.notes setting.1
  switches : ∀ engine settings key value, (engine, .obj settings) ∈ tableOf stable (py "engines") →
    (key, value) ∈ settings → isSwitch key = true →
      ∃ targets, engineToChecks.lookup engine = some targets ∧
        ∀ target ∈ targets, ((converted.checks.get? target).getD []).get? key = some value
  apart : ∀ engine ∈ engineToChecks, ∀ other ∈ engineToChecks, ∀ target ∈ engine.2,
    target ∈ other.2 → engine.1 = other.1

/-- A dictionary has every key once, wherever the converter looks something up. -/
structure HasDistinctKeys (stable : Dict Text Json) : Prop where
  top : stable.keys.Nodup
  sections : ∀ key, (tableOf stable key).keys.Nodup
  tables : ∀ key inner, (tableOf (tableOf stable key) inner).keys.Nodup

/-- No setting stands where the converter does not look, and no list it looks for is empty. -/
structure NothingUnread (stable : Dict Text Json) : Prop where
  metadata : ∀ key ∈ [py "name", py "type", py "version"], key ∉ stable.keys
  build : ∀ key ∈ [py "make", py "artifacts"], ∀ value ∈ (tableOf stable (py "build")).get? key,
    settingPaths [py "build", key] value = []
  sources : (tableOf stable (py "project")).get? (py "source_dirs") ≠ some (.arr [])
  tools : (tableOf stable (py "doctor")).get? (py "required_tools") ≠ some (.arr [])

structure StableDocument (validators : SettingValidators) where
  fields : Dict Text Json
  distinct : HasDistinctKeys fields
  accepted : validateConfig validators fields = .ok ()

/-! ## What the schema lets through -/

def IsFilled (value : Json) : Prop := ∃ t, t ≠ [] ∧ value = .str t

def IsList (value : Json) : Prop := ∃ items, value = .arr items

variable {value : Json} {path key : Text} {fields document : Dict Text Json}
  {validators : SettingValidators}

theorem requireFilled_eq_ok {t : Text} (h : requireFilled value path = .ok t) : IsFilled value := by
  unfold requireFilled at h
  split at h
  · rename_i text
    split_ifs at h with hBlank
    refine ⟨text, ?_, rfl⟩
    rintro rfl
    exact hBlank rfl
  · cases h

theorem requireOneOf_eq_ok {vocabulary : List Text}
    (h : requireOneOf value vocabulary path = .ok ()) : IsFilled value := by
  obtain ⟨_, hFilled, _⟩ := bind_eq_ok.mp h
  exact requireFilled_eq_ok hFilled

theorem mapFilled_eq_ok (h : (requireFilled value path).map (fun _ => ()) = .ok ()) : IsFilled value := by
  obtain ⟨_, hFilled, _⟩ := map_eq_ok.mp h
  exact requireFilled_eq_ok hFilled

theorem requireStringList_eq_ok (h : requireStringList value path = .ok ()) : IsList value := by
  unfold requireStringList at h
  split at h
  · exact ⟨_, rfl⟩
  · cases h

theorem requireBool_eq_ok (h : requireBool value path = .ok ()) : ∃ b, value = .bool b := by
  unfold requireBool at h
  split at h
  · exact ⟨_, rfl⟩
  · cases h

theorem requireTable_eq_ok (h : requireTable value path = .ok fields) : value = .obj fields := by
  unfold requireTable at h
  split at h
  · cases h
    rfl
  · cases h

theorem rejectUnknown_eq_ok {table : Dict Text Json} {allowed : List Text}
    (h : rejectUnknown table allowed path = .ok ()) : ∀ field ∈ table, field.1 ∈ allowed := by
  intro field hField
  have hStep := forM_eq_ok.mp h field hField
  split_ifs at hStep with hAllowed
  exact hAllowed

theorem whereSet_eq_ok {table : Dict Text Json} {check : Json → Result Unit} :
    whereSet table key check = .ok () ↔ ∀ value, table.get? key = some value → check value = .ok () := by
  rw [whereSet, forM_eq_ok]
  simp

theorem tableOf_eq (h : document.get? key = some (.obj fields)) : tableOf document key = fields := by
  rw [tableOf, h]

theorem tableOf_of_none (h : document.get? key = none) : tableOf document key = [] := by
  rw [tableOf, h]

structure Shape (stable : Dict Text Json) : Prop where
  top : ∀ field ∈ stable, field.1 ∈ topLevelKeys
  metadata : ∀ key ∈ [py "name", py "type", py "version"], ∀ value, stable.get? key = some value →
    IsFilled value
  section_table : ∀ key ∈ [py "ici", py "project", py "build", py "doctor", py "engines"],
    ∀ value, stable.get? key = some value → value = .obj (tableOf stable key)
  ici : ∀ field ∈ tableOf stable (py "ici"), field.1 ∈ iciKeys ∧ IsFilled field.2
  project : ∀ field ∈ tableOf stable (py "project"), field.1 ∈ projectKeys ∧
    (field.1 ∈ projectLists → IsList field.2) ∧ (field.1 ∉ projectLists → IsFilled field.2)
  build : ∀ field ∈ tableOf stable (py "build"), field.1 ∈ [py "python", py "make", py "artifacts"]
  python_table : ∀ value, (tableOf stable (py "build")).get? (py "python") = some value →
    value = .obj (tableOf (tableOf stable (py "build")) (py "python"))
  python : ∀ field ∈ tableOf (tableOf stable (py "build")) (py "python"),
    field.1 = py "entrypoint" ∧ IsFilled field.2
  doctor : ∀ field ∈ tableOf stable (py "doctor"), field.1 = py "required_tools" ∧ IsList field.2
  engines : ∀ entry ∈ tableOf stable (py "engines"), entry.1 ∈ ownEngineKeys.map Prod.fst ∧
    ∃ settings, entry.2 = .obj settings ∧
      ∀ key value, isSwitch key = true → Dict.get? settings key = some value → ∃ b, value = .bool b

theorem validateMetadata_eq_ok (h : validateMetadata value path = .ok ()) :
    ∃ fields, value = .obj fields ∧ ∀ field ∈ fields,
      field.1 ∈ (if path = py "ici" then iciKeys else projectKeys) ∧
        validateMetadataField path field = .ok () := by
  obtain ⟨fields, hTable, h⟩ := bind_eq_ok.mp h
  obtain ⟨hKeys, hFields⟩ := seq_eq_ok.mp h
  exact ⟨fields, requireTable_eq_ok hTable, fun field hField =>
    ⟨rejectUnknown_eq_ok hKeys field hField, forM_eq_ok.mp hFields field hField⟩⟩

theorem validateMetadataField_eq_ok {field : Text × Json} (h : validateMetadataField path field = .ok ()) :
    (path = py "project" ∧ field.1 ∈ projectLists → IsList field.2) ∧
      (¬(path = py "project" ∧ field.1 ∈ projectLists) → IsFilled field.2) := by
  unfold validateMetadataField at h
  split_ifs at h with hList hType hProfile
  · exact ⟨fun _ => requireStringList_eq_ok h, fun hNot => absurd hList hNot⟩
  · exact ⟨fun hAgain => absurd hAgain hList, fun _ => requireOneOf_eq_ok h⟩
  · exact ⟨fun hAgain => absurd hAgain hList, fun _ => requireOneOf_eq_ok h⟩
  · exact ⟨fun hAgain => absurd hAgain hList, fun _ => mapFilled_eq_ok h⟩

theorem validateBuild_eq_ok (h : validateBuild validators value = .ok ()) : ∃ fields, value = .obj fields ∧
      (∀ field ∈ fields, field.1 ∈ [py "python", py "make", py "artifacts"]) ∧
      ∀ python, Dict.get? fields (py "python") = some python → ∃ inner, python = .obj inner ∧
        ∀ field ∈ inner, field.1 = py "entrypoint" ∧
          (Dict.get? inner (py "entrypoint") = some field.2 → IsFilled field.2) := by
  obtain ⟨fields, hTable, h⟩ := bind_eq_ok.mp h
  obtain ⟨hKeys, h⟩ := seq_eq_ok.mp h
  obtain ⟨hPython, _⟩ := seq_eq_ok.mp h
  refine ⟨fields, requireTable_eq_ok hTable, rejectUnknown_eq_ok hKeys, fun python hSet => ?_⟩
  obtain ⟨inner, hInner, h⟩ := bind_eq_ok.mp (whereSet_eq_ok.mp hPython python hSet)
  obtain ⟨hInnerKeys, hEntry⟩ := seq_eq_ok.mp h
  refine ⟨inner, requireTable_eq_ok hInner, fun field hField => ⟨?_, fun hSome => ?_⟩⟩
  · exact mem_singleton.mp (rejectUnknown_eq_ok hInnerKeys field hField)
  · exact mapFilled_eq_ok (whereSet_eq_ok.mp hEntry field.2 hSome)

theorem validateDoctor_eq_ok (h : validateDoctor value = .ok ()) :
    ∃ fields, value = .obj fields ∧ ∀ field ∈ fields, field.1 = py "required_tools" ∧
      (Dict.get? fields (py "required_tools") = some field.2 → IsList field.2) := by
  obtain ⟨fields, hTable, h⟩ := bind_eq_ok.mp h
  obtain ⟨hKeys, hTools⟩ := seq_eq_ok.mp h
  refine ⟨fields, requireTable_eq_ok hTable, fun field hField => ⟨?_, fun hSome => ?_⟩⟩
  · exact mem_singleton.mp (rejectUnknown_eq_ok hKeys field hField)
  · exact requireStringList_eq_ok (whereSet_eq_ok.mp hTools field.2 hSome)

theorem validateEngine_eq_ok {entry : Text × Json}
    (h : validateEngine validators entry = .ok ()) : ∃ settings, entry.2 = .obj settings ∧
      ∀ key value, isSwitch key = true → Dict.get? settings key = some value → ∃ b, value = .bool b := by
  obtain ⟨settings, hTable, h⟩ := bind_eq_ok.mp h
  obtain ⟨_, h⟩ := seq_eq_ok.mp h
  obtain ⟨hCommon, _⟩ := seq_eq_ok.mp h
  obtain ⟨hEnabled, h⟩ := seq_eq_ok.mp hCommon
  obtain ⟨hRequired, _⟩ := seq_eq_ok.mp h
  refine ⟨settings, requireTable_eq_ok hTable, fun key value hKey hSome => ?_⟩
  rw [isSwitch, Bool.or_eq_true, decide_eq_true_iff, decide_eq_true_iff] at hKey
  rcases hKey with rfl | rfl
  · exact requireBool_eq_ok (whereSet_eq_ok.mp hEnabled value hSome)
  · exact requireBool_eq_ok (whereSet_eq_ok.mp hRequired value hSome)

theorem sections_of_accepted {stable : Dict Text Json} (h : validateConfig validators stable = .ok ()) :
    (∀ field ∈ stable, field.1 ∈ topLevelKeys) ∧
      (∀ key ∈ [py "name", py "type", py "version"], ∀ value, stable.get? key = some value → IsFilled value) ∧
      (∀ value, stable.get? (py "ici") = some value → validateMetadata value (py "ici") = .ok ()) ∧
      (∀ value, stable.get? (py "project") = some value → validateMetadata value (py "project") = .ok ()) ∧
      (∀ value, stable.get? (py "build") = some value → validateBuild validators value = .ok ()) ∧
      (∀ value, stable.get? (py "doctor") = some value → validateDoctor value = .ok ()) ∧
      ∃ engines, stable.get? (py "engines") = some (.obj engines) ∧ ∀ entry ∈ engines,
        entry.1 ∈ ownEngineKeys.map Prod.fst ∧ validateEngine validators entry = .ok () := by
  obtain ⟨hTop, h⟩ := seq_eq_ok.mp h
  obtain ⟨hIci, h⟩ := seq_eq_ok.mp h
  obtain ⟨hProject, h⟩ := seq_eq_ok.mp h
  obtain ⟨hName, h⟩ := seq_eq_ok.mp h
  obtain ⟨hVersion, h⟩ := seq_eq_ok.mp h
  obtain ⟨hType, h⟩ := seq_eq_ok.mp h
  obtain ⟨hBuild, h⟩ := seq_eq_ok.mp h
  obtain ⟨hDoctor, h⟩ := seq_eq_ok.mp h
  rw [whereSet_eq_ok] at hName hVersion hType
  have hMetadata : ∀ key ∈ [py "name", py "type", py "version"], ∀ value,
      stable.get? key = some value → IsFilled value := by
    simp only [forall_mem_cons, not_mem_nil, false_implies, implies_true, and_true]
    exact ⟨fun value hSet => mapFilled_eq_ok (hName value hSet),
      fun value hSet => requireOneOf_eq_ok (hType value hSet),
      fun value hSet => mapFilled_eq_ok (hVersion value hSet)⟩
  refine ⟨rejectUnknown_eq_ok hTop, hMetadata, whereSet_eq_ok.mp hIci, whereSet_eq_ok.mp hProject,
    whereSet_eq_ok.mp hBuild, whereSet_eq_ok.mp hDoctor, ?_⟩
  split at h
  · rename_i engines hEngines
    obtain ⟨hKeys, hAll⟩ := seq_eq_ok.mp h
    exact ⟨engines, hEngines, fun entry hEntry =>
      ⟨rejectUnknown_eq_ok hKeys entry hEntry, forM_eq_ok.mp hAll entry hEntry⟩⟩
  · cases h

theorem table_of_set {known : Dict Text Json → Prop}
    (h : ∀ value, document.get? key = some value → ∃ fields, value = .obj fields ∧ known fields) :
    (∀ value, document.get? key = some value → value = .obj (tableOf document key)) ∧
      (tableOf document key ≠ [] → known (tableOf document key)) := by
  constructor
  · intro value hSet
    obtain ⟨fields, rfl, _⟩ := h value hSet
    rw [tableOf_eq hSet]
  · intro hSome
    cases hSet : document.get? key with
    | none => exact absurd (tableOf_of_none hSet) hSome
    | some value =>
      obtain ⟨fields, rfl, hKnown⟩ := h value hSet
      rwa [tableOf_eq hSet]

theorem ne_nil_of_field {field : Text × Json} (h : field ∈ fields) : fields ≠ [] :=
  ne_nil_of_mem h

theorem StableDocument.shape (document : StableDocument validators) : Shape document.fields := by
  obtain ⟨stable, hDistinct, hAccepted⟩ := document
  obtain ⟨hTop, hMetadata, hIci, hProject, hBuild, hDoctor, engines, hEngines, hEach⟩ :=
    sections_of_accepted hAccepted
  obtain ⟨hIciTable, hIciFields⟩ := table_of_set fun value h => validateMetadata_eq_ok (hIci value h)
  obtain ⟨hProjectTable, hProjectFields⟩ :=
    table_of_set fun value h => validateMetadata_eq_ok (hProject value h)
  obtain ⟨hBuildTable, hBuildFields⟩ := table_of_set fun value h => validateBuild_eq_ok (hBuild value h)
  obtain ⟨hDoctorTable, hDoctorFields⟩ := table_of_set fun value h => validateDoctor_eq_ok (hDoctor value h)
  have hPython : ∀ value, (tableOf stable (py "build")).get? (py "python") = some value →
      ∃ inner, value = .obj inner ∧ ∀ field ∈ inner, field.1 = py "entrypoint" ∧
        (Dict.get? inner (py "entrypoint") = some field.2 → IsFilled field.2) := by
    intro value hSet
    exact (hBuildFields (ne_nil_of_field (mem_of_get? hSet))).2 value hSet
  obtain ⟨hPythonTable, hPythonFields⟩ := table_of_set hPython
  refine ⟨hTop, hMetadata, ?_, ?_, ?_, ?_, hPythonTable, ?_, ?_, ?_⟩
  · simp only [forall_mem_cons, not_mem_nil, false_implies, implies_true, and_true]
    refine ⟨hIciTable, hProjectTable, hBuildTable, hDoctorTable, fun value hSet => ?_⟩
    cases hEngines.symm.trans hSet
    rw [tableOf_eq hEngines]
  · intro field hField
    obtain ⟨hKey, hValue⟩ := hIciFields (ne_nil_of_field hField) field hField
    exact ⟨hKey, (validateMetadataField_eq_ok hValue).2 fun hBoth => absurd hBoth.1 (by decide)⟩
  · intro field hField
    obtain ⟨hKey, hValue⟩ := hProjectFields (ne_nil_of_field hField) field hField
    obtain ⟨hList, hText⟩ := validateMetadataField_eq_ok hValue
    exact ⟨hKey, fun h => hList ⟨rfl, h⟩, fun h => hText fun hBoth => h hBoth.2⟩
  · intro field hField
    exact (hBuildFields (ne_nil_of_field hField)).1 field hField
  · intro field hField
    obtain ⟨hKey, hValue⟩ := hPythonFields (ne_nil_of_field hField) field hField
    refine ⟨hKey, hValue ?_⟩
    rw [← hKey]
    exact get?_of_mem (hDistinct.tables _ _) hField
  · intro field hField
    obtain ⟨hKey, hValue⟩ := hDoctorFields (ne_nil_of_field hField) field hField
    refine ⟨hKey, hValue ?_⟩
    rw [← hKey]
    exact get?_of_mem (hDistinct.sections _) hField
  · intro entry hEntry
    rw [tableOf_eq hEngines] at hEntry
    obtain ⟨hKey, hValue⟩ := hEach entry hEntry
    exact ⟨hKey, validateEngine_eq_ok hValue⟩

end Ici.Convert
