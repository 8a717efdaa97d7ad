import Ici.Config.ConvertKeeps

/-! # Exactly which documents are accounted for

The switches of an engine reach all its checks, and whatever else an engine sets has a note. What is
lost stands in the sections the converter asks for single keys. -/

namespace Ici.Convert

open List Python StableSchema Dict

/-! ## Switches -/

def told (checks : Dict Text (Dict Text Json)) (check key : Text) : Option Json :=
  ((checks.get? check).getD []).get? key

theorem told_assign (checks : Dict Text (Dict Text Json)) (setting : Text × Text × Json) (check key : Text) :
    told (assign checks setting) check key =
      if setting.1 = check ∧ setting.2.1 = key then some setting.2.2 else told checks check key := by
  unfold told assign
  rw [get?_set]
  by_cases hCheck : setting.1 = check
  · rw [if_pos hCheck, Option.getD_some, get?_set, hCheck]
    simp only [true_and]
  · rw [if_neg hCheck, if_neg fun h => hCheck h.1]

variable {key : Text} {value : Json} {path : List Text} {table : Dict Text Json}

theorem told_foldl {check : Text} {settings : List (Text × Text × Json)} {checks : Dict Text (Dict Text Json)}
    (hOne : ∀ setting ∈ settings, setting.1 = check → setting.2.1 = key → setting.2.2 = value)
    (h : (∃ setting ∈ settings, setting.1 = check ∧ setting.2.1 = key) ∨
      told checks check key = some value) :
    told (settings.foldl assign checks) check key = some value := by
  induction settings generalizing checks with
  | nil =>
    rcases h with ⟨_, hNone, _⟩ | h
    · cases hNone
    · exact h
  | cons setting rest ih =>
    obtain ⟨hFirst, hRest⟩ := forall_mem_cons.mp hOne
    rw [foldl_cons]
    apply ih hRest
    rw [told_assign]
    by_cases hHere : setting.1 = check ∧ setting.2.1 = key
    · right
      rw [if_pos hHere, hFirst hHere.1 hHere.2]
    · rw [if_neg hHere]
      rcases h with ⟨found, hFound, hPlace⟩ | h
      · rcases mem_cons.mp hFound with rfl | hLater
        · exact absurd hPlace hHere
        · exact .inl ⟨found, hLater, hPlace⟩
      · exact .inr h

theorem targets_apart : ∀ engine ∈ engineToChecks, ∀ other ∈ engineToChecks, ∀ target ∈ engine.2,
    target ∈ other.2 → engine.1 = other.1 := by decide

theorem engines_covered : ∀ engine ∈ ownEngineKeys.map Prod.fst,
    ∃ targets ∈ engineToChecks.lookup engine, targets ≠ [] := by decide

theorem mem_of_lookup {engine : Text} {targets : List Text}
    (h : engineToChecks.lookup engine = some targets) :
    (engine, targets) ∈ engineToChecks := by
  obtain ⟨before, after, hSplit, _⟩ := lookup_eq_some_iff.mp h
  rw [hSplit]
  exact mem_append_right _ mem_cons_self

theorem mem_engineSettings {entry : Text × Json} {setting : Text × Text × Json} :
    setting ∈ engineSettings entry ↔ ∃ settings targets, entry.2 = .obj settings ∧
      engineToChecks.lookup entry.1 = some targets ∧ (setting.2.1, setting.2.2) ∈ settings ∧
      isSwitch setting.2.1 = true ∧ setting.1 ∈ targets := by
  obtain ⟨check, key, value⟩ := setting
  unfold engineSettings coveredSettings
  constructor
  · intro h
    split at h
    · rename_i targets settings hCovered
      split at hCovered
      · rename_i fields found hObj hTargets
        cases hCovered
        obtain ⟨field, hField, hSetting⟩ := mem_flatMap.mp h
        unfold settingsOf at hSetting
        split_ifs at hSetting with hSwitch
        · obtain ⟨target, hTarget, hEq⟩ := mem_map.mp hSetting
          cases hEq
          exact ⟨settings, targets, hObj, hTargets, hField, hSwitch, hTarget⟩
        · cases hSetting
      · cases hCovered
    · cases h
  · rintro ⟨settings, targets, hObj, hTargets, hField, hSwitch, hTarget⟩
    simp only [hObj, hTargets]
    refine mem_flatMap.mpr ⟨(key, value), hField, ?_⟩
    rw [settingsOf, if_pos hSwitch]
    exact mem_map_of_mem hTarget

variable {stable : Dict Text Json}

theorem tableOf_engine (hDistinct : HasDistinctKeys stable) {engine : Text} {settings : Dict Text Json}
    (h : (engine, .obj settings) ∈ tableOf stable (py "engines")) :
    tableOf (tableOf stable (py "engines")) engine = settings :=
  tableOf_eq (get?_of_mem (hDistinct.sections _) h)

theorem switches_reach (hDistinct : HasDistinctKeys stable) {engine key : Text}
    {settings : Dict Text Json} {value : Json} {targets : List Text}
    (hEngine : (engine, .obj settings) ∈ tableOf stable (py "engines")) (hSet : (key, value) ∈ settings)
    (hSwitch : isSwitch key = true) (hTargets : engineToChecks.lookup engine = some targets) :
    ∀ target ∈ targets, told (checksOf (tableOf stable (py "engines"))) target key = some value := by
  intro target hTarget
  apply told_foldl
  · intro other hOther hPlace hKey
    obtain ⟨entry, hEntry, hSetting⟩ := mem_flatMap.mp hOther
    obtain ⟨fields, found, hObj, hFound, hField, _, hIn⟩ := mem_engineSettings.mp hSetting
    have hSame : entry.1 = engine :=
      targets_apart _ (mem_of_lookup hFound) _ (mem_of_lookup hTargets) target (hPlace ▸ hIn) hTarget
    have hFields : fields = settings := by
      have hThere : (engine, .obj fields) ∈ tableOf stable (py "engines") := by
        rw [← hSame, ← hObj]
        exact hEntry
      rw [← tableOf_engine hDistinct hThere, tableOf_engine hDistinct hEngine]
    have hNodup : settings.keys.Nodup := by
      rw [← tableOf_engine hDistinct hEngine]
      exact hDistinct.tables _ _
    have hLeft := get?_of_mem hNodup (hFields ▸ hField)
    rw [hKey, get?_of_mem hNodup hSet] at hLeft
    exact (Option.some.inj hLeft).symm
  · refine .inl ⟨(target, key, value), ?_, rfl, rfl⟩
    exact mem_flatMap.mpr ⟨_, hEngine, mem_engineSettings.mpr
      ⟨settings, targets, rfl, hTargets, hSet, hSwitch, hTarget⟩⟩

/-! ## What is accounted for -/

def HasNote (notes : List Note) (key : Text) : Prop := ∃ note ∈ notes, note.key = key

theorem isNamed_iff {notes : List Note} :
    IsNamed notes path ↔ ∃ front, front ≠ [] ∧ front <+: path ∧ HasNote notes (dotted front) := by
  constructor
  · rintro ⟨note, hNote, front, hFront, hBefore, hKey⟩
    exact ⟨front, hFront, hBefore, note, hNote, hKey⟩
  · rintro ⟨front, hFront, hBefore, note, hNote, hKey⟩
    exact ⟨note, hNote, front, hFront, hBefore, hKey⟩

theorem hasNote_append_iff {first second : List Note} :
    HasNote (first ++ second) key ↔ HasNote first key ∨ HasNote second key := by
  simp only [HasNote, mem_append, or_and_right, exists_or]

theorem hasNote_noteKeys_iff {place : Text} {keys : List Text} {disposition : Disposition} {detail : Text} :
    HasNote (noteKeys place table keys disposition detail) key ↔
      ∃ found ∈ keys, found ∈ table.keys ∧ place ++ py "." ++ found = key := by
  unfold HasNote noteKeys
  constructor
  · rintro ⟨note, hNote, rfl⟩
    obtain ⟨found, hFound, rfl⟩ := mem_map.mp hNote
    obtain ⟨hKey, hTable⟩ := mem_filter.mp hFound
    exact ⟨found, hKey, of_decide_eq_true hTable, rfl⟩
  · rintro ⟨found, hKey, hTable, rfl⟩
    exact ⟨_, mem_map_of_mem (mem_filter.mpr ⟨hKey, decide_eq_true hTable⟩), rfl⟩

theorem hasNote_filled_iff {name place : Text} {disposition : Disposition} {detail : Json → Text} :
    HasNote ((filled table name).toList.map fun value => ⟨place, disposition, detail value⟩) key ↔
      (filled table name).isSome = true ∧ place = key := by
  unfold HasNote
  cases filled table name <;> simp

theorem hasNote_engines_iff {engines : Dict Text Json} : HasNote (engines.flatMap engineNotes) key ↔
      ∃ entry ∈ engines, HasNote (engineNotes entry) key := by
  simp only [HasNote, mem_flatMap]
  constructor
  · rintro ⟨note, ⟨entry, hEntry, hNote⟩, hKey⟩
    exact ⟨entry, hEntry, note, hNote, hKey⟩
  · rintro ⟨entry, hEntry, note, hNote, hKey⟩
    exact ⟨note, ⟨entry, hEntry, hNote⟩, hKey⟩

theorem filled_of_mem (hNodup : table.keys.Nodup) {key : Text} {value : Json}
    (h : (key, value) ∈ table) (hValue : IsFilled value) : filled table key = some value := by
  obtain ⟨t, hSome, rfl⟩ := hValue
  rw [filled, get?_of_mem hNodup h]
  simp [hSome]

theorem filled_list_of_mem (hNodup : table.keys.Nodup) {key : Text}
    {items : List Json} (h : (key, .arr items) ∈ table) (hSome : items ≠ []) :
    filled table key = some (.arr items) := by
  rw [filled, get?_of_mem hNodup h]
  simp [hSome]

theorem settingPaths_filled (h : IsFilled value) : settingPaths path value = [(path, value)] := by
  obtain ⟨t, _, rfl⟩ := h
  rfl

theorem settingPaths_list (h : IsList value) : settingPaths path value = [(path, value)] := by
  obtain ⟨items, rfl⟩ := h
  rfl

section Accounted

variable {workspaceName componentRoot : Text} {tree : Option SourceTree}

inductive IsNoted (stable : Dict Text Json) (tree : Option SourceTree) : Text → Prop
  | profile (h : (filled (tableOf stable (py "ici")) (py "profile")).isSome = true) :
    IsNoted stable tree (py "ici.profile")
  | ici {key : Text} (hKey : key ∈ [py "version", py "policy_name"])
    (h : key ∈ (tableOf stable (py "ici")).keys) : IsNoted stable tree (py "ici" ++ py "." ++ key)
  | sources (h : (filled (tableOf stable (py "project")) (py "source_dirs")).isSome = true) :
    IsNoted stable tree (py "project.source_dirs")
  | entrypoint (h : (filled (tableOf (tableOf stable (py "build")) (py "python"))
      (py "entrypoint")).isSome = true) : IsNoted stable tree (py "build.python.entrypoint")
  | compilation {key : Text}
    (hKey : key ∈ [py "cpp_pkg_config", py "cpp_external_build_dirs", py "compile_database"])
    (h : key ∈ (tableOf stable (py "project")).keys) :
    IsNoted stable tree (py "project" ++ py "." ++ key)
  | project {key : Text} (hKey : key ∈ [py "type", py "version"])
    (h : key ∈ (tableOf stable (py "project")).keys) :
    IsNoted stable tree (py "project" ++ py "." ++ key)
  | languages {key : Text} (h : HasNote (languages tree).2 key) : IsNoted stable tree key
  | engine {key : Text} {entry : Text × Json} (hEntry : entry ∈ tableOf stable (py "engines"))
    (h : HasNote (engineNotes entry) key) : IsNoted stable tree key
  | tools (h : (filled (tableOf stable (py "doctor")) (py "required_tools")).isSome = true) :
    IsNoted stable tree (py "doctor.required_tools")
  | leftover {key : Text} (hKey : key ∈ stable.keys) (h : key ∉ knownSections) : IsNoted stable tree key

theorem hasNote_convert_iff {key : Text} :
    HasNote (convert stable workspaceName componentRoot tree).notes key ↔ IsNoted stable tree key := by
  have hLeft : HasNote ((stable.keys.filter (· ∉ knownSections)).map fun found =>
      (⟨found, .confirm, py "not a known stable section — left for review"⟩ : Note)) key ↔
        ∃ found ∈ stable.keys, found ∉ knownSections ∧ found = key := by
    unfold HasNote
    simp only [mem_map, mem_filter, decide_eq_true_eq]
    constructor
    · rintro ⟨_, ⟨found, ⟨hStable, hUnknown⟩, rfl⟩, hKey⟩
      exact ⟨found, hStable, hUnknown, hKey⟩
    · rintro ⟨found, hStable, hUnknown, hKey⟩
      exact ⟨_, ⟨found, ⟨hStable, hUnknown⟩, rfl⟩, hKey⟩
  simp only [convert, workspaceNotes, componentNotes, leftoverNotes, hasNote_append_iff,
    hasNote_filled_iff, hasNote_noteKeys_iff, hasNote_engines_iff, hLeft, or_assoc]
  constructor
  · rintro (⟨h, rfl⟩ | ⟨found, hKey, h, rfl⟩ | ⟨h, rfl⟩ | ⟨h, rfl⟩ | ⟨found, hKey, h, rfl⟩ |
      ⟨found, hKey, h, rfl⟩ | h | ⟨entry, hEntry, h⟩ | ⟨h, rfl⟩ | ⟨found, hKey, h, rfl⟩)
    · exact .profile h
    · exact .ici hKey h
    · exact .sources h
    · exact .entrypoint h
    · exact .compilation hKey h
    · exact .project hKey h
    · exact .languages h
    · exact .engine hEntry h
    · exact .tools h
    · exact .leftover hKey h
  · intro h
    cases h with
    | profile h => exact .inl ⟨h, rfl⟩
    | ici hKey h => exact .inr (.inl ⟨_, hKey, h, rfl⟩)
    | sources h => exact .inr (.inr (.inl ⟨h, rfl⟩))
    | entrypoint h => exact .inr (.inr (.inr (.inl ⟨h, rfl⟩)))
    | compilation hKey h => exact .inr (.inr (.inr (.inr (.inl ⟨_, hKey, h, rfl⟩))))
    | project hKey h => exact .inr (.inr (.inr (.inr (.inr (.inl ⟨_, hKey, h, rfl⟩)))))
    | languages h => exact .inr (.inr (.inr (.inr (.inr (.inr (.inl h))))))
    | engine hEntry h =>
      exact .inr (.inr (.inr (.inr (.inr (.inr (.inr (.inl ⟨_, hEntry, h⟩)))))))
    | tools h =>
      exact .inr (.inr (.inr (.inr (.inr (.inr (.inr (.inr (.inl ⟨h, rfl⟩))))))))
    | leftover hKey h =>
      exact .inr (.inr (.inr (.inr (.inr (.inr (.inr (.inr (.inr ⟨_, hKey, h, rfl⟩))))))))

theorem dotted_pair (place key : Text) : dotted [place, key] = place ++ py "." ++ key := by
  rw [dotted, join_cons, join_singleton, append_assoc]

theorem dotted_three (place inner key : Text) :
    dotted [place, inner, key] = place ++ py "." ++ inner ++ py "." ++ key := by
  rw [dotted, join_cons, join_cons, join_singleton]
  simp only [append_assoc]

theorem isNamed_of_isNoted (front rest : List Text) (hFront : front ≠ [])
    (h : IsNoted stable tree (dotted front)) :
    IsNamed (convert stable workspaceName componentRoot tree).notes (front ++ rest) :=
  isNamed_iff.mpr ⟨front, hFront, prefix_append front rest, hasNote_convert_iff.mpr h⟩

def IsAccounted (converted : Converted) (setting : List Text × Json) : Prop :=
  IsCarried converted setting.1 setting.2 ∨ IsNamed converted.notes setting.1

theorem setting_of_section (hDistinct : HasDistinctKeys stable) (hShape : Shape stable) (key : Text)
    (hKey : key ∈ [py "ici", py "project", py "build", py "doctor", py "engines"]) {value : Json}
    (hSet : (key, value) ∈ stable) {setting : List Text × Json} (h : setting ∈ settingPaths [key] value) :
    ∃ field ∈ tableOf stable key, setting ∈ settingPaths [key, field.1] field.2 := by
  have hValue := hShape.section_table key hKey value (get?_of_mem hDistinct.top hSet)
  rw [hValue, settingPaths] at h
  exact mem_settingPathsOf.mp h

variable {setting : List Text × Json} {field : Text × Json}

section

variable (hDistinct : HasDistinctKeys stable) (hShape : Shape stable)
include hDistinct hShape

theorem accounted_ici (hField : field ∈ tableOf stable (py "ici"))
    (h : setting ∈ settingPaths [py "ici", field.1] field.2) :
    IsAccounted (convert stable workspaceName componentRoot tree) setting := by
  obtain ⟨key, value⟩ := field
  obtain ⟨hKey, hValue⟩ := hShape.ici _ hField
  rw [settingPaths_filled hValue, mem_singleton] at h
  subst h
  have hKnown : key ∈ (tableOf stable (py "ici")).keys := mem_map_of_mem hField
  by_cases hProfile : key = py "profile"
  · subst hProfile
    left
    apply IsCarried.profile
    simp only [convert, workspaceTable, filled_of_mem (hDistinct.sections _) hField hValue]
    rfl
  · right
    have hNoted : key ∈ [py "version", py "policy_name"] := by
      simp only [iciKeys, mem_cons, not_mem_nil, or_false] at hKey ⊢
      tauto
    have hPlace : IsNoted stable tree (dotted [py "ici", key]) := by
      rw [dotted_pair]
      exact .ici hNoted hKnown
    exact isNamed_of_isNoted [py "ici", key] [] (cons_ne_nil _ _) hPlace

theorem accounted_project (hSources : (tableOf stable (py "project")).get? (py "source_dirs") ≠ some (.arr []))
    (hField : field ∈ tableOf stable (py "project"))
    (h : setting ∈ settingPaths [py "project", field.1] field.2) :
    IsAccounted (convert stable workspaceName componentRoot tree) setting := by
  obtain ⟨key, value⟩ := field
  obtain ⟨hKey, hList, hText⟩ := hShape.project _ hField
  have hOne : setting = ([py "project", key], value) := by
    by_cases hLists : key ∈ projectLists
    · rw [settingPaths_list (hList hLists), mem_singleton] at h
      exact h
    · rw [settingPaths_filled (hText hLists), mem_singleton] at h
      exact h
  subst hOne
  dsimp only at hKey hList hText
  have hKnown : key ∈ (tableOf stable (py "project")).keys := mem_map_of_mem hField
  have hNamed (hNoted : IsNoted stable tree (py "project" ++ py "." ++ key)) :
      IsNamed (convert stable workspaceName componentRoot tree).notes [py "project", key] := by
    rw [← dotted_pair] at hNoted
    exact isNamed_of_isNoted [py "project", key] [] (cons_ne_nil _ _) hNoted
  simp only [projectKeys, mem_cons, not_mem_nil, or_false] at hKey
  rcases hKey with rfl | rfl | rfl | rfl | rfl | rfl | rfl
  · obtain ⟨items, rfl⟩ := hList (by decide)
    refine .inr (hNamed (.sources ?_))
    rw [filled_list_of_mem (hDistinct.sections _) hField]
    · rfl
    · rintro rfl
      exact hSources (get?_of_mem (hDistinct.sections _) hField)
  · left
    apply IsCarried.name
    simp only [convert, componentTable, filled_of_mem (hDistinct.sections _) hField (hText (by decide)),
      Option.getD_some, cons_append]
    rfl
  · exact .inr (hNamed (.project (by decide) hKnown))
  · exact .inr (hNamed (.project (by decide) hKnown))
  all_goals exact .inr (hNamed (.compilation (by decide) hKnown))

theorem accounted_build (hBuild : ∀ key ∈ [py "make", py "artifacts"], ∀ value ∈
    (tableOf stable (py "build")).get? key,
      settingPaths [py "build", key] value = []) (hField : field ∈ tableOf stable (py "build"))
    (h : setting ∈ settingPaths [py "build", field.1] field.2) :
    IsAccounted (convert stable workspaceName componentRoot tree) setting := by
  obtain ⟨key, value⟩ := field
  have hSet := get?_of_mem (hDistinct.sections _) hField
  by_cases hPython : key = py "python"
  · subst hPython
    rw [hShape.python_table value hSet, settingPaths] at h
    obtain ⟨⟨inner, found⟩, hInner, h⟩ := mem_settingPathsOf.mp h
    obtain ⟨hName, hValue⟩ := hShape.python _ hInner
    dsimp only at hName
    subst hName
    rw [settingPaths_filled hValue, mem_singleton] at h
    subst h
    have hNoted : IsNoted stable tree (dotted [py "build", py "python", py "entrypoint"]) := by
      apply IsNoted.entrypoint
      rw [filled_of_mem (hDistinct.tables _ _) hInner hValue]
      rfl
    exact .inr (isNamed_of_isNoted [py "build", py "python", py "entrypoint"] []
      (cons_ne_nil _ _) hNoted)
  · have hOther : key ∈ [py "make", py "artifacts"] := by
      have hKey := hShape.build _ hField
      simp only [mem_cons, not_mem_nil, or_false] at hKey ⊢
      tauto
    rw [hBuild key hOther value hSet] at h
    cases h

theorem accounted_doctor (hTools : (tableOf stable (py "doctor")).get? (py "required_tools") ≠ some (.arr []))
    (hField : field ∈ tableOf stable (py "doctor"))
    (h : setting ∈ settingPaths [py "doctor", field.1] field.2) :
    IsAccounted (convert stable workspaceName componentRoot tree) setting := by
  obtain ⟨key, value⟩ := field
  obtain ⟨hKey, hList⟩ := hShape.doctor _ hField
  dsimp only at hKey
  subst hKey
  rw [settingPaths_list hList, mem_singleton] at h
  subst h
  obtain ⟨items, hItems⟩ := hList
  dsimp only at hItems
  subst hItems
  have hSome : items ≠ [] := by
    rintro rfl
    exact hTools (get?_of_mem (hDistinct.sections _) hField)
  have hNoted : IsNoted stable tree (dotted [py "doctor", py "required_tools"]) := by
    apply IsNoted.tools
    rw [filled_list_of_mem (hDistinct.sections _) hField hSome]
    rfl
  exact .inr (isNamed_of_isNoted [py "doctor", py "required_tools"] [] (cons_ne_nil _ _) hNoted)

end

theorem key_settingNote (engine : Text) (targets : List Text) (key : Text) :
    (settingNote engine targets key).key = py "engines" ++ py "." ++ engine ++ py "." ++ key := by
  unfold settingNote
  split_ifs with hMode hSwitch
  · subst hMode
    exact (append_assoc (py "engines." ++ engine) (py ".") (py "mode")).symm
  · rfl
  · split <;> rfl

theorem accounted_engine (hShape : Shape stable) (hField : field ∈ tableOf stable (py "engines"))
    (h : setting ∈ settingPaths [py "engines", field.1] field.2) :
    IsAccounted (convert stable workspaceName componentRoot tree) setting := by
  obtain ⟨engine, value⟩ := field
  obtain ⟨hKnown, settings, hObj, _⟩ := hShape.engines _ hField
  dsimp only at hObj
  subst hObj
  obtain ⟨targets, hTargets, _⟩ := engines_covered engine hKnown
  rw [settingPaths] at h
  obtain ⟨⟨key, value⟩, hSet, h⟩ := mem_settingPathsOf.mp h
  obtain ⟨rest, hRest⟩ := below_of_mem value h
  have hNote : HasNote (engineNotes (engine, .obj settings)) (dotted [py "engines", engine, key]) := by
    refine ⟨settingNote engine targets key, ?_, ?_⟩
    · simp only [engineNotes, Option.mem_def.mp hTargets]
      exact mem_map_of_mem (f := fun field => settingNote engine targets field.1) hSet
    · rw [dotted_three]
      exact key_settingNote engine targets key
  right
  rw [← hRest]
  exact isNamed_of_isNoted [py "engines", engine, key] rest (cons_ne_nil _ _) (.engine hField hNote)

theorem accounted_of_nothingUnread (hDistinct : HasDistinctKeys stable) (hShape : Shape stable)
    (h : NothingUnread stable) : ∀ setting ∈ settingPathsOf [] stable,
      IsAccounted (convert stable workspaceName componentRoot tree) setting := by
  intro setting hSetting
  obtain ⟨⟨key, value⟩, hSet, hPaths⟩ := mem_settingPathsOf.mp hSetting
  rw [nil_append] at hPaths
  have hTop := hShape.top _ hSet
  have hFound := setting_of_section hDistinct hShape key
  have hKnown : key ∈ stable.keys := mem_map_of_mem hSet
  simp only [topLevelKeys, mem_cons, not_mem_nil, or_false] at hTop
  rcases hTop with rfl | rfl | rfl | rfl | rfl | rfl | rfl | rfl
  · obtain ⟨field, hField, hIn⟩ := hFound (by decide) hSet hPaths
    exact accounted_ici hDistinct hShape hField hIn
  · obtain ⟨field, hField, hIn⟩ := hFound (by decide) hSet hPaths
    exact accounted_project hDistinct hShape h.sources hField hIn
  · obtain ⟨field, hField, hIn⟩ := hFound (by decide) hSet hPaths
    exact accounted_engine hShape hField hIn
  · obtain ⟨field, hField, hIn⟩ := hFound (by decide) hSet hPaths
    exact accounted_build hDistinct hShape h.build hField hIn
  · obtain ⟨field, hField, hIn⟩ := hFound (by decide) hSet hPaths
    exact accounted_doctor hDistinct hShape h.tools hField hIn
  all_goals exact absurd hKnown (h.metadata _ (by decide))

/-! ## What is lost -/

def notableKeys : List Text :=
  [py "components[].languages", py "build.python.entrypoint", py "project.cpp_pkg_config",
    py "project.cpp_external_build_dirs", py "project.compile_database", py "project.type",
    py "project.version"]

def listKeys : List Text := [py "project.source_dirs", py "doctor.required_tools"]

def IsNotable (key : Text) : Prop := py "ici." <+: key ∨ py "engines." <+: key ∨ key ∈ notableKeys

instance (key : Text) : Decidable (IsNotable key) := inferInstanceAs (Decidable (_ ∨ _ ∨ _))

theorem key_languages {note : Note} (h : note ∈ (languages tree).2) :
    note.key = py "components[].languages" := by
  unfold languages at h
  split at h
  · rw [mem_singleton] at h
    rw [h]
  · split_ifs at h
    · cases h
    · rw [mem_singleton] at h
      rw [h]

theorem prefix_engineNotes {entry : Text × Json} {note : Note} (h : note ∈ engineNotes entry) :
    py "engines." <+: note.key := by
  unfold engineNotes at h
  split at h
  · obtain ⟨field, _, rfl⟩ := mem_map.mp h
    rw [key_settingNote, append_assoc, append_assoc]
    exact prefix_append _ _
  all_goals
    rw [mem_singleton] at h
    rw [h]
    exact prefix_append _ _

section

variable (hShape : Shape stable)
include hShape

theorem isNoted_cases {key : Text} (h : IsNoted stable tree key) : IsNotable key ∨
      (key = py "project.source_dirs" ∧
        (filled (tableOf stable (py "project")) (py "source_dirs")).isSome = true) ∨
      (key = py "doctor.required_tools" ∧
        (filled (tableOf stable (py "doctor")) (py "required_tools")).isSome = true) := by
  cases h with
  | profile h | entrypoint h => exact .inl (by decide)
  | ici hKey h => exact .inl (.inl ⟨_, rfl⟩)
  | sources h => exact .inr (.inl ⟨rfl, h⟩)
  | compilation hKey h =>
    simp only [mem_cons, not_mem_nil, or_false] at hKey
    rcases hKey with rfl | rfl | rfl <;> exact .inl (by decide)
  | project hKey h =>
    simp only [mem_cons, not_mem_nil, or_false] at hKey
    rcases hKey with rfl | rfl <;> exact .inl (by decide)
  | languages h =>
    obtain ⟨note, hNote, rfl⟩ := h
    rw [key_languages hNote]
    exact .inl (by decide)
  | engine hEntry h =>
    obtain ⟨note, hNote, rfl⟩ := h
    exact .inl (.inr (.inl (prefix_engineNotes hNote)))
  | tools h => exact .inr (.inr ⟨rfl, h⟩)
  | leftover hKey h =>
    obtain ⟨field, hField, rfl⟩ := mem_map.mp hKey
    exact absurd (hShape.top field hField) h

theorem isNotable_or_list {key : Text} (h : IsNoted stable tree key) : IsNotable key ∨ key ∈ listKeys := by
  rcases isNoted_cases hShape h with h | ⟨rfl, _⟩ | ⟨rfl, _⟩
  · exact .inl h
  · exact .inr mem_cons_self
  · exact .inr (mem_cons_of_mem _ mem_cons_self)

theorem section_not_noted :
    ∀ key ∈ [py "name", py "type", py "version", py "build", py "project", py "doctor"],
      ¬IsNoted stable tree key := by
  have hNone : ∀ key ∈ [py "name", py "type", py "version", py "build", py "project", py "doctor"],
      ¬IsNotable key ∧ key ∉ listKeys := by decide
  intro key hKey hNoted
  exact (isNotable_or_list hShape hNoted).elim (hNone key hKey).1 (hNone key hKey).2

theorem build_not_noted {place key : Text}
    (hPlace : place ∈ [py "build.make", py "build.artifacts"]) (hBefore : place <+: key) :
    ¬IsNoted stable tree key := by
  have hApart : ∀ place ∈ [py "build.make", py "build.artifacts"], ∀ other ∈ notableKeys ++ listKeys,
      ¬place <+: other := by decide
  have hShort : ∀ place ∈ [py "build.make", py "build.artifacts"], ∀ other ∈ [py "ici.", py "engines."],
      ¬other <+: place ∧ other.length ≤ place.length := by decide
  have hFront {other : Text} (hOther : other ∈ [py "ici.", py "engines."]) : ¬other <+: key := by
    intro h
    obtain ⟨hNot, hLength⟩ := hShort place hPlace other hOther
    exact hNot (prefix_of_prefix_length_le h hBefore hLength)
  intro hNoted
  rcases isNotable_or_list hShape hNoted with (h | h | h) | h
  · exact hFront mem_cons_self h
  · exact hFront (mem_cons_of_mem _ mem_cons_self) h
  · exact hApart place hPlace key (mem_append_left _ h) hBefore
  · exact hApart place hPlace key (mem_append_right _ h) hBefore

end

theorem lost_of_not_noted {setting : List Text × Json}
    (hAccounted : IsAccounted (convert stable workspaceName componentRoot tree) setting)
    (hNotCarried : ¬IsCarried (convert stable workspaceName componentRoot tree) setting.1 setting.2)
    (hNotNoted : ∀ front, front ≠ [] → front <+: setting.1 → ¬IsNoted stable tree (dotted front)) :
    False := by
  rcases hAccounted with hCarried | hNamed
  · exact hNotCarried hCarried
  · obtain ⟨front, hFront, hBefore, hNote⟩ := isNamed_iff.mp hNamed
    exact hNotNoted front hFront hBefore (hasNote_convert_iff.mp hNote)

theorem setting_mem (hShape : Shape stable) {place key : Text}
    (hPlace : place ∈ [py "ici", py "project", py "build", py "doctor", py "engines"]) {value : Json}
    (hSet : (tableOf stable place).get? key = some value) {setting : List Text × Json}
    (h : setting ∈ settingPaths [place, key] value) : setting ∈ settingPathsOf [] stable := by
  cases hFound : stable.get? place with
  | none =>
    rw [tableOf_of_none hFound] at hSet
    cases hSet
  | some table =>
    have hTable := hShape.section_table place hPlace table hFound
    refine mem_settingPathsOf.mpr ⟨(place, table), mem_of_get? hFound, ?_⟩
    rw [hTable, settingPaths]
    exact mem_settingPathsOf.mpr ⟨(key, value), mem_of_get? hSet, h⟩

theorem prefix_pair {front : List Text} {place key : Text} (hFront : front ≠ [])
    (h : front <+: [place, key]) : front = [place] ∨ front = [place, key] := by
  obtain ⟨first, rest, rfl⟩ := exists_cons_of_ne_nil hFront
  obtain ⟨rfl, hRest⟩ := cons_prefix_cons.mp h
  cases rest with
  | nil => exact .inl rfl
  | cons second rest =>
    obtain ⟨rfl, hNil⟩ := cons_prefix_cons.mp hRest
    rw [prefix_nil.mp hNil]
    exact .inr rfl

theorem dotted_prefix {place inner : Text} {rest : List Text} :
    place ++ py "." ++ inner <+: dotted (place :: inner :: rest) := by
  cases rest with
  | nil => rw [dotted_pair]
  | cons next rest =>
    rw [dotted, join_cons, join_cons, ← append_assoc, ← append_assoc, append_assoc]
    exact prefix_append _ _

theorem metadata_read (hDistinct : HasDistinctKeys stable) (hShape : Shape stable)
    (h : ∀ setting ∈ settingPathsOf [] stable,
      IsAccounted (convert stable workspaceName componentRoot tree) setting) :
    ∀ key ∈ [py "name", py "type", py "version"], key ∉ stable.keys := by
  intro key hKey hSet
  obtain ⟨⟨name, value⟩, hField, rfl⟩ := mem_map.mp hSet
  have hValue := hShape.metadata name hKey value (get?_of_mem hDistinct.top hField)
  have hMem : ([name], value) ∈ settingPathsOf [] stable := by
    refine mem_settingPathsOf.mpr ⟨(name, value), hField, ?_⟩
    rw [settingPaths_filled hValue]
    exact mem_singleton_self _
  refine lost_of_not_noted (h _ hMem) (fun hCarried => nomatch hCarried) fun front hFront hBefore => ?_
  have hOne : front = [name] := by
    obtain ⟨first, rest, rfl⟩ := exists_cons_of_ne_nil hFront
    obtain ⟨rfl, hRest⟩ := cons_prefix_cons.mp hBefore
    rw [prefix_nil.mp hRest]
  rw [hOne, dotted, join_singleton]
  apply section_not_noted hShape
  exact mem_append_left [py "build", py "project", py "doctor"] hKey

section

variable (hShape : Shape stable)
  (h : ∀ setting ∈ settingPathsOf [] stable, IsAccounted (convert stable workspaceName componentRoot tree) setting)
include hShape h

theorem build_read : ∀ key ∈ [py "make", py "artifacts"], ∀ value ∈ (tableOf stable (py "build")).get? key,
      settingPaths [py "build", key] value = [] := by
  intro key hKey value hSet
  rw [eq_nil_iff_forall_not_mem]
  intro setting hSetting
  have hMem := setting_mem hShape (by decide) hSet hSetting
  obtain ⟨below, hBelow⟩ := below_of_mem value hSetting
  have hPlace : py "build" ++ py "." ++ key ∈ [py "build.make", py "build.artifacts"] := by
    have hAll : ∀ key ∈ [py "make", py "artifacts"],
        py "build" ++ py "." ++ key ∈ [py "build.make", py "build.artifacts"] := by decide
    exact hAll key hKey
  obtain ⟨path, value'⟩ := setting
  dsimp only at hBelow
  subst hBelow
  refine lost_of_not_noted (h _ hMem) (fun hCarried => nomatch hCarried) fun front hFront hBefore => ?_
  obtain ⟨first, rest, rfl⟩ := exists_cons_of_ne_nil hFront
  obtain ⟨rfl, hRest⟩ := cons_prefix_cons.mp hBefore
  cases rest with
  | nil =>
    rw [dotted, join_singleton]
    exact section_not_noted hShape _ (by decide)
  | cons second rest =>
    obtain ⟨rfl, _⟩ := cons_prefix_cons.mp hRest
    exact build_not_noted hShape hPlace dotted_prefix

omit hShape h in
theorem filled_nil {table : Dict Text Json} {key : Text} (h : table.get? key = some (.arr [])) :
    filled table key = none := by
  rw [filled, h]
  rfl

omit hShape h in
theorem list_not_noted (hShape : Shape stable) {place key : Text}
    (hPlace : place ∈ [py "build", py "project", py "doctor"])
    (hNone : ¬IsNoted stable tree (place ++ py "." ++ key)) :
    ∀ front, front ≠ [] → front <+: [place, key] → ¬IsNoted stable tree (dotted front) := by
  intro front hFront hBefore
  rcases prefix_pair hFront hBefore with rfl | rfl
  · rw [dotted, join_singleton]
    exact section_not_noted hShape _ (mem_append_right [py "name", py "type", py "version"] hPlace)
  · rwa [dotted_pair]

theorem sources_read : (tableOf stable (py "project")).get? (py "source_dirs") ≠ some (.arr []) := by
  intro hSet
  have hNone := filled_nil hSet
  have hMem := setting_mem hShape (by decide) hSet (mem_singleton_self _)
  refine lost_of_not_noted (h _ hMem) (fun hCarried => ?_)
    (list_not_noted hShape (by decide) fun hNoted => ?_)
  · cases hCarried with
    | sources hSources =>
      simp only [convert, componentTable, hNone, Option.toList_none, map_nil, append_nil]
        at hSources
      cases hSources
  · rcases isNoted_cases hShape hNoted with hNotable | ⟨_, hSome⟩ | ⟨hOther, _⟩
    · exact absurd hNotable (by decide)
    · rw [hNone] at hSome
      cases hSome
    · exact absurd hOther (by decide)

theorem tools_read : (tableOf stable (py "doctor")).get? (py "required_tools") ≠ some (.arr []) := by
  intro hSet
  have hNone := filled_nil hSet
  have hMem := setting_mem hShape (by decide) hSet (mem_singleton_self _)
  refine lost_of_not_noted (h _ hMem) (fun hCarried => nomatch hCarried)
    (list_not_noted hShape (by decide) fun hNoted => ?_)
  rcases isNoted_cases hShape hNoted with hNotable | ⟨hOther, _⟩ | ⟨_, hSome⟩
  · exact absurd hNotable (by decide)
  · exact absurd hOther (by decide)
  · rw [hNone] at hSome
    cases hSome

end

end Accounted

/-- A conversion loses nothing silently exactly when no setting stands where it does not look. -/
theorem conversion_keeps_iff {validators : SettingValidators} (document : StableDocument validators)
    (workspaceName componentRoot : Text) (tree : Option SourceTree) :
    Keeps document.fields (convert document.fields workspaceName componentRoot tree) ↔
      NothingUnread document.fields := by
  have hShape := document.shape
  constructor
  · intro h
    exact ⟨metadata_read document.distinct hShape h.accounted, build_read hShape h.accounted,
      sources_read hShape h.accounted, tools_read hShape h.accounted⟩
  · intro h
    refine ⟨accounted_of_nothingUnread document.distinct hShape h, ?_, targets_apart⟩
    intro engine settings key value hEngine hSet hSwitch
    obtain ⟨targets, hTargets, _⟩ := engines_covered engine (hShape.engines _ hEngine).1
    exact ⟨targets, hTargets,
      switches_reach document.distinct hEngine hSet hSwitch (Option.mem_def.mp hTargets)⟩

def namedFields : Dict Text Json := [(py "name", .str (py "demo")), (py "engines", .obj [])]

theorem tableOf_namedFields (key : Text) : tableOf namedFields key = [] := by
  unfold tableOf
  split
  · rename_i fields hSet
    have hMem := mem_of_get? hSet
    rcases mem_cons.mp hMem with h | h
    · cases h
    · cases mem_singleton.mp h
      rfl
  · rfl

def namedDocument : StableDocument ⟨fun _ => .ok (), fun _ => .ok (), fun _ _ => .ok ()⟩ where
  fields := namedFields
  distinct :=
    { top := by decide
      sections := fun key => by
        rw [tableOf_namedFields]
        exact List.nodup_nil
      tables := fun key inner => by
        rw [tableOf_namedFields]
        exact List.nodup_nil }
  accepted := by decide

theorem conversion_loses_name : ¬∀ (validators : SettingValidators) (document : StableDocument validators)
      (workspaceName componentRoot : Text) (tree : Option SourceTree),
      Keeps document.fields (convert document.fields workspaceName componentRoot tree) := by
  intro hAll
  have h := metadata_read namedDocument.distinct namedDocument.shape
    (hAll _ namedDocument (py "demo") (py ".") none).accounted
  exact h (py "name") (by decide) (by decide)

end Ici.Convert
