import Ici.Application.CheckScope
import Ici.Application.Identity

/-! # Where a checkout lies does not show

Two checks have one comparison key exactly when they are the same check of the same scope, each told
from its own root. -/

namespace Ici

open List Raising Python Json CheckSite Json PurePath Dict

structure SameUnit (root root' : PurePath) (unit unit' : AnalysisUnit) : Prop where
  id : unit.val.id = unit'.val.id
  variant : unit.val.variant = unit'.val.variant
  runtime : Option.Rel (SameReference root root') unit.val.runtime unit'.val.runtime
  buildId : unit.val.buildId = unit'.val.buildId

structure SameExternal (root root' : PurePath) (item item' : ExternalInput) : Prop where
  path : SameReference root root' item.path item'.path
  files : (item.files.map (workspaceReference · root)).Perm (item'.files.map (workspaceReference · root'))
  present : item.present = item'.present

structure SameBuild (root root' : PurePath) (build build' : BuildUnit) : Prop where
  id : build.val.id = build'.val.id
  system : build.val.system = build'.val.system
  variant : build.val.variant = build'.val.variant
  directory : build.val.directory = build'.val.directory
  definition : build.val.definition = build'.val.definition
  prepare : SameInvocation root root' build.val.prepareArgv build'.val.prepareArgv
    (root.join (parse build.val.directory)) (root'.join (parse build'.val.directory))
  artifacts : build.val.artifacts = build'.val.artifacts

/-- The declared outputs of an integration case are compared as the document that is rendered of them. -/
structure SameVariable (site site' : CheckSite) (provider : Text) (pair pair' : Text × Text) : Prop where
  key : pair.1 = pair'.1
  value : if isOutputAsserts provider pair.1 then
      site.environmentValue provider pair.1 pair.2 = site'.environmentValue provider pair'.1 pair'.2
    else SameReference site.root site'.root pair.2 pair'.2

structure SameTask (site site' : CheckSite) (task task' : TaskSpecFields) : Prop where
  invocation : SameInvocation site.root site'.root task.argv task'.argv (parse task.cwd)
    (parse task'.cwd)
  provider : task.provider = task'.provider
  inputs : List.Forall₂ (SameReference site.root site'.root) task.inputRefs task'.inputRefs
  configuration : site.configuration task = site'.configuration task'
  environment : List.Forall₂ (SameVariable site site' task.provider) (overlay task)
    (overlay task')
  units : task.analysisUnitIds = task'.analysisUnitIds

def CheckSite.declaredExternals (site : CheckSite) : List ExternalInput :=
  site.stock.externals.filter (·.path ∈ site.component.val.external)

structure SameScope (site site' : CheckSite) : Prop where
  files : site.files = site'.files
  units : List.Forall₂ (SameUnit site.root site'.root) site.sortedUnits site'.sortedUnits
  externals : (∀ item ∈ site.declaredExternals, ∃ item' ∈ site'.declaredExternals,
      SameExternal site.root site'.root item item') ∧
    ∀ item' ∈ site'.declaredExternals, ∃ item ∈ site.declaredExternals,
      SameExternal site.root site'.root item item'
  builds : List.Forall₂ (SameBuild site.root site'.root) site.builds site'.builds
  task : Option.Rel (SameTask site site') site.task site'.task

/-! ## Part by part -/

theorem optionJson_eq_iff {o o' : Option Text} :
    (o.map str).getD .null = (o'.map str).getD .null ↔ o = o' := by
  cases o <;> cases o' <;> simp

theorem relocatedJson_eq_iff {root root' : PurePath} {o o' : Option Text} :
    (o.map fun t => str (workspaceReference t root)).getD .null =
      (o'.map fun t => str (workspaceReference t root')).getD .null ↔
        Option.Rel (SameReference root root') o o' := by
  cases o with
  | none => cases o' <;> simp
  | some t =>
    cases o' with
    | none => simp
    | some t' => simp [workspaceReference_eq_iff]

theorem map_str_eq_iff {items items' : List Text} : items.map str = items'.map str ↔ items = items' :=
  (map_injective_iff.mpr fun _ _ h => str.inj h).eq_iff

section

variable {site site' : CheckSite}

theorem unitJson_eq_iff {unit unit' : AnalysisUnit} :
    site.unitJson unit = site'.unitJson unit' ↔ SameUnit site.root site'.root unit unit' := by
  simp only [unitJson, arr.injEq, cons.injEq, str.injEq, and_true, optionJson_eq_iff,
    relocatedJson_eq_iff]
  exact ⟨fun ⟨hId, hVariant, hRuntime, hBuild⟩ => ⟨hId, hVariant, hRuntime, hBuild⟩,
    fun h => ⟨h.id, h.variant, h.runtime, h.buildId⟩⟩

theorem externalKey_eq_iff {item item' : ExternalInput} :
    site.externalKey item = site'.externalKey item' ↔ SameExternal site.root site'.root item item' := by
  unfold externalKey
  rw [toLex_inj, Prod.mk.injEq, toLex_inj, Prod.mk.injEq, workspaceReference_eq_iff]
  constructor
  · rintro ⟨hPath, hFiles, hPresent⟩
    refine ⟨hPath, (perm_insertionSort (· ≤ ·) _).symm.trans ?_, hPresent⟩
    rw [hFiles]
    exact perm_insertionSort _ _
  · rintro ⟨hPath, hFiles, hPresent⟩
    refine ⟨hPath, ?_, hPresent⟩
    exact Perm.eq_of_pairwise' (pairwise_insertionSort _ _) (pairwise_insertionSort _ _)
      (((perm_insertionSort _ _).trans hFiles).trans (perm_insertionSort _ _).symm)

theorem invocationJson_eq_iff {identity identity' : Option Text × List Text} :
    invocationJson identity = invocationJson identity' ↔ identity = identity' := by
  unfold invocationJson
  simp only [arr.injEq, cons.injEq, optionJson_eq_iff, map_str_eq_iff, and_true, Prod.ext_iff]

theorem buildJson_eq_iff {build build' : BuildUnit} :
    site.buildJson build = site'.buildJson build' ↔ SameBuild site.root site'.root build build' := by
  unfold buildJson
  simp only [arr.injEq, cons.injEq, str.injEq, and_true, optionJson_eq_iff, invocationJson_eq_iff,
    invocationIdentity_eq_iff, map_str_eq_iff]
  exact ⟨fun ⟨hId, hSystem, hVariant, hDirectory, hDefinition, hPrepare, hArtifacts⟩ =>
      ⟨hId, hSystem, hVariant, hDirectory, hDefinition, hPrepare, hArtifacts⟩,
    fun h => ⟨h.id, h.system, h.variant, h.directory, h.definition, h.prepare, h.artifacts⟩⟩

theorem externals_eq_iff : site.externals = site'.externals ↔
    (∀ item ∈ site.declaredExternals, ∃ item' ∈ site'.declaredExternals,
      SameExternal site.root site'.root item item') ∧
    ∀ item' ∈ site'.declaredExternals, ∃ item ∈ site.declaredExternals,
      SameExternal site.root site'.root item item' := by
  have hMem (site : CheckSite) (key : CheckSite.ExternalKey) :
      key ∈ site.externals ↔ ∃ item ∈ site.declaredExternals, site.externalKey item = key := by
    rw [externals, mem_insertionSort, mem_dedup, mem_map]
    rfl
  have hSet : site.externals = site'.externals ↔ ∀ key, key ∈ site.externals ↔ key ∈ site'.externals := by
    constructor
    · intro h key
      rw [h]
    · intro h
      refine Perm.eq_of_pairwise' (pairwise_insertionSort _ _) (pairwise_insertionSort _ _) ?_
      have hNodup (site : CheckSite) : site.externals.Nodup :=
        (perm_insertionSort _ _).nodup_iff.mpr (nodup_dedup _)
      exact (perm_ext_iff_of_nodup (hNodup site) (hNodup site')).mpr h
  rw [hSet]
  constructor
  · intro h
    constructor
    · intro item hItem
      obtain ⟨item', hItem', hKey⟩ := (hMem site' _).mp ((h _).mp ((hMem site _).mpr ⟨item, hItem, rfl⟩))
      exact ⟨item', hItem', externalKey_eq_iff.mp hKey.symm⟩
    · intro item' hItem'
      obtain ⟨item, hItem, hKey⟩ := (hMem site _).mp ((h _).mpr ((hMem site' _).mpr ⟨item', hItem', rfl⟩))
      exact ⟨item, hItem, externalKey_eq_iff.mp hKey⟩
  · rintro ⟨hLeft, hRight⟩ key
    rw [hMem, hMem]
    constructor
    · rintro ⟨item, hItem, rfl⟩
      obtain ⟨item', hItem', hSame⟩ := hLeft item hItem
      exact ⟨item', hItem', (externalKey_eq_iff.mpr hSame).symm⟩
    · rintro ⟨item', hItem', rfl⟩
      obtain ⟨item, hItem, hSame⟩ := hRight item' hItem'
      exact ⟨item, hItem, externalKey_eq_iff.mpr hSame⟩

theorem variableOf_eq_iff {provider : Text} {pair pair' value value' : Text × Text}
    (h : site.variableOf provider pair = .ok value) (h' : site'.variableOf provider pair' = .ok value') :
    value = value' ↔ SameVariable site site' provider pair pair' := by
  obtain ⟨t, ht, rfl⟩ := map_eq_ok.mp h
  obtain ⟨t', ht', rfl⟩ := map_eq_ok.mp h'
  have hValue (hKey : pair.1 = pair'.1) : t = t' ↔ if isOutputAsserts provider pair.1 then
      site.environmentValue provider pair.1 pair.2 = site'.environmentValue provider pair'.1 pair'.2
    else SameReference site.root site'.root pair.2 pair'.2 := by
    split
    · rw [ht, ht', Except.ok.injEq]
    · rename_i hPlain
      have hPlain' : isOutputAsserts provider pair'.1 = false := hKey ▸ Bool.eq_false_iff.mpr hPlain
      unfold environmentValue at ht ht'
      rw [Bool.eq_false_iff.mpr hPlain] at ht
      rw [hPlain'] at ht'
      rw [← Except.ok.inj ht, ← Except.ok.inj ht']
      exact workspaceReference_eq_iff
  rw [Prod.mk.injEq]
  exact ⟨fun ⟨hKey, hSame⟩ => ⟨hKey, (hValue hKey).mp hSame⟩, fun hSame => ⟨hSame.key,
    (hValue hSame.key).mpr hSame.value⟩⟩

theorem variableOf_congr {provider : Text} {pair pair' : Text × Text}
    (h : SameVariable site site' provider pair pair') :
    site.variableOf provider pair = site'.variableOf provider pair' := by
  have hValue : site.environmentValue provider pair.1 pair.2 =
    site'.environmentValue provider pair'.1 pair'.2 := by
    have hSame := h.value
    split at hSame
    · exact hSame
    · rename_i hPlain
      have hPlain' : ¬isOutputAsserts provider pair'.1 = true := h.key ▸ hPlain
      unfold environmentValue
      rw [Bool.eq_false_iff.mpr hPlain, Bool.eq_false_iff.mpr hPlain', workspaceReference_eq_iff.mpr hSame]
      rfl
  unfold variableOf
  rw [hValue, h.key]

end

theorem eq_iff_forall₂ {α β γ : Type*} {r : α → γ → Prop} {r' : β → γ → Prop} {same : α → β → Prop}
    (h : ∀ a b c c', r a c → r' b c' → (c = c' ↔ same a b)) {as : List α} {bs : List β} {cs cs' : List γ}
    (hr : List.Forall₂ r as cs) (hr' : List.Forall₂ r' bs cs') : cs = cs' ↔ List.Forall₂ same as bs := by
  induction hr generalizing bs cs' with
  | nil => cases hr' <;> simp
  | cons hHead _ ih =>
    cases hr' with
    | nil => simp
    | cons hHead' hTail' => rw [cons.injEq, forall₂_cons, h _ _ _ _ hHead hHead', ih hTail']

theorem mapM_congr_forall₂ {α β γ ε : Type*} {f : α → Except ε γ} {g : β → Except ε γ} {as : List α}
    {bs : List β}
    (h : List.Forall₂ (fun a b => f a = g b) as bs) : as.mapM f = bs.mapM g := by
  induction h with
  | nil => rfl
  | cons hHead _ ih => rw [mapM_cons, mapM_cons, hHead, ih]

section

variable {site site' : CheckSite} {task task' : TaskSpecFields}

theorem environment_congr (hProvider : task.provider = task'.provider)
    (h : List.Forall₂ (SameVariable site site' task.provider) (overlay task)
      (overlay task')) :
    site.environment task = site'.environment task' := by
  unfold environment
  refine mapM_congr_forall₂ (h.imp fun pair pair' hSame => ?_)
  rw [variableOf_congr hSame, hProvider]

section

variable {environment environment' : List (Text × Text)} (h : site.environment task = .ok environment)
  (h' : site'.environment task' = .ok environment')
include h h'

theorem environment_eq_iff (hProvider : task.provider = task'.provider) : environment = environment' ↔
      List.Forall₂ (SameVariable site site' task.provider) (overlay task) (overlay task')
        := by
  unfold CheckSite.environment at h h'
  rw [← hProvider] at h'
  have hOne (pair pair' value value' : Text × Text) (hValue : site.variableOf task.provider pair = .ok value)
      (hValue' : site'.variableOf task.provider pair' = .ok value') :
      value = value' ↔ SameVariable site site' task.provider pair pair' := variableOf_eq_iff hValue hValue'
  exact eq_iff_forall₂ hOne (mapM_eq_ok.mp h) (mapM_eq_ok.mp h')

theorem taskFields_eq_iff : site.taskFields task environment = site'.taskFields task' environment' ↔
      SameTask site site' task task' := by
  have hInvocation := @invocationIdentity_eq_iff site.root site'.root task.argv task'.argv
    (parse task.cwd) (parse task'.cwd)
  have hPairs : Function.Injective pairJson := by
    intro pair pair' hSame
    simp only [pairJson, arr.injEq, cons.injEq, str.injEq, and_true] at hSame
    exact Prod.ext hSame.1 hSame.2
  have hInputs : (task.inputRefs.map fun ref => str (workspaceReference ref site.root)) =
      (task'.inputRefs.map fun ref => str (workspaceReference ref site'.root)) ↔
        List.Forall₂ (SameReference site.root site'.root) task.inputRefs task'.inputRefs := by
    rw [map_eq_map_iff_forall₂]
    simp only [str.injEq, workspaceReference_eq_iff]
  have hConfiguration : ((site.configuration task).map fun pair => pairJson (ofLex pair)) =
      ((site'.configuration task').map fun pair => pairJson (ofLex pair)) ↔
        site.configuration task = site'.configuration task' :=
    (map_injective_iff.mpr (hPairs.comp ofLex.injective)).eq_iff
  have hEnvironment : environment.map pairJson = environment'.map pairJson ↔
      environment = environment' := (map_injective_iff.mpr hPairs).eq_iff
  unfold taskFields
  simp only [cons.injEq, Prod.mk.injEq, true_and, and_true, arr.injEq, map_str_eq_iff, optionJson_eq_iff,
    str.injEq, hInputs, hConfiguration, hEnvironment]
  constructor
  · rintro ⟨hArgv, hCwd, hProvider, hRefs, hFiles, hSame, hUnits⟩
    exact ⟨hInvocation.mp (Prod.ext hCwd hArgv), hProvider, hRefs, hFiles,
      (environment_eq_iff h h' hProvider).mp hSame, hUnits⟩
  · intro hTask
    obtain ⟨hCwd, hArgv⟩ := Prod.ext_iff.mp (hInvocation.mpr hTask.invocation)
    exact ⟨hArgv, hCwd, hTask.provider, hTask.inputs, hTask.configuration,
      (environment_eq_iff h h' hTask.provider).mpr hTask.environment, hTask.units⟩

end

end

section

variable {site site' : CheckSite}

theorem taskJson_congr (h : Option.Rel (SameTask site site') site.task site'.task) :
    site.taskJson = site'.taskJson := by
  unfold taskJson
  cases hTask : site.task with
  | none =>
    cases hTask' : site'.task with
    | none => rfl
    | some task' => rw [hTask, hTask'] at h; exact nomatch h
  | some task =>
    cases hTask' : site'.task with
    | none => rw [hTask, hTask'] at h; exact nomatch h
    | some task' =>
      rw [hTask, hTask', Option.rel_some_some] at h
      have hSame := environment_congr h.provider h.environment
      dsimp only
      cases hEnvironment : site.environment task with
      | error e => rw [← hSame, hEnvironment]; rfl
      | ok environment =>
        have hEnvironment' := hSame.symm.trans hEnvironment
        rw [hEnvironment', Except.map, Except.map, (taskFields_eq_iff hEnvironment hEnvironment').mpr h]

theorem contextFields_eq_iff {invocation invocation' : Json} :
    site.contextFields invocation = site'.contextFields invocation' ↔
      site.files = site'.files ∧ List.Forall₂ (SameUnit site.root site'.root)
        site.sortedUnits site'.sortedUnits ∧
        site.externals = site'.externals ∧
        List.Forall₂ (SameBuild site.root site'.root) site.builds site'.builds ∧
          invocation = invocation' := by
  have hExternals : Function.Injective externalJson := by
    intro key key' hSame
    simp only [externalJson, arr.injEq, cons.injEq, str.injEq, bool.injEq, and_true,
      map_str_eq_iff] at hSame
    exact ofLex.injective (Prod.ext hSame.1 (ofLex.injective (Prod.ext hSame.2.1 hSame.2.2)))
  have hUnits : site.sortedUnits.map site.unitJson = site'.sortedUnits.map site'.unitJson ↔
      List.Forall₂ (SameUnit site.root site'.root) site.sortedUnits site'.sortedUnits := by
    rw [map_eq_map_iff_forall₂]
    simp only [unitJson_eq_iff]
  have hBuilds : site.builds.map site.buildJson = site'.builds.map site'.buildJson ↔
      List.Forall₂ (SameBuild site.root site'.root) site.builds site'.builds := by
    rw [map_eq_map_iff_forall₂]
    simp only [buildJson_eq_iff]
  unfold contextFields
  simp only [cons.injEq, Prod.mk.injEq, true_and, and_true, arr.injEq, map_str_eq_iff, hUnits, hBuilds,
    (map_injective_iff.mpr hExternals).eq_iff]

theorem context_congr (h : SameScope site site') : site.context = site'.context := by
  unfold context
  rw [taskJson_congr h.task]
  refine congrArg (Except.map · site'.taskJson) (funext fun invocation => congrArg obj ?_)
  exact contextFields_eq_iff.mpr ⟨h.files, h.units, externals_eq_iff.mpr h.externals, h.builds, rfl⟩

end

/-! ## Reading the scope back -/

inductive IsPlainJson : Json → Prop where
  | null : IsPlainJson .null
  | bool (value : Bool) : IsPlainJson (.bool value)
  | str (t : Text) : IsPlainJson (.str t)
  | arr {items : List Json} (h : ∀ item ∈ items, IsPlainJson item) : IsPlainJson (.arr items)

theorem IsPlainJson.canon {j : Json} (h : IsPlainJson j) : j.canon = j := by
  induction h with
  | null | bool | str => rfl
  | arr _ ih => rw [Json.canon, canonItems_eq_map, map_congr_left ih, map_id']

theorem IsPlainJson.isReadable {j : Json} (h : IsPlainJson j) : IsReadable false j := by
  induction h with
  | null | bool => trivial
  | str t => exact fun _ _ hAscii => nomatch hAscii
  | arr _ ih => exact itemsReadable_iff.mpr ih

theorem isPlainJson_option (o : Option Text) : IsPlainJson ((o.map str).getD .null) := by
  cases o
  · exact .null
  · exact .str _

theorem isPlainJson_texts (items : List Text) : IsPlainJson (.arr (items.map .str)) :=
  .arr (forall_mem_map.mpr fun _ _ => .str _)

theorem isPlainJson_pair (pair : Text × Text) : IsPlainJson (pairJson pair) :=
  .arr (forall_mem_cons.mpr ⟨.str _, forall_mem_singleton.mpr (.str _)⟩)

theorem isPlainJson_unit (site : CheckSite) (unit : AnalysisUnit) : IsPlainJson (site.unitJson unit) := by
  refine .arr ?_
  simp only [forall_mem_cons, not_mem_nil, false_imp_iff, implies_true, and_true]
  refine ⟨.str _, isPlainJson_option _, ?_, isPlainJson_option _⟩
  cases unit.val.runtime
  · exact .null
  · exact .str _

theorem isPlainJson_build (site : CheckSite) (build : BuildUnit) : IsPlainJson (site.buildJson build) := by
  refine .arr ?_
  simp only [forall_mem_cons, not_mem_nil, false_imp_iff, implies_true, and_true]
  refine ⟨.str _, .str _, .str _, .str _, isPlainJson_option _, ?_, isPlainJson_texts _⟩
  exact .arr (forall_mem_cons.mpr ⟨isPlainJson_option _, forall_mem_singleton.mpr (isPlainJson_texts _)⟩)

theorem isPlainJson_external (key : CheckSite.ExternalKey) : IsPlainJson (externalJson key) := by
  refine .arr ?_
  simp only [forall_mem_cons, not_mem_nil, false_imp_iff, implies_true, and_true]
  exact ⟨.str _, isPlainJson_texts _, .bool _⟩

theorem Dict.eq_of_get? {ν : Type*} {d d' : Dict Text ν} (hKeys : d.keys = d'.keys) (hNodup : d.keys.Nodup)
    (h : ∀ name, d.get? name = d'.get? name) : d = d' := by
  induction d generalizing d' with
  | nil => exact (map_eq_nil_iff.mp hKeys.symm).symm
  | cons entry rest ih =>
    obtain ⟨key, value⟩ := entry
    cases d' with
    | nil => exact nomatch hKeys
    | cons entry' rest' =>
      obtain ⟨key', value'⟩ := entry'
      obtain ⟨hKey, hRest⟩ := cons.inj hKeys
      obtain ⟨hFresh, hTail⟩ := nodup_cons.mp hNodup
      dsimp only at hKey
      subst hKey
      have hValue : some value = some value' := by
        have hHead := h key
        rwa [get?, get?, if_pos rfl, if_pos rfl] at hHead
      obtain rfl := Option.some.inj hValue
      refine congrArg ((key, value) :: ·) (ih hRest hTail fun name => ?_)
      by_cases hSame : name = key
      · subst hSame
        have hFresh' : name ∉ keys rest' := by
          rw [Dict.keys, ← hRest]
          exact hFresh
        rw [(get?_eq_none_iff _ _).mpr hFresh, (get?_eq_none_iff _ _).mpr hFresh']
      · have hName := h name
        rwa [get?, get?, if_neg (Ne.symm hSame), if_neg (Ne.symm hSame)] at hName

theorem canon_obj_inj {fields fields' : Dict Text Json} (hKeys : fields.keys = fields'.keys)
    (hNodup : fields.keys.Nodup) (h : (obj fields).canon = (obj fields').canon) :
    fields.map (fun field => (field.1, field.2.canon)) =
      fields'.map fun field => (field.1, field.2.canon) := by
  rw [canon_obj, canon_obj, obj.injEq] at h
  have hMapKeys (d : Dict Text Json) : keys (d.map fun field => (field.1, field.2.canon)) = d.keys := by
    simp [Dict.keys]
  refine Dict.eq_of_get? ?_ (by rw [hMapKeys]; exact hNodup) fun name => ?_
  · rw [hMapKeys, hMapKeys, hKeys]
  · rw [get?_map, get?_map, ← get?_canon hNodup, ← get?_canon (hKeys ▸ hNodup), h]

section

variable {site site' : CheckSite}

section

variable (task : TaskSpecFields) (environment : List (Text × Text))

theorem plain_taskFields : ∀ field ∈ site.taskFields task environment, IsPlainJson field.2 := by
  unfold taskFields
  simp only [forall_mem_cons, not_mem_nil, false_imp_iff, implies_true, and_true]
  refine ⟨isPlainJson_texts _, isPlainJson_option _, .str _, ?_, ?_, ?_, isPlainJson_texts _⟩
  · exact .arr (forall_mem_map.mpr fun _ _ => .str _)
  all_goals exact .arr (forall_mem_map.mpr fun _ _ => isPlainJson_pair _)

theorem keys_taskFields :
    keys (site.taskFields task environment) = [py "argv", py "cwd", py "provider", py "inputs",
      py "configuration", py "environment", py "units"] := rfl

theorem keys_contextFields (invocation : Json) : keys (site.contextFields invocation) =
    [py "files", py "units", py "externals", py "builds", py "invocation"] := rfl

theorem nodup_taskFields : (keys (site.taskFields task environment)).Nodup := by
  rw [keys_taskFields]
  decide

end

theorem nodup_contextFields (invocation : Json) : (keys (site.contextFields invocation)).Nodup := by
  rw [keys_contextFields]
  decide

theorem map_canon_eq_self {fields : Dict Text Json} (h : ∀ field ∈ fields, IsPlainJson field.2) :
    fields.map (fun field => (field.1, field.2.canon)) = fields := by
  rw [map_congr_left fun field hField => congrArg (Prod.mk field.1) (h field hField).canon]
  exact map_id' fields

theorem map_canon_contextFields (invocation : Json) :
    (site.contextFields invocation).map (fun field => (field.1, field.2.canon)) =
      site.contextFields invocation.canon := by
  have hUnits : IsPlainJson (.arr (site.sortedUnits.map site.unitJson)) :=
    .arr (forall_mem_map.mpr fun _ _ => isPlainJson_unit site _)
  have hExternals : IsPlainJson (.arr (site.externals.map externalJson)) :=
    .arr (forall_mem_map.mpr fun _ _ => isPlainJson_external _)
  have hBuilds : IsPlainJson (.arr (site.builds.map site.buildJson)) :=
    .arr (forall_mem_map.mpr fun _ _ => isPlainJson_build site _)
  unfold contextFields
  simp only [map_cons, map_nil, (isPlainJson_texts _).canon, hUnits.canon, hExternals.canon, hBuilds.canon]

theorem sameTask_of_canon {invocation invocation' : Json} (h : site.taskJson = .ok invocation)
    (h' : site'.taskJson = .ok invocation') (hCanon : invocation.canon = invocation'.canon) :
    Option.Rel (SameTask site site') site.task site'.task := by
  unfold taskJson at h h'
  cases hTask : site.task with
  | none =>
    rw [hTask] at h
    obtain rfl := Except.ok.inj h
    cases hTask' : site'.task with
    | none => exact .none
    | some task' =>
      rw [hTask'] at h'
      obtain ⟨environment', -, rfl⟩ := map_eq_ok.mp h'
      rw [canon_obj] at hCanon
      exact nomatch hCanon
  | some task =>
    rw [hTask] at h
    obtain ⟨environment, hEnvironment, rfl⟩ := map_eq_ok.mp h
    cases hTask' : site'.task with
    | none =>
      rw [hTask'] at h'
      obtain rfl := Except.ok.inj h'
      rw [canon_obj] at hCanon
      exact nomatch hCanon
    | some task' =>
      rw [hTask'] at h'
      obtain ⟨environment', hEnvironment', rfl⟩ := map_eq_ok.mp h'
      have hFields := canon_obj_inj ((keys_taskFields _ _).trans (keys_taskFields _ _).symm)
        (nodup_taskFields _ _) hCanon
      rw [map_canon_eq_self (plain_taskFields _ _), map_canon_eq_self (plain_taskFields _ _)] at hFields
      exact .some ((taskFields_eq_iff hEnvironment hEnvironment').mp hFields)

variable {context : Json} {sha256 : Sha256} {observed : Option Observation} {record : CheckRecord}

theorem sameScope_of_canon {context' : Json} (h : site.context = .ok context)
    (h' : site'.context = .ok context') (hCanon : context.canon = context'.canon) : SameScope site site' := by
  obtain ⟨invocation, hInvocation, rfl⟩ := map_eq_ok.mp h
  obtain ⟨invocation', hInvocation', rfl⟩ := map_eq_ok.mp h'
  have hFields := canon_obj_inj ((keys_contextFields _).trans (keys_contextFields _).symm)
    (nodup_contextFields _) hCanon
  rw [map_canon_contextFields, map_canon_contextFields, contextFields_eq_iff] at hFields
  obtain ⟨hFiles, hUnits, hExternals, hBuilds, hSame⟩ := hFields
  exact ⟨hFiles, hUnits, externals_eq_iff.mp hExternals, hBuilds,
    sameTask_of_canon hInvocation hInvocation' hSame⟩

theorem isReadable_context (h : site.context = .ok context)
    (hEncodable : ∀ leaf ∈ context.leaves, leaf.IsEncodable) : IsReadable true context := by
  refine IsReadable.ascii ?_ hEncodable
  obtain ⟨invocation, hInvocation, rfl⟩ := map_eq_ok.mp h
  have hKeys {fields : Dict Text Json} (hFields : ∀ field ∈ fields, IsReadable false field.2) :
      FieldsReadable false fields :=
    fieldsReadable_iff.mpr fun field hField => ⟨fun _ _ hAscii => (nomatch hAscii), hFields field hField⟩
  have hNodup := @nodup_contextFields site invocation
  refine ⟨hNodup, hKeys ?_⟩
  unfold contextFields
  simp only [forall_mem_cons, not_mem_nil, false_imp_iff, implies_true, and_true]
  refine ⟨(isPlainJson_texts _).isReadable, ?_, ?_, ?_, ?_⟩
  · exact (IsPlainJson.arr (forall_mem_map.mpr fun _ _ => isPlainJson_unit site _)).isReadable
  · exact (IsPlainJson.arr (forall_mem_map.mpr fun _ _ => isPlainJson_external _)).isReadable
  · exact (IsPlainJson.arr (forall_mem_map.mpr fun _ _ => isPlainJson_build site _)).isReadable
  · unfold taskJson at hInvocation
    split at hInvocation
    · obtain rfl := Except.ok.inj hInvocation
      trivial
    · obtain ⟨environment, -, rfl⟩ := map_eq_ok.mp hInvocation
      exact ⟨nodup_taskFields _ _, hKeys fun field hField => (plain_taskFields _ _ field hField).isReadable⟩

/-! ## The comparison key -/

theorem scopeDigest_congr (h : SameScope site site') (sha256 : Sha256) :
    site.scopeDigest sha256 = site'.scopeDigest sha256 := by
  unfold scopeDigest
  rw [context_congr h]

def IsEncodableScope (site : CheckSite) : Prop :=
  ∀ context, site.context = .ok context → ∀ leaf ∈ context.leaves, leaf.IsEncodable

theorem sameScope_of_scopeDigest (hCollisionFree : Function.Injective sha256) {digest : Text}
    (h : site.scopeDigest sha256 = .ok digest) (h' : site'.scopeDigest sha256 = .ok digest)
    (hEncodable : IsEncodableScope site) (hEncodable' : IsEncodableScope site') : SameScope site site' := by
  obtain ⟨context, hContext, h⟩ := bind_eq_ok.mp h
  obtain ⟨text, hText, h⟩ := bind_eq_ok.mp h
  obtain ⟨bytes, hBytes, h⟩ := bind_eq_ok.mp h
  obtain ⟨context', hContext', h'⟩ := bind_eq_ok.mp h'
  obtain ⟨text', hText', h'⟩ := bind_eq_ok.mp h'
  obtain ⟨bytes', hBytes', h'⟩ := bind_eq_ok.mp h'
  have hDigests : py "sha256:" ++ sha256 bytes = py "sha256:" ++ sha256 bytes' :=
    (Except.ok.inj h).trans (Except.ok.inj h').symm
  have hSame := hCollisionFree (append_cancel_left hDigests)
  rw [utf8_eq_ok hBytes, utf8_eq_ok hBytes'] at hSame
  obtain rfl : text = text' := utf8_injective hSame
  have hRead := loads_encode isLegible_default (le_max_left context.depth context'.depth)
    (isReadable_context hContext (hEncodable _ hContext)) hText
  have hRead' := loads_encode isLegible_default (le_max_right context.depth context'.depth)
    (isReadable_context hContext' (hEncodable' _ hContext')) hText'
  exact sameScope_of_canon hContext hContext' (Except.ok.inj (hRead.symm.trans hRead'))

theorem only_congr (h : SameScope site site') : site.only.map (·.val.id) = site'.only.map (·.val.id) ∧
      site.only.bind (·.val.variant) = site'.only.bind (·.val.variant) := by
  have hLength : site.units.length = site'.units.length := by
    have hSorted := h.units.length_eq
    rwa [sortedUnits, sortedUnits, length_insertionSort, length_insertionSort]
      at hSorted
  have hUnits := h.units
  unfold sortedUnits at hUnits
  unfold only
  match hLeft : site.units, hRight : site'.units with
  | [], [] => exact ⟨rfl, rfl⟩
  | [unit], [unit'] =>
    rw [hLeft, hRight] at hUnits
    cases hUnits with
    | cons hSame _ => exact ⟨congrArg some hSame.id, hSame.variant⟩
  | _ :: _ :: _, _ :: _ :: _ => exact ⟨rfl, rfl⟩
  | [], _ :: _ | _ :: _, [] | [_], _ :: _ :: _ | _ :: _ :: _, [_] =>
    rw [hLeft, hRight] at hLength
    simp at hLength

structure SameCheck (site site' : CheckSite) : Prop where
  taskId : site.planned.taskId = site'.planned.taskId
  checkId : site.planned.check.id = site'.planned.check.id
  componentId : site.component.val.id = site'.component.val.id
  language : site.planned.check.language = site'.planned.check.language
  variant : site.variant = site'.variant

theorem record_eq_ok {inputsStable : Bool} (h : site.record sha256 observed inputsStable = .ok record) :
    ∃ digest, site.scopeDigest sha256 = .ok digest ∧ record.val.comparisonKey =
      (site.planned.taskId, site.planned.check.id, site.component.val.id, site.planned.check.language, digest,
        site.only.map (·.val.id), site.variant) := by
  obtain ⟨digest, hDigest, h⟩ := bind_eq_ok.mp h
  refine ⟨digest, hDigest, ?_⟩
  rw [Checked.construct_eq_ok_iff.mp h]
  rfl

theorem comparisonKey_congr {observed' : Option Observation} {stable stable' : Bool}
    {record' : CheckRecord} (h : site.record sha256 observed stable = .ok record)
    (h' : site'.record sha256 observed' stable' = .ok record') (hCheck : SameCheck site site')
    (hScope : SameScope site site') : record.val.comparisonKey = record'.val.comparisonKey := by
  obtain ⟨digest, hDigest, hKey⟩ := record_eq_ok h
  obtain ⟨digest', hDigest', hKey'⟩ := record_eq_ok h'
  have hSame : digest = digest' := by
    rw [scopeDigest_congr hScope, hDigest'] at hDigest
    exact (Except.ok.inj hDigest).symm
  rw [hKey, hKey', hSame, hCheck.taskId, hCheck.checkId, hCheck.componentId, hCheck.language, hCheck.variant,
    (only_congr hScope).1]

theorem same_of_comparisonKey (hCollisionFree : Function.Injective sha256)
    {observed observed' : Option Observation} {stable stable' : Bool} {record record' : CheckRecord}
    (h : site.record sha256 observed stable = .ok record)
    (h' : site'.record sha256 observed' stable' = .ok record') (hEncodable : IsEncodableScope site)
    (hEncodable' : IsEncodableScope site') (hKeys : record.val.comparisonKey = record'.val.comparisonKey) :
    SameCheck site site' ∧ SameScope site site' := by
  obtain ⟨digest, hDigest, hKey⟩ := record_eq_ok h
  obtain ⟨digest', hDigest', hKey'⟩ := record_eq_ok h'
  rw [hKey, hKey'] at hKeys
  simp only [Prod.mk.injEq] at hKeys
  obtain ⟨hTask, hId, hComponent, hLanguage, rfl, -, hVariant⟩ := hKeys
  exact ⟨⟨hTask, hId, hComponent, hLanguage, hVariant⟩,
    sameScope_of_scopeDigest hCollisionFree hDigest hDigest' hEncodable hEncodable'⟩

end

/-- Some `..` is left in the path. -/
def IsUpward (path : PurePath) : Prop := ∃ name ∈ path.names, name = py ".."

theorem checkout_blind (sha256 : Sha256) (hCollisionFree : Function.Injective sha256) :
    (∀ (root root' : PurePath) (argv argv' : List Text) (cwd cwd' : PurePath),
      invocationIdentity argv (some cwd) (some root) = invocationIdentity argv' (some cwd') (some root') ↔
        SameInvocation root root' argv argv' cwd cwd') ∧
    (∀ (site site' : CheckSite) (observed observed' : Option Observation) (stable stable' : Bool)
        (record record' : CheckRecord), site.record sha256 observed stable = .ok record →
      site'.record sha256 observed' stable' = .ok record' →
      (SameCheck site site' ∧ SameScope site site' → record.val.comparisonKey = record'.val.comparisonKey) ∧
        (IsEncodableScope site → IsEncodableScope site' →
          record.val.comparisonKey = record'.val.comparisonKey → SameCheck site site' ∧ SameScope site site'))
            ∧
    ∀ root root' place : PurePath, root.isAbsolute = true → root'.isAbsolute = true →
      place.root = .relative → ¬IsUpward root → ¬IsUpward root' → ¬IsUpward place →
      SameReference root root' (root.join place).asPosix (root'.join place).asPosix ∧
        ∀ front back value value', splitArgument value = ⟨front, (root.join place).asPosix, back⟩ →
          splitArgument value' = ⟨front, (root'.join place).asPosix, back⟩ →
          relocateArgument value (some root) = relocateArgument value' (some root') := by
  refine ⟨fun root root' argv argv' cwd cwd' => invocationIdentity_eq_iff, ?_, ?_⟩
  · intro site site' observed observed' stable stable' record record' h h'
    exact ⟨fun hSame => comparisonKey_congr h h' hSame.1 hSame.2, same_of_comparisonKey hCollisionFree h h'⟩
  · intro root root' place hRoot hRoot' hPlace hNormal hNormal' hInside
    have hDown {path : PurePath} (hPath : ¬IsUpward path) : ∀ name ∈ path.names, name ≠ py ".." :=
      fun name hName hUp => hPath ⟨name, hName, hUp⟩
    have hReference : SameReference root root' (root.join place).asPosix (root'.join place).asPosix :=
      .inl ((referenceOf_below hRoot (hDown hNormal) hPlace (hDown hInside)).trans
        (referenceOf_below hRoot' (hDown hNormal') hPlace (hDown hInside)).symm)
    refine ⟨hReference, fun front back value value' hSplit hSplit' => relocateArgument_eq_iff.mpr ?_⟩
    constructor
    · rw [hSplit, hSplit']
    · rw [hSplit, hSplit']
      exact hReference
    · rw [hSplit, hSplit']

/-- An include directory of two checkouts. -/
theorem checkout_blind_include : relocateArgument (py "-I/ws/include") (some (parse (py "/ws"))) =
      relocateArgument (py "-I/home/ws/include") (some (parse (py "/home/ws"))) := by
  have hDown (path : PurePath) (h : ∀ name ∈ path.names, name ≠ py "..") : ¬IsUpward path :=
    fun ⟨name, hName, hUp⟩ => h name hName hUp
  exact ((checkout_blind spellBytes spellBytes_injective).2.2 (parse (py "/ws"))
    (parse (py "/home/ws")) (parse (py "include")) rfl rfl rfl (hDown _ (by decide))
    (hDown _ (by decide)) (hDown _ (by decide))).2 (py "-I") [] _ _ (by decide) (by decide)

/-- A run path behind a linker flag is no reference, and a detour is no difference. -/
theorem linker_path_kept :
    (¬∀ (root root' place : PurePath) (front : Text), root.isAbsolute = true → root'.isAbsolute = true →
      place.root = .relative →
      relocateArgument (front ++ (root.join place).asPosix) (some root) =
        relocateArgument (front ++ (root'.join place).asPosix) (some root')) ∧
    ¬∀ (root : PurePath) (value value' : Text),
      relocateArgument value (some root) = relocateArgument value' (some root) → value = value' := by
  constructor
  · intro h
    have hSame := h (parse (py "/ws")) (parse (py "/home/ws")) (parse (py "lib"))
      (py "-Wl,-rpath,") rfl rfl rfl
    revert hSame
    decide
  · intro h
    have hSame := h (parse (py "/ws")) (py "/ws/a/../b") (py "/ws/b") (by decide)
    revert hSame
    decide

end Ici
