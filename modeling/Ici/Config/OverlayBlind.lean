import Ici.Config.Composition

/-! # What a local overlay cannot move

Two overlays compose to configurations that differ in the paths of builds and interpreters only. -/

namespace Ici

open List hiding splitOn splitOn_ne_nil
open EffectiveConfig
open Python

theorem exists_getLast?_of_keyMatches {patterns keys : List Text} (h : keyMatches patterns keys = true)
    {pattern : Text} (hLast : patterns.getLast? = some pattern) (hWildcard : pattern ≠ py "*") :
    keys.getLast? = some pattern := by
  induction patterns generalizing keys with
  | nil => cases hLast
  | cons first patterns ih =>
    cases keys with
    | nil => cases h
    | cons key keys =>
      obtain ⟨hFirst, hRest⟩ := Bool.and_eq_true_iff.mp h
      cases patterns with
      | nil =>
        cases keys with
        | nil =>
          rw [getLast?_singleton] at hLast
          cases hLast
          rw [if_neg hWildcard] at hFirst
          rw [getLast?_singleton, of_decide_eq_true hFirst]
        | cons next keys => cases hRest
      | cons second patterns =>
        cases keys with
        | nil => cases hRest
        | cons next keys =>
          rw [getLast?_cons_cons] at hLast ⊢
          exact ih hRest hLast

def overlayLastWords : List Text :=
  [py "directory", py "project", py "cache", py "executable", py "output", py "path"]

theorem getLast?_mem_of_allowed {key : Text} (h : overlayKeyAllowed key = true) :
    ∃ word ∈ overlayLastWords, (splitOn 0x2e key).getLast? = some word := by
  obtain ⟨entry, hEntry, hMatches⟩ := any_eq_true.mp h
  have hWords : ∀ entry ∈ localOverlayAllowlist, ∃ word ∈ overlayLastWords,
      (splitOn 0x2e entry).getLast? = some word ∧ word ≠ py "*" := by decide
  obtain ⟨word, hWord, hLast, hWildcard⟩ := hWords entry hEntry
  exact ⟨word, hWord, exists_getLast?_of_keyMatches hMatches hLast hWildcard⟩

theorem typeProvider_not_allowed (componentId : Text) :
    overlayKeyAllowed (py "components." ++ componentId ++ py ".python.type_provider") = false := by
  have hLast : (splitOn 0x2e (py "components." ++ componentId ++ py ".python.type_provider")).getLast? =
      some (py "type_provider") := by
    have hText : py "components." ++ componentId ++ py ".python.type_provider" =
        (py "components." ++ componentId ++ py ".python") ++ 0x2e :: py "type_provider" := by
      rw [append_assoc _ (py ".python")]
      rfl
    have hWord : splitOn 0x2e (py "type_provider") = [py "type_provider"] := by decide
    rw [hText, splitOn_append_cons, hWord, getLast?_concat]
  rw [← Bool.not_eq_true]
  intro hAllowed
  obtain ⟨word, hWord, hSame⟩ := getLast?_mem_of_allowed hAllowed
  rw [hLast] at hSame
  cases hSame
  exact absurd hWord (by decide)

def EffectiveBuild.withoutMachinePaths (build : EffectiveBuild) : EffectiveBuild :=
  { build with directory := none, definition := none }

def EffectiveComponent.withoutMachinePaths (component : EffectiveComponent) : EffectiveComponent :=
  { component with pythonExecutable := none }

def EffectiveConfig.withoutMachinePaths (config : EffectiveConfig) : EffectiveConfig :=
  { config with
    builds := config.builds.map (·.withoutMachinePaths)
    components := config.components.map (·.withoutMachinePaths) }

theorem policyPayload_withoutMachinePaths (config : EffectiveConfig) :
    config.withoutMachinePaths.policyPayload = config.policyPayload := by
  have hComponents : config.withoutMachinePaths.components.map componentPayload =
      config.components.map componentPayload := by
    rw [withoutMachinePaths, List.map_map]
    rfl
  rw [policyPayload, hComponents]
  rfl

theorem policyDigest_withoutMachinePaths (sha256 : Sha256) (config : EffectiveConfig) :
    config.withoutMachinePaths.policyDigest sha256 = config.policyDigest sha256 := by
  rw [policyDigest, policyPayload_withoutMachinePaths]
  rfl

theorem pythonTypeProvider_eq (componentId : Text) (body : ComponentBody) (first second : LocalOverlay) :
    pythonTypeProvider componentId body first = pythonTypeProvider componentId body second := by
  have hKey := typeProvider_not_allowed componentId
  rw [pythonTypeProvider, pythonTypeProvider, chosenProvider, chosenProvider,
    first.get?_of_not_allowed hKey, second.get?_of_not_allowed hKey]

theorem composeComponent_withoutMachinePaths (context : CompositionContext) (identifier : Option Text)
    (body : ComponentBody) (declaredIn : Text) (overlay : LocalOverlay) :
    (composeComponent { context with overlay := overlay } identifier body
      declaredIn).value.withoutMachinePaths =
      (composeComponent context identifier body declaredIn).value.withoutMachinePaths := by
  simp only [composeComponent, Reported.value_bind, Reported.value_pure,
    EffectiveComponent.withoutMachinePaths, pythonTypeProvider_eq _ body overlay context.overlay]

theorem composeWorkspace_withoutMachinePaths (root : RootDocument)
    (children : Dict Text ComponentDocument) (environment : Environment) (first second : LocalOverlay) :
    (composeWorkspace root children first environment).value.withoutMachinePaths =
      (composeWorkspace root children second environment).value.withoutMachinePaths := by
  simp only [composeWorkspace, composeComponents, Reported.value_bind, Reported.value_pure,
    Reported.value_each,
    withoutMachinePaths, List.map_map, mk.injEq, true_and, and_true]
  refine ⟨rfl, ?_, ?_⟩
  · apply map_congr_left
    intro entry _
    exact (composeComponent_withoutMachinePaths (workspaceContext root second environment) none entry.1
      entry.2 first)
  · apply map_congr_left
    intro declaration _
    rfl

/-- Local overlays cannot move policy. -/
theorem overlay_cannot_move_policy {root : RootDocument} {children : Dict Text ComponentDocument}
    {environment : Environment} {first second : LocalOverlay} {a b : EffectiveConfig}
    (hFirst : compose root children first environment = .ok a)
    (hSecond : compose root children second environment = .ok b) :
    a.withoutMachinePaths = b.withoutMachinePaths ∧
      ∀ sha256, a.policyDigest sha256 = b.policyDigest sha256 := by
  obtain ⟨-, rfl⟩ := Reported.collect_eq_ok_iff.mp hFirst
  obtain ⟨-, rfl⟩ := Reported.collect_eq_ok_iff.mp hSecond
  have hSame := composeWorkspace_withoutMachinePaths root children environment first second
  refine ⟨hSame, fun sha256 => ?_⟩
  rw [← policyDigest_withoutMachinePaths, hSame, policyDigest_withoutMachinePaths]

def movableRoot : RootDocument where
  path := py "ici.toml"
  checks :=
    [{ id := py "python.lint"
       required := some ⟨true, .inRoot (py "checks.python.lint.required")⟩
       origin := .inRoot (py "checks.python.lint") }]
  builds := [{ id := py "native", origin := .inRoot (py "builds.native") }]
  components :=
    [.inline
      { id := some ⟨py "core", .inRoot (py "components[0].id")⟩
        root := some ⟨py "core", .inRoot (py "components[0].root")⟩
        languages := some ⟨[py "python"], .inRoot (py "components[0].languages")⟩
        origin := .inRoot (py "components[0]") }]

def movedPaths : LocalOverlay where
  values :=
    [(py "builds.native.directory", ⟨py "out/debug", ⟨py "local.toml", [], by decide⟩⟩),
      (py "components.core.python.executable", ⟨py "/opt/python", ⟨py "local.toml", [], by decide⟩⟩)]
  allowed := by decide

theorem overlay_cannot_move_policy_moved :
    ∃ a b, compose movableRoot [] .empty [] = .ok a ∧ compose movableRoot [] movedPaths [] = .ok b ∧
      a ≠ b ∧ a.withoutMachinePaths = b.withoutMachinePaths ∧
      ∀ sha256, a.policyDigest sha256 = b.policyDigest sha256 :=
  ⟨_, _, rfl, rfl, by decide, @overlay_cannot_move_policy movableRoot [] [] .empty movedPaths _ _ rfl rfl⟩

end Ici
