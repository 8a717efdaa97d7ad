import Ici.Config.Composition

/-! # Inline and child-file declarations

A component body composes alike wherever it is stored, as long as each of its paths is written
relative to the document it stands in. -/

namespace Ici

open Option List Python Reported EffectiveConfig PurePath

def Decided.withoutOrigin {α : Type} (decided : Decided α) : Decided α :=
  { decided with origin := defaultsOrigin }

def EffectiveCheck.withoutOrigins (check : EffectiveCheck) : EffectiveCheck :=
  { check with
    enabled := check.enabled.withoutOrigin
    required := check.required.withoutOrigin }

def EffectiveIntegrationCase.withoutOrigins (declared : EffectiveIntegrationCase) :
    EffectiveIntegrationCase :=
  { declared with declaredIn := [] }

def EffectiveComponent.withoutOrigins (component : EffectiveComponent) : EffectiveComponent :=
  { component with
    root := component.root.withoutOrigin
    languages := component.languages.withoutOrigin
    checks := component.checks.map (·.withoutOrigins)
    build := component.build.map (·.withoutOrigin)
    needs := component.needs.map (·.withoutOrigin)
    external := component.external.map (·.withoutOrigin)
    declaredIn := []
    pythonExecutable := component.pythonExecutable.map (·.withoutOrigin)
    pythonTypeProvider := component.pythonTypeProvider.map (·.withoutOrigin)
    integrations := component.integrations.map (·.withoutOrigins) }

def EffectiveConfig.withoutOrigins (config : EffectiveConfig) : EffectiveConfig :=
  { config with components := config.components.map (·.withoutOrigins) }

theorem componentPayload_withoutOrigins (component : EffectiveComponent) :
    componentPayload component.withoutOrigins =
      componentPayload component := by
  have hChecks : component.withoutOrigins.checks.map checkPayload =
      component.checks.map checkPayload := by
    rw [EffectiveComponent.withoutOrigins, List.map_map]
    rfl
  rw [componentPayload, hChecks]
  rfl

theorem policyDigest_withoutOrigins (sha256 : Sha256) (config : EffectiveConfig) :
    config.withoutOrigins.policyDigest sha256 = config.policyDigest sha256 := by
  have hComponents : config.withoutOrigins.components.map componentPayload =
      config.components.map componentPayload := by
    rw [withoutOrigins, List.map_map]
    exact map_congr_left fun component _ => componentPayload_withoutOrigins component
  have hPayload : config.withoutOrigins.policyPayload = config.policyPayload := by
    rw [policyPayload, hComponents]
    rfl
  rw [policyDigest, hPayload]
  rfl

/-! ## The same declaration in two documents -/

section

variable (environment : Environment) (file file' : Text)

def SamePlace (path path' : DeclaredPath) : Prop :=
  Reported.Agrees Eq (path.resolve (declaringDirectory file) environment)
    (path'.resolve (declaringDirectory file') environment)

def SameOutside (raw raw' : Text) : Prop :=
  ∀ origin origin' : Origin, Reported.Agrees
      (fun text text' => (parse text).isAbsolute = (parse text').isAbsolute ∧
        anchorCandidate file (parse text) = anchorCandidate file' (parse text'))
      (substituteEnvironment raw origin environment) (substituteEnvironment raw' origin' environment)

structure SameProgram (executable executable' : Executable) : Prop where
  lookup : executable.searchesPath = executable'.searchesPath
  name : executable.searchesPath = true → executable.raw = executable'.raw
  place : executable.searchesPath = false →
    SameOutside environment executable.origin.file executable'.origin.file executable.raw executable'.raw

def SameValue {α : Type} (value value' : Option (Sourced α)) : Prop :=
  value.map (·.value) = value'.map (·.value)

structure SameSetting (setting setting' : CheckSetting) : Prop where
  id : setting.id = setting'.id
  enabled : SameValue setting.enabled setting'.enabled
  required : SameValue setting.required setting'.required

structure SameOutput (output output' : IntegrationOutputBody) : Prop where
  path : Option.Rel (SamePlace environment file file') output.path output'.path
  kind : SameValue output.kind output'.kind
  minSize : SameValue output.minSize output'.minSize

structure SameCase (declared declared' : IntegrationCaseBody) : Prop where
  name : SameValue declared.name declared'.name
  argv : SameValue declared.argv declared'.argv
  expectedExit : SameValue declared.expectedExit declared'.expectedExit
  stdoutContains : declared.stdoutContains = declared'.stdoutContains
  stderrContains : declared.stderrContains = declared'.stderrContains
  stdoutNotContains : declared.stdoutNotContains = declared'.stdoutNotContains
  stderrNotContains : declared.stderrNotContains = declared'.stderrNotContains
  timeoutSeconds : SameValue declared.timeoutSeconds declared'.timeoutSeconds
  env : declared.env.map (fun entry => (entry.1, entry.2.value)) =
    declared'.env.map (fun entry => (entry.1, entry.2.value))
  requires : declared.requires = declared'.requires
  pythonTargets : List.Forall₂ (fun target target' => target.1 = target'.1 ∧
    SameProgram environment target.2 target'.2) declared.pythonTargets declared'.pythonTargets
  outputArtifacts : List.Forall₂ (SameOutput environment file file') declared.outputArtifacts
    declared'.outputArtifacts
  required : SameValue declared.required declared'.required

def SameGlobs (globs globs' : List SourceGlob) : Prop := globs.map (·.raw) = globs'.map (·.raw)

structure SameBody (body body' : ComponentBody) : Prop where
  id : SameValue body.id body'.id
  root : Option.Rel (SamePlace environment file file') body.root body'.root
  languages : SameValue body.languages body'.languages
  build : SameValue body.build body'.build
  sources : SameGlobs body.sources body'.sources
  include' : SameGlobs body.include' body'.include'
  exclude : SameGlobs body.exclude body'.exclude
  vendor : SameGlobs body.vendor body'.vendor
  executable : Option.Rel (SameProgram environment) (body.python.bind (·.executable))
    (body'.python.bind (·.executable))
  typeProvider : SameValue (body.python.bind (·.typeProvider)) (body'.python.bind (·.typeProvider))
  testPaths : SameGlobs ((body.python.map (·.testPaths)).getD []) ((body'.python.map (·.testPaths)).getD [])
  checks : List.Forall₂ SameSetting body.checks body'.checks
  needs : SameValue body.needs body'.needs
  external : Option.Rel (fun external external' =>
    List.Forall₂ (SameOutside environment file file') external.value external'.value)
    body.external body'.external
  integrations : List.Forall₂ (SameCase environment file file') body.integrations body'.integrations

variable {environment file file'}

/-! ## Anchoring -/

theorem anchor_agrees {path path' : Option DeclaredPath}
    (h : Option.Rel (SamePlace environment file file') path path') (workspaceDir : PurePath)
    (what what' : Text) :
    Reported.Agrees Eq (anchor path file workspaceDir environment what)
      (anchor path' file' workspaceDir environment what') := by
  cases h with
  | none => exact agrees_pure rfl
  | some hPlace =>
    refine agrees_bind hPlace ?_
    rintro anchored _ rfl
    dsimp only
    split
    · exact agrees_pure rfl
    · split
      · exact agrees_pure rfl
      · exact agrees_of_reports rfl rfl

theorem anchorOutside_agrees {raw raw' : Text} (h : SameOutside environment file file' raw raw')
    (origin origin' : Origin) (workspaceDir : PurePath) :
    Reported.Agrees Eq (anchorOutside raw origin file workspaceDir environment)
      (anchorOutside raw' origin' file' workspaceDir environment) := by
  refine agrees_bind (h origin origin') ?_
  rintro text text' ⟨hAbsolute, hAnchored⟩
  simp only [hAbsolute, hAnchored]
  split
  · exact agrees_pure rfl
  · split <;> exact agrees_pure rfl

theorem executablePath_agrees {executable executable' : Executable}
    (h : SameProgram environment executable executable') (workspaceDir : PurePath) :
    Reported.Agrees Eq (executablePath executable workspaceDir environment)
      (executablePath executable' workspaceDir environment) := by
  unfold executablePath
  rw [← h.lookup]
  split
  · rename_i hLookup
    exact agrees_pure (h.name hLookup)
  · rename_i hPath
    exact anchorOutside_agrees (h.place (Bool.eq_false_iff.mpr hPath)) _ _ _

theorem forall₂_zipIdx {α β : Type} {R : α → β → Prop} {l : List α} {m : List β}
    (h : List.Forall₂ R l m) (start : ℕ) :
    List.Forall₂ (fun a b => R a.1 b.1) (l.zipIdx start) (m.zipIdx start) := by
  induction h generalizing start with
  | nil => exact .nil
  | cons hHead _ ih =>
    rw [zipIdx_cons, zipIdx_cons]
    exact .cons hHead (ih (start + 1))

theorem map_eq_map_of_forall₂ {α β γ : Type} {f : α → γ} {g : β → γ} {l : List α} {m : List β}
    (h : List.Forall₂ (fun a b => f a = g b) l m) : l.map f = m.map g := by
  induction h with
  | nil => rfl
  | cons hHead _ ih => rw [map_cons, map_cons, hHead, ih]

theorem eq_of_forall₂ {α : Type} {l m : List α} (h : List.Forall₂ Eq l m) : l = m := by
  simpa using map_eq_map_of_forall₂ (f := id) (g := id) h

def SameDecided {α : Type} (decided decided' : Option (Decided α)) : Prop :=
  decided.map (·.withoutOrigin) = decided'.map (·.withoutOrigin)

theorem sameDecided_optional {α : Type} {value value' : Option (Sourced α)} (h : SameValue value value')
    (layer : Layer) : SameDecided (Sourced.optional value layer) (Sourced.optional value' layer) := by
  cases value with
  | none =>
    cases value' with
    | none => rfl
    | some sourced => cases h
  | some sourced =>
    cases value' with
    | none => cases h
    | some sourced' =>
      have hValue : sourced.value = sourced'.value := some.inj h
      simp only [SameDecided, Sourced.optional, map_some, Decided.withoutOrigin, hValue]

variable {body body' : ComponentBody} {composed composed' : Dict Text EffectiveCheck}

theorem externalInputs_agrees (h : SameBody environment file file' body body') (workspaceDir : PurePath) :
    Reported.Agrees SameDecided (externalInputs body file workspaceDir environment)
      (externalInputs body' file' workspaceDir environment) := by
  have hExternal := h.external
  unfold externalInputs
  generalize body.external = external at hExternal ⊢
  generalize body'.external = external' at hExternal ⊢
  cases hExternal with
  | none => exact agrees_pure rfl
  | @some external external' hValues =>
    have hEach := agrees_each ((forall₂_zipIdx hValues 0).imp fun entry entry' hSame =>
      anchorOutside_agrees hSame (external.origin.item entry.2) (external'.origin.item entry'.2) workspaceDir)
    refine agrees_bind hEach ?_
    intro resolved resolved' hResolved
    rw [eq_of_forall₂ hResolved]
    exact agrees_pure rfl

/-! ## Interpreters -/

theorem SameProgram.refl (executable : Executable) : SameProgram environment executable executable where
  lookup := rfl
  name _ := rfl
  place _ origin origin' := by
    obtain ⟨hValue, hReports⟩ := substituteEnvironment_origin executable.raw origin origin' environment
    exact ⟨hReports, fun _ => by rw [hValue]; exact ⟨rfl, rfl⟩⟩

def SameChoice (environment : Environment) (chosen chosen' : Executable × Layer) : Prop :=
  chosen.2 = chosen'.2 ∧ SameProgram environment chosen.1 chosen'.1

section

variable (h : SameBody environment file file' body body') (componentId : Text) (overlay : LocalOverlay)
include h

theorem chosenExecutable_agrees :
    Reported.Agrees (Option.Rel (SameChoice environment)) (chosenExecutable componentId body overlay)
      (chosenExecutable componentId body' overlay) := by
  have hExecutable := h.executable
  have hDeclared : Option.Rel (SameChoice environment)
      ((body.python.bind (·.executable)).map fun executable => (executable, Layer.component))
      ((body'.python.bind (·.executable)).map fun executable => (executable, Layer.component)) := by
    generalize body.python.bind (·.executable) = declared at hExecutable ⊢
    generalize body'.python.bind (·.executable) = declared' at hExecutable ⊢
    cases hExecutable with
    | none => exact .none
    | some hSame => exact .some ⟨rfl, hSame⟩
  unfold chosenExecutable
  cases overlay.get? (py "components." ++ componentId ++ py ".python.executable") with
  | none => exact agrees_pure hDeclared
  | some sourced =>
    dsimp only
    split
    · exact agrees_of_reports rfl rfl
    · exact agrees_pure (.some ⟨rfl, SameProgram.refl _⟩)

theorem pythonExecutable_agrees (workspaceDir : PurePath) :
    Reported.Agrees SameDecided (pythonExecutable componentId body overlay workspaceDir environment)
      (pythonExecutable componentId body' overlay workspaceDir environment) := by
  refine agrees_bind (chosenExecutable_agrees h componentId overlay) ?_
  rintro chosen chosen' hChosen
  cases hChosen with
  | none => exact agrees_pure rfl
  | some hSame =>
    obtain ⟨hLayer, hProgram⟩ := hSame
    refine agrees_bind (executablePath_agrees hProgram workspaceDir) ?_
    rintro value _ rfl
    refine agrees_pure ?_
    simp only [SameDecided, map_some, Decided.withoutOrigin, hLayer]

theorem sameDecided_chosenProvider :
    SameDecided (chosenProvider componentId body overlay) (chosenProvider componentId body' overlay) := by
  unfold chosenProvider
  cases overlay.get? (py "components." ++ componentId ++ py ".python.type_provider") with
  | none => exact sameDecided_optional h.typeProvider .component
  | some sourced => rfl

theorem pythonTypeProvider_agrees :
    Reported.Agrees SameDecided (pythonTypeProvider componentId body overlay)
      (pythonTypeProvider componentId body' overlay) := by
  have hChosen := sameDecided_chosenProvider h componentId overlay
  unfold pythonTypeProvider
  generalize chosenProvider componentId body overlay = chosen at hChosen ⊢
  generalize chosenProvider componentId body' overlay = chosen' at hChosen ⊢
  cases chosen with
  | none =>
    cases chosen' with
    | none => exact agrees_pure rfl
    | some decided => cases hChosen
  | some decided =>
    cases chosen' with
    | none => cases hChosen
    | some decided' =>
      have hSame : decided.withoutOrigin = decided'.withoutOrigin := some.inj hChosen
      have hValue : decided.withoutOrigin.value = decided'.withoutOrigin.value := congrArg _ hSame
      change decided.value = decided'.value at hValue
      dsimp only
      rw [hValue]
      refine agrees_bind (agrees_reportIf Iff.rfl _ _) fun _ _ _ => ?_
      split
      · exact agrees_pure hChosen
      · exact agrees_pure rfl

end

variable {α : Type} {value value' : Option (Sourced α)}

theorem SameValue.getD (h : SameValue value value')
    (default : α) : (value.map (·.value)).getD default = (value'.map (·.value)).getD default := by
  rw [h]

theorem integrationOutput_agrees {output output' : IntegrationOutputBody}
    (h : SameOutput environment file file' output output') (workspaceDir : PurePath) (name : Text) :
    Reported.Agrees Eq (integrationOutput name file workspaceDir environment output)
      (integrationOutput name file' workspaceDir environment output') := by
  have hPath := h.path
  unfold integrationOutput
  generalize output.path = path at hPath ⊢
  generalize output'.path = path' at hPath ⊢
  cases hPath with
  | none => exact agrees_pure rfl
  | some hPlace =>
    refine agrees_bind (anchor_agrees (.some hPlace) workspaceDir _ _) ?_
    rintro value _ rfl
    rw [h.kind.getD, h.minSize.getD]
    exact agrees_pure rfl

theorem pythonTarget_agrees {target target' : Text × Executable} (hName : target.1 = target'.1)
    (h : SameProgram environment target.2 target'.2) (workspaceDir : PurePath) :
    Reported.Agrees Eq (pythonTarget workspaceDir environment target)
      (pythonTarget workspaceDir environment target') := by
  refine agrees_bind (executablePath_agrees h workspaceDir) ?_
  rintro value _ rfl
  rw [hName]
  exact agrees_pure rfl

theorem integrationCase_agrees {declared declared' : IntegrationCaseBody}
    (h : SameCase environment file file' declared declared') (workspaceDir : PurePath) :
    Reported.Agrees (Option.Rel fun effective effective' =>
        EffectiveIntegrationCase.withoutOrigins effective = effective'.withoutOrigins)
      (integrationCase file workspaceDir environment declared)
      (integrationCase file' workspaceDir environment declared') := by
  have hName := h.name
  have hArgv := h.argv
  unfold integrationCase
  generalize declared.name = name at hName ⊢
  generalize declared'.name = name' at hName ⊢
  generalize declared.argv = argv at hArgv ⊢
  generalize declared'.argv = argv' at hArgv ⊢
  rcases name with _ | name <;> rcases name' with _ | name' <;> try cases hName
  · exact agrees_pure .none
  rcases argv with _ | argv <;> rcases argv' with _ | argv' <;> try cases hArgv
  · exact agrees_pure .none
  have hNames : name.value = name'.value := some.inj hName
  have hArgvs : argv.value = argv'.value := some.inj hArgv
  dsimp only
  rw [hNames, hArgvs]
  have hTargets := agrees_each (h.pythonTargets.imp fun target target' hSame =>
    @pythonTarget_agrees environment target target' hSame.1 hSame.2 workspaceDir)
  have hOutputs := agrees_each (h.outputArtifacts.imp fun _ _ hSame =>
    integrationOutput_agrees hSame workspaceDir name'.value)
  refine agrees_bind hTargets fun targets targets' hTargets => ?_
  refine agrees_bind hOutputs fun outputs outputs' hOutputs => ?_
  rw [eq_of_forall₂ hTargets, eq_of_forall₂ hOutputs]
  refine agrees_pure (.some ?_)
  simp only [EffectiveIntegrationCase.withoutOrigins, h.expectedExit.getD, h.timeoutSeconds.getD,
    h.required.getD, h.stdoutContains, h.stderrContains, h.stdoutNotContains, h.stderrNotContains,
    h.env, h.requires]

theorem composeIntegrations_agrees
    (h : SameBody environment file file' body body') (workspaceDir : PurePath) :
    Reported.Agrees (fun cases cases' => List.map EffectiveIntegrationCase.withoutOrigins cases =
        List.map EffectiveIntegrationCase.withoutOrigins cases')
      (composeIntegrations body file workspaceDir environment)
      (composeIntegrations body' file' workspaceDir environment) := by
  refine agrees_bind (agrees_each (h.integrations.imp fun _ _ hSame =>
    integrationCase_agrees hSame workspaceDir)) fun cases cases' hCases => agrees_pure ?_
  exact map_eq_map_of_forall₂ (rel_filterMap (fun _ _ hRel => hRel) hCases)

/-! ## Checks -/

theorem value_decide {α : Type} {decided decided' : Decided α} {candidate candidate' : Option (Sourced α)}
    (h : decided.withoutOrigin = decided'.withoutOrigin) (hCandidate : SameValue candidate candidate')
    (layer : Layer) :
    (decided.decide candidate layer).withoutOrigin = (decided'.decide candidate' layer).withoutOrigin := by
  have hLayer : decided.withoutOrigin.layer = decided'.withoutOrigin.layer := congrArg _ h
  change decided.layer = decided'.layer at hLayer
  cases candidate with
  | none =>
    cases candidate' with
    | none => exact h
    | some sourced => cases hCandidate
  | some sourced =>
    cases candidate' with
    | none => cases hCandidate
    | some sourced' =>
      have hValue : sourced.value = sourced'.value := some.inj hCandidate
      simp only [Decided.decide, hLayer]
      split
      · simp only [Decided.withoutOrigin, hValue]
      · exact h

theorem adjust_agrees {base base' : EffectiveCheck} {setting setting' : CheckSetting}
    (hBase : base.withoutOrigins = base'.withoutOrigins) (h : SameSetting setting setting')
    (componentId : Text) (rootSetting : Option CheckSetting) :
    Reported.Agrees (fun check check' => EffectiveCheck.withoutOrigins check = check'.withoutOrigins)
      (adjust componentId base setting rootSetting) (adjust componentId base' setting' rootSetting) := by
  obtain ⟨hId, hEnabled, hRequired, -⟩ := EffectiveCheck.mk.inj hBase
  have hValue : base.required.withoutOrigin.value = base'.required.withoutOrigin.value :=
    congrArg _ hRequired
  change base.required.value = base'.required.value at hValue
  have hSetting : setting.required.map (·.value) = setting'.required.map (·.value) := h.required
  have hLowers : lowers base setting = lowers base' setting' := by
    rw [lowers, lowers, hValue, hSetting]
  unfold adjust
  dsimp only
  rw [hLowers]
  split
  · exact agrees_of_reports rfl rfl
  · refine agrees_pure ?_
    simp only [EffectiveCheck.withoutOrigins, value_decide hEnabled h.enabled,
      value_decide hRequired h.required, hId]

def SameChecks (composed composed' : Dict Text EffectiveCheck) : Prop :=
  composed.map (fun entry => (entry.1, entry.2.withoutOrigins)) =
    composed'.map fun entry => (entry.1, entry.2.withoutOrigins)

section

variable (h : SameChecks composed composed')
include h

theorem SameChecks.get? (id : Text) :
    (composed.get? id).map (·.withoutOrigins) = (composed'.get? id).map (·.withoutOrigins) := by
  rw [← Dict.get?_map, ← Dict.get?_map, h]

theorem SameChecks.set {check check' : EffectiveCheck} (hCheck : check.withoutOrigins = check'.withoutOrigins)
    (id : Text) :
    SameChecks (composed.set id check) (composed'.set id check') := by
  unfold SameChecks at h ⊢
  rw [Dict.map_set, Dict.map_set, h, hCheck]

theorem SameChecks.keys : composed.keys = composed'.keys := by
  have hKeys := congrArg Dict.keys h
  simpa only [Dict.keys, List.map_map, Function.comp_def] using hKeys

end

theorem applyAdjustment_agrees {setting setting' : CheckSetting} (hComposed : SameChecks composed composed')
    (h : SameSetting setting setting') (componentId : Text) (settings : Dict Text CheckSetting) :
    Reported.Agrees SameChecks (applyAdjustment componentId settings composed setting)
      (applyAdjustment componentId settings composed' setting') := by
  have hGet := hComposed.get? setting.id
  have hBase : ((composed.get? setting.id).getD (defaultCheck setting.id)).withoutOrigins =
      ((composed'.get? setting.id).getD (defaultCheck setting.id)).withoutOrigins := by
    generalize composed.get? setting.id = found at hGet ⊢
    generalize composed'.get? setting.id = found' at hGet ⊢
    rcases found with _ | found <;> rcases found' with _ | found' <;> try cases hGet
    · rfl
    · exact some.inj hGet
  unfold applyAdjustment assign adjustCurrent
  rw [← h.id]
  refine agrees_bind (adjust_agrees hBase h componentId _) fun check check' hCheck => ?_
  exact agrees_pure (hComposed.set hCheck setting.id)

theorem componentChecks_agrees
    (h : SameBody environment file file' body body') (componentId : Text) (rootSettings : List CheckSetting)
    (workspaceChecks : List EffectiveCheck) :
    Reported.Agrees (fun checks checks' => List.map EffectiveCheck.withoutOrigins checks =
        List.map EffectiveCheck.withoutOrigins checks')
      (componentChecks componentId body rootSettings workspaceChecks)
      (componentChecks componentId body' rootSettings workspaceChecks) := by
  refine agrees_bind (agrees_foldlM h.checks
    (fun _ _ _ _ hComposed hSetting => applyAdjustment_agrees hComposed hSetting componentId _) rfl) ?_
  intro composed composed' hComposed
  refine agrees_pure ?_
  rw [hComposed.keys, map_filterMap, map_filterMap]
  exact filterMap_congr fun id _ => hComposed.get? id

theorem SameGlobs.map_resolve {globs globs' : List SourceGlob} (h : SameGlobs globs globs')
    (scope : PurePath) : globs.map (·.resolve scope) = globs'.map (·.resolve scope) := by
  let resolveText (raw : Text) : Text :=
    if PurePosixPath.isAbsolute raw then raw else (normalise (scope.join (parse raw))).asPosix
  have hResolve (globs : List SourceGlob) :
      globs.map (·.resolve scope) = (globs.map (·.raw)).map resolveText := by
    rw [List.map_map]
    rfl
  rw [hResolve, hResolve, h]

theorem option_eq_none_iff {α β : Type} {R : α → β → Prop} {a : Option α} {b : Option β}
    (h : Option.Rel R a b) : a = none ↔ b = none := by
  cases h with
  | none => exact ⟨fun _ => rfl, fun _ => rfl⟩
  | some _ => exact ⟨nofun, nofun⟩

theorem SameValue.eq_none_iff (h : SameValue value value') : value = none ↔ value' = none := by
  rw [← map_eq_none_iff (f := fun sourced : Sourced α => sourced.value), h, map_eq_none_iff]

theorem composeComponent_agrees {body body' : ComponentBody}
    (h : SameBody environment file file' body body') {context : CompositionContext}
    (hEnvironment : context.environment = environment) (identifier : Option Text) :
    Reported.Agrees (fun component component' =>
        EffectiveComponent.withoutOrigins component = component'.withoutOrigins)
      (composeComponent context identifier body file) (composeComponent context identifier body' file') := by
  subst hEnvironment
  unfold composeComponent
  dsimp only
  rw [h.id.getD]
  refine agrees_bind (agrees_reportIf Iff.rfl _ _) fun _ _ _ => ?_
  refine agrees_bind (agrees_reportIf (option_eq_none_iff h.root) _ _) fun _ _ _ => ?_
  refine agrees_bind (agrees_reportIf h.languages.eq_none_iff _ _) fun _ _ _ => ?_
  refine agrees_bind (anchor_agrees h.root _ _ _) ?_
  rintro root _ rfl
  refine agrees_bind (componentChecks_agrees h _ _ _) fun checks checks' hChecks => ?_
  refine agrees_bind (externalInputs_agrees h _) fun external external' hExternal => ?_
  refine agrees_bind (pythonExecutable_agrees h _ _ _) fun executable executable' hExecutable => ?_
  refine agrees_bind (pythonTypeProvider_agrees h _ _) fun provider provider' hProvider => ?_
  refine agrees_bind (composeIntegrations_agrees h _) fun cases cases' hCases => ?_
  refine agrees_pure ?_
  have hBuild := sameDecided_optional h.build .component
  have hNeeds := sameDecided_optional h.needs .component
  simp only [EffectiveComponent.withoutOrigins, Decided.withoutOrigin, hChecks, hCases,
    h.languages.getD, h.sources.map_resolve, h.include'.map_resolve, h.exclude.map_resolve,
    h.vendor.map_resolve, h.testPaths.map_resolve]
  simp only [SameDecided, Decided.withoutOrigin] at hExternal hExecutable hProvider hBuild hNeeds
  simp only [hExternal, hExecutable, hProvider, hBuild, hNeeds]

theorem SamePlace.refl (path : DeclaredPath) : SamePlace environment file file path path :=
  ⟨Iff.rfl, fun _ => rfl⟩

theorem samePlace_of_folder {folder raw : Text} {origin origin' : Origin} (hDollar : 0x24 ∉ folder)
    (hFolder : folder ≠ []) (hRelative : PurePosixPath.isAbsolute folder = false)
    (hRaw : PurePosixPath.isAbsolute (substituteEnvironment raw origin environment).value = false)
    (hDirectory : (declaringDirectory file').val = (declaringDirectory file).val.join (parse folder)) :
    SamePlace environment file file' ⟨folder ++ 0x2f :: raw, origin⟩ ⟨raw, origin'⟩ := by
  obtain ⟨hValue, hReports⟩ := substituteEnvironment_origin raw origin origin' environment
  have hFront : 0x24 ∉ folder ++ [0x2f] := by
    rw [mem_append, mem_singleton]
    exact not_or.mpr ⟨hDollar, by decide⟩
  have hText := substituteEnvironment_append hFront origin environment raw
  rw [append_assoc, singleton_append, append_assoc, singleton_append] at hText
  have hParse := parse_append hFolder hRelative hRaw
  have hCandidate : (parse (substituteEnvironment raw origin environment).value).isAbsolute =
      false := by
    rw [isAbsolute_parse, hRaw]
  have hParent : (parse folder).isAbsolute = false := by
    rw [isAbsolute_parse, hRelative]
  have hJoined : ((parse folder).join
      (parse (substituteEnvironment raw origin environment).value)).isAbsolute = false := by
    rw [← hParse, isAbsolute_parse]
    obtain ⟨c, rest, rfl⟩ := exists_cons_of_ne_nil hFolder
    simpa [PurePosixPath.isAbsolute] using hRelative
  unfold SamePlace DeclaredPath.resolve Reported.Agrees
  simp only [value_bind, reports_bind, hText, ← hValue, hParse, hCandidate, hJoined,
    Bool.false_eq_true, if_false, value_pure, reports_pure, append_nil, hReports,
    hDirectory, join_assoc hParent hCandidate, true_and, implies_true]

theorem SameOutside.refl (raw : Text) : SameOutside environment file file raw raw := by
  intro origin origin'
  obtain ⟨hValue, hReports⟩ := substituteEnvironment_origin raw origin origin' environment
  exact ⟨hReports, fun _ => by rw [hValue]; exact ⟨rfl, rfl⟩⟩

theorem sameOutside_of_plain {raw raw' : Text} (hRaw : 0x24 ∉ raw) (hRaw' : 0x24 ∉ raw')
    (hAbsolute : (parse raw).isAbsolute = (parse raw').isAbsolute)
    (hPlace : anchorCandidate file (parse raw) = anchorCandidate file' (parse raw')) :
    SameOutside environment file file' raw raw' := by
  intro origin origin'
  have hPlain {raw : Text} (h : 0x24 ∉ raw) (origin : Origin) :
      substituteEnvironment raw origin environment = pure raw := by
    have hAll := substituteEnvironment_append h origin environment []
    have hNone : substituteEnvironment [] origin environment = pure [] := rfl
    rw [hNone, append_nil, value_pure, append_nil] at hAll
    exact hAll
  rw [hPlain hRaw, hPlain hRaw']
  exact agrees_pure ⟨hAbsolute, hPlace⟩

theorem rel_refl {α : Type} {R : α → α → Prop} (h : ∀ a, R a a) : ∀ a : Option α, Option.Rel R a a
  | none => .none
  | some a => .some (h a)

theorem SameCase.refl (declared : IntegrationCaseBody) :
    SameCase environment file file declared declared where
  name := rfl
  argv := rfl
  expectedExit := rfl
  stdoutContains := rfl
  stderrContains := rfl
  stdoutNotContains := rfl
  stderrNotContains := rfl
  timeoutSeconds := rfl
  env := rfl
  requires := rfl
  pythonTargets := forall₂_same.mpr fun target _ => ⟨rfl, SameProgram.refl target.2⟩
  outputArtifacts := forall₂_same.mpr fun _ _ =>
    { path := rel_refl SamePlace.refl _
      kind := rfl
      minSize := rfl }
  required := rfl

theorem SameBody.refl (body : ComponentBody) : SameBody environment file file body body where
  id := rfl
  root := rel_refl SamePlace.refl _
  languages := rfl
  build := rfl
  sources := rfl
  include' := rfl
  exclude := rfl
  vendor := rfl
  executable := rel_refl SameProgram.refl _
  typeProvider := rfl
  testPaths := rfl
  checks := forall₂_same.mpr fun _ _ => ⟨rfl, rfl, rfl⟩
  needs := rfl
  external := rel_refl (fun _ : Sourced (List Text) =>
    forall₂_same.mpr fun raw _ => SameOutside.refl raw) _
  integrations := forall₂_same.mpr fun declared _ => SameCase.refl declared

end

/-! ## Workspaces -/

def SameEntry (environment : Environment) (entry entry' : ComponentBody × Text) : Prop :=
  SameBody environment entry.2 entry'.2 entry.1 entry'.1

theorem entryBody_agrees (environment : Environment) (rootPath : Text)
    (children : Dict Text ComponentDocument) (entry : ComponentEntry) :
    Reported.Agrees (Option.Rel (SameEntry environment)) (entryBody rootPath children entry)
      (entryBody rootPath children entry) :=
  ⟨Iff.rfl, fun _ => rel_refl (fun entry => SameBody.refl entry.1) _⟩

def RootDocument.withEntry (root : RootDocument) (before after : List ComponentEntry)
    (entry : ComponentEntry) : RootDocument :=
  { root with components := before ++ entry :: after }

variable {children : Dict Text ComponentDocument} {reference : ComponentReference}
  {document : ComponentDocument}

theorem bodies_agree {rootPath : Text}
    {environment : Environment} {body : ComponentBody} (hDocument : children.get? reference.id.value = some document)
    (hBody : SameBody environment rootPath document.path body
      { document.component with id := some reference.id }) (before after : List ComponentEntry) :
    Reported.Agrees (List.Forall₂ (Option.Rel (SameEntry environment)))
      (each (entryBody rootPath children) (before ++ .inline body :: after))
      (each (entryBody rootPath children) (before ++ .reference reference :: after)) := by
  have hEntry : Reported.Agrees (Option.Rel (SameEntry environment))
      (entryBody rootPath children (.inline body)) (entryBody rootPath children (.reference reference)) := by
    rw [entryBody, entryBody, followReference, hDocument]
    exact agrees_pure (.some hBody)
  have hOthers (entries : List ComponentEntry) :
      List.Forall₂ (fun entry entry' => Reported.Agrees (Option.Rel (SameEntry environment))
        (entryBody rootPath children entry) (entryBody rootPath children entry')) entries entries :=
    forall₂_same.mpr fun entry _ => entryBody_agrees environment rootPath children entry
  exact agrees_each (rel_append (hOthers before) (.cons hEntry (hOthers after)))

theorem composeComponents_agree {context : CompositionContext}
    {bodies bodies' : List (Option (ComponentBody × Text))}
    (h : List.Forall₂ (Option.Rel (SameEntry context.environment)) bodies bodies') :
    Reported.Agrees (fun components components' => List.map EffectiveComponent.withoutOrigins components =
        List.map EffectiveComponent.withoutOrigins components')
      (composeComponents context bodies) (composeComponents context bodies') := by
  have hFound := rel_filterMap (fun _ _ hRel => hRel) h
  have hEach := agrees_each (hFound.imp fun entry entry' hSame =>
    @composeComponent_agrees context.environment entry.2 entry'.2 _ _ hSame context rfl none)
  exact hEach.mono fun _ _ => map_eq_map_of_forall₂

theorem composeWorkspace_agrees {root : RootDocument}
    {environment : Environment} {body : ComponentBody} (hDocument : children.get? reference.id.value = some document)
    (hBody : SameBody environment root.path document.path body
      { document.component with id := some reference.id })
    (before after : List ComponentEntry) (overlay : LocalOverlay) :
    Reported.Agrees (fun config config' => withoutOrigins config = config'.withoutOrigins)
      (composeWorkspace (root.withEntry before after (.inline body)) children overlay environment)
      (composeWorkspace (root.withEntry before after (.reference reference)) children overlay environment) := by
  have hBodies := bodies_agree hDocument hBody before after
  unfold composeWorkspace
  refine agrees_bind (R := Eq) ⟨Iff.rfl, fun _ => rfl⟩ ?_
  rintro builds _ rfl
  refine agrees_bind hBodies fun bodies bodies' hRelated => ?_
  refine agrees_bind (@composeComponents_agree (workspaceContext root overlay environment) _ _
    hRelated) fun components components' hComponents => ?_
  refine agrees_pure ?_
  simp only [withoutOrigins, hComponents, RootDocument.withEntry, workspaceContext]

/-- A body composes alike inline in the root and in a file of its own, or fails in both places. -/
theorem inline_child_equivalent {root : RootDocument} {children : Dict Text ComponentDocument}
    {environment : Environment} {body : ComponentBody} {reference : ComponentReference}
    {document : ComponentDocument} (hDocument : children.get? reference.id.value = some document)
    (hBody : SameBody environment root.path document.path body
      { document.component with id := some reference.id })
    (before after : List ComponentEntry) (overlay : LocalOverlay) :
    (∃ problems problems',
      compose (root.withEntry before after (.inline body)) children overlay environment = .error problems ∧
      compose (root.withEntry before after (.reference reference)) children overlay environment =
        .error problems') ∨
    ∃ config config',
      compose (root.withEntry before after (.inline body)) children overlay environment = .ok config ∧
      compose (root.withEntry before after (.reference reference)) children overlay environment =
        .ok config' ∧
      config.withoutOrigins = config'.withoutOrigins ∧
      ∀ sha256, config.policyDigest sha256 = config'.policyDigest sha256 := by
  rcases (composeWorkspace_agrees hDocument hBody before after overlay).collect with hFails | hComposes
  · exact .inl hFails
  · obtain ⟨config, config', hInline, hChild, hSame⟩ := hComposes
    refine .inr ⟨config, config', hInline, hChild, hSame, fun sha256 => ?_⟩
    rw [← policyDigest_withoutOrigins, hSame, policyDigest_withoutOrigins]

def movedRoot : RootDocument where
  path := py "ws/ici.toml"

def inlineOrigin : Origin := .inWorkspace (py "components[0]")

def childOrigin : Origin := .inApp (py "component")

/-- `app` as the root file writes it. -/
def inlineBody : ComponentBody where
  id := some ⟨py "app", inlineOrigin⟩
  root := some ⟨py "app/lib", inlineOrigin⟩
  languages := some ⟨[py "python"], inlineOrigin⟩
  sources := [⟨py "**/*.py", inlineOrigin, by decide⟩]
  python := some { executable := some ⟨py "app/.venv/bin/python", inlineOrigin, by decide⟩ }
  origin := inlineOrigin
  checks := [{ id := py "python.lint", required := some ⟨true, inlineOrigin⟩, origin := inlineOrigin }]
  external := some ⟨[py "../data"], inlineOrigin⟩

def childDocument : ComponentDocument where
  path := py "ws/app/ici.toml"
  component :=
    { root := some ⟨py "lib", childOrigin⟩
      languages := some ⟨[py "python"], childOrigin⟩
      sources := [⟨py "**/*.py", childOrigin, by decide⟩]
      python := some { executable := some ⟨py "./.venv/bin/python", childOrigin, by decide⟩ }
      origin := childOrigin
      checks := [{ id := py "python.lint", required := some ⟨true, childOrigin⟩, origin := childOrigin }]
      external := some ⟨[py "../../data"], childOrigin⟩ }

def appReference : ComponentReference where
  id := ⟨py "app", inlineOrigin⟩
  config := ⟨py "app/ici.toml", inlineOrigin⟩

theorem sameBody_app : SameBody [] movedRoot.path childDocument.path inlineBody
    { childDocument.component with id := some appReference.id } where
  id := rfl
  root := .some (@samePlace_of_folder _ _ _ (py "app") (py "lib") _ _ (by decide) (by decide) (by decide)
    (by decide) (by decide))
  languages := rfl
  build := rfl
  sources := rfl
  include' := rfl
  exclude := rfl
  vendor := rfl
  executable := .some
    { lookup := rfl
      name := nofun
      place := fun _ => sameOutside_of_plain (by decide) (by decide) (by decide) (by decide) }
  typeProvider := rfl
  testPaths := rfl
  checks := .cons ⟨rfl, rfl, rfl⟩ .nil
  needs := rfl
  external := .some (.cons (sameOutside_of_plain (by decide) (by decide) (by decide) (by decide)) .nil)
  integrations := .nil

theorem inline_child_equivalent_app : (∃ problems problems',
      compose (movedRoot.withEntry [] [] (.inline inlineBody)) [(py "app", childDocument)] .empty [] =
        .error problems ∧
      compose (movedRoot.withEntry [] [] (.reference appReference)) [(py "app", childDocument)] .empty [] =
        .error problems') ∨
    ∃ config config',
      compose (movedRoot.withEntry [] [] (.inline inlineBody)) [(py "app", childDocument)] .empty [] =
        .ok config ∧
      compose (movedRoot.withEntry [] [] (.reference appReference)) [(py "app", childDocument)] .empty [] =
        .ok config' ∧
      config.withoutOrigins = config'.withoutOrigins ∧
      ∀ sha256, config.policyDigest sha256 = config'.policyDigest sha256 :=
  @inline_child_equivalent movedRoot [(py "app", childDocument)] [] inlineBody appReference childDocument
    rfl sameBody_app [] [] .empty

end Ici
