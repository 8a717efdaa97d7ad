import Ici.Execution.ProductionMoves

/-! # When a run publishes all or nothing

The names are renamed before the manifest is, and the rules of the root are met one name at a time. -/

namespace Ici.Outputs

open Option List Raising Python Filing Tracing PurePosixPath Traced

section Statement

variable (rootPath stagedPath : Text) (measure : Measure) (root staged : Tree) (unlocked : Option Text)
  (outcome : TaskOutcome) (produces : List Text) (contract : ExitContract) (manifestName : Text)

/-- The files a reader of this root may trust: the manifest, and what it lists. -/
def trusted : List (List Text) :=
  (resolve rootPath root manifestName).toOption.toList ++
    (readManifest rootPath root manifestName).toList.flatMap fun manifest =>
      manifest.artifacts.filterMap fun artifact => (resolve rootPath root artifact.path).toOption

structure Kept (tree : Tree) : Prop where
  manifest : readManifest rootPath tree manifestName = readManifest rootPath root manifestName
  files : ∀ path ∈ trusted rootPath root manifestName, ∀ content,
    root.entry path = some (.file content) → tree.entry path = some (.file content)

/-- A reader finds the manifest of the run, and each of its outputs as the manifest says. -/
structure CompleteSet (production : Production) (tree : Tree) : Prop where
  exists_manifest : ∃ manifest, production.manifest = some manifest ∧
    readManifest rootPath tree manifestName = some manifest ∧
    manifest.artifacts.map Artifact.path = produces ∧
    (verify rootPath measure manifest tree).isComplete = true

/-- The run raises nothing. Until the manifest is replaced a reader finds what it found before, and from then
on all of what the run made. -/
def AllOrNothing : Prop :=
  ∃ seen t production,
    (produce rootPath stagedPath measure unlocked outcome produces contract manifestName).Ends ⟨root, staged⟩
      seen t production ∧
    (∀ u ∈ if production.promoted then seen.dropLast else seen, Kept rootPath root manifestName u.root) ∧
    (production.promoted = true → CompleteSet rootPath measure produces manifestName production t.root)

structure Publishable (opened : Tree) : Prop where
  distinct : (produces.map parts).Nodup
  accepted : ∀ name ∈ produces, Accepts opened (parts name)
  target : IsTarget manifestName
  manifestAccepted : Accepts opened (parts manifestName)
  apart : Apart (parts manifestName) (produces.map parts)
  unchanged : ∀ name ∈ produces, parts name ∈ trusted rootPath root manifestName → ∀ content,
    root.entry (parts name) = some (.file content) → staged.entry (parts name) = some (.file content)
  written : NoSurrogate outcome.spec.val.name ∧ ∀ name ∈ produces, NoSurrogate name

/-- The lock file can be opened; and it is held by others, or the run is refused, or its names can be
renamed. -/
def Safe : Prop :=
  ∃ opened, (openStaging rootPath root >>= openLock rootPath) = .ok opened ∧
    (unlocked ≠ none ∨ refusal stagedPath staged outcome produces contract ≠ [] ∨
      Publishable rootPath root staged outcome produces manifestName opened)

end Statement

section Refusals

variable {stagedPath name : Text} {staged : Tree} {outcome : TaskOutcome} {produces : List Text}
  {contract : ExitContract}

theorem promised_of_refusalOf (h : refusalOf stagedPath staged name = []) : Promised staged name := by
  unfold refusalOf at h
  cases hOutput : stagedOutput stagedPath staged name with
  | error e =>
    exfalso
    rw [hOutput] at h
    unfold stagedOutput at hOutput
    dsimp only at hOutput
    split_ifs at hOutput
    · cases hOutput
      simp [valueError, py] at h
    · cases hLink : firstLink staged (parts name) with
      | none => rw [hLink] at hOutput; cases hOutput
      | some walked =>
        rw [hLink] at hOutput
        cases hOutput
        simp [valueError, py] at h
  | ok target =>
    rw [hOutput] at h
    unfold stagedOutput at hOutput
    dsimp only at hOutput h
    split_ifs at hOutput with hInside
    rw [not_or, Bool.not_eq_true] at hInside
    cases hLink : firstLink staged (parts name) with
    | some walked => rw [hLink] at hOutput; cases hOutput
    | none =>
      rw [hLink] at hOutput
      obtain rfl := Except.ok.inj hOutput
      split_ifs at h with hFile
      · refine ⟨⟨hInside.1, fun hNil => ?_, hInside.2⟩, hFile⟩
        rw [hNil, staged.base] at hFile
        cases hFile
      · simp [py] at h

theorem promised_of_refusal (h : refusal stagedPath staged outcome produces contract = []) :
    (contract.read outcome).isAnAnswer = true ∧ ∀ name ∈ produces, Promised staged name := by
  unfold refusal at h
  split_ifs at h with hAnswer
  · simp [py] at h
  · refine ⟨by simpa using hAnswer, fun name hName => ?_⟩
    have hEmpty : refusalOf stagedPath staged name = [] := by
      cases hFind : (produces.map (refusalOf stagedPath staged)).find? (· ≠ []) with
      | some text =>
        rw [hFind, getD_some] at h
        have hNe := find?_some hFind
        simp [h] at hNe
      | none =>
        have hNone := find?_eq_none.mp hFind _ (mem_map_of_mem hName)
        simpa using hNone
    exact promised_of_refusalOf hEmpty

end Refusals

section Parts

variable {rootPath stagedPath : Text} {measure : Measure} {s t : OutputState} {seen : List OutputState}
  {unlocked : Option Text} {outcome : TaskOutcome} {produces : List Text} {contract : ExitContract}
  {manifestName : Text} {production : Production}

structure Promoted (rootPath stagedPath : Text) (measure : Measure) (outcome : TaskOutcome)
    (produces : List Text) (contract : ExitContract) (manifestName : Text) (s : OutputState)
    (renames : List OutputState) (middle : OutputState) (manifest : Manifest) (after : Tree)
    (t : OutputState) : Prop where
  renamed : (publishNames rootPath stagedPath produces).Ends s renames middle ()
  described : describe rootPath measure middle.root outcome produces contract = .ok manifest
  prepared : Prepares rootPath middle.root manifestName after
  encoded : manifest.encode = .ok (.manifest manifest)
  put : after.put (parts manifestName) (.manifest manifest) = some t.root
  staged : t.staged = middle.staged

theorem encode_eq_ok_iff {manifest : Manifest} {content : Content} : manifest.encode = .ok content ↔
    content = .manifest manifest ∧ ∀ text ∈ manifest.texts, NoSurrogate text := by
  have hTexts : (∀ text ∈ manifest.texts, NoSurrogate text) ↔ NoSurrogate manifest.texts.flatten := by
    simp only [NoSurrogate, mem_flatten, forall_exists_index, and_imp]
    exact ⟨fun h c text hText hc => h text hText c hc, fun h text hText c hc => h c text hText hc⟩
  rw [hTexts, ← exists_utf8_iff, Manifest.encode, bind_eq_ok]
  constructor
  · rintro ⟨bytes, hBytes, hContent⟩
    exact ⟨(Except.ok.inj hContent).symm, bytes, hBytes⟩
  · rintro ⟨rfl, bytes, hBytes⟩
    exact ⟨bytes, hBytes, rfl⟩

theorem ends_publish_iff {manifest : Manifest} {destination found : List Text} :
    (publish rootPath manifest destination).Ends s seen t found ↔
      found = destination ∧ manifest.encode = .ok (.manifest manifest) ∧
        s.root.put destination (.manifest manifest) = some t.root ∧ t.staged = s.staged ∧ seen = [t] := by
  unfold publish
  simp only [ends_bind_iff, ends_ask_iff, ends_step_iff, ends_pure_iff]
  constructor
  · rintro ⟨_, _, content, _, ⟨rfl, rfl, hContent⟩, ⟨_, made, _, _, ⟨rfl, hStep⟩, ⟨rfl, rfl, rfl⟩, rfl⟩, rfl⟩
    obtain ⟨rfl, -⟩ := encode_eq_ok_iff.mp hContent
    obtain ⟨after, hPut, hMade⟩ := bind_eq_ok.mp hStep
    obtain rfl := Except.ok.inj hMade
    exact ⟨rfl, hContent, replace_eq_ok_iff.mp hPut, rfl, rfl⟩
  · rintro ⟨rfl, hContent, hPut, hStaged, rfl⟩
    refine ⟨[], s, _, _, ⟨rfl, rfl, hContent⟩, ⟨_, t, (), [], ⟨rfl, ?_⟩, ⟨rfl, rfl, rfl⟩, rfl⟩, rfl⟩
    rw [replace_eq_ok_iff.mpr hPut]
    obtain ⟨root, staged⟩ := t
    obtain rfl := hStaged
    rfl

theorem ends_holding_of_refused (hRefused : refusal stagedPath s.staged outcome produces contract ≠ []) :
    (produceHoldingTheLock rootPath stagedPath measure outcome produces contract manifestName).Ends s seen t
        production ↔
      seen = [] ∧ t = s ∧ production =
        { outcome := some outcome, refusal := refusal stagedPath s.staged outcome produces contract } := by
  unfold produceHoldingTheLock
  rw [ends_bind_iff]
  constructor
  · rintro ⟨_, _, _, _, hAsk, hRest, rfl⟩
    obtain ⟨rfl, rfl, hRefusal⟩ := ends_ask_iff.mp hAsk
    obtain rfl := Except.ok.inj hRefusal
    rw [if_pos hRefused] at hRest
    obtain ⟨rfl, rfl, rfl⟩ := ends_pure_iff.mp hRest
    exact ⟨rfl, rfl, rfl⟩
  · rintro ⟨rfl, rfl, rfl⟩
    refine ⟨[], t, _, [], ends_ask_iff.mpr ⟨rfl, rfl, rfl⟩, ?_, rfl⟩
    rw [if_pos hRefused]
    exact ends_pure_iff.mpr ⟨rfl, rfl, rfl⟩

theorem ends_holding_of_accepted (hAccepted : refusal stagedPath s.staged outcome produces contract = []) :
    (produceHoldingTheLock rootPath stagedPath measure outcome produces contract manifestName).Ends s seen t
        production ↔
      ∃ renames middle manifest after,
        Promoted rootPath stagedPath measure outcome produces contract manifestName s renames middle manifest
          after t ∧
        seen = renames ++ [{ middle with root := after }, t] ∧ production =
          { outcome := some outcome, manifest := some manifest,
            published := some (parts manifestName) } := by
  unfold produceHoldingTheLock
  rw [ends_bind_iff]
  constructor
  · rintro ⟨_, _, _, _, hAsk, hRest, rfl⟩
    obtain ⟨rfl, rfl, hRefusal⟩ := ends_ask_iff.mp hAsk
    obtain rfl := Except.ok.inj hRefusal
    rw [if_neg (not_not.mpr hAccepted)] at hRest
    simp only [ends_bind_iff, ends_ask_iff, ends_pure_iff, ends_prepare_iff, ends_publish_iff] at hRest
    obtain ⟨renames, middle, ⟨⟩, _, hRenames, ⟨_, _, manifest, _, ⟨rfl, rfl, hManifest⟩, ⟨_, prepared, _, _,
      ⟨rfl, after, hPrepares, rfl, rfl⟩, ⟨_, _, _, _, ⟨rfl, hEncode, hPut, hStaged, rfl⟩,
      ⟨rfl, rfl, rfl⟩, rfl⟩, rfl⟩, rfl⟩, rfl⟩ := hRest
    exact ⟨renames, _, manifest, after, ⟨hRenames, hManifest, hPrepares, hEncode, hPut, hStaged⟩, rfl, rfl⟩
  · rintro ⟨renames, middle, manifest, after, h, rfl, rfl⟩
    refine ⟨[], s, _, _, ends_ask_iff.mpr ⟨rfl, rfl, rfl⟩, ?_, rfl⟩
    rw [if_neg (not_not.mpr hAccepted)]
    simp only [ends_bind_iff, ends_ask_iff, ends_pure_iff, ends_prepare_iff, ends_publish_iff]
    exact ⟨renames, middle, (), _, h.renamed, ⟨_, _, manifest, _, ⟨rfl, rfl, h.described⟩, ⟨_, _, _, _,
      ⟨rfl, after, h.prepared, rfl, rfl⟩, ⟨_, _, _, _, ⟨rfl, h.encoded, h.put, h.staged, rfl⟩,
      ⟨rfl, rfl, rfl⟩, rfl⟩, rfl⟩, rfl⟩, rfl⟩

theorem ends_produce_iff :
    (produce rootPath stagedPath measure unlocked outcome produces contract manifestName).Ends s seen t
        production ↔
      ∃ first opened rest, openStaging rootPath s.root = .ok first ∧ openLock rootPath first = .ok opened ∧
        seen = { s with root := first } :: { s with root := opened } :: rest ∧
        match unlocked with
        | some text => rest = [] ∧ t = { s with root := opened } ∧
          production = { outcome := none, refusal := text }
        | none =>
          (produceHoldingTheLock rootPath stagedPath measure outcome produces contract manifestName).Ends
            { s with root := opened } rest t production := by
  unfold produce
  simp only [ends_bind_iff, ends_step_iff]
  constructor
  · rintro ⟨_, _, _, _, ⟨rfl, hStaging⟩, ⟨_, _, _, rest, ⟨rfl, hLock⟩, hRest, rfl⟩, rfl⟩
    obtain ⟨first, hFirst, hMade⟩ := bind_eq_ok.mp hStaging
    obtain rfl := Except.ok.inj hMade
    obtain ⟨opened, hOpened, hMade⟩ := bind_eq_ok.mp hLock
    obtain rfl := Except.ok.inj hMade
    refine ⟨first, opened, rest, hFirst, hOpened, rfl, ?_⟩
    cases unlocked with
    | some text => exact ends_pure_iff.mp hRest
    | none => exact hRest
  · rintro ⟨first, opened, rest, hFirst, hOpened, rfl, hRest⟩
    refine ⟨_, { s with root := first }, (), _, ⟨rfl, ?_⟩, ⟨_, { s with root := opened }, (), rest,
      ⟨rfl, ?_⟩, ?_, rfl⟩, rfl⟩
    · rw [hFirst]
      rfl
    · dsimp only
      rw [hOpened]
      rfl
    · cases unlocked with
      | some text => exact ends_pure_iff.mpr hRest
      | none => exact hRest

end Parts

/-! ## What readers find on the way -/

section Readers

variable {rootPath manifestName : Text} {root staged opened tree : Tree} {paths : List (List Text)}

def Spread (root staged : Tree) (paths : List (List Text)) (tree : Tree) : Prop :=
  ∀ path, tree.entry path = root.entry path ∨ (root.entry path = none ∧
      (tree.entry path = some .directory ∨ tree.entry path = some (.file (.other [])))) ∨
    (path ∈ paths ∧ tree.entry path = staged.entry path)

theorem spread_of_openStaging (h : openStaging rootPath root = .ok tree) : Spread root staged [] tree := by
  unfold openStaging at h
  split at h
  · rw [← Except.ok.inj h]
    exact fun path => .inl rfl
  · intro path
    have hMade := makeParents_eq_ok_iff.mp h
    have hOpen := FileTree.makeDirectories_isSome_iff.mp (isSome_iff_exists.mpr ⟨tree, hMade⟩)
    rw [FileTree.entry_makeDirectories hMade]
    split_ifs with hPrefix
    · rcases isOpen_iff.mp (hOpen path hPrefix) with hNone | hDirectory
      · exact .inr (.inl ⟨hNone, .inl rfl⟩)
      · exact .inl hDirectory.symm
    · exact .inl rfl

theorem spread_of_openLock (h : openLock rootPath root = .ok tree) : Spread root staged [] tree := by
  unfold openLock at h
  split at h
  · rename_i hStaging hNone
    intro path
    rw [FileTree.entry_put (replace_eq_ok_iff.mp h)]
    split_ifs with hPath
    · rw [hPath]
      exact .inr (.inl ⟨hNone, .inr rfl⟩)
    · exact .inl rfl
  · cases h
  · cases h
  · rw [← Except.ok.inj h]
    exact fun path => .inl rfl

theorem Spread.trans {middle : Tree} (hFirst : Spread root staged [] middle)
    (hSecond : Spread middle staged [] tree) : Spread root staged [] tree := by
  intro path
  rcases hSecond path with hSame | ⟨hNone, hNew⟩ | ⟨hMem, -⟩
  · rw [hSame]
    exact hFirst path
  · rcases hFirst path with hBefore | ⟨-, hMade | hMade⟩ | ⟨hMem, -⟩
    · exact .inr (.inl ⟨hBefore ▸ hNone, hNew⟩)
    · rw [hNone] at hMade
      cases hMade
    · rw [hNone] at hMade
      cases hMade
    · exact absurd hMem not_mem_nil
  · exact absurd hMem not_mem_nil

theorem Spread.within (hOpened : Spread root staged [] opened) (h : Within opened staged paths tree) :
    Spread root staged paths tree := by
  intro path
  rcases h path with hSame | ⟨hNone, hDirectory⟩ | hMoved
  · rcases hOpened path with hBefore | hNew | ⟨hMem, -⟩
    · exact .inl (hSame.trans hBefore)
    · rw [hSame]
      exact .inr (.inl hNew)
    · exact absurd hMem not_mem_nil
  · rcases hOpened path with hBefore | ⟨-, hMade | hMade⟩ | ⟨hMem, -⟩
    · exact .inr (.inl ⟨hBefore ▸ hNone, .inl hDirectory⟩)
    · rw [hNone] at hMade
      cases hMade
    · rw [hNone] at hMade
      cases hMade
    · exact absurd hMem not_mem_nil
  · exact .inr (.inr hMoved)

section

variable (h : Spread root staged paths tree) (hStaged : ∀ path ∈ paths, isFile (staged.entry path) = true)
  (hRoot : ∀ path ∈ paths, isLink (root.entry path) = false)
include h hStaged hRoot

theorem Spread.isLink_eq (path : List Text) : isLink (tree.entry path) = isLink (root.entry path) := by
  rcases h path with hSame | ⟨hNone, hNew | hNew⟩ | ⟨hMem, hMoved⟩
  · rw [hSame]
  · rw [hNone, hNew]
    rfl
  · rw [hNone, hNew]
    rfl
  · obtain ⟨content, hContent⟩ := isFile_iff.mp (hStaged path hMem)
    rw [hMoved, hContent, hRoot path hMem]
    rfl

theorem Spread.kept (hManifest : parts manifestName ∉ paths)
    (hUnchanged : ∀ path ∈ paths, path ∈ trusted rootPath root manifestName → ∀ content,
      root.entry path = some (.file content) → staged.entry path = some (.file content)) :
    Kept rootPath root manifestName tree := by
  have hLinks := h.isLink_eq hStaged hRoot
  constructor
  · have hResolve (target : List Text) : resolve rootPath tree manifestName = .ok target ↔
        resolve rootPath root manifestName = .ok target := resolve_congr hLinks
    unfold readManifest
    cases hOwn : resolve rootPath root manifestName with
    | error e =>
      cases hTree : resolve rootPath tree manifestName with
      | error e' => rfl
      | ok target =>
        rw [(hResolve target).mp hTree] at hOwn
        cases hOwn
    | ok target =>
      rw [(hResolve target).mpr hOwn]
      dsimp only
      obtain ⟨-, rfl, -⟩ := resolve_eq_ok_iff.mp hOwn
      rcases h (parts manifestName) with hSame | ⟨hNone, hNew | hNew⟩ | ⟨hMem, -⟩
      · rw [hSame]
      · rw [hNone, hNew]
      · rw [hNone, hNew]
      · exact absurd hMem hManifest
  · intro path hTrusted content hContent
    rcases h path with hSame | ⟨hNone, -⟩ | ⟨hMem, hMoved⟩
    · rw [hSame, hContent]
    · rw [hNone] at hContent
      cases hContent
    · rw [hMoved, hUnchanged path hMem hTrusted content hContent]

end

theorem Spread.not_isLink (hOpened : Spread root staged [] opened) {path : List Text}
    (h : isLink (opened.entry path) = false) : isLink (root.entry path) = false := by
  rcases hOpened path with hSame | ⟨hNone, -⟩ | ⟨hMem, -⟩
  · rw [← hSame, h]
  · rw [hNone]
    rfl
  · exact absurd hMem not_mem_nil

end Readers

end Ici.Outputs
