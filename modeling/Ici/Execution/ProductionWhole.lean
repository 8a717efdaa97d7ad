import Ici.Execution.ProductionSafe

/-! # All or nothing -/

namespace Ici.Outputs

open Option List Raising Python Filing Tracing PurePosixPath FileTree Artifact

section Promotion

variable {rootPath stagedPath : Text} {measure : Measure} {root opened staged after : Tree}
  {middle t : OutputState} {renames : List OutputState} {outcome : TaskOutcome} {produces : List Text}
  {contract : ExitContract} {manifestName : Text} {manifest : Manifest} {production : Production}

def stagedArtifact (measure : Measure) (staged : Tree) (name : Text) : Artifact :=
  match staged.entry (parts name) with
  | some (.file content) => ⟨name, measure.size content, measure.digest content⟩
  | _ => ⟨name, 0, []⟩

def stagedManifest (measure : Measure) (staged : Tree) (outcome : TaskOutcome) (produces : List Text)
    (contract : ExitContract) : Manifest where
  task := outcome.spec.val.name
  outcome := outcome.outcome.value
  exitCode := outcome.exitCode
  interpretation := Interpretation.value (contract.read outcome)
  artifacts := produces.map (stagedArtifact measure staged)

theorem path_stagedArtifact (name : Text) : (stagedArtifact measure staged name).path = name := by
  unfold stagedArtifact
  split
  · rfl
  · rfl

theorem mapM_eq_map {α β : Type} {f : α → Result β} {g : α → β} {l : List α} (h : ∀ a ∈ l, f a = .ok (g a)) :
    l.mapM f = .ok (l.map g) := by
  rw [mapM_eq_ok]
  induction l with
  | nil => exact .nil
  | cons a l ih =>
    obtain ⟨hHead, hTail⟩ := forall_mem_cons.mp h
    exact .cons hHead (ih hTail)

variable {tree : Tree} {s : OutputState}

theorem Within.not_isLink {paths : List (List Text)} (h : Within opened staged paths tree)
    (hPaths : ∀ path ∈ paths, isFile (staged.entry path) = true) {path : List Text}
    (hPath : isLink (opened.entry path) = false) : isLink (tree.entry path) = false := by
  rcases h path with hSame | ⟨-, hDirectory⟩ | ⟨hMem, hMoved⟩
  · rw [hSame, hPath]
  · rw [hDirectory]
    rfl
  · obtain ⟨content, hContent⟩ := isFile_iff.mp (hPaths path hMem)
    rw [hMoved, hContent]
    rfl

section Renames

variable (hNames : ∀ name ∈ produces, Promised staged name)
  (hRenamed : Renamed opened staged [] produces renames middle)
include hNames hRenamed

omit hRenamed in
theorem paths_staged : ∀ path ∈ produces.map parts, isFile (staged.entry path) = true := by
  intro path hPath
  obtain ⟨name, hName, rfl⟩ := mem_map.mp hPath
  exact (hNames name hName).staged

theorem Renamed.not_isLink {name : Text} (hName : name ∈ produces) {walked : List Text}
    (hWalked : walked <+: parts name) : isLink (middle.root.entry walked) = false := by
  have hPaths := paths_staged hNames
  have hMovable : ∀ path ∈ produces.map parts, Movable opened staged path :=
    forall_mem_map.mpr hRenamed.movable
  have hWithin := hRenamed.moved.within (nil_append _ ▸ hMovable)
  exact hWithin.not_isLink (nil_append (produces.map _) ▸ hPaths)
    ((hRenamed.movable name hName).accepted.not_isLink hWalked)

omit hNames in
theorem Renamed.root_entry {name : Text} (hName : name ∈ produces) :
    middle.root.entry (parts name) = staged.entry (parts name) := by
  rw [hRenamed.moved.root, if_pos (mem_append_right _ (mem_map_of_mem hName))]

theorem Renamed.describeName_eq {name : Text} (hName : name ∈ produces) :
    describeName rootPath measure middle.root name = .ok (stagedArtifact measure staged name) := by
  have hResolve : resolve rootPath middle.root name = .ok (parts name) :=
    resolve_eq_ok_iff.mpr ⟨(hNames name hName).target, rfl, fun _ => hRenamed.not_isLink hNames hName⟩
  obtain ⟨content, hContent⟩ := isFile_iff.mp (hNames name hName).staged
  refine step hResolve ?_
  rw [hRenamed.root_entry hName, stagedArtifact, hContent]
  rfl

theorem Renamed.describe_eq (hAnswer : (contract.read outcome).isAnAnswer = true) :
    describe rootPath measure middle.root outcome produces contract =
      .ok (stagedManifest measure staged outcome produces contract) := by
  unfold describe
  dsimp only
  rw [hAnswer, if_neg (by decide)]
  exact step (mapM_eq_map fun name => hRenamed.describeName_eq hNames) rfl

end Renames

section

variable (h : Promoted rootPath stagedPath measure outcome produces contract manifestName s renames middle
    manifest after t)
include h

theorem Promoted.root_entry (path : List Text) : t.root.entry path =
      if path = parts manifestName then some (.file (.manifest manifest))
      else if path <+: (parts manifestName).dropLast then some .directory
      else middle.root.entry path := by
  rw [entry_put h.put, entry_makeDirectories h.prepared.made]

theorem Promoted.readManifest_eq : readManifest rootPath t.root manifestName = some manifest := by
  obtain ⟨hTarget, -, -⟩ := resolve_eq_ok_iff.mp h.prepared.resolved
  have hResolve : resolve rootPath t.root manifestName = .ok (parts manifestName) := by
    refine resolve_eq_ok_iff.mpr ⟨hTarget, rfl, fun walked hWalked => ?_⟩
    rw [h.root_entry]
    split_ifs with hSame hAbove
    · rfl
    · rfl
    · exact absurd ((prefix_dropLast_iff hTarget.named).mpr ⟨hWalked, hSame⟩) hAbove
  unfold readManifest
  rw [hResolve]
  dsimp only
  rw [h.root_entry, if_pos rfl]

omit h in
theorem isComplete_iff : (verify rootPath measure manifest tree).isComplete = true ↔
    ∀ artifact ∈ manifest.artifacts, standing rootPath measure tree artifact = .intact := by
  unfold verify Verification.isComplete
  simp only [decide_eq_true_eq, map_eq_nil_iff, filter_eq_nil_iff]
  constructor
  · rintro ⟨hMissing, hAltered⟩ artifact hArtifact
    have hNotMissing := hMissing artifact hArtifact
    have hNotAltered := hAltered artifact hArtifact
    cases hStanding : standing rootPath measure tree artifact with
    | missing => exact absurd hStanding hNotMissing
    | altered => exact absurd hStanding hNotAltered
    | intact => rfl
  · intro h
    constructor
    · intro artifact hArtifact hMissing
      rw [h artifact hArtifact] at hMissing
      cases hMissing
    · intro artifact hArtifact hAltered
      rw [h artifact hArtifact] at hAltered
      cases hAltered

theorem Promoted.isComplete (hNames : ∀ name ∈ produces, Promised staged name)
    (hRenamed : Renamed opened staged [] produces renames middle)
    (hAnswer : (contract.read outcome).isAnAnswer = true)
    (hApart : Apart (parts manifestName) (produces.map parts)) :
    (verify rootPath measure manifest t.root).isComplete = true := by
  obtain ⟨hTarget, -, -⟩ := resolve_eq_ok_iff.mp h.prepared.resolved
  obtain rfl := Except.ok.inj ((hRenamed.describe_eq hNames hAnswer).symm.trans h.described)
  rw [isComplete_iff]
  refine forall_mem_map.mpr fun name hName => ?_
  obtain ⟨hAbove, hBelow⟩ := hApart _ (mem_map_of_mem hName)
  have hEntry {walked : List Text} (hWalked : walked <+: parts name) :
      t.root.entry walked = some .directory ∨ t.root.entry walked = middle.root.entry walked := by
    have hNe : walked ≠ parts manifestName := fun hSame => hBelow (hSame ▸ hWalked)
    rw [h.root_entry, if_neg hNe]
    split_ifs
    · exact .inl rfl
    · exact .inr rfl
  have hResolve : resolve rootPath t.root name = .ok (parts name) := by
    refine resolve_eq_ok_iff.mpr ⟨(hNames name hName).target, rfl, fun walked hWalked => ?_⟩
    rcases hEntry hWalked with hDirectory | hSame
    · rw [hDirectory]
      rfl
    · rw [hSame, hRenamed.not_isLink hNames hName hWalked]
  obtain ⟨content, hContent⟩ := isFile_iff.mp (hNames name hName).staged
  have hFile : t.root.entry (parts name) = some (.file content) := by
    have hNe : parts name ≠ parts manifestName := fun hSame =>
      hAbove (hSame ▸ prefix_rfl)
    have hNot : ¬parts name <+: (parts manifestName).dropLast := fun hPrefix =>
      hAbove ((prefix_dropLast_iff hTarget.named).mp hPrefix).1
    rw [h.root_entry, if_neg hNe, if_neg hNot, hRenamed.root_entry hName, hContent]
  unfold standing
  rw [path_stagedArtifact, hResolve]
  dsimp only
  rw [hFile]
  dsimp only
  rw [stagedArtifact, hContent, if_neg]
  simp

theorem Promoted.not_mem_of_isComplete (hOwn : ∀ artifact ∈ manifest.artifacts,
    (artifact.size, artifact.digest) ≠
      (measure.size (.manifest manifest), measure.digest (.manifest manifest)))
    (hPaths : manifest.artifacts.map path = produces)
    (hComplete : (verify rootPath measure manifest t.root).isComplete = true) :
    parts manifestName ∉ produces.map parts := by
  rw [← hPaths, List.map_map]
  intro hMem
  obtain ⟨artifact, hArtifact, hPath⟩ := mem_map.mp hMem
  have hIntact := isComplete_iff.mp hComplete artifact hArtifact
  unfold standing at hIntact
  cases hResolve : resolve rootPath t.root artifact.path with
  | error e => rw [hResolve] at hIntact; cases hIntact
  | ok target =>
    obtain ⟨-, rfl, -⟩ := resolve_eq_ok_iff.mp hResolve
    rw [hResolve] at hIntact
    dsimp only at hIntact
    rw [show parts artifact.path = parts manifestName from hPath, h.root_entry, if_pos rfl] at hIntact
    dsimp only at hIntact
    split_ifs at hIntact with hDiffers
    rw [not_or, not_not, not_not] at hDiffers
    exact hOwn artifact hArtifact (Prod.ext hDiffers.1.symm hDiffers.2.symm)

end

end Promotion

/-! ## The run -/

section Whole

variable {rootPath stagedPath : Text} {measure : Measure} {root staged opened first : Tree}
  {unlocked : Option Text} {outcome : TaskOutcome} {produces : List Text} {contract : ExitContract}
  {manifestName : Text}

theorem kept_of_spread (h : Spread root staged [] first) : Kept rootPath root manifestName first :=
  h.kept nofun nofun not_mem_nil nofun

theorem spread_of_open (hFirst : openStaging rootPath root = .ok first)
    (hOpened : openLock rootPath first = .ok opened) : Spread root staged [] opened :=
  (spread_of_openStaging hFirst).trans (spread_of_openLock hOpened)

theorem publishable_of_promoted {renames : List OutputState} {middle t : OutputState} {manifest : Manifest}
    {after : Tree}
    (h : Promoted rootPath stagedPath measure outcome produces contract manifestName ⟨opened, staged⟩ renames
      middle manifest after t) (hNames : ∀ name ∈ produces, Promised staged name)
    (hAnswer : (contract.read outcome).isAnAnswer = true)
    (hManifest : parts manifestName ∉ produces.map parts)
    (hKept : ∀ u ∈ renames, Kept rootPath root manifestName u.root) :
    Publishable rootPath root staged outcome produces manifestName opened := by
  have hRenamed := renamed_of_ends hNames (Moved.start opened staged) nofun nodup_nil h.renamed
  have hMovable : ∀ path ∈ [] ++ produces.map parts, Movable opened staged path :=
    forall_mem_map.mpr hRenamed.movable
  obtain ⟨hTarget, -, -⟩ := resolve_eq_ok_iff.mp h.prepared.resolved
  obtain rfl := Except.ok.inj ((hRenamed.describe_eq hNames hAnswer).symm.trans h.described)
  have hMiddle : Accepts middle.root (parts manifestName) := by
    refine (accepts_iff_exists_prepares hTarget).mpr ⟨⟨after, h.prepared⟩, ?_⟩
    obtain ⟨-, -, hDirectory⟩ := put_isSome_iff.mp (isSome_iff_exists.mpr ⟨_, h.put⟩)
    rwa [entry_makeDirectories h.prepared.made, if_neg (not_prefix_dropLast hTarget.named)]
      at hDirectory
  have hApart : Apart (parts manifestName) (produces.map parts) := by
    refine forall_mem_map.mpr fun name hName => ?_
    have hMem := mem_map_of_mem (f := parts) hName
    have hNe : parts name ≠ parts manifestName := fun hSame =>
      hManifest (hSame ▸ hMem)
    obtain ⟨content, hContent⟩ := isFile_iff.mp (hNames name hName).staged
    constructor
    · intro hPrefix
      have hOpen := hMiddle.above _ hPrefix hNe
      rw [hRenamed.root_entry hName, hContent] at hOpen
      cases hOpen
    · intro hPrefix
      have hDirectory : middle.root.entry (parts manifestName) = some .directory := by
        rw [hRenamed.moved.root, if_neg (by simpa using hManifest), if_pos ⟨_, by simpa using hMem, hPrefix⟩]
      have hHere := hMiddle.here
      rw [hDirectory] at hHere
      rcases hHere with hNone | hFile
      · cases hNone
      · cases hFile
  have hWritten := (encode_eq_ok_iff.mp h.encoded).2
  have hApart' : Apart (parts manifestName) ([] ++ produces.map parts) := hApart
  have hAccepted := (hRenamed.moved.accepts_iff hMovable hApart').mp hMiddle
  refine ⟨hRenamed.distinct, fun name hName => (hRenamed.movable name hName).accepted, hTarget, hAccepted,
    hApart, ?_, hWritten _ (by simp [Manifest.texts, stagedManifest]), fun name hName => hWritten name ?_⟩
  · intro name hName hTrusted content hContent
    obtain ⟨u, hu, hReached⟩ := hRenamed.reached name hName
    rw [← hReached, (hKept u hu).files _ hTrusted content hContent]
  · refine mem_append_right _ (mem_flatMap.mpr ⟨_, mem_map_of_mem hName, ?_⟩)
    rw [path_stagedArtifact]
    exact mem_cons_self

theorem noSurrogate_texts (hTask : NoSurrogate outcome.spec.val.name)
    (hNames : ∀ name ∈ produces, NoSurrogate name) :
    ∀ text ∈ (stagedManifest measure staged outcome produces contract).texts, NoSurrogate text := by
  have hOutcome : NoSurrogate outcome.outcome.value := by cases outcome.outcome <;> decide
  have hRead : NoSurrogate (Interpretation.value (contract.read outcome)) := by
    cases contract.read outcome <;> decide
  intro text hText
  rcases mem_append.mp hText with hText | hText
  · simp only [stagedManifest, mem_cons, not_mem_nil, or_false] at hText
    rcases hText with rfl | rfl | rfl | rfl | rfl
    · exact hTask
    · exact hOutcome
    · exact hRead
    · exact nofun
    · exact nofun
  · obtain ⟨artifact, hArtifact, hText⟩ := mem_flatMap.mp hText
    obtain ⟨name, hName, rfl⟩ := mem_map.mp hArtifact
    simp only [mem_cons, not_mem_nil, or_false] at hText
    rcases hText with rfl | rfl
    · rw [path_stagedArtifact]
      exact hNames name hName
    · unfold stagedArtifact
      split
      · exact measure.plain _
      · exact nofun

theorem whole_of_publishable (hOpened : Spread root staged [] opened)
    (hNames : ∀ name ∈ produces, Promised staged name) (hAnswer : (contract.read outcome).isAnAnswer = true)
    (h : Publishable rootPath root staged outcome produces manifestName opened) :
    ∃ renames middle manifest after t,
      Promoted rootPath stagedPath measure outcome produces contract manifestName ⟨opened, staged⟩ renames
        middle manifest after t ∧
      (∀ u ∈ renames ++ [{ middle with root := after }], Kept rootPath root manifestName u.root) ∧
      manifest.artifacts.map path = produces ∧
      (verify rootPath measure manifest t.root).isComplete = true := by
  obtain ⟨renames, middle, hEnds⟩ : ∃ renames middle,
      (publishNames rootPath stagedPath produces).Ends ⟨opened, staged⟩ renames middle () :=
    exists_ends_publishNames hNames (Moved.start opened staged) nofun h.distinct h.accepted
  have hRenamed := renamed_of_ends hNames (Moved.start opened staged) nofun nodup_nil hEnds
  have hMovable : ∀ path ∈ [] ++ produces.map parts, Movable opened staged path :=
    forall_mem_map.mpr hRenamed.movable
  have hMiddle := (hRenamed.moved.accepts_iff hMovable h.apart).mpr h.manifestAccepted
  have hBoth : (∃ after, Prepares rootPath middle.root manifestName after) ∧ _ :=
    (accepts_iff_exists_prepares h.target).mp hMiddle
  obtain ⟨⟨after, hPrepares⟩, hDirectory⟩ := hBoth
  have hMade := entry_makeDirectories hPrepares.made
  have hPut : (after.put (parts manifestName)
      (.manifest (stagedManifest measure staged outcome produces contract))).isSome := by
    refine put_isSome_iff.mpr ⟨h.target.named, ?_, ?_⟩
    · rw [hMade, if_pos prefix_rfl]
      rfl
    · rw [hMade, if_neg (not_prefix_dropLast h.target.named), hDirectory]
  obtain ⟨final, hFinal⟩ := isSome_iff_exists.mp hPut
  have hPromoted : Promoted rootPath stagedPath measure outcome produces contract manifestName
      ⟨opened, staged⟩ renames middle (stagedManifest measure staged outcome produces contract) after
      ⟨final, middle.staged⟩ :=
    ⟨hEnds, hRenamed.describe_eq hNames hAnswer, hPrepares,
      encode_eq_ok_iff.mpr ⟨rfl, noSurrogate_texts h.written.1 h.written.2⟩, hFinal, rfl⟩
  refine ⟨renames, middle, _, after, _, hPromoted, ?_, ?_,
    hPromoted.isComplete hNames hRenamed hAnswer h.apart⟩
  · have hStaged := paths_staged hNames
    have hRoot : ∀ path ∈ produces.map parts, isLink (root.entry path) = false :=
      forall_mem_map.mpr fun name hName =>
        hOpened.not_isLink ((h.accepted name hName).not_isLink prefix_rfl)
    have hManifest : parts manifestName ∉ produces.map parts := fun hMem =>
      (h.apart _ hMem).1 prefix_rfl
    have hKept {tree : Tree} (hWithin : Within opened staged (produces.map parts) tree) :
        Kept rootPath root manifestName tree :=
      (hOpened.within hWithin).kept hStaged hRoot hManifest (forall_mem_map.mpr h.unchanged)
    intro u hu
    rcases mem_append.mp hu with hu | hu
    · exact hKept (hRenamed.within u hu)
    · obtain rfl := mem_singleton.mp hu
      exact hKept (hRenamed.moved.within_between hMovable h.target h.manifestAccepted hPrepares)
  · have hPath : path ∘ stagedArtifact measure staged = id := funext path_stagedArtifact
    rw [stagedManifest, List.map_map, hPath, List.map_id]

theorem dropLast_seen {σ : Type} (first second : σ) (renames : List σ) (third last : σ) :
    (first :: second :: (renames ++ [third, last])).dropLast = first :: second :: (renames ++ [third]) := by
  rw [show first :: second :: (renames ++ [third, last]) =
    (first :: second :: (renames ++ [third])) ++ [last] by simp, dropLast_concat]

section

variable (h : AllOrNothing rootPath stagedPath measure root staged none outcome produces contract manifestName)
  (hRefusal : refusal stagedPath staged outcome produces contract = [])
include h hRefusal

theorem promoted_of_allOrNothing : ∃ first opened renames middle manifest after t,
      openStaging rootPath root = .ok first ∧ openLock rootPath first = .ok opened ∧
      Promoted rootPath stagedPath measure outcome produces contract manifestName ⟨opened, staged⟩ renames
        middle manifest after t ∧
      (∀ u ∈ renames, Kept rootPath root manifestName u.root) ∧
      manifest.artifacts.map path = produces ∧
      (verify rootPath measure manifest t.root).isComplete = true := by
  obtain ⟨seen, t, production, hEnds, hKept, hWhole⟩ := h
  obtain ⟨first, opened, rest, hFirst, hOpened, rfl, hRest⟩ := ends_produce_iff.mp hEnds
  obtain ⟨renames, middle, manifest, after, hPromoted, rfl, rfl⟩ :=
    (ends_holding_of_accepted hRefusal).mp hRest
  obtain ⟨found, hFound, -, hPaths, hComplete⟩ := (hWhole rfl).exists_manifest
  obtain rfl := some.inj hFound
  refine ⟨first, opened, renames, middle, manifest, after, t, hFirst, hOpened, hPromoted, fun u hu => ?_,
    hPaths, hComplete⟩
  refine hKept u ?_
  simp only [Production.promoted, isSome_some, if_true, dropLast_seen]
  simp [hu]

theorem unchanged_of_allOrNothing {name : Text} (hName : name ∈ produces)
    (hTrusted : parts name ∈ trusted rootPath root manifestName) {content : Content}
    (hContent : root.entry (parts name) = some (.file content)) :
    staged.entry (parts name) = some (.file content) := by
  obtain ⟨-, hNames⟩ := promised_of_refusal hRefusal
  obtain ⟨first, opened, renames, middle, manifest, after, t, -, -, hPromoted, hKept, -, -⟩ :=
    promoted_of_allOrNothing h hRefusal
  have hRenamed := renamed_of_ends hNames (Moved.start opened staged) nofun nodup_nil hPromoted.renamed
  obtain ⟨u, hu, hReached⟩ := hRenamed.reached name hName
  rw [← hReached, (hKept u hu).files _ hTrusted content hContent]

end

/-- A run publishes all or nothing if and only if it is refused, or its names are distinct, the root has a
place for each, none is or is in the way of the manifest, and what a reader trusts is staged as it stands. -/
theorem all_or_nothing_iff
    (hOwn : ∀ manifest : Manifest, ∀ artifact ∈ manifest.artifacts, (artifact.size, artifact.digest) ≠
      (measure.size (.manifest manifest), measure.digest (.manifest manifest))) :
    AllOrNothing rootPath stagedPath measure root staged unlocked outcome produces contract manifestName ↔
      Safe rootPath stagedPath root staged unlocked outcome produces contract manifestName := by
  constructor
  · intro h
    cases unlocked with
    | some text =>
      obtain ⟨seen, t, production, hEnds, -, -⟩ := h
      obtain ⟨first, opened, -, hFirst, hOpened, -, -⟩ := ends_produce_iff.mp hEnds
      exact ⟨opened, step hFirst hOpened, .inl (some_ne_none text)⟩
    | none =>
      by_cases hRefusal : refusal stagedPath staged outcome produces contract = []
      · obtain ⟨hAnswer, hNames⟩ := promised_of_refusal hRefusal
        obtain ⟨first, opened, renames, middle, manifest, after, t, hFirst, hOpened, hPromoted, hKept, hPaths,
          hComplete⟩ := promoted_of_allOrNothing h hRefusal
        have hManifest := hPromoted.not_mem_of_isComplete (hOwn manifest) hPaths hComplete
        exact ⟨opened, step hFirst hOpened,
          .inr (.inr (publishable_of_promoted hPromoted hNames hAnswer hManifest hKept))⟩
      · obtain ⟨seen, t, production, hEnds, -, -⟩ := h
        obtain ⟨first, opened, -, hFirst, hOpened, -, -⟩ := ends_produce_iff.mp hEnds
        exact ⟨opened, step hFirst hOpened, .inr (.inl hRefusal)⟩
  · rintro ⟨opened, hOpen, hSafe⟩
    obtain ⟨first, hFirst, hOpened⟩ := bind_eq_ok.mp hOpen
    have hStaging : Spread root staged [] first := spread_of_openStaging hFirst
    have hKeptFirst : Kept rootPath root manifestName first := kept_of_spread hStaging
    have hSpread : Spread root staged [] opened := spread_of_open hFirst hOpened
    have hKeptOpened : Kept rootPath root manifestName opened := kept_of_spread hSpread
    -- nothing of a run that is refused is renamed
    have hNothing {production : Production} (hNot : production.promoted = false)
        (hEnds : (produce rootPath stagedPath measure unlocked outcome produces contract manifestName).Ends
          ⟨root, staged⟩ [⟨first, staged⟩, ⟨opened, staged⟩] ⟨opened, staged⟩ production) :
        AllOrNothing rootPath stagedPath measure root staged unlocked outcome produces contract
          manifestName := by
      refine ⟨_, _, production, hEnds, ?_, fun hPromoted => ?_⟩
      · rw [hNot, if_neg Bool.false_ne_true]
        exact forall_mem_cons.mpr ⟨hKeptFirst, forall_mem_singleton.mpr hKeptOpened⟩
      · rw [hNot] at hPromoted
        cases hPromoted
    cases unlocked with
    | some text =>
      have hNot : Production.promoted { outcome := none, refusal := text } = false := rfl
      exact hNothing hNot (ends_produce_iff.mpr ⟨first, opened, [], hFirst, hOpened, rfl, rfl, rfl, rfl⟩)
    | none =>
      by_cases hRefusal : refusal stagedPath staged outcome produces contract = []
      · obtain ⟨hAnswer, hNames⟩ := promised_of_refusal hRefusal
        have hPublishable := (hSafe.resolve_left (not_not.mpr rfl)).resolve_left (not_not.mpr hRefusal)
        obtain ⟨renames, middle, manifest, after, t, hPromoted, hKept, hPaths, hComplete⟩ :=
          whole_of_publishable hSpread hNames hAnswer hPublishable
        refine ⟨_, t, _, ends_produce_iff.mpr ⟨first, opened, _, hFirst, hOpened, rfl,
          (ends_holding_of_accepted hRefusal).mpr
            ⟨renames, middle, manifest, after, hPromoted, rfl, rfl⟩⟩, ?_,
          fun _ => ⟨manifest, rfl, hPromoted.readManifest_eq, hPaths, hComplete⟩⟩
        simp only [Production.promoted, isSome_some, if_true, dropLast_seen]
        exact forall_mem_cons.mpr ⟨hKeptFirst, forall_mem_cons.mpr ⟨hKeptOpened, hKept⟩⟩
      · exact hNothing rfl (ends_produce_iff.mpr ⟨first, opened, [], hFirst, hOpened, rfl,
          (ends_holding_of_refused hRefusal).mpr ⟨rfl, rfl, rfl⟩⟩)

end Whole

/-! ## A linter, run again -/

def lintSpec : ProcessSpec := ⟨{
    argv := [py "ruff"]
    name := py "lint"
    cwd := py "/work"
    environment := []
    timeout := .fin 300
    outputLimit := defaultOutputLimit
    workDirs := [] }, by
  have hPositive : ¬(PyFloat.fin 300 ≠ .nan ∧ PyFloat.lt (.fin 0) (.fin 300) = false) := by decide
  rw [ProcessSpecFields.check, if_neg (List.cons_ne_nil _ _), if_neg hPositive]⟩

def lintOutcome : TaskOutcome := { spec := lintSpec, outcome := .finished, exitCode := 0 }

def plainMeasure : Measure where
  size content := match content with
    | .manifest manifest => (manifest.artifacts.map size).sum + 1
    | .other bytes => bytes.length
  digest _ := py "sha256:"
  plain _ := by decide

theorem plainMeasure_own : ∀ manifest : Manifest, ∀ artifact ∈ manifest.artifacts,
    (artifact.size, artifact.digest) ≠
      (plainMeasure.size (.manifest manifest), plainMeasure.digest (.manifest manifest)) := by
  intro manifest artifact hArtifact hSame
  have hLess := single_le_sum (l := manifest.artifacts.map size) (by simp) artifact.size
    (mem_map_of_mem hArtifact)
  have hSize : artifact.size = (manifest.artifacts.map size).sum + 1 := congrArg Prod.fst hSame
  omega

def flat (files : List (Text × Content)) : Tree where
  entry path := match path with
    | [] => some .directory
    | [name] => (files.lookup name).map .file
    | _ => none
  base := rfl
  within := by
    intro path name h
    cases path with
    | nil => rfl
    | cons first rest =>
      exfalso
      cases rest with
      | nil | cons next rest => exact h rfl

def lintName : Text := py "lint.json"

def lintManifest (bytes : List UInt8) : Manifest :=
  stagedManifest plainMeasure (flat [(lintName, .other bytes)]) lintOutcome [lintName] {}

def lintRoot (bytes : List UInt8) : Tree :=
  flat [(lintName, .other bytes), (py "manifest.json", .manifest (lintManifest bytes))]

def lintRun (root : Tree) (bytes : List UInt8) (produces : List Text) : Prop :=
  AllOrNothing (py "/run") (py "/run/.ici-staging/task-a") plainMeasure root
    (flat [(lintName, .other bytes)]) none lintOutcome produces {} (py "manifest.json")

theorem accepts_top {tree : Tree} {name : Text}
    (h : tree.entry [name] = none ∨ isFile (tree.entry [name]) = true) : Accepts tree [name] := by
  refine ⟨fun other hPrefix hNe => ?_, h⟩
  have hOther : other = [] := by
    have hLess := IsPrefix.length_le hPrefix
    have hLength : other.length ≠ [name].length := fun hSame => hNe (hPrefix.eq_of_length hSame)
    rw [length_singleton] at hLess hLength
    exact length_eq_zero_iff.mp (by omega)
  rw [hOther, tree.base]
  rfl

theorem entry_opened {rootPath : Text} {root opened : Tree}
    (h : (openStaging rootPath root >>= openLock rootPath) = .ok opened) {name : Text}
    (hNe : name ≠ stagingDirectory) : opened.entry [name] = root.entry [name] := by
  obtain ⟨first, hFirst, hOpened⟩ := bind_eq_ok.mp h
  have hLock : opened.entry [name] = first.entry [name] := by
    unfold openLock at hOpened
    split at hOpened
    · rw [entry_put (replace_eq_ok_iff.mp hOpened), if_neg]
      exact fun hSame => absurd (congrArg List.length hSame) (by simp)
    · cases hOpened
    · cases hOpened
    · rw [Except.ok.inj hOpened]
  rw [hLock]
  unfold openStaging at hFirst
  split at hFirst
  · rw [Except.ok.inj hFirst]
  · rw [entry_makeDirectories (makeParents_eq_ok_iff.mp hFirst), if_neg]
    intro hPrefix
    exact hNe (cons.inj (hPrefix.eq_of_length rfl)).1

theorem first_lint_whole : lintRun (flat []) [1] [lintName] := by
  have hParts : parts lintName = [lintName] := by decide
  have hManifest : parts (py "manifest.json") = [py "manifest.json"] := by decide
  obtain ⟨opened, hOpened⟩ : ∃ opened,
      (openStaging (py "/run") (flat []) >>= openLock (py "/run")) = .ok opened := ⟨_, rfl⟩
  have hLint : opened.entry [lintName] = none := entry_opened hOpened (by decide)
  have hPlace : opened.entry [py "manifest.json"] = none := entry_opened hOpened (by decide)
  refine (all_or_nothing_iff plainMeasure_own).mpr ⟨opened, hOpened, .inr (.inr ?_)⟩
  constructor
  · decide
  · rintro name hName
    obtain rfl := mem_singleton.mp hName
    rw [hParts]
    exact accepts_top (.inl hLint)
  · exact ⟨by decide, by decide, by decide⟩
  · rw [hManifest]
    exact accepts_top (.inl hPlace)
  · intro other hOther
    rw [map_singleton, mem_singleton, hParts] at hOther
    rw [hOther, hManifest]
    exact ⟨by decide, by decide⟩
  · intro name hName _ content hContent
    obtain rfl := mem_singleton.mp hName
    rw [hParts] at hContent
    cases hContent
  · refine ⟨by decide, fun name hName => ?_⟩
    obtain rfl := mem_singleton.mp hName
    decide

/-- The old manifest is there still when the file it lists is new. -/
theorem changed_lint_mixed : ¬lintRun (lintRoot [1]) [1, 2] [lintName] := by
  intro h
  have hParts : parts lintName = [lintName] := by decide
  have hTrusted : parts lintName ∈ trusted (py "/run") (lintRoot [1]) (py "manifest.json") := by
    decide
  have hContent : (lintRoot [1]).entry (parts lintName) = some (.file (.other [1])) := by
    rw [hParts]
    rfl
  have hStaged := unchanged_of_allOrNothing h (by decide) (mem_singleton_self lintName) hTrusted hContent
  rw [hParts] at hStaged
  cases hStaged

end Ici.Outputs
