import Ici.Analysis.LinkerDead

/-! # What survives an exact run

A pair of an object and a section survives where every accepted target that linked the object discarded
it. Links that no stage accepted are not asked. -/

namespace Ici

namespace LinkerDead

open List Raising Python DiscardedSection PurePath

/-! ## The rule across targets -/

section Rule

variable {κ : Type} [DecidableEq κ]

def targetSets (pairs : List (κ × Text)) : Dict κ (Finset Text) :=
  pairs.foldl (fun sets pair => addTarget sets pair.1 pair.2) []

theorem targetSets_concat (pairs : List (κ × Text)) (pair : κ × Text) :
    targetSets (pairs ++ [pair]) = addTarget (targetSets pairs) pair.1 pair.2 := by
  rw [targetSets, foldl_append]
  rfl

theorem mem_targetSets_iff {pairs : List (κ × Text)} {key : κ} {target : Text} :
    target ∈ ((targetSets pairs).get? key).getD ∅ ↔ (key, target) ∈ pairs := by
  induction pairs using List.reverseRecOn with
  | nil => simp [targetSets]
  | append_singleton pairs pair ih =>
    rw [targetSets_concat, addTarget, Dict.get?_set, mem_append, mem_singleton, ← ih]
    split
    · rename_i hKey
      rw [Option.getD_some, Finset.mem_insert, ← hKey, or_comm, Prod.ext_iff]
      simp only [true_and]
    · rename_i hKey
      refine ⟨.inl, fun h => h.elim id fun hPair => absurd (congrArg Prod.fst hPair).symm hKey⟩

theorem linkingTargets_eq (linked : List LinkCommand) : linkingTargets linked =
      targetSets (linked.flatMap fun command =>
        command.objects.map fun object => (object, command.target)) := by
  rw [linkingTargets, targetSets, foldl_flatMap]
  simp only [foldl_map]

theorem discardingTargets_eq (removals : List DiscardedSection) :
    discardingTargets removals = targetSets (removals.map fun removal => (removal.key, removal.target)) := by
  rw [discardingTargets, targetSets, foldl_map]

def DeadInTargets (removals : List DiscardedSection) (linked : List LinkCommand) (key : PurePath × Text) :
    Prop :=
  ∀ command ∈ linked, key.1 ∈ command.objects →
    ∃ removal ∈ removals, removal.key = key ∧ removal.target = command.target

theorem required_subset_iff {removals : List DiscardedSection} {linked : List LinkCommand}
    {removal : DiscardedSection} (h : removal ∈ removals) :
    ((linkingTargets linked).get? removal.objectPath).getD {removal.target} ⊆
        ((discardingTargets removals).get? removal.key).getD ∅ ↔
      DeadInTargets removals linked removal.key := by
  have hDiscarding (target : Text) : target ∈ ((discardingTargets removals).get? removal.key).getD ∅ ↔
      ∃ other ∈ removals, other.key = removal.key ∧ other.target = target := by
    rw [discardingTargets_eq, mem_targetSets_iff, mem_map]
    simp only [Prod.mk.injEq]
  have hLinking (target : Text) : target ∈ ((linkingTargets linked).get? removal.objectPath).getD ∅ ↔
      ∃ command ∈ linked, removal.objectPath ∈ command.objects ∧ command.target = target := by
    rw [linkingTargets_eq, mem_targetSets_iff, mem_flatMap]
    simp only [mem_map, Prod.mk.injEq]
    refine exists_congr fun command => and_congr_right fun _ => ?_
    exact ⟨fun ⟨object, hObject, hEq, hTarget⟩ => ⟨hEq ▸ hObject, hTarget⟩,
      fun ⟨hObject, hTarget⟩ => ⟨_, hObject, rfl, hTarget⟩⟩
  cases hLinked : (linkingTargets linked).get? removal.objectPath with
  | some required =>
    rw [hLinked, Option.getD_some] at hLinking
    rw [Option.getD_some, Finset.subset_iff]
    constructor
    · intro hSubset command hCommand hObject
      exact (hDiscarding _).mp (hSubset ((hLinking _).mpr ⟨command, hCommand, hObject, rfl⟩))
    · intro hDead target hTarget
      obtain ⟨command, hCommand, hObject, rfl⟩ := (hLinking target).mp hTarget
      exact (hDiscarding _).mpr (hDead command hCommand hObject)
  | none =>
    -- no command linked the object, and the removal speaks for its own target
    rw [Option.getD_none, Finset.singleton_subset_iff]
    refine iff_of_true ((hDiscarding _).mpr ⟨removal, h, rfl, rfl⟩) fun command hCommand hObject => ?_
    have hNone := (hLinking command.target).mpr ⟨command, hCommand, hObject, rfl⟩
    rw [hLinked] at hNone
    cases hNone

end Rule

structure Retained (passes : DiscardedSection → Prop) [DecidablePred passes] (done : List DiscardedSection)
    (state : Retaining) : Prop where
  seen : ∀ key, key ∈ state.seen ↔ key ∈ state.retained.map DiscardedSection.key
  nodup : (state.retained.map key).Nodup
  keys : ∀ key, key ∈ state.retained.map DiscardedSection.key ↔
    ∃ removal ∈ done, passes removal ∧ removal.key = key
  subset : ∀ removal ∈ state.retained, removal ∈ done
  kept : state.kept = done.countP (¬passes ·)

section Loop

variable {linking : Dict PurePath (Finset Text)} {discarding : Dict (PurePath × Text) (Finset Text)}

abbrev Passes (linking : Dict PurePath (Finset Text)) (discarding : Dict (PurePath × Text) (Finset Text))
    (removal : DiscardedSection) : Prop :=
  (linking.get? removal.objectPath).getD {removal.target} ⊆ (discarding.get? removal.key).getD ∅

theorem Retained.step {done : List DiscardedSection} {state : Retaining} {removal : DiscardedSection}
    (h : Retained (Passes linking discarding) done state) :
    Retained (Passes linking discarding) (done ++ [removal]) (state.step linking discarding removal) := by
  have hSubset : ∀ other ∈ state.retained, other ∈ done ++ [removal] := fun other hOther =>
    mem_append_left _ (h.subset other hOther)
  unfold Retaining.step
  dsimp only
  split
  · rename_i hFails
    refine ⟨h.seen, h.nodup, fun key => ?_, hSubset, ?_⟩
    · rw [h.keys key]
      simp only [mem_append, mem_singleton]
      constructor
      · rintro ⟨other, hOther, hRest⟩
        exact ⟨other, .inl hOther, hRest⟩
      · rintro ⟨other, hOther | rfl, hPasses, hKey⟩
        · exact ⟨other, hOther, hPasses, hKey⟩
        · exact absurd hPasses hFails
    · rw [countP_append, countP_singleton, h.kept, if_pos (decide_eq_true hFails)]
  · rename_i hPasses
    rw [not_not] at hPasses
    have hKept : state.kept = (done ++ [removal]).countP (¬Passes linking discarding ·) := by
      rw [countP_append, countP_singleton, h.kept, if_neg (by simpa using hPasses), Nat.add_zero]
    have hMem (key : PurePath × Text) :
        (∃ other ∈ done ++ [removal], Passes linking discarding other ∧ other.key = key) ↔
          key ∈ state.retained.map DiscardedSection.key ∨ removal.key = key := by
      rw [h.keys key]
      simp only [mem_append, mem_singleton]
      constructor
      · rintro ⟨other, hOther | rfl, hOk, hKey⟩
        · exact .inl ⟨other, hOther, hOk, hKey⟩
        · exact .inr hKey
      · rintro (⟨other, hOther, hRest⟩ | hKey)
        · exact ⟨other, .inl hOther, hRest⟩
        · exact ⟨removal, .inr rfl, hPasses, hKey⟩
    split
    · rename_i hSeen
      refine ⟨h.seen, h.nodup, fun key => ?_, hSubset, hKept⟩
      rw [hMem key]
      refine ⟨.inl, fun hKey => hKey.elim id ?_⟩
      rintro rfl
      exact (h.seen _).mp hSeen
    · rename_i hNew
      refine ⟨fun key => ?_, ?_, fun key => ?_, fun other hOther => ?_, hKept⟩
      · rw [mem_cons, h.seen key, map_append, mem_append, or_comm, map_singleton, mem_singleton]
      · rw [map_append, map_singleton, ← concat_eq_append]
        exact h.nodup.concat fun hKey => hNew ((h.seen _).mpr hKey)
      · rw [hMem key, map_append, mem_append, map_singleton, mem_singleton, eq_comm (a := key)]
      · rcases mem_append.mp hOther with hOld | hLast
        · exact hSubset other hOld
        · exact mem_append_right _ hLast

theorem retained_foldl (removals : List DiscardedSection) : Retained (Passes linking discarding) removals
      (removals.foldl (Retaining.step linking discarding) {}) := by
  induction removals using List.reverseRecOn with
  | nil => exact ⟨fun _ => Iff.rfl, nodup_nil, fun key => by simp, fun _ h => h, rfl⟩
  | append_singleton removals removal ih =>
    rw [foldl_append, foldl_cons, foldl_nil]
    exact ih.step

end Loop

def FromLinked (removals : List DiscardedSection) (linked : List LinkCommand) : Prop :=
  ∀ removal ∈ removals, ∃ command ∈ linked, removal.objectPath ∈ command.objects ∧
    removal.target = command.target

variable {removals : List DiscardedSection} {linked : List LinkCommand}

theorem mem_survivors_iff (h : FromLinked removals linked) {key : PurePath × Text} :
    key ∈ (discardedByEveryLinkingTarget removals linked).1.map DiscardedSection.key ↔
      (∃ removal ∈ removals, removal.key = key) ∧ DeadInTargets removals linked key := by
  unfold discardedByEveryLinkingTarget
  split
  · rename_i hFew
    rw [mem_map]
    refine ⟨fun ⟨removal, hRemoval, hKey⟩ => ⟨⟨removal, hRemoval, hKey⟩, fun command hCommand _ => ?_⟩,
      And.left⟩
    -- the one command there is discarded what was removed
    obtain ⟨other, hOther, -, hTarget⟩ := h removal hRemoval
    refine ⟨removal, hRemoval, hKey, hTarget.trans ?_⟩
    match linked, hFew with
    | [only], _ => rw [mem_singleton.mp hOther, mem_singleton.mp hCommand]
  · rw [(retained_foldl removals).keys key]
    constructor
    · rintro ⟨removal, hRemoval, hPasses, rfl⟩
      exact ⟨⟨removal, hRemoval, rfl⟩, (required_subset_iff hRemoval).mp hPasses⟩
    · rintro ⟨⟨removal, hRemoval, rfl⟩, hDead⟩
      exact ⟨removal, hRemoval, (required_subset_iff hRemoval).mpr hDead, rfl⟩

theorem nodup_survivors (h : 2 ≤ linked.length) :
    ((discardedByEveryLinkingTarget removals linked).1.map key).Nodup := by
  rw [discardedByEveryLinkingTarget, if_neg (Nat.not_lt.mpr h)]
  exact (retained_foldl removals).nodup

theorem survivors_perm {removals' : List DiscardedSection} {linked' : List LinkCommand}
    (h : FromLinked removals linked) (hRemovals : removals.Perm removals') (hLinked : linked.Perm linked') :
    ((discardedByEveryLinkingTarget removals linked).1.map key).Perm
        ((discardedByEveryLinkingTarget removals' linked').1.map key) ∧
      (discardedByEveryLinkingTarget removals linked).2 =
        (discardedByEveryLinkingTarget removals' linked').2 := by
  have hOther : FromLinked removals' linked' := by
    intro removal hRemoval
    obtain ⟨command, hCommand, hRest⟩ := h removal (hRemovals.mem_iff.mpr hRemoval)
    exact ⟨command, hLinked.mem_iff.mp hCommand, hRest⟩
  have hDead (key : PurePath × Text) : DeadInTargets removals linked key ↔
      DeadInTargets removals' linked' key := by
    simp only [DeadInTargets, hRemovals.mem_iff, hLinked.mem_iff]
  by_cases hFew : linked.length < 2
  · rw [discardedByEveryLinkingTarget, if_pos hFew, discardedByEveryLinkingTarget,
    if_pos (hLinked.length_eq ▸ hFew)]
    exact ⟨hRemovals.map _, rfl⟩
  · have hMany := Nat.not_lt.mp hFew
    constructor
    · refine (perm_ext_iff_of_nodup (nodup_survivors hMany)
        (nodup_survivors (hLinked.length_eq ▸ hMany))).mpr fun key => ?_
      rw [mem_survivors_iff h, mem_survivors_iff hOther, hDead key]
      simp only [hRemovals.mem_iff]
    · rw [discardedByEveryLinkingTarget, if_neg hFew, discardedByEveryLinkingTarget,
      if_neg (hLinked.length_eq ▸ hFew)]
      dsimp only
      rw [(retained_foldl removals).kept, (retained_foldl removals').kept, hRemovals.countP_eq]
      refine countP_congr fun removal hRemoval => ?_
      rw [decide_eq_true_iff, decide_eq_true_iff, Passes, Passes,
        required_subset_iff (hRemovals.mem_iff.mpr hRemoval), required_subset_iff hRemoval, hDead]

theorem removalOf_eq_iff {build : Build} {direct : List PurePath} {line sectionName : Text}
    {object : PurePath} :
    build.removalOf direct line = .ok (some (object, sectionName)) ↔
      object ∈ direct ∧ isRemovalLine line = true ∧ ∃ text, searchRemoval [] line = some (sectionName, text) ∧
        0x28 ∉ text ∧ 0x29 ∉ text ∧ isSectionName sectionName = true ∧
          build.resolveInside build.shadow text = some object := by
  unfold Build.removalOf
  cases hLine : isRemovalLine line with
  | false => simp
  | true =>
    cases hSearch : searchRemoval [] line with
    | none => simp
    | some found =>
      obtain ⟨found, text⟩ := found
      simp only [not_true_eq_false, if_false, Option.some.injEq, Prod.mk.injEq, true_and]
      split
      · rename_i hOther
        refine iff_of_false nofun ?_
        rintro ⟨-, _, ⟨rfl, rfl⟩, hOpen, hClose, hName, -⟩
        rcases hOther with h | h | h
        · exact hOpen h
        · exact hClose h
        · exact h hName
      · rename_i hOther
        simp only [not_or, not_not] at hOther
        cases hPath : build.resolveInside build.shadow text with
        | none =>
          refine iff_of_false nofun ?_
          rintro ⟨-, _, ⟨rfl, rfl⟩, -, -, -, hResolved⟩
          cases hPath.symm.trans hResolved
        | some path =>
          dsimp only
          split
          · rename_i hDirect
            constructor
            · intro h
              cases h
              exact ⟨hDirect, text, ⟨rfl, rfl⟩, hOther.1, hOther.2.1, hOther.2.2, hPath⟩
            · rintro ⟨-, _, ⟨rfl, rfl⟩, -, -, -, hResolved⟩
              cases hPath.symm.trans hResolved
              rfl
          · rename_i hDirect
            refine iff_of_false nofun ?_
            rintro ⟨hObject, _, ⟨rfl, rfl⟩, -, -, -, hResolved⟩
            cases hPath.symm.trans hResolved
            exact hDirect hObject

namespace Build

variable (build : Build)

/-- The output of a link names the section of the object among those removed. -/
def Reports (argv : List Text) (object : PurePath) (sectionName : Text) : Prop :=
  ∃ output, build.relink argv = some output ∧ ∃ line ∈ splitLines output, isRemovalLine line = true ∧
    ∃ text, searchRemoval [] line = some (sectionName, text) ∧ 0x28 ∉ text ∧ 0x29 ∉ text ∧
      isSectionName sectionName = true ∧ build.resolveInside build.shadow text = some object

variable {build}

theorem mem_parseRemovals {command : LinkCommand} {removals result : List DiscardedSection}
    {lines : List Text} (h : build.parseRemovals command removals lines = .ok result)
    {removal : DiscardedSection} :
    removal ∈ result ↔ removal ∈ removals ∨ ∃ line ∈ lines, ∃ found,
      build.removalOf command.objects line = .ok (some found) ∧ removal = discarded command found := by
  induction lines generalizing removals with
  | nil =>
    cases h
    simp
  | cons line lines ih =>
    obtain ⟨step, hStep, h⟩ := bind_eq_ok.mp h
    rw [exists_mem_cons_iff]
    cases step with
    | none =>
      rw [ih h]
      simp [hStep]
    | some found =>
      dsimp only at h
      split at h
      · cases h
      · rw [ih h, mem_append, mem_singleton, or_assoc]
        simp [hStep]

theorem mem_relinked_iff {command : LinkCommand} {removals : List DiscardedSection}
    (h : build.relinked command = .ok removals) {removal : DiscardedSection} :
    removal ∈ removals ↔ ∃ object sectionName, object ∈ command.objects ∧
      build.Reports command.argv object sectionName ∧ removal = discarded command (object, sectionName) := by
  unfold relinked at h
  cases hOutput : build.relink command.argv with
  | none => rw [hOutput] at h; cases h
  | some output =>
    rw [hOutput] at h
    dsimp only at h
    cases hParse : build.parseRemovals command [] (splitLines output) with
    | error message => rw [hParse] at h; cases h
    | ok found =>
      rw [hParse] at h
      cases h
      rw [mem_parseRemovals hParse]
      simp only [not_mem_nil, false_or, Prod.exists, removalOf_eq_iff, Reports, hOutput,
        Option.some.injEq, exists_eq_left']
      constructor
      · rintro ⟨line, hLine, object, sectionName, ⟨hObject, hRest⟩, rfl⟩
        exact ⟨object, sectionName, hObject, ⟨line, hLine, hRest⟩, rfl⟩
      · rintro ⟨object, sectionName, hObject, ⟨line, hLine, hRest⟩, rfl⟩
        exact ⟨line, hLine, object, sectionName, ⟨hObject, hRest⟩, rfl⟩

end Build

namespace Build

variable {build : Build} {required : Bool}

theorem discoverFrom_some {paths : List PurePath} {outcome outcome' : Outcome}
    {commands : List LinkCommand} (h : build.discoverFrom required paths outcome = (outcome', some commands)) :
    commands = paths.filterMap (fun path => (build.parseLinkCommand path).toOption.join) ∧
      outcome'.errors = outcome.errors ∧
      outcome'.ambiguousSectionsExcluded = outcome.ambiguousSectionsExcluded := by
  induction paths generalizing outcome commands with
  | nil =>
    cases h
    exact ⟨rfl, rfl, rfl⟩
  | cons path paths ih =>
    rw [discoverFrom] at h
    rw [filterMap_cons]
    cases hParse : build.parseLinkCommand path with
    | error message =>
      rw [hParse] at h
      dsimp only at h
      split at h
      · cases h
      · have hRest := ih h
        exact hRest
    | ok found =>
      rw [hParse] at h
      cases found with
      | none => exact ih h
      | some command =>
        dsimp only at h
        cases hRest : build.discoverFrom required paths outcome with
        | mk later rest =>
          rw [hRest] at h
          cases rest with
          | none => cases h
          | some rest =>
            cases h
            obtain ⟨rfl, hErrors⟩ := ih hRest
            exact ⟨rfl, hErrors⟩

variable {units : Dict PurePath CompilationUnit}

theorem eligibleFrom_some {commands accepted : List LinkCommand} {outcome outcome' : Outcome}
    (h : eligibleFrom units required commands outcome = (outcome', some accepted)) :
    accepted = commands.filter (isCovered units) ∧ outcome'.errors = outcome.errors ∧
      outcome'.ambiguousSectionsExcluded = outcome.ambiguousSectionsExcluded := by
  induction commands generalizing outcome accepted with
  | nil =>
    cases h
    exact ⟨rfl, rfl, rfl⟩
  | cons command commands ih =>
    rw [eligibleFrom] at h
    rw [filter_cons]
    split at h
    · rename_i hCovered
      rw [if_pos hCovered]
      dsimp only at h
      cases hRest : eligibleFrom units required commands outcome with
      | mk later rest =>
        rw [hRest] at h
        cases rest with
        | none => cases h
        | some rest =>
          cases h
          obtain ⟨rfl, hErrors⟩ := ih hRest
          exact ⟨rfl, hErrors⟩
    · rename_i hUncovered
      rw [if_neg hUncovered]
      dsimp only at h
      split at h
      · cases h
      · have hRest := ih h
        exact hRest

theorem fail_errors_ne_nil (outcome : Outcome) (message : Text) : (outcome.fail message).errors ≠ [] := by
  rw [Outcome.fail]
  exact append_ne_nil_of_right_ne_nil _ (cons_ne_nil _ _)

theorem collectFrom_of_errors {commands : List LinkCommand} {state : Collected}
    (h : (build.collectFrom commands state).outcome.errors = []) :
    ∃ observed, List.Forall₂ (fun command removals => build.relinked command = .ok removals)
      commands observed ∧
      (build.collectFrom commands state).linked = state.linked ++ commands ∧
      (build.collectFrom commands state).removals = state.removals ++ observed.flatten ∧
      (build.collectFrom commands state).outcome.ambiguousSectionsExcluded =
        state.outcome.ambiguousSectionsExcluded := by
  induction commands generalizing state with
  | nil => exact ⟨[], .nil, (append_nil _).symm, (append_nil _).symm, rfl⟩
  | cons command commands ih =>
    rw [collectFrom] at h ⊢
    split at h
    · exact absurd h (fail_errors_ne_nil _ _)
    · rename_i hTime
      rw [if_neg hTime]
      cases hRelinked : build.relinked command with
      | error message =>
        rw [hRelinked] at h
        exact absurd h (fail_errors_ne_nil _ _)
      | ok removals =>
        rw [hRelinked] at h
        dsimp only at h ⊢
        split at h
        · exact absurd h (fail_errors_ne_nil _ _)
        · rename_i hExecutable
          rw [if_neg hExecutable]
          obtain ⟨observed, hAll, hLinked, hRemovals, hExcluded⟩ := ih h
          refine ⟨removals :: observed, .cons hRelinked hAll, ?_, ?_, hExcluded⟩
          · rw [hLinked, append_assoc, singleton_append]
          · rw [hRemovals, append_assoc, flatten_cons]

theorem inspectRemovals_of_errors {sources : List Text}
    {removals : List DiscardedSection} {outcome : Outcome}
    (h : (build.inspectRemovals units sources removals outcome).1.errors = []) :
    (∀ removal ∈ removals, ∃ result, build.inspectRemoval units sources removal = .ok result) ∧
      (∀ symbol, symbol ∈ (build.inspectRemovals units sources removals outcome).2 ↔
        ∃ removal ∈ removals, build.inspectRemoval units sources removal = .ok (some symbol)) ∧
      (build.inspectRemovals units sources removals outcome).1.ambiguousSectionsExcluded =
        outcome.ambiguousSectionsExcluded +
          removals.countP (build.inspectRemoval units sources · = .ok none) := by
  induction removals generalizing outcome with
  | nil => exact ⟨nofun, fun _ => by simp [inspectRemovals], rfl⟩
  | cons removal removals ih =>
    rw [inspectRemovals] at h ⊢
    cases hResult : build.inspectRemoval units sources removal with
    | error message =>
      rw [hResult] at h
      exact absurd h (fail_errors_ne_nil _ _)
    | ok result =>
      rw [hResult] at h
      cases result with
      | none =>
        obtain ⟨hAll, hSymbols, hExcluded⟩ := ih h
        refine ⟨forall_mem_cons.mpr ⟨⟨_, hResult⟩, hAll⟩, fun symbol => ?_, ?_⟩
        · rw [hSymbols symbol, exists_mem_cons_iff]
          simp [hResult]
        · rw [hExcluded, countP_cons_of_pos (by simpa using hResult), Nat.add_right_comm, Nat.add_assoc]
      | some found =>
        dsimp only at h ⊢
        obtain ⟨hAll, hSymbols, hExcluded⟩ := ih h
        refine ⟨forall_mem_cons.mpr ⟨⟨_, hResult⟩, hAll⟩, fun symbol => ?_, ?_⟩
        · rw [mem_cons, hSymbols symbol, exists_mem_cons_iff]
          simp [hResult, eq_comm]
        · rw [hExcluded, countP_cons_of_neg (by simp [hResult])]

end Build

/-! ## An exact run -/

namespace Build

variable (build : Build)

def accepted (links : List PurePath) (units : Dict PurePath CompilationUnit) : List LinkCommand :=
  ((pathSort links).filterMap fun path => (build.parseLinkCommand path).toOption.join).filter
    (isCovered units)

def observed (command : LinkCommand) : List DiscardedSection := (build.relinked command).toOption.getD []

end Build

structure IsTold (build : Build) (links : List PurePath) (units : Dict PurePath CompilationUnit)
    (sources : List Text)
    (outcome : Outcome) (surviving : List DiscardedSection) : Prop where
  dead : ∀ object sectionName, (object, sectionName) ∈ surviving.map key ↔
    (∃ command ∈ build.accepted links units, object ∈ command.objects ∧
      build.Reports command.argv object sectionName) ∧
    ∀ command ∈ build.accepted links units, object ∈ command.objects →
      ∃ other ∈ build.accepted links units, other.target = command.target ∧ object ∈ other.objects ∧
        build.Reports other.argv object sectionName
  once : 2 ≤ (build.accepted links units).length → (surviving.map key).Nodup
  ordered : ∀ commands removals, (build.accepted links units).Perm commands →
    ((build.accepted links units).flatMap build.observed).Perm removals → (surviving.map key).Perm
        ((discardedByEveryLinkingTarget removals commands).1.map key)
  inspected : ∀ removal ∈ surviving, ∃ result, build.inspectRemoval units sources removal = .ok result
  excluded : outcome.ambiguousSectionsExcluded =
    surviving.countP (build.inspectRemoval units sources · = .ok none)
  symbols : ∀ symbol ∈ outcome.symbols, ∃ removal ∈ surviving,
    build.inspectRemoval units sources removal = .ok (some symbol)
  reported : ∀ removal ∈ surviving, ∀ symbol, build.inspectRemoval units sources removal = .ok (some symbol) →
    ∃ other ∈ outcome.symbols, other.key = symbol.key

namespace Build

variable {build : Build} {links : List PurePath} {units : Dict PurePath CompilationUnit}
  {sources : List Text}

variable {commands : List LinkCommand} {outcome : Outcome}

theorem mem_recorded {accepted : List DeadSymbol} :
    (∀ symbol ∈ (recordSuccess units sources commands accepted outcome).symbols, symbol ∈ accepted) ∧
      ∀ symbol ∈ accepted, ∃ other ∈ (recordSuccess units sources commands accepted outcome).symbols,
        other.key = symbol.key := by
  have hPairs {key : Lex (Text × Lex (ℕ × Lex (Text × Text)))} {symbol : DeadSymbol}
      (h : (Dict.setAll [] (accepted.map fun symbol => (symbol.key, symbol))).get? key = some symbol) :
      symbol ∈ accepted ∧ symbol.key = key := by
    rcases Dict.mem_of_mem_setAll (Dict.mem_of_get? h) with hOld | hNew
    · cases hOld
    · obtain ⟨other, hOther, hPair⟩ := mem_map.mp hNew
      cases hPair
      exact ⟨hOther, rfl⟩
  unfold recordSuccess
  dsimp only
  constructor
  · intro symbol hSymbol
    obtain ⟨key, -, hKey⟩ := mem_filterMap.mp hSymbol
    exact (hPairs hKey).1
  · intro symbol hSymbol
    have hKey : symbol.key ∈ (Dict.setAll [] (accepted.map fun symbol => (symbol.key, symbol))).keys :=
      Dict.mem_keys_setAll.mpr (.inr ⟨_, mem_map_of_mem hSymbol, rfl⟩)
    obtain ⟨other, hOther⟩ := Option.ne_none_iff_exists'.mp fun hNone =>
      (Dict.get?_eq_none_iff _ _).mp hNone hKey
    exact ⟨other, mem_filterMap.mpr ⟨symbol.key, (mem_insertionSort _).mpr hKey, hOther⟩,
      (hPairs hOther).2⟩

theorem stopped_ne_exact (outcome : Outcome) : (stopped outcome).mode ≠ .exact := by
  unfold stopped
  dsimp only
  split <;> nofun

theorem discoverLinks_some {required : Bool}
    (h : build.discoverLinks links required {} = (outcome, some commands)) :
    commands = (pathSort links).filterMap (fun path => (build.parseLinkCommand path).toOption.join) ∧
      outcome.errors = [] ∧ outcome.ambiguousSectionsExcluded = 0 := by
  unfold discoverLinks at h
  dsimp only at h
  split at h
  · cases h
  · split at h
    · cases h
    · exact discoverFrom_some h

theorem eligibleCommands_some {required : Bool} {accepted : List LinkCommand} {outcome' : Outcome}
    (h : eligibleCommands units required commands outcome = (outcome', some accepted)) :
    accepted = commands.filter (isCovered units) ∧ outcome'.errors = outcome.errors ∧
      outcome'.ambiguousSectionsExcluded = outcome.ambiguousSectionsExcluded := by
  unfold eligibleCommands at h
  split at h
  · cases h
  · exact eligibleFrom_some h

theorem verifyGnuLinkers_true {outcome' : Outcome}
    (h : build.verifyGnuLinkers commands outcome = (outcome', true)) : outcome' = outcome := by
  unfold verifyGnuLinkers at h
  split at h
  · cases h
  · cases h
    rfl

section

variable (hRelinked : ∀ command ∈ commands, ∃ removals, build.relinked command = .ok removals)
include hRelinked

theorem mem_observed_iff {removal : DiscardedSection} :
    removal ∈ commands.flatMap build.observed ↔ ∃ command ∈ commands, ∃ object sectionName,
      object ∈ command.objects ∧ build.Reports command.argv object sectionName ∧
        removal = discarded command (object, sectionName) := by
  rw [mem_flatMap]
  refine exists_congr fun command => and_congr_right fun hCommand => ?_
  obtain ⟨removals, hRemovals⟩ := hRelinked command hCommand
  rw [observed, hRemovals]
  exact mem_relinked_iff hRemovals

theorem fromLinked_observed : FromLinked (commands.flatMap build.observed) commands := by
  intro removal hRemoval
  obtain ⟨command, hCommand, object, sectionName, hObject, -, rfl⟩ := (mem_observed_iff hRelinked).mp hRemoval
  exact ⟨command, hCommand, hObject, rfl⟩

theorem mem_survivors_observed_iff (object : PurePath) (sectionName : Text) :
    (object, sectionName) ∈ (discardedByEveryLinkingTarget (commands.flatMap build.observed) commands).1.map
        key ↔
      (∃ command ∈ commands, object ∈ command.objects ∧ build.Reports command.argv object sectionName) ∧
      ∀ command ∈ commands, object ∈ command.objects →
        ∃ other ∈ commands, other.target = command.target ∧ object ∈ other.objects ∧
          build.Reports other.argv object sectionName := by
  have hKey (target : Text) : (∃ removal ∈ commands.flatMap build.observed,
      removal.key = (object, sectionName) ∧ removal.target = target) ↔
        ∃ other ∈ commands, other.target = target ∧ object ∈ other.objects ∧
          build.Reports other.argv object sectionName := by
    simp only [mem_observed_iff hRelinked]
    constructor
    · rintro ⟨_, ⟨command, hCommand, object, sectionName, hObject, hReports, rfl⟩, hPair, hTarget⟩
      cases hPair
      exact ⟨command, hCommand, hTarget, hObject, hReports⟩
    · rintro ⟨command, hCommand, hTarget, hObject, hReports⟩
      exact ⟨_, ⟨command, hCommand, object, sectionName, hObject, hReports, rfl⟩, rfl, hTarget⟩
  rw [mem_survivors_iff (fromLinked_observed hRelinked)]
  refine and_congr ?_ (forall₃_congr fun command _ _ => hKey command.target)
  constructor
  · rintro ⟨removal, hRemoval, hPair⟩
    obtain ⟨other, hOther, -, hRest⟩ := (hKey removal.target).mp ⟨removal, hRemoval, hPair, rfl⟩
    exact ⟨other, hOther, hRest⟩
  · rintro ⟨command, hCommand, hRest⟩
    obtain ⟨removal, hRemoval, hPair, -⟩ := (hKey command.target).mpr ⟨command, hCommand, rfl, hRest⟩
    exact ⟨removal, hRemoval, hPair⟩

end

theorem flatten_observed {observations : List (List DiscardedSection)}
    (h : List.Forall₂ (fun command removals => build.relinked command = .ok removals) commands observations) :
    observations.flatten = commands.flatMap build.observed := by
  induction h with
  | nil => rfl
  | cons hRelinked _ ih =>
    rw [flatten_cons, flatMap_cons, ih, observed, hRelinked]
    rfl

theorem collectRemovals_of_errors (h : (build.collectRemovals commands outcome).1.errors = []) :
    (∀ command ∈ commands, ∃ removals, build.relinked command = .ok removals) ∧
      (build.collectRemovals commands outcome).2 =
        (discardedByEveryLinkingTarget (commands.flatMap build.observed) commands).1 ∧
      (build.collectRemovals commands outcome).1.ambiguousSectionsExcluded =
        outcome.ambiguousSectionsExcluded := by
  have hErrors : (build.collectFrom commands { outcome }).outcome.errors = [] := h
  obtain ⟨observations, hAll, hLinked, hRemovals, hExcluded⟩ := collectFrom_of_errors hErrors
  have hObserved := flatten_observed hAll
  have hEach : ∀ command ∈ commands, ∃ removals, build.relinked command = .ok removals := by
    intro command hCommand
    obtain ⟨removals, -, hRelinked⟩ := mem_mapM_of_mem (mapM_eq_ok.mpr hAll) hCommand
    exact ⟨removals, hRelinked⟩
  refine ⟨hEach, ?_, hExcluded⟩
  unfold collectRemovals
  dsimp only
  rw [hLinked, hRemovals, nil_append, nil_append, hObserved]

theorem conclude_exact {removals : List DiscardedSection}
    (h : (build.conclude units sources commands removals outcome).mode = .exact) :
    outcome.errors = [] ∧ (build.inspectRemovals units sources removals outcome).1.errors = [] ∧
      build.conclude units sources commands removals outcome =
        recordSuccess units sources commands (build.inspectRemovals units sources removals outcome).2
          (build.inspectRemovals units sources removals outcome).1 := by
  unfold conclude at h ⊢
  by_cases hErrors : outcome.errors = []
  · simp only [if_pos hErrors] at h ⊢
    by_cases hChanged : (build.inspectRemovals units sources removals outcome).1.errors = [] ∧
        build.sourcesUnchanged = false
    · rw [if_pos hChanged, if_pos (fail_errors_ne_nil _ _)] at h
      cases h
    · rw [if_neg hChanged] at h ⊢
      by_cases hNone : (build.inspectRemovals units sources removals outcome).1.errors = []
      · exact ⟨hErrors, hNone, if_neg (not_not.mpr hNone)⟩
      · rw [if_pos hNone] at h
        cases h
  · simp only [hErrors, false_and, if_false, ne_eq, not_false_eq_true, if_true] at h
    cases h

theorem isTold_of_measure {policy : Policy}
    (hRun : build.measure policy sources links = outcome) (h : outcome.mode = .exact) :
    ∃ units surviving, build.units = .ok units ∧
      surviving = (discardedByEveryLinkingTarget ((build.accepted links units).flatMap build.observed)
        (build.accepted links units)).1 ∧ IsTold build links units sources outcome surviving := by
  unfold measure at hRun
  split at hRun
  · exact absurd (hRun ▸ h) (stopped_ne_exact _)
  rename_i hDiscover
  obtain ⟨hCommands, hErrors, hExcluded⟩ := discoverLinks_some hDiscover
  split at hRun
  · exact absurd (hRun ▸ h) nofun
  rename_i hVerify
  obtain rfl := verifyGnuLinkers_true hVerify
  split at hRun
  · exact absurd (hRun ▸ h) nofun
  rename_i units hUnits
  split at hRun
  · exact absurd (hRun ▸ h) (stopped_ne_exact _)
  rename_i found commands hEligible
  obtain ⟨hAccepted, hFound, hFoundExcluded⟩ := eligibleCommands_some hEligible
  rw [hCommands, ← accepted] at hAccepted
  rw [hErrors] at hFound
  rw [hExcluded] at hFoundExcluded
  subst hAccepted
  rcases hCollect : build.collectRemovals (build.accepted links units) found with ⟨collected, survivors⟩
  rw [hCollect] at hRun
  dsimp only at hRun
  subst hRun
  obtain ⟨hCollected, hInspected, hEq⟩ := conclude_exact h
  have hNone : (build.collectRemovals (build.accepted links units) found).1.errors = [] := by
    rw [hCollect]
    exact hCollected
  obtain ⟨hRelinked, hSurviving, hKept⟩ := collectRemovals_of_errors hNone
  rw [hCollect] at hSurviving hKept
  dsimp only at hSurviving hKept
  obtain ⟨hAll, hSymbols, hCount⟩ := inspectRemovals_of_errors hInspected
  refine ⟨units, _, hUnits, rfl, ?_⟩
  rw [← hSurviving]
  refine
    { dead := fun object sectionName => ?_
      once := fun hMany => ?_
      ordered := fun commands removals hCommands hRemovals => ?_
      inspected := hAll
      excluded := ?_
      symbols := fun symbol hSymbol => ?_
      reported := fun removal hRemoval symbol hSymbol => ?_ }
  · rw [hSurviving]
    exact mem_survivors_observed_iff hRelinked object sectionName
  · rw [hSurviving]
    exact nodup_survivors hMany
  · rw [hSurviving]
    exact (survivors_perm (fromLinked_observed hRelinked) hRemovals hCommands).1
  · rw [hEq, recordSuccess, hCount, hKept, hFoundExcluded, Nat.zero_add]
  · rw [hEq] at hSymbol
    exact (hSymbols symbol).mp (mem_recorded.1 symbol hSymbol)
  · rw [hEq]
    exact mem_recorded.2 symbol ((hSymbols symbol).mpr ⟨removal, hRemoval, hSymbol⟩)

theorem rootText_injective : Function.Injective PathRoot.text := by
  intro root root' h
  cases root <;> cases root' <;> first
    | rfl
    | exact absurd h (by decide)

theorem parts_injective : Function.Injective parts := by
  have hExt (path other : PurePath) (hRoot : path.root = other.root) (hNames : path.names = other.names) :
      path = other := by
    obtain ⟨root, names, hNames⟩ := path
    cases hRoot
    cases hNames
    rfl
  have hRelative (path other : PurePath) (hPath : path.isAbsolute = true)
      (hOther : other.isAbsolute = false) : path.parts ≠ other.parts := by
    intro hEq
    rw [parts, parts, if_pos hPath, if_neg (by rw [hOther]; exact Bool.false_ne_true)]
      at hEq
    have hName : path.root.text ∈ other.names := hEq ▸ mem_cons_self
    have hSlash : 0x2f ∈ path.root.text := by
      revert hPath
      rw [isAbsolute]
      cases path.root <;> decide
    exact (other.names_ok _ hName).2.2 hSlash
  intro path other hEq
  cases hPath : path.isAbsolute <;> cases hOther : other.isAbsolute
  · simp only [parts, hPath, hOther, Bool.false_eq_true, if_false] at hEq
    simp only [isAbsolute, bne_eq_false_iff_eq] at hPath hOther
    exact hExt path other (hPath.trans hOther.symm) hEq
  · exact absurd hEq.symm (hRelative other path hOther hPath)
  · exact absurd hEq (hRelative path other hPath hOther)
  · simp only [parts, hPath, hOther, if_true, cons.injEq] at hEq
    exact hExt path other (rootText_injective hEq.1) hEq.2

theorem pathSort_perm {paths paths' : List PurePath} (h : paths.Perm paths') :
    pathSort paths = pathSort paths' := by
  let earlier (path other : PurePath) : Prop := path.parts ≤ other.parts
  have hSorted (paths : List PurePath) : (pathSort paths).Pairwise earlier :=
    pairwise_insertionSort earlier paths
  have hPerm : (pathSort paths).Perm (pathSort paths') :=
    (perm_insertionSort earlier paths).trans (h.trans (perm_insertionSort earlier paths').symm)
  exact hPerm.eq_of_pairwise (fun path other _ _ hLe hGe => parts_injective (le_antisymm hLe hGe))
    (hSorted paths) (hSorted paths')

theorem measure_perm {policy : Policy} {links' : List PurePath} (h : links.Perm links') :
    build.measure policy sources links' = build.measure policy sources links := by
  unfold measure discoverLinks
  rw [pathSort_perm h]

end Build

/-! ## The whole -/

/-- In a run that ends exact a pair of an object and a section survives where every accepted target that
    linked the object discarded it. -/
theorem exact_run_told {policy : Policy} {sources : List Text}
    {prepared : Except Unprepared (Build × List PurePath)}
    (h : (runCppLinkerDeadSymbols policy sources prepared).mode = .exact) :
    ∃ build links units surviving, prepared = .ok (build, links) ∧ build.units = .ok units ∧
      surviving = (discardedByEveryLinkingTarget ((build.accepted links units).flatMap build.observed)
        (build.accepted links units)).1 ∧
      IsTold build links units sources (runCppLinkerDeadSymbols policy sources prepared) surviving ∧
      ∀ links', links.Perm links' → runCppLinkerDeadSymbols policy sources (.ok (build, links')) =
          runCppLinkerDeadSymbols policy sources prepared := by
  unfold runCppLinkerDeadSymbols at h ⊢
  split at h
  · cases h
  rename_i hPolicy
  split at h
  · cases h
  rename_i hSources
  simp only [if_neg hPolicy, if_neg hSources]
  split at h
  · cases h
  · cases h
  · rename_i build links
    obtain ⟨units, surviving, hUnits, hSurviving, hTold⟩ := Build.isTold_of_measure rfl h
    exact ⟨build, links, units, surviving, rfl, hUnits, hSurviving, hTold, fun links' hLinks =>
      Build.measure_perm hLinks⟩

section Excluded

def helperPath : PurePath := .parse (py "/s/util.o")

def linkPath (target : Text) : PurePath := .parse (py "/s/CMakeFiles/" ++ target ++ py ".dir/link.txt")

def linkArgv (target : Text) (flags : List Text) : List Text :=
  [py "/usr/bin/g++", py "-Wl,--gc-sections", py "-Wl,--print-gc-sections", py "-no-pie"] ++ flags ++
    [py "util.o", py "-o", target]

/-- Two executables link one object. The second one exports its symbols and keeps every section. -/
def sharedBuild : Build where
  shadow := .parse (py "/s")
  shlexed path :=
    if path = linkPath (py "app") then .ok (linkArgv (py "app") [])
    else if path = linkPath (py "tool") then .ok (linkArgv (py "tool") [py "-rdynamic"]) else .error []
  resolve := some
  capability _ := some (py "g++", py "15")
  compilerPaths := [.parse (py "/usr/bin/g++")]
  digestOf target _ := target
  linksWithGnu _ := true
  units := .ok [(helperPath, { source := py "util.cpp", argv := [py "-ffunction-sections"] })]
  inTime _ := true
  relink argv :=
    some (if py "app" ∈ argv then py "ld: removing unused section '.text.helper' in file 'util.o'" else [])
  isExecutable _ := true
  inspect _ _ := .ok (some { symbol := py "helper", file := py "util.cpp", line := 3 })
  sourcesUnchanged := true

def sharedLinks : List PurePath := [linkPath (py "app"), linkPath (py "tool")]

theorem exact_shared : runCppLinkerDeadSymbols .auto [py "util.cpp"] (.ok (sharedBuild, sharedLinks)) =
      { symbols :=
          [{ file := py "util.cpp", line := 3, linkTarget := py "app", symbol := py "helper"
             sectionName := py ".text.helper", objectPath := py "util.o", toolName := py "g++"
             toolVersion := py "15", linkCommandDigest := py "app" }]
        warnings := [py "Link target tool was excluded: link target uses flags outside the exact GNU ELF " ++
          py "executable contract"]
        mode := .exact, linkTargetsChecked := 1, sourcesChecked := 1, discardedSectionsObserved := 1 } := by
  decide +kernel

theorem shared_run_told : ∃ units surviving, IsTold sharedBuild sharedLinks units [py "util.cpp"]
    (runCppLinkerDeadSymbols .auto [py "util.cpp"] (.ok (sharedBuild, sharedLinks))) surviving := by
  have hExact :
      (runCppLinkerDeadSymbols .auto [py "util.cpp"] (.ok (sharedBuild, sharedLinks))).mode = .exact := by
    rw [exact_shared]
  obtain ⟨build, links, units, surviving, hPrepared, -, -, hTold, -⟩ := exact_run_told hExact
  cases hPrepared
  exact ⟨units, surviving, hTold⟩

/-- The excluded link names the object and keeps the section that is reported dead. -/
theorem excluded_link_keeps_section :
    (runCppLinkerDeadSymbols .auto [py "util.cpp"] (.ok (sharedBuild, sharedLinks))).mode = .exact ∧
      (runCppLinkerDeadSymbols .auto [py "util.cpp"] (.ok (sharedBuild, sharedLinks))).symbols.map
        (fun symbol => (symbol.objectPath, symbol.sectionName)) = [(py "util.o", py ".text.helper")] ∧
      linkPath (py "tool") ∈ sharedLinks ∧
      sharedBuild.shlexed (linkPath (py "tool")) = .ok (linkArgv (py "tool") [py "-rdynamic"]) ∧
      sharedBuild.directObjects (linkArgv (py "tool") [py "-rdynamic"]).tail = .ok [helperPath] ∧
      ¬sharedBuild.Reports (linkArgv (py "tool") [py "-rdynamic"]) helperPath (py ".text.helper") := by
  rw [exact_shared]
  refine ⟨rfl, rfl, by decide, by decide +kernel, by decide +kernel, ?_⟩
  rintro ⟨output, hOutput, line, hLine, -⟩
  have hEmpty : sharedBuild.relink (linkArgv (py "tool") [py "-rdynamic"]) = some [] := by decide +kernel
  cases hEmpty.symm.trans hOutput
  cases hLine

end Excluded

end LinkerDead

end Ici
