import Mathlib.Tactic.IntervalCases
import Ici.Core.CacheIdentity

/-! # When the closure covers what runs

The walk misses imports that stand directly in the `else` of a type-checking test, relative ones of
a package, the packages a module is in and what a `*` imports. -/

namespace Ici

open List hiding splitOn splitOn_ne_nil
open Python

/-! ## Statements -/

def AstNode.statement? : AstNode → Option ImportStatement
  | statement s => some s
  | _ => none

mutual

/-- The imports that stand directly in the `else` of a type-checking test. -/
def elseImports : AstNode → List ImportStatement
  | .statement _ => []
  | .ifElse test body orelse =>
    if test.isTypeChecking then orelse.filterMap AstNode.statement? ++ elseImportsOf orelse
    else elseImports test ++ elseImportsOf body ++ elseImportsOf orelse
  | .name _ => []
  | .attributeOf value _ => elseImports value
  | .other children => elseImportsOf children

def elseImportsOf : List AstNode → List ImportStatement
  | [] => []
  | node :: rest => elseImports node ++ elseImportsOf rest

end

variable {nodes : List AstNode} {target moduleName : Text} {module : Option Text} {level : ℕ}

theorem mem_standing {s : ImportStatement} :
    s ∈ nodes.filterMap AstNode.statement? ↔ .statement s ∈ nodes := by
  rw [mem_filterMap]
  constructor
  · rintro ⟨node, hNode, hSome⟩
    cases node <;> cases hSome
    exact hNode
  · exact fun h => ⟨_, h, rfl⟩

theorem mem_runtimeImportsOf {s : ImportStatement} :
    s ∈ runtimeImportsOf nodes ↔ ∃ node ∈ nodes, s ∈ runtimeImports node := by
  induction nodes with
  | nil => simp [runtimeImportsOf]
  | cons node rest ih => rw [runtimeImportsOf, mem_append, ih, exists_mem_cons_iff]

section Statements

variable {s : ImportStatement}

mutual

theorem mem_runtimeImports_of_else : ∀ node : AstNode, s ∈ elseImports node → s ∈ runtimeImports node
  | .statement _, h => nomatch h
  | .name _, h => nomatch h
  | .attributeOf value _, h => mem_runtimeImports_of_else value h
  | .other children, h => mem_runtimeImportsOf_of_else children h
  | .ifElse test body orelse, h => by
    rw [elseImports] at h
    rw [runtimeImports]
    split at h
    · rename_i hTest
      rw [if_pos hTest]
      rcases mem_append.mp h with hStanding | hBelow
      · exact mem_runtimeImportsOf.mpr ⟨_, mem_standing.mp hStanding, mem_singleton.mpr rfl⟩
      · exact mem_runtimeImportsOf_of_else orelse hBelow
    · rename_i hTest
      rw [if_neg hTest]
      rcases mem_append.mp h with hBoth | hElse
      · rcases mem_append.mp hBoth with hTestIn | hBody
        · exact mem_append_left _ (mem_append_left _ (mem_runtimeImports_of_else test hTestIn))
        · exact mem_append_left _ (mem_append_right _ (mem_runtimeImportsOf_of_else body hBody))
      · exact mem_append_right _ (mem_runtimeImportsOf_of_else orelse hElse)

theorem mem_runtimeImportsOf_of_else : ∀ nodes : List AstNode,
    s ∈ elseImportsOf nodes → s ∈ runtimeImportsOf nodes
  | [], h => nomatch h
  | node :: rest, h => by
    rcases mem_append.mp h with hHead | hRest
    · exact mem_append_left _ (mem_runtimeImports_of_else node hHead)
    · exact mem_append_right _ (mem_runtimeImportsOf_of_else rest hRest)

end

mutual

/-- What can run is found by the walk over a child, or stands in an `else`. -/
theorem runs_child : ∀ node : AstNode, s ∈ runtimeImports node → s ∈ collectChild node ∨ s ∈ elseImports node
  | .statement _, h => .inl h
  | .name _, h => nomatch h
  | .attributeOf value _, h => runs_child value h
  | .other children, h => runs_children children h
  | .ifElse test body orelse, h => by
    rw [collectChild, elseImports]
    rw [runtimeImports] at h
    split at h
    · rename_i hTest
      rw [if_pos hTest, if_pos hTest, mem_append]
      rcases runs_below orelse h with hBelow | hStanding | hElse
      · exact .inl hBelow
      · exact .inr (.inl hStanding)
      · exact .inr (.inr hElse)
    · rename_i hTest
      rw [if_neg hTest, if_neg hTest]
      simp only [mem_append] at h ⊢
      rcases h with (hTestIn | hBody) | hElse
      · exact (runs_child test hTestIn).imp (.inl ∘ .inl) (.inl ∘ .inl)
      · exact (runs_children body hBody).imp (.inl ∘ .inr) (.inl ∘ .inr)
      · exact (runs_children orelse hElse).imp .inr .inr

theorem runs_children : ∀ nodes : List AstNode, s ∈ runtimeImportsOf nodes →
    s ∈ collectChildren nodes ∨ s ∈ elseImportsOf nodes
  | [], h => nomatch h
  | node :: rest, h => by
    simp only [collectChildren, elseImportsOf, mem_append]
    rcases mem_append.mp h with hHead | hRest
    · exact (runs_child node hHead).imp .inl .inl
    · exact (runs_children rest hRest).imp .inr .inr

theorem runs_node : ∀ node : AstNode, s ∈ runtimeImports node →
    s ∈ collectIciImports node ∨ .statement s = node ∨ s ∈ elseImports node
  | .statement _, h => by
    rw [mem_singleton.mp h]
    exact .inr (.inl rfl)
  | .name _, h => nomatch h
  | .attributeOf value _, h => (runs_child value h).imp id .inr
  | .other children, h => (runs_children children h).imp id .inr
  | .ifElse test body orelse, h => by
    rw [collectIciImports, elseImports]
    rw [runtimeImports] at h
    split at h
    · rename_i hTest
      rw [if_pos hTest]
      simp only [mem_append]
      rcases runs_children orelse h with hFound | hElse
      · exact .inl (.inr hFound)
      · exact .inr (.inr (.inr hElse))
    · rename_i hTest
      rw [if_neg hTest]
      simp only [mem_append] at h ⊢
      rcases h with (hTestIn | hBody) | hElse
      · exact (runs_child test hTestIn).imp (.inl ∘ .inl) (.inr ∘ .inl ∘ .inl)
      · exact (runs_children body hBody).imp (.inl ∘ .inr) (.inr ∘ .inl ∘ .inr)
      · exact (runs_children orelse hElse).imp .inr (.inr ∘ .inr)

theorem runs_below : ∀ nodes : List AstNode, s ∈ runtimeImportsOf nodes →
    s ∈ collectBelow nodes ∨ s ∈ nodes.filterMap AstNode.statement? ∨ s ∈ elseImportsOf nodes
  | [], h => nomatch h
  | node :: rest, h => by
    rw [mem_standing]
    simp only [collectBelow, elseImportsOf, mem_append, mem_cons]
    rcases mem_append.mp h with hHead | hRest
    · rcases runs_node node hHead with hFound | hSame | hElse
      · exact .inl (.inl hFound)
      · exact .inr (.inl (.inl hSame))
      · exact .inr (.inr (.inl hElse))
    · have hBelow := runs_below rest hRest
      rw [mem_standing] at hBelow
      rcases hBelow with hFound | hIn | hElse
      · exact .inl (.inr hFound)
      · exact .inr (.inl (.inr hIn))
      · exact .inr (.inr (.inr hElse))

end

end Statements

theorem isIci_iff {name : Text} : isIci name = true ↔ name = py "ici" ∨ py "ici." <+: name := by
  rw [isIci, Bool.or_eq_true, beq_iff_eq, isPrefixOf_iff_prefix]

theorem isIci_of_submodule {name : Text} (h : isIci (submodule target name) = true) :
    isIci target = true := by
  rw [isIci_iff]
  rcases isIci_iff.mp h with hSame | hPrefix
  · have hMem : (0x2e : CodePoint) ∈ py "ici" := by
      rw [← hSame, submodule]
      exact mem_append_left _ (mem_append_right _ mem_cons_self)
    exact absurd hMem (by decide)
  · rw [submodule, append_assoc] at hPrefix
    rcases prefix_or_prefix_of_prefix hPrefix (prefix_append _ _) with hLong | hShort
    · exact .inr hLong
    · -- a shorter name is followed by a dot where the prefix has none
      rw [prefix_iff_eq_take] at hShort
      have hLength : target.length ≤ 4 := by
        rw [hShort, length_take]
        exact min_le_right _ _
      generalize target.length = k at hShort hLength
      subst hShort
      obtain ⟨rest, hRest⟩ := hPrefix
      interval_cases k
      · cases hRest
      · cases hRest
      · cases hRest
      · exact .inl rfl
      · exact .inr prefix_rfl

theorem importFromModule_eq (h : resolvedFrom moduleName false module level = some target) :
    importFromModule moduleName module level = some target := by
  unfold resolvedFrom packageParts at h
  unfold importFromModule
  split at h
  · rename_i hLevel
    rw [if_pos hLevel, h]
  · rename_i hLevel
    rw [if_neg hLevel]
    simp only [Bool.false_eq_true, if_false, length_dropLast] at h ⊢
    have hParts := length_pos_of_ne_nil (splitOn_ne_nil 0x2e moduleName)
    split at h
    · cases h
    · rename_i hEnough
      have hLess : level < (splitOn 0x2e moduleName).length := by omega
      have hBase : (splitOn 0x2e moduleName).dropLast.take
          ((splitOn 0x2e moduleName).length - 1 - (level - 1)) =
          (splitOn 0x2e moduleName).take ((splitOn 0x2e moduleName).length - level) := by
        rw [dropLast_eq_take, take_take]
        congr 1
        omega
      have hNe : (splitOn 0x2e moduleName).take ((splitOn 0x2e moduleName).length - level) ≠ [] := by
        intro hNone
        have hLength := congrArg List.length hNone
        rw [length_take, length_nil] at hLength
        omega
      rw [hBase] at h
      rw [if_pos hLess]
      split at h
      · split at h
        · rename_i hEmpty
          cases h
          rw [if_pos hEmpty, if_neg hNe]
        · rename_i hName
          cases h
          rw [if_neg hName, if_neg (by simp), join_concat hNe, submodule, append_assoc]
      · cases h
        rw [if_neg hNe]

theorem importFromModule_eq_of_resolvedFrom {isPackage : Bool} (hRelative : ¬(isPackage = true ∧ level ≠ 0))
    (h : resolvedFrom moduleName isPackage module level = some target) :
    importFromModule moduleName module level = some target := by
  by_cases hLevel : level = 0
  · unfold resolvedFrom at h
    unfold importFromModule
    rw [if_pos hLevel] at h ⊢
    exact h
  · obtain rfl : isPackage = false := by simpa [hLevel] using hRelative
    exact importFromModule_eq h

/-! ## The closure -/

namespace Modules

variable (modules : Modules)

/-- A chain of imports the walk finds leads from the first module to the second. -/
def Finds (rootModule other : Text) : Prop :=
  Relation.ReflTransGen (Worklist.Next modules.iciImports) rootModule other

/-- What running a module can run through an import the walk has no eye for. -/
inductive Misses (name other : Text) : Prop
  | parent (module : SourceModule) (statement : ImportStatement) (target : Text)
      (hModule : modules.get? name = some module)
      (hStatement : statement ∈ runtimeImportsOf module.tree)
      (hTarget : target ∈ modules.importTargets name module.isPackage statement)
      (hParent : other ∈ parentPackages target)
  | standing (module : SourceModule) (statement : ImportStatement)
      (hModule : modules.get? name = some module) (hStatement : statement ∈ elseImportsOf module.tree)
      (hTarget : other ∈ modules.importTargets name module.isPackage statement)
  | relative (module : SourceModule) (source : Option Text) (names : List Text) (level : ℕ)
      (hModule : modules.get? name = some module) (hPackage : module.isPackage = true)
      (hLevel : level ≠ 0) (hStatement : .from source names level ∈ runtimeImportsOf module.tree)
      (hTarget : other ∈ modules.importTargets name true (.from source names level))
  | star (module : SourceModule) (source : Option Text) (names : List Text) (level : ℕ)
      (target : Text) (exporter : SourceModule) (exported : Text)
      (hModule : modules.get? name = some module)
      (hStatement : .from source names level ∈ runtimeImportsOf module.tree) (hStar : py "*" ∈ names)
      (hSource : resolvedFrom name module.isPackage source level = some target)
      (hExporter : modules.get? target = some exporter) (hExported : exported ∈ exporter.exports)
      (hOther : other = submodule target exported)

structure FindsElsewhere (rootModule : Text) : Prop where
  packages : ∀ package ∈ parentPackages rootModule, package ∈ modules.entries.keys →
    modules.Finds rootModule package
  missed : ∀ name other, modules.CanRun rootModule name → modules.Misses name other →
    other ∈ modules.entries.keys → modules.Finds rootModule other

variable {modules} {name other : Text}

theorem mem_iciImports {module : SourceModule} (hModule : modules.get? name = some module)
    {statement : ImportStatement} (hStatement : statement ∈ collectChildren module.tree)
    (hIn : other ∈ iciImportsOf name statement) : other ∈ modules.iciImports name := by
  unfold iciImports staticIciImports
  rw [hModule]
  have hMem : other ∈ (collectChildren module.tree).flatMap (iciImportsOf name) :=
    mem_flatMap.mpr ⟨statement, hStatement, hIn⟩
  obtain ⟨first, hFirst, hSame⟩ : ∃ first, Deduplication.IsFirst id _ first ∧ id first = id other :=
    Deduplication.exists_isFirst hMem
  obtain rfl : first = other := hSame
  exact Deduplication.mem_keepFirst_iff.mpr ⟨not_mem_nil, hFirst⟩

theorem exists_get? (h : name ∈ modules.entries.keys) : ∃ module, modules.get? name = some module := by
  cases hGet : modules.get? name with
  | none => exact absurd h ((Dict.get?_eq_none_iff _ _).mp hGet)
  | some module => exact ⟨module, rfl⟩

theorem mem_keys_of_get? {module : SourceModule} (h : modules.get? name = some module) :
    name ∈ modules.entries.keys := by
  by_contra hNot
  cases h.symm.trans ((Dict.get?_eq_none_iff _ _).mpr hNot)

theorem mem_importTargets_from {isPackage : Bool} {source : Option Text} {names : List Text} {level : ℕ} :
    other ∈ modules.importTargets name isPackage (.from source names level) ↔
      ∃ target, resolvedFrom name isPackage source level = some target ∧
        (other = target ∨ ∃ bound ∈ modules.boundNames target names, submodule target bound = other) := by
  simp only [importTargets]
  cases resolvedFrom name isPackage source level with
  | none => simp
  | some target => simp [mem_cons, mem_map]

theorem Misses.runs (h : modules.Misses name other) (hKnown : other ∈ modules.entries.keys) :
    modules.Runs name other := by
  cases h with
  | parent module statement target hModule hStatement hTarget hParent =>
    exact ⟨module, hModule, statement, hStatement, target, hTarget, .inr hParent, hKnown⟩
  | standing module statement hModule hStatement hTarget =>
    exact ⟨module, hModule, statement, mem_runtimeImportsOf_of_else _ hStatement, other, hTarget,
      .inl rfl, hKnown⟩
  | relative module source names level hModule hPackage hLevel hStatement hTarget =>
    exact ⟨module, hModule, _, hStatement, other, by rwa [hPackage], .inl rfl, hKnown⟩
  | star module source names level target exporter exported hModule hStatement hStar hSource
      hExporter hExported hOther =>
    have hBound : exported ∈ modules.boundNames target names :=
      mem_flatMap.mpr ⟨py "*", hStar, by rw [if_pos rfl, hExporter]; exact hExported⟩
    have hTarget : other ∈ modules.importTargets name module.isPackage (.from source names level) :=
      mem_importTargets_from.mpr ⟨target, hSource, .inr ⟨exported, hBound, hOther.symm⟩⟩
    exact ⟨module, hModule, _, hStatement, other, hTarget, .inl rfl, hKnown⟩

theorem Runs.found_or_missed (h : modules.Runs name other) :
    other ∈ modules.iciImports name ∨ modules.Misses name other := by
  obtain ⟨module, hModule, statement, hStatement, target, hTarget, hOther, hKnown⟩ := h
  rcases hOther with rfl | hParent
  swap
  · exact .inr (.parent module statement target hModule hStatement hTarget hParent)
  have hIci := modules.ici other hKnown
  rcases runs_children module.tree hStatement with hFound | hElse
  swap
  · exact .inr (.standing module statement hModule hElse hTarget)
  cases statement with
  | absolute names =>
    exact .inl (mem_iciImports hModule hFound (mem_filter.mpr ⟨hTarget, hIci⟩))
  | «from» source names level =>
    by_cases hRelative : module.isPackage = true ∧ level ≠ 0
    · exact .inr (.relative module source names level hModule hRelative.1 hRelative.2 hStatement
        (hRelative.1 ▸ hTarget))
    obtain ⟨package, hPackage, hTarget⟩ := mem_importTargets_from.mp hTarget
    have hImport := importFromModule_eq_of_resolvedFrom hRelative hPackage
    rcases hTarget with rfl | ⟨bound, hBound, rfl⟩
    · refine .inl (mem_iciImports hModule hFound ?_)
      unfold iciImportsOf
      simp only [hImport, hIci, if_true]
      exact mem_cons_self
    · obtain ⟨imported, hImported, hBinds⟩ := mem_flatMap.mp hBound
      split at hBinds
      · rename_i hStar
        cases hExporter : modules.get? package with
        | none =>
          rw [hExporter] at hBinds
          cases hBinds
        | some exporter =>
          rw [hExporter] at hBinds
          exact .inr (.star module source names level package exporter bound hModule hStatement
            (hStar ▸ hImported) hPackage hExporter hBinds rfl)
      · rename_i hName
        obtain rfl := mem_singleton.mp hBinds
        refine .inl (mem_iciImports hModule hFound ?_)
        unfold iciImportsOf
        simp only [hImport, isIci_of_submodule hIci, if_true]
        exact mem_cons_of_mem _ (mem_map_of_mem
          (mem_filter.mpr ⟨hImported, decide_eq_true hName⟩))

theorem exists_walk (modules : Modules) (order : Worklist.Order Text) (rootModule : Text) :
    ∃ visited, Worklist.walk modules.iciImports order modules.rounds [] [rootModule] = some visited := by
  have hNodes : ∀ name ∉ modules.entries.keys.toFinset, modules.iciImports name = [] := by
    intro name hName
    rw [mem_toFinset] at hName
    unfold iciImports get?
    rw [(Dict.get?_eq_none_iff _ _).mpr hName]
  exact Worklist.exists_walk hNodes _ _ _ (le_refl _)

theorem implementationClosure_ok (modules : Modules) (order : Worklist.Order Text) (canonicalDigest : Text →
    Text)
    (rootModule : Text) :
    ∃ found, modules.implementationClosure order canonicalDigest rootModule = .ok found ∧
      ∀ name digest, (name, digest) ∈ found ↔ modules.Finds rootModule name ∧
        ∃ module, modules.get? name = some module ∧ canonicalDigest module.source = digest := by
  obtain ⟨visited, hVisited⟩ := exists_walk modules order rootModule
  obtain ⟨-, hFound⟩ := Worklist.walk_eq_some _ (Worklist.frontier_begin rootModule) hVisited
  unfold implementationClosure
  rw [hVisited]
  refine ⟨_, rfl, fun name digest => ?_⟩
  rw [(perm_insertionSort _ _).mem_iff, mem_filterMap]
  constructor
  · rintro ⟨name', hName, hSome⟩
    obtain ⟨module, hModule, hEq⟩ := Option.map_eq_some_iff.mp hSome
    cases hEq
    exact ⟨(hFound name).mp hName, module, hModule, rfl⟩
  · rintro ⟨hFinds, module, hModule, rfl⟩
    exact ⟨name, (hFound name).mpr hFinds, by rw [hModule]; rfl⟩

/-- The closure holds the source of everything that can run iff what the walk misses is found on
another way. -/
theorem implementationClosure_covers_iff (modules : Modules) (order : Worklist.Order Text)
    (canonicalDigest : Text → Text) (rootModule : Text) :
    (∃ found, modules.implementationClosure order canonicalDigest rootModule = .ok found ∧
      ∀ name module, modules.CanRun rootModule name → modules.get? name = some module →
        (name, canonicalDigest module.source) ∈ found) ↔ modules.FindsElsewhere rootModule := by
  obtain ⟨found, hFound, hMem⟩ := implementationClosure_ok modules order canonicalDigest rootModule
  constructor
  · rintro ⟨found', hFound', hCovers⟩
    cases hFound.symm.trans hFound'
    have hFinds (name : Text) (hRuns : modules.CanRun rootModule name)
        (hKnown : name ∈ modules.entries.keys) : modules.Finds rootModule name := by
      obtain ⟨module, hModule⟩ := exists_get? hKnown
      exact ((hMem _ _).mp (hCovers name module hRuns hModule)).1
    refine ⟨fun package hPackage hKnown => ?_, fun name other hRuns hMisses hKnown => ?_⟩
    · exact hFinds package ⟨package, .inr hPackage, hKnown, .refl⟩ hKnown
    · obtain ⟨first, hFirst, hFirstKnown, hReaches⟩ := hRuns
      exact hFinds other ⟨first, hFirst, hFirstKnown, hReaches.tail (hMisses.runs hKnown)⟩ hKnown
  · intro hElsewhere
    refine ⟨found, hFound, fun name module hRuns hModule => ?_⟩
    refine (hMem _ _).mpr ⟨?_, module, hModule, rfl⟩
    obtain ⟨first, hFirst, hKnown, hReaches⟩ := hRuns
    induction hReaches generalizing module with
    | refl =>
      rcases hFirst with rfl | hPackage
      · exact .refl
      · exact hElsewhere.packages _ hPackage hKnown
    | tail hBefore hStep ih =>
      obtain ⟨previous, hPrevious, -⟩ := id hStep
      rcases hStep.found_or_missed with hFinds | hMisses
      · exact (ih previous hPrevious).tail hFinds
      · exact hElsewhere.missed _ _ ⟨first, hFirst, hKnown, hBefore⟩ hMisses (mem_keys_of_get? hModule)

def elseModules : Modules where
  entries := [
    (py "ici.fast", {
      source := py "if TYPE_CHECKING:\n    import ici.types\nelse:\n    import ici.impl\n"
      tree := [.ifElse (.name (py "TYPE_CHECKING")) [.statement (.absolute [py "ici.types"])]
        [.statement (.absolute [py "ici.impl"])]] }),
    (py "ici.impl", { source := py "VALUE = 1\n", tree := [.other []] })]
  ici := by decide

theorem not_covers_else :
    ¬∃ found, elseModules.implementationClosure ⟨id, List.Perm.refl⟩ id (py "ici.fast") = .ok found ∧
      ∀ name module, elseModules.CanRun (py "ici.fast") name → elseModules.get? name = some module →
        (name, id module.source) ∈ found := by
  rintro ⟨found, hFound, hCovers⟩
  have hOnly : (elseModules.implementationClosure ⟨id, List.Perm.refl⟩ id (py "ici.fast")).map
      (·.map Prod.fst) = .ok [py "ici.fast"] := by
    decide +kernel
  rw [hFound] at hOnly
  have hRuns : elseModules.Runs (py "ici.fast") (py "ici.impl") :=
    ⟨_, rfl, .absolute [py "ici.impl"], mem_singleton.mpr rfl, py "ici.impl",
      mem_singleton.mpr rfl, .inl rfl, by decide⟩
  have hIn := hCovers (py "ici.impl") _ ⟨py "ici.fast", .inl rfl, by decide, .single hRuns⟩ rfl
  have hNames : found.map Prod.fst = [py "ici.fast"] := Except.ok.inj hOnly
  have hName : py "ici.impl" ∈ found.map Prod.fst := mem_map_of_mem hIn
  rw [hNames] at hName
  exact absurd hName (by decide)

end Modules

end Ici
