import Mathlib.Data.List.Sort
import Ici.Library.Tallying
import Ici.Library.PurePaths
import Ici.Library.Worklist

/-! # What code an engine is made of

The identity of an implementation is the closure of its module under the imports its source shows. -/

namespace Ici

open Python

/-! ## Syntax -/

inductive ImportStatement where
  | absolute (names : List Text)
  | «from» (module : Option Text) (names : List Text) (level : ℕ)
deriving DecidableEq

/-- A syntax tree, of which nothing is kept but imports, tests and what is nested. -/
inductive AstNode where
  | statement (statement : ImportStatement)
  | ifElse (test : AstNode) (body orelse : List AstNode)
  | name (id : Text)
  | attributeOf (value : AstNode) (attr : Text)
  | other (children : List AstNode)

def AstNode.isTypeChecking : AstNode → Bool
  | name id => id == py "TYPE_CHECKING"
  | attributeOf _ attr => attr == py "TYPE_CHECKING"
  | _ => false

/-- A module: `isPackage` says that its source is an `__init__`, `exports` is its `__all__`. -/
structure SourceModule where
  isPackage : Bool := false
  exports : List Text := []
  source : Text
  tree : List AstNode

def isIci (name : Text) : Bool := name == py "ici" || (py "ici.").isPrefixOf name

structure Modules where
  entries : Dict Text SourceModule
  ici : ∀ name ∈ entries.keys, isIci name = true

def Modules.get? (modules : Modules) (name : Text) : Option SourceModule := modules.entries.get? name

def submodule (package name : Text) : Text := package ++ py "." ++ name

/-! ## What the walk finds -/

mutual

/-- `_collect_ici_imports`: the statements it comes by below a node. -/
def collectIciImports : AstNode → List ImportStatement
  | .statement _ => []
  | .ifElse test body orelse => collectChild test ++ collectChildren body ++ collectChildren orelse
  | .name _ => []
  | .attributeOf value _ => collectChild value
  | .other children => collectChildren children

def collectChild : AstNode → List ImportStatement
  | .statement statement => [statement]
  | .ifElse test body orelse =>
    if test.isTypeChecking then collectBelow orelse
    else collectChild test ++ collectChildren body ++ collectChildren orelse
  | .name _ => []
  | .attributeOf value _ => collectChild value
  | .other children => collectChildren children

def collectChildren : List AstNode → List ImportStatement
  | [] => []
  | child :: rest => collectChild child ++ collectChildren rest

/-- `for statement in child.orelse: _collect_ici_imports(statement, …)`. -/
def collectBelow : List AstNode → List ImportStatement
  | [] => []
  | statement :: rest => collectIciImports statement ++ collectBelow rest

end

def importFromModule (moduleName : Text) (module : Option Text) (level : ℕ) : Option Text :=
  if level = 0 then module
  else
    let parts := splitOn 0x2e moduleName
    let base := if level < parts.length then parts.take (parts.length - level) else []
    let base := match module with
      | some name => if name = [] then base else base ++ [name]
      | none => base
    if base = [] then none else some (join (py ".") base)

def iciImportsOf (moduleName : Text) : ImportStatement → List Text
  | .absolute names => names.filter isIci
  | .from module names level =>
    match importFromModule moduleName module level with
    | none => []
    | some target =>
      if isIci target then target :: (names.filter (· ≠ py "*")).map (submodule target) else []

def staticIciImports (moduleName : Text) (module : SourceModule) : List Text :=
  Deduplication.keepFirst id [] ((collectChildren module.tree).flatMap (iciImportsOf moduleName))

namespace Modules

variable (modules : Modules)

def iciImports (name : Text) : List Text :=
  match modules.get? name with
  | some module => staticIciImports name module
  | none => []

def rounds : ℕ := 1 + Worklist.pending modules.iciImports modules.entries.keys.toFinset []

/-- `_implementation_closure`: `order` is the order sets are gone through in. -/
def implementationClosure (order : Worklist.Order Text) (canonicalDigest : Text → Text)
    (rootModule : Text) : Result (List (Text × Text)) :=
  match Worklist.walk modules.iciImports order modules.rounds [] [rootModule] with
  | none => .error noReturn
  | some visited => .ok ((visited.filterMap fun name => (modules.get? name).map fun module =>
    (name, canonicalDigest module.source)).insertionSort (·.1 ≤ ·.1))

end Modules

/-! ## What Python runs -/

mutual

def runtimeImports : AstNode → List ImportStatement
  | .statement statement => [statement]
  | .ifElse test body orelse =>
    if test.isTypeChecking then runtimeImportsOf orelse
    else runtimeImports test ++ runtimeImportsOf body ++ runtimeImportsOf orelse
  | .name _ => []
  | .attributeOf value _ => runtimeImports value
  | .other children => runtimeImportsOf children

def runtimeImportsOf : List AstNode → List ImportStatement
  | [] => []
  | node :: rest => runtimeImports node ++ runtimeImportsOf rest

end

def parentPackages (name : Text) : List Text :=
  let parts := splitOn 0x2e name
  (List.range (parts.length - 1)).map fun i => join (py ".") (parts.take (i + 1))

/-- `__package__`, in parts. -/
def packageParts (moduleName : Text) (isPackage : Bool) : List Text :=
  if isPackage then splitOn 0x2e moduleName else (splitOn 0x2e moduleName).dropLast

/-- What `from … import` imports from, where Python does not refuse it. -/
def resolvedFrom (moduleName : Text) (isPackage : Bool) (module : Option Text) (level : ℕ) : Option Text :=
  if level = 0 then module
  else
    let package := packageParts moduleName isPackage
    if package.length < level then none
    else
      let base := join (py ".") (package.take (package.length - (level - 1)))
      match module with
      | some name => if name = [] then some base else some (submodule base name)
      | none => some base

namespace Modules

variable (modules : Modules)

/-- The names a `from … import` of `target` binds: a `*` stands for what the target exports. -/
def boundNames (target : Text) (names : List Text) : List Text :=
  names.flatMap fun name =>
    if name = py "*" then (modules.get? target).elim [] SourceModule.exports else [name]

def importTargets (moduleName : Text) (isPackage : Bool) : ImportStatement → List Text
  | .absolute names => names
  | .from module names level =>
    match resolvedFrom moduleName isPackage module level with
    | none => []
    | some target => target :: (modules.boundNames target names).map (submodule target)

/-- Running the first module can run the second: as one it asks for, or as a package of one. -/
def Runs (name other : Text) : Prop :=
  ∃ module, modules.get? name = some module ∧ ∃ statement ∈ runtimeImportsOf module.tree,
    ∃ target ∈ modules.importTargets name module.isPackage statement,
      (other = target ∨ other ∈ parentPackages target) ∧ other ∈ modules.entries.keys

/-- What can run when `rootModule` is imported and used. -/
def CanRun (rootModule other : Text) : Prop :=
  ∃ first, (first = rootModule ∨ first ∈ parentPackages rootModule) ∧ first ∈ modules.entries.keys ∧
    Relation.ReflTransGen modules.Runs first other

end Modules

end Ici
