import Ici.Adapters.Relocation
import Ici.Application.Graph
import Ici.Execution.CacheStoring

/-! # The evidence scope of a check

The actual selection and invocation used by baseline comparisons, told from the root of the workspace. -/

namespace Ici

open Python Json

inductive SourceRole where
  | source
  | vendor
  | generated
deriving DecidableEq

structure InventoriedFile where
  path : Text
  role : SourceRole
  units : List Text := []

structure ExternalInput where
  path : Text
  present : Bool
  files : List Text := []

structure SourceInventory where
  files : List InventoriedFile := []
  externals : List ExternalInput := []

def sourceSuffixes : List (Text × List Text) :=
  [(py "python", [py ".py"]),
    (py "rust", [py ".rs"]),
    (py "javascript", [py ".js", py ".jsx", py ".mjs", py ".cjs"]),
    (py "typescript", [py ".ts", py ".tsx", py ".mts", py ".cts"]),
    (py "cpp", [py ".c", py ".cc", py ".cpp", py ".cxx", py ".h", py ".hh", py ".hpp", py ".hxx"])]

def unitFiles (stock : SourceInventory) (unit : AnalysisUnit) (suffixes : List Text) : List Text :=
  (stock.files.filter fun item => unit.val.id ∈ item.units ∧ item.role ≠ .generated ∧
    ∃ suffix ∈ suffixes, suffix.isSuffixOf item.path = true).map (·.path)

structure CheckSite where
  root : PurePath
  stock : SourceInventory
  scope : Workspace
  component : Component
  planned : PlannedCheck
  /-- The digest of a configuration file, where it can be read. -/
  digestOf : PurePath → Option Text
  /-- How deep `json.loads` reads. -/
  nesting : ℕ

namespace CheckSite

variable (site : CheckSite)

def task : Option TaskSpecFields := site.planned.task.map (·.task.val)

def units : List AnalysisUnit :=
  site.scope.val.analysisUnits.filter fun unit => unit.val.componentId = site.component.val.id ∧
    (unit.val.language = site.planned.check.language ∨
      site.planned.check.language ∉ sourceSuffixes.map Prod.fst)

def files : List Text :=
  (site.units.flatMap fun unit => unitFiles site.stock unit
    ((Dict.get? sourceSuffixes unit.val.language).getD [[]])).dedup.insertionSort (· ≤ ·)

def sortedUnits : List AnalysisUnit := site.units.insertionSort (·.val.id ≤ ·.val.id)

def unitJson (unit : AnalysisUnit) : Json :=
  .arr [.str unit.val.id, (unit.val.variant.map .str).getD .null,
    (unit.val.runtime.map fun runtime => .str (workspaceReference runtime site.root)).getD .null,
    (unit.val.buildId.map .str).getD .null]

abbrev ExternalKey := Text ×ₗ List Text ×ₗ Bool

def externalKey (item : ExternalInput) : ExternalKey :=
  toLex (workspaceReference item.path site.root,
    toLex ((item.files.map (workspaceReference · site.root)).insertionSort (· ≤ ·), item.present))

def externals : List ExternalKey :=
  ((site.stock.externals.filter (·.path ∈ site.component.val.external)).map
    site.externalKey).dedup.insertionSort (· ≤ ·)

def externalJson (key : ExternalKey) : Json :=
  let (path, rest) := ofLex key
  let (files, present) := ofLex rest
  .arr [.str path, .arr (files.map .str), .bool present]

def buildIds : List Text :=
  site.component.val.buildIds ++ site.component.val.needs.filter (· ∉ site.scope.val.componentIds)

def builds : List BuildUnit :=
  (site.scope.val.builds.insertionSort (·.val.id ≤ ·.val.id)).filter (·.val.id ∈ site.buildIds)

def invocationJson (identity : Option Text × List Text) : Json :=
  .arr [(identity.1.map .str).getD .null, .arr (identity.2.map .str)]

def buildJson (build : BuildUnit) : Json :=
  .arr [.str build.val.id, .str build.val.system, .str build.val.variant, .str build.val.directory,
    (build.val.definition.map .str).getD .null,
    invocationJson (invocationIdentity build.val.prepareArgv
      (some (site.root.join (PurePath.parse build.val.directory))) (some site.root)),
    .arr (build.val.artifacts.map .str)]

/-! ## The environment -/

def relocateOutput (item : Json) : Json :=
  match item with
  | .obj fields =>
    match Dict.get? fields (py "path") with
    | some (.str path) => .obj (Dict.set fields (py "path") (.str (workspaceReference path site.root)))
    | _ => item
  | _ => item

def assertStyle : Json.Style where
  itemSeparator := py ","
  keySeparator := py ":"

def isOutputAsserts (provider key : Text) : Bool := provider = py "integration" && key =
    py "ICI_OUTPUT_ASSERTS"

def environmentValue (provider key value : Text) : Result Text :=
  if !isOutputAsserts provider key then .ok (workspaceReference value site.root)
  else match loads site.nesting value with
    | .error e => if isValueError e then .ok value else .error e
    | .ok (.arr outputs) => encode assertStyle (.arr (outputs.map site.relocateOutput))
    | .ok _ => .ok value

section

variable (task : TaskSpecFields)

def overlay : List (Text × Text) :=
  task.envOverlay.filter fun pair => task.provider ≠ py "integration" ∨ pair.1 ≠ py "ICI_OUT_NOT_BEFORE"

def variableOf (provider : Text) (pair : Text × Text) : Result (Text × Text) :=
  (site.environmentValue provider pair.1 pair.2).map fun value => (pair.1, value)

def environment : Result (List (Text × Text)) :=
  (overlay task).mapM (site.variableOf task.provider)

def configurationNames : List Text :=
  [py "ruff.toml", py ".ruff.toml", py "pyproject.toml", py "mypy.ini", py "setup.cfg"]

def configuration : List (Text ×ₗ Text) :=
  let path (ref : Text) := (PurePath.parse task.cwd).join (PurePath.parse ref)
  let found := task.inputRefs.filter fun ref => (path ref).names.getLast?.getD [] ∈ configurationNames
  (found.map fun ref => toLex (ref, (site.digestOf (path ref)).getD (py "unreadable"))).insertionSort (· ≤ ·)

def pairJson (pair : Text × Text) : Json := .arr [.str pair.1, .str pair.2]

/-! ## The scope -/

def taskFields (environment : List (Text × Text)) : Dict Text Json :=
  let identity := invocationIdentity task.argv (some (PurePath.parse task.cwd)) (some site.root)
  [(py "argv", .arr (identity.2.map .str)),
    (py "cwd", (identity.1.map .str).getD .null),
    (py "provider", .str task.provider),
    (py "inputs", .arr (task.inputRefs.map fun ref => .str (workspaceReference ref site.root))),
    (py "configuration", .arr ((site.configuration task).map fun pair => pairJson (ofLex pair))),
    (py "environment", .arr (environment.map pairJson)),
    (py "units", .arr (task.analysisUnitIds.map .str))]

end

def taskJson : Result Json :=
  match site.task with
  | none => .ok .null
  | some task => (site.environment task).map fun environment => .obj (site.taskFields task environment)

def contextFields (invocation : Json) : Dict Text Json :=
  [(py "files", .arr (site.files.map .str)),
    (py "units", .arr (site.sortedUnits.map site.unitJson)),
    (py "externals", .arr (site.externals.map externalJson)),
    (py "builds", .arr (site.builds.map site.buildJson)),
    (py "invocation", invocation)]

def context : Result Json := site.taskJson.map fun invocation => .obj (site.contextFields invocation)

def scopeDigest (sha256 : Sha256) : Result Text := do
  let context ← site.context
  let text ← encode {} context
  let bytes ← utf8 text
  return py "sha256:" ++ sha256 bytes

def only : Option AnalysisUnit :=
  match site.units with
  | [unit] => some unit
  | _ => none

def variant : Option Text :=
  ((site.task.bind (·.variant)).filter (· ≠ [])).or (site.only.bind (·.val.variant))

/-- The record `records` keeps of the check. -/
def record (sha256 : Sha256) (observed : Option Observation) (inputsStable : Bool) : Result CheckRecord := do
  let digest ← site.scopeDigest sha256
  Checked.construct CheckRecordFields.check
    { taskId := site.planned.taskId
      checkId := site.planned.check.id
      componentId := site.component.val.id
      language := site.planned.check.language
      scopeDigest := digest
      state := match observed with
        | some observation => observation.val.state
        | none => .blocked
      evidenceComplete := inputsStable && observed.any (·.evidenceIsComplete) &&
        site.task.all fun task => task.provider ∉ [py "clippy", py "tsc"]
      analysisUnitId := site.only.map (·.val.id)
      variant := site.variant }

end CheckSite

def CheckRecordFields.comparisonKey (record : CheckRecordFields) :
    Text × Text × Text × Text × Text × Option Text × Option Text :=
  (record.taskId, record.checkId, record.componentId, record.language, record.scopeDigest,
    record.analysisUnitId, record.variant)

end Ici
