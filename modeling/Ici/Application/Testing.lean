import Ici.Application.Selection
import Ici.Library.Numbering
import Ici.Workspace.TestSuites

/-! # Expanding the checks that run what a build produced

One planned check becomes one for every suite or artifact. A missing binary is blocked, not empty. -/

namespace Ici

open Python

namespace PlannedCheck

variable {check : CheckDefinition} {taskId : Text}

/-- `PlannedCheck(check=check, task_id=task_id, blocked=reason)`. -/
def blockedAs (check : CheckDefinition) (taskId reason : Text) (h : taskId ≠ []) : PlannedCheck where
  check := check
  blocked := reason
  taskId := taskId
  taskId_ne_nil := h
  not_both hTask := absurd rfl hTask
  taskId_agrees _ hPlan := nomatch hPlan

/-- `PlannedCheck(check=check, task_id=plan.task.id, task=plan)`. -/
def ofPlan (check : CheckDefinition) (plan : ProviderPlan) : PlannedCheck where
  check := check
  task := some plan
  taskId := plan.task.val.id
  taskId_ne_nil := plan.task.id_isIdentifier.isText.1
  not_both _ := rfl
  taskId_agrees _ hPlan := by
    rw [Option.mem_some_iff.mp hPlan]

section

variable (planned : PlannedCheck)

def stopped (reason : Text) : PlannedCheck :=
  blockedAs planned.check planned.taskId reason planned.taskId_ne_nil

def partId (part : Text) : Text := planned.taskId ++ py "." ++ part

theorem partId_ne_nil (part : Text) : planned.partId part ≠ [] := by
  simp [partId, planned.taskId_ne_nil]

/-- A part of a check: the command it is planned with, or the reason it is blocked for. -/
def settle (check : CheckDefinition) (contract : ExitContract) (part : Text) :
    Except Text TaskSpecFields → Result PlannedCheck
  | .error reason => .ok (blockedAs check (planned.partId part) reason (planned.partId_ne_nil part))
  | .ok command =>
    (Checked.construct TaskSpecFields.check { command with id := planned.partId part }).map fun task =>
      ofPlan check { task := task, contract := contract }

end

end PlannedCheck

/-- `replace(check, provides=…)`, which checks the definition again. -/
def CheckDefinition.providing (check : CheckDefinition) (provides : List Text) : Result CheckDefinition :=
  if h : ∀ name ∈ check.needs, name ∉ provides then
    .ok { check with provides := provides, disjoint := h }
  else .error (valueError (py "check " ++ check.id ++ py " cannot produce an input it consumes"))

/-! ## What planning asks of the machine -/

structure TestSite where
  tree : Checkout
  root : PurePath
  componentRoot : PurePath
  /-- The component's C++ analysis unit. -/
  unit : Option AnalysisUnit
  locateTool : Text → Option Text
  environ : Text → Text
  /-- `is_elf`, by a path below the root. -/
  isElf : Text → Option Bool
  marked : Text → Text → Option Bool
  /-- `ctest_binaries`, below a build directory. -/
  ctestBinaries : Text → List Text

def anyExit : ExitContract where
  success := [0]
  findings := (List.range' 1 255).map Int.ofNat
  disjoint := by
    intro code hCode hIn
    obtain ⟨n, hn, hEq⟩ := List.mem_map.mp hIn
    obtain rfl := List.mem_singleton.mp hCode
    obtain ⟨i, -, rfl⟩ := List.mem_range'.mp hn
    exact absurd hEq (by simp; omega)

namespace TestSite

variable (site : TestSite)

def units : List Text := site.unit.toList.map (·.val.id)

/-- `str(root / path)`. -/
def place (path : Text) : Text := (site.root.join (PurePath.parse path)).asPosix

def below (buildDir path : Text) : Text := ((PurePath.parse buildDir).join (PurePath.parse path)).asPosix

section

variable (suite : TestSuite)

def testfile : Text := below suite.buildDir (py "CTestTestfile.cmake")

def binary (suite : TestSuite) : Text := below suite.buildDir suite.binary

def ctestArguments (executable buildDir : Text) : List Text :=
  [executable, py "--test-dir", site.place buildDir, py "--output-on-failure"]

/-- The tasks of `CtestProvider` and `QtestProvider`; the id is given by what they are part of. -/
def testTask (provider : Text) (argv : List Text) : TaskSpecFields where
  id := []
  kind := .analyze
  provider := provider
  argv := argv
  cwd := site.componentRoot.asPosix
  analysisUnitIds := site.units
  timeoutSeconds := some (.fin 1800)
  cacheable := false

def notConfigured : Text :=
  py "test suite not built — no CTestTestfile.cmake under " ++ suite.buildDir

def notBuilt : Text :=
  py "test binary not built — " ++ suite.binary ++ py " is absent under " ++ suite.buildDir

/-- What `expand_cpp_tests` runs for a suite. -/
def testCommand : Except Text TaskSpecFields :=
  match suite.kind with
  | .ctest =>
    match site.locateTool (py "ctest") with
    | none => .error (py "ctest is not available")
    | some executable =>
      if !site.tree.isFile (testfile suite) then .error (notConfigured suite)
      else .ok (site.testTask (py "ctest") (site.ctestArguments executable suite.buildDir))
  | .qtest =>
    if !site.tree.isFile (binary suite) then .error (notBuilt suite)
    else .ok (site.testTask (py "qtest") [site.place (binary suite)])

end

def expandCppTests (planned : PlannedCheck) (suites : List TestSuite) (component : Component) :
    Result (List PlannedCheck) :=
  if component.val.buildIds = [] then
    .ok [planned.stopped
      (py "no build unit linked — declare [builds.<id>] and attach it to the component")]
  else if suites = [] then
    .ok [planned.stopped (py "no declared test suite — cmake add_test or a testlib/testcase .pro is what declares one")]
  else suites.mapM fun suite => do
    let check ← planned.check.providing (planned.check.provides.map (· ++ py "." ++ suite.id))
    planned.settle check anyExit suite.id (site.testCommand suite)

/-! ## Sanitizers -/

def sanitizerOptions (variant : Text) : List (Text × Text) :=
  if variant = py "sanitize" then
    [(py "ASAN_OPTIONS", py "detect_leaks=1"), (py "UBSAN_OPTIONS", py "halt_on_error=1")]
  else [(py "TSAN_OPTIONS", py "halt_on_error=0")]

def sanitizerEnv (variant : Text) : List (Text × Text) :=
  (sanitizerOptions variant).map fun option =>
    (option.1, join (py ":") ([site.environ option.1, option.2].filter (· ≠ [])))

/-- The task of `SanitizeProvider`. -/
def sanitizerTask (variant : Text) (argv inputRefs : List Text) : TaskSpecFields :=
  { site.testTask variant argv with
    envOverlay := site.sanitizerEnv variant
    inputRefs := inputRefs }

section

variable (variant : Text) (suite : TestSuite)

def unmarkedSuite : Text :=
  py "no " ++ variant ++ py " instrumentation in the suite's binaries — the " ++ suite.buildDir ++
    py " build was not compiled for it"

def unmarkedBinary : Text :=
  py "no " ++ variant ++ py " instrumentation in " ++ suite.binary ++
    py " — the build was not compiled for it"

def unverifiedBinary : Text :=
  variant ++ py " instrumentation of " ++ suite.binary ++
    py " could not be verified — the binary is unreadable or too large to scan"

/-- What `expand_cpp_sanitizer` runs for a suite: one unmarked binary of several does not block it. -/
def sanitizerCommand : Except Text TaskSpecFields :=
  match suite.kind with
  | .ctest =>
    match site.locateTool (py "ctest") with
    | none => .error (py "ctest is not available")
    | some executable =>
      if !site.tree.isFile (testfile suite) then .error (notConfigured suite)
      else
        let binaries := site.ctestBinaries suite.buildDir
        if binaries = [] then
          .error (py "the suite names no test executables under " ++ suite.buildDir)
        else if binaries.all (site.marked · variant ≠ some true) then .error (unmarkedSuite variant suite)
        else .ok (site.sanitizerTask variant (site.ctestArguments executable suite.buildDir) binaries)
  | .qtest =>
    let path := site.place (binary suite)
    if !site.tree.isFile (binary suite) then .error (notBuilt suite)
    else match site.marked path variant with
      | some true => .ok (site.sanitizerTask variant [path] [path])
      | some false => .error (unmarkedBinary variant suite)
      | none => .error (unverifiedBinary variant suite)

end

def variantIds (component : Component) (builds : List BuildUnit) (variant : Text) : List Text :=
  (builds.filter fun build =>
    build.val.id ∈ component.val.buildIds ∧ build.val.variant = variant).map (·.val.id)

def expandCppSanitizer (planned : PlannedCheck) (variant : Text) (suites : List TestSuite)
    (component : Component) (builds : List BuildUnit) : Result (List PlannedCheck) :=
  let ids := variantIds component builds variant
  let variantSuites := suites.filter (·.buildId ∈ ids)
  if component.val.buildIds = [] then
    .ok [planned.stopped
      (py "no build unit linked — declare [builds.<id>] and attach it to the component")]
  else if ids = [] then
    .ok [planned.stopped (py "no " ++ variant ++ py " build — declare [builds.<id>] variant = \"" ++ variant ++
      py "\" and link it to the component")]
  else if variantSuites = [] then
    .ok [planned.stopped (py "no declared test suite under the " ++ variant ++
      py " build — a sanitizer check needs a suite to run")]
  else variantSuites.mapM fun suite =>
    planned.settle planned.check anyExit suite.id (site.sanitizerCommand variant suite)

/-- The task of `BinaryCompatProvider`. -/
def binaryTask (executable path : Text) : TaskSpecFields where
  id := []
  kind := .analyze
  provider := py "binary-compat"
  argv := [executable, py "--file-header", py "--sections", py "--dynamic", py "--version-info",
    py "--wide", path]
  cwd := site.root.asPosix
  analysisUnitIds := site.units
  inputRefs := [path]
  timeoutSeconds := some (.fin 60)
  cacheable := false

def artifactsOf (build : BuildUnit) : List Text :=
  build.val.artifacts.flatMap fun pattern =>
    ((site.tree.glob build.val.directory pattern).map (below build.val.directory)).filter fun path =>
      site.tree.isFile path && site.isElf path = some true

def linkedBuilds (component : Component) (builds : List BuildUnit) : List BuildUnit :=
  builds.filter (·.val.id ∈ component.val.buildIds)

def inspected (linked : List BuildUnit) : List (Text × Text) :=
  linked.flatMap fun build => (site.artifactsOf build).map fun path => (build.val.id, path)

def expandCppBinaryCompat (planned : PlannedCheck) (component : Component) (builds : List BuildUnit) :
    Result (List PlannedCheck) :=
  let linked := linkedBuilds component builds
  if component.val.buildIds = [] then
    .ok [planned.stopped (py "no build unit linked — artifact declarations live on [builds.<id>]")]
  else if linked.all (·.val.artifacts = []) then
    .ok [planned.stopped (py "no artifact contract — declare [builds.<id>] artifacts = [...] so the binaries to inspect are named")]
  else match site.locateTool (py "readelf") with
    | none => .ok [planned.stopped (py "readelf is not available")]
    | some executable =>
      if site.inspected linked = [] then
        .ok [planned.stopped
          (py "the artifact contract matched no ELF binaries — nothing for binary compatibility to inspect")]
      else (site.inspected linked).zipIdx.mapM fun found =>
        planned.settle planned.check anyExit
          (found.1.1 ++ py "-" ++ natDigits (found.2 + 1))
          (.ok (site.binaryTask executable (site.place found.1.2)))

end TestSite

end Ici

/-! ## Turning declared integration cases into tasks of their own

A placeholder that resolves to nothing is a blocked task with the reason named. -/

namespace Ici

open Python

/-- `text.lower()`. Above ASCII it depends on the version of Unicode. -/
abbrev Lowering := Text → Text

def stripOf (drops : CodePoint → Bool) (t : Text) : Text := (t.dropWhile drops).rdropWhile drops

/-- `[^a-z0-9._-]+`. -/
def slugBad : Pattern := .many (fun c => !isIdentifierChar c) 1 none true

def isSlugEdge (c : CodePoint) : Bool := c == 0x2d || c == 0x2e

def slugOf (lower : Lowering) (name : Text) : Text :=
  let slug := stripOf isSlugEdge (slugBad.sub (fun _ => false) (fun _ => py "-") (lower name))
  if slug = [] then py "case" else slug

def numbered (slug : Text) (counter : ℕ) : Text := slug ++ py "-" ++ natDigits counter

/-- `_slug` for one case after another. -/
def slugs (lower : Lowering) (names : List Text) : List Text :=
  Numbering.uniqueNames numbered [] (names.map (slugOf lower))

/-! ## Placeholders -/

inductive Placeholder where
  | python (name : Text)
  | artifact (identity : Text)
deriving DecidableEq

def bracketed (opening token : Text) : Option Text :=
  let body := (token.drop opening.length).dropLast
  if opening <+: token ∧ token.getLast? = some 0x7d ∧ body ≠ [] ∧ 0x7b ∉ body ∧ 0x7d ∉ body then some body
  else none

/-- `^\{(python|artifact):([^{}]+)\}$` against a whole token. -/
def readPlaceholder (token : Text) : Option Placeholder :=
  match bracketed (py "\x7bpython:") token with
  | some name => some (.python name)
  | none => (bracketed (py "\x7bartifact:") token).map .artifact

structure CaseSite where
  tree : Checkout
  root : PurePath
  componentRoot : PurePath
  component : Component
  builds : List BuildUnit
  interpreter : Option Text
  which : Text → Option Text
  resolveStrict : PurePath → Option (Text × Bool)
  /-- `time.time()` when a case is planned. -/
  clock : Text → PyFloat

namespace CaseSite

variable (site : CaseSite)

/-- `_python_target`: a declared interpreter, never ici's own. -/
def pythonTarget (name : Text) (targets : Dict Text Text) : Except Text Text :=
  if name = py "declared" then
    match site.interpreter with
    | some interpreter => .ok interpreter
    | none => .error (py "no declared Python interpreter — set [python] executable or provide a .venv the case can run under")
  else match targets.get? name with
    | none => .error (py "unknown python target " ++ pyRepr name ++ py "; declared: " ++
        join (py ", ") ((targets.keys ++ [py "declared"]).insertionSort (· ≤ ·)))
    | some target =>
      if 0x2f ∉ target then
        match site.which target with
        | some found => .ok found
        | none => .error (py "python target " ++ pyRepr name ++ py " (" ++ target ++ py ") is not on PATH")
      else match site.resolveStrict (site.root.join (PurePath.parse target)) with
        | none => .error (py "python target " ++ pyRepr name ++ py " is unavailable: " ++ target)
        | some (resolved, true) => .ok resolved
        | some (_, false) => .error (py "python target " ++ pyRepr name ++ py " is not a file: " ++ target)

def allowed : List Text :=
  (site.component.val.buildIds ++
    site.component.val.needs.filter (· ∈ site.builds.map (·.val.id))).dedup

def declaresArtifact (build : BuildUnit) (path : Text) : Bool :=
  build.val.artifacts.any fun pattern =>
    (site.tree.glob build.val.directory pattern).any fun candidate =>
      site.tree.isFile (TestSite.below build.val.directory candidate) &&
        PurePath.parse candidate = PurePath.parse path

/-- The end of `_artifact`: a file that the contract of its build names. -/
def artifactOf (build : BuildUnit) (path : Text) : Except Text Text :=
  if build.val.artifacts = [] then
    .error (py "build " ++ pyRepr build.val.id ++ py " declares no artifacts — add artifacts = [...] to [builds.<id>] so the case names a contracted output")
  else if PurePosixPath.isAbsolute path ∨ py ".." ∈ PurePosixPath.parts path then
    .error (py "artifact path " ++ pyRepr path ++ py " must stay inside the build directory")
  else if !site.declaresArtifact build path then
    .error (pyRepr path ++ py " is not covered by build " ++ pyRepr build.val.id ++
      py "'s artifact contract (" ++ join (py ", ") build.val.artifacts ++ py ")")
  else
    let found := site.tree.resolve (TestSite.below build.val.directory path)
    if ((PurePath.parse found).relativeTo (PurePath.parse (site.tree.resolve (py ".")))).isNone then
      .error (py "artifact " ++ pyRepr path ++ py " resolves outside the workspace")
    else .ok found

/-- `_artifact`. The build of an allowed id is always there in a workspace. -/
def artifact (identity : Text) : Result (Except Text Text) :=
  let (buildId, path) := (partition? (py "/") identity).getD (identity, [])
  if buildId = [] ∨ path = [] then
    .ok (.error (py "artifact placeholder " ++ pyRepr identity ++ py " must spell BUILD/PATH"))
  else if buildId ∉ site.allowed then
    let known := join (py ", ") (site.allowed.insertionSort (· ≤ ·))
    .ok (.error (py "build " ++ pyRepr buildId ++ py " is not linked to this component; linked: " ++
      if known = [] then py "none are linked" else known))
  else match site.builds.find? (·.val.id = buildId) with
    | none => .error ⟨py "StopIteration", []⟩
    | some build => .ok (site.artifactOf build path)

def resolveToken (targets : Dict Text Text) (token : Text) : Result (Except Text Text) :=
  match readPlaceholder token with
  | none => .ok (.ok token)
  | some (.python name) => .ok (site.pythonTarget name targets)
  | some (.artifact identity) => site.artifact identity

/-- `_resolve_argv`, from a place in the arguments: the first failure blocks the whole case. -/
def resolveFrom (targets : Dict Text Text) (index : ℕ) : List Text → Result (Except Text (List Text))
  | [] => .ok (.ok [])
  | token :: rest => do
    match ← site.resolveToken targets token with
    | .error blocked => return .error (py "argv[" ++ natDigits index ++ py "]: " ++ blocked)
    | .ok value => return (← resolveFrom targets (index + 1) rest).map (value :: ·)

section

variable (declared : EffectiveIntegrationCase)

def resolveArgv : Result (Except Text (List Text)) :=
  site.resolveFrom (Dict.setAll [] declared.pythonTargets) 0 declared.argv

/-! ## Tasks -/

def dumpsTexts (items : List Text) : Text :=
  py "[" ++ join (py ", ") (items.map (Json.encodeStr {})) ++ py "]"

def outputsOf : List (Text × ℤ) :=
  declared.outputArtifacts.map fun output => (site.tree.resolve output.path, output.minSize)

def dumpsOutput (output : Text × ℤ) : Result Text := do
  let size ← strInt output.2
  return py "\x7b\"path\": " ++ Json.encodeStr {} output.1 ++ py ", \"min_size\": " ++ size ++ py "\x7d"

def contractEnv : Result (List (Text × Text)) := do
  let exit ← strInt declared.expectedExit
  let outputs ← (site.outputsOf declared).mapM dumpsOutput
  return [(py "ICI_CASE", declared.name), (py "ICI_CASE_SOURCE", declared.declaredIn),
    (py "ICI_CASE_REQUIRED", if declared.required then py "1" else py "0"), (py "ICI_EXPECTED_EXIT", exit),
    (py "ICI_STDOUT_MUST", dumpsTexts declared.stdoutContains),
    (py "ICI_STDERR_MUST", dumpsTexts declared.stderrContains),
    (py "ICI_STDOUT_NEVER", dumpsTexts declared.stdoutNotContains),
    (py "ICI_STDERR_NEVER", dumpsTexts declared.stderrNotContains),
    (py "ICI_OUTPUT_ASSERTS", py "[" ++ join (py ", ") outputs ++ py "]"),
    (py "ICI_OUT_NOT_BEFORE", (site.clock declared.name).pyRepr),
    (py "ICI_REQUIRES", dumpsTexts declared.requires)]

/-- The task of `IntegrationCaseProvider`; the id is given by what it is part of. -/
def caseTask (argv : List Text) (contractEnv : List (Text × Text)) : TaskSpecFields where
  id := []
  kind := .test
  provider := py "integration"
  argv := argv
  cwd := site.componentRoot.asPosix
  envOverlay := contractEnv ++ declared.env
  requires := declared.requires
  outputSpecs := (site.outputsOf declared).map Prod.fst
  timeoutSeconds := some declared.timeoutSeconds.val
  cacheable := false

def caseCommand : Result (Except Text TaskSpecFields) := do
  match ← site.resolveArgv declared with
  | .error blocked => return .error blocked
  | .ok argv => do
    let env ← site.contractEnv declared
    return .ok (site.caseTask declared argv env)

end

def caseContract (expected : ℤ) : ExitContract where
  success := [expected]
  findings := ((List.range 256).map Int.ofNat).filter (· ≠ expected)
  disjoint := by
    intro code hCode hIn
    obtain rfl := List.mem_singleton.mp hCode
    exact of_decide_eq_true (List.mem_filter.mp hIn).2 rfl

def caseCheck (planned : PlannedCheck) (declared : EffectiveIntegrationCase) : CheckDefinition :=
  { planned.check with required := planned.check.required && declared.required }

def expandIntegration (lower : Lowering) (planned : PlannedCheck) (cases : List EffectiveIntegrationCase) :
    Result (List PlannedCheck) :=
  if cases = [] then .ok [planned.stopped (py "no integration cases declared")]
  else (cases.zip (slugs lower (cases.map (·.name)))).mapM fun pair => do
    let command ← site.caseCommand pair.1
    planned.settle (caseCheck planned pair.1) (caseContract pair.1.expectedExit) pair.2 command

def gateIntegration (lower : Lowering) (plan : Plan) (effective : EffectiveComponent) : Result Plan := do
  let expanded ← plan.val.mapM fun planned =>
    if planned.check.id ≠ py "integration" ∨ planned.blocked ≠ [] then .ok [planned]
    else site.expandIntegration lower planned effective.integrations
  Checked.construct checkPlan expanded.flatten

end CaseSite

end Ici
