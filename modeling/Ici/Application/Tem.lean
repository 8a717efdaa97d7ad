import Ici.Domain.Observation
import Ici.Languages.Registries
import Ici.Library.Dict
import Ici.Library.Substrings

/-! # TEM, the weighted test-effectiveness score

One versioned formula. Scores of components merge through raw counts only. -/

namespace Ici

open Python

def formulaVersion : Text := py "tem/1"

def maxScore : Double := .ofRat 5

def coverageCap : Double := .ofRat 80

def branchToLine : Double := .ofRat (5 / 4)

structure TemInputs where
  passed : ℤ := 0
  total : ℤ := 0
  lineCoverage : Option Double := none
  branchCoverage : Option Double := none
  functionCoverage : Option Double := none
  estimatedCoverage : Option Double := none

structure ComponentCounts where
  name : Text
  passed : ℤ := 0
  total : ℤ := 0
  coveredLines : Option ℤ := none
  totalLines : Option ℤ := none
  coveredBranches : Option ℤ := none
  totalBranches : Option ℤ := none
  coveredFunctions : Option ℤ := none
  totalFunctions : Option ℤ := none

structure TemResult where
  score : Option Double := none
  formula : Text := formulaVersion
  passRate : Double := .zero
  coverageLabel : Text := []
  coverageShown : Option Double := none
  estimated : Bool := false
  reason : Text := []

def coverageFactor (percent : Double) : Double := (coverageCap.pyMin percent).divConst 80

/-- The coverage that feeds the score: its factor, its label, what is shown, and whether it is an
estimate. -/
def TemInputs.coverage (inputs : TemInputs) : Option (Double × Text × Double × Bool) :=
  match inputs.lineCoverage, inputs.branchCoverage, inputs.estimatedCoverage with
  | some line, _, _ => some (coverageFactor line, py "Line", line, false)
  | none, some branch, _ => some (coverageFactor (branch.mul branchToLine), py "Branch", branch, false)
  | none, none, some estimate => some (coverageFactor estimate, py "Line", estimate, true)
  | none, none, none => none

/-- `calculate`: the formula, or why it is refused. -/
def calculate (inputs : TemInputs) : Result TemResult := do
  if inputs.passed < 0 ∨ inputs.total < 0 ∨ inputs.total < inputs.passed then
    let passed ← strInt inputs.passed
    let total ← strInt inputs.total
    return { reason := py "invalid test counts (passed=" ++ passed ++ py ", total=" ++ total ++ py ")" }
  else do
    let passRate ← if inputs.total = 0 then pure Double.zero
      else Double.trueDiv inputs.passed inputs.total
    match inputs.coverage with
    | none => return { passRate, reason := py "no coverage evidence — the score is not computed" }
    | some (factor, label, shown, estimated) =>
      match inputs.functionCoverage with
      | none => return {
          passRate
          coverageLabel := label
          coverageShown := some shown
          estimated
          reason := py "function coverage was not measured — the score is not computed" }
      | some functions =>
        let score := ((factor.mul (functions.divConst 100)).mul passRate).mul maxScore
        return {
          score := some (Double.zero.pyMax (maxScore.pyMin (score.roundTo 2)))
          passRate := passRate.roundTo 4
          coverageLabel := label
          coverageShown := some shown
          estimated }

/-! ## Reading measurements -/

def isCases (item : Measurement) : Bool :=
  endsWith (py ".cases") item.val.name && item.val.denominator.any (· ≠ 0)

def isCoverageOf (what : Text) (item : Measurement) : Bool :=
  item.val.name = py "coverage." ++ what || item.val.name = py "coverage.cpp." ++ what

def coveragePercent (item : Measurement) : Result Double :=
  match item.val.numerator, item.val.denominator with
  | some numerator, some denominator =>
    if denominator = 0 then .ok item.val.value
    else (Double.trueDiv numerator denominator).map (·.mul (.ofRat 100))
  | _, _ => .ok item.val.value

def readInput (inputs : TemInputs) (item : Measurement) : Result TemInputs := do
  if isCases item then
    return { inputs with
      passed := inputs.passed + item.val.numerator.getD 0
      total := inputs.total + item.val.denominator.getD 0 }
  else if isCoverageOf (py "lines") item then do
    let percent ← coveragePercent item
    return { inputs with lineCoverage := some percent }
  else if isCoverageOf (py "branches") item then do
    let percent ← coveragePercent item
    return { inputs with branchCoverage := some percent }
  else if isCoverageOf (py "functions") item then do
    let percent ← coveragePercent item
    return { inputs with functionCoverage := some percent }
  else return inputs

def inputsFrom (measurements : List Measurement) : Result TemInputs :=
  measurements.foldlM readInput {}

def readCount (counts : ComponentCounts) (item : Measurement) : ComponentCounts :=
  if isCases item then
    { counts with
      passed := counts.passed + item.val.numerator.getD 0
      total := counts.total + item.val.denominator.getD 0 }
  else if isCoverageOf (py "lines") item then
    { counts with
      coveredLines := item.val.numerator
      totalLines := item.val.denominator }
  else if isCoverageOf (py "branches") item then
    { counts with
      coveredBranches := item.val.numerator
      totalBranches := item.val.denominator }
  else if isCoverageOf (py "functions") item then
    { counts with
      coveredFunctions := item.val.numerator
      totalFunctions := item.val.denominator }
  else counts

def countsFrom (name : Text) (measurements : List Measurement) : ComponentCounts :=
  measurements.foldl readCount { name }

/-- `component_of`: what stands before the language in `{component}.{check}`. -/
def componentOf (taskId : Text) : Text :=
  match before? (py ".python.") taskId, before? (py ".cpp.") taskId with
  | some component, _ => component
  | none, some component => component
  | none, none => []

def sums (pairs : List (Option ℤ × Option ℤ)) : ℤ × ℤ :=
  ((pairs.filterMap Prod.fst).sum, (pairs.filterMap Prod.snd).sum)

def percentOf (pairs : List (Option ℤ × Option ℤ)) : Result (Option Double) :=
  if (sums pairs).2 = 0 then .ok none
  else (Double.trueDiv (sums pairs).1 (sums pairs).2).map fun ratio => some (ratio.mul (.ofRat 100))

namespace ComponentCounts

section

variable (counts : ComponentCounts)

def mergeable : Bool :=
  counts.coveredLines.isSome || counts.coveredBranches.isSome

def lines : Option ℤ × Option ℤ := (counts.coveredLines, counts.totalLines)

def branches : Option ℤ × Option ℤ :=
  (counts.coveredBranches, counts.totalBranches)

def functions : Option ℤ × Option ℤ :=
  (counts.coveredFunctions, counts.totalFunctions)

end

end ComponentCounts

/-- `aggregate`: one input for the workspace, and the components that are not in it. -/
def aggregate (components : List ComponentCounts) : Result (TemInputs × List Text) := do
  let mergeable := components.filter (·.mergeable)
  let excluded := (components.filter (!·.mergeable)).map (·.name)
  if mergeable = [] then return ({}, excluded)
  else do
    let lineCoverage ← percentOf (mergeable.map (·.lines))
    let branchCoverage ← percentOf (mergeable.map (·.branches))
    let functionCoverage ←
      if mergeable.all fun item => item.coveredFunctions.isSome && item.totalFunctions.isSome then
        percentOf (mergeable.map (·.functions))
      else pure none
    return ({
      passed := (mergeable.map (·.passed)).sum
      total := (mergeable.map (·.total)).sum
      lineCoverage
      branchCoverage
      functionCoverage }, excluded)

end Ici

/-! ## The run's TEM, one score for each component

The measurements of a task are filed under the component its id names. The id joins the component to
the check, and the component is read back from it by a search for the language. -/

namespace Ici

open Option List Python

/-! ## The metrics of a run -/

def temGroups (observations : List Observation) : Dict Text (List Measurement) :=
  (Dict.groupBy (fun observation : Observation => componentOf observation.val.taskId) observations).map
    fun group => (group.1, group.2.flatMap (·.val.measurements))

structure TemReport where
  metrics : List Measurement := []
  limitations : List Text := []
  components : List ComponentCounts := []

def TemResult.unit (result : TemResult) : Text :=
  formulaVersion ++ py " " ++ result.coverageLabel ++ if result.estimated then py " est" else []

namespace TemReport

def addComponent (report : TemReport) (group : Text × List Measurement) : Result TemReport := do
  let inputs ← inputsFrom group.2
  let result ← calculate inputs
  let label := if group.1 = [] then py "workspace" else group.1
  match result.score with
  | none => return { report with
      limitations := report.limitations ++ [label ++ py ": TEM N/A — " ++ result.reason] }
  | some score => do
    let metric ← Checked.construct MeasurementFields.check
      { name := py "tem." ++ label, value := score, unit := result.unit }
    return { report with
      metrics := report.metrics ++ [metric]
      components := report.components ++ [countsFrom label group.2] }

def addWorkspace (report : TemReport) : Result (List Measurement × List Text) :=
  if report.components.length ≤ 1 then return (report.metrics, report.limitations)
  else do
    let (merged, excluded) ← aggregate report.components
    let workspace ← calculate merged
    let metrics ← match workspace.score with
      | none => pure report.metrics
      | some score => do
        let metric ← Checked.construct MeasurementFields.check
          { name := py "tem.workspace", value := score, unit := formulaVersion }
        pure (report.metrics ++ [metric])
    let left := excluded.map (· ++ py ": excluded from workspace TEM — no raw coverage counts")
    let refused := if workspace.score = none then [py "workspace: TEM N/A — " ++ workspace.reason] else []
    return (metrics, report.limitations ++ left ++ refused)

end TemReport

/-- What `tem_metrics` makes of the groups, in the order of their names. -/
def temScores (grouped : Dict Text (List Measurement)) : Result (List Measurement × List Text) := do
  let report ← (grouped.insertionSort (·.1 ≤ ·.1)).foldlM TemReport.addComponent {}
  report.addWorkspace

def temMetrics (observations : List Observation) : Result (List Measurement × List Text) :=
  temScores (temGroups observations)

/-- The id of a check's task under a component, as `_plan_for` writes it. -/
def prefixedTaskId (taskPrefix : Text) (check : CheckDefinition) : Text :=
  if taskPrefix = [] then check.id else taskPrefix ++ py "." ++ check.id

structure PackTask where
  component : Text
  check : CheckDefinition
  /-- What an expansion adds to the id: a suite, a build, a probe. -/
  expansion : Option Text := none
  component_isIdentifier : IsIdentifier component
  check_mem : check ∈ pythonChecks ++ cppChecks

namespace PackTask

def suffix (task : PackTask) : Text := task.expansion.elim [] (py "." ++ ·)

def taskId (task : PackTask) : Text := prefixedTaskId task.component task.check ++ task.suffix

/-- No language is named where the search would meet it before the check's own. -/
def Recoverable (task : PackTask) : Prop :=
  ¬py ".python." <:+: task.component ++ py "." ∧
    (task.check ∈ cppChecks →
      ¬py ".cpp." <:+: task.component ++ py "." ∧ ¬py ".python." <:+: task.suffix)

end PackTask

/-! ## Reading the component back -/

theorem componentOf_python_iff (component rest : Text) :
    componentOf (component ++ py ".python." ++ rest) = component ↔
      ¬py ".python." <:+: component ++ py "." := by
  have hFound : before? (py ".python.") (component ++ py ".python." ++ rest) ≠ none := by
    rw [Ne, before?_eq_none_iff (by decide), not_not]
    exact infix_append _ _ _
  have hAt : before? (py ".python.") (component ++ py ".python." ++ rest) = some component ↔
      ¬py ".python." <:+: component ++ py "." :=
    @before?_delimited_iff (0x2e) (py "python") (by decide) component rest
  obtain ⟨found, hSome⟩ := ne_none_iff_exists'.mp hFound
  rw [← hAt, componentOf, hSome, some_inj]

theorem componentOf_cpp_iff (component rest : Text) :
    componentOf (component ++ py ".cpp." ++ rest) = component ↔
      ¬py ".python." <:+: component ++ py ".cpp." ++ rest ∧ ¬py ".cpp." <:+: component ++ py "." := by
  have hAt : before? (py ".cpp.") (component ++ py ".cpp." ++ rest) = some component ↔
      ¬py ".cpp." <:+: component ++ py "." :=
    @before?_delimited_iff (0x2e) (py "cpp") (by decide) component rest
  have hFound : before? (py ".cpp.") (component ++ py ".cpp." ++ rest) ≠ none := by
    rw [Ne, before?_eq_none_iff (by decide), not_not]
    exact infix_append _ _ _
  rw [← before?_eq_none_iff (by decide), ← hAt]
  obtain ⟨found, hSome⟩ := ne_none_iff_exists'.mp hFound
  cases hPython : before? (py ".python.") (component ++ py ".cpp." ++ rest) with
  | none =>
    rw [componentOf, hPython, hSome, some_inj]
    exact (and_iff_right rfl).symm
  | some earlier =>
    -- a python marker right after the component would be the cpp one
    refine iff_of_false ?_ fun h => nomatch h.1
    rw [componentOf, hPython]
    intro hEarlier
    obtain rfl : earlier = component := hEarlier
    obtain ⟨tail, hTail⟩ := before?_eq_some hPython
    rw [append_assoc, append_assoc, append_cancel_left_eq] at hTail
    have hLetter : (py ".cpp." ++ rest)[1]? = (py ".python." ++ tail)[1]? := congrArg (·[1]?) hTail
    rw [getElem?_append_left (by decide), getElem?_append_left (by decide)] at hLetter
    exact absurd hLetter (by decide)

theorem python_id {check : CheckDefinition} (h : check ∈ pythonChecks) : py "python." <+: check.id := by
  revert check
  simp only [pythonChecks, forall_mem_cons]
  decide

theorem cpp_id {check : CheckDefinition} (h : check ∈ cppChecks) :
    py "cpp." <+: check.id ∧ ¬py ".python." <:+: py "." ++ check.id ++ py "." := by
  revert check
  simp only [cppChecks, forall_mem_cons]
  decide

namespace PackTask

theorem taskId_eq (task : PackTask) :
    task.taskId = task.component ++ py "." ++ task.check.id ++ task.suffix := by
  have hNonempty : task.component ≠ [] := task.component_isIdentifier.isText.1
  rw [taskId, prefixedTaskId, if_neg hNonempty]

theorem python_notMem_cpp {check : CheckDefinition} (h : check ∈ pythonChecks) : check ∉ cppChecks := by
  intro hCpp
  obtain ⟨v, hv⟩ := python_id h
  obtain ⟨w, hw⟩ := (cpp_id hCpp).1
  have hLetter : (py "python." ++ v)[0]? = (py "cpp." ++ w)[0]? := congrArg (·[0]?) (hv.trans hw.symm)
  rw [getElem?_append_left (by decide), getElem?_append_left (by decide)] at hLetter
  exact absurd hLetter (by decide)

theorem python_infix_iff (task : PackTask) (h : task.check ∈ cppChecks) : py ".python." <:+: task.taskId ↔
      py ".python." <:+: task.component ++ py "." ∨ py ".python." <:+: task.suffix := by
  have hId : ¬py ".python." <:+: py "." ++ task.check.id ++ py "." := (cpp_id h).2
  have hSplit (u v : Text) : py ".python." <:+: u ++ py "." ++ v ↔
      py ".python." <:+: u ++ py "." ∨ py ".python." <:+: py "." ++ v := by
    rw [append_assoc]
    exact @delimited_infix_append_iff (0x2e) (py "python") (by decide) u v
  have hTail : py ".python." <:+: py "." ++ (task.check.id ++ task.suffix) ↔
      py ".python." <:+: task.suffix := by
    cases hExpansion : task.expansion with
    | none =>
      have hSuffix : task.suffix = [] := by rw [suffix, hExpansion, elim_none]
      rw [hSuffix, append_nil]
      exact iff_of_false (fun hIn => hId (infix_append_of_infix_left hIn)) (by decide)
    | some name =>
      have hSuffix : task.suffix = py "." ++ name := by rw [suffix, hExpansion, elim_some]
      rw [hSuffix, ← append_assoc, ← append_assoc, hSplit, or_iff_right hId]
  rw [taskId_eq, append_assoc, hSplit, hTail]

theorem recovered_iff (task : PackTask) : componentOf task.taskId = task.component ↔ task.Recoverable := by
  rcases mem_append.mp task.check_mem with hPython | hCpp
  · obtain ⟨name, hName⟩ := python_id hPython
    have hShape : task.taskId = task.component ++ py ".python." ++ (name ++ task.suffix) := by
      rw [taskId_eq, ← hName]
      simp only [append_assoc]
      rfl
    rw [hShape, componentOf_python_iff, Recoverable]
    exact (and_iff_left fun hCpp => absurd hCpp (python_notMem_cpp hPython)).symm
  · obtain ⟨name, hName⟩ := (cpp_id hCpp).1
    have hShape : task.taskId = task.component ++ py ".cpp." ++ (name ++ task.suffix) := by
      rw [taskId_eq, ← hName]
      simp only [append_assoc]
      rfl
    rw [hShape, componentOf_cpp_iff, ← hShape, python_infix_iff task hCpp, Recoverable]
    tauto

end PackTask

structure MeasuredTask where
  task : PackTask
  observation : Observation
  taskId_agrees : observation.val.taskId = task.taskId

def componentGroups (measured : List MeasuredTask) : Dict Text (List Measurement) :=
  (Dict.groupBy (fun item : MeasuredTask => item.task.component) measured).map fun group =>
    (group.1, group.2.flatMap (·.observation.val.measurements))

/-- The component is read back from every task id, every observation's measurements are filed under the
component they were measured in, and no two components share a score. -/
def FiledByComponent (measured : List MeasuredTask) : Prop :=
  (∀ item ∈ measured, componentOf item.observation.val.taskId = item.task.component) ∧
    temMetrics (measured.map (·.observation)) = temScores (componentGroups measured) ∧
    ∀ item ∈ measured, ∀ other ∈ measured,
      componentOf item.observation.val.taskId = componentOf other.observation.val.taskId →
        item.task.component = other.task.component

theorem temGroups_eq {measured : List MeasuredTask}
    (h : ∀ item ∈ measured, componentOf item.observation.val.taskId = item.task.component) :
    temGroups (measured.map (·.observation)) = componentGroups measured := by
  have hGroup := Dict.groupBy_map (fun observation : Observation => componentOf observation.val.taskId)
    (fun item : MeasuredTask => item.observation) measured
  have hKey := @Dict.groupBy_congr _ _ _
    ((fun observation : Observation => componentOf observation.val.taskId) ∘ fun item : MeasuredTask =>
      item.observation) (fun item => item.task.component) _ h
  rw [temGroups, componentGroups, hGroup, List.map_map, hKey]
  refine map_congr_left fun group _ => ?_
  simp only [Function.comp_apply, flatMap_map]

theorem filed_by_component_iff (measured : List MeasuredTask) :
    FiledByComponent measured ↔ ∀ item ∈ measured, item.task.Recoverable := by
  have hRecovered : (∀ item ∈ measured, componentOf item.observation.val.taskId = item.task.component) ↔
      ∀ item ∈ measured, item.task.Recoverable := by
    refine forall₂_congr fun item _ => ?_
    rw [item.taskId_agrees, item.task.recovered_iff]
  rw [← hRecovered]
  refine ⟨fun h => h.1, fun h => ⟨h, ?_, fun item hItem other hOther hSame => ?_⟩⟩
  · rw [temMetrics, temGroups_eq h]
  · rwa [h item hItem, h other hOther] at hSame

/-- A component named after the other's python part: both tasks are read as the first's. -/
theorem components_merged : ¬∀ (component : Text) (check : CheckDefinition), IsIdentifier component →
      check ∈ pythonChecks ++ cppChecks → componentOf (prefixedTaskId component check) = component := by
  intro h
  have hTools := h (py "app.python.tools") pythonLintCheck (by decide) (by decide +kernel)
  have hApp := h (py "app") pythonLintCheck (by decide) (by decide +kernel)
  have hSame : componentOf (prefixedTaskId (py "app.python.tools") pythonLintCheck) =
      componentOf (prefixedTaskId (py "app") pythonLintCheck) := by decide
  rw [hTools, hApp] at hSame
  exact absurd hSame (by decide)

end Ici
