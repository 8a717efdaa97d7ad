import Ici.Analysis.CoverageSupport
import Ici.Execution.Process

/-! # Reading a run: what every provider shares -/

namespace Ici

open Python Observation

structure ProviderPlan where
  task : TaskSpec
  contract : ExitContract := {}
deriving DecidableEq

structure ParsedOutput where
  findings : List Finding := []
  measurements : List Measurement := []
  limitations : List Text := []
  failedToParse : Text := []

structure Provider where
  name : Text
  parse : TaskOutcome → Result ParsedOutput

def stateFor (outcome : TaskOutcome) : TaskState :=
  match outcome.outcome with
  | .cancelled => .cancelled
  | .startFailed => .blocked
  | _ => .failed

def limitationOf (outcome : TaskOutcome) (interpretation : Interpretation) : Result Text :=
  if interpretation = .failed then do
    let code ← strInt outcome.exitCode
    return outcome.spec.val.name ++ py " failed with exit code " ++ code
  else
    let detail := if outcome.detail = [] then [] else py ": " ++ outcome.detail
    .ok (outcome.spec.val.name ++ py " " ++ outcome.outcome.value ++ detail)

/-- Turn one run into an observation. A run that is no answer never reaches the parser. -/
def observe (provider : Provider) (plan : ProviderPlan) (outcome : TaskOutcome) : Result Observation := do
  let interpretation := plan.contract.read outcome
  if !interpretation.isAnAnswer then
    let signal ← match outcome.signal with
      | some number => (strInt number).map some
      | none => .ok none
    let limitation ← limitationOf outcome interpretation
    make {
      taskId := plan.task.val.id
      provider := provider.name
      state := stateFor outcome
      exitCode := some outcome.exitCode
      signal := signal
      timedOut := outcome.outcome = .timedOut
      truncated := outcome.truncated
      durationSeconds := some outcome.duration
      limitations := [limitation] }
  else
    let read ← provider.parse outcome
    if read.failedToParse ≠ [] then
      make {
        taskId := plan.task.val.id
        provider := provider.name
        state := .failed
        exitCode := some outcome.exitCode
        timedOut := outcome.outcome = .timedOut
        truncated := outcome.truncated
        durationSeconds := some outcome.duration
        limitations := [read.failedToParse] }
    else
      make {
        taskId := plan.task.val.id
        provider := provider.name
        state := .succeeded
        findings := read.findings
        measurements := read.measurements
        exitCode := some outcome.exitCode
        timedOut := outcome.outcome = .timedOut
        truncated := outcome.truncated
        durationSeconds := some outcome.duration
        limitations := read.limitations }

def unavailable (providerName taskId reason : Text) (state : TaskState) : Result Observation :=
  make {
    taskId := taskId, provider := providerName, state := state, limitations := [reason] }

theorem exists_unavailable_iff {providerName taskId reason : Text} {state : TaskState} :
    (∃ o, unavailable providerName taskId reason state = .ok o) ↔
      IsIdentifier taskId ∧ IsIdentifier providerName ∧ IsText reason := by
  unfold unavailable make
  rw [Checked.exists_construct_iff, ObservationFields.check_eq_ok_iff]
  simp

end Ici

/-! ## Reading gcov evidence after the shared instrumented run -/

namespace Ici

open Python

/-- A file of the work directory named `*.gcov.json.gz`, as reading it ends. -/
inductive ReportFile where
  | report (stored : GcovReport)
  | rejected (error : GcovJsonError)
  | unreadable (message : Text)
deriving DecidableEq

abbrev WorkDirectory := Dict Text ReportFile

/-- Every run leaves its files; the runner makes the directory and empties it never. -/
def WorkDirectory.afterRuns (runs : List (List (Text × ReportFile))) : WorkDirectory :=
  runs.foldl Dict.setAll []

structure GcovCounts where
  coveredLines : ℕ := 0
  totalLines : ℕ := 0
  coveredBranches : ℕ := 0
  totalBranches : ℕ := 0
  coveredFunctions : ℕ := 0
  totalFunctions : ℕ := 0
deriving DecidableEq

namespace GcovProvider

def rejectedText (error : GcovJsonError) : Text :=
  py "gcov evidence rejected (" ++ error.code ++ py "): " ++ error.code ++ py ": " ++ error.message

/-- `parse_gcov_json_file`, a failure as `parse` words it. -/
def readReport (file : ReportFile) : Except Text GcovReport :=
  match file with
  | .report stored => (parseGcovJsonGz maxCompressedBytes maxDecompressedBytes stored).mapError rejectedText
  | .rejected error => .error (rejectedText error)
  | .unreadable message => .error (py "gcov report unreadable: " ++ message)

section

variable (counts : GcovCounts)

def addFile (file : GcovFile) : GcovCounts where
  coveredLines := counts.coveredLines + file.lines.countP (0 < ·.count)
  totalLines := counts.totalLines + file.lines.length
  coveredBranches := counts.coveredBranches + (file.lines.flatMap (·.branches)).countP (0 < ·.count)
  totalBranches := counts.totalBranches + (file.lines.flatMap (·.branches)).length
  coveredFunctions := counts.coveredFunctions + file.functions.countP (0 < ·.executionCount)
  totalFunctions := counts.totalFunctions + file.functions.length

def addReport (file : ReportFile) : Except Text GcovCounts :=
  (readReport file).map fun report => report.files.foldl addFile counts

def noLineData : Text := py "gcov reports held no line data"

def requireLines : Except Text GcovCounts :=
  if counts.totalLines = 0 then .error noLineData else .ok counts

/-- The loop of `parse` over the sorted reports. -/
def count (directory : WorkDirectory) : Except Text GcovCounts :=
  let reports := (directory.insertionSort (·.1 ≤ ·.1)).map Prod.snd
  if reports = [] then
    .error (py "gcov produced no reports — the .gcda are absent or the binaries were never instrumented")
  else (reports.foldlM addReport {}).bind requireLines

def measurement (name : Text) (covered total : ℕ) : Result Measurement :=
  Checked.construct MeasurementFields.check
    { name
      value := if total = 0 then Double.zero else percentage covered total
      unit := py "%"
      numerator := if total = 0 then none else some covered
      denominator := if total = 0 then none else some total
      evidence := .measured }

def measurements : Result (List Measurement) := do
  let functions ←
    if counts.totalFunctions = 0 then .ok []
    else (measurement (py "coverage.cpp.functions") counts.coveredFunctions counts.totalFunctions).map (· ::
      [])
  let lines ← measurement (py "coverage.cpp.lines") counts.coveredLines counts.totalLines
  let branches ← measurement (py "coverage.cpp.branches") counts.coveredBranches counts.totalBranches
  return functions ++ [lines, branches]

end

def staleText : Text := py "gcov reported stale instrumentation (.gcda/.gcno mismatch)"

def answer (outcome : TaskOutcome) (counted : Except Text GcovCounts) : Result ParsedOutput :=
  match counted with
  | .error text => .ok { failedToParse := text }
  | .ok counts =>
    (measurements counts).map fun measured =>
      { measurements := measured
        limitations :=
          if py "stamp mismatch" <:+: outcome.stderr ∨ py "version mismatch" <:+: outcome.stderr then
            [staleText]
          else [] }

def parse (outcome : TaskOutcome) (directory : WorkDirectory) : Result ParsedOutput :=
  if !outcome.outcome.ranToCompletion then
    .ok { failedToParse := outcome.spec.val.name ++ py " did not finish" }
  else answer outcome (count directory)

end GcovProvider

def Coverage.counts (coverage : Coverage) : GcovCounts where
  coveredLines := (coverage.rows.map (·.covered)).sum
  totalLines := (coverage.rows.map (·.stmts)).sum
  coveredBranches := (coverage.rows.map (·.cb)).sum
  totalBranches := (coverage.rows.map (·.nb)).sum
  coveredFunctions := coverage.functionRows.countP (·.covered)
  totalFunctions := coverage.functionRows.length

end Ici
