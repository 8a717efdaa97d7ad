import Mathlib.Data.Finset.Sort
import Mathlib.Data.Prod.Lex
import Ici.Library.PurePaths
import Ici.Library.PyDouble
import Ici.Library.Tallying

/-! # The evidence of one gcov JSON report

What the strict parser lets through, up to the fields that aggregation never reads. -/

namespace Ici

open Python

structure GcovJsonError where
  code : Text
  message : Text
deriving DecidableEq

structure GcovBranch where
  count : ℕ
  destinationBlockId : Option ℕ
  fallthrough : Bool
  sourceBlockId : Option ℕ
  throw : Bool
deriving DecidableEq

structure GcovCall where
  destinationBlockId : ℕ
  returned : ℕ
  sourceBlockId : ℕ
deriving DecidableEq

structure GcovFunction where
  demangledName : Text
  endColumn : ℕ
  endLine : ℕ
  executionCount : ℕ
  name : Text
  startColumn : ℕ
  startLine : ℕ
deriving DecidableEq

structure GcovLine where
  blockIds : List ℕ
  branches : List GcovBranch
  calls : List GcovCall
  count : ℕ
  lineNumber : ℕ
  functionName : Text
deriving DecidableEq

structure GcovFile where
  file : Text
  functions : List GcovFunction
  lines : List GcovLine
deriving DecidableEq

structure GcovReport where
  currentWorkingDirectory : Text
  formatVersion : ℕ
  gccVersion : Text
  files : List GcovFile
  compressedBytes : ℕ
  decompressedBytes : ℕ
  compressed_pos : 0 < compressedBytes := by decide
  decompressed_pos : 0 < decompressedBytes := by decide
deriving DecidableEq

def maxCompressedBytes : ℕ := 8 * 1024 * 1024

def maxDecompressedBytes : ℕ := 64 * 1024 * 1024

/-- `parse_gcov_json_gz` on a file that holds a report. -/
def parseGcovJsonGz (maxCompressed maxDecompressed : ℕ) (report : GcovReport) :
    Except GcovJsonError GcovReport :=
  if maxCompressed < report.compressedBytes then
    .error { code := py "compressed_limit"
             message := py "compressed gcov JSON is larger than " ++ natDigits maxCompressed ++ py " bytes" }
  else if maxDecompressed < report.decompressedBytes then
    .error { code := py "decompressed_limit"
             message := py "decompressed JSON is larger than " ++ natDigits maxDecompressed ++
               py " bytes" }
  else .ok report

end Ici

/-! ## Aggregating gcov JSON reports

Lines are told apart by their number, branches by their place and blocks, functions by their name
and geometry. -/

namespace Ici

open Python

/-- The project: its root, the production sources, and what a path resolves to relative to the root,
where it resolves and lies inside. -/
structure SourceTree where
  root : Text
  sourceFiles : Finset Text
  relativeTo : Text → Option Text

abbrev GcovResult := Except GcovJsonError

/-- `directory / path` for a relative path. -/
def joinPath (directory path : Text) : Text := directory ++ py "/" ++ path

section

variable (tree : SourceTree) (declared compilationDirectory : Text)

def SourceTree.candidates : List Text :=
  if PurePosixPath.isAbsolute declared then [declared]
  else (if PurePosixPath.isAbsolute compilationDirectory then [joinPath compilationDirectory declared]
    else []) ++
    [joinPath tree.root declared]

def gcovJsonSourcePath : GcovResult (Option Text) :=
  let found := (tree.candidates declared compilationDirectory).filterMap tree.relativeTo
  let matched := Deduplication.keepFirst id [] (found.filter (· ∈ tree.sourceFiles))
  match matched with
  | [] => .ok none
  | [relative] => .ok (some relative)
  | _ => .error {
      code := py "ambiguous_source_path"
      message := py "source path " ++ pyRepr declared ++ py " maps to multiple project files" }

end

/-! ## Merged evidence -/

structure BranchIdentity where
  lineNumber : ℕ
  functionName : Text
  sourceBlockId : Option ℕ
  destinationBlockId : Option ℕ
  fallthrough : Bool
  orderedIndex : ℤ
deriving DecidableEq

structure FunctionIdentity where
  name : Text
  startLine : ℕ
  startColumn : ℕ
  endLine : ℕ
  endColumn : ℕ
deriving DecidableEq

structure FunctionRow where
  file : Text
  name : Text
  symbol : Text
  startLine : ℕ
  startColumn : ℕ
  endLine : ℕ
  endColumn : ℕ
  covered : Bool
deriving DecidableEq

structure Evidence where
  linesByFile : Dict Text (Dict ℕ Bool) := []
  branchesByFile : Dict Text (Dict BranchIdentity Bool) := []
  functionsByFile : Dict Text (Dict FunctionIdentity FunctionRow) := []

def lineRecords (source : GcovFile) : List (ℕ × Bool) :=
  source.lines.map fun line => (line.lineNumber, decide (0 < line.count))

/-- Without block ids a branch is told apart by its place among the branches of the line. -/
def branchIdentity (line : GcovLine) (branch : GcovBranch) (branchIndex : ℕ) : BranchIdentity where
  lineNumber := line.lineNumber
  functionName := line.functionName
  sourceBlockId := branch.sourceBlockId
  destinationBlockId := branch.destinationBlockId
  fallthrough := branch.fallthrough
  orderedIndex :=
    if branch.sourceBlockId = none ∨ branch.destinationBlockId = none then branchIndex else -1

def branchRecordsOfLine (line : GcovLine) : List (BranchIdentity × Bool) :=
  line.branches.zipIdx.filterMap fun (branch, branchIndex) =>
    if branch.throw then none
    else some (branchIdentity line branch branchIndex, decide (0 < branch.count))

def branchRecords (source : GcovFile) : List (BranchIdentity × Bool) :=
  source.lines.flatMap branchRecordsOfLine

def GcovFunction.identity (function : GcovFunction) : FunctionIdentity where
  name := function.name
  startLine := function.startLine
  startColumn := function.startColumn
  endLine := function.endLine
  endColumn := function.endColumn

/-- `demangled_name or name or "<unnamed>"`. -/
def GcovFunction.shownName (function : GcovFunction) : Text :=
  if function.demangledName ≠ [] then function.demangledName
  else if function.name ≠ [] then function.name
  else py "<unnamed>"

def mergeFunction (relative : Text) (functions : Dict FunctionIdentity FunctionRow)
    (function : GcovFunction) : Dict FunctionIdentity FunctionRow :=
  functions.set function.identity {
    file := relative
    name := function.shownName
    symbol := function.name
    startLine := function.startLine
    startColumn := function.startColumn
    endLine := function.endLine
    endColumn := function.endColumn
    covered := decide (0 < function.executionCount) ||
      (functions.get? function.identity).any (·.covered) }

namespace Evidence

section

variable (evidence : Evidence) (relative : Text)

def linesOf : Dict ℕ Bool :=
  (evidence.linesByFile.get? relative).getD []

def branchesOf : Dict BranchIdentity Bool :=
  (evidence.branchesByFile.get? relative).getD []

def functionsOf : Dict FunctionIdentity FunctionRow :=
  (evidence.functionsByFile.get? relative).getD []

def mergeSource (source : GcovFile) : Evidence where
  linesByFile := evidence.linesByFile.set relative
    ((evidence.linesOf relative).markAll (lineRecords source))
  branchesByFile := evidence.branchesByFile.set relative
    ((evidence.branchesOf relative).markAll (branchRecords source))
  functionsByFile := evidence.functionsByFile.set relative
    (source.functions.foldl (mergeFunction relative) (evidence.functionsOf relative))

end

end Evidence

/-- The evidence so far, and how many file records were matched and ignored. -/
structure Merged where
  evidence : Evidence := {}
  matchedRecords : ℕ := 0
  ignoredRecords : ℕ := 0

def mergeFile (tree : SourceTree) (compilationDirectory : Text) (merged : Merged) (source : GcovFile) :
    GcovResult Merged := do
  let relative? ← gcovJsonSourcePath tree source.file compilationDirectory
  match relative? with
  | none => return { merged with ignoredRecords := merged.ignoredRecords + 1 }
  | some relative => return { merged with
      evidence := merged.evidence.mergeSource relative source
      matchedRecords := merged.matchedRecords + 1 }

def mergeGcovJsonReport (tree : SourceTree) (merged : Merged) (report : GcovReport) : GcovResult Merged :=
  report.files.foldlM (mergeFile tree report.currentWorkingDirectory) merged

/-! ## The budget -/

def maxReports : ℕ := 4096

def maxTotalCompressedBytes : ℕ := 64 * 1024 * 1024

def maxTotalDecompressedBytes : ℕ := 256 * 1024 * 1024

structure GcovJsonTally where
  compressedBytes : ℕ := 0
  decompressedBytes : ℕ := 0
  fileRecords : ℕ := 0
  functionRecords : ℕ := 0
  lineRecords : ℕ := 0
  branchRecords : ℕ := 0
  callRecords : ℕ := 0
  linesWithoutBlockIds : ℕ := 0
  orderedBranchRecords : ℕ := 0
deriving DecidableEq

namespace GcovReport

def allLines (report : GcovReport) : List GcovLine := report.files.flatMap (·.lines)

def allBranches (report : GcovReport) : List GcovBranch := report.allLines.flatMap (·.branches)

end GcovReport

namespace GcovJsonTally

def add (tally : GcovJsonTally) (report : GcovReport) : GcovJsonTally where
  compressedBytes := tally.compressedBytes + report.compressedBytes
  decompressedBytes := tally.decompressedBytes + report.decompressedBytes
  fileRecords := tally.fileRecords + report.files.length
  functionRecords := tally.functionRecords + (report.files.map (·.functions.length)).sum
  lineRecords := tally.lineRecords + report.allLines.length
  branchRecords := tally.branchRecords + report.allBranches.length
  callRecords := tally.callRecords + (report.allLines.map (·.calls.length)).sum
  linesWithoutBlockIds := tally.linesWithoutBlockIds + report.allLines.countP (·.blockIds = [])
  orderedBranchRecords := tally.orderedBranchRecords + report.allBranches.countP fun branch =>
    branch.sourceBlockId = none ∨ branch.destinationBlockId = none

def limits (tally : GcovJsonTally) : List (ℕ × ℕ × Text) :=
  [(tally.fileRecords, 16384, py "file"), (tally.functionRecords, 500000, py "function"),
    (tally.lineRecords, 4000000, py "line"), (tally.branchRecords, 8000000, py "branch"),
    (tally.callRecords, 8000000, py "call")]

def requireLimit : ℕ × ℕ × Text → GcovResult Unit
  | (observedCount, maximum, label) =>
    if maximum < observedCount then
      .error {
        code := py "aggregate_limit"
        message := py "cumulative gcov JSON " ++ label ++ py " records exceed " ++ natDigits maximum }
    else .ok ()

def absorb (tally : GcovJsonTally) (report : GcovReport) : GcovResult GcovJsonTally := do
  (tally.add report).limits.forM requireLimit
  return tally.add report

end GcovJsonTally

def aggregateLimit (message : Text) : GcovJsonError := ⟨py "aggregate_limit", message⟩

def readReportWithinBudget (tally : GcovJsonTally) (report : GcovReport) : GcovResult GcovReport :=
  let compressedRemaining := maxTotalCompressedBytes - tally.compressedBytes
  let decompressedRemaining := maxTotalDecompressedBytes - tally.decompressedBytes
  if compressedRemaining = 0 ∨ decompressedRemaining = 0 then
    .error (aggregateLimit (py "cumulative gcov JSON byte budget is exhausted"))
  else match parseGcovJsonGz (min maxCompressedBytes compressedRemaining)
      (min maxDecompressedBytes decompressedRemaining) report with
    | .ok report => .ok report
    | .error error =>
      if (error.code = py "compressed_limit" ∨ error.code = py "decompressed_limit") ∧
          (compressedRemaining < maxCompressedBytes ∨ decompressedRemaining < maxDecompressedBytes) then
        .error (aggregateLimit (py "cumulative gcov JSON byte budget was exceeded"))
      else .error error

structure Toolchain where
  versions : Finset ℕ := ∅
  gccVersions : Finset Text := ∅

def requireUniformToolchain (seen : Toolchain) (report : GcovReport) : GcovResult Toolchain :=
  if seen.versions ≠ ∅ ∧ report.formatVersion ∉ seen.versions then
    .error {
      code := py "inconsistent_report_set"
      message := py "gcov JSON reports contain mixed format versions" }
  else if seen.gccVersions ≠ ∅ ∧ report.gccVersion ∉ seen.gccVersions then
    .error {
      code := py "inconsistent_report_set"
      message := py "gcov JSON reports contain mixed GCC versions" }
  else .ok {
    versions := insert report.formatVersion seen.versions
    gccVersions := insert report.gccVersion seen.gccVersions }

/-! ## Rows -/

structure CoverageRow where
  file : Text
  stmts : ℕ
  covered : ℕ
  miss : ℕ
  cover : Double
  branchCover : Option Double
  nb : ℕ
  cb : ℕ
  missingLines : List ℕ
  executableLines : List ℕ
  coveredLines : List ℕ
deriving DecidableEq

/-- `round(part / whole * 100.0, 1)` of counts; the quotient is at most one. -/
def percentage (part whole : ℕ) : Double :=
  ((Double.ofRat (part / whole)).mul (.ofRat 100)).roundTo 1

def coverageRow (relative : Text) (lines : Dict ℕ Bool) (branches : Dict BranchIdentity Bool) :
    CoverageRow where
  file := relative
  stmts := lines.length
  covered := lines.countMarked
  miss := lines.length - lines.countMarked
  cover := if lines.length = 0 then .ofRat 100 else percentage lines.countMarked lines.length
  branchCover := if branches.length = 0 then none
    else some (percentage branches.countMarked branches.length)
  nb := branches.length
  cb := branches.countMarked
  missingLines := ((Dict.keys (lines.filter (!·.2))).insertionSort (· ≤ ·)).take 30
  executableLines := lines.keys.insertionSort (· ≤ ·)
  coveredLines := lines.marked.insertionSort (· ≤ ·)

structure Coverage where
  rows : List CoverageRow
  functionRows : List FunctionRow
  tally : GcovJsonTally
  toolchain : Toolchain
  reportCount : ℕ
  matchedFileRecords : ℕ
  ignoredFileRecords : ℕ
  expectedSources : ℕ
  coveredSources : ℕ
  emptySources : List Text

structure Gathering where
  tally : GcovJsonTally := {}
  toolchain : Toolchain := {}
  merged : Merged := {}

section

variable (tree : SourceTree)

def gather (found : Gathering) (stored : GcovReport) : GcovResult Gathering := do
  let report ← readReportWithinBudget found.tally stored
  let tally ← found.tally.absorb report
  let toolchain ← requireUniformToolchain found.toolchain report
  let merged ← mergeGcovJsonReport tree found.merged report
  return { tally, toolchain, merged }

def Evidence.observed (evidence : Evidence) : Finset Text :=
  evidence.linesByFile.keys.toFinset ∪ evidence.functionsByFile.keys.toFinset

def requireCompleteSourceCoverage (evidence : Evidence) : GcovResult (Finset Text) :=
  let missingSources := (tree.sourceFiles \ evidence.observed).sort (· ≤ ·)
  if missingSources = [] then .ok evidence.observed
  else
    let preview := join (py ", ") (missingSources.take 8)
    let suffix := if 8 < missingSources.length then
      py " (+" ++ natDigits (missingSources.length - 8) ++ py " more)" else []
    .error {
      code := py "incomplete_source_coverage"
      message := py "coverage evidence is missing " ++ natDigits missingSources.length ++
        py " source(s): " ++ preview ++ suffix }

def FunctionRow.key (row : FunctionRow) : Text ×ₗ ℕ ×ₗ ℕ ×ₗ Text :=
  toLex (row.file, toLex (row.startLine, toLex (row.startColumn, row.name)))

def summarize (reportCount : ℕ) (found : Gathering) (observed : Finset Text) : Coverage :=
  let evidence := found.merged.evidence
  let sources := tree.sourceFiles.sort (· ≤ ·)
  let rows := sources.map fun relative =>
    coverageRow relative (evidence.linesOf relative) (evidence.branchesOf relative)
  { rows
    functionRows := (sources.flatMap fun relative => (evidence.functionsOf relative).values).insertionSort
      fun a b => a.key ≤ b.key
    tally := found.tally
    toolchain := found.toolchain
    reportCount
    matchedFileRecords := found.merged.matchedRecords
    ignoredFileRecords := found.merged.ignoredRecords
    expectedSources := tree.sourceFiles.card
    coveredSources := observed.card
    emptySources := (rows.filter (·.stmts = 0)).map (·.file) }

def gatherAll (reports : List GcovReport) : GcovResult Gathering :=
  reports.foldlM (gather tree) {}

/-- `parse_gcov_json_dir` on a directory whose report files, in the order of their names, hold these
reports. -/
def parseGcovJsonDir (reports : List GcovReport) : GcovResult Coverage := do
  if maxReports < reports.length then
    .error (aggregateLimit (py "gcov JSON report count exceeds " ++ natDigits maxReports))
  else if reports = [] then
    .error ⟨py "missing_data", py "no .gcov.json.gz reports were found"⟩
  else
    let found ← gatherAll tree reports
    let observed ← requireCompleteSourceCoverage tree found.merged.evidence
    return summarize tree reports.length found observed

end

end Ici
