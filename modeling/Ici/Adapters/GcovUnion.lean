import Ici.Adapters.Gcov
import Ici.Analysis.CoverageLattice

/-! # When the sums over the reports are the figures of their merge -/

namespace Ici

open List Raising Python Dict GcovProvider Tallying WorkDirectory List

def counted (files : List GcovFile) : GcovCounts where
  coveredLines := (files.flatMap lineRecords).countP (·.2)
  totalLines := (files.flatMap lineRecords).length
  coveredBranches := (files.flatMap fun file => file.lines.flatMap (·.branches)).countP (0 < ·.count)
  totalBranches := (files.flatMap fun file => file.lines.flatMap (·.branches)).length
  coveredFunctions := (files.flatMap functionRecords).countP (·.2)
  totalFunctions := (files.flatMap functionRecords).length

theorem foldl_addFile (files : List GcovFile) : files.foldl addFile {} = counted files := by
  induction files using reverseRecOn with
  | nil => rfl
  | append_singleton files file ih =>
    rw [foldl_append, ih, foldl_cons, foldl_nil]
    unfold addFile counted lineRecords functionRecords
    simp only [flatMap_append, flatMap_cons, flatMap_nil, append_nil, countP_append,
      length_append, countP_map, length_map]
    rfl

variable {files : List GcovFile} {compiled : Text × GcovFile} {file text : Text} {coverage : Coverage}
  {own : List GcovReport} {counts counts' : GcovCounts}

theorem counted_perm {files' : List GcovFile} (h : files.Perm files') : counted files = counted files' := by
  have hLines : (files.flatMap lineRecords).Perm (files'.flatMap lineRecords) := h.flatMap_right _
  have hFunctions : (files.flatMap functionRecords).Perm (files'.flatMap functionRecords) := h.flatMap_right _
  have hBranches : (files.flatMap fun file => file.lines.flatMap (·.branches)).Perm
      (files'.flatMap fun file => file.lines.flatMap (·.branches)) := h.flatMap_right _
  unfold counted
  rw [hLines.countP_eq, hLines.length_eq, hFunctions.countP_eq, hFunctions.length_eq, hBranches.countP_eq,
    hBranches.length_eq]

/-! ## What the merge counts -/

def compiledFiles (reports : List GcovReport) : List (Text × GcovFile) :=
  reports.flatMap fun report => report.files.map fun file => (report.currentWorkingDirectory, file)

def SourceTree.placeOf (tree : SourceTree) (compiled : Text × GcovFile) : Option Text :=
  match gcovJsonSourcePath tree compiled.2.file compiled.1 with
  | .ok found => found
  | .error _ => none

variable {tree : SourceTree} {reports : List GcovReport} {found : Gathering}

theorem placeOf_eq_some_iff :
    tree.placeOf compiled = some file ↔ gcovJsonSourcePath tree compiled.2.file compiled.1 = .ok (some file)
      := by
  unfold SourceTree.placeOf
  split
  · rename_i found hFound
    rw [hFound, Except.ok.injEq]
  · rename_i error hError
    rw [hError]
    exact iff_of_false nofun nofun

theorem recordsAt_eq {κ : Type} (records : GcovFile → List (κ × Bool)) (file : Text) :
    (reports.flatMap (tree.sourcesOf file)).flatMap records =
      recordsAt tree.placeOf (fun compiled => records compiled.2) (compiledFiles reports) file := by
  have hFiles : (compiledFiles reports).filter (tree.placeOf · = some file) =
      reports.flatMap fun report => (tree.sourcesOf file report).map fun source =>
        (report.currentWorkingDirectory, source) := by
    unfold compiledFiles SourceTree.sourcesOf
    rw [filter_flatMap]
    refine flatMap_congr fun report _ => ?_
    rw [filter_map]
    refine congrArg (map _) (filter_congr fun source _ => ?_)
    exact decide_eq_decide.mpr placeOf_eq_some_iff
  rw [recordsAt, hFiles, flatMap_assoc, flatMap_assoc]
  refine flatMap_congr fun report _ => ?_
  rw [flatMap_map]

theorem sum_sort (files : Finset Text) (weight : Text → ℕ) :
    ((files.sort (· ≤ ·)).map weight).sum = ∑ file ∈ files, weight file := by
  rw [← sum_toFinset _ (Finset.sort_nodup files (· ≤ ·)), Finset.sort_toFinset]

def mergedCounts (tree : SourceTree) (reports : List GcovReport) : GcovCounts where
  coveredLines := markedCovered tree.placeOf (fun compiled => lineRecords compiled.2)
    tree.sourceFiles
    (compiledFiles reports)
  totalLines := markedTotal tree.placeOf (fun compiled => lineRecords compiled.2) tree.sourceFiles
    (compiledFiles reports)
  coveredBranches := markedCovered tree.placeOf (fun compiled => branchRecords compiled.2)
    tree.sourceFiles
    (compiledFiles reports)
  totalBranches := markedTotal tree.placeOf (fun compiled => branchRecords compiled.2)
    tree.sourceFiles
    (compiledFiles reports)
  coveredFunctions := markedCovered tree.placeOf (fun compiled => functionRecords compiled.2)
    tree.sourceFiles (compiledFiles reports)
  totalFunctions := markedTotal tree.placeOf (fun compiled => functionRecords compiled.2)
    tree.sourceFiles (compiledFiles reports)

theorem counts_eq_mergedCounts (h : parseGcovJsonDir tree reports = .ok coverage) :
    coverage.counts = mergedCounts tree reports := by
  obtain ⟨-, -, found, hFound, -, rfl⟩ := parseGcovJsonDir_eq_ok h
  have hLines (file : Text) := (isReadBy_lines file).gatherAll hFound
  have hBranches (file : Text) := (isReadBy_branches file).gatherAll hFound
  have hFunctions (file : Text) := (isReadBy_functions file).gatherAll hFound
  have hMarks (functions : Dict FunctionIdentity FunctionRow) :
      functions.values.length = (functionMarks functions).length ∧
        functions.values.countP (·.covered) = (functionMarks functions).countMarked := by
    unfold countMarked functionMarks values
    rw [length_map, length_map, map_map, count_eq_countP, countP_map, countP_map]
    exact ⟨rfl, countP_congr fun pair _ => by simp⟩
  unfold Coverage.counts mergedCounts markedCovered markedTotal summarize
  dsimp only
  simp only [map_map, sum_sort, ← recordsAt_eq, ← hLines, ← hBranches, ← hFunctions]
  rw [(perm_insertionSort _ _).countP_eq, (perm_insertionSort _ _).length_eq, countP_flatMap,
    length_flatMap, sum_sort, sum_sort, GcovCounts.mk.injEq]
  refine ⟨rfl, rfl, rfl, rfl, ?_, ?_⟩
  · exact Finset.sum_congr rfl fun file _ => (hMarks _).2
  · exact Finset.sum_congr rfl fun file _ => (hMarks _).1

def allBranchesOf (files : List GcovFile) : List GcovBranch :=
  files.flatMap fun file => file.lines.flatMap (·.branches)

theorem countP_zipIdx {α : Type} (p : α → Bool) (l : List α) (n : ℕ) :
    (l.zipIdx n).countP (fun item => p item.1) = l.countP p := by
  have hMap : (l.zipIdx n).countP (fun item => p item.1) = ((l.zipIdx n).map Prod.fst).countP p := by
    rw [countP_map]
    rfl
  rw [hMap, zipIdx_map_fst]

theorem length_branchRecords (files : List GcovFile) :
    (files.flatMap branchRecords).length = (allBranchesOf files).countP (!·.throw) := by
  have hLine (line : GcovLine) : (branchRecordsOfLine line).length = line.branches.countP (!·.throw) := by
    rw [branchRecordsOfLine, length_filterMap_eq_countP, ← countP_zipIdx _ line.branches 0]
    refine countP_congr fun item _ => ?_
    cases hThrow : item.1.throw <;> simp [hThrow]
  unfold branchRecords allBranchesOf
  simp only [length_flatMap, countP_flatMap, hLine, Function.comp_def]

theorem countP_branchRecords (files : List GcovFile) : (files.flatMap branchRecords).countP (·.2) =
      (allBranchesOf files).countP fun branch => !branch.throw && decide (0 < branch.count) := by
  have hLine (line : GcovLine) : (branchRecordsOfLine line).countP (·.2) =
      line.branches.countP fun branch => !branch.throw && decide (0 < branch.count) := by
    rw [branchRecordsOfLine, countP_filterMap, ← countP_zipIdx _ line.branches 0]
    refine countP_congr fun item _ => ?_
    cases hThrow : item.1.throw <;> simp [hThrow]
  unfold branchRecords allBranchesOf
  simp only [countP_flatMap, hLine, Function.comp_def]

/-! ## When they agree -/

theorem mem_sourceFiles_of_placeOf (h : tree.placeOf compiled = some file) : file ∈ tree.sourceFiles := by
  have hPath := placeOf_eq_some_iff.mp h
  unfold gcovJsonSourcePath at hPath
  dsimp only at hPath
  split at hPath
  · cases hPath
  · rename_i relative hMatched
    cases hPath
    have hMem : file ∈ Deduplication.keepFirst id []
        (((tree.candidates compiled.2.file compiled.1).filterMap tree.relativeTo).filter (· ∈
          tree.sourceFiles)) := by
      rw [hMatched]
      exact mem_singleton_self file
    exact of_decide_eq_true (mem_filter.mp (Deduplication.mem_keepFirst_iff.mp hMem).2.mem).2
  · cases hPath

/-- Everything recorded is of a source, on an edge that is counted, and recorded once. -/
structure IsSingle (tree : SourceTree) (reports : List GcovReport) : Prop where
  placed : ∀ compiled ∈ compiledFiles reports, compiled.2.lines ≠ [] ∨ compiled.2.functions ≠ [] →
    ∃ file, tree.placeOf compiled = some file
  caught : ∀ compiled ∈ compiledFiles reports, ∀ line ∈ compiled.2.lines, ∀ branch ∈ line.branches,
    branch.throw = false
  lines : Tallying.Distinct tree.placeOf (fun compiled => lineRecords compiled.2) tree.sourceFiles
    (compiledFiles reports)
  branches : Tallying.Distinct tree.placeOf (fun compiled => branchRecords compiled.2) tree.sourceFiles
    (compiledFiles reports)
  functions : Tallying.Distinct tree.placeOf (fun compiled => functionRecords compiled.2) tree.sourceFiles
    (compiledFiles reports)

def GcovFile.IsEmpty (file : GcovFile) : Prop := file.lines = [] ∧ file.functions = []

def filesOf (reports : List GcovReport) : List GcovFile := reports.flatMap (·.files)

theorem compiledFiles_snd (reports : List GcovReport) : (compiledFiles reports).map Prod.snd =
    filesOf reports := by
  unfold compiledFiles filesOf
  rw [map_flatMap]
  refine flatMap_congr fun report _ => ?_
  rw [map_map]
  exact map_id _

theorem flatMap_compiledFiles {β : Type} (f : GcovFile → List β) (reports : List GcovReport) :
    ((compiledFiles reports).flatMap fun compiled => f compiled.2) = (filesOf reports).flatMap f := by
  rw [← compiledFiles_snd, flatMap_map]

theorem placed_iff {κ : Type} {records : GcovFile → List (κ × Bool)} {files : List (Text × GcovFile)} :
    Tallying.Placed tree.placeOf (fun compiled => records compiled.2) tree.sourceFiles files ↔
      ∀ compiled ∈ files, records compiled.2 ≠ [] → ∃ file, tree.placeOf compiled = some file :=
  forall₂_congr fun _ _ => imp_congr_right fun _ =>
    ⟨fun ⟨file, _, hFile⟩ => ⟨file, hFile⟩, fun ⟨file, hFile⟩ => ⟨file, mem_sourceFiles_of_placeOf hFile,
      hFile⟩⟩

section

variable {κ : Type} [DecidableEq κ] (records : GcovFile → List (κ × Bool)) {own : List GcovReport}

theorem markedTotal_reached {stale : ℕ} (h : stale + ((filesOf own).flatMap records).length =
      markedTotal tree.placeOf (fun compiled => records compiled.2)
        tree.sourceFiles (compiledFiles own)) :
    stale = 0 ∧ (∀ compiled ∈ compiledFiles own, records compiled.2 ≠ [] →
        ∃ file, tree.placeOf compiled = some file) ∧
      Tallying.Distinct tree.placeOf (fun compiled => records compiled.2) tree.sourceFiles (compiledFiles own)
        := by
  have hBelow : markedTotal tree.placeOf (fun compiled => records compiled.2) tree.sourceFiles
      (compiledFiles own) ≤ ((compiledFiles own).flatMap fun compiled => records compiled.2).length :=
    markedTotal_le
  rw [flatMap_compiledFiles] at hBelow
  have hSame : markedTotal tree.placeOf (fun compiled => records compiled.2) tree.sourceFiles
      (compiledFiles own) = ((compiledFiles own).flatMap fun compiled => records compiled.2).length := by
    rw [flatMap_compiledFiles]
    omega
  obtain ⟨hPlaced, hDistinct⟩ := markedTotal_eq_iff.mp hSame
  exact ⟨by omega, placed_iff.mp hPlaced, hDistinct⟩

theorem marked_eq (hPlaced : ∀ compiled ∈ compiledFiles own, records compiled.2 ≠ [] → ∃ file, tree.placeOf
    compiled = some file)
    (hDistinct : Tallying.Distinct tree.placeOf (fun compiled => records compiled.2) tree.sourceFiles
      (compiledFiles own)) :
    markedTotal tree.placeOf (fun compiled => records compiled.2)
      tree.sourceFiles (compiledFiles own) = ((filesOf own).flatMap records).length ∧
      markedCovered tree.placeOf (fun compiled => records compiled.2)
        tree.sourceFiles (compiledFiles own) =
        ((filesOf own).flatMap records).countP (·.2) := by
  rw [← flatMap_compiledFiles]
  exact ⟨markedTotal_eq_iff.mpr ⟨placed_iff.mpr hPlaced, hDistinct⟩,
    markedCovered_eq (placed_iff.mpr hPlaced) hDistinct⟩

end

theorem mem_allBranchesOf {branch : GcovBranch} :
    branch ∈ allBranchesOf files ↔ ∃ file ∈ files, ∃ line ∈ file.lines, branch ∈ line.branches := by
  unfold allBranchesOf
  simp only [mem_flatMap]

theorem caught_iff :
    (∀ compiled ∈ compiledFiles own, ∀ line ∈ compiled.2.lines, ∀ branch ∈ line.branches, branch.throw =
      false) ↔
      ∀ branch ∈ allBranchesOf (filesOf own), branch.throw = false := by
  rw [← compiledFiles_snd]
  simp only [mem_allBranchesOf, mem_map]
  constructor
  · rintro h branch ⟨_, ⟨compiled, hCompiled, rfl⟩, line, hLine, hBranch⟩
    exact h compiled hCompiled line hLine branch hBranch
  · intro h compiled hCompiled line hLine branch hBranch
    exact h branch ⟨_, ⟨compiled, hCompiled, rfl⟩, line, hLine, hBranch⟩

theorem counted_append (stale own : List GcovFile) : counted (stale ++ own) =
    { coveredLines := (stale.flatMap lineRecords).countP (·.2) + (own.flatMap lineRecords).countP (·.2)
      totalLines := (stale.flatMap lineRecords).length + (own.flatMap lineRecords).length
      coveredBranches := (allBranchesOf stale).countP (0 < ·.count) + (allBranchesOf own).countP (0 < ·.count)
      totalBranches := (allBranchesOf stale).length + (allBranchesOf own).length
      coveredFunctions := (stale.flatMap functionRecords).countP (·.2)
        + (own.flatMap functionRecords).countP (·.2)
      totalFunctions := (stale.flatMap functionRecords).length + (own.flatMap functionRecords).length } := by
  simp only [counted, allBranchesOf, flatMap_append, countP_append, length_append]

theorem counted_eq_mergedCounts_iff {stale : List GcovReport} :
    counted (filesOf stale ++ filesOf own) = mergedCounts tree own ↔
      (∀ file ∈ filesOf stale, file.IsEmpty) ∧ IsSingle tree own := by
  rw [counted_append, mergedCounts, GcovCounts.mk.injEq]
  constructor
  · rintro ⟨-, hLines, -, hBranches, -, hFunctions⟩
    obtain ⟨hNoLines, hLinesPlaced, hLinesDistinct⟩ := markedTotal_reached _ hLines
    obtain ⟨hNoFunctions, hFunctionsPlaced, hFunctionsDistinct⟩ := markedTotal_reached _ hFunctions
    -- branches of throw edges are counted and never recorded
    have hFewer := countP_le_length (p := fun branch : GcovBranch => !branch.throw)
      (l := allBranchesOf (filesOf own))
    have hRecorded := length_branchRecords (filesOf own)
    have hReached : (allBranchesOf (filesOf stale)).length +
        ((allBranchesOf (filesOf own)).length - ((filesOf own).flatMap branchRecords).length) +
          ((filesOf own).flatMap branchRecords).length = markedTotal tree.placeOf
            (fun compiled => branchRecords compiled.2) tree.sourceFiles (compiledFiles own) := by
      rw [← hBranches]
      omega
    obtain ⟨hThrown, -, hBranchesDistinct⟩ := markedTotal_reached branchRecords hReached
    refine ⟨fun file hFile => ⟨?_, ?_⟩, ?_, ?_, hLinesDistinct, hBranchesDistinct, hFunctionsDistinct⟩
    · have hNone := flatMap_eq_nil_iff.mp (eq_nil_of_length_eq_zero hNoLines) file hFile
      exact map_eq_nil_iff.mp hNone
    · have hNone := flatMap_eq_nil_iff.mp (eq_nil_of_length_eq_zero hNoFunctions) file hFile
      exact map_eq_nil_iff.mp hNone
    · rintro compiled hCompiled (hSome | hSome)
      · exact hLinesPlaced compiled hCompiled fun hNone => hSome (map_eq_nil_iff.mp hNone)
      · exact hFunctionsPlaced compiled hCompiled fun hNone => hSome (map_eq_nil_iff.mp hNone)
    · have hAll := countP_eq_length.mp (show (allBranchesOf (filesOf own)).countP
        (fun branch : GcovBranch => !branch.throw) = (allBranchesOf (filesOf own)).length by omega)
      exact caught_iff.mpr fun branch hBranch => by simpa using hAll branch hBranch
  · rintro ⟨hStale, hSingle⟩
    have hNoLines : (filesOf stale).flatMap lineRecords = [] :=
      flatMap_eq_nil_iff.mpr fun file hFile => by rw [lineRecords, (hStale file hFile).1, map_nil]
    have hNoFunctions : (filesOf stale).flatMap functionRecords = [] :=
      flatMap_eq_nil_iff.mpr fun file hFile => by rw [functionRecords, (hStale file hFile).2, map_nil]
    have hNoBranches : allBranchesOf (filesOf stale) = [] :=
      flatMap_eq_nil_iff.mpr fun file hFile => by rw [(hStale file hFile).1, flatMap_nil]
    have hCaught := caught_iff.mp hSingle.caught
    have hRecorded : ((filesOf own).flatMap branchRecords).length = (allBranchesOf (filesOf own)).length := by
      rw [length_branchRecords]
      exact countP_eq_length.mpr fun branch hBranch => by simp [hCaught branch hBranch]
    have hTaken : ((filesOf own).flatMap branchRecords).countP (·.2) =
        (allBranchesOf (filesOf own)).countP (0 < ·.count) := by
      rw [countP_branchRecords]
      exact countP_congr fun branch hBranch => by simp [hCaught branch hBranch]
    obtain ⟨hLines, hLinesCovered⟩ := marked_eq lineRecords (fun compiled hCompiled hSome =>
      hSingle.placed compiled hCompiled (.inl fun hNone => hSome (by rw [lineRecords, hNone, map_nil])))
      hSingle.lines
    obtain ⟨hFunctions, hFunctionsCovered⟩ := marked_eq functionRecords
      (fun compiled hCompiled hSome =>
      hSingle.placed compiled hCompiled (.inr fun hNone => hSome (by rw [functionRecords, hNone,
        map_nil])))
      hSingle.functions
    obtain ⟨hBranches, hBranchesCovered⟩ := marked_eq branchRecords
      (fun compiled hCompiled hSome =>
      hSingle.placed compiled hCompiled (.inl fun hNone => hSome (by rw [branchRecords, hNone,
        flatMap_nil])))
      hSingle.branches
    rw [hNoLines, hNoFunctions, hNoBranches, hLines, hLinesCovered, hFunctions, hFunctionsCovered, hBranches,
      hBranchesCovered, hRecorded, hTaken]
    simp

/-! ## The work directory -/

section

variable (earlier : List (List (Text × ReportFile))) (own : List (Text × GcovReport))
include own

def staleFiles : WorkDirectory :=
  (afterRuns earlier).filter (·.1 ∉ own.map Prod.fst)

def directoryOf : WorkDirectory :=
  afterRuns (earlier ++ [own.map fun written => (written.1, .report written.2)])

end

def readable (directory : WorkDirectory) : List GcovReport :=
  directory.filterMap fun file => (readReport file.2).toOption

def sortedReports (own : List (Text × GcovReport)) : List GcovReport :=
  (own.insertionSort (·.1 ≤ ·.1)).map Prod.snd

theorem nodup_keys_afterRuns (runs : List (List (Text × ReportFile))) : (afterRuns runs).keys.Nodup := by
  have hRun (start : WorkDirectory) (h : start.keys.Nodup) : (runs.foldl Dict.setAll start).keys.Nodup := by
    induction runs generalizing start with
    | nil => exact h
    | cons files runs ih => exact ih _ (nodup_keys_setAll h files)
  exact hRun [] nodup_nil

section

variable (earlier : List (List (Text × ReportFile))) {own : List (Text × GcovReport)}

theorem directoryOf_perm (hNames : (own.map Prod.fst).Nodup) : (directoryOf earlier own).Perm
      (staleFiles earlier own ++ own.map fun written => (written.1, .report written.2)) := by
  have hKeys : ((own.map fun written => (written.1, ReportFile.report written.2)).map Prod.fst) =
      own.map Prod.fst := by
    rw [map_map]
    rfl
  have hNew : ((own.map fun written => (written.1, ReportFile.report written.2)).map Prod.fst).Nodup := by
    rwa [hKeys]
  have hPerm := setAll_perm (nodup_keys_afterRuns earlier) hNew
  rw [hKeys] at hPerm
  have hFold : directoryOf earlier own = (afterRuns earlier).setAll
      (own.map fun written => (written.1, .report written.2)) := by
    unfold directoryOf afterRuns
    rw [foldl_append, foldl_cons, foldl_nil]
  rw [hFold]
  refine hPerm.trans (Perm.append_right _ (Perm.of_eq (filter_congr fun pair _ => ?_)))
  exact decide_eq_decide.mpr Iff.rfl

theorem readReport_of_bounds {report : GcovReport} (hCompressed : report.compressedBytes ≤ maxCompressedBytes)
    (hDecompressed : report.decompressedBytes ≤ maxDecompressedBytes) :
    readReport (.report report) = .ok report := by
  have hParse := (parseGcovJsonGz_eq_ok_iff maxCompressedBytes maxDecompressedBytes).mpr
    ⟨rfl, hCompressed, hDecompressed⟩
  change (parseGcovJsonGz maxCompressedBytes maxDecompressedBytes report).mapError _ = _
  rw [hParse]
  rfl

theorem readReport_of_parse {reports : List GcovReport} (h : parseGcovJsonDir tree reports = .ok coverage) :
    ∀ report ∈ reports, readReport (.report report) = .ok report := by
  obtain ⟨-, -, found, hFound, -⟩ := parseGcovJsonDir_eq_ok h
  have hEach := ((exists_foldlM_gather_iff {} ⟨by decide, by decide, by decide⟩ ⟨by decide, by decide⟩).mp
    ⟨found, hFound⟩).2.2
  exact fun report hReport => readReport_of_bounds (hEach report hReport).compressed (hEach report
    hReport).decompressed

theorem foldlM_addReport {files : List ReportFile}
    (h : ∀ file ∈ files, ∃ report, readReport file = .ok report) :
    files.foldlM addReport counts =
      .ok ((filesOf (files.filterMap fun file => (readReport file).toOption)).foldl
        addFile counts) := by
  induction files generalizing counts with
  | nil => rfl
  | cons file files ih =>
    obtain ⟨⟨report, hReport⟩, hRest⟩ := forall_mem_cons.mp h
    have hMap : (file :: files).filterMap (fun file => (readReport file).toOption) =
        report :: files.filterMap fun file => (readReport file).toOption :=
      filterMap_cons_some (by rw [hReport]; rfl)
    have hFirst : addReport counts file =
      .ok (report.files.foldl addFile counts) := by
      rw [addReport, hReport]
      rfl
    rw [hMap, filesOf, flatMap_cons, foldl_append, ← filesOf]
    exact foldlM_cons_eq_ok.mpr ⟨_, hFirst, ih hRest⟩

theorem foldlM_addReport_error {files : List ReportFile} (h : files.foldlM addReport counts = .error text) :
    ∃ file ∈ files, readReport file = .error text := by
  induction files generalizing counts with
  | nil => cases h
  | cons file files ih =>
    rw [foldlM_cons] at h
    rcases bind_eq_error.mp h with hFirst | ⟨next, -, hRest⟩
    · exact ⟨file, mem_cons_self, map_eq_error.mp hFirst⟩
    · obtain ⟨other, hOther, hError⟩ := ih hRest
      exact ⟨other, mem_cons_of_mem _ hOther, hError⟩

theorem readReport_ne_noLineData {file : ReportFile}
    (h : readReport file = .error text) : text ≠ noLineData := by
  have hRejected (rest : Text) : py "gcov evidence rejected (" ++ rest ≠ noLineData := by
    intro hSame
    have hFront := congrArg (take 6) hSame
    rw [take_append_of_le_length (by decide)] at hFront
    exact absurd hFront (by decide)
  have hUnreadable (rest : Text) : py "gcov report unreadable: " ++ rest ≠ noLineData := by
    intro hSame
    have hFront := congrArg (take 12) hSame
    rw [take_append_of_le_length (by decide)] at hFront
    exact absurd hFront (by decide)
  have hWord (error : GcovJsonError) : rejectedText error ≠ noLineData := by
    unfold rejectedText
    simp only [append_assoc]
    exact hRejected _
  cases file with
  | report stored =>
    change (parseGcovJsonGz maxCompressedBytes maxDecompressedBytes stored).mapError _ = _ at h
    cases hParse : parseGcovJsonGz maxCompressedBytes maxDecompressedBytes stored with
    | ok _ => rw [hParse] at h; cases h
    | error error =>
      rw [hParse] at h
      cases h
      exact hWord error
  | rejected error =>
    cases h
    exact hWord error
  | unreadable message =>
    cases h
    exact hUnreadable message

theorem readable_of_foldlM {files : List ReportFile} (h : files.foldlM addReport counts = .ok counts') :
    ∀ file ∈ files, ∃ report, readReport file = .ok report := by
  refine (exists_foldlM_iff (fun file => ∃ report, readReport file = .ok report)
    (fun counts file _ => ?_) counts).mp ⟨counts', h⟩
  constructor
  · rintro ⟨next, hNext⟩
    obtain ⟨report, hReport, -⟩ := map_eq_ok.mp hNext
    exact ⟨report, hReport⟩
  · rintro ⟨report, hReport⟩
    exact ⟨_, map_eq_ok.mpr ⟨report, hReport, rfl⟩⟩

theorem totalLines_eq_zero_iff : (counted files).totalLines = 0 ↔ ∀ file ∈ files, file.lines = [] := by
  change (files.flatMap lineRecords).length = 0 ↔ _
  rw [length_eq_zero_iff, flatMap_eq_nil_iff]
  exact forall₂_congr fun file _ => map_eq_nil_iff

theorem mergedCounts_totalLines_le (tree : SourceTree) (stale own : List GcovReport) :
    (mergedCounts tree own).totalLines ≤ (counted (filesOf stale ++ filesOf own)).totalLines := by
  have hBelow : (mergedCounts tree own).totalLines ≤ ((compiledFiles own).flatMap fun compiled =>
      lineRecords compiled.2).length := markedTotal_le
  rw [flatMap_compiledFiles] at hBelow
  rw [counted_append]
  exact hBelow.trans (Nat.le_add_left _ _)

theorem requireLines_eq_iff (h : counts'.totalLines ≤ counts.totalLines) :
    requireLines counts = requireLines counts' ↔
      counts.totalLines = 0 ∨ counts = counts' := by
  unfold requireLines
  by_cases hNone : counts.totalLines = 0
  · rw [if_pos hNone, if_pos (Nat.le_zero.mp (hNone ▸ h))]
    exact iff_of_true rfl (.inl hNone)
  · rw [if_neg hNone, or_iff_right hNone]
    by_cases hNone' : counts'.totalLines = 0
    · rw [if_pos hNone']
      exact iff_of_false nofun fun hSame => hNone (hSame ▸ hNone')
    · rw [if_neg hNone', Except.ok.injEq]

theorem sorted_reports_perm (hNames : (own.map Prod.fst).Nodup) :
    (((directoryOf earlier own).insertionSort (·.1 ≤ ·.1)).map Prod.snd).Perm
      ((staleFiles earlier own).map Prod.snd ++ (sortedReports own).map .report) := by
  have hSorted := (perm_insertionSort (fun a b : Text × ReportFile => a.1 ≤ b.1)
    (directoryOf earlier own)).trans (directoryOf_perm earlier hNames)
  refine (hSorted.map Prod.snd).trans ?_
  rw [map_append, map_map]
  refine Perm.append_left _ ?_
  have hOwn : (sortedReports own).Perm (own.map Prod.snd) := (perm_insertionSort _ own).map _
  refine List.Perm.trans (Perm.of_eq ?_) (hOwn.map ReportFile.report).symm
  rw [map_map]
  rfl

theorem readable_reports (reports : List GcovReport)
    (h : ∀ report ∈ reports, readReport (.report report) = .ok report) :
    (reports.map ReportFile.report).filterMap (fun file => (readReport file).toOption) =
      reports := by
  rw [filterMap_map]
  induction reports with
  | nil => rfl
  | cons report reports ih =>
    obtain ⟨hOwn, hRest⟩ := forall_mem_cons.mp h
    rw [filterMap_cons_some (b := report) (by rw [Function.comp_apply, hOwn]; rfl), ih hRest]

theorem count_directoryOf {earlier : List (List (Text × ReportFile))} {own : List (Text × GcovReport)}
    (hNames : (own.map Prod.fst).Nodup)
    (hMerge : parseGcovJsonDir tree (sortedReports own) = .ok coverage)
    (hReadable : ∀ file ∈ staleFiles earlier own, ∃ report, readReport file.2 = .ok report) :
    GcovProvider.count (directoryOf earlier own) = GcovProvider.requireLines
      (counted (filesOf (readable (staleFiles earlier own)) ++ filesOf (sortedReports own))) := by
  have hSorted := sorted_reports_perm earlier hNames
  have hSome : ((directoryOf earlier own).insertionSort (·.1 ≤ ·.1)).map Prod.snd ≠ [] := by
    intro hNone
    rw [hNone] at hSorted
    have hOwn := (append_eq_nil_iff.mp hSorted.symm.eq_nil).2
    exact (parseGcovJsonDir_eq_ok hMerge).2.1 (map_eq_nil_iff.mp hOwn)
  have hEach : ∀ file ∈ ((directoryOf earlier own).insertionSort (·.1 ≤ ·.1)).map Prod.snd,
      ∃ report, readReport file = .ok report := by
    intro file hFile
    rcases mem_append.mp (hSorted.mem_iff.mp hFile) with hStale | hOwn
    · obtain ⟨stale, hMem, rfl⟩ := mem_map.mp hStale
      exact hReadable stale hMem
    · obtain ⟨report, hMem, rfl⟩ := mem_map.mp hOwn
      exact ⟨report, readReport_of_parse hMerge report hMem⟩
  unfold GcovProvider.count
  dsimp only
  rw [if_neg hSome, foldlM_addReport hEach, foldl_addFile]
  refine congrArg requireLines (counted_perm ?_)
  have hReports := hSorted.filterMap fun file => (readReport file).toOption
  have hStale : ((staleFiles earlier own).map Prod.snd).filterMap
      (fun file => (readReport file).toOption) = readable (staleFiles earlier own) :=
        filterMap_map ..
  rw [filterMap_append, readable_reports _ (readReport_of_parse hMerge), hStale] at hReports
  unfold filesOf
  rw [← flatMap_append]
  exact hReports.flatMap_right _

end

/-- What a finished run answers, and when its counts are those of the merge. -/
theorem parse_counts_union_iff (earlier : List (List (Text × ReportFile))) {own : List (Text × GcovReport)}
    {coverage : Coverage} (hNames : (own.map Prod.fst).Nodup)
    (hMerge : parseGcovJsonDir tree (sortedReports own) = .ok coverage) :
    (∀ outcome : TaskOutcome, outcome.outcome = .finished → parse outcome (directoryOf earlier own) =
        answer outcome (count (directoryOf earlier own))) ∧
    (GcovProvider.count (directoryOf earlier own) = GcovProvider.requireLines coverage.counts ↔
      (∀ file ∈ staleFiles earlier own, ∃ report, readReport file.2 = .ok report) ∧
        ((∀ file ∈ filesOf (readable (staleFiles earlier own)) ++ filesOf (sortedReports own), file.lines =
          []) ∨
          (∀ file ∈ filesOf (readable (staleFiles earlier own)), file.IsEmpty) ∧
            IsSingle tree (sortedReports own))) := by
  refine ⟨fun outcome hFinished => by rw [parse, Outcome.ranToCompletion, hFinished]; rfl, ?_⟩
  by_cases hReadable : ∀ file ∈ staleFiles earlier own, ∃ report, readReport file.2 = .ok report
  · rw [and_iff_right hReadable, count_directoryOf hNames hMerge hReadable, counts_eq_mergedCounts hMerge,
      requireLines_eq_iff (mergedCounts_totalLines_le tree _ _), totalLines_eq_zero_iff,
      counted_eq_mergedCounts_iff]
  · refine iff_of_false (fun hCount => ?_) fun h => hReadable h.1
    have hSorted := sorted_reports_perm earlier hNames
    have hSome : ((directoryOf earlier own).insertionSort (·.1 ≤ ·.1)).map Prod.snd ≠ [] := by
      intro hNone
      rw [hNone] at hSorted
      have hStale := map_eq_nil_iff.mp (append_eq_nil_iff.mp hSorted.symm.eq_nil).1
      exact hReadable fun file hFile => absurd (hStale ▸ hFile) not_mem_nil
    unfold GcovProvider.count at hCount
    dsimp only at hCount
    rw [if_neg hSome] at hCount
    cases hFold : (((directoryOf earlier own).insertionSort (·.1 ≤ ·.1)).map Prod.snd).foldlM
        addReport {} with
    | ok counts =>
      refine hReadable fun file hFile => readable_of_foldlM hFold file.2 (hSorted.mem_iff.mpr ?_)
      exact mem_append_left _ (mem_map_of_mem hFile)
    | error text =>
      obtain ⟨file, -, hFile⟩ := foldlM_addReport_error hFold
      rw [hFold] at hCount
      unfold requireLines at hCount
      split at hCount
      · exact readReport_ne_noLineData hFile (Except.error.inj hCount)
      · cases hCount

def plainReport : GcovReport :=
  { smallReport with
    files := [{
      file := py "a.cpp"
      functions := [⟨py "f", 2, 9, 3, py "_f", 1, 7⟩]
      lines := [⟨[2], [⟨3, some 3, true, some 2, false⟩], [], 3, 8, py "_f"⟩] }] }

theorem exists_coverage_of_gather (reports : List GcovReport) (hCount : reports.length ≤ maxReports)
    (hSome : reports ≠ [])
    (h : (gatherAll smallTree reports).toOption.any fun found =>
      decide (py "a.cpp" ∈ found.merged.evidence.linesByFile.keys)) :
    ∃ coverage, parseGcovJsonDir smallTree reports = .ok coverage := by
  cases hFound : gatherAll smallTree reports with
  | error _ => rw [hFound] at h; cases h
  | ok found =>
    rw [hFound] at h
    refine exists_parseGcovJsonDir hCount hSome hFound fun file hFile => ?_
    rw [Finset.mem_singleton.mp hFile]
    exact Finset.mem_union_left _ (mem_toFinset.mpr (of_decide_eq_true h))

/-- A report that replaces the one of an earlier run. -/
theorem plain_report_counts_union :
    ∃ coverage, parseGcovJsonDir smallTree (sortedReports [(py "a", plainReport)]) = .ok coverage ∧
      GcovProvider.count (directoryOf [[(py "a", .report smallReport)]] [(py "a", plainReport)]) =
        requireLines coverage.counts := by
  obtain ⟨coverage, hCoverage⟩ := exists_coverage_of_gather (sortedReports [(py "a", plainReport)])
    (by decide) (by decide) (by decide +kernel)
  have hNothing : staleFiles [[(py "a", .report smallReport)]] [(py "a", plainReport)] = [] := by
    decide +kernel
  refine ⟨coverage, hCoverage, ((parse_counts_union_iff [[(py "a", .report smallReport)]]
    (by decide) hCoverage).2).mpr ⟨?_, .inr ⟨?_, ?_⟩⟩⟩
  · rw [hNothing]
    exact fun _ h => absurd h not_mem_nil
  · rw [hNothing]
    exact fun _ h => absurd h not_mem_nil
  · have hFiles : compiledFiles (sortedReports [(py "a", plainReport)]) =
        plainReport.files.map fun file => (py "/p", file) := by
      decide +kernel
    refine ⟨?_, ?_, ?_, ?_, ?_⟩
    · rw [hFiles]
      exact fun compiled hCompiled _ => ⟨py "a.cpp", by
        rw [mem_singleton.mp hCompiled]
        decide +kernel⟩
    · rw [hFiles]
      decide +kernel
    all_goals
      rw [hFiles]
      exact fun file hFile => by
        rw [Finset.mem_singleton.mp hFile]
        decide +kernel

/-- A line of two template instances is counted twice, and once in the merge. -/
theorem template_line_counted_twice :
    ∃ coverage, parseGcovJsonDir smallTree (sortedReports [(py "a", smallReport)]) = .ok coverage ∧
      coverage.counts.totalLines = 1 ∧
        (GcovProvider.count (directoryOf [] [(py "a", smallReport)])).toOption.map (·.totalLines) =
          some 2 := by
  obtain ⟨coverage, hCoverage⟩ := exists_coverage_of_gather (sortedReports [(py "a", smallReport)])
    (by decide) (by decide) (by decide +kernel)
  refine ⟨coverage, hCoverage, ?_, by decide +kernel⟩
  rw [counts_eq_mergedCounts hCoverage]
  decide +kernel

end Ici
