import Ici.Analysis.CoverageEvidence

/-! # Aggregation is a merge

What is reported depends on which records there are, not on where they stand, and grows with them. -/

namespace Ici

open List Raising Python Dict Evidence

variable {tree : SourceTree}

def observedMark (file : Text) (evidence : Evidence) : Dict Unit Bool :=
  if file ∈ evidence.observed then [((), true)] else []

theorem isReadBy_observed (file : Text) : IsReadBy file (fun _ => [((), true)]) (observedMark file) where
  empty := rfl
  same evidence source := by
    have hMem : file ∈ (evidence.mergeSource file source).observed := by
      simp [observed, mergeSource, mem_keys_set]
    unfold observedMark
    rw [if_pos hMem]
    split <;> rfl
  other evidence relative source h := by
    have hSame : file ∈ (evidence.mergeSource relative source).observed ↔ file ∈ evidence.observed := by
      simp [observed, mergeSource, mem_keys_set, h.symm]
    unfold observedMark
    simp only [hSame]

theorem Within.observed {reports reports' : List GcovReport} (h : Within reports reports')
    {found found' : Gathering} (hFound : gatherAll tree reports = .ok found)
    (hFound' : gatherAll tree reports' = .ok found') :
    found.merged.evidence.observed ⊆ found'.merged.evidence.observed := by
  intro file hFile
  have hMark (found : Gathering) : file ∈ found.merged.evidence.observed ↔
      (observedMark file found.merged.evidence).get? () = some true := by
    unfold observedMark
    split <;> simp_all [get?]
  have hMonotone : IsMonotone fun _ : GcovFile => [((), true)] := fun _ _ _ _ => Subset.refl _
  rw [hMark, (isReadBy_observed file).gatherAll hFound] at hFile
  rw [hMark, (isReadBy_observed file).gatherAll hFound']
  exact (markAll_below (h.records_subset hMonotone file)).marks () hFile

/-! ## Rows -/

variable {found found' : Gathering}

section

variable {reports : List GcovReport} (h : gatherAll tree reports = .ok found) (file : Text)
include h

theorem nodup_linesOf : (found.merged.evidence.linesOf file).keys.Nodup := by
  rw [(isReadBy_lines file).gatherAll h]
  exact nodup_keys_markAll (d := []) nodup_nil _

theorem nodup_branchesOf : (found.merged.evidence.branchesOf file).keys.Nodup := by
  rw [(isReadBy_branches file).gatherAll h]
  exact nodup_keys_markAll (d := []) nodup_nil _

theorem nodup_functionMarks : (functionMarks (found.merged.evidence.functionsOf file)).keys.Nodup := by
  rw [(isReadBy_functions file).gatherAll h]
  exact nodup_keys_markAll (d := []) nodup_nil _

end

theorem insertionSort_eq_of_perm {l l' : List ℕ} (h : l.Perm l') :
    l.insertionSort (· ≤ ·) = l'.insertionSort (· ≤ ·) := by
  refine Perm.eq_of_pairwise (fun a b _ _ => le_antisymm)
    (pairwise_insertionSort _ _) (pairwise_insertionSort _ _) ?_
  exact ((perm_insertionSort _ l).trans h).trans (perm_insertionSort _ l').symm

theorem coverageRow_perm (relative : Text) {lines lines' : Dict ℕ Bool}
    {branches branches' : Dict BranchIdentity Bool} (hLines : lines.Perm lines')
    (hBranches : branches.Perm branches') :
    coverageRow relative lines branches = coverageRow relative lines' branches' := by
  have hCovered : lines.countMarked = lines'.countMarked := (hLines.map Prod.snd).count_eq true
  have hTaken : branches.countMarked = branches'.countMarked := (hBranches.map Prod.snd).count_eq true
  have hKeys : lines.keys.Perm lines'.keys := hLines.map Prod.fst
  have hMarked : lines.marked.Perm lines'.marked := (hLines.filter _).map Prod.fst
  have hMissing : (keys (lines.filter (!·.2))).Perm (keys (lines'.filter (!·.2))) :=
    (hLines.filter _).map Prod.fst
  unfold coverageRow
  rw [hCovered, hTaken, hLines.length_eq, hBranches.length_eq, insertionSort_eq_of_perm hKeys,
    insertionSort_eq_of_perm hMarked, insertionSort_eq_of_perm hMissing]

def Evidence.row (evidence : Evidence) (relative : Text) : CoverageRow :=
  coverageRow relative (evidence.linesOf relative) (evidence.branchesOf relative)

section

variable {reports reports' : List GcovReport} (hFound : gatherAll tree reports = .ok found)
  (hFound' : gatherAll tree reports' = .ok found') (h : found.merged.evidence.Below found'.merged.evidence)
include hFound hFound' h

theorem Evidence.row_eq (h' : found'.merged.evidence.Below found.merged.evidence) (file : Text) :
    found.merged.evidence.row file = found'.merged.evidence.row file :=
  coverageRow_perm file
    ((h.lines file).perm (h'.lines file) (nodup_linesOf hFound file) (nodup_linesOf hFound' file))
    ((h.branches file).perm (h'.branches file) (nodup_branchesOf hFound file)
      (nodup_branchesOf hFound' file))

omit hFound hFound' h in
structure CoverageRow.Below (row row' : CoverageRow) : Prop where
  file : row.file = row'.file
  executable : row.executableLines ⊆ row'.executableLines
  covered : row.coveredLines ⊆ row'.coveredLines
  branches : row.nb ≤ row'.nb
  taken : row.cb ≤ row'.cb

theorem Evidence.row_below (file : Text) :
    (found.merged.evidence.row file).Below (found'.merged.evidence.row file) where
  file := rfl
  executable line hLine := by
    have hKey := (mem_insertionSort _).mp hLine
    exact (mem_insertionSort _).mpr ((h.lines file).keys hKey)
  covered line hLine := by
    have hMarked := (mem_marked_iff (nodup_linesOf hFound file)).mp ((mem_insertionSort _).mp hLine)
    exact (mem_insertionSort _).mpr
      ((mem_marked_iff (nodup_linesOf hFound' file)).mpr ((h.lines file).marks line hMarked))
  branches := (h.branches file).length_le (nodup_branchesOf hFound file)
  taken := (h.branches file).countMarked_le (nodup_branchesOf hFound file) (nodup_branchesOf hFound' file)

end

theorem coverageRow_counts (relative : Text) (lines : Dict ℕ Bool) (branches : Dict BranchIdentity Bool) :
    let row := coverageRow relative lines branches
    row.covered + row.miss = row.stmts ∧ row.cb ≤ row.nb ∧ row.coveredLines ⊆ row.executableLines ∧
      row.coveredLines.length = row.covered ∧ row.executableLines.length = row.stmts := by
  have hCovered := countMarked_le_length lines
  refine ⟨Nat.add_sub_cancel' hCovered, countMarked_le_length branches, fun line hLine => ?_, ?_, ?_⟩
  · exact (mem_insertionSort _).mpr
      (marked_subset_keys lines ((mem_insertionSort _).mp hLine))
  · exact (length_insertionSort _ _).trans (length_marked lines)
  · exact (length_insertionSort _ _).trans (length_map _)

def Coverage.coveredFunctions (coverage : Coverage) (file : Text) : ℕ :=
  coverage.functionRows.countP fun row => row.file = file ∧ row.covered

def Evidence.OwnsFunctions (evidence : Evidence) : Prop :=
  ∀ file, ∀ pair ∈ evidence.functionsOf file, pair.2.file = file

theorem ownsFunctions_mergeFunctions {file : Text} {functions : Dict FunctionIdentity FunctionRow}
    (h : ∀ pair ∈ functions, pair.2.file = file) (found : List GcovFunction) :
    ∀ pair ∈ found.foldl (mergeFunction file) functions, pair.2.file = file := by
  induction found generalizing functions with
  | nil => exact h
  | cons function found ih =>
    refine ih fun pair hPair => ?_
    rcases mem_of_mem_set hPair with rfl | hOld
    · rfl
    · exact h pair hOld

theorem ownsFunctions_mergeSource {evidence : Evidence} (h : evidence.OwnsFunctions) (relative : Text)
    (source : GcovFile) : (evidence.mergeSource relative source).OwnsFunctions := by
  intro file
  unfold functionsOf mergeSource
  by_cases hFile : relative = file
  · subst hFile
    rw [get?_set_self]
    exact ownsFunctions_mergeFunctions (h relative) _
  · rw [get?_set_of_ne hFile]
    exact h file

variable {reports : List GcovReport}

theorem ownsFunctions_gatherAll (h : gatherAll tree reports = .ok found) :
    found.merged.evidence.OwnsFunctions := by
  refine foldlM_invariant (fun found : Gathering => found.merged.evidence.OwnsFunctions)
    (fun found report next _ hOwns hStep => ?_) (fun _ _ hPair => absurd hPair not_mem_nil) h
  have hMerge := (gather_eq_ok hStep).2.2.2
  refine foldlM_invariant (fun merged : Merged => merged.evidence.OwnsFunctions)
    (fun merged source next _ hOwns hStep => ?_) hOwns hMerge
  obtain ⟨relative?, -, hStep⟩ := bind_eq_ok.mp hStep
  cases relative? with
  | none =>
    cases hStep
    exact hOwns
  | some relative =>
    cases hStep
    exact ownsFunctions_mergeSource hOwns relative source

theorem countP_flatMap_of_key {α : Type} {rows : Text → List α} {key : α → Text} {holds : α → Bool}
    (hKey : ∀ file, ∀ row ∈ rows file, key row = file) {files : List Text} (hFiles : files.Nodup)
    (file : Text) :
    (files.flatMap rows).countP (fun row => decide (key row = file) && holds row) =
      if file ∈ files then (rows file).countP holds else 0 := by
  induction files with
  | nil => rfl
  | cons other files ih =>
    obtain ⟨hNot, hFiles⟩ := nodup_cons.mp hFiles
    rw [flatMap_cons, countP_append, ih hFiles]
    by_cases hSame : other = file
    · subst hSame
      rw [if_neg hNot, if_pos mem_cons_self, Nat.add_zero]
      exact countP_congr fun row hRow => by simp [hKey _ row hRow]
    · have hNone : (rows other).countP (fun row => decide (key row = file) && holds row) = 0 := by
        refine countP_eq_zero.mpr fun row hRow => ?_
        simp [hKey _ row hRow, hSame]
      have hMem : file ∈ other :: files ↔ file ∈ files := by simp [Ne.symm hSame]
      rw [hNone, Nat.zero_add]
      simp only [hMem]

theorem coveredFunctions_eq (h : gatherAll tree reports = .ok found) (reportCount : ℕ)
    (observed : Finset Text) (file : Text) :
    (summarize tree reportCount found observed).coveredFunctions file =
      if file ∈ tree.sourceFiles then
        (functionMarks (found.merged.evidence.functionsOf file)).countMarked else 0 := by
  have hOwns : ∀ file, ∀ row ∈ (found.merged.evidence.functionsOf file).values, row.file = file := by
    intro file row hRow
    obtain ⟨pair, hPair, rfl⟩ := mem_map.mp hRow
    exact ownsFunctions_gatherAll h file pair hPair
  have hMarks : ((found.merged.evidence.functionsOf file).values).countP (·.covered) =
      (functionMarks (found.merged.evidence.functionsOf file)).countMarked := by
    unfold countMarked functionMarks values
    rw [List.map_map, count_eq_countP, countP_map, countP_map]
    exact countP_congr fun pair _ => by simp
  unfold Coverage.coveredFunctions summarize
  rw [(perm_insertionSort _ _).countP_eq]
  simp only [Bool.decide_and, Bool.decide_eq_true]
  rw [countP_flatMap_of_key hOwns (Finset.sort_nodup _ _), hMarks]
  simp only [Finset.mem_sort]

structure GcovFile.Reordered (source source' : GcovFile) : Prop where
  file : source.file = source'.file
  functions : source.functions.Perm source'.functions
  lines : source.lines.Perm source'.lines

structure GcovReport.Reordered (report report' : GcovReport) : Prop where
  directory : report.currentWorkingDirectory = report'.currentWorkingDirectory
  files : ∃ files, report.files.Perm files ∧ List.Forall₂ GcovFile.Reordered files report'.files

def ReorderedReports (reports reports' : List GcovReport) : Prop :=
  ∃ shuffled, reports.Perm shuffled ∧ List.Forall₂ GcovReport.Reordered shuffled reports'

variable {reports reports' : List GcovReport}

theorem Within.of_subset (h : reports ⊆ reports') : Within reports reports' :=
  fun report hReport => ⟨report, h hReport, rfl, fun source hSource =>
    ⟨source, hSource, rfl, Subset.refl _, Subset.refl _⟩⟩

theorem exists_of_forall₂ {α β : Type} {related : α → β → Prop} {l : List α} {l' : List β}
    (h : List.Forall₂ related l l') : (∀ a ∈ l, ∃ b ∈ l', related a b) ∧ ∀ b ∈ l', ∃ a ∈ l, related a b := by
  induction h with
  | nil => exact ⟨nofun, nofun⟩
  | cons hHead _ ih =>
    refine ⟨forall_mem_cons.mpr ⟨⟨_, mem_cons_self, hHead⟩, fun a ha => ?_⟩,
      forall_mem_cons.mpr ⟨⟨_, mem_cons_self, hHead⟩, fun b hb => ?_⟩⟩
    · obtain ⟨b, hb, hRelated⟩ := ih.1 a ha
      exact ⟨b, mem_cons_of_mem _ hb, hRelated⟩
    · obtain ⟨a, ha, hRelated⟩ := ih.2 b hb
      exact ⟨a, mem_cons_of_mem _ ha, hRelated⟩

theorem ReorderedReports.within (h : ReorderedReports reports reports') : Within reports reports' := by
  obtain ⟨shuffled, hPerm, hEach⟩ := h
  intro report hReport
  obtain ⟨report', hReport', hDirectory, files, hFiles, hSources⟩ :=
    (exists_of_forall₂ hEach).1 report (hPerm.mem_iff.mp hReport)
  refine ⟨report', hReport', hDirectory.symm, fun source hSource => ?_⟩
  obtain ⟨source', hSource', hSame⟩ := (exists_of_forall₂ hSources).1 source (hFiles.mem_iff.mp hSource)
  exact ⟨source', hSource', hSame.file.symm, hSame.lines.subset, hSame.functions.subset⟩

theorem ReorderedReports.within' (h : ReorderedReports reports reports') : Within reports' reports := by
  obtain ⟨shuffled, hPerm, hEach⟩ := h
  intro report' hReport'
  obtain ⟨report, hReport, hDirectory, files, hFiles, hSources⟩ :=
    (exists_of_forall₂ hEach).2 report' hReport'
  refine ⟨report, hPerm.mem_iff.mpr hReport, hDirectory, fun source' hSource' => ?_⟩
  obtain ⟨source, hSource, hSame⟩ := (exists_of_forall₂ hSources).2 source' hSource'
  exact ⟨source, hFiles.mem_iff.mpr hSource, hSame.file, hSame.lines.symm.subset,
    hSame.functions.symm.subset⟩

/-! ## Parsing -/

theorem parseGcovJsonDir_eq_ok {coverage : Coverage} (h : parseGcovJsonDir tree reports = .ok coverage) :
    reports.length ≤ maxReports ∧ reports ≠ [] ∧ ∃ found, gatherAll tree reports = .ok found ∧
      tree.sourceFiles ⊆ found.merged.evidence.observed ∧
      coverage = summarize tree reports.length found found.merged.evidence.observed := by
  unfold parseGcovJsonDir at h
  split_ifs at h with hCount hNone
  obtain ⟨found, hFound, h⟩ := bind_eq_ok.mp h
  obtain ⟨observed, hObserved, h⟩ := bind_eq_ok.mp h
  cases h
  unfold requireCompleteSourceCoverage at hObserved
  dsimp only at hObserved
  split_ifs at hObserved with hMissing
  cases hObserved
  refine ⟨not_lt.mp hCount, hNone, found, hFound, ?_, rfl⟩
  have hLength := congrArg List.length hMissing
  rw [Finset.length_sort, length_nil, Finset.card_eq_zero] at hLength
  exact Finset.sdiff_eq_empty_iff_subset.mp hLength

theorem exists_parseGcovJsonDir (hCount : reports.length ≤ maxReports) (hSome : reports ≠ [])
    (hFound : gatherAll tree reports = .ok found)
    (hObserved : tree.sourceFiles ⊆ found.merged.evidence.observed) :
    ∃ coverage, parseGcovJsonDir tree reports = .ok coverage := by
  have hMissing : (tree.sourceFiles \ found.merged.evidence.observed).sort (· ≤ ·) = [] := by
    rw [Finset.sdiff_eq_empty_iff_subset.mpr hObserved, Finset.sort_empty]
  have hComplete : requireCompleteSourceCoverage tree found.merged.evidence =
      .ok found.merged.evidence.observed := if_pos hMissing
  unfold parseGcovJsonDir
  rw [if_neg (not_lt.mpr hCount), if_neg hSome]
  exact ⟨_, step hFound (step hComplete rfl)⟩

structure Coverage.Same (coverage coverage' : Coverage) : Prop where
  rows : coverage.rows = coverage'.rows
  functions : ∀ file, coverage.coveredFunctions file = coverage'.coveredFunctions file

structure Coverage.Below (coverage coverage' : Coverage) : Prop where
  rows : List.Forall₂ CoverageRow.Below coverage.rows coverage'.rows
  functions : ∀ file, coverage.coveredFunctions file ≤ coverage'.coveredFunctions file

section Compared

variable {reports reports' : List GcovReport} {coverage coverage' : Coverage}
  (h : parseGcovJsonDir tree reports = .ok coverage)
  (h' : parseGcovJsonDir tree reports' = .ok coverage')
include h h'

theorem same_of_within (hWithin : Within reports reports') (hWithin' : Within reports' reports) :
    coverage.Same coverage' := by
  obtain ⟨-, -, found, hFound, -, rfl⟩ := parseGcovJsonDir_eq_ok h
  obtain ⟨-, -, found', hFound', -, rfl⟩ := parseGcovJsonDir_eq_ok h'
  have hBelow := hWithin.below hFound hFound'
  have hAbove := hWithin'.below hFound' hFound
  refine ⟨map_congr_left fun file _ => row_eq hFound hFound' hBelow hAbove file,
    fun file => ?_⟩
  rw [coveredFunctions_eq hFound, coveredFunctions_eq hFound']
  have hCount := le_antisymm
    ((hBelow.functions file).countMarked_le (nodup_functionMarks hFound file)
      (nodup_functionMarks hFound' file))
    ((hAbove.functions file).countMarked_le (nodup_functionMarks hFound' file)
      (nodup_functionMarks hFound file))
  rw [hCount]

theorem below_of_within (hWithin : Within reports reports') : coverage.Below coverage' := by
  obtain ⟨-, -, found, hFound, -, rfl⟩ := parseGcovJsonDir_eq_ok h
  obtain ⟨-, -, found', hFound', -, rfl⟩ := parseGcovJsonDir_eq_ok h'
  have hBelow := hWithin.below hFound hFound'
  refine ⟨?_, fun file => ?_⟩
  · refine forall₂_map_left_iff.mpr (forall₂_map_right_iff.mpr (forall₂_same.mpr ?_))
    exact fun file _ => row_below hFound hFound' hBelow file
  · rw [coveredFunctions_eq hFound, coveredFunctions_eq hFound']
    split
    · exact (hBelow.functions file).countMarked_le (nodup_functionMarks hFound file)
        (nodup_functionMarks hFound' file)
    · exact le_refl 0

end Compared

/-- Aggregation is a merge: accepted in every order of the reports, with the same rows whatever the
order of reports, files and lines, idempotent, and monotone down to every line, branch and function;
and its rows add up, one for each source. -/
theorem parseGcovJsonDir_lattice {reports : List GcovReport} {coverage : Coverage}
    (h : parseGcovJsonDir tree reports = .ok coverage) :
    (∀ reports', reports.Perm reports' → ∃ coverage', parseGcovJsonDir tree reports' = .ok coverage') ∧
    (∀ reports' coverage', ReorderedReports reports reports' →
      parseGcovJsonDir tree reports' = .ok coverage' → coverage.Same coverage') ∧
    (∀ report ∈ reports, ∀ reports' coverage', (report :: reports).Perm reports' →
      parseGcovJsonDir tree reports' = .ok coverage' → coverage.Same coverage') ∧
    (∀ report reports' coverage', (report :: reports).Perm reports' →
      parseGcovJsonDir tree reports' = .ok coverage' → coverage.Below coverage' ∧
        ∃ found found', gatherAll tree reports = .ok found ∧ gatherAll tree reports' = .ok found' ∧
          found.merged.evidence.Below found'.merged.evidence) ∧
    (∀ row ∈ coverage.rows, row.covered + row.miss = row.stmts ∧ row.cb ≤ row.nb ∧
      row.coveredLines ⊆ row.executableLines ∧ row.coveredLines.length = row.covered ∧
      row.executableLines.length = row.stmts) ∧
    ∀ source ∈ tree.sourceFiles, ∃ row ∈ coverage.rows, row.file = source := by
  obtain ⟨hCount, hSome, found, hFound, hObserved, hCoverage⟩ := parseGcovJsonDir_eq_ok h
  have hAdded {report : GcovReport} {reports' : List GcovReport}
      (hPerm : (report :: reports).Perm reports') : Within reports reports' :=
    .of_subset fun other hOther => hPerm.mem_iff.mp (mem_cons_of_mem _ hOther)
  refine ⟨fun reports' hPerm => ?_, fun reports' coverage' hReordered h' => ?_,
    fun report hReport reports' coverage' hPerm h' => ?_, fun report reports' coverage' hPerm h' => ?_,
    ?_, fun source hSource => ?_⟩
  · obtain ⟨found', hFound'⟩ := exists_gatherAll_of_perm hPerm ⟨found, hFound⟩
    refine exists_parseGcovJsonDir (hPerm.length_eq ▸ hCount)
      (fun hNone => hSome (Perm.eq_nil (hNone ▸ hPerm))) hFound' (hObserved.trans ?_)
    exact (Within.of_subset hPerm.subset).observed hFound hFound'
  · exact same_of_within h h' hReordered.within hReordered.within'
  · refine same_of_within h h' (hAdded hPerm) (.of_subset fun other hOther => ?_)
    rcases mem_cons.mp (hPerm.mem_iff.mpr hOther) with rfl | hOther
    · exact hReport
    · exact hOther
  · obtain ⟨-, -, found', hFound', -, -⟩ := parseGcovJsonDir_eq_ok h'
    exact ⟨below_of_within h h' (hAdded hPerm), found, found', hFound, hFound',
      (hAdded hPerm).below hFound hFound'⟩
  · subst hCoverage
    exact forall_mem_map.mpr fun file _ => coverageRow_counts file _ _
  · subst hCoverage
    exact ⟨found.merged.evidence.row source,
      mem_map.mpr ⟨source, (Finset.mem_sort _).mpr hSource, rfl⟩, rfl⟩

def smallTree : SourceTree where
  root := py "/p"
  sourceFiles := {py "a.cpp"}
  relativeTo path := if path = py "/p/a.cpp" then some (py "a.cpp") else none

def smallReport : GcovReport where
  currentWorkingDirectory := py "/p"
  formatVersion := 2
  gccVersion := py "13.2"
  files := [{
    file := py "a.cpp"
    functions := [⟨py "f", 2, 9, 3, py "_f", 1, 7⟩]
    lines := [⟨[2], [⟨3, some 3, true, some 2, false⟩], [], 3, 8, py "_f"⟩,
      ⟨[2], [⟨0, some 4, false, some 2, false⟩], [], 0, 8, py "_g"⟩] }]
  compressedBytes := 200
  decompressedBytes := 600

theorem parseGcovJsonDir_small : ∃ coverage, parseGcovJsonDir smallTree [smallReport] = .ok coverage ∧
    ∃ row ∈ coverage.rows, row.file = py "a.cpp" ∧ row.covered + row.miss = row.stmts := by
  obtain ⟨found, hFound⟩ : ∃ found, gatherAll smallTree [smallReport] = .ok found :=
    ⟨_, rfl⟩
  have hObserved : smallTree.sourceFiles ⊆ found.merged.evidence.observed := by
    cases hFound
    decide
  obtain ⟨coverage, hCoverage⟩ := exists_parseGcovJsonDir (by decide) (by decide) hFound hObserved
  obtain ⟨-, -, -, -, hCounts, hSources⟩ := parseGcovJsonDir_lattice hCoverage
  obtain ⟨row, hRow, hFile⟩ := hSources (py "a.cpp") (by decide)
  exact ⟨coverage, hCoverage, row, hRow, hFile, (hCounts row hRow).1⟩

end Ici
