import Ici.Analysis.CoverageSupport

/-! # What the merged evidence is made of

For every file the evidence is what the records of its sources mark, whatever report they stand in. -/

namespace Ici

open List Raising Python Dict Evidence

variable {tree : SourceTree}

/-- `d.map covered`. -/
def functionMarks (functions : Dict FunctionIdentity FunctionRow) : Dict FunctionIdentity Bool :=
  functions.map fun pair => (pair.1, pair.2.covered)

def functionRecords (source : GcovFile) : List (FunctionIdentity × Bool) :=
  source.functions.map fun function => (function.identity, decide (0 < function.executionCount))

theorem functionMarks_set (functions : Dict FunctionIdentity FunctionRow) (identity : FunctionIdentity)
    (row : FunctionRow) :
    functionMarks (functions.set identity row) = (functionMarks functions).set identity row.covered := by
  induction functions with
  | nil => rfl
  | cons pair rest ih =>
    obtain ⟨key, value⟩ := pair
    unfold functionMarks at ih ⊢
    by_cases hKey : key = identity
    · simp [Dict.set, hKey]
    · simp [Dict.set, hKey, ih]

section

variable (relative : Text) (functions : Dict FunctionIdentity FunctionRow)

theorem functionMarks_mergeFunction (function : GcovFunction) :
    functionMarks (mergeFunction relative functions function) =
      (functionMarks functions).mark (function.identity, decide (0 < function.executionCount)) := by
  have hPrevious : ((functionMarks functions).get? function.identity).getD false =
      (functions.get? function.identity).any (·.covered) := by
    rw [functionMarks, get?_map]
    cases functions.get? function.identity <;> rfl
  unfold mergeFunction
  rw [functionMarks_set, mark, hPrevious, Bool.or_comm]

theorem functionMarks_foldl (found : List GcovFunction) :
    functionMarks (found.foldl (mergeFunction relative) functions) =
      (functionMarks functions).markAll (found.map fun function =>
        (function.identity, decide (0 < function.executionCount))) := by
  induction found generalizing functions with
  | nil => rfl
  | cons function found ih =>
    rw [foldl_cons, ih, functionMarks_mergeFunction]
    rfl

end

theorem parseGcovJsonGz_eq_ok_iff (maxCompressed maxDecompressed : ℕ) {report read : GcovReport} :
    parseGcovJsonGz maxCompressed maxDecompressed report = .ok read ↔
      read = report ∧ report.compressedBytes ≤ maxCompressed ∧
        report.decompressedBytes ≤ maxDecompressed := by
  unfold parseGcovJsonGz
  split_ifs with hCompressed hDecompressed
  · exact iff_of_false nofun fun h => absurd h.2.1 (not_le.mpr hCompressed)
  · exact iff_of_false nofun fun h => absurd h.2.2 (not_le.mpr hDecompressed)
  · rw [Except.ok.injEq, eq_comm]
    exact (and_iff_left ⟨not_lt.mp hCompressed, not_lt.mp hDecompressed⟩).symm

theorem readReportWithinBudget_eq_ok_iff {tally : GcovJsonTally} {report read : GcovReport} :
    readReportWithinBudget tally report = .ok read ↔ read = report ∧
      report.compressedBytes ≤ maxCompressedBytes ∧ report.decompressedBytes ≤ maxDecompressedBytes ∧
      tally.compressedBytes + report.compressedBytes ≤ maxTotalCompressedBytes ∧
      tally.decompressedBytes + report.decompressedBytes ≤ maxTotalDecompressedBytes := by
  have hCompressed := report.compressed_pos
  have hDecompressed := report.decompressed_pos
  unfold readReportWithinBudget
  dsimp only
  split_ifs with hExhausted
  · refine iff_of_false nofun fun h => ?_
    omega
  · obtain ⟨hCompressedLeft, hDecompressedLeft⟩ := not_or.mp hExhausted
    have hParse : parseGcovJsonGz _ _ report = .ok read ↔ _ := parseGcovJsonGz_eq_ok_iff
      (min maxCompressedBytes (maxTotalCompressedBytes - tally.compressedBytes))
      (min maxDecompressedBytes (maxTotalDecompressedBytes - tally.decompressedBytes))
    have hLimits : (report.compressedBytes ≤
          min maxCompressedBytes (maxTotalCompressedBytes - tally.compressedBytes) ∧
        report.decompressedBytes ≤
          min maxDecompressedBytes (maxTotalDecompressedBytes - tally.decompressedBytes)) ↔
        report.compressedBytes ≤ maxCompressedBytes ∧ report.decompressedBytes ≤ maxDecompressedBytes ∧
          tally.compressedBytes + report.compressedBytes ≤ maxTotalCompressedBytes ∧
          tally.decompressedBytes + report.decompressedBytes ≤ maxTotalDecompressedBytes := by
      omega
    rw [hLimits] at hParse
    rw [← hParse]
    split
    · rename_i hOk
      rw [hOk]
    · rename_i error hError
      rw [hError]
      split <;> exact iff_of_false nofun nofun

structure IsReadBy {κ : Type} [DecidableEq κ] (file : Text) (records : GcovFile → List (κ × Bool))
    (view : Evidence → Dict κ Bool) : Prop where
  empty : view {} = []
  same : ∀ evidence source, view (evidence.mergeSource file source) =
    (view evidence).markAll (records source)
  other : ∀ evidence relative source, relative ≠ file →
    view (evidence.mergeSource relative source) = view evidence

theorem isReadBy_lines (file : Text) : IsReadBy file lineRecords (·.linesOf file) where
  empty := rfl
  same evidence source := by
    unfold linesOf mergeSource
    rw [get?_set_self]
    rfl
  other evidence relative source h := by
    unfold linesOf mergeSource
    rw [get?_set_of_ne h]

theorem isReadBy_branches (file : Text) : IsReadBy file branchRecords (·.branchesOf file) where
  empty := rfl
  same evidence source := by
    unfold branchesOf mergeSource
    rw [get?_set_self]
    rfl
  other evidence relative source h := by
    unfold branchesOf mergeSource
    rw [get?_set_of_ne h]

theorem isReadBy_functions (file : Text) :
    IsReadBy file functionRecords fun evidence => functionMarks (evidence.functionsOf file) where
  empty := rfl
  same evidence source := by
    rw [functionRecords, ← functionMarks_foldl file]
    unfold functionsOf mergeSource
    rw [get?_set_self]
    rfl
  other evidence relative source h := by
    unfold functionsOf mergeSource
    rw [get?_set_of_ne h]

def SourceTree.sourcesOf (tree : SourceTree) (file : Text) (report : GcovReport) : List GcovFile :=
  report.files.filter fun source =>
    gcovJsonSourcePath tree source.file report.currentWorkingDirectory = .ok (some file)

section View

variable {κ : Type} [DecidableEq κ] {file : Text} {records : GcovFile → List (κ × Bool)}
  {view : Evidence → Dict κ Bool}

theorem IsReadBy.mergeFile (hView : IsReadBy file records view) {directory : Text} {merged merged' : Merged}
    {source : GcovFile} (h : mergeFile tree directory merged source = .ok merged') :
    view merged'.evidence = (view merged.evidence).markAll
      (([source].filter fun source =>
        gcovJsonSourcePath tree source.file directory = .ok (some file)).flatMap records) := by
  obtain ⟨relative?, hPath, h⟩ := bind_eq_ok.mp h
  rw [filter_singleton, hPath]
  cases relative? with
  | none =>
    cases h
    rfl
  | some relative =>
    cases h
    by_cases hFile : relative = file
    · subst hFile
      simp [hView.same]
    · simp [hView.other _ _ _ hFile, hFile, markAll]

theorem IsReadBy.mergeGcovJsonReport (hView : IsReadBy file records view) {merged merged' : Merged}
    {report : GcovReport} (h : mergeGcovJsonReport tree merged report = .ok merged') :
    view merged'.evidence =
      (view merged.evidence).markAll ((tree.sourcesOf file report).flatMap records) := by
  unfold Ici.mergeGcovJsonReport at h
  unfold SourceTree.sourcesOf
  generalize report.files = files at h
  induction files generalizing merged with
  | nil =>
    cases h
    rfl
  | cons source files ih =>
    obtain ⟨next, hFirst, hRest⟩ := foldlM_cons_eq_ok.mp h
    rw [ih hRest, hView.mergeFile hFirst, ← markAll_append, ← flatMap_append,
      ← filter_append, singleton_append]

theorem gather_eq_ok {found found' : Gathering} {report : GcovReport}
    (h : gather tree found report = .ok found') :
    readReportWithinBudget found.tally report = .ok report ∧
      found.tally.absorb report = .ok found'.tally ∧
      requireUniformToolchain found.toolchain report = .ok found'.toolchain ∧
      mergeGcovJsonReport tree found.merged report = .ok found'.merged := by
  obtain ⟨read, hRead, h⟩ := bind_eq_ok.mp h
  obtain ⟨tally, hTally, h⟩ := bind_eq_ok.mp h
  obtain ⟨toolchain, hToolchain, h⟩ := bind_eq_ok.mp h
  obtain ⟨merged, hMerged, h⟩ := bind_eq_ok.mp h
  cases h
  obtain ⟨rfl, -⟩ := readReportWithinBudget_eq_ok_iff.mp hRead
  exact ⟨hRead, hTally, hToolchain, hMerged⟩

theorem IsReadBy.gatherAll (hView : IsReadBy file records view) {reports : List GcovReport}
    {found : Gathering} (h : gatherAll tree reports = .ok found) :
    view found.merged.evidence =
      markAll [] ((reports.flatMap (tree.sourcesOf file)).flatMap records) := by
  have hRun (start : Gathering) (hFold : reports.foldlM (gather tree) start = .ok found) :
      view found.merged.evidence = (view start.merged.evidence).markAll
        ((reports.flatMap (tree.sourcesOf file)).flatMap records) := by
    clear h
    induction reports generalizing start with
    | nil =>
      cases hFold
      rfl
    | cons report reports ih =>
      obtain ⟨next, hFirst, hRest⟩ := foldlM_cons_eq_ok.mp hFold
      rw [ih next hRest, hView.mergeGcovJsonReport (gather_eq_ok hFirst).2.2.2, ← markAll_append,
        flatMap_cons, flatMap_append]
  rw [hRun {} h]
  exact congrArg (markAll · _) hView.empty

end View

/-! ## Reports that show at least as much -/

def Within (reports reports' : List GcovReport) : Prop :=
  ∀ report ∈ reports, ∃ report' ∈ reports',
    report'.currentWorkingDirectory = report.currentWorkingDirectory ∧
    ∀ source ∈ report.files, ∃ source' ∈ report'.files, source'.file = source.file ∧
      source.lines ⊆ source'.lines ∧ source.functions ⊆ source'.functions

def IsMonotone {κ : Type} (records : GcovFile → List (κ × Bool)) : Prop :=
  ∀ source source' : GcovFile, source.lines ⊆ source'.lines → source.functions ⊆ source'.functions →
    records source ⊆ records source'

theorem isMonotone_lines : IsMonotone lineRecords :=
  fun _ _ hLines _ => map_subset _ hLines

theorem isMonotone_branches : IsMonotone branchRecords := by
  intro source source' hLines _ record hRecord
  obtain ⟨line, hLine, hBranch⟩ := mem_flatMap.mp hRecord
  exact mem_flatMap.mpr ⟨line, hLines hLine, hBranch⟩

theorem isMonotone_functions : IsMonotone functionRecords :=
  fun _ _ _ hFunctions => map_subset _ hFunctions

theorem Within.records_subset {κ : Type} {records : GcovFile → List (κ × Bool)}
    (hRecords : IsMonotone records) {reports reports' : List GcovReport} (h : Within reports reports')
    (file : Text) :
    (reports.flatMap (tree.sourcesOf file)).flatMap records ⊆
      (reports'.flatMap (tree.sourcesOf file)).flatMap records := by
  intro record hRecord
  obtain ⟨source, hSource, hRecord⟩ := mem_flatMap.mp hRecord
  obtain ⟨report, hReport, hSource⟩ := mem_flatMap.mp hSource
  obtain ⟨hSource, hPath⟩ := mem_filter.mp hSource
  obtain ⟨report', hReport', hDirectory, hSources⟩ := h report hReport
  obtain ⟨source', hSource', hFile, hLines, hFunctions⟩ := hSources source hSource
  refine mem_flatMap.mpr ⟨source', ?_, hRecords source source' hLines hFunctions hRecord⟩
  refine mem_flatMap.mpr ⟨report', hReport', mem_filter.mpr ⟨hSource', ?_⟩⟩
  rwa [hFile, hDirectory]

structure Evidence.Below (evidence evidence' : Evidence) : Prop where
  lines : ∀ file, (evidence.linesOf file).Below (evidence'.linesOf file)
  branches : ∀ file, (evidence.branchesOf file).Below (evidence'.branchesOf file)
  functions : ∀ file, (functionMarks (evidence.functionsOf file)).Below
    (functionMarks (evidence'.functionsOf file))

theorem Within.below {reports reports' : List GcovReport} (h : Within reports reports')
    {found found' : Gathering} (hFound : gatherAll tree reports = .ok found)
    (hFound' : gatherAll tree reports' = .ok found') :
    found.merged.evidence.Below found'.merged.evidence where
  lines file := by
    rw [(isReadBy_lines file).gatherAll hFound, (isReadBy_lines file).gatherAll hFound']
    exact markAll_below (h.records_subset isMonotone_lines file)
  branches file := by
    rw [(isReadBy_branches file).gatherAll hFound, (isReadBy_branches file).gatherAll hFound']
    exact markAll_below (h.records_subset isMonotone_branches file)
  functions file := by
    rw [(isReadBy_functions file).gatherAll hFound, (isReadBy_functions file).gatherAll hFound']
    exact markAll_below (h.records_subset isMonotone_functions file)

end Ici

/-! ## Which reports are aggregated

Each condition is about a report by itself or about a total, so their order is irrelevant. -/

namespace Ici

open List Raising Python Dict

variable {tree : SourceTree}

structure GcovJsonTally.Fits (tally : GcovJsonTally) : Prop where
  compressed : tally.compressedBytes ≤ maxTotalCompressedBytes
  decompressed : tally.decompressedBytes ≤ maxTotalDecompressedBytes
  limits : ∀ limit ∈ tally.limits, limit.1 ≤ limit.2.1

variable {tally : GcovJsonTally} {report : GcovReport} {reports : List GcovReport} {seen : Toolchain}
  {found : Gathering}

theorem GcovJsonTally.absorb_eq_ok_iff {tally' : GcovJsonTally} : tally.absorb report = .ok tally' ↔
      tally' = tally.add report ∧ ∀ limit ∈ (tally.add report).limits, limit.1 ≤ limit.2.1 := by
  have hLimit (limit : ℕ × ℕ × Text) : requireLimit limit = .ok () ↔ limit.1 ≤ limit.2.1 := by
    obtain ⟨observedCount, maximum, label⟩ := limit
    change (if maximum < observedCount then _ else Except.ok ()) = .ok () ↔ observedCount ≤ maximum
    split_ifs with hOver
    · exact iff_of_false nofun (not_le.mpr hOver)
    · exact iff_of_true rfl (not_lt.mp hOver)
  unfold absorb
  rw [seq_eq_ok, forM_eq_ok, and_comm]
  simp only [hLimit]
  exact and_congr_left fun _ => ⟨fun h => (Except.ok.inj h).symm, fun h => h ▸ rfl⟩

theorem GcovJsonTally.fits_of_add (h : (tally.add report).Fits) : tally.Fits where
  compressed := (Nat.le_add_right _ _).trans h.compressed
  decompressed := (Nat.le_add_right _ _).trans h.decompressed
  limits := by
    have hLimits := h.limits
    simp only [limits, add, forall_mem_cons] at hLimits ⊢
    obtain ⟨hFiles, hFunctions, hLines, hBranches, hCalls, -⟩ := hLimits
    exact ⟨by omega, by omega, by omega, by omega, by omega, nofun⟩

theorem GcovJsonTally.fits_of_foldl (h : (reports.foldl add tally).Fits) : tally.Fits := by
  induction reports generalizing tally with
  | nil => exact h
  | cons report reports ih => exact fits_of_add (ih h)

instance : RightCommutative GcovJsonTally.add where
  right_comm tally report report' := by
    simp only [GcovJsonTally.add, GcovJsonTally.mk.injEq]
    exact ⟨by omega, by omega, by omega, by omega, by omega, by omega, by omega, by omega, by omega⟩

def Toolchain.add (seen : Toolchain) (report : GcovReport) : Toolchain where
  versions := insert report.formatVersion seen.versions
  gccVersions := insert report.gccVersion seen.gccVersions

structure Toolchain.Uniform (seen : Toolchain) : Prop where
  versions : seen.versions.card ≤ 1
  gccVersions : seen.gccVersions.card ≤ 1

theorem card_insert_le_one_iff {α : Type} [DecidableEq α] {s : Finset α} {a : α} (h : s.card ≤ 1) :
    (insert a s).card ≤ 1 ↔ ¬(s ≠ ∅ ∧ a ∉ s) := by
  rcases s.eq_empty_or_nonempty with rfl | hSome
  · simp
  · by_cases hMem : a ∈ s
    · simpa [Finset.insert_eq_of_mem hMem, hMem] using h
    · have hPos := hSome.card_pos
      rw [Finset.card_insert_of_notMem hMem]
      exact iff_of_false (by omega) (not_not.mpr ⟨hSome.ne_empty, hMem⟩)

theorem requireUniformToolchain_eq_ok_iff {seen' : Toolchain}
    (h : seen.Uniform) : requireUniformToolchain seen report = .ok seen' ↔
      seen' = seen.add report ∧ (seen.add report).Uniform := by
  have hUniform : (seen.add report).Uniform ↔
      ¬(seen.versions ≠ ∅ ∧ report.formatVersion ∉ seen.versions) ∧
        ¬(seen.gccVersions ≠ ∅ ∧ report.gccVersion ∉ seen.gccVersions) := by
    rw [← card_insert_le_one_iff h.versions, ← card_insert_le_one_iff h.gccVersions]
    exact ⟨fun hAll => ⟨hAll.versions, hAll.gccVersions⟩, fun hAll => ⟨hAll.1, hAll.2⟩⟩
  rw [hUniform]
  unfold requireUniformToolchain
  split_ifs with hVersion hGcc
  · exact iff_of_false nofun fun hAll => hAll.2.1 hVersion
  · exact iff_of_false nofun fun hAll => hAll.2.2 hGcc
  · rw [Except.ok.injEq, eq_comm]
    exact (and_iff_left ⟨hVersion, hGcc⟩).symm

theorem Toolchain.uniform_of_foldl (h : (reports.foldl add seen).Uniform) : seen.Uniform := by
  induction reports generalizing seen with
  | nil => exact h
  | cons report reports ih =>
    have hNext := ih h
    exact ⟨(Finset.card_le_card (Finset.subset_insert _ _)).trans hNext.versions,
      (Finset.card_le_card (Finset.subset_insert _ _)).trans hNext.gccVersions⟩

instance : RightCommutative Toolchain.add where
  right_comm seen report report' := by
    simp only [Toolchain.add, Toolchain.mk.injEq]
    exact ⟨Finset.insert_comm _ _ _, Finset.insert_comm _ _ _⟩

structure GcovReport.IsReadable (tree : SourceTree) (report : GcovReport) : Prop where
  compressed : report.compressedBytes ≤ maxCompressedBytes
  decompressed : report.decompressedBytes ≤ maxDecompressedBytes
  paths : ∀ source ∈ report.files, ∃ relative?,
    gcovJsonSourcePath tree source.file report.currentWorkingDirectory = .ok relative?

theorem exists_mergeGcovJsonReport_iff (merged : Merged) {report : GcovReport} :
    (∃ merged', mergeGcovJsonReport tree merged report = .ok merged') ↔
      ∀ source ∈ report.files, ∃ relative?,
        gcovJsonSourcePath tree source.file report.currentWorkingDirectory = .ok relative? := by
  refine exists_foldlM_iff _ (fun merged source _ => ?_) _
  constructor
  · rintro ⟨merged', h⟩
    obtain ⟨relative?, hPath, -⟩ := bind_eq_ok.mp h
    exact ⟨relative?, hPath⟩
  · rintro ⟨relative?, hPath⟩
    cases relative? with
    | none | some relative => exact ⟨_, step hPath rfl⟩

theorem exists_gather_iff (hUniform : found.toolchain.Uniform) {report : GcovReport} :
    (∃ found', gather tree found report = .ok found') ↔ (found.tally.add report).Fits ∧
      (found.toolchain.add report).Uniform ∧ report.IsReadable tree := by
  constructor
  · rintro ⟨found', h⟩
    obtain ⟨hRead, hAbsorb, hToolchain, hMerge⟩ := gather_eq_ok h
    obtain ⟨-, hCompressed, hDecompressed, hTotal, hTotal'⟩ := readReportWithinBudget_eq_ok_iff.mp hRead
    exact ⟨⟨hTotal, hTotal', (GcovJsonTally.absorb_eq_ok_iff.mp hAbsorb).2⟩,
      ((requireUniformToolchain_eq_ok_iff hUniform).mp hToolchain).2, hCompressed, hDecompressed,
      (exists_mergeGcovJsonReport_iff _).mp ⟨_, hMerge⟩⟩
  · rintro ⟨hFits, hNext, hReadable⟩
    have hRead : readReportWithinBudget found.tally report = .ok report :=
      readReportWithinBudget_eq_ok_iff.mpr ⟨rfl, hReadable.compressed, hReadable.decompressed,
        hFits.compressed, hFits.decompressed⟩
    have hAbsorb : found.tally.absorb report = .ok (found.tally.add report) :=
      GcovJsonTally.absorb_eq_ok_iff.mpr ⟨rfl, hFits.limits⟩
    have hToolchain := (requireUniformToolchain_eq_ok_iff hUniform).mpr ⟨rfl, hNext⟩
    obtain ⟨merged, hMerge⟩ :=
      (exists_mergeGcovJsonReport_iff found.merged).mpr hReadable.paths
    exact ⟨_, step hRead (step hAbsorb (step hToolchain
      (step hMerge rfl)))⟩

theorem gather_totals {found' : Gathering} (hUniform : found.toolchain.Uniform)
    {report : GcovReport} (h : gather tree found report = .ok found') :
    found'.tally = found.tally.add report ∧ found'.toolchain = found.toolchain.add report := by
  obtain ⟨-, hAbsorb, hToolchain, -⟩ := gather_eq_ok h
  exact ⟨(GcovJsonTally.absorb_eq_ok_iff.mp hAbsorb).1,
    ((requireUniformToolchain_eq_ok_iff hUniform).mp hToolchain).1⟩

theorem exists_foldlM_gather_iff (found : Gathering) (hTally : found.tally.Fits)
    (hUniform : found.toolchain.Uniform) {reports : List GcovReport} :
    (∃ found', reports.foldlM (gather tree) found = .ok found') ↔
      (reports.foldl GcovJsonTally.add found.tally).Fits ∧
      (reports.foldl Toolchain.add found.toolchain).Uniform ∧
      ∀ report ∈ reports, report.IsReadable tree := by
  induction reports generalizing found with
  | nil => exact iff_of_true ⟨found, rfl⟩ ⟨hTally, hUniform, nofun⟩
  | cons report reports ih =>
    rw [forall_mem_cons, foldl_cons, foldl_cons]
    constructor
    · rintro ⟨found', h⟩
      obtain ⟨next, hFirst, hRest⟩ := foldlM_cons_eq_ok.mp h
      obtain ⟨hFits, hNext, hReadable⟩ := (exists_gather_iff hUniform).mp ⟨next, hFirst⟩
      obtain ⟨hSum, hSeen⟩ := gather_totals hUniform hFirst
      obtain ⟨hAll, hOne, hEach⟩ :=
        (ih next (hSum ▸ hFits) (hSeen ▸ hNext)).mp ⟨found', hRest⟩
      rw [hSum] at hAll
      rw [hSeen] at hOne
      exact ⟨hAll, hOne, hReadable, hEach⟩
    · rintro ⟨hAll, hOne, hReadable, hEach⟩
      have hFits := GcovJsonTally.fits_of_foldl hAll
      have hNext := Toolchain.uniform_of_foldl hOne
      obtain ⟨next, hFirst⟩ := (exists_gather_iff hUniform).mpr ⟨hFits, hNext, hReadable⟩
      obtain ⟨hSum, hSeen⟩ := gather_totals hUniform hFirst
      rw [← hSum] at hAll hFits
      rw [← hSeen] at hOne hNext
      obtain ⟨found', hRest⟩ := (ih _ hFits hNext).mpr ⟨hAll, hOne, hEach⟩
      exact ⟨found', step hFirst hRest⟩

theorem exists_gatherAll_of_perm {reports' : List GcovReport} (hPerm : reports.Perm reports')
    (h : ∃ found, gatherAll tree reports = .ok found) : ∃ found, gatherAll tree reports' = .ok found := by
  have hStart : ({} : GcovJsonTally).Fits := ⟨by decide, by decide, by decide⟩
  have hSeen : ({} : Toolchain).Uniform := ⟨by decide, by decide⟩
  obtain ⟨hAll, hOne, hEach⟩ := (exists_foldlM_gather_iff {} hStart hSeen).mp h
  refine (exists_foldlM_gather_iff {} hStart hSeen).mpr ⟨?_, ?_, ?_⟩
  · rwa [← hPerm.foldl_eq]
  · rwa [← hPerm.foldl_eq]
  · exact fun report hReport => hEach report (hPerm.mem_iff.mpr hReport)

end Ici
