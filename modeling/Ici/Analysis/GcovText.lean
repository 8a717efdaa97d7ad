import Ici.Analysis.CoverageSupport
import Ici.Library.FirstMatch

/-! # The rows of gcov texts

The text parser counts one record after another. What a text tells of lines is the same evidence a
JSON report gives: which lines are executable and which of them were executed. -/

namespace Ici

open List Raising Python Dict

structure GcovTextCounts where
  covered : ℕ := 0
  miss : ℕ := 0
  branches : ℕ := 0
  coveredBranches : ℕ := 0
  missing : List ℕ := []
  coveredLines : List ℕ := []
deriving DecidableEq

namespace GcovText

variable (table : DigitTable)

/-- `int(word)` of a word without blanks, where it does not raise. -/
def intWord (word : Text) : Option ℤ :=
  let negative := word.head? = some 0x2d
  let body := if negative ∨ word.head? = some 0x2b then word.tail else word
  let digits := body.filter (· ≠ 0x5f)
  if (body.splitOn 0x5f).all (fun group => group ≠ [] && group.all table.isDecimal) ∧
      digits.length ≤ maxStrDigits then
    some (if negative then -(table.value digits : ℤ) else table.value digits)
  else none

def takenWord (line : Text) : Option Text :=
  let parts := words line
  if py "taken" ∈ parts then some ((parts.drop (parts.idxOf (py "taken") + 1)).head?.getD (py "0")) else none

section

variable (counts : GcovTextCounts)

def countBranch (line : Text) : GcovTextCounts :=
  if py "(throw)" <:+: line then counts
  else
    let taken := (takenWord line).any fun word =>
      (intWord table (word.rdropWhile (· == 0x25))).any (0 < ·)
    { counts with
      branches := counts.branches + 1
      coveredBranches := counts.coveredBranches + if taken then 1 else 0 }

/-- The count and the line number of a line with two colons, both stripped. -/
def columns (line : Text) : Option (Text × Text) :=
  (partition? (py ":") line).bind fun first =>
    (partition? (py ":") first.2).map fun second => (strip first.1, strip second.1)

/-- `int(text)` of a text that `isdigit` accepts. -/
def readNumber (t : Text) : Result ℕ :=
  if t.all table.isDecimal then table.readInt t
  else .error (valueError (py "invalid literal for int() with base 10: " ++ pyRepr t))

def missLine (number : ℕ) : GcovTextCounts :=
  { counts with miss := counts.miss + 1, missing := counts.missing ++ [number] }

def coverLine (number : ℕ) : GcovTextCounts :=
  { counts with covered := counts.covered + 1, coveredLines := counts.coveredLines ++ [number] }

/-- The digits of a count; a star says that some block of the line was not executed. -/
def executions (count : Text) : Text := count.rdropWhile (· == 0x2a)

def countRecord (count : Text) (number : ℕ) : Result GcovTextCounts :=
  if count.head? = some 0x23 then .ok (missLine counts number)
  else if table.isdigit (executions count) then
    (readNumber table (executions count)).map fun times =>
      if 0 < times then coverLine counts number else counts
  else .ok counts

/-- `_count_gcov_source`; lines that are not executable are ignored. -/
def countSource (line : Text) : Result GcovTextCounts :=
  match columns line with
  | none => .ok counts
  | some (count, lineNumber) =>
    if count.head? = some 0x2d ∨ !table.isdigit lineNumber then .ok counts
    else (readNumber table lineNumber).bind (countRecord table counts count)

def countLine (line : Text) : Result GcovTextCounts :=
  if (py "branch").isPrefixOf line then .ok (countBranch table counts line) else countSource table counts line

end

def count (content : Text) : Result GcovTextCounts := (splitLines content).foldlM (countLine table) {}

def row (relative : Text) (counts : GcovTextCounts) : CoverageRow :=
  let statements := counts.covered + counts.miss
  { file := relative
    stmts := statements
    covered := counts.covered
    miss := counts.miss
    cover := if statements = 0 then .ofRat 100 else percentage counts.covered statements
    branchCover := if counts.branches = 0 then none
      else some (percentage counts.coveredBranches counts.branches)
    nb := counts.branches
    cb := counts.coveredBranches
    missingLines := counts.missing.take 30
    executableLines := (counts.coveredLines ++ counts.missing).dedup.insertionSort (· ≤ ·)
    coveredLines := counts.coveredLines.dedup.insertionSort (· ≤ ·) }

/-- How gcov marks an executable line: `#####` and `=====` stand for one that was not executed, the
second for one only reached by exceptions. -/
inductive Mark where
  | unexecuted
  | unexceptional
  | executed
deriving DecidableEq

def markOf (count : Text) : Option Mark :=
  if count.head? = some 0x23 then some .unexecuted
  else if count.head? = some 0x3d then some .unexceptional
  else if table.isdigit (executions count) ∧ 0 < table.value (executions count) then some .executed
  else none

/-- The columns of a line that numbers a source line which is not marked as not executable. -/
def recordColumns (line : Text) : Option (Text × Text) :=
  if (py "branch").isPrefixOf line then none
  else match columns line with
    | some (count, lineNumber) =>
      if count.head? = some 0x2d ∨ !table.isdigit lineNumber then none else some (count, lineNumber)
    | none => none

def lineRecord (line : Text) : Option (ℕ × Mark) :=
  (recordColumns table line).bind fun found =>
    (markOf table found.1).map fun mark => (table.value found.2, mark)

def records (content : Text) : List (ℕ × Mark) := (splitLines content).filterMap (lineRecord table)

def numbered (mark : Mark) (records : List (ℕ × Mark)) : List ℕ :=
  (records.filter (·.2 = mark)).map Prod.fst

def evidence (content : Text) : List (ℕ × Bool) :=
  (records table content).map fun record => (record.1, decide (record.2 = .executed))

/-! ## Counting -/

/-- A number that `int` reads. -/
def IsNumber (t : Text) : Prop := t.all table.isDecimal = true ∧ t.length ≤ maxStrDigits

instance (t : Text) : Decidable (IsNumber table t) := inferInstanceAs (Decidable (_ ∧ _))

def IsReadable (line : Text) : Prop :=
  ∀ found ∈ recordColumns table line, IsNumber table found.2 ∧
    (found.1.head? ≠ some 0x23 → table.isdigit (executions found.1) = true →
      IsNumber table (executions found.1))

section

variable {table}

theorem readNumber_eq_ok_iff {t : Text} {n : ℕ} :
    readNumber table t = .ok n ↔ IsNumber table t ∧ table.value t = n := by
  unfold readNumber DigitTable.readInt IsNumber
  split_ifs with hDecimal hLength <;> simp [*]

def addRecord (counts : GcovTextCounts) : Option (ℕ × Mark) → GcovTextCounts
  | some (number, .unexecuted) => missLine counts number
  | some (number, .executed) => coverLine counts number
  | _ => counts

def SameLines (counts other : GcovTextCounts) : Prop :=
  counts.covered = other.covered ∧ counts.miss = other.miss ∧ counts.missing = other.missing ∧
    counts.coveredLines = other.coveredLines

theorem sameLines_countBranch (counts : GcovTextCounts) (line : Text) :
    SameLines (countBranch table counts line) counts := by
  unfold countBranch
  split <;> exact ⟨rfl, rfl, rfl, rfl⟩

theorem markOf_unexceptional {count : Text} (h : count.head? = some 0x3d) :
    table.isdigit (executions count) = false := by
  have hPrefix : executions count <+: count := rdropWhile_prefix _ _
  have hMem : executions count ≠ [] → 0x3d ∈ executions count := by
    intro hNe
    obtain ⟨first, rest, hFirst⟩ := exists_cons_of_ne_nil hNe
    obtain ⟨tail, hTail⟩ := hPrefix
    rw [← hTail, hFirst, cons_append, head?_cons] at h
    rw [hFirst, Option.some.inj h]
    exact mem_cons_self
  have hLike : table.like 0x3d = false := table.like_ascii _ (by decide)
  by_contra hDigits
  rw [Bool.not_eq_false, DigitTable.isdigit, Bool.and_eq_true, decide_eq_true_eq] at hDigits
  have hAll := all_eq_true.mp hDigits.2 _ (hMem hDigits.1)
  rw [hLike] at hAll
  cases hAll

variable {counts after : GcovTextCounts}

theorem countRecord_eq_ok_iff {count : Text} {number : ℕ} :
    countRecord table counts count number = .ok after ↔
      (count.head? ≠ some 0x23 → table.isdigit (executions count) = true →
        IsNumber table (executions count)) ∧
      addRecord counts ((markOf table count).map fun mark => (number, mark)) = after := by
  unfold countRecord markOf
  by_cases hMiss : count.head? = some 0x23
  · simp [hMiss, addRecord]
  · by_cases hNever : count.head? = some 0x3d
    · simp [hNever, markOf_unexceptional hNever, addRecord]
    · by_cases hDigits : table.isdigit (executions count) = true
      · simp only [hMiss, hNever, hDigits, if_false, if_true, map_eq_ok, readNumber_eq_ok_iff, true_and,
        ne_eq, not_false_eq_true, forall_const]
        by_cases hPositive : 0 < table.value (executions count)
        · simp [hPositive, addRecord]
        · simp [hPositive, addRecord]
      · simp [hMiss, hNever, hDigits, addRecord]

theorem countSource_eq_ok_iff {line : Text} (hBranch : (py "branch").isPrefixOf line = false) :
    countSource table counts line = .ok after ↔
      IsReadable table line ∧ addRecord counts (lineRecord table line) = after := by
  unfold countSource IsReadable lineRecord recordColumns
  simp only [hBranch, Bool.false_eq_true, if_false]
  cases hColumns : columns line with
  | none => simp [addRecord]
  | some found =>
    obtain ⟨count, lineNumber⟩ := found
    by_cases hOther : count.head? = some 0x2d ∨ !table.isdigit lineNumber
    · simp only [if_pos hOther]
      simp [addRecord]
    · have hBind : (readNumber table lineNumber).bind (countRecord table counts count) = .ok after ↔
          ∃ number, readNumber table lineNumber = .ok number ∧
            countRecord table counts count number = .ok after := bind_eq_ok
      simp only [hOther, if_false, hBind, readNumber_eq_ok_iff, countRecord_eq_ok_iff, Option.mem_some_iff,
        forall_eq', Option.bind_some]
      constructor
      · rintro ⟨number, ⟨hNumber, rfl⟩, hCount, hAfter⟩
        exact ⟨⟨hNumber, hCount⟩, hAfter⟩
      · rintro ⟨⟨hNumber, hCount⟩, hAfter⟩
        exact ⟨_, ⟨hNumber, rfl⟩, hCount, hAfter⟩

theorem countLine_eq_ok {line : Text} (h : countLine table counts line = .ok after) :
    IsReadable table line ∧ SameLines after (addRecord counts (lineRecord table line)) := by
  unfold countLine at h
  cases hBranch : (py "branch").isPrefixOf line with
  | true =>
    have hNone : recordColumns table line = none := by rw [recordColumns, if_pos hBranch]
    rw [if_pos hBranch] at h
    cases h
    rw [IsReadable, lineRecord, hNone]
    exact ⟨by simp, sameLines_countBranch counts line⟩
  | false =>
    rw [hBranch, if_neg Bool.false_ne_true, countSource_eq_ok_iff hBranch] at h
    exact ⟨h.1, h.2 ▸ ⟨rfl, rfl, rfl, rfl⟩⟩

theorem exists_countLine (counts : GcovTextCounts) {line : Text} (h : IsReadable table line) :
    ∃ after, countLine table counts line = .ok after := by
  unfold countLine
  cases hBranch : (py "branch").isPrefixOf line with
  | true => exact ⟨_, rfl⟩
  | false => exact ⟨_, (countSource_eq_ok_iff hBranch).mpr ⟨h, rfl⟩⟩

structure Counted (counts : GcovTextCounts) (records : List (ℕ × Mark)) : Prop where
  covered : counts.covered = (numbered .executed records).length
  miss : counts.miss = (numbered .unexecuted records).length
  missing : counts.missing = numbered .unexecuted records
  coveredLines : counts.coveredLines = numbered .executed records

theorem numbered_append (mark : Mark) (records more : List (ℕ × Mark)) :
    numbered mark (records ++ more) = numbered mark records ++ numbered mark more := by
  simp [numbered]

theorem counted_countLine {records : List (ℕ × Mark)} {line : Text}
    (h : Counted counts records) (hAfter : countLine table counts line = .ok after) :
    Counted after (records ++ (lineRecord table line).toList) := by
  obtain ⟨hCovered, hMiss, hMissing, hLines⟩ := h
  obtain ⟨-, hAfterCovered, hAfterMiss, hAfterMissing, hAfterLines⟩ := countLine_eq_ok hAfter
  constructor
  · rw [hAfterCovered, numbered_append, length_append, ← hCovered]
    rcases lineRecord table line with _ | ⟨number, _ | _ | _⟩ <;> rfl
  · rw [hAfterMiss, numbered_append, length_append, ← hMiss]
    rcases lineRecord table line with _ | ⟨number, _ | _ | _⟩ <;> rfl
  · rw [hAfterMissing, numbered_append, ← hMissing]
    rcases lineRecord table line with _ | ⟨number, _ | _ | _⟩ <;> simp [addRecord, missLine, coverLine,
      numbered]
  · rw [hAfterLines, numbered_append, ← hLines]
    rcases lineRecord table line with _ | ⟨number, _ | _ | _⟩ <;> simp [addRecord, missLine, coverLine,
      numbered]

theorem counted_foldlM {lines : List Text} {counts after : GcovTextCounts} {records : List (ℕ × Mark)}
    (h : Counted counts records) (hAfter : lines.foldlM (countLine table) counts = .ok after) :
    (∀ line ∈ lines, IsReadable table line) ∧
      Counted after (records ++ lines.filterMap (lineRecord table)) := by
  induction lines generalizing counts records with
  | nil =>
    cases hAfter
    rw [filterMap_nil, append_nil]
    exact ⟨forall_mem_nil _, h⟩
  | cons line lines ih =>
    obtain ⟨next, hNext, hRest⟩ := foldlM_cons_eq_ok.mp hAfter
    obtain ⟨hReadable, hCounted⟩ := ih (counted_countLine h hNext) hRest
    refine ⟨forall_mem_cons.mpr ⟨(countLine_eq_ok hNext).1, hReadable⟩, ?_⟩
    rw [append_assoc] at hCounted
    cases hRecord : lineRecord table line with
    | none =>
      rw [filterMap_cons_none hRecord]
      rwa [hRecord] at hCounted
    | some record =>
      rw [filterMap_cons_some hRecord]
      rwa [hRecord] at hCounted

theorem exists_foldlM_iff (lines : List Text) (counts : GcovTextCounts) :
    (∃ after, lines.foldlM (countLine table) counts = .ok after) ↔ ∀ line ∈ lines, IsReadable table line := by
  induction lines generalizing counts with
  | nil => exact iff_of_true ⟨counts, rfl⟩ (forall_mem_nil _)
  | cons line lines ih =>
    rw [forall_mem_cons]
    constructor
    · rintro ⟨after, hAfter⟩
      obtain ⟨next, hNext, hRest⟩ := foldlM_cons_eq_ok.mp hAfter
      exact ⟨(countLine_eq_ok hNext).1, (ih next).mp ⟨after, hRest⟩⟩
    · rintro ⟨hLine, hRest⟩
      obtain ⟨next, hNext⟩ := exists_countLine counts hLine
      obtain ⟨after, hAfter⟩ := (ih next).mpr hRest
      exact ⟨after, foldlM_cons_eq_ok.mpr ⟨next, hNext, hAfter⟩⟩

theorem counted_count {content : Text} {counts : GcovTextCounts} (h : count table content = .ok counts) :
    Counted counts (records table content) := by
  have hStart : Counted {} [] := ⟨rfl, rfl, rfl, rfl⟩
  exact (counted_foldlM hStart h).2

end

/-! ## Lines rather than records -/

section

variable (table : DigitTable) (content : Text)

def executableLines : List ℕ := (records table content).map Prod.fst

def executedLines : List ℕ := numbered .executed (records table content)

/-- A row that tells of lines: what is executable and executed is told once, a line some instance
executed is not missing, every other one is, with either marker, and a JSON report of the same evidence
gives the same figures. -/
structure TellsLines (table : DigitTable) (content : Text) (counts : GcovTextCounts) : Prop where
  stmts : ∀ relative, (row relative counts).stmts = (executableLines table content).toFinset.card
  covered : ∀ relative, (row relative counts).covered = (executedLines table content).toFinset.card
  disjoint : ∀ number ∈ counts.missing, number ∉ executedLines table content
  missed : ∀ record ∈ records table content, record.2 ≠ .executed →
    record.1 ∈ executedLines table content ∨ record.1 ∈ counts.missing
  json : ∀ (relative : Text) (source : GcovFile) (branches : Dict BranchIdentity Bool),
    (∀ record, record ∈ lineRecords source ↔ record ∈ evidence table content) →
      let told := coverageRow relative ((({} : Evidence).mergeSource relative source).linesOf relative)
        branches
      let found := row relative counts
      found.stmts = told.stmts ∧ found.covered = told.covered ∧ found.miss = told.miss ∧
        found.cover = told.cover ∧ found.executableLines = told.executableLines ∧
        found.coveredLines = told.coveredLines

/-- The records that are counted: those not marked `=====`. -/
def countedLines : List ℕ :=
  ((records table content).filter (·.2 ≠ .unexceptional)).map Prod.fst

def CountedOnce : Prop :=
  ∀ number ∈ executableLines table content, (countedLines table content).count number = 1

end

section

variable {table : DigitTable} {content : Text} {counts : GcovTextCounts}

theorem mem_numbered {mark : Mark} {records : List (ℕ × Mark)} {number : ℕ} :
    number ∈ numbered mark records ↔ (number, mark) ∈ records := by
  simp [numbered]

theorem countedLines_perm (table : DigitTable) (content : Text) :
    (numbered .executed (records table content) ++ numbered .unexecuted (records table content)).Perm
      (countedLines table content) := by
  unfold countedLines numbered
  rw [← map_append]
  apply Perm.map
  induction records table content with
  | nil => rfl
  | cons record rest ih =>
    obtain ⟨number, mark⟩ := record
    cases mark with
    | unexecuted =>
      simp only [filter_cons]
      exact (perm_middle).trans (List.Perm.cons _ ih)
    | unexceptional | executed => simpa [filter_cons] using ih

theorem countedOnce_iff : CountedOnce table content ↔
    (executedLines table content ++ numbered .unexecuted (records table content)).Nodup ∧
      ∀ number ∈ executableLines table content, number ∈ executedLines table content ∨
        number ∈ numbered .unexecuted (records table content) := by
  have hPerm := countedLines_perm table content
  have hCounted (number : ℕ) (h : number ∈ countedLines table content)
    : number ∈ executableLines table content := by
    obtain ⟨record, hRecord, rfl⟩ := mem_map.mp h
    exact mem_map_of_mem (mem_of_mem_filter hRecord)
  rw [executedLines, hPerm.nodup_iff]
  constructor
  · intro h
    constructor
    · rw [nodup_iff_count_le_one]
      intro number
      by_cases hMem : number ∈ countedLines table content
      · exact (h number (hCounted number hMem)).le
      · rw [count_eq_zero_of_not_mem hMem]
        exact Nat.zero_le 1
    · intro number hNumber
      rw [← mem_append, hPerm.mem_iff]
      exact count_pos_iff.mp (by rw [h number hNumber]; exact Nat.one_pos)
  · rintro ⟨hNodup, hAll⟩ number hNumber
    apply count_eq_one_of_mem hNodup
    rw [← hPerm.mem_iff, mem_append]
    exact hAll number hNumber

theorem linesOf_mergeSource (relative : Text) (source : GcovFile) :
    (({} : Evidence).mergeSource relative source).linesOf relative = markAll [] (lineRecords source) := by
  simp only [Evidence.mergeSource, Evidence.linesOf, get?_set, if_true, Option.getD_some]
  rfl

section Json

variable {lines : List (ℕ × Bool)}

section

variable (h : ∀ record, record ∈ lines ↔ record ∈ evidence table content) (number : ℕ)
include h

theorem mem_keys_of_same : number ∈ (markAll [] lines).keys ↔ number ∈ executableLines table content := by
  rw [mem_keys_markAll]
  constructor
  · rintro (hNone | ⟨executed, hMem⟩)
    · cases hNone
    · obtain ⟨record, hRecord, hSame⟩ := mem_map.mp ((h _).mp hMem)
      exact mem_map.mpr ⟨record, hRecord, congrArg Prod.fst hSame⟩
  · intro hNumber
    obtain ⟨record, hRecord, rfl⟩ := mem_map.mp hNumber
    exact .inr ⟨_, (h _).mpr (mem_map_of_mem hRecord)⟩

omit h in
theorem nodup_keys_marks (lines : List (ℕ × Bool)) : (markAll [] lines).keys.Nodup :=
  nodup_keys_markAll (d := []) nodup_nil lines

theorem mem_marked_of_same : number ∈ (markAll [] lines).marked ↔ number ∈ executedLines table content := by
  rw [mem_marked_iff (nodup_keys_marks lines), get?_markAll_eq_true_iff, h,
    executedLines, mem_numbered, evidence]
  constructor
  · rintro (hNone | hMem)
    · cases hNone
    · obtain ⟨⟨found, mark⟩, hRecord, hSame⟩ := mem_map.mp hMem
      obtain ⟨rfl, hMark⟩ := Prod.mk.inj hSame
      have hExecuted : mark = .executed := of_decide_eq_true hMark
      rwa [hExecuted] at hRecord
  · intro hMem
    exact .inr (mem_map.mpr ⟨_, hMem, by simp⟩)

end

end Json

theorem card_eq_length_iff {l : List ℕ} : l.toFinset.card = l.length ↔ l.Nodup := by
  constructor
  · intro h
    exact Multiset.coe_nodup.mp (Multiset.toFinset_card_eq_card_iff_nodup.mp h)
  · exact toFinset_card_of_nodup

theorem insertionSort_eq_of_mem_iff {l l' : List ℕ} (hl : l.Nodup) (hl' : l'.Nodup)
    (h : ∀ number, number ∈ l ↔ number ∈ l') : l.insertionSort (· ≤ ·) = l'.insertionSort (· ≤ ·) := by
  have hPerm : l.Perm l' := (perm_ext_iff_of_nodup hl hl').mpr h
  apply Perm.eq_of_pairwise' (pairwise_insertionSort _ l) (pairwise_insertionSort _ l')
  exact ((perm_insertionSort _ l).trans hPerm).trans (perm_insertionSort _ l').symm

theorem mem_executable_of_numbered {number : ℕ}
    (h : number ∈ executedLines table content ∨ number ∈ numbered .unexecuted (records table content)) :
    number ∈ executableLines table content := by
  rcases h with h | h <;> exact mem_map_of_mem (mem_numbered.mp h)

theorem tellsLines_iff (hCounted : Counted counts (records table content)) :
    TellsLines table content counts ↔ CountedOnce table content := by
  obtain ⟨hCovered, hMiss, hMissing, hLines⟩ := hCounted
  rw [countedOnce_iff]
  constructor
  · intro h
    have hAll : ∀ number ∈ executableLines table content, number ∈ executedLines table content ∨
        number ∈ numbered .unexecuted (records table content) := by
      intro number hNumber
      obtain ⟨⟨_, mark⟩, hRecord, rfl⟩ := mem_map.mp hNumber
      by_cases hExecuted : mark = .executed
      · exact .inl (mem_numbered.mpr (hExecuted ▸ hRecord))
      · rw [← hMissing]
        exact h.missed _ hRecord hExecuted
    refine ⟨?_, hAll⟩
    have hStmts : counts.covered + counts.miss = (executableLines table content).toFinset.card := h.stmts []
    rw [← card_eq_length_iff, length_append, executedLines, ← hCovered, ← hMiss, hStmts]
    congr 1
    ext number
    rw [mem_toFinset, mem_toFinset, mem_append]
    exact ⟨mem_executable_of_numbered, hAll number⟩
  · rintro ⟨hNodup, hAll⟩
    have hSame (number : ℕ) : number ∈ executedLines table content ++
      numbered .unexecuted (records table content) ↔
        number ∈ executableLines table content := by
      rw [mem_append]
      exact ⟨mem_executable_of_numbered, hAll number⟩
    have hExecuted : (executedLines table content).Nodup := Nodup.of_append_left hNodup
    have hCard : (executableLines table content).toFinset.card = counts.covered + counts.miss := by
      rw [hCovered, hMiss, ← length_append]
      change _ = (executedLines table content ++ numbered .unexecuted (records table content)).length
      rw [← toFinset_card_of_nodup hNodup]
      congr 1
      ext number
      rw [mem_toFinset, mem_toFinset]
      exact (hSame number).symm
    have hCardExecuted : (executedLines table content).toFinset.card = counts.covered := by
      rw [toFinset_card_of_nodup hExecuted, hCovered, executedLines]
    refine ⟨fun _ => hCard.symm, fun _ => hCardExecuted.symm, ?_, ?_, ?_⟩
    · intro number hMissed hCover
      rw [hMissing] at hMissed
      exact disjoint_of_nodup_append hNodup hCover hMissed
    · intro record hRecord _
      rw [hMissing]
      exact hAll record.1 (mem_map_of_mem hRecord)
    · intro relative source branches hEvidence told found
      have hTold : told = coverageRow relative (markAll [] (lineRecords source)) branches := by
        rw [← linesOf_mergeSource relative source]
      have hKeys := mem_keys_of_same hEvidence
      have hMarked := mem_marked_of_same hEvidence
      have hNodupKeys := nodup_keys_marks (lineRecords source)
      have hNodupMarked := nodup_marked hNodupKeys
      have hLength : (markAll [] (lineRecords source)).length = counts.covered + counts.miss := by
        have hPerm := (perm_ext_iff_of_nodup hNodup hNodupKeys).mpr fun number =>
          (hSame number).trans (hKeys number).symm
        rw [← length_map (f := Prod.fst), hCovered, hMiss, ← length_append]
        exact hPerm.length_eq.symm
      have hMarkedLength : (markAll [] (lineRecords source)).countMarked = counts.covered := by
        have hPerm := (perm_ext_iff_of_nodup hExecuted hNodupMarked).mpr fun number => (hMarked
          number).symm
        rw [← length_marked, hCovered]
        exact hPerm.length_eq.symm
      rw [hTold]
      refine ⟨hLength.symm, hMarkedLength.symm, ?_, ?_, ?_, ?_⟩
      · simp only [found, row, coverageRow, hLength, hMarkedLength]
        omega
      · simp only [found, row, coverageRow, hLength, hMarkedLength]
      · apply insertionSort_eq_of_mem_iff (nodup_dedup _) hNodupKeys
        intro number
        rw [mem_dedup, hLines, hMissing, hKeys]
        exact hSame number
      · apply insertionSort_eq_of_mem_iff (nodup_dedup _) hNodupMarked
        intro number
        rw [mem_dedup, hLines, hMarked]
        rfl

end

/-- The row of every text tells of lines exactly when what is read of the text are numbers and every
executable line is counted by exactly one record. -/
theorem text_rows_consistent_iff (table : DigitTable) (content : Text) :
    (∃ counts, count table content = .ok counts ∧ TellsLines table content counts) ↔
      (∀ line ∈ splitLines content, IsReadable table line) ∧ CountedOnce table content := by
  rw [← exists_foldlM_iff (splitLines content) {}]
  constructor
  · rintro ⟨counts, hCount, hTells⟩
    exact ⟨⟨counts, hCount⟩, (tellsLines_iff (counted_count hCount)).mp hTells⟩
  · rintro ⟨⟨counts, hCount⟩, hOnce⟩
    exact ⟨counts, hCount, (tellsLines_iff (counted_count hCount)).mpr hOnce⟩

/-- A template with two instances, one of which ran, and a line only reached by an exception. -/
def instancesText : Text :=
  py "        2:    3:  return x;\n    #####:    3:  return x;\n    =====:    4:  throw;\n"

theorem instances_counted_twice :
    ¬ ∃ counts, count asciiDigits instancesText = .ok counts ∧ TellsLines asciiDigits instancesText counts := by
  rintro ⟨counts, hCount, hTells⟩
  have hOnce := (tellsLines_iff (counted_count hCount)).mp hTells
  have hRecords : records asciiDigits instancesText = [(3, .executed), (3, .unexecuted), (4, .unexceptional)]
    := by
    decide +kernel
  have hThree := hOnce 3 (by simp [executableLines, hRecords])
  simp [countedLines, hRecords] at hThree

end GcovText

end Ici
