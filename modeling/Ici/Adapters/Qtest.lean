import Ici.Adapters.Gcov
import Ici.Adapters.Relocation
import Ici.Execution.CacheStoring
import Ici.Library.FirstMatch
import Ici.Workspace.TestSuites

/-! # What the native test providers share -/

namespace Ici

open Option List Python Raising Checked SourceSpanFields

/-- What a test run is read with: its process, the root of the workspace and the source files that
`root.rglob` finds, sorted and relative, where it does not raise. -/
structure TestRun where
  sha256 : HexSha256
  spec : ProcessSpec
  root : Option PurePath
  rglob : Text → Option (List Text)
  digits : DigitTable

namespace TestRun

variable (run : TestRun)

/-- `_test_source`: the stem heuristic for a suite's or a case's name. -/
def testSource (name : Text) : Text :=
  let front := (before? (py "::") name).getD name
  let stem := front.rtakeWhile (· ≠ 0x2f)
  let candidates := match run.rglob (stem ++ py "*.cpp") with
    | none => []
    | some [] => (run.rglob (py "*" ++ stem ++ py "*.cpp")).getD []
    | some found => found
  match candidates with
  | first :: _ => first
  | [] => if stem = [] then py "test-suite" else stem

def identityStyle : Json.Style where
  itemSeparator := py ","
  keySeparator := py ":"

def identityPayload (provider : Text) (details : List Text) : Json :=
  let identity := invocationIdentity run.spec.val.argv (some (.parse run.spec.val.cwd)) run.root
  .arr [.str provider, (identity.1.map Json.str).getD .null, .arr (identity.2.map .str),
    .arr (details.map .str)]

def processFingerprint (provider : Text) (details : List Text) : Result Text := do
  let text ← Json.encode identityStyle (run.identityPayload provider details)
  let bytes ← utf8 text
  return py "sha256:" ++ (run.sha256 bytes).val

def casesMeasurement (name : Text) (passed total : ℕ) : Result Measurement :=
  construct MeasurementFields.check
    { name
      -- a text holds far fewer cases than the largest double
      value := Double.ofRat total
      numerator := some passed
      denominator := some total }

end TestRun

/-! # Reading what a QTest binary prints -/

namespace Qtest

variable (run : TestRun)

section Patterns

open Pattern

def notSpaces : Pattern := many (!isSpace ·) 1 none true

def verdictWords : Pattern :=
  alt (spelled (py "PASS")) (alt (spelled (py "FAIL!")) (alt (spelled (py "XFAIL"))
    (alt (spelled (py "XPASS")) (spelled (py "SKIP")))))

/-- `^(PASS|FAIL!|XFAIL|XPASS|SKIP)\s*:\s*(\S+)`. -/
def verdictPattern : Pattern :=
  cat (group 1 verdictWords) (cat spaces (cat (one (· == 0x3a)) (cat spaces (cat (group 2 notSpaces)
    nothing))))

/-- `Loc:\s*\[(?P<path>[^:\]]+)\((?P<line>\d+)\)\]`. -/
def locPattern : Pattern :=
  cat (spelled (py "Loc:")) (cat spaces (cat (one (· == 0x5b))
    (cat (group 1 (many (fun c => c ≠ 0x3a && c ≠ 0x5d) 1 none true)) (cat (one (· == 0x28))
      (cat (group 2 (many run.digits.isDecimal 1 none true)) (cat (one (· == 0x29)) (one (· == 0x5d))))))))

/-- `Totals:\s*(?P<passed>\d+)\s+passed,\s*(?P<failed>\d+)\s+failed`. -/
def totalsPattern : Pattern :=
  let digits : Pattern := many run.digits.isDecimal 1 none true
  let someSpaces : Pattern := many isSpace 1 none true
  cat (spelled (py "Totals:")) (cat spaces (cat (group 1 digits) (cat someSpaces
    (cat (spelled (py "passed,")) (cat spaces (cat (group 2 digits) (cat someSpaces
      (spelled (py "failed")))))))))

end Patterns

def twoGroups (found : Cursor) : Text × Text := ((found.groupText 1).getD [], (found.groupText 2).getD [])

def readVerdict (line : Text) : Option (Text × Text) :=
  (verdictPattern.matchStart (fun _ => false) line).map twoGroups

def readLoc (line : Text) : Option (Text × Text) :=
  ((locPattern run).search (fun _ => false) line).map twoGroups

structure State where
  findings : List Finding := []
  total : ℕ := 0
  passed : ℕ := 0
  skipped : ℕ := 0
  pendingLoc : Option (Text × ℕ) := none

def outcomeName (verdict : Text) : Text := Cmake.asciiLower (verdict.rdropWhile (· == 0x21))

def finding (verdict node : Text) (pendingLoc : Option (Text × ℕ)) : Result Finding := do
  let fingerprint ← run.processFingerprint (py "qtest") [node, verdict]
  let place := pendingLoc.getD (run.testSource node, 1)
  let location ← construct check { path := place.1, startLine := place.2 }
  construct FindingFields.check
    { fingerprint
      ruleId := py "qtest." ++ outcomeName verdict
      message := node ++ py " " ++ outcomeName verdict
      severity := py "high"
      confidence := py "high"
      primaryLocation := location
      provider := py "qtest"
      taskId := some run.spec.val.name }

/-- The finding at the place a line names; nothing else of it but what it was made with is kept. -/
def relocate (last : Finding) (loc : Text × Text) : Result Finding := do
  let line ← run.digits.readInt loc.2
  let location ← construct check { path := loc.1, startLine := line }
  construct FindingFields.check
    { fingerprint := last.val.fingerprint
      ruleId := last.val.ruleId
      message := last.val.message
      severity := last.val.severity
      confidence := last.val.confidence
      primaryLocation := location
      provider := last.val.provider
      taskId := last.val.taskId
      evidence := last.val.evidence }

def verdictStep (state : State) (verdict node : Text) : Result State :=
  if verdict = py "PASS" then
    .ok { state with total := state.total + 1, passed := state.passed + 1, pendingLoc := none }
  else if verdict = py "SKIP" ∨ verdict = py "XFAIL" then
    .ok { state with total := state.total + 1, skipped := state.skipped + 1, pendingLoc := none }
  else do
    let made ← finding run verdict node state.pendingLoc
    return { state with findings := state.findings ++ [made], total := state.total + 1, pendingLoc := none }

def locStep (state : State) (loc : Text × Text) : Result State :=
  match state.findings.getLast? with
  | some last =>
    if state.pendingLoc = none then do
      let moved ← relocate run last loc
      return { state with findings := state.findings.dropLast ++ [moved] }
    else .ok state
  | none => .ok state

def step (state : State) (line : Text) : Result State :=
  match readVerdict line with
  | some (verdict, node) => verdictStep run state verdict node
  | none =>
    match readLoc run line with
    | some loc => locStep run state loc
    | none => .ok state

def refusal (text : Text) : Result ParsedOutput :=
  match ((totalsPattern run).search (fun _ => false) text).map twoGroups with
  | none => .ok { failedToParse := py "qtest output held no case verdicts" }
  | some totals => do
      let passed ← run.digits.readInt totals.1
      -- `and` reads the second number only where the first is zero
      let failed ← if passed = 0 then run.digits.readInt totals.2 else .ok 1
      return { failedToParse :=
        if passed = 0 ∧ failed = 0 then py "qtest binary ran no cases"
        else py "qtest output held no case verdicts" }

def limitations (state : State) : List Text :=
  if state.passed = 0 then
    [py "no test ran green (" ++ natDigits state.skipped ++ py " skipped of " ++ natDigits state.total ++
      py " cases)"]
  else []

def finish (text : Text) (state : State) : Result ParsedOutput :=
  if state.total = 0 then refusal run text
  else (TestRun.casesMeasurement (py "qtest.cases") state.passed state.total).map fun measured =>
    { findings := state.findings, measurements := [measured], limitations := limitations state }

def parse (text : Text) : Result ParsedOutput := (splitLines text).foldlM (step run) {} >>= finish run text

/-! ## What a QTest binary prints -/

inductive Verdict where
  | pass
  | fail
  | xfail
  | xpass
  | skip
deriving DecidableEq

def Verdict.word : Verdict → Text
  | pass => py "PASS"
  | fail => py "FAIL!"
  | xfail => py "XFAIL"
  | xpass => py "XPASS"
  | skip => py "SKIP"

def Verdict.isFinding : Verdict → Bool
  | fail | xpass => true
  | pass | xfail | skip => false

/-- `FAIL!  : Class::case() note`. -/
structure VerdictLine where
  verdict : Verdict
  padding : Text
  gap : Text
  node : Text
  note : Text
  blank_padding : ∀ c ∈ padding, isSpace c = true
  blank_gap : ∀ c ∈ gap, isSpace c = true
  node_ne_nil : node ≠ []
  node_inked : ∀ c ∈ node, isSpace c = false
  note_apart : ∀ c ∈ note.head?, isSpace c = true

def VerdictLine.text (line : VerdictLine) : Text :=
  line.verdict.word ++ (line.padding ++ (0x3a :: (line.gap ++ (line.node ++ line.note))))

/-- `   Loc: [path(line)]`. -/
structure LocLine where
  path : Text
  line : ℕ

def LocLine.text (loc : LocLine) : Text :=
  py "   Loc: [" ++ (loc.path ++ (0x28 :: (natDigits loc.line ++ py ")]")))

def IsMessage (line : Text) : Prop := readVerdict line = none ∧ readLoc run line = none

structure Record where
  head : VerdictLine
  before : List Text
  loc : Option LocLine
  after : List Text
  messages : ∀ line ∈ before ++ after, IsMessage run line
  head_unbroken : Unbroken head.text
  loc_unbroken : ∀ place ∈ loc, Unbroken place.text
  messages_unbroken : ∀ line ∈ before ++ after, Unbroken line

open Record

def Record.lines (record : Record run) : List Text :=
  record.head.text :: (record.before ++ record.loc.toList.map LocLine.text ++ record.after)

def transcript (records : List (Record run)) : Text :=
  (records.flatMap (lines run)).flatMap (· ++ [0xa])

variable {run}

theorem Record.unbroken (record : Record run) : ∀ line ∈ record.lines, Unbroken line := by
  intro line hLine
  rcases mem_cons.mp hLine with rfl | hLine
  · exact record.head_unbroken
  · rcases mem_append.mp hLine with hLine | hAfter
    · rcases mem_append.mp hLine with hBefore | hLoc
      · exact record.messages_unbroken line (mem_append_left _ hBefore)
      · obtain ⟨place, hPlace, rfl⟩ := mem_map.mp hLoc
        exact record.loc_unbroken place (mem_toList.mp hPlace)
    · exact record.messages_unbroken line (mem_append_right _ hAfter)

theorem splitLines_ended {lines : List Text} (h : ∀ line ∈ lines, Unbroken line) :
    splitLines (lines.flatMap (· ++ [0xa])) = lines := by
  induction lines with
  | nil => rfl
  | cons line lines ih =>
    rw [flatMap_cons, append_assoc, singleton_append, splitLines_line (h line mem_cons_self),
      ih fun other hOther => h other (mem_cons_of_mem _ hOther)]

theorem splitLines_transcript (records : List (Record run)) :
    splitLines (transcript run records) = records.flatMap (lines run) := by
  apply splitLines_ended
  intro line hLine
  obtain ⟨record, -, hLine⟩ := mem_flatMap.mp hLine
  exact record.unbroken line hLine

/-! ## Reading the lines back -/

section Reading

open Pattern

theorem head_spaces {isWord : CodePoint → Bool} {before : Option CodePoint} {groups : List (ℕ × Text)}
    {next : Pattern} {blanks tail : Text} (hBlanks : ∀ c ∈ blanks, isSpace c = true)
    (hTail : ∀ c ∈ tail.head?, isSpace c = false) {stop : Cursor}
    (h : (next.ends isWord ⟨lastOf before blanks, tail, groups⟩).head? = some stop) :
    ((cat spaces next).ends isWord ⟨before, blanks ++ tail, groups⟩).head? = some stop :=
  head_cat_many hBlanks hTail (Nat.zero_le _) h

theorem word_not_prefix : ∀ {word verdict : Verdict}, word ≠ verdict → ¬word.word <+: verdict.word := by
  intro word verdict
  cases word <;> cases verdict <;> decide

theorem ends_word (word verdict : Verdict) (rest : Text) :
    (spelled word.word).ends (fun _ => false) ⟨none, verdict.word ++ rest, []⟩ =
      if word = verdict then [⟨lastOf none verdict.word, rest, []⟩] else [] := by
  split
  · rename_i hSame
    rw [hSame, ends_spelled]
  · rename_i hOther
    apply ends_spelled_of_not
    intro hPrefix
    rcases prefix_or_prefix_of_prefix hPrefix (prefix_append verdict.word rest) with h | h
    · exact word_not_prefix hOther h
    · exact word_not_prefix (Ne.symm hOther) h

theorem ends_verdictWords (verdict : Verdict) (rest : Text) :
    verdictWords.ends (fun _ => false) ⟨none, verdict.word ++ rest, []⟩ =
      [⟨lastOf none verdict.word, rest, []⟩] := by
  change (spelled Verdict.pass.word).ends _ _ ++ ((spelled Verdict.fail.word).ends _ _ ++
    ((spelled Verdict.xfail.word).ends _ _ ++ ((spelled Verdict.xpass.word).ends _ _ ++
      (spelled Verdict.skip.word).ends _ _))) = _
  simp only [ends_word]
  cases verdict <;> rfl

theorem readVerdict_text (line : VerdictLine) :
    readVerdict line.text = some (line.verdict.word, line.node) := by
  have hNode : ∀ c ∈ line.node, (!isSpace c) = true := fun c hc => by simp [line.node_inked c hc]
  have hNote : ∀ c ∈ line.note.head?, (!isSpace c) = false := fun c hc => by simp [line.note_apart c hc]
  have hLength : 1 ≤ line.node.length := length_pos_of_ne_nil line.node_ne_nil
  have hGap : ∀ c ∈ (line.node ++ line.note).head?, isSpace c = false := by
    obtain ⟨first, rest, hFirst⟩ := exists_cons_of_ne_nil line.node_ne_nil
    intro c hc
    rw [hFirst, cons_append, head?_cons, mem_some_iff] at hc
    exact line.node_inked c (by rw [hFirst, ← hc]; exact mem_cons_self)
  have hEnd : (verdictPattern.ends (fun _ => false) ⟨none, line.text, []⟩).head? =
      some ⟨lastOf (lastOf (some 0x3a) line.gap) line.node, line.note,
        [(2, line.node), (1, line.verdict.word)]⟩ := by
    unfold verdictPattern VerdictLine.text
    rw [ends_cat_group, ends_verdictWords, flatMap_singleton, Cursor.read_append]
    apply head_spaces line.blank_padding (by simp [isSpace])
    rw [ends_cat_one]
    · apply head_spaces line.blank_gap hGap
      exact head_cat_group_many 2 hNode hNote hLength rfl
    · rfl
  rw [readVerdict, matchStart, hEnd]
  rfl

theorem ends_word_blank (word : Verdict) (rest : Text) :
    (spelled word.word).ends (fun _ => false) ⟨none, 0x20 :: rest, []⟩ = [] := by
  apply ends_spelled_of_not
  cases word <;> simp [Verdict.word, py, cons_prefix_cons]

theorem readVerdict_loc (loc : LocLine) : readVerdict loc.text = none := by
  have hText : loc.text = 0x20 :: loc.text.tail := rfl
  have hWords : verdictWords.ends (fun _ => false) ⟨none, 0x20 :: loc.text.tail, []⟩ = [] := by
    change (spelled Verdict.pass.word).ends _ _ ++ ((spelled Verdict.fail.word).ends _ _ ++
      ((spelled Verdict.xfail.word).ends _ _ ++ ((spelled Verdict.xpass.word).ends _ _ ++
        (spelled Verdict.skip.word).ends _ _))) = _
    simp only [ends_word_blank, append_nil]
  rw [readVerdict, matchStart, hText, verdictPattern, ends_cat_group, hWords]
  rfl

theorem readLoc_text {loc : LocLine} (hNe : loc.path ≠ []) (hPath : ∀ c ∈ loc.path, c ≠ 0x3a ∧ c ≠ 0x5d) :
    readLoc run loc.text = some (loc.path, natDigits loc.line) := by
  have hDigits := digits_natDigits loc.line
  -- the whole of `path(line)` is accepted by the class of the path
  let inside : Text := loc.path ++ (0x28 :: (natDigits loc.line ++ [0x29]))
  have hInside : ∀ c ∈ inside, (c ≠ 0x3a && c ≠ 0x5d) = true := by
    intro c hc
    rcases mem_append.mp hc with hc | hc
    · simpa using hPath c hc
    · rcases mem_cons.mp hc with rfl | hc
      · rfl
      · rcases mem_append.mp hc with hc | hc
        · have hDigit := hDigits c hc
          simp only [isDigit, Bool.and_eq_true, decide_eq_true_eq] at hDigit
          have hColon : c ≠ 0x3a := by rintro rfl; simp at hDigit
          have hBracket : c ≠ 0x5d := by rintro rfl; simp at hDigit
          simp [hColon, hBracket]
        · rw [mem_singleton.mp hc]
          rfl
  have hText : loc.text = 0x20 :: 0x20 :: 0x20 :: (py "Loc:" ++ ([0x20] ++ (0x5b :: (inside ++ [0x5d])))) := by
    simp [LocLine.text, inside, py]
  have hSplit : inside ++ [0x5d] = loc.path ++ (0x28 :: (natDigits loc.line ++ [0x29, 0x5d])) := by
    simp [inside]
  -- behind the bracket before the line no other one opens
  have hBeyond (j : ℕ) (hj : loc.path.length < j) :
      ∀ c ∈ ((inside ++ [0x5d]).drop j).head?, (c == 0x28) = false := by
    intro c hc
    have hMem : c ∈ natDigits loc.line ++ [0x29, 0x5d] := by
      obtain ⟨i, rfl⟩ : ∃ i, j = loc.path.length + (i + 1) := ⟨j - loc.path.length - 1, by omega⟩
      rw [hSplit, drop_append, drop_eq_nil_of_le (by omega), nil_append,
        Nat.add_sub_cancel_left, drop_succ_cons] at hc
      exact mem_of_mem_drop (mem_of_mem_head? hc)
    rcases mem_append.mp hMem with hMem | hMem
    · have hDigit := hDigits c hMem
      simp only [isDigit, Bool.and_eq_true, decide_eq_true_eq] at hDigit
      rw [beq_eq_false_iff_ne]
      rintro rfl
      simp at hDigit
    · rcases mem_pair.mp hMem with rfl | rfl <;> rfl
  have hClose : run.digits.isDecimal 0x29 = false := by
    rw [DigitTable.isDecimal, run.digits.decimal_ascii _ (by decide)]
    rfl
  have hEnd : ((locPattern run).ends (fun _ => false) ⟨some 0x20, py "Loc:" ++ ([0x20] ++ (0x5b :: (inside ++
    [0x5d]))), []⟩).head? =
      some ⟨some 0x5d, [], [(2, natDigits loc.line), (1, loc.path)]⟩ := by
    unfold locPattern
    rw [ends_cat_spelled]
    apply head_spaces (by simp [isSpace]) (by simp [isSpace])
    rw [ends_cat_one rfl]
    apply head_cat_group_many_at 1 hInside (by simp) (k := loc.path.length)
    · exact length_pos_of_ne_nil hNe
    · simp [inside]
    · intro j groups hj hn
      exact ends_cat_one_of_not (hBeyond j hj)
    · rw [hSplit, Cursor.advance_append, Cursor.read_append, ends_cat_one rfl]
      apply head_cat_group_many 2
      · exact fun c hc => run.digits.isDecimal_of_isDigit (hDigits c hc)
      · simpa using hClose
      · exact length_pos_of_ne_nil (natDigits_ne_nil _)
      · rw [ends_cat_one rfl, ends_one rfl]
        rfl
  have hBlank (start : Cursor) (rest : Text) (h : start.rest = 0x20 :: rest) :
      (locPattern run).ends (fun _ => false) start = [] := by
    obtain ⟨before, _, groups⟩ := start
    cases h
    apply ends_cat_spelled_of_not
    simp [py, cons_prefix_cons]
  rw [readLoc, search, hText, search_skip fun start => hBlank start _,
    search_skip fun start => hBlank start _, search_skip fun start => hBlank start _, search_here hEnd]
  rfl

end Reading

/-! ## Which finding a place belongs to

The loop moves the last finding to every place it reads until the next finding. -/

namespace Record

def isFinding (record : Record run) : Bool := record.head.verdict.isFinding

def places (record : Record run) : List (Text × Text) :=
  record.loc.toList.filterMap fun loc => readLoc run loc.text

def made (record : Record run) : Result Finding := finding run record.head.verdict.word record.head.node none

def follow (last : Finding) (records : List (Record run)) : Result Finding :=
  (records.flatMap places).foldlM (relocate run) last

def settled (group : Record run × List (Record run)) : Result Finding := do
  let made ← group.1.made
  follow made (group.1 :: group.2)

def passedBy (records : List (Record run)) : List (Record run) := records.takeWhile (!·.isFinding)

def groups : List (Record run) → List (Record run × List (Record run))
  | [] => []
  | record :: rest => if record.isFinding then (record, passedBy rest) :: groups rest else groups rest

def countVerdict (verdicts : List Verdict) (records : List (Record run)) : ℕ :=
  records.countP (·.head.verdict ∈ verdicts)

end Record

section Loop

variable {state : State} {init : List Finding} {last : Finding}

theorem step_verdict (line : VerdictLine) :
    step run state line.text = verdictStep run state line.verdict.word line.node := by
  rw [step, readVerdict_text]

theorem step_message {line : Text} (h : IsMessage run line) : step run state line = .ok state := by
  rw [step, h.1, h.2]

theorem foldlM_messages {lines : List Text} (h : ∀ line ∈ lines, IsMessage run line) :
    lines.foldlM (step run) state = .ok state := by
  induction lines with
  | nil => rfl
  | cons line lines ih =>
    rw [foldlM_cons, step_message (h line mem_cons_self)]
    exact ih fun other hOther => h other (mem_cons_of_mem _ hOther)

theorem foldlM_loc (loc : Option LocLine) : (loc.toList.map LocLine.text).foldlM (step run) state =
      (loc.toList.filterMap fun loc => readLoc run loc.text).foldlM (locStep run) state := by
  cases loc with
  | none => rfl
  | some loc =>
    have hStep : step run state loc.text = match readLoc run loc.text with
        | some found => locStep run state found
        | none => .ok state := by
      rw [step, readVerdict_loc]
    rw [toList_some, map_singleton, foldlM_cons, hStep]
    cases hRead : readLoc run loc.text with
    | none | some found =>
      simp only [filterMap_cons, hRead]
      rfl

theorem foldlM_lines (record : Record run) (state : State) : record.lines.foldlM (step run) state =
      (verdictStep run state record.head.verdict.word record.head.node).bind fun state' =>
        record.places.foldlM (locStep run) state' := by
  have hBefore := fun line h => record.messages line (mem_append_left _ h)
  have hAfter := fun line h => record.messages line (mem_append_right _ h)
  rw [lines, foldlM_cons, step_verdict]
  apply congrArg
  funext state'
  rw [foldlM_append, foldlM_append, foldlM_messages hBefore]
  change ((record.loc.toList.map LocLine.text).foldlM (step run) state' >>= _) = _
  rw [foldlM_loc, places]
  cases (record.loc.toList.filterMap fun loc => readLoc run loc.text).foldlM (locStep run) state' with
  | error e => rfl
  | ok state'' => exact foldlM_messages hAfter

theorem foldlM_locStep (hPending : state.pendingLoc = none) (hFindings : state.findings = init ++ [last])
    (places : List (Text × Text)) :
    places.foldlM (locStep run) state = (places.foldlM (relocate run) last).map fun moved =>
      { state with findings := init ++ [moved] } := by
  induction places generalizing state last with
  | nil =>
    obtain ⟨findings, _, _, _, _⟩ := state
    cases hFindings
    rfl
  | cons place places ih =>
    have hStep : locStep run state place = (relocate run last place).map fun moved =>
        { state with findings := init ++ [moved] } := by
      rw [locStep, hFindings, getLast?_concat]
      simp only [hPending, if_true, dropLast_concat]
      cases relocate run last place <;> rfl
    rw [foldlM_cons, foldlM_cons, hStep]
    cases hMoved : relocate run last place with
    | error e => rfl
    | ok moved => exact ih hPending rfl

theorem foldlM_locStep_nil (hFindings : state.findings = []) (places : List (Text × Text)) :
    places.foldlM (locStep run) state = .ok state := by
  induction places with
  | nil => rfl
  | cons place places ih =>
    have hStep : locStep run state place = .ok state := by rw [locStep, hFindings]; rfl
    rw [foldlM_cons, hStep]
    exact ih

theorem verdictStep_finding {record : Record run} (h : record.isFinding = true)
    (hPending : state.pendingLoc = none) :
    verdictStep run state record.head.verdict.word record.head.node = record.made.map fun made =>
      { state with findings := state.findings ++ [made], total := state.total + 1, pendingLoc := none } := by
  have hWord : ¬record.head.verdict.word = py "PASS" ∧
      ¬(record.head.verdict.word = py "SKIP" ∨ record.head.verdict.word = py "XFAIL") := by
    revert h
    unfold isFinding
    cases record.head.verdict <;> simp [Verdict.isFinding] <;> decide
  rw [verdictStep, if_neg hWord.1, if_neg hWord.2, hPending, made]
  cases finding run record.head.verdict.word record.head.node none <;> rfl

def counted (state : State) (record : Record run) : State where
  findings := state.findings
  total := state.total + 1
  passed := state.passed + if record.head.verdict = .pass then 1 else 0
  skipped := state.skipped + if record.head.verdict ∈ [.skip, .xfail] then 1 else 0
  pendingLoc := none

theorem verdictStep_other {record : Record run} (h : record.isFinding = false) :
    verdictStep run state record.head.verdict.word record.head.node = .ok (counted state record) := by
  revert h
  unfold isFinding verdictStep counted
  cases record.head.verdict <;> intro h
  · rfl
  · cases h
  · rfl
  · cases h
  · rfl

end Loop

def readOut (state : State) (findings : List Finding) (records : List (Record run)) : State where
  findings := findings
  total := state.total + records.length
  passed := state.passed + countVerdict [.pass] records
  skipped := state.skipped + countVerdict [.skip, .xfail] records
  pendingLoc := none

theorem readOut_counted (state : State) (held findings : List Finding) (record : Record run)
    (records : List (Record run)) :
    readOut { counted state record with findings := held } findings records =
      readOut state findings (record :: records) := by
  simp only [readOut, counted, countVerdict, countP_cons, length_cons]
  cases record.head.verdict <;> simp <;> omega

def recordStep (state : State) (record : Record run) : Result State := record.lines.foldlM (step run) state

variable {record : Record run} {t : Text}

theorem recordStep_other {state : State} {init : List Finding} {last : Finding}
    (h : record.isFinding = false) (hFindings : state.findings = init ++ [last]) :
    recordStep state record = (record.places.foldlM (relocate run) last).map fun moved =>
      { counted state record with findings := init ++ [moved] } := by
  rw [recordStep, foldlM_lines, verdictStep_other h]
  have hCounted : (counted state record).findings = init ++ [last] := hFindings
  exact foldlM_locStep rfl hCounted _

theorem recordStep_other_nil {state : State} (h : record.isFinding = false)
    (hFindings : state.findings = []) : recordStep state record = .ok (counted state record) := by
  rw [recordStep, foldlM_lines, verdictStep_other h]
  have hCounted : (counted state record).findings = [] := hFindings
  exact foldlM_locStep_nil hCounted _

theorem recordStep_finding {state : State} (h : record.isFinding = true)
    (hPending : state.pendingLoc = none) :
    recordStep state record = (record.made.bind fun made => record.places.foldlM (relocate run) made).map
      fun moved => { counted state record with findings := state.findings ++ [moved] } := by
  rw [recordStep, foldlM_lines, verdictStep_finding h hPending]
  cases record.made with
  | error e => rfl
  | ok made =>
    have hCounted : { counted state record with findings := state.findings ++ [made] } =
        { state with findings := state.findings ++ [made], total := state.total + 1, pendingLoc := none } := by
      revert h
      unfold isFinding counted
      cases record.head.verdict <;> simp [Verdict.isFinding]
    change record.places.foldlM (locStep run)
      { state with findings := state.findings ++ [made], total := state.total + 1, pendingLoc := none } = _
    rw [← hCounted]
    exact foldlM_locStep rfl rfl _

theorem foldlM_cons_finding {records : List (Record run)} {state : State}
    (h : record.isFinding = true) (hPending : state.pendingLoc = none)
    (hNext : ∀ moved, records.foldlM recordStep
        { counted state record with findings := state.findings ++ [moved] } =
      (follow moved (passedBy records)).bind fun settled =>
        ((Record.groups records).mapM Record.settled).map fun rest =>
          readOut state (state.findings ++ settled :: rest) (record :: records)) :
    (record :: records).foldlM recordStep state =
      ((groups (record :: records)).mapM settled).map fun findings =>
        readOut state (state.findings ++ findings) (record :: records) := by
  have hGroups : groups (record :: records) =
      (record, passedBy records) :: groups records := by
    simp [groups, h]
  have hSettled (made : Finding) : follow made (record :: passedBy records) =
      (record.places.foldlM (relocate run) made).bind fun moved =>
        follow moved (passedBy records) := by
    rw [follow, flatMap_cons, foldlM_append]
    rfl
  rw [foldlM_cons, recordStep_finding h hPending, hGroups, mapM_cons, settled]
  cases record.made with
  | error e => rfl
  | ok made =>
    change ((record.places.foldlM (relocate run) made).map _).bind _ =
      ((follow made (record :: passedBy records)).bind _).map _
    rw [hSettled]
    cases record.places.foldlM (relocate run) made with
    | error e => rfl
    | ok moved =>
      change records.foldlM recordStep
        { counted state record with findings := state.findings ++ [moved] } =
          ((follow moved (passedBy records)).bind _).map _
      rw [hNext]
      cases follow moved (passedBy records) with
      | error e => rfl
      | ok settled => cases (Record.groups records).mapM Record.settled <;> rfl

theorem foldlM_recordStep (records : List (Record run)) {state : State} {init : List Finding}
    {last : Finding} (hPending : state.pendingLoc = none) (hFindings : state.findings = init ++ [last]) :
    records.foldlM recordStep state =
      (follow last (passedBy records)).bind fun moved =>
        ((groups records).mapM settled).map fun rest =>
          readOut state (init ++ moved :: rest) records := by
  induction records generalizing state init last with
  | nil =>
    obtain ⟨findings, _, _, _, _⟩ := state
    cases hFindings
    cases hPending
    rfl
  | cons record records ih =>
    cases h : record.isFinding with
    | false =>
      have hPassed : passedBy (record :: records) = record :: passedBy records := by
        simp [passedBy, h]
      have hGroups : groups (record :: records) = groups records := by
        simp [groups, h]
      rw [foldlM_cons, recordStep_other h hFindings, hPassed, hGroups, follow,
        flatMap_cons, foldlM_append]
      cases record.places.foldlM (relocate run) last with
      | error e => rfl
      | ok moved =>
        have hNext : records.foldlM recordStep { counted state record with findings := init ++ [moved] }
          = _ := ih rfl rfl
        simp only [readOut_counted] at hNext
        exact hNext
    | true =>
      have hPassed : passedBy (record :: records) = [] := by simp [passedBy, h]
      have hNext (moved : Finding) : records.foldlM recordStep
          { counted state record with findings := state.findings ++ [moved] } = _ := ih rfl rfl
      simp only [readOut_counted] at hNext
      rw [foldlM_cons_finding h hPending hNext, hPassed, hFindings]
      change _ = ((groups (record :: records)).mapM settled).map _
      simp only [append_assoc, singleton_append]

theorem foldlM_recordStep_nil (records : List (Record run)) {state : State}
    (hPending : state.pendingLoc = none) (hFindings : state.findings = []) :
    records.foldlM recordStep state =
      ((groups records).mapM settled).map fun findings => readOut state findings records := by
  induction records generalizing state with
  | nil =>
    obtain ⟨findings, _, _, _, _⟩ := state
    cases hFindings
    cases hPending
    rfl
  | cons record records ih =>
    cases h : record.isFinding with
    | false =>
      have hGroups : groups (record :: records) = groups records := by
        simp [groups, h]
      have hNext : records.foldlM recordStep (counted state record) = _ := ih rfl hFindings
      rw [foldlM_cons, recordStep_other_nil h hFindings, hGroups]
      change records.foldlM recordStep (counted state record) = _
      rw [hNext]
      exact congrArg (Except.map · _) (funext fun findings =>
        readOut_counted state state.findings findings record records)
    | true =>
      have hNext (moved : Finding) : records.foldlM recordStep
          { counted state record with findings := state.findings ++ [moved] } = _ :=
        foldlM_recordStep records rfl rfl
      simp only [readOut_counted] at hNext
      rw [foldlM_cons_finding h hPending hNext, hFindings]
      rfl

/-! ## Where a finding ends up -/

theorem text_of_mem_leaves_str {texts : List Text} {leaf : Json.Leaf}
    (h : leaf ∈ Json.leavesOfItems (texts.map .str)) : ∃ t, leaf = .text t := by
  induction texts with
  | nil => cases h
  | cons t texts ih =>
    rcases mem_append.mp h with h | h
    · exact ⟨t, mem_singleton.mp h⟩
    · exact ih h

theorem isPrintable_identityPayload (run : TestRun) (provider : Text) (details : List Text) :
    ∀ leaf ∈ (run.identityPayload provider details).leaves, leaf.IsPrintable TestRun.identityStyle := by
  intro leaf hLeaf
  have hText : ∃ t, leaf = .text t := by
    simp only [TestRun.identityPayload, Json.leaves, Json.leavesOfItems, mem_append, append_nil] at hLeaf
    rcases hLeaf with hLeaf | hLeaf | hLeaf | hLeaf
    · exact ⟨provider, mem_singleton.mp hLeaf⟩
    · simp only [invocationIdentity, map_some, getD_some, Json.leaves] at hLeaf
      exact ⟨_, mem_singleton.mp hLeaf⟩
    · exact text_of_mem_leaves_str hLeaf
    · exact text_of_mem_leaves_str hLeaf
  obtain ⟨t, rfl⟩ := hText
  trivial

theorem isText_of_ends {first last : CodePoint} (hHead : t.head? = some first)
    (hLast : t.getLast? = some last) (hFirst : isSpace first = false) (hEnd : isSpace last = false) :
    IsText t := by
  have hNe : t ≠ [] := by
    rintro rfl
    cases hHead
  refine ⟨hNe, fun h => ?_, fun h => ?_⟩
  · rw [head?_eq_some_head h] at hHead
    rwa [some.inj hHead]
  · rw [getLast?_eq_some_getLast h] at hLast
    rwa [some.inj hLast]

theorem isSpace_of_isHexChar {c : CodePoint} (h : isHexChar c = true) : isSpace c = false := by
  simp only [isHexChar, Bool.or_eq_true, Bool.and_eq_true, decide_eq_true_eq] at h
  simp only [isSpace, Bool.or_eq_false_iff, Bool.and_eq_false_iff, decide_eq_false_iff_not,
    beq_eq_false_iff_ne]
  omega

theorem isText_digest (digest : HexText) : IsText (py "sha256:" ++ digest.val) := by
  have hHead : (py "sha256:" ++ digest.val).head? = some 0x73 := rfl
  obtain ⟨last, hLast⟩ : ∃ last, digest.val.getLast? = some last ∨ digest.val = [] := by
    cases h : digest.val.getLast? with
    | none => exact ⟨0, .inr (getLast?_eq_none_iff.mp h)⟩
    | some last => exact ⟨last, .inl rfl⟩
  rcases hLast with hLast | hEmpty
  · have hWhole : (py "sha256:" ++ digest.val).getLast? = some last := by
      rw [getLast?_append, hLast, some_or]
    have hHex := digest.property last (mem_of_getLast? hLast)
    exact isText_of_ends hHead hWhole (by decide) (isSpace_of_isHexChar hHex)
  · rw [hEmpty]
    decide

theorem exists_processFingerprint (run : TestRun) (provider : Text) (details : List Text) :
    ∃ fingerprint, run.processFingerprint provider details = .ok fingerprint ∧ IsText fingerprint := by
  obtain ⟨text, hText⟩ := (Json.exists_encode_iff _ _).mpr (isPrintable_identityPayload run provider details)
  have hPlain : IsPlain text := Json.isPlain_encode rfl
    { plain := fun c h => h
      item := forall_mem_singleton.mpr (by decide)
      key := forall_mem_singleton.mpr (by decide) } hText
  obtain ⟨bytes, hBytes⟩ := exists_utf8_iff.mpr hPlain.noSurrogate
  refine ⟨py "sha256:" ++ (run.sha256 bytes).val, ?_, isText_digest _⟩
  exact Raising.step hText (Raising.step hBytes rfl)

def reported (run : TestRun) (fingerprint : Text) (line : VerdictLine) (location : SourceSpan) :
    FindingFields where
  fingerprint := fingerprint
  ruleId := py "qtest." ++ outcomeName line.verdict.word
  message := line.node ++ py " " ++ outcomeName line.verdict.word
  severity := py "high"
  confidence := py "high"
  primaryLocation := location
  provider := py "qtest"
  taskId := some run.spec.val.name

theorem isText_message (line : VerdictLine) (h : line.verdict.isFinding = true) :
    IsText (line.node ++ (py " " ++ outcomeName line.verdict.word)) := by
  obtain ⟨first, rest, hFirst⟩ := exists_cons_of_ne_nil line.node_ne_nil
  have hHead : (line.node ++ (py " " ++ outcomeName line.verdict.word)).head? = some first := by
    rw [hFirst]
    rfl
  have hInked : isSpace first = false := line.node_inked first (hFirst ▸ mem_cons_self)
  obtain ⟨last, hLast, hEnd⟩ : ∃ last, (py " " ++ outcomeName line.verdict.word).getLast? = some last ∧
      isSpace last = false := by
    revert h
    cases line.verdict <;> simp only [Verdict.isFinding, Bool.false_eq_true, false_imp_iff, true_imp_iff]
    · exact ⟨0x6c, by decide, by decide⟩
    · exact ⟨0x73, by decide, by decide⟩
  apply isText_of_ends hHead _ hInked hEnd
  rw [getLast?_append, hLast, some_or]

theorem check_reported_iff {fingerprint : Text} (hFingerprint : IsText fingerprint) {line : VerdictLine}
    (h : line.verdict.isFinding = true) (location : SourceSpan) :
    (reported run fingerprint line location).check = .ok () ↔ IsIdentifier run.spec.val.name := by
  have hRule : IsText (py "qtest." ++ outcomeName line.verdict.word) := by
    revert h
    cases line.verdict <;> simp [Verdict.isFinding] <;> decide
  have hHigh : IsIdentifier (py "high") := by decide
  have hProvider : IsIdentifier (py "qtest") := by decide
  rw [FindingFields.check_eq_ok_iff]
  simp [reported, hFingerprint, hRule, isText_message line h, hHigh, hProvider]

def IsPlace (place : Text × ℕ) : Prop :=
  requireRelativePath place.1 (py "span path") false = .ok () ∧ 1 ≤ place.2

instance (place : Text × ℕ) : Decidable (IsPlace place) := inferInstanceAs (Decidable (_ ∧ _))

def spanFields (place : Text × ℕ) : SourceSpanFields := { path := place.1, startLine := place.2 }

theorem check_spanFields_iff (place : Text × ℕ) : (spanFields place).check = .ok () ↔ IsPlace place := by
  rw [check_eq_ok_iff]
  simp [spanFields, IsPlace]
  omega

def placeOf (run : TestRun) (loc : Text × Text) : Text × ℕ :=
  (loc.1, run.digits.value loc.2)

def IsReadable (run : TestRun) (loc : Text × Text) : Prop :=
  loc.2.length ≤ maxStrDigits ∧ IsPlace (placeOf run loc)

theorem construct_spanFields {place : Text × ℕ} (h : IsPlace place) : construct check (spanFields place) =
      .ok ⟨spanFields place, (check_spanFields_iff place).mpr h⟩ := construct_eq_ok _

def IsReported (run : TestRun) (line : VerdictLine) (place : Text × ℕ) (found : Finding) : Prop :=
  ∃ fingerprint location, run.processFingerprint (py "qtest") [line.node, line.verdict.word] =
    .ok fingerprint ∧
    location.val = spanFields place ∧ found.val = reported run fingerprint line location

def fallback (run : TestRun) (line : VerdictLine) : Text × ℕ := (run.testSource line.node, 1)

section Settling

variable {line : VerdictLine} {place : Text × ℕ} {found moved : Finding} {loc : Text × Text}

theorem reported_of_made (h : line.verdict.isFinding = true)
    (hMade : finding run line.verdict.word line.node none = .ok found) :
    IsIdentifier run.spec.val.name ∧ IsPlace (fallback run line) ∧ IsReported run line (fallback run line)
      found := by
  obtain ⟨fingerprint, hFingerprint, hText⟩ :=
    exists_processFingerprint run (py "qtest") [line.node, line.verdict.word]
  obtain ⟨_, hSame, hMade⟩ := bind_eq_ok.mp hMade
  rw [hFingerprint] at hSame
  cases hSame
  obtain ⟨location, hLocation, hMade⟩ := bind_eq_ok.mp hMade
  have hVal : location.val = spanFields (fallback run line) := construct_eq_ok_iff.mp hLocation
  have hFound : found.val = reported run fingerprint line location := construct_eq_ok_iff.mp hMade
  have hChecked : (reported run fingerprint line location).check = .ok () := hFound ▸ found.property
  have hPlace : IsPlace (fallback run line) := (check_spanFields_iff _).mp (hVal ▸ location.property)
  exact ⟨(check_reported_iff hText h location).mp hChecked, hPlace, fingerprint, location, hFingerprint, hVal,
    hFound⟩

theorem exists_made (h : line.verdict.isFinding = true) (hName : IsIdentifier run.spec.val.name)
    (hPlace : IsPlace (fallback run line)) :
    ∃ made, finding run line.verdict.word line.node none = .ok made := by
  obtain ⟨fingerprint, hFingerprint, hText⟩ :=
    exists_processFingerprint run (py "qtest") [line.node, line.verdict.word]
  have hChecked (location : SourceSpan) := (check_reported_iff hText h location).mpr hName
  exact ⟨_, Raising.step hFingerprint (Raising.step (construct_spanFields hPlace)
    (construct_eq_ok (hChecked _)))⟩

theorem reported_of_relocate (h : IsReported run line place found) (hMoved : relocate run found loc =
    .ok moved) :
    IsReadable run loc ∧ IsReported run line (placeOf run loc) moved := by
  obtain ⟨fingerprint, location, hFingerprint, hVal, hFound⟩ := h
  obtain ⟨n, hLine, hRest⟩ := bind_eq_ok.mp hMoved
  obtain ⟨target, hTarget, hBuilt⟩ := bind_eq_ok.mp hRest
  clear hMoved hRest
  rw [hFound] at hBuilt
  unfold DigitTable.readInt at hLine
  split at hLine
  · cases hLine
    have hTargetVal : target.val = spanFields (placeOf run loc) := construct_eq_ok_iff.mp hTarget
    have hPlace : IsPlace (placeOf run loc) := (check_spanFields_iff _).mp (hTargetVal ▸ target.property)
    exact ⟨⟨‹_›, hPlace⟩, fingerprint, target, hFingerprint, hTargetVal, construct_eq_ok_iff.mp hBuilt⟩
  · cases hLine

theorem exists_relocate (hFinding : line.verdict.isFinding = true) (h : IsReported run line place found)
    (hReadable : IsReadable run loc) : ∃ moved, relocate run found loc = .ok moved := by
  obtain ⟨fingerprint, hText, hIsText⟩ :=
    exists_processFingerprint run (py "qtest") [line.node, line.verdict.word]
  obtain ⟨_, location, hFingerprint, hVal, hFound⟩ := h
  rw [hText] at hFingerprint
  cases hFingerprint
  have hName := (check_reported_iff hIsText hFinding location).mp (hFound ▸ found.property)
  have hLine : run.digits.readInt loc.2 = .ok (placeOf run loc).2 := if_pos hReadable.1
  have hMade (target : SourceSpan) := construct_eq_ok
    ((check_reported_iff hIsText hFinding target).mpr hName)
  unfold relocate
  rw [hFound]
  exact ⟨_, Raising.step hLine (Raising.step (construct_spanFields hReadable.2) (hMade _))⟩

def lastPlace (run : TestRun) (place : Text × ℕ) (locs : List (Text × Text)) : Text × ℕ :=
  (locs.getLast?.map (placeOf run)).getD place

theorem lastPlace_cons (place : Text × ℕ) (loc : Text × Text) (locs : List (Text × Text)) :
    lastPlace run place (loc :: locs) = lastPlace run (placeOf run loc) locs := by
  cases locs with
  | nil => rfl
  | cons next locs => simp [lastPlace, getLast?_cons]

theorem reported_of_foldlM {locs : List (Text × Text)} (h : IsReported run line place found)
    (hMoved : locs.foldlM (relocate run) found = .ok moved) :
    (∀ loc ∈ locs, IsReadable run loc) ∧ IsReported run line (lastPlace run place locs) moved := by
  induction locs generalizing place found with
  | nil =>
    cases hMoved
    exact ⟨forall_mem_nil _, h⟩
  | cons loc locs ih =>
    obtain ⟨next, hNext, hRest⟩ := foldlM_cons_eq_ok.mp hMoved
    obtain ⟨hReadable, hReported⟩ := reported_of_relocate h hNext
    obtain ⟨hAll, hMoved⟩ := ih hReported hRest
    exact ⟨forall_mem_cons.mpr ⟨hReadable, hAll⟩, lastPlace_cons place loc locs ▸ hMoved⟩

theorem exists_foldlM_relocate {locs : List (Text × Text)} (hFinding : line.verdict.isFinding = true)
    (h : IsReported run line place found) (hReadable : ∀ loc ∈ locs, IsReadable run loc) :
    ∃ moved, locs.foldlM (relocate run) found = .ok moved := by
  induction locs generalizing place found with
  | nil => exact ⟨found, rfl⟩
  | cons loc locs ih =>
    obtain ⟨hFirst, hRest⟩ := forall_mem_cons.mp hReadable
    obtain ⟨next, hNext⟩ := exists_relocate hFinding h hFirst
    obtain ⟨moved, hMoved⟩ := ih (reported_of_relocate h hNext).2 hRest
    exact ⟨moved, foldlM_cons_eq_ok.mpr ⟨next, hNext, hMoved⟩⟩

theorem place_of_reported {place' : Text × ℕ} (h : IsReported run line place found)
    (h' : IsReported run line place' found) : place = place' := by
  obtain ⟨_, location, -, hLocation, hFound⟩ := h
  obtain ⟨_, location', -, hLocation', hFound'⟩ := h'
  have hSame : location = location' := congrArg FindingFields.primaryLocation (hFound.symm.trans hFound')
  have hSpan : spanFields place = spanFields place' := hLocation.symm.trans (hSame ▸ hLocation')
  have hPath : place.1 = place'.1 := congrArg path hSpan
  have hLine : (place.2 : ℤ) = place'.2 := congrArg startLine hSpan
  exact Prod.ext hPath (Int.ofNat.inj hLine)

end Settling

/-! ## The location of every finding -/

namespace Record

def ownPlace (record : Record run) : Text × ℕ :=
  match record.loc with
  | some loc => (loc.path, loc.line)
  | none => fallback run record.head

/-- A group keeps the location of its finding: every place in it can be read, and the last one is the
finding's own. -/
structure Keeps (group : Record run × List (Record run)) : Prop where
  name : IsIdentifier run.spec.val.name
  made : IsPlace (fallback run group.1.head)
  readable : ∀ loc ∈ (group.1 :: group.2).flatMap places, IsReadable run loc
  own : lastPlace run (fallback run group.1.head) ((group.1 :: group.2).flatMap places) = group.1.ownPlace

theorem isFinding_of_mem_groups {records : List (Record run)} {group : Record run × List (Record run)}
    (h : group ∈ groups records) : group.1.isFinding = true := by
  induction records with
  | nil => cases h
  | cons record records ih =>
    rw [groups] at h
    split at h
    · rcases mem_cons.mp h with rfl | hRest
      · assumption
      · exact ih hRest
    · exact ih h

theorem map_fst_groups (records : List (Record run)) :
    (groups records).map Prod.fst = records.filter (·.isFinding) := by
  induction records with
  | nil => rfl
  | cons record records ih =>
    rw [groups, filter_cons]
    split
    · rw [map_cons, ih]
    · exact ih

theorem settled_iff {group : Record run × List (Record run)} (h : group.1.isFinding = true) :
    (∃ found, settled group = .ok found ∧ IsReported run group.1.head group.1.ownPlace found) ↔ Keeps group := by
  constructor
  · rintro ⟨found, hSettled, hReported⟩
    obtain ⟨made, hMade, hFollow⟩ := bind_eq_ok.mp hSettled
    obtain ⟨hName, hPlace, hAt⟩ := reported_of_made h hMade
    obtain ⟨hReadable, hLast⟩ := reported_of_foldlM hAt hFollow
    exact ⟨hName, hPlace, hReadable, place_of_reported hLast hReported⟩
  · rintro ⟨hName, hPlace, hReadable, hOwn⟩
    obtain ⟨made, hMade⟩ := exists_made h hName hPlace
    have hAt := (reported_of_made h hMade).2.2
    obtain ⟨found, hFollow⟩ := exists_foldlM_relocate h hAt hReadable
    exact ⟨found, Raising.step hMade hFollow, hOwn ▸ (reported_of_foldlM hAt hFollow).2⟩

theorem settled_all_iff (records : List (Record run)) : (∃ found, (groups records).mapM settled = .ok found ∧
      List.Forall₂ (fun record => IsReported run record.head record.ownPlace)
        (records.filter (·.isFinding)) found) ↔ ∀ group ∈ groups records, Keeps group := by
  rw [← map_fst_groups]
  have hFinding := fun group (h : group ∈ groups records) => isFinding_of_mem_groups h
  revert hFinding
  generalize groups records = all
  intro hFinding
  induction all with
  | nil => exact iff_of_true ⟨[], rfl, .nil⟩ (forall_mem_nil _)
  | cons group all ih =>
    obtain ⟨hFirst, hRest⟩ := forall_mem_cons.mp hFinding
    rw [forall_mem_cons, ← settled_iff hFirst, mapM_cons, map_cons]
    refine Iff.trans ?_ (and_congr_right' (ih hRest))
    constructor
    · rintro ⟨found, hFound, hReported⟩
      obtain ⟨first, hSettled, hFound⟩ := bind_eq_ok.mp hFound
      obtain ⟨rest, hAll, hFound⟩ := bind_eq_ok.mp hFound
      cases hFound
      obtain ⟨hHead, hTail⟩ := forall₂_cons.mp hReported
      exact ⟨⟨first, hSettled, hHead⟩, rest, hAll, hTail⟩
    · rintro ⟨⟨first, hSettled, hHead⟩, rest, hAll, hTail⟩
      exact ⟨first :: rest, Raising.step hSettled (Raising.step hAll rfl), .cons hHead hTail⟩

end Record

/-- Passed cases, findings and cases that were skipped or expected to fail are all there are. -/
def AddsUp (records : List (Record run)) (out : ParsedOutput) : Prop :=
  (records = [] → out.measurements = []) ∧
  (records ≠ [] → ∃ measured, out.measurements = [measured] ∧
    measured.val.numerator = some (countVerdict [.pass] records : ℤ) ∧
    measured.val.denominator = some (records.length : ℤ)) ∧
  out.findings.length = countVerdict [.fail, .xpass] records ∧
  countVerdict [.pass] records + out.findings.length + countVerdict [.skip, .xfail] records =
    records.length

section

variable (records : List (Record run))

theorem countVerdict_finding :
    (records.filter (·.isFinding)).length = countVerdict [.fail, .xpass] records := by
  rw [countVerdict, countP_eq_length_filter]
  congr 2
  funext record
  unfold isFinding
  cases record.head.verdict <;> rfl

theorem countVerdict_all : countVerdict [.pass] records + countVerdict [.fail, .xpass] records +
      countVerdict [.skip, .xfail] records = records.length := by
  induction records with
  | nil => rfl
  | cons record records ih =>
    have hOne (verdict : Verdict) : (if verdict ∈ [Verdict.pass] then 1 else 0) +
        (if verdict ∈ [Verdict.fail, Verdict.xpass] then 1 else 0) +
        (if verdict ∈ [Verdict.skip, Verdict.xfail] then 1 else 0) = 1 := by
      cases verdict <;> rfl
    simp only [countVerdict, countP_cons, length_cons, decide_eq_true_eq] at ih ⊢
    have hRecord := hOne record.head.verdict
    omega

theorem exists_casesMeasurement (passed : ℕ) {total : ℕ} (h : total ≠ 0) :
    ∃ measured, TestRun.casesMeasurement (py "qtest.cases") passed total = .ok measured ∧
      measured.val.numerator = some (passed : ℤ) ∧ measured.val.denominator = some (total : ℤ) := by
  have hChecked : MeasurementFields.check
      { name := py "qtest.cases", value := Double.ofRat total, numerator := some (passed : ℤ),
        denominator := some (total : ℤ) } = .ok () := by
    rw [MeasurementFields.check_eq_ok_iff]
    have hName : IsIdentifier (py "qtest.cases") := by decide
    refine ⟨hName, ?_, ?_, ?_, ?_⟩
    · simp only [Double.ofRat, PyFloat.ofRat]
      split <;> simp
    · simp
    · simp
    · simpa using h
  exact ⟨_, construct_eq_ok hChecked, rfl, rfl⟩

theorem foldlM_lines_records (state : State) :
    (records.flatMap (lines run)).foldlM (step run) state = records.foldlM recordStep state := by
  induction records generalizing state with
  | nil => rfl
  | cons record records ih =>
    rw [flatMap_cons, foldlM_append, foldlM_cons]
    exact bind_congr fun state' => ih state'

theorem parse_transcript : parse run (transcript run records) =
      ((groups records).mapM settled).bind fun findings =>
        if records = [] then .ok { failedToParse := py "qtest output held no case verdicts" }
        else (TestRun.casesMeasurement (py "qtest.cases") (countVerdict [.pass] records)
            records.length).map fun measured =>
          { findings
            measurements := [measured]
            limitations := limitations (readOut {} findings records) } := by
  rw [parse, splitLines_transcript, foldlM_lines_records, foldlM_recordStep_nil records rfl rfl]
  cases records with
  | nil => rfl
  | cons record records =>
    cases (groups (record :: records)).mapM settled with
    | error e => rfl
    | ok findings =>
      have hTotal : (readOut {} findings (record :: records)).total = (record :: records).length :=
        Nat.zero_add _
      have hPassed : (readOut {} findings (record :: records)).passed =
          countVerdict [.pass] (record :: records) := Nat.zero_add _
      have hFinish (text : Text) : finish run text (readOut {} findings (record :: records)) =
          (TestRun.casesMeasurement (py "qtest.cases") (countVerdict [.pass] (record :: records))
            (record :: records).length).map fun measured =>
              { findings
                measurements := [measured]
                limitations := limitations (readOut {} findings (record :: records)) } := by
        have hSome : ¬(record :: records).length = 0 := Nat.succ_ne_zero _
        rw [finish, hTotal, hPassed, if_neg hSome]
        rfl
      change finish run (transcript run (record :: records)) (readOut {} findings (record :: records)) =
        if record :: records = [] then .ok { failedToParse := py "qtest output held no case verdicts" }
        else (TestRun.casesMeasurement (py "qtest.cases") (countVerdict [.pass]
          (record :: records))
          (record :: records).length).map _
      rw [hFinish, if_neg (cons_ne_nil _ _)]

theorem reads_transcript_iff : (∃ out, parse run (transcript run records) = .ok out ∧
      List.Forall₂ (fun record => IsReported run record.head record.ownPlace)
        (records.filter (·.isFinding)) out.findings ∧ AddsUp records out) ↔
    ∀ group ∈ groups records, Record.Keeps group := by
  rw [← settled_all_iff, parse_transcript]
  constructor
  · rintro ⟨out, hOut, hReported, hAdds⟩
    obtain ⟨findings, hFindings, hOut⟩ := bind_eq_ok.mp hOut
    refine ⟨findings, hFindings, ?_⟩
    split at hOut
    · cases hOut
      rename_i hEmpty
      subst hEmpty
      cases hFindings
      exact hReported
    · obtain ⟨measured, -, rfl⟩ := map_eq_ok.mp hOut
      exact hReported
  · rintro ⟨findings, hFindings, hReported⟩
    have hLength := hReported.length_eq.symm
    rw [countVerdict_finding] at hLength
    have hAll := countVerdict_all records
    rw [hFindings]
    by_cases hEmpty : records = []
    · subst hEmpty
      cases hFindings
      exact ⟨_, rfl, hReported, fun _ => rfl, fun h => absurd rfl h, hLength, hAll⟩
    · obtain ⟨measured, hMeasured, hNumerator, hDenominator⟩ := exists_casesMeasurement
        (countVerdict [.pass] records) (length_pos_of_ne_nil hEmpty).ne'
      have hSum : countVerdict [.pass] records + findings.length +
          countVerdict [.skip, .xfail] records = records.length := hLength ▸ hAll
      refine ⟨{ findings, measurements := [measured], limitations := limitations (readOut {} findings records)
        },
        Raising.step rfl ?_, hReported, fun h => absurd h hEmpty,
        fun _ => ⟨measured, rfl, hNumerator, hDenominator⟩, hLength, hSum⟩
      rw [if_neg hEmpty, hMeasured]
      rfl

end

/-- The output of records is read as the records, each finding at the place its own record gives, exactly
when every place up to the next finding can be read and the last of them is the finding's own. -/
theorem locations_kept_iff (run : TestRun) (records : List (Record run)) :
    (∃ out, parse run (transcript run records) = .ok out ∧
      List.Forall₂ (fun record => IsReported run record.head record.ownPlace)
        (records.filter (·.isFinding)) out.findings ∧ AddsUp records out) ↔
    ∀ group ∈ groups records, Record.Keeps group := reads_transcript_iff records

/-- A suite that runs as `tst` and finds no source file by its name. -/
def tstRun : TestRun where
  sha256 _ := ⟨[], List.forall_mem_nil _⟩
  spec := ⟨{ argv := [py "tst"], name := py "tst", cwd := py "/b", environment := [], timeout := .fin 300
             outputLimit := 0, workDirs := [] }, by
    have hPositive : ¬(PyFloat.fin 300 ≠ .nan ∧ PyFloat.lt (.fin 0) (.fin 300) = false) := by decide
    exact (if_neg (List.cons_ne_nil _ _)).trans (if_neg hPositive)⟩
  root := none
  rglob _ := some []
  digits := asciiDigits

theorem unbroken_of_all (h : t.all (!isLineBreak ·) = true) : Unbroken t := by
  intro c hc
  simpa using all_eq_true.mp h c hc

def tstLine (verdict : Verdict) (node : Text) (hNe : node ≠ []) (hInked : node.all (!isSpace ·) = true) :
    VerdictLine where
  verdict := verdict
  padding := py "  "
  gap := py " "
  node := node
  note := []
  blank_padding := List.all_eq_true.mp rfl
  blank_gap := List.all_eq_true.mp rfl
  node_ne_nil := hNe
  node_inked c hc := by simpa using List.all_eq_true.mp hInked c hc
  note_apart := by simp

/-- A case with its place: `FAIL!  : T::a()` and `   Loc: [a.cpp(3)]`. -/
def placedCase (line : VerdictLine) (loc : LocLine) (hLine : line.text.all (!isLineBreak ·) = true)
    (hLoc : loc.text.all (!isLineBreak ·) = true) : Record tstRun where
  head := line
  before := []
  loc := some loc
  after := []
  messages := by simp
  head_unbroken := unbroken_of_all hLine
  loc_unbroken := by
    rintro place hPlace
    cases hPlace
    exact unbroken_of_all hLoc
  messages_unbroken := by simp

def failedCase : Record tstRun :=
  placedCase (tstLine .fail (py "T::a()") (by decide) rfl) ⟨py "a.cpp", 3⟩ (by decide) (by decide)

def skippedCase : Record tstRun :=
  placedCase (tstLine .skip (py "T::b()") (by decide) rfl) ⟨py "b.cpp", 7⟩ (by decide) (by decide)

theorem skipped_location_taken : ¬ ∃ out, parse tstRun (transcript tstRun [failedCase, skippedCase]) =
    .ok out ∧
    List.Forall₂ (fun record => IsReported tstRun record.head record.ownPlace)
      ([failedCase, skippedCase].filter (·.isFinding)) out.findings ∧
    AddsUp [failedCase, skippedCase] out := by
  rw [reads_transcript_iff]
  intro h
  have hKeeps := (h (failedCase, [skippedCase]) mem_cons_self).own
  have hFirst : failedCase.places = [(py "a.cpp", natDigits 3)] := by
    have hRead : readLoc tstRun (LocLine.text ⟨py "a.cpp", 3⟩) = some (py "a.cpp", natDigits 3) :=
      readLoc_text (by decide) (by simp [py])
    simp only [places, failedCase, placedCase, toList_some, filterMap_cons, hRead, filterMap_nil]
  have hSecond : skippedCase.places = [(py "b.cpp", natDigits 7)] := by
    have hRead : readLoc tstRun (LocLine.text ⟨py "b.cpp", 7⟩) = some (py "b.cpp", natDigits 7) :=
      readLoc_text (by decide) (by simp [py])
    simp only [places, skippedCase, placedCase, toList_some, filterMap_cons, hRead, filterMap_nil]
  rw [flatMap_cons, flatMap_cons, flatMap_nil, hFirst, hSecond] at hKeeps
  exact absurd hKeeps (by decide)

end Qtest

end Ici
