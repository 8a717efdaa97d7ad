import Ici.Core.RedactionValues
import Ici.Library.Decimals
import Ici.Library.LastWrite
import Ici.Library.Lines

/-! # The verdicts of a pytest run

`parse_pytest_outcomes` reads every line alike: what stands before its last verdict word names the
node, whoever printed the line. -/

namespace Ici.Pytest

open Option List Python Core Library

def isParameter (c : CodePoint) : Bool := 0x30 ≤ c.val && c.val ≤ 0x3f

def isIntermediate (c : CodePoint) : Bool := 0x20 ≤ c.val && c.val ≤ 0x2f

def isFinal (c : CodePoint) : Bool := 0x40 ≤ c.val && c.val ≤ 0x7e

/-- How much of a sequence follows the escape: a bracket, parameters, intermediates and a final. The
three kinds are apart, so that nothing taken is given back. -/
def sequenceLength (t : Text) : Option ℕ :=
  let closing := ((t.drop 1).dropWhile isParameter).dropWhile isIntermediate
  if t.head? = some 0x5b ∧ closing.head?.any isFinal then some (t.length - closing.length + 1) else none

def stripFrom : ℕ → Text → Text
  | _, [] => []
  | skip + 1, _ :: rest => stripFrom skip rest
  | 0, c :: rest =>
    match if c = 0x1b then sequenceLength rest else none with
    | some length => stripFrom length rest
    | none => c :: stripFrom 0 rest

def stripAnsi (t : Text) : Text := stripFrom 0 t

/-! ## Reading a line -/

inductive Verdict where
  | passed
  | failed
  | error
  | skipped
  | xfail
  | xpass
deriving DecidableEq

def Verdict.word : Verdict → Text
  | passed => py "PASSED"
  | failed => py "FAILED"
  | error => py "ERROR"
  | skipped => py "SKIPPED"
  | xfail => py "XFAIL"
  | xpass => py "XPASS"

def verdicts : List Verdict := [.passed, .failed, .error, .skipped, .xfail, .xpass]

variable (words : WordCodes)

/-- A match of `\b(?:PASSED|…)\b`; a verdict begins and ends with a word character. -/
def verdictAt (before : Option CodePoint) (t : Text) : Option Verdict :=
  if before.any words.isWord then none
  else verdicts.find? fun verdict =>
    verdict.word.isPrefixOf t && !(t.drop verdict.word.length).head?.any words.isWord

/-- What stands before the last match, and the match. No word boundary lies within a match, so that
no two of them overlap. -/
def lastVerdict : Option CodePoint → Text → Option (Text × Verdict)
  | _, [] => none
  | before, c :: rest =>
    match lastVerdict (some c) rest with
    | some (front, verdict) => some (c :: front, verdict)
    | none => (verdictAt words before (c :: rest)).map ([], ·)

def readLine (line : Text) : Option (Text × Text) :=
  if py "::" <:+: line then
    match lastVerdict words none line with
    | some (front, verdict) => if strip front = [] then none else some (strip front, verdict.word)
    | none => none
  else none

def parsePytestOutcomes (output : Text) : Dict Text Text :=
  let outcomes : Dict Text Text := (splitLines (stripAnsi output)).foldl (fun outcomes line =>
    match readLine words line with
    | some (nodeid, verdict) => outcomes.set nodeid verdict
    | none => outcomes) []
  (outcomes.keys.insertionSort (· ≤ ·)).filterMap fun key => (outcomes.get? key).map (key, ·)

def readings (t : Text) : List (Text × Text) := (splitLines (stripAnsi t)).filterMap (readLine words)

theorem get?_parsePytestOutcomes (output nodeid : Text) :
    (parsePytestOutcomes words output).get? nodeid = lastNamed (readings words output) nodeid := by
  have hFold : (splitLines (stripAnsi output)).foldl (fun outcomes line =>
      match readLine words line with
      | some (nodeid, verdict) => Dict.set outcomes nodeid verdict
      | none => outcomes) ([] : Dict Text Text) = Dict.setAll [] (readings words output) := by
    rw [Dict.setAll, readings, foldl_filterMap]
    congr 1
    funext outcomes line
    cases readLine words line <;> rfl
  have hRebuilt (d : Dict Text Text) (keys : List Text) (hKeys : d.get? nodeid ≠ none → nodeid ∈ keys) :
      Dict.get? (keys.filterMap fun key => (d.get? key).map (key, ·)) nodeid = d.get? nodeid := by
    induction keys with
    | nil => exact (not_not.mp fun hNe => not_mem_nil (hKeys hNe)).symm
    | cons key keys ih =>
      by_cases hSame : key = nodeid
      · subst hSame
        cases hGet : d.get? key with
        | some verdict => simp [hGet, Dict.get?]
        | none =>
          rw [filterMap_cons, hGet]
          exact (ih fun hNe => absurd hGet hNe).trans hGet
      · have hRest := ih fun hNe => (mem_cons.mp (hKeys hNe)).resolve_left (Ne.symm hSame)
        cases hGet : d.get? key with
        | some verdict => rw [filterMap_cons, hGet]; simpa [Dict.get?, hSame] using hRest
        | none => rw [filterMap_cons, hGet]; exact hRest
  rw [parsePytestOutcomes, hFold, hRebuilt, get?_setAll, Dict.get?_nil, or_none]
  intro hNe
  rw [(perm_insertionSort (· ≤ ·) _).mem_iff]
  exact not_not.mp fun hNot => hNe ((Dict.get?_eq_none_iff _ _).mpr hNot)

def newline : CodePoint := 0xa

theorem sequenceLength_line (a b : Text) : sequenceLength (a ++ newline :: b) = sequenceLength a := by
  have hDrop {p : CodePoint → Bool} (hp : p newline = false) (t : Text) :
      (t ++ newline :: b).dropWhile p = t.dropWhile p ++ newline :: b := by
    induction t with
    | nil => exact dropWhile_cons_of_neg (by simp [hp])
    | cons c t ih => cases hc : p c <;> simp [hc, ih]
  cases a with
  | nil => rfl
  | cons c a =>
    simp only [sequenceLength, cons_append, drop_succ_cons, drop_zero, head?_cons,
      hDrop (p := isParameter) rfl, hDrop (p := isIntermediate) rfl, length_cons, length_append]
    cases hClosing : (a.dropWhile isParameter).dropWhile isIntermediate with
    | nil => simp [show isFinal newline = false from rfl]
    | cons d closing =>
      have hLength : a.length + (b.length + 1) + 1 - (closing.length + 1 + (b.length + 1)) =
          a.length - closing.length := by omega
      simp [hLength]

theorem sequenceLength_le {t : Text} {length : ℕ} (h : sequenceLength t = some length) :
    length ≤ t.length := by
  simp only [sequenceLength, ite_none_right_eq_some, some_inj] at h
  obtain ⟨⟨hHead, hFinal⟩, rfl⟩ := h
  cases t with
  | nil => cases hHead
  | cons c t =>
    have hPos : 0 < ((t.dropWhile isParameter).dropWhile isIntermediate).length := by
      apply length_pos_of_ne_nil
      rintro hNil
      simp [hNil] at hFinal
    simp only [drop_succ_cons, drop_zero, length_cons]
    omega

theorem stripFrom_line {a : Text} {skip : ℕ} (h : skip ≤ a.length) (b : Text) :
    stripFrom skip (a ++ newline :: b) = stripFrom skip a ++ newline :: stripAnsi b := by
  induction a generalizing skip with
  | nil =>
    obtain rfl : skip = 0 := Nat.le_zero.mp h
    rfl
  | cons c a ih =>
    cases skip with
    | succ skip => exact ih (Nat.le_of_succ_le_succ h)
    | zero =>
      rw [cons_append, stripFrom, stripFrom, sequenceLength_line]
      cases hTaken : (if c = 0x1b then sequenceLength a else none) with
      | none => exact congrArg (c :: ·) (ih (Nat.zero_le _))
      | some length =>
        apply ih
        split at hTaken
        · exact sequenceLength_le hTaken
        · cases hTaken

theorem stripAnsi_eq_self {t : Text} (h : ∀ c ∈ t, c ≠ 0x1b) : stripAnsi t = t := by
  induction t with
  | nil => rfl
  | cons c t ih =>
    obtain ⟨hc, ht⟩ := forall_mem_cons.mp h
    rw [stripAnsi, stripFrom, if_neg hc]
    exact congrArg (c :: ·) (ih ht)

theorem readLine_nil : readLine words [] = none := rfl

theorem readings_line (a b : Text) :
    readings words (a ++ newline :: b) = readings words a ++ readings words b := by
  have hStrip : stripAnsi (a ++ newline :: b) = stripAnsi a ++ newline :: stripAnsi b :=
    stripFrom_line (Nat.zero_le _) b
  obtain ⟨blank, hBlank, hLines⟩ := exists_splitLines_newline (stripAnsi a) (stripAnsi b)
  have hNone : blank.filterMap (readLine words) = [] := by
    rcases hBlank with rfl | rfl
    · rfl
    · exact filterMap_cons_none (readLine_nil words)
  rw [readings, hStrip]
  exact (congrArg (List.filterMap (readLine words)) hLines).trans (by
    rw [filterMap_append, filterMap_append, hNone, nil_append, readings, readings])

/-! ## Verdict words -/

def isUpper (c : CodePoint) : Bool := 0x41 ≤ c.val && c.val ≤ 0x5a

theorem Verdict.word_upper (verdict : Verdict) : ∀ c ∈ verdict.word, isUpper c = true := by
  cases verdict <;> exact all_eq_true.mp rfl

theorem isWord_of_isUpper {c : CodePoint} (h : isUpper c = true) : words.isWord c = true := by
  simp only [isUpper, Bool.and_eq_true, decide_eq_true_eq] at h
  rw [words.ascii c (by omega)]
  simp [h.1, h.2]

theorem isWord_false {c : CodePoint} (h : c = 0x20 ∨ c = 0x5b) : words.isWord c = false := by
  rcases h with rfl | rfl <;> exact words.ascii _ (by decide)

theorem Verdict.eq_of_word_prefix {a b : Verdict} (h : a.word <+: b.word) : a = b := by
  revert h
  cases a <;> cases b <;> decide

variable {words} {before : Option CodePoint}

theorem verdictAt_eq_none {t : Text} (h : ∀ c ∈ t.head?, isUpper c = false) :
    verdictAt words before t = none := by
  have hNot (verdict : Verdict) : verdict.word.isPrefixOf t = false := by
    cases t with
    | nil => cases verdict <;> rfl
    | cons c t =>
      rw [Bool.eq_false_iff]
      intro hPrefix
      obtain ⟨rest, hRest⟩ := isPrefixOf_iff_prefix.mp hPrefix
      have hMem : c ∈ verdict.word := by
        cases hWord : verdict.word with
        | nil => cases verdict <;> cases hWord
        | cons d word =>
          rw [hWord] at hRest
          exact (cons.inj hRest).1 ▸ mem_cons_self
      exact Bool.false_ne_true ((h c rfl).symm.trans (verdict.word_upper c hMem))
  rw [verdictAt]
  split
  · rfl
  · simp [hNot]

theorem lastVerdict_eq_none {t : Text} (h : ∀ c ∈ t, isUpper c = false) :
    lastVerdict words before t = none := by
  induction t generalizing before with
  | nil => rfl
  | cons c t ih =>
    have hHere : verdictAt words before (c :: t) = none :=
      verdictAt_eq_none fun d hd => h d (mem_of_mem_head? hd)
    rw [lastVerdict, ih fun d hd => h d (mem_cons_of_mem _ hd), hHere]
    rfl

theorem lastVerdict_within {run tail : Text} (hBefore : before.any words.isWord = true)
    (hRun : ∀ c ∈ run, isUpper c = true) (hTail : ∀ c ∈ tail, isUpper c = false) :
    lastVerdict words before (run ++ tail) = none := by
  induction run generalizing before with
  | nil => exact lastVerdict_eq_none hTail
  | cons c run ih =>
    obtain ⟨hc, hRun⟩ := forall_mem_cons.mp hRun
    have hHere : verdictAt words before (c :: (run ++ tail)) = none := if_pos hBefore
    have hLater : lastVerdict words (some c) (run ++ tail) = none := ih (isWord_of_isUpper words hc) hRun
    rw [cons_append, lastVerdict, hLater, hHere]
    rfl

theorem lastVerdict_word (verdict : Verdict) {tail : Text} (hBefore : before.any words.isWord = false)
    (hHead : tail.head?.any words.isWord = false) (hTail : ∀ c ∈ tail, isUpper c = false) :
    lastVerdict words before (verdict.word ++ tail) = some ([], verdict) := by
  have hHere : verdictAt words before (verdict.word ++ tail) = some verdict := by
    rw [verdictAt, hBefore, if_neg Bool.false_ne_true]
    cases hFind : verdicts.find? _ with
    | none =>
      have hNot := find?_eq_none.mp hFind verdict (by cases verdict <;> decide)
      simp [hHead] at hNot
    | some found =>
      have hFound := find?_some hFind
      rw [Bool.and_eq_true] at hFound
      have hPrefix := isPrefixOf_iff_prefix.mp hFound.1
      have hOwn := prefix_append verdict.word tail
      -- of two words that begin one text, one begins the other
      rcases le_total found.word.length verdict.word.length with hLe | hLe
      · rw [Verdict.eq_of_word_prefix (prefix_of_prefix_length_le hPrefix hOwn hLe)]
      · rw [Verdict.eq_of_word_prefix (prefix_of_prefix_length_le hOwn hPrefix hLe)]
  obtain ⟨c, word, hWord⟩ : ∃ c word, verdict.word = c :: word := by cases verdict <;> exact ⟨_, _, rfl⟩
  have hUpper := hWord ▸ verdict.word_upper
  obtain ⟨hc, hRest⟩ := forall_mem_cons.mp hUpper
  have hLater : lastVerdict words (some c) (word ++ tail) = none :=
    lastVerdict_within (isWord_of_isUpper words hc) hRest hTail
  rw [hWord, cons_append] at hHere ⊢
  rw [lastVerdict, hLater, hHere]
  rfl

theorem lastVerdict_append {front t found : Text} {verdict : Verdict}
    (h : lastVerdict words (front.getLast?.or before) t = some (found, verdict)) :
    lastVerdict words before (front ++ t) = some (front ++ found, verdict) := by
  induction front generalizing before with
  | nil => exact h
  | cons c front ih =>
    have hRest : lastVerdict words (some c) (front ++ t) = some (front ++ found, verdict) := by
      apply ih
      rw [getLast?_cons] at h
      cases hLast : front.getLast? <;> simpa [hLast] using h
    rw [cons_append, lastVerdict, hRest]
    rfl

/-! ## What a verbose run prints -/

def IsPrintable (t : Text) : Prop := ∀ c ∈ t, c ≠ 0x1b ∧ isLineBreak c = false

structure Escaping where
  write : Text → Text
  printable : ∀ t, IsPrintable (write t)

/-- The id of a test: its file, its name within the file and a parameter id of any text. -/
structure NodeId where
  path : Text
  name : Text
  parameters : Option Text
  printable : IsPrintable (path ++ name)
  path_ne_nil : path ≠ []
  name_ne_nil : name ≠ []
  path_inked : ∀ c ∈ path.head?, isSpace c = false
  name_inked : ∀ c ∈ name.getLast?, isSpace c = false

/-- A line of the protocol, what the program printed, or a line of the closing summary. -/
inductive Entry where
  | verdict (node : NodeId) (verdict : Verdict) (padding percent : ℕ)
  | printed (output : Text)
  | summary (verdict : Verdict) (node : NodeId) (message : Text)

section Transcript

variable (escaping : Escaping)

def NodeId.suffix (node : NodeId) : Text :=
  match node.parameters with
  | none => []
  | some id => 0x5b :: (escaping.write id ++ [0x5d])

def NodeId.text (node : NodeId) : Text := node.path ++ (py "::" ++ (node.name ++ node.suffix escaping))

/-- The padding of a verdict and `[ nn%]`. -/
def progress (padding percent : ℕ) : Text :=
  List.replicate padding 0x20 ++ (0x5b :: (List.replicate (3 - (natDigits percent).length) 0x20 ++
    (natDigits percent ++ py "%]")))

def Entry.text : Entry → Text
  | verdict node found padding percent =>
    node.text escaping ++ (0x20 :: (found.word ++ progress padding percent))
  | printed output => output
  | summary found node message => found.word ++ (0x20 :: (node.text escaping ++ (py " - " ++ message)))

def Entry.own : Entry → List (Text × Text)
  | verdict node found _ _ => [(node.text escaping, found.word)]
  | printed _ => []
  | summary _ _ _ => []

def transcript (entries : List Entry) : Text := entries.flatMap fun entry => entry.text escaping ++ [newline]

def IsExact (words : WordCodes) (entries : List Entry) : Prop :=
  ∀ nodeid, (parsePytestOutcomes words (transcript escaping entries)).get? nodeid =
    lastNamed (entries.flatMap (·.own escaping)) nodeid

/-- Where a line outside the protocol is the last one that reads as a node, it reads as the verdict
that the node has. -/
def Undisturbed (words : WordCodes) (entries : List Entry) : Prop :=
  ∀ front entry back nodeid verdict, entries = front ++ entry :: back → entry.own escaping = [] →
    lastNamed (readings words (entry.text escaping)) nodeid = some verdict →
    (∀ later ∈ back, ∀ other, (nodeid, other) ∉ readings words (later.text escaping)) →
    lastNamed (entries.flatMap (·.own escaping)) nodeid = some verdict

variable {escaping}

theorem printable_suffix (node : NodeId) : IsPrintable (node.suffix escaping) := by
  rw [NodeId.suffix]
  split
  · exact fun c hc => nomatch hc
  · intro c hc
    rcases mem_cons.mp hc with rfl | hc
    · decide
    · rcases mem_append.mp hc with hc | hc
      · exact escaping.printable _ c hc
      · rw [mem_singleton.mp hc]
        decide

theorem printable_text (node : NodeId) : IsPrintable (node.text escaping) := by
  intro c hc
  simp only [NodeId.text, mem_append] at hc
  rcases hc with hc | hc | hc | hc
  · exact node.printable c (mem_append_left _ hc)
  · rw [show c = 0x3a by simpa [py] using hc]
    decide
  · exact node.printable c (mem_append_right _ hc)
  · exact printable_suffix node c hc

theorem strip_text_blank (node : NodeId) : strip (node.text escaping ++ [0x20]) = node.text escaping := by
  obtain ⟨c, path, hPath⟩ := exists_cons_of_ne_nil node.path_ne_nil
  have hHead : isSpace c = false := node.path_inked c (by rw [hPath]; rfl)
  have hText : node.text escaping = c :: (path ++ (py "::" ++ (node.name ++ node.suffix escaping))) := by
    rw [NodeId.text, hPath, cons_append]
  have hLast : ∀ d ∈ (node.text escaping).getLast?, isSpace d = false := by
    intro d hd
    rw [NodeId.text, getLast?_append, getLast?_append, getLast?_append] at hd
    have hName : (node.name.getLast?).isSome = true := by simp [node.name_ne_nil]
    cases hParameters : node.parameters with
    | none =>
      have hSuffix : (node.suffix escaping).getLast? = none := by simp [NodeId.suffix, hParameters]
      rw [hSuffix, none_or, or_of_isSome hName] at hd
      exact node.name_inked d (by simpa [or_of_isSome hName] using hd)
    | some id =>
      have hSuffix : (node.suffix escaping).getLast? = some 0x5d := by
        simp [NodeId.suffix, hParameters, getLast?_cons]
      rw [hSuffix] at hd
      obtain rfl : 0x5d = d := by simpa using hd
      rfl
  have hTrimmed : (node.text escaping).rdropWhile isSpace = node.text escaping := by
    rw [rdropWhile_eq_self_iff]
    intro hNe hSpace
    exact Bool.false_ne_true ((hLast _ (getLast?_eq_some_getLast hNe)).symm.trans hSpace)
  have hDrop : (node.text escaping ++ [0x20]).dropWhile isSpace = node.text escaping ++ [0x20] := by
    rw [hText, cons_append, dropWhile_cons_of_neg (by simp [hHead])]
  rw [strip, hDrop, rdropWhile_concat_pos _ _ _ (by rfl), hTrimmed]

theorem mem_progress {padding percent : ℕ} {c : CodePoint} (h : c ∈ progress padding percent) :
    isUpper c = false ∧ c ≠ 0x1b ∧ isLineBreak c = false := by
  have hPlain : c = 0x20 ∨ c = 0x5b ∨ c = 0x25 ∨ c = 0x5d ∨ isDigit c = true := by
    simp only [progress, mem_append, mem_cons, mem_replicate, py] at h
    rcases h with h | h | h | h | h
    · exact .inl h.2
    · exact .inr (.inl h)
    · exact .inl h.2
    · exact .inr (.inr (.inr (.inr (digits_natDigits percent c h))))
    · have : c = 0x25 ∨ c = 0x5d := by simpa using h
      tauto
  rcases hPlain with rfl | rfl | rfl | rfl | hDigit
  · decide
  · decide
  · decide
  · decide
  · simp only [isDigit, Bool.and_eq_true, decide_eq_true_eq] at hDigit
    refine ⟨?_, ?_, isLineBreak_of_plain ⟨by omega, by omega⟩⟩
    · simp only [isUpper, Bool.and_eq_false_iff, decide_eq_false_iff_not]
      omega
    · rintro rfl
      exact absurd hDigit (by decide)

theorem readings_verdict (node : NodeId) (found : Verdict) (padding percent : ℕ) :
    readings words ((Entry.verdict node found padding percent).text escaping) =
      [(node.text escaping, found.word)] := by
  have hLine : (Entry.verdict node found padding percent).text escaping =
      (node.text escaping ++ [0x20]) ++ (found.word ++ progress padding percent) := by
    simp [Entry.text]
  have hPrintable : IsPrintable ((Entry.verdict node found padding percent).text escaping) := by
    intro c hc
    rw [hLine, mem_append, mem_append, mem_append] at hc
    rcases hc with (hc | hc) | hc | hc
    · exact printable_text node c hc
    · rw [mem_singleton.mp hc]
      decide
    · have hUpper := found.word_upper c hc
      simp only [isUpper, Bool.and_eq_true, decide_eq_true_eq] at hUpper
      refine ⟨?_, isLineBreak_of_plain ⟨by omega, by omega⟩⟩
      rintro rfl
      exact absurd hUpper (by decide)
    · exact (mem_progress hc).2
  have hHead : (progress padding percent).head?.any words.isWord = false := by
    cases padding with
    | zero => exact isWord_false words (.inr rfl)
    | succ padding => exact isWord_false words (.inl rfl)
  have hLast : lastVerdict words none ((node.text escaping ++ [0x20]) ++
      (found.word ++ progress padding percent)) = some (node.text escaping ++ [0x20] ++ [], found) := by
    apply lastVerdict_append
    apply lastVerdict_word
    · rw [getLast?_append]
      exact isWord_false words (.inl rfl)
    · exact hHead
    · exact fun c hc => (mem_progress hc).1
  have hMarked : py "::" <:+: (Entry.verdict node found padding percent).text escaping := by
    refine ⟨node.path, node.name ++ node.suffix escaping ++ (0x20 :: (found.word ++
      progress padding percent)),
      ?_⟩
    simp [Entry.text, NodeId.text]
  have hNonempty : node.text escaping ≠ [] := by simp [NodeId.text, node.path_ne_nil]
  have hRead : readLine words ((Entry.verdict node found padding percent).text escaping) =
      some (node.text escaping, found.word) := by
    rw [readLine, if_pos hMarked, hLine, hLast]
    simp only [append_nil, strip_text_blank, if_neg hNonempty]
  rw [readings, stripAnsi_eq_self fun c hc => (hPrintable c hc).1,
    splitLines_of_unbroken (fun c hc => (hPrintable c hc).2) (by simp [hLine]), filterMap_cons, hRead]
  rfl

theorem readings_transcript (entries : List Entry) : readings words (transcript escaping entries) =
      entries.flatMap fun entry => readings words (entry.text escaping) := by
  induction entries with
  | nil => rfl
  | cons entry entries ih =>
    rw [transcript, flatMap_cons, append_assoc, singleton_append, readings_line]
    exact congrArg (readings words (entry.text escaping) ++ ·) ih

end Transcript

theorem outcomes_exact_iff (words : WordCodes) (escaping : Escaping) (entries : List Entry) :
    IsExact escaping words entries ↔ Undisturbed escaping words entries := by
  simp only [IsExact, get?_parsePytestOutcomes, readings_transcript]
  apply lastNamed_flatMap_eq_iff
  intro entry
  cases entry with
  | verdict node found padding percent => exact .inl (readings_verdict node found padding percent).symm
  | printed output | summary found node message => exact .inr rfl

def printedIds : Escaping where
  write t := t.filter fun c => c ≠ 0x1b && !isLineBreak c
  printable t c hc := by simpa using (List.mem_filter.mp hc).2

def quotingNode : NodeId where
  path := py "a.py"
  name := py "t"
  parameters := none
  printable c hc := by
    have hAll : (py "a.pyt").all fun c => c ≠ 0x1b && !isLineBreak c := rfl
    simpa using List.all_eq_true.mp hAll c hc
  path_ne_nil := by decide
  name_ne_nil := by decide
  path_inked _ hc := Option.mem_some_iff.mp hc ▸ rfl
  name_inked _ hc := Option.mem_some_iff.mp hc ▸ rfl

/-- `FAILED a.py::t - 'PASSED'` names a test of its own. -/
theorem summary_adds_node : ¬IsExact printedIds asciiWords
      [.verdict quotingNode .failed 1 100, .summary .failed quotingNode (py "'PASSED'")] := by
  intro hExact
  have hNode := hExact (py "FAILED a.py::t - '")
  rw [get?_parsePytestOutcomes] at hNode
  revert hNode
  decide

end Ici.Pytest
