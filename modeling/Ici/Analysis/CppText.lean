import Ici.Core.RedactionValues
import Ici.Library.Dict
import Ici.Library.Lines

/-! # Blanking what is not C++ structure

Literals, comments, lambda bodies and directives are blanked in place, so that lines and columns stay. -/

namespace Ici.CppText

open Python
open Core (WordCodes)

def blank (c : CodePoint) : CodePoint := if c = 0xd ∨ c = 0xa then c else 0x20

/-! ## Comments and literals -/

def isRawDelimiter (c : CodePoint) : Bool := !(isSpace c || c == 0x28 || c == 0x29 || c == 0x5c)

/-- `CPP_RAW_START_RE.match`: the delimiter, and how long the match is. -/
def rawStart (t : Text) : Option (Text × ℕ) :=
  [py "u8", py "u", py "U", py "L", []].findSome? fun encoding =>
    let rest := t.drop (encoding.length + 2)
    let delimiter := rest.takeWhile isRawDelimiter
    if (encoding ++ py "R\"").isPrefixOf t ∧ delimiter.length ≤ 16 ∧ rest[delimiter.length]? = some 0x28 then
      some (delimiter, encoding.length + delimiter.length + 3)
    else none

/-- How much of the text lies before the end of what begins here and is closed so. -/
def closedLength (closing : Text) (opened : ℕ) (t : Text) : ℕ :=
  match before? closing (t.drop opened) with
  | some inside => opened + inside.length + closing.length
  | none => t.length

/-- `cpp_line_comment_end`, behind the slashes. -/
def lineCommentLength (previous : CodePoint) : Text → ℕ
  | [] => 0
  | c :: rest => if c = 0xa ∧ previous ≠ 0x5c then 0 else lineCommentLength c rest + 1

/-- `cpp_quoted_end`, behind the opening quote. -/
def quotedLength (quote : CodePoint) : Text → ℕ
  | [] => 0
  | [_] => 1
  | c :: d :: rest =>
    if c = 0x5c then quotedLength quote rest + 2
    else if c = quote ∨ c = 0xd ∨ c = 0xa then 1
    else quotedLength quote (d :: rest) + 1

section Words

variable (words : WordCodes)

/-- `_literal_operator_quotes`; the text before is given backwards. -/
def literalOperatorQuotes (before t : Text) : Bool :=
  let back := (before.take 64).dropWhile isSpace
  (py "\"\"").isPrefixOf t && (py "operator").reverse.isPrefixOf back &&
    !(back.drop 8).head?.any words.isWord

/-- What `mask_cpp_literals` does at a position: whether it blanks, and how far. -/
def maskStep (before t : Text) : Bool × ℕ :=
  match rawStart t with
  | some (delimiter, opened) => (true, closedLength (py ")" ++ delimiter ++ py "\"") opened t)
  | none =>
    if (py "//").isPrefixOf t then (true, lineCommentLength 0x2f (t.drop 2) + 2)
    else if (py "/*").isPrefixOf t then (true, closedLength (py "*/") 2 t)
    else match t with
      | [] => (false, 0)
      | c :: rest =>
        if c = 0x22 ∧ literalOperatorQuotes words before t then (false, 2)
        else if c = 0x22 ∨ c = 0x27 then (true, quotedLength c rest + 1)
        else (false, 1)

def maskFrom : ℕ → Text → Text → Text
  | 0, _, t => t
  | fuel + 1, before, t =>
    let (masked, length) := maskStep words before t
    let part := t.take length
    (if masked then part.map blank else part) ++ maskFrom fuel (part.reverse ++ before) (t.drop length)

def maskCppLiterals (t : Text) : Text := maskFrom words t.length [] t

end Words

/-- `text.replace` of two characters. -/
def replacePair (first second : CodePoint) (replacement : Text) : Text → Text
  | c :: d :: rest =>
    if c = first ∧ d = second then replacement ++ replacePair first second replacement rest
    else c :: replacePair first second replacement (d :: rest)
  | t => t

def replaceDigraphs (t : Text) : Text :=
  replacePair 0x25 0x3e (py "\x7d ") (replacePair 0x3c 0x25 (py "\x7b ") t)

/-! ## Lambda bodies -/

def maxLambdaBodies : ℕ := 100000

def maxScopeDelimiterPairs : ℕ := 200000

/-- The open delimiters, innermost first, and the closed ones with their ends. -/
abbrev Delimiters := List ℕ × Dict ℕ ℕ

def closingStep (opening closing : CodePoint) (state : Delimiters) (item : CodePoint × ℕ) :
    Result Delimiters :=
  if item.1 = opening then
    if maxScopeDelimiterPairs < state.1.length + 1 then
      .error (valueError (py "C++ scope delimiter depth exceeds the bounded limit"))
    else .ok (item.2 :: state.1, state.2)
  else if item.1 = closing then
    match state.1 with
    | [] => .ok state
    | start :: stack =>
      if maxScopeDelimiterPairs < (state.2.set start item.2).length then
        .error (valueError (py "C++ scope delimiter count exceeds the bounded limit"))
      else .ok (stack, state.2.set start item.2)
  else .ok state

def delimiterClosings (t : Text) (opening closing : CodePoint) : Result (Dict ℕ ℕ) :=
  (t.zipIdx.foldlM (closingStep opening closing) ([], [])).map Prod.snd

/-- `_matching_cpp_delimiter`, from the depth and the position reached. -/
def matchingFrom (opening closing : CodePoint) (depth : ℤ) (index : ℕ) : Text → Option ℕ
  | [] => none
  | c :: rest =>
    if c = opening then matchingFrom opening closing (depth + 1) (index + 1) rest
    else if c = closing then
      if depth - 1 = 0 then some index else matchingFrom opening closing (depth - 1) (index + 1) rest
    else matchingFrom opening closing depth (index + 1) rest

def slice (t : Text) (start stop : ℕ) : Text := (t.take stop).drop start

section Words

variable (words : WordCodes)

section

variable (t : Text)

/-- `_previous_cpp_token`: the last character before, and the word it ends. -/
def previousToken (start : ℕ) : Option CodePoint × Text :=
  match (t.take start).reverse.dropWhile isSpace with
  | [] => (none, [])
  | c :: before =>
    if words.isWord c then (some c, ((c :: before).takeWhile words.isWord).reverse) else (some c, [])

def canStartLambdaCapture (start : ℕ) : Bool :=
  if (py "[[").isPrefixOf (t.drop start) ∨ (0 < start ∧ t[start - 1]? = some 0x5b) then false
  else
    let (previous, token) := previousToken words t start
    if token ≠ [] then token ∈ [py "return", py "co_return", py "throw"]
    else match previous with
      | none => true
      | some c => c ∈ py "=(\x7b,;:?!+-*&|"

/-- What follows each `\brequires\b`. -/
def requiresSuffixes (previous : Option CodePoint) : Text → List Text
  | [] => []
  | c :: rest =>
    let suffix := (c :: rest).drop 8
    let found := (py "requires").isPrefixOf (c :: rest) && !previous.any words.isWord &&
      !suffix.head?.any words.isWord
    (if found then [suffix] else []) ++ requiresSuffixes (some c) rest

/-- Whether the parentheses opened here are closed at the end, with blanks behind them only. -/
def closesAtEnd (depth : ℕ) : Text → Bool
  | [] => false
  | c :: rest =>
    if c = 0x28 then closesAtEnd (depth + 1) rest
    else if c = 0x29 then
      if depth = 0 then false
      else if depth = 1 then strip rest = []
      else closesAtEnd (depth - 1) rest
    else closesAtEnd depth rest

def requiresExpressionBeforeBrace (front : Text) : Bool :=
  let suffixes := requiresSuffixes words none front
  if suffixes.length < 2 then false
  else
    let suffix := strip (suffixes.getLast?.getD [])
    if suffix = [] then true
    else if suffix.head? ≠ some 0x28 then false
    else closesAtEnd 0 suffix

structure Depths where
  parentheses : ℕ := 0
  brackets : ℕ := 0
  angles : ℕ := 0

def Depths.isTop (depths : Depths) : Bool :=
  depths.parentheses = 0 && depths.brackets = 0 && depths.angles = 0

def Depths.step (depths : Depths) (c : CodePoint) : Depths :=
  if c = 0x28 then { depths with parentheses := depths.parentheses + 1 }
  else if c = 0x29 then { depths with parentheses := depths.parentheses - 1 }
  else if c = 0x5b then { depths with brackets := depths.brackets + 1 }
  else if c = 0x5d then { depths with brackets := depths.brackets - 1 }
  else if c = 0x3c ∧ depths.parentheses = 0 ∧ depths.brackets = 0 then
    { depths with angles := depths.angles + 1 }
  else if c = 0x3e ∧ depths.parentheses = 0 ∧ depths.brackets = 0 then
    { depths with angles := depths.angles - 1 }
  else depths

/-- `_lambda_body_open`: the loop over the positions, from `index` on. -/
def lambdaBodyFrom (t : Text) (captureEnd : ℕ) : ℕ → ℕ → Depths → Option ℕ
  | 0, _, _ => none
  | left + 1, index, depths =>
    match t[index]? with
    | none => none
    | some c =>
      if c = 0x3b ∧ depths.isTop then none
      else if c = 0x7b ∧ depths.isTop then
        if requiresExpressionBeforeBrace words (slice t (captureEnd + 1) index) then
          match matchingFrom 0x7b 0x7d 0 index (t.drop index) with
          | none => none
          -- what the expression holds is skipped
          | some closing => lambdaBodyFrom t captureEnd (left - (closing - index)) (closing + 1) depths
        else some index
      else lambdaBodyFrom t captureEnd left (index + 1) (depths.step c)

/-- The brace of the lambda body behind a capture, if it opens before `stop`. -/
def lambdaBodyOpen (captureEnd stop : ℕ) : Option ℕ :=
  lambdaBodyFrom words t captureEnd (stop - (captureEnd + 1)) (captureEnd + 1) {}

abbrev Interval := ℕ × ℕ

structure LambdaScan where
  text : Text
  squareClosings : Dict ℕ ℕ
  braceClosings : Dict ℕ ℕ

structure LambdaFinds where
  ranges : List Interval := []
  /-- The intervals still to scan, the next one first. -/
  intervals : List Interval := []

/-- Where the lambda that begins at an index ends its capture, opens and closes its body. -/
def LambdaScan.lambdaAt (scan : LambdaScan) (stop index : ℕ) : Option (ℕ × ℕ × ℕ) :=
  if scan.text[index]? ≠ some 0x5b ∨ !canStartLambdaCapture words scan.text index then none
  else match scan.squareClosings.get? index with
    | none => none
    | some captureEnd =>
      if stop ≤ captureEnd then none
      else match lambdaBodyOpen words scan.text captureEnd stop with
        | none => none
        | some bodyOpen =>
          match scan.braceClosings.get? bodyOpen with
          | none => none
          | some bodyClose => if stop ≤ bodyClose then none else some (captureEnd, bodyOpen, bodyClose)

def nonemptyInterval (start stop : ℕ) : List Interval := if start < stop then [(start, stop)] else []

/-- The scan of one interval, from `index` on. -/
def LambdaScan.scanInterval (scan : LambdaScan) (stop : ℕ) : ℕ → ℕ → LambdaFinds → Result LambdaFinds
  | 0, _, finds => .ok finds
  | left + 1, index, finds =>
    if stop ≤ index then .ok finds
    else match scan.lambdaAt words stop index with
      | none => scan.scanInterval stop left (index + 1) finds
      | some (captureEnd, bodyOpen, bodyClose) =>
        if maxLambdaBodies < finds.ranges.length + 1 then
          .error (valueError (py "C++ lambda body count exceeds the bounded limit"))
        else scan.scanInterval stop left (bodyClose + 1) {
          ranges := finds.ranges ++ [(bodyOpen, bodyClose + 1)]
          intervals := nonemptyInterval (bodyOpen + 1) bodyClose ++
            nonemptyInterval (captureEnd + 1) bodyOpen ++ nonemptyInterval (index + 1) captureEnd ++
            finds.intervals }

def LambdaScan.scanAll (scan : LambdaScan) : ℕ → LambdaFinds → Result (List Interval)
  | _, ⟨ranges, []⟩ => .ok ranges
  | 0, _ => .error noReturn
  | left + 1, ⟨ranges, (start, stop) :: intervals⟩ => do
    let finds ← scan.scanInterval words stop (stop - start) start ⟨ranges, intervals⟩
    scan.scanAll left finds

def mergeRange (merged : List Interval) (range : Interval) : List Interval :=
  match merged with
  | [] => [range]
  | (start, stop) :: rest => if range.1 ≤ stop then (start, max stop range.2) :: rest else range :: merged

def blankRanges (ranges : List Interval) (t : Text) : Text :=
  t.zipIdx.map fun item => if ranges.any fun range => range.1 ≤ item.2 && item.2 < range.2 then blank item.1
    else item.1

/-- `mask_cpp_lambda_bodies`: the text and the ranges that were blanked. -/
def maskCppLambdaBodies : Result (Text × List Interval) := do
  let squareClosings ← delimiterClosings t 0x5b 0x5d
  let braceClosings ← delimiterClosings t 0x7b 0x7d
  let ranges ← LambdaScan.scanAll words ⟨t, squareClosings, braceClosings⟩ (t.length + 1)
    { intervals := [(0, t.length)] }
  let sorted := ranges.insertionSort fun a b => a.1 < b.1 ∨ (a.1 = b.1 ∧ a.2 ≤ b.2)
  return (blankRanges (sorted.foldl mergeRange []) t, ranges)

def keptLines : Text → List Text
  | [] => []
  | c :: rest =>
    if isLineBreak c ∧ ¬(c = 0xd ∧ rest.head? = some 0xa) then [c] :: keptLines rest
    else match keptLines rest with
      | [] => [[c]]
      | line :: lines => (c :: line) :: lines

def maskDirectiveLines (continued : Bool) : List Text → Text
  | [] => []
  | line :: lines =>
    let body := line.rdropWhile fun c => c = 0xd ∨ c = 0xa
    if continued ∨ (body.dropWhile isSpace).head? = some 0x23 then
      line.map blank ++ maskDirectiveLines ((body.rdropWhile isSpace).getLast? = some 0x5c) lines
    else line ++ maskDirectiveLines false lines

def maskCppPreprocessorDirectives : Text := maskDirectiveLines false (keptLines t)

def conditionalWords : List Text := [py "if", py "ifdef", py "ifndef", py "elif", py "else", py "endif"]

def isConditionalDirective (line : Text) : Bool :=
  let isBlank (c : CodePoint) : Bool := c = 0x20 || c = 0x9
  match line.dropWhile isBlank with
  | [] => false
  | c :: rest =>
    let word := rest.dropWhile isBlank
    c = 0x23 && conditionalWords.any fun name =>
      name.isPrefixOf word && !(word.drop name.length).head?.any words.isWord

def hasConditionalDirective : Bool := (t.splitOn 0xa).any (isConditionalDirective words)

end

end Words

end Ici.CppText
