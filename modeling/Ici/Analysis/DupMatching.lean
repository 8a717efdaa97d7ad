import Mathlib.Algebra.Group.Int.Defs
import Mathlib.Data.List.Sort
import Mathlib.Data.Prod.Lex
import Ici.Library.Dict
import Ici.Library.Intervals
import Ici.Library.PurePaths

/-! # Matching duplicated code

Windows of normalized lines that hash alike are the seeds of matches. A seed is extended to both
sides while the lines stay equal and inside their regions, and a seed that starts inside an earlier
match on its alignment is left out. The hash of a line is a parameter: matching compares the lines
themselves. -/

namespace Ici.Duplicates

open Python

structure DuplicateFileData where
  filePath : Text
  language : Text
  rawLines : List Text
  indexed : List (ℕ × Text)
  regions : List (ℤ × ℤ)
deriving DecidableEq

structure DuplicateMatchLimits where
  windowOccurrences : ℕ
  sameFileSeedPairs : ℕ
  crossFilePairs : ℕ
  crossFileSeedPairs : ℕ
  extensionComparisons : ℕ
  rawMatches : ℕ

structure MatchPair where
  firstFile : ℕ
  firstStart : ℕ
  firstEnd : ℕ
  secondFile : ℕ
  secondStart : ℕ
  secondEnd : ℕ
  size : ℕ
deriving DecidableEq

/-- `DuplicateComparisonLimit`, or the `ValueError` of an input that is refused. -/
inductive MatchError where
  | comparisonLimit (message filePath : Text)
  | value (error : PyError)
deriving DecidableEq

def limitReached (message : Text) (limit : ℕ) (filePath : Text) : MatchError :=
  .comparisonLimit (message ++ natDigits limit) filePath

/-! ## Semantic signal -/

def tokenSeparator : CodePoint := 0x1f

def literalTokens : List Text := [
    py "INT_LIT", py "FLOAT_LIT", py "COMPLEX_LIT", py "CHAR_LIT", py "STRING_LIT", py "RAW_STRING_LIT",
    py "BYTES_LIT", py "RAW_BYTES_LIT", py "FSTRING_LIT", py "RAW_FSTRING_LIT", py "False", py "None",
    py "True", py "false", py "nullptr", py "true"]

def lowInformationTokens : List Text := [
    py "ID", py "INT_LIT", py "FLOAT_LIT", py "COMPLEX_LIT", py "CHAR_LIT", py "STRING_LIT",
    py "RAW_STRING_LIT", py "BYTES_LIT", py "RAW_BYTES_LIT", py "FSTRING_LIT", py "RAW_FSTRING_LIT",
    py "False", py "None", py "True", py "false", py "nullptr", py "true", py "INDENT", py "DEDENT",
    py "(", py ")", py "[", py "]", py "\x7b", py "\x7d", py ",", py ";", py ":", py ".", py "::", py "=",
    py "@", py "*", py "&", py "&&"]

def literalPrefixes : List Text := [
    py "INT_LIT:", py "FLOAT_LIT:", py "CHAR_LIT:", py "STRING_LIT:", py "RAW_STRING_LIT:"]

def opaquePrefixes : List Text := [py "ERROR_TOKEN(", py "TOKEN_TYPE(", py "UNTERMINATED_"]

def startsWithAny (value : Text) (starts : List Text) : Bool := starts.any (·.isPrefixOf value)

def isLiteralToken (value : Text) : Bool := value ∈ literalTokens || startsWithAny value literalPrefixes

def lineHasSemanticSignal (normalized : Text) : Bool :=
  let tokens := splitOn tokenSeparator normalized
  if 2 ≤ tokens.countP (· = py "ID") ∧ !tokens.any isLiteralToken then true
  else tokens.any fun item =>
    item ∉ lowInformationTokens && !startsWithAny item literalPrefixes && !startsWithAny item opaquePrefixes

def duplicateSignalPrefix (indexed : List (ℕ × Text)) : List ℕ :=
  (indexed.map fun record => (lineHasSemanticSignal record.2).toNat).scanl (· + ·) 0

def hasDuplicateSignal (signalPrefix : List ℕ) (start size : ℕ) : Bool :=
  if size = 0 ∨ signalPrefix.length ≤ start + size then false
  else
    let signalLines := signalPrefix.getD (start + size) 0 - signalPrefix.getD start 0
    let minimum := max 1 ((size + 3) / 4)
    (if 6 ≤ size then max 2 minimum else minimum) ≤ signalLines

/-! ## Windows -/

def rollingHashBase : ℤ := 0x100000001B3

def rollingHashModulus : ℤ := 2 ^ 128

section Windows

variable (recordHash : Text → ℕ)

/-- The hashes behind the first one; each line that leaves a window stands beside the one that enters. -/
def rolledHashes (highFactor : ℤ) : ℤ → List ((ℕ × Text) × (ℕ × Text)) → List ℤ
  | _, [] => []
  | rolling, (outgoing, incoming) :: rest =>
    let next := ((rolling - recordHash outgoing.2 * highFactor) * rollingHashBase +
      recordHash incoming.2) % rollingHashModulus
    next :: rolledHashes highFactor next rest

def firstHash (records : List (ℕ × Text)) : ℤ :=
  records.foldl (fun rolling record =>
    (rolling * rollingHashBase + recordHash record.2) % rollingHashModulus) 0

def windowHashes (indexed : List (ℕ × Text)) (windowSize : ℕ) : List ℤ :=
  if indexed.length < windowSize then []
  else
    let first := firstHash recordHash (indexed.take windowSize)
    first :: rolledHashes recordHash (rollingHashBase ^ (windowSize - 1) % rollingHashModulus) first
      (indexed.zip (indexed.drop windowSize))

abbrev WindowMap := Dict (Text × ℤ) (List (ℕ × ℕ))

def occurrencesAt (windowMap : WindowMap) (key : Text × ℤ) : List (ℕ × ℕ) := (windowMap.get? key).getD []

def regionRun (regions : List (ℤ × ℤ)) (position : ℕ) : ℕ :=
  position + ((regions.drop (position + 1)).takeWhile (· = regions.getD position (0, 0))).length

def indexWindow (fileData : DuplicateFileData) (fileIndex : ℕ) (signalPrefix : List ℕ) (windowSize : ℕ)
    (limits : DuplicateMatchLimits) (state : WindowMap × ℤ) (window : ℤ × ℕ) :
    Except MatchError (WindowMap × ℤ) :=
  let (windowMap, regionEnd) := state
  let (digest, position) := window
  if !hasDuplicateSignal signalPrefix position windowSize then .ok (windowMap, regionEnd)
  else
    let regionEnd : ℤ := if regionEnd < position then regionRun fileData.regions position else regionEnd
    if regionEnd < position + windowSize - 1 then .ok (windowMap, regionEnd)
    else
      let occurrences := occurrencesAt windowMap (fileData.language, digest)
      if limits.windowOccurrences ≤ occurrences.length then
        .error (limitReached (py "Shared duplicate-window occurrence count exceeds " ++
          py "MAX_DUPLICATE_WINDOW_OCCURRENCES=") limits.windowOccurrences fileData.filePath)
      else .ok (windowMap.set (fileData.language, digest) (occurrences ++ [(fileIndex, position)]), regionEnd)

def indexFileWindows (windowMap : WindowMap) (fileData : DuplicateFileData) (fileIndex : ℕ)
    (signalPrefix : List ℕ) (windowSize : ℕ) (limits : DuplicateMatchLimits) : Except MatchError WindowMap :=
      do
  if fileData.indexed.length < windowSize then return windowMap
  let (windowMap, _) ← (windowHashes recordHash fileData.indexed windowSize).zipIdx.foldlM
    (indexWindow fileData fileIndex signalPrefix windowSize limits) (windowMap, -1)
  return windowMap

def buildWindowMap (filesData : List DuplicateFileData) (windowSize : ℕ) (limits : DuplicateMatchLimits) :
    Except MatchError WindowMap :=
  filesData.zipIdx.foldlM (fun windowMap item =>
    indexFileWindows recordHash windowMap item.1 item.2 (duplicateSignalPrefix item.1.indexed)
      windowSize limits) []

end Windows

/-! ## Seeds -/

structure ComparisonBudget where
  sameSeedPairs : ℕ := 0
  crossSeedPairs : ℕ := 0
  comparisons : ℕ := 0
  crossFilePairs : List (ℕ × ℕ) := []

structure Seed where
  firstFile : ℕ
  firstSeed : ℕ
  secondFile : ℕ
  secondSeed : ℕ
deriving DecidableEq

section Matching

variable (filesData : List DuplicateFileData) (limits : DuplicateMatchLimits) (windowSize : ℕ)

def fileAt (index : ℕ) : DuplicateFileData := filesData.getD index ⟨[], [], [], [], []⟩

def normalizedAt (file position : ℕ) : Text := ((fileAt filesData file).indexed.getD position (0, [])).2

def regionAt (file position : ℕ) : ℤ × ℤ := (fileAt filesData file).regions.getD position (0, 0)

def recordCount (file : ℕ) : ℕ := (fileAt filesData file).indexed.length

section

variable (budget : ComparisonBudget)

def equal (firstFile first secondFile second : ℕ) : Except MatchError (Bool × ComparisonBudget) :=
  let comparisons := budget.comparisons + 1
  if limits.extensionComparisons < comparisons then
    .error (limitReached (py "Duplicate seed extension work exceeds " ++
      py "MAX_DUPLICATE_EXTENSION_COMPARISONS=") limits.extensionComparisons (py "."))
  else .ok (normalizedAt filesData firstFile first = normalizedAt filesData secondFile second,
    { budget with comparisons })

def acceptsSeedPair (seed : Seed) : Except MatchError (Bool × ComparisonBudget) :=
  if seed.firstFile = seed.secondFile then
    let sameSeedPairs := budget.sameSeedPairs + 1
    if limits.sameFileSeedPairs < sameSeedPairs then
      .error (limitReached (py "Duplicate same-file seed pair count exceeds " ++
        py "MAX_DUPLICATE_SAME_FILE_SEED_PAIRS=") limits.sameFileSeedPairs (fileAt filesData
          seed.firstFile).filePath)
    else .ok (windowSize ≤ seed.secondSeed - seed.firstSeed, { budget with sameSeedPairs })
  else
    let crossSeedPairs := budget.crossSeedPairs + 1
    if limits.crossFileSeedPairs < crossSeedPairs then
      .error (limitReached (py "Duplicate cross-file seed pair count exceeds " ++
        py "MAX_DUPLICATE_CROSS_FILE_SEED_PAIRS=") limits.crossFileSeedPairs (py "."))
    else
      let crossFilePairs := budget.crossFilePairs.insert (seed.firstFile, seed.secondFile)
      if limits.crossFilePairs < crossFilePairs.length then
        .error (limitReached (py "Duplicate cross-file candidate count exceeds " ++
          py "MAX_DUPLICATE_CROSS_FILE_PAIRS=") limits.crossFilePairs (py "."))
      else .ok (true, { budget with crossSeedPairs, crossFilePairs })

def pairsBehind : List (ℕ × ℕ) → List Seed
  | [] => []
  | first :: rest => rest.map (fun second => ⟨first.1, first.2, second.1, second.2⟩) ++ pairsBehind rest

def seedPairs (windowMap : WindowMap) : List Seed :=
  (windowMap.keys.insertionSort fun a b => toLex a ≤ toLex b).flatMap fun key => pairsBehind (occurrencesAt
    windowMap key)

def seedIsEqual (seed : Seed) : List ℕ → ComparisonBudget → Except MatchError (Bool × ComparisonBudget)
  | [], budget => .ok (true, budget)
  | offset :: offsets, budget => do
    let (same, budget) ← equal filesData limits budget seed.firstFile (seed.firstSeed + offset)
      seed.secondFile (seed.secondSeed + offset)
    if same then seedIsEqual seed offsets budget else return (false, budget)

def backwardLimit (seed : Seed) : ℕ :=
  let limit := min seed.firstSeed seed.secondSeed
  if seed.firstFile = seed.secondFile then min limit (seed.secondSeed - seed.firstSeed - windowSize)
    else limit

/-- The loop of `_extend_backward` with the turns that its limit leaves. -/
def extendBackward (seed : Seed) : ℕ → ℕ → ComparisonBudget → Except MatchError (ℕ × ComparisonBudget)
  | 0, backward, budget => .ok (backward, budget)
  | left + 1, backward, budget =>
    let firstPosition := seed.firstSeed - backward - 1
    let secondPosition := seed.secondSeed - backward - 1
    if regionAt filesData seed.firstFile firstPosition ≠ regionAt filesData seed.firstFile seed.firstSeed ∨
        regionAt filesData seed.secondFile secondPosition ≠ regionAt filesData seed.secondFile seed.secondSeed
          then
      .ok (backward, budget)
    else do
      let (same, budget) ← equal filesData limits budget seed.firstFile firstPosition seed.secondFile
        secondPosition
      if same then extendBackward seed left (backward + 1) budget else return (backward, budget)

/-- The loop of `_extend_forward` with the records that are left behind the first side. -/
def extendForward (start : Seed) : ℕ → ℕ → ComparisonBudget → Except MatchError (ℕ × ComparisonBudget)
  | 0, size, budget => .ok (size, budget)
  | left + 1, size, budget =>
    if recordCount filesData start.secondFile ≤ start.secondSeed + size ∨
        (start.firstFile = start.secondFile ∧ start.secondSeed - start.firstSeed ≤ size) ∨
        regionAt filesData start.firstFile (start.firstSeed + size) ≠
          regionAt filesData start.firstFile start.firstSeed ∨
        regionAt filesData start.secondFile (start.secondSeed + size) ≠
          regionAt filesData start.secondFile start.secondSeed then
      .ok (size, budget)
    else do
      let (same, budget) ← equal filesData limits budget start.firstFile (start.firstSeed + size)
        start.secondFile (start.secondSeed + size)
      if same then extendForward start left (size + 1) budget else return (size, budget)

/-- A match before its ends are named by lines: where it starts on both sides and how long it is. -/
structure Extent where
  start : Seed
  size : ℕ
deriving DecidableEq

def extendSeed (seed : Seed) : Except MatchError (Extent × ComparisonBudget) := do
  let (backward, budget) ← extendBackward filesData limits seed (backwardLimit windowSize seed) 0 budget
  let start := { seed with firstSeed := seed.firstSeed - backward, secondSeed := seed.secondSeed - backward }
  let (size, budget) ← extendForward filesData limits start
    (recordCount filesData start.firstFile - (start.firstSeed + (windowSize + backward)))
      (windowSize + backward) budget
  return (⟨start, size⟩, budget)

end

def lineAt (file position : ℕ) : ℕ := ((fileAt filesData file).indexed.getD position (0, [])).1

def locationMatch (extent : Extent) : MatchPair where
  firstFile := extent.start.firstFile
  firstStart := lineAt filesData extent.start.firstFile extent.start.firstSeed
  firstEnd := lineAt filesData extent.start.firstFile (extent.start.firstSeed + extent.size - 1)
  secondFile := extent.start.secondFile
  secondStart := lineAt filesData extent.start.secondFile extent.start.secondSeed
  secondEnd := lineAt filesData extent.start.secondFile (extent.start.secondSeed + extent.size - 1)
  size := extent.size

structure Matching where
  budget : ComparisonBudget := {}
  covered : Dict (ℕ × ℕ × ℤ) (List Intervals.Interval) := []
  rawMatches : List MatchPair := []

def alignment (seed : Seed) : ℕ × ℕ × ℤ :=
  (seed.firstFile, seed.secondFile, (seed.secondSeed : ℤ) - seed.firstSeed)

def intervalContains (intervals : List Intervals.Interval) (position : ℤ) : Bool :=
  Intervals.contains intervals (position, 2 ^ 63 - 1)

def appendBounded (state : Matching) (pair : MatchPair) : Except MatchError Matching :=
  let rawMatches := state.rawMatches ++ [pair]
  if limits.rawMatches < rawMatches.length then
    .error (limitReached (py "Raw duplicate match count exceeds MAX_DUPLICATE_RAW_MATCHES=")
      limits.rawMatches (py "."))
  else .ok { state with rawMatches }

/-- One turn of `find_raw_matches`. -/
def matchSeed (state : Matching) (seed : Seed) : Except MatchError Matching := do
  let (accepted, budget) ← acceptsSeedPair filesData limits windowSize state.budget seed
  if !accepted then return { state with budget }
  let intervals := (state.covered.get? (alignment seed)).getD []
  if intervalContains intervals seed.firstSeed then return { state with budget }
  let (same, budget) ← seedIsEqual filesData limits seed (List.range windowSize) budget
  if !same then return { state with budget }
  let (extent, budget) ← extendSeed filesData limits windowSize budget seed
  let added := Intervals.add intervals extent.start.firstSeed (extent.start.firstSeed + extent.size - 1)
  appendBounded limits { state with budget, covered := state.covered.set (alignment seed) added }
    (locationMatch filesData extent)

end Matching

def validateMatchInputs (filesData : List DuplicateFileData) (windowSize : ℤ) : Except MatchError Unit := do
  if windowSize ≤ 0 then .error (.value (valueError (py "window_size must be a positive integer")))
  filesData.forM fun fileData =>
    if fileData.regions.length ≠ fileData.indexed.length then
      .error (.value (valueError (py "duplicate region count must equal indexed record count")))
    else .ok ()

def findRawMatches (recordHash : Text → ℕ) (filesData : List DuplicateFileData) (windowSize : ℤ)
    (limits : DuplicateMatchLimits) : Except MatchError (List MatchPair) := do
  validateMatchInputs filesData windowSize
  let windowMap ← buildWindowMap recordHash filesData windowSize.toNat limits
  let state ← (seedPairs windowMap).foldlM (matchSeed filesData limits windowSize.toNat) {}
  return state.rawMatches

end Ici.Duplicates
