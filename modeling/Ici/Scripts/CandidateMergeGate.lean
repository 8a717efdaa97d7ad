import Ici.Domain.Decoding

/-! # Selecting the Merge Gate check behind a candidate build

The pages are what `_read_json` returns: objects name every key once. -/

namespace Ici

open Python

def maxCheckRunPages : ℕ := 10

def maxCheckRunsPerPage : ℕ := 100

def maxGithubId : ℤ := 2 ^ 63 - 1

def mergeGateError (text : Text) : PyError := ⟨py "CandidateMergeGateError", text⟩

structure MergeGateSelection where
  checkRunId : ℤ
  workflowRunId : ℤ
  workflowJobId : ℤ
  detailsUrl : Text
deriving DecidableEq

/-! ## What the caller asks about -/

def isLowerHex (c : CodePoint) : Bool := isDigit c || (0x61 ≤ c.val && c.val ≤ 0x66)

/-- `^[0-9a-f]{40}$` against the whole text. -/
def IsSha (targetSha : Text) : Prop := targetSha.length = 40 ∧ targetSha.all isLowerHex = true

instance (targetSha : Text) : Decidable (IsSha targetSha) := inferInstanceAs (Decidable (_ ∧ _))

def validateSha (targetSha : Text) : Result Unit :=
  if IsSha targetSha then .ok ()
  else .error (mergeGateError (py "target SHA must be a full lowercase 40-character commit SHA"))

def isAsciiAlnum (c : CodePoint) : Bool :=
  isDigit c || (0x41 ≤ c.val && c.val ≤ 0x5a) || (0x61 ≤ c.val && c.val ≤ 0x7a)

/-- `[A-Za-z0-9][A-Za-z0-9._-]*`. -/
def isRepositoryPart (part : Text) : Bool :=
  part.head?.any isAsciiAlnum && part.all fun c => isAsciiAlnum c || c == 0x2e || c == 0x5f || c == 0x2d

section

variable (repository : Text)

/-- `[A-Za-z0-9][A-Za-z0-9._-]*/[A-Za-z0-9][A-Za-z0-9._-]*` against the whole text. -/
def IsRepository : Prop :=
  ∃ owner ∈ (repository.splitOn 0x2f).head?, ∃ name ∈ (repository.splitOn 0x2f)[1]?,
    (repository.splitOn 0x2f).length = 2 ∧ isRepositoryPart owner = true ∧ isRepositoryPart name = true

instance (repository : Text) : Decidable (IsRepository repository) :=
  inferInstanceAs (Decidable (∃ owner ∈ (repository.splitOn 0x2f).head?, _))

def validateRepository : Result Unit := do
  let bytes ← utf8 repository
  if 200 < bytes.length ∨ ¬IsRepository repository then
    .error (mergeGateError (py "repository must be an unescaped owner/name pair"))

/-- `_positive_id`: a boolean is no id. -/
def positiveId (value : Json) (label : Text) : Result ℤ :=
  match value with
  | .int id =>
    if id ≤ 0 ∨ maxGithubId < id then .error (mergeGateError (label ++ py " must be a positive GitHub ID"))
    else .ok id
  | _ => .error (mergeGateError (label ++ py " must be a positive GitHub ID"))

/-- `[1-9][0-9]{0,18}` at the front of a text, taken as long as it goes, and the rest. -/
def scanUrlId (t : Text) : Option (Text × Text) :=
  let digits := t.takeWhile isDigit
  if digits = [] ∨ digits.head? = some 0x30 ∨ 19 < digits.length then none
  else some (digits, t.drop digits.length)

/-- `https://github.com/` and the repository, up to the run. -/
def runsUrl : Text := py "https://github.com/" ++ repository ++ py "/actions/runs/"

def scanDetailsUrl (repository value : Text) : Option (Text × Text) := do
  if ¬runsUrl repository <+: value then none
  let (run, rest) ← scanUrlId (value.drop (runsUrl repository).length)
  if ¬py "/job/" <+: rest then none
  let (job, rest) ← scanUrlId (rest.drop (py "/job/").length)
  if rest = [] then some (run, job) else none

def detailsUrl (value : Json) : Result (Text × ℤ × ℤ) :=
  match value with
  | .str url =>
    match scanDetailsUrl repository url with
    | none => .error (mergeGateError (py "Merge Gate details_url is not canonical"))
    | some (run, job) => do
      let runId ← positiveId (.int (digitsValue run)) (py "workflow run ID")
      let jobId ← positiveId (.int (digitsValue job)) (py "workflow job ID")
      return (url, runId, jobId)
  | _ => .error (mergeGateError (py "Merge Gate details_url must be a string"))

end

/-! ## Pages -/

abbrev CheckRun := Dict Text Json

structure Flattening where
  expectedTotal : Option ℤ := none
  entries : List CheckRun := []
  seenIds : List ℤ := []

def addCheckRun (pageIndex : ℕ) (found : Flattening) (item : Json × ℕ) : Result Flattening :=
  match item.1 with
  | .obj entry => do
    let id ← positiveId (getValue entry (py "id")) (py "check-run ID")
    if id ∈ found.seenIds then
      .error (mergeGateError (py "duplicate check-run ID: " ++ natDigits id.toNat))
    else
      .ok { found with entries := found.entries ++ [entry], seenIds := id :: found.seenIds }
  | _ => .error (mergeGateError (py "check-run " ++ natDigits pageIndex ++ py ":" ++ natDigits item.2 ++
      py " must be an object"))

def pageCounts (page : Dict Text Json) : Option (ℤ × List Json) :=
  match getValue page (py "total_count"), getValue page (py "check_runs") with
  | .int total, .arr runs => if total < 0 ∨ maxCheckRunsPerPage < runs.length then none else some (total,
    runs)
  | _, _ => none

def addCheckPage (found : Flattening) (page : Json × ℕ) : Result Flattening :=
  match page.1 with
  | .obj fields =>
    match pageCounts fields with
    | none => .error (mergeGateError (py "check-runs page " ++ natDigits page.2 ++ py " has invalid counts"))
    | some (total, runs) =>
      if found.expectedTotal.any (· ≠ total) then
        .error (mergeGateError (py "check-runs pages disagree on total_count"))
      else
        runs.zipIdx.foldlM (addCheckRun page.2) { found with expectedTotal := some total }
  | _ => .error (mergeGateError (py "check-runs page " ++ natDigits page.2 ++ py " must be an object"))

def flattenPages (pages : List Json) : Result (List CheckRun) :=
  if ¬(1 ≤ pages.length ∧ pages.length ≤ maxCheckRunPages) then
    .error (mergeGateError (py "check-runs response must contain 1 to 10 pages"))
  else
    (pages.zipIdx.foldlM addCheckPage {}).bind fun found =>
      if found.expectedTotal = some (found.entries.length : ℤ) then .ok found.entries
      else
        (found.expectedTotal.elim (.ok (py "None")) strInt).bind fun expected =>
          .error (mergeGateError (py "check-runs response is incomplete: " ++
            natDigits found.entries.length ++
            py " != " ++ expected))

/-- `_flatten_check_pages`: one page may stand for the list of it. -/
def flattenCheckPages (value : Json) : Result (List CheckRun) :=
  match value with
  | .obj _ => flattenPages [value]
  | .arr pages => flattenPages pages
  | _ => .error (mergeGateError (py "check-runs response must contain 1 to 10 pages"))

def isMergeGate (targetSha : Text) (entry : CheckRun) : Bool :=
  (match getValue entry (py "name") with
    | .str name => name == py "Merge Gate"
    | _ => false) &&
  (match getValue entry (py "head_sha") with
    | .str sha => sha == targetSha
    | _ => false) &&
  match getValue entry (py "app") with
  | .obj app =>
    match getValue app (py "slug") with
    | .str slug => slug == py "github-actions"
    | _ => false
  | _ => false

def isText (value : Json) (wanted : Text) : Bool :=
  match value with
  | .str t => t == wanted
  | _ => false

def selectMergeGateValue (value : Json) (targetSha repository : Text) : Result MergeGateSelection := do
  validateSha targetSha
  validateRepository repository
  let entries ← flattenCheckPages value
  let candidates ← (entries.filter (isMergeGate targetSha)).mapM fun entry =>
    (positiveId (getValue entry (py "id")) (py "check-run ID")).map fun id => (id, entry)
  match candidates.maxOn? Prod.fst with
  | none => .error (mergeGateError (py "no exact GitHub Actions Merge Gate was found"))
  | some (checkId, selected) => do
    if ¬(isText (getValue selected (py "status")) (py "completed") = true ∧
        isText (getValue selected (py "conclusion")) (py "success") = true) then do
      let status ← reprValue (getValue selected (py "status"))
      let conclusion ← reprValue (getValue selected (py "conclusion"))
      .error (mergeGateError (py "newest exact Merge Gate is not completed successfully; " ++
        py "status=" ++ status ++ py " conclusion=" ++ conclusion))
    let (url, runId, jobId) ← detailsUrl repository (getValue selected (py "details_url"))
    return ⟨checkId, runId, jobId, url⟩

def pageCount (total : ℤ) : ℤ := max 1 ((total + maxCheckRunsPerPage - 1) / maxCheckRunsPerPage)

def requiredCheckPages (value : Json) : Result ℤ :=
  match value with
  | .obj fields =>
    match pageCounts fields with
    | none => .error (mergeGateError (py "first check-runs page has invalid counts"))
    | some (total, runs) =>
      let expectedFirst := min total maxCheckRunsPerPage
      if (runs.length : ℤ) ≠ expectedFirst then
        .error (mergeGateError (py "first check-runs page is incomplete: " ++ natDigits runs.length ++
          py " != " ++ natDigits expectedFirst.toNat))
      else if maxCheckRunPages < pageCount total then
        (strInt (pageCount total)).bind fun count =>
          .error (mergeGateError (py "check-runs response needs too many pages: " ++ count))
      else .ok (pageCount total)
  | _ => .error (mergeGateError (py "first check-runs page must be an object"))

def selectMergeGatePages (values : List Json) (targetSha repository : Text) : Result MergeGateSelection :=
  if ¬(1 ≤ values.length ∧ values.length ≤ maxCheckRunPages) then
    .error (mergeGateError (py "check-runs response must contain 1 to 10 pages"))
  else match values.head? with
  | some (.obj first) =>
    match getValue first (py "total_count") with
    | .int total =>
      if total < 0 then .error (mergeGateError (py "first check-runs page has invalid total_count"))
      else if (values.length : ℤ) ≠ pageCount total then
        (strInt (pageCount total)).bind fun expected =>
          .error (mergeGateError (py "check-runs page count is incomplete: " ++ natDigits values.length ++
            py " != " ++ expected))
      else selectMergeGateValue (.arr values) targetSha repository
    | _ => .error (mergeGateError (py "first check-runs page has invalid total_count"))
  | _ => .error (mergeGateError (py "first check-runs page must be an object"))

end Ici
