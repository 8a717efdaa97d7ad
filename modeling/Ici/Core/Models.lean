import Ici.Library.PurePaths
import Ici.Library.PyDouble
import Ici.Library.Raising

/-! # Canonical project paths

A finding names its file by a lexical path below the project root. -/

namespace Ici.Core

open Raising Python

abbrev Casefold := Text → Text

def isDriveLetter (c : CodePoint) : Bool :=
  (0x41 ≤ c.val && c.val ≤ 0x5a) || (0x61 ≤ c.val && c.val ≤ 0x7a)

/-- `^[A-Za-z]:(?!/)`. -/
def isDriveRelative : Text → Bool
  | letter :: colon :: rest => isDriveLetter letter && colon == 0x3a && rest.head? != some 0x2f
  | _ => false

/-- `^[A-Za-z]:/`. -/
def hasDrive : Text → Bool
  | letter :: colon :: slash :: _ => isDriveLetter letter && colon == 0x3a && slash == 0x2f
  | _ => false

section

variable (value : Text)

def slashPath : Text := value.map fun c => if c = 0x5c then 0x2f else c

def withoutTrailingSlash : Text := value.rdropWhile (· == 0x2f)

section

variable (casefold : Casefold)

def comparisonValue (value : Text) : Text :=
  if hasDrive value then casefold value else value

def isDrivePart : Text → Bool
  | [letter, colon] => isDriveLetter letter && colon == 0x3a
  | _ => false

def collapsePart (parts : List Text) (part : Text) : Result (List Text) :=
  if part ∈ [[], py ".", py "/"] then .ok parts
  else if isDrivePart part then .ok parts
  else if part = py ".." then
    if parts = [] then .error (valueError (py "path escapes the project root: " ++ pyRepr value))
    else .ok parts.dropLast
  else .ok (parts ++ [part])

def orDot : Text := if value = [] then py "." else value

def collapseRelative : Result Text := do
  let parts ← (PurePath.parse value).parts.foldlM (collapsePart value) []
  return orDot (join (py "/") parts)

def belowRoot (root value : Text) : Result Text :=
  if root = [] then
    .error (valueError (py "absolute finding path requires project_root: " ++ pyRepr value))
  else
    let found := comparisonValue casefold value
    let expected := comparisonValue casefold root
    if found = expected then .ok (py ".")
    else if root = py "/" then .ok (value.dropWhile (· == 0x2f))
    else if (expected ++ py "/").isPrefixOf found then .ok (value.drop (root.length + 1))
    else .error (valueError (py "finding path is outside project_root: " ++ pyRepr value))

def rootText (projectRoot : Option Text) : Text :=
  let rootValue := (projectRoot.map slashPath).getD []
  if withoutTrailingSlash rootValue ≠ [] then withoutTrailingSlash rootValue
  else if rootValue.head? = some 0x2f then py "/" else []

def relativeValue (root value : Text) : Result Text :=
  if value.head? = some 0x2f ∨ hasDrive value then belowRoot casefold root value else .ok value

def canonicalProjectPath (projectRoot : Option Text) (filePath : Text) : Result Text :=
  let value := orDot (withoutTrailingSlash (slashPath filePath))
  if isDriveRelative value then
    .error (valueError (py "drive-relative finding path is ambiguous: " ++ pyRepr value))
  else do
    let relative ← relativeValue casefold (rootText projectRoot) value
    collapseRelative relative

end

theorem orDot_ne_nil : orDot value ≠ [] := by
  unfold orDot
  split
  · exact nofun
  · assumption

end

theorem canonicalProjectPath_ne_nil {casefold : Casefold} {projectRoot : Option Text} {filePath path : Text}
    (h : canonicalProjectPath casefold projectRoot filePath = .ok path) : path ≠ [] := by
  unfold canonicalProjectPath at h
  dsimp only at h
  split at h
  · cases h
  · obtain ⟨relative, -, hCollapse⟩ := bind_eq_ok.mp h
    obtain ⟨parts, -, hPath⟩ := bind_eq_ok.mp hCollapse
    cases hPath
    exact orDot_ne_nil _

end Ici.Core

/-! ## The records of the legacy suite

A source location carries the region check it passed when its finding was made canonical or its
baseline was read. -/

namespace Ici.Core

open Raising Python

inductive EngineStatus where
  | pass
  | warn
  | fail
  | error
  | skip
deriving DecidableEq

def EngineStatus.value : EngineStatus → Text
  | pass => py "PASS"
  | warn => py "WARN"
  | fail => py "FAIL"
  | error => py "ERROR"
  | skip => py "SKIP"

inductive FindingSeverity where
  | info
  | low
  | medium
  | high
  | critical
deriving DecidableEq

inductive DeltaState where
  | new
  | unchanged
  | moved
  | resolved
deriving DecidableEq

structure SourceRegion where
  path : Text
  startLine : ℤ
  endLine : Option ℤ := none
  startColumn : Option ℤ := none
  endColumn : Option ℤ := none
  label : Text := []
deriving DecidableEq

/-- `f"{value!r}"` of an integer. -/
def requireOneIndexed (context name : Text) (value : ℤ) : Result Unit :=
  if value < 1 then do
    let shown ← strInt value
    .error (valueError (context ++ py " " ++ name ++ py " must be a 1-indexed integer: " ++ shown))
  else .ok ()

def validateSourceRegion (context : Text) (region : SourceRegion) : Result Unit := do
  requireOneIndexed context (py "start_line") region.startLine
  [(py "end_line", region.endLine), (py "start_column", region.startColumn),
    (py "end_column", region.endColumn)].forM fun field =>
      field.2.toList.forM (requireOneIndexed context field.1)
  region.endLine.toList.forM fun line => do
    if line < region.startLine then
      let shown ← strInt line
      let first ← strInt region.startLine
      .error (valueError (context ++ py " end_line must not precede start_line: " ++ shown ++
        py " < " ++ first))
  region.startColumn.toList.forM fun start => region.endColumn.toList.forM fun stop => do
    if (region.endLine = none ∨ region.endLine = some region.startLine) ∧ stop < start then
      let shown ← strInt stop
      let first ← strInt start
      .error (valueError (context ++ py " end_column must not precede start_column on one line: " ++
        shown ++ py " < " ++ first))

abbrev SourceLocation := Checked (validateSourceRegion (py "source location"))

structure Finding where
  ruleId : Text
  severity : FindingSeverity
  fingerprint : Text
  primaryLocation : SourceLocation
  message : Text
  suppressed : Bool
deriving DecidableEq

structure AnalysisMetadata where
  producerVersion : Text
  fingerprintVersion : Text
  policyDigest : Text
  toolPolicyDigest : Text
deriving DecidableEq

structure FindingDelta where
  state : DeltaState
  engineName : Text
  fingerprint : Text
  ruleId : Text
  message : Text
  currentLocation : Option SourceLocation := none
  baselineLocation : Option SourceLocation := none
  currentSeverity : Option FindingSeverity := none
  baselineSeverity : Option FindingSeverity := none
  regressed : Bool := false
  suppressed : Bool := false
  gated : Bool := false
deriving DecidableEq

structure BaselineComparison where
  entries : List FindingDelta
  warnings : List Text
  baselineMetadata : Option AnalysisMetadata
  failOnNew : Bool
  gateFailed : Bool

structure CoverageSnapshot where
  metrics : List (Text × PyFloat)
  files : List (Text × PyFloat)
  regressionTolerance : Option PyFloat

/-- An engine's result with its canonical findings and its parsed coverage policy. -/
structure EngineResult where
  engineName : Text
  status : EngineStatus
  findings : List Finding
  coveragePolicy : Option CoverageSnapshot := none

theorem one_le_of_required {context name : Text} {value : ℤ}
    (h : requireOneIndexed context name value = .ok ()) : 1 ≤ value := by
  unfold requireOneIndexed at h
  split at h
  · obtain ⟨_, _, hError⟩ := bind_eq_ok.mp h
    cases hError
  · omega

theorem SourceLocation.one_le (location : SourceLocation) : 1 ≤ location.val.startLine ∧
    (∀ n ∈ location.val.endLine, 1 ≤ n) ∧ (∀ n ∈ location.val.startColumn, 1 ≤ n) ∧
    ∀ n ∈ location.val.endColumn, 1 ≤ n := by
  obtain ⟨hFirst, hRest⟩ := seq_eq_ok.mp location.property
  obtain ⟨hOthers, -⟩ := seq_eq_ok.mp hRest
  have hAll := forM_eq_ok.mp hOthers
  have hOption (name : Text) {value : Option ℤ} (h : (name, value) ∈
      [(py "end_line", location.val.endLine), (py "start_column", location.val.startColumn),
        (py "end_column", location.val.endColumn)]) : ∀ n ∈ value, 1 ≤ n := by
    intro n hn
    exact one_le_of_required (forM_eq_ok.mp (hAll _ h) n (Option.mem_toList.mpr hn))
  exact ⟨one_le_of_required hFirst, hOption (py "end_line") (by simp),
    hOption (py "start_column") (by simp), hOption (py "end_column") (by simp)⟩

end Ici.Core
