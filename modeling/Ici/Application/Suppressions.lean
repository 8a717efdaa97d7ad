import Ici.Application.Graph
import Ici.Execution.Cache

/-! # Attributing observations before anything is judged

What a shared run found is a finding of each consumer's own component, unit and variant. -/

namespace Ici

open Python

def Finding.make : FindingFields → Result Finding := Checked.construct FindingFields.check

def textOr (first second : Option Text) : Option Text :=
  match first with
  | some name => if name = [] then second else some name
  | none => second

/-- `json.dumps(payload, separators=(",", ":"))`. -/
def identityStyle : Json.Style where
  itemSeparator := py ","
  keySeparator := py ":"

def findingFingerprint (sha256 : Sha256) (finding : FindingFields) (units : List Text) : Result Text := do
  let text (value : Option Text) : Json := (value.map Json.str).getD .null
  let number (value : Option ℤ) : Json := (value.map Json.int).getD .null
  let span := finding.primaryLocation.val
  let payload := [.str fingerprintVersion, text finding.componentId, text finding.analysisUnitId,
    text finding.variant, .str finding.provider, .str finding.ruleId, .str finding.fingerprint,
    .str finding.message, .str span.path, .int span.startLine, number span.endLine,
    number span.startColumn, number span.endColumn] ++
      (if 1 < units.length then [.arr (units.map .str)] else [])
  let canonical ← (Json.arr payload).encode identityStyle
  let bytes ← utf8 canonical
  return py "sha256:" ++ sha256 bytes

/-- `sorted(task.analysis_unit_ids)`. -/
def PlannedCheck.units (planned : PlannedCheck) : List Text :=
  match planned.task with
  | some plan => plan.task.val.analysisUnitIds.insertionSort (· ≤ ·)
  | none => []

section

variable (sha256 : Sha256) (planned : PlannedCheck) (component : Option Text)

def attributeFinding (taskId : Text) (item : Finding) : Result Finding := do
  let units := planned.units
  let unit := if units.length = 1 then units.head? else none
  let variant := planned.task.bind (·.task.val.variant)
  let owner := textOr component item.val.componentId
  let named := textOr unit item.val.analysisUnitId
  let analysisUnit := if 1 < units.length ∧ ∀ name ∈ named, name ∉ units then none else named
  let analysisVariant := textOr variant item.val.variant
  if owner = none ∧ analysisUnit = none ∧ analysisVariant = none ∧ units = [] then return item
  let attributed ← Finding.make { item.val with
    componentId := owner
    analysisUnitId := analysisUnit
    variant := analysisVariant
    taskId := some taskId }
  let fingerprint ← findingFingerprint sha256 attributed.val units
  Finding.make { attributed.val with fingerprint }

def attributeAll (observation : Observation) : Result Observation := do
  let findings ← observation.val.findings.mapM
    (attributeFinding sha256 planned component observation.val.taskId)
  Observation.make { observation.val with findings }

end

end Ici

/-! ## Declared suppressions

A suppression marks a finding and never removes it. -/

namespace Ici

open List Python

@[ext]
structure EffectiveSuppression where
  fingerprint : Text
  rule : Text
  path : Text
  component : Text
  reason : Text
  declaredIn : Text
  reason_ne_nil : reason ≠ [] := by decide

instance : DecidableEq EffectiveSuppression := fun _ _ => decidable_of_iff' _ EffectiveSuppression.ext_iff

/-- A pattern with a separator is anchored; one without matches the file's name anywhere. -/
def pathMatches (pattern : Text) (finding : Finding) : Bool :=
  let location := finding.val.primaryLocation.val.path
  if 0x2f ∈ pattern then fnmatchcase (PurePosixPath.asPosix location) pattern
  else fnmatchcase (PurePosixPath.name location) pattern

namespace EffectiveSuppression

def selects (item : EffectiveSuppression) (finding : Finding) : Bool :=
  (item.fingerprint = [] || item.fingerprint = finding.val.fingerprint) &&
  (item.rule = [] || finding.val.ruleId = item.rule ||
    (item.rule ++ py ".").isPrefixOf finding.val.ruleId) &&
  (item.component = [] || item.component = finding.val.componentId.getD []) &&
  (item.path = [] || pathMatches item.path finding)

def mark (item : EffectiveSuppression) : FindingSuppression :=
  ⟨{ suppressed := true, kind := py "config", reason := item.reason, origin := item.declaredIn }, by
    simp [FindingSuppressionFields.check, item.reason_ne_nil]⟩

end EffectiveSuppression

def Finding.withSuppression (finding : Finding) (suppression : FindingSuppression) : Finding :=
  ⟨{ finding.val with suppression }, finding.property⟩

section

variable (declared : List EffectiveSuppression) (finding : Finding)

/-- `_suppress`: the first matching declaration wins. -/
def suppress : Finding :=
  match declared.find? (·.selects finding) with
  | some item => finding.withSuppression item.mark
  | none => finding

def applySuppressions (declared : List EffectiveSuppression) (findings : List Finding) :
    List Finding := findings.map (suppress declared)

@[simp] theorem suppress_fingerprint :
    (suppress declared finding).val.fingerprint = finding.val.fingerprint := by
  unfold suppress
  split <;> rfl

def Blocks : Prop :=
  finding.countsAgainstGate = true ∧ ∀ item ∈ declared, item.selects finding = false

end

theorem suppress_counts_iff {declared : List EffectiveSuppression} {finding : Finding} :
    (suppress declared finding).countsAgainstGate = true ↔ Blocks declared finding := by
  unfold suppress Blocks
  cases hFind : declared.find? (·.selects finding) with
  | none =>
    have hNone : ∀ item ∈ declared, item.selects finding = false := by
      simpa using find?_eq_none.mp hFind
    exact (and_iff_left hNone).symm
  | some item =>
    refine iff_of_false (fun h => ?_) fun h => ?_
    · cases h
    · have hSelects := find?_some hFind
      rw [h.2 item (mem_of_find?_eq_some hFind)] at hSelects
      cases hSelects

end Ici
