import Ici.Core.Baseline
import Ici.Domain.ResultReading
import Ici.Library.Substrings

/-! # Findings as engines emit them

An engine reports inspection targets, findings of its own, or both. `findings_for_result` makes the
locations canonical, derives the fingerprints and adapts every target that no finding stands for. -/

namespace Ici.Core

open List Raising Python

inductive EvidenceState where
  | measured
  | estimated
  | notRun
  | notApplicable
deriving DecidableEq

inductive FindingCategory where
  | correctness
  | type
  | security
  | resource
  | build
  | test
  | maintainability
  | architecture
  | compatibility
deriving DecidableEq

inductive FindingConfidence where
  | exact
  | high
  | medium
  | low
deriving DecidableEq

inductive SuppressionKind where
  | none
  | inline
  | config
  | baseline
deriving DecidableEq

/-- `int | float`. -/
inductive Number where
  | int (value : ℤ)
  | float (value : Double)

structure FindingMetric where
  value : Number
  unit : Text := []

structure FindingSuppression where
  suppressed : Bool := false
  kind : SuppressionKind := .none
  reason : Text := []

structure FindingFixReplacement where
  path : Text
  startLine : ℤ
  startColumn : ℤ
  endLine : ℤ
  endColumn : ℤ
  replacement : Text

structure FindingFix where
  description : Text := []
  replacements : List FindingFixReplacement := []

/-- A finding over regions as an engine gave them, or over canonical locations. -/
structure EngineFinding (location : Type) where
  ruleId : Text
  category : FindingCategory
  severity : FindingSeverity
  confidence : FindingConfidence
  fingerprint : Text
  primaryLocation : location
  message : Text
  relatedLocations : List location := []
  explanation : Text := []
  remediation : Text := []
  toolRuleId : Text := []
  toolName : Text := []
  toolVersion : Text := []
  suppression : FindingSuppression := {}
  metrics : Dict Text FindingMetric := []
  snippet : Text := []
  fixes : List FindingFix := []

structure InspectionTarget where
  filePath : Text
  startLine : ℤ
  endLine : Option ℤ := none
  targetName : Text := []
  status : EngineStatus := .pass
  message : Text := []
  snippet : Text := []
  metrics : Dict Text Json := []
  startColumn : Option ℤ := none
  endColumn : Option ℤ := none

structure ToolEvidence where
  name : Text
  path : Text
  version : Text := []
  argv : List Text := []
  returncode : Option ℤ := none
  timedOut : Bool := false
  truncated : Bool := false
  error : Text := []

structure EmittedResult where
  engineName : Text
  status : EngineStatus
  evidence : EvidenceState := .measured
  targets : List InspectionTarget := []
  toolEvidence : List ToolEvidence := []
  findings : List (EngineFinding SourceRegion) := []
  extra : Dict Text Json := []

abbrev CanonicalFinding := EngineFinding SourceLocation

def SourceRegion.IsOrdered (region : SourceRegion) : Prop :=
  1 ≤ region.startLine ∧ (∀ n ∈ region.endLine, 1 ≤ n) ∧ (∀ n ∈ region.startColumn, 1 ≤ n) ∧
    (∀ n ∈ region.endColumn, 1 ≤ n) ∧ (∀ n ∈ region.endLine, region.startLine ≤ n) ∧
    ∀ first ∈ region.startColumn, ∀ last ∈ region.endColumn,
      region.endLine = none ∨ region.endLine = some region.startLine → first ≤ last

theorem requireOneIndexed_eq_ok {context name : Text} {value : ℤ} :
    requireOneIndexed context name value = .ok () ↔ 1 ≤ value := by
  refine ⟨one_le_of_required, fun h => ?_⟩
  unfold requireOneIndexed
  rw [if_neg (by omega)]

theorem forM_option_eq_ok {α : Type} {f : α → Result Unit} {a : Option α} :
    a.toList.forM f = .ok () ↔ ∀ x ∈ a, f x = .ok () := by
  rw [forM_eq_ok]
  simp

theorem refuses_unless {p : Prop} [Decidable p] {raised : Result Unit} (h : raised ≠ .ok ()) :
    (if p then raised else pure ()) = .ok () ↔ ¬p := by
  split
  · rename_i hp
    exact iff_of_false h (not_not_intro hp)
  · rename_i hp
    exact iff_of_true rfl hp

theorem validateSourceRegion_eq_ok {context : Text} {region : SourceRegion} :
    validateSourceRegion context region = .ok () ↔ region.IsOrdered := by
  have hLine (line : ℤ) : (strInt line >>= fun shown => strInt region.startLine >>= fun first =>
      (.error (valueError (context ++ py " end_line must not precede start_line: " ++ shown ++
        py " < " ++ first)) : Result Unit)) ≠ .ok () := by
    intro h
    obtain ⟨_, _, hRest⟩ := bind_eq_ok.mp h
    obtain ⟨_, _, hRaised⟩ := bind_eq_ok.mp hRest
    cases hRaised
  have hColumn (stop start : ℤ) : (strInt stop >>= fun shown => strInt start >>= fun first =>
      (.error (valueError (context ++ py " end_column must not precede start_column on one line: " ++
        shown ++ py " < " ++ first)) : Result Unit)) ≠ .ok () := by
    intro h
    obtain ⟨_, _, hRest⟩ := bind_eq_ok.mp h
    obtain ⟨_, _, hRaised⟩ := bind_eq_ok.mp hRest
    cases hRaised
  unfold validateSourceRegion SourceRegion.IsOrdered
  rw [seq_eq_ok, seq_eq_ok, seq_eq_ok, requireOneIndexed_eq_ok, forM_eq_ok]
  simp only [forall_mem_cons, not_mem_nil, false_implies, implies_true, and_true,
    forM_option_eq_ok, requireOneIndexed_eq_ok]
  simp only [refuses_unless (hLine _), refuses_unless (hColumn _ _), not_and, not_lt, and_assoc]

theorem SourceRegion.IsOrdered.named {region : SourceRegion} (h : region.IsOrdered) (path label : Text) :
    { region with path := path, label := label }.IsOrdered := h

/-! ## Canonical findings -/

section

variable (sha256 : List UInt8 → Text) (casefold : Casefold) (projectRoot : Option Text)

def canonicalLocation (context : Text) (region : SourceRegion) : Result SourceLocation :=
  match h : validateSourceRegion context region with
  | .error e => .error e
  | .ok () => (canonicalProjectPath casefold projectRoot region.path).map fun path =>
    ⟨{ region with path }, validateSourceRegion_eq_ok.mpr
      ((validateSourceRegion_eq_ok.mp h).named path region.label)⟩

def categoryByEngine : List (Text × FindingCategory) :=
  [(py "build", .build), (py "binary_compat", .compatibility), (py "complexity", .maintainability),
    (py "cognitive", .maintainability), (py "compile_db", .build), (py "cycle", .architecture),
    (py "dead", .maintainability), (py "dup", .maintainability), (py "exception", .correctness),
    (py "integration", .correctness), (py "line", .maintainability), (py "lint", .maintainability),
    (py "python_compat", .correctness), (py "resource", .resource), (py "sanitize", .correctness),
    (py "security", .security), (py "test", .test), (py "type", .type)]

def severityByStatus : EngineStatus → FindingSeverity
  | .pass => .info
  | .skip => .info
  | .warn => .medium
  | .fail => .high
  | .error => .critical

def confidence : EvidenceState → FindingConfidence
  | .measured => .high
  | .estimated => .medium
  | _ => .low

def metricUnits : List (Text × Text) :=
  [(py "branch_coverage", py "percent"), (py "coverage", py "percent"), (py "dup_pct", py "percent"),
    (py "function_coverage", py "percent"), (py "line_coverage", py "percent"),
    (py "lines", py "lines"), (py "missed", py "lines"), (py "nesting", py "levels")]

def metricUnit (name : Text) : Text :=
  let key := casefold name
  if endsWith (py "_pct") key ∨ endsWith (py "_percent") key then py "percent"
  else ((metricUnits.find? fun entry => (before? entry.1 key).isSome).map Prod.snd).getD []

def Number.isFinite : Number → Result Bool
  | int value => (floatOf value).map fun _ => true
  | float value => .ok value.val.isFinite

def numberOf : Json → Option Number
  | .int value => some (.int value)
  | .float value => some (.float value)
  | _ => none

def numericMetric (entry : Text × Json) : Result (Option (Text × FindingMetric)) :=
  match numberOf entry.2 with
  | none => .ok none
  | some value => value.isFinite.map fun finite =>
    if finite then some (entry.1, { value, unit := metricUnit casefold entry.1 }) else none

def numericMetrics (values : Dict Text Json) : Result (Dict Text FindingMetric) :=
  ((values.insertionSort (·.1 ≤ ·.1)).mapM (numericMetric casefold)).map fun metrics =>
    metrics.filterMap id

def isRuleChar (c : CodePoint) : Bool := (0x61 ≤ c.val && c.val ≤ 0x7a) || (0x30 ≤ c.val && c.val ≤ 0x39)

/-- `re.sub(r"[^a-z0-9]+", "-", text)`. -/
def dashed : Text → Text
  | [] => []
  | [c] => if isRuleChar c then [c] else py "-"
  | c :: next :: rest =>
    if isRuleChar c then c :: dashed (next :: rest)
    else if isRuleChar next then 0x2d :: dashed (next :: rest) else dashed (next :: rest)

def legacyRuleId (engineName : Text) : Text :=
  let engine := ((dashed (casefold engineName)).dropWhile (· == 0x2d)).rdropWhile (· == 0x2d)
  py "ici.legacy." ++ (if engine = [] then py "unknown" else engine) ++ py ".target"

def InspectionTarget.region (target : InspectionTarget) : SourceRegion where
  path := target.filePath
  startLine := target.startLine
  endLine := target.endLine
  startColumn := target.startColumn
  endColumn := target.endColumn
  label := target.targetName

def legacyTargetToFinding (result : EmittedResult) (target : InspectionTarget)
    (fingerprintSymbol : Text) : Result CanonicalFinding := do
  let location ← canonicalLocation casefold projectRoot
    (py "legacy target " ++ pyRepr target.filePath) target.region
  let ruleId := legacyRuleId casefold result.engineName
  let fingerprint ← findingFingerprint sha256 ruleId location fingerprintSymbol
  let metrics ← numericMetrics casefold target.metrics
  let tool := result.toolEvidence.head?
  return {
    ruleId
    category := ((categoryByEngine.find? (·.1 = result.engineName)).map Prod.snd).getD .correctness
    severity := severityByStatus target.status
    confidence := confidence result.evidence
    fingerprint
    primaryLocation := location
    message := target.message
    explanation := py "Adapted from the legacy " ++ result.engineName ++ py " InspectionTarget contract."
    toolRuleId := if 0x3a ∈ target.targetName then target.targetName else []
    toolName := (tool.map (·.name)).getD []
    toolVersion := (tool.map (·.version)).getD []
    metrics
    snippet := target.snippet }

/-- `ici\.[a-z0-9][a-z0-9.-]*`. -/
def isIciRule (ruleId : Text) : Bool :=
  (py "ici.").isPrefixOf ruleId && (ruleId.drop 4).head?.any isRuleChar &&
    (ruleId.drop 4).all fun c => isRuleChar c || c == 0x2e || c == 0x2d

def findingLocation (region : SourceRegion) : Result SourceLocation :=
  canonicalLocation casefold projectRoot (py "finding location " ++ pyRepr region.path) region

def FindingFixReplacement.region (item : FindingFixReplacement) : SourceRegion where
  path := item.path
  startLine := item.startLine
  endLine := some item.endLine
  startColumn := some item.startColumn
  endColumn := some item.endColumn

def canonicalFix (fix : FindingFix) : Result FindingFix := do
  let replacements ← fix.replacements.mapM fun item =>
    (canonicalProjectPath casefold projectRoot item.path).map fun path => { item with path }
  replacements.forM fun item =>
    validateSourceRegion (py "finding fix replacement " ++ pyRepr item.path) item.region
  return { fix with replacements }

def canonicalizeFinding (finding : EngineFinding SourceRegion) : Result CanonicalFinding :=
  if !isIciRule finding.ruleId then
    .error (valueError (py "finding rule_id must use the ici namespace: " ++ pyRepr finding.ruleId))
  else do
    let primary ← findingLocation casefold projectRoot finding.primaryLocation
    let related ← finding.relatedLocations.mapM (findingLocation casefold projectRoot)
    let fixes ← finding.fixes.mapM (canonicalFix casefold projectRoot)
    let fingerprint ← findingFingerprint sha256 finding.ruleId primary primary.val.label
    return { finding with
      fingerprint
      primaryLocation := primary
      relatedLocations := related.insertionSort (locationKey · ≤ locationKey ·)
      fixes }

/-- A finding of the engine stands for the target that has its fingerprint. -/
def mergeFindings : List CanonicalFinding → List CanonicalFinding → List CanonicalFinding
  | [], native => native
  | adapted :: rest, native =>
    match native.find? (·.fingerprint = adapted.fingerprint) with
    | some replacement =>
      replacement :: mergeFindings rest (native.eraseP (·.fingerprint = adapted.fingerprint))
    | none => adapted :: mergeFindings rest native

def findingOrder (finding : CanonicalFinding) : Text ×ₗ Text ×ₗ ℤ ×ₗ Text :=
  toLex (finding.fingerprint, toLex (finding.primaryLocation.val.path,
    toLex (finding.primaryLocation.val.startLine, finding.message)))

/-- The symbol of a target names it where no other target of its file has the same. -/
def fingerprintSymbol (keys : List (Text × Text)) (key : Text × Text) : Text :=
  if keys.count key = 1 then key.2 else []

def findingsForResult (result : EmittedResult) : Result (List CanonicalFinding) := do
  let canonicalKeys ← result.targets.mapM fun target =>
    (canonicalProjectPath casefold projectRoot target.filePath).map fun path =>
      (path, strip target.targetName)
  let adapted ← (result.targets.zip canonicalKeys).mapM fun (target, key) =>
    legacyTargetToFinding sha256 casefold projectRoot result target (fingerprintSymbol canonicalKeys key)
  let native ← result.findings.mapM (canonicalizeFinding sha256 casefold projectRoot)
  return (mergeFindings adapted native).insertionSort (findingOrder · ≤ findingOrder ·)

end

/-! ## What becomes of targets and findings

Every finding of an engine is kept, and every target for which no finding stands. -/

open Raising

def fingerprints (findings : List CanonicalFinding) : Multiset Text := findings.map (·.fingerprint)

/-- The fingerprints of the targets a finding stands for, each as often as it does. -/
def matchedPairs (adapted native : List CanonicalFinding) : Multiset Text :=
  fingerprints adapted ∩ fingerprints native

/-- Nothing is lost and nothing invented when findings replace targets one for one. -/
structure IsBalanced (adapted native findings : List CanonicalFinding) : Prop where
  members : ∃ kept : List CanonicalFinding, kept.Sublist adapted ∧ findings.Perm (native ++ kept) ∧
    fingerprints adapted = matchedPairs adapted native + fingerprints kept
  length : findings.length + (matchedPairs adapted native).card = native.length + adapted.length
  multiplicity : ∀ fingerprint, (fingerprints findings).count fingerprint =
    max ((fingerprints native).count fingerprint) ((fingerprints adapted).count fingerprint)

/-! ## The merge -/

theorem fingerprints_cons (first : CanonicalFinding) (rest : List CanonicalFinding) :
    fingerprints (first :: rest) = first.fingerprint ::ₘ fingerprints rest := rfl

theorem fingerprints_append (first second : List CanonicalFinding) :
    fingerprints (first ++ second) = fingerprints first + fingerprints second := by
  rw [fingerprints, map_append, ← Multiset.coe_add]
  rfl

theorem fingerprints_perm {first second : List CanonicalFinding} (h : first.Perm second) :
    fingerprints first = fingerprints second := Multiset.coe_eq_coe.mpr (h.map _)

theorem card_fingerprints (findings : List CanonicalFinding) :
    (fingerprints findings).card = findings.length := by
  rw [fingerprints, Multiset.coe_card, length_map]

theorem not_mem_fingerprints_of_find? {native : List CanonicalFinding} {fingerprint : Text}
    (h : native.find? (·.fingerprint = fingerprint) = none) : fingerprint ∉ fingerprints native := by
  intro hMem
  obtain ⟨finding, hFinding, hSame⟩ := mem_map.mp (Multiset.mem_coe.mp hMem)
  exact find?_eq_none.mp h finding hFinding (decide_eq_true hSame)

section

variable {native : List CanonicalFinding} {fingerprint : Text} {replacement : CanonicalFinding}
  (h : native.find? (·.fingerprint = fingerprint) = some replacement)
include h

theorem perm_of_find? : native.Perm (replacement :: native.eraseP (·.fingerprint = fingerprint)) := by
  induction native with
  | nil => cases h
  | cons first rest ih =>
    by_cases hFirst : first.fingerprint = fingerprint
    · rw [find?_cons_of_pos (by simpa using hFirst)] at h
      cases h
      rw [eraseP_cons_of_pos (by simpa using hFirst)]
    · rw [find?_cons_of_neg (by simpa using hFirst)] at h
      rw [eraseP_cons_of_neg (by simpa using hFirst)]
      exact ((ih h).cons first).trans (List.Perm.swap replacement first _)

theorem fingerprints_of_find? : fingerprints native =
      fingerprint ::ₘ fingerprints (native.eraseP (·.fingerprint = fingerprint)) := by
  have hSame : replacement.fingerprint = fingerprint := by simpa using find?_some h
  rw [fingerprints_perm (perm_of_find? h), fingerprints_cons, hSame]

end

theorem mergeFindings_members (adapted native : List CanonicalFinding) :
    ∃ kept : List CanonicalFinding, kept.Sublist adapted ∧
      (mergeFindings adapted native).Perm (native ++ kept) ∧
      fingerprints adapted = matchedPairs adapted native + fingerprints kept := by
  induction adapted generalizing native with
  | nil =>
    refine ⟨[], Sublist.refl [], ?_, ?_⟩
    · rw [mergeFindings, append_nil]
    · rw [matchedPairs, fingerprints, map_nil, Multiset.coe_nil, Multiset.zero_inter, add_zero]
  | cons first rest ih =>
    rw [mergeFindings]
    split
    · rename_i replacement hFound
      obtain ⟨kept, hSublist, hPerm, hPairs⟩ := ih (native.eraseP (·.fingerprint = first.fingerprint))
      have hNative := fingerprints_of_find? hFound
      refine ⟨kept, hSublist.cons first, ?_, ?_⟩
      · have hTaken := (perm_of_find? hFound).append_right kept
        exact (hPerm.cons replacement).trans hTaken.symm
      · have hMem : first.fingerprint ∈ fingerprints native := by
          rw [hNative]
          exact Multiset.mem_cons_self _ _
        rw [matchedPairs, fingerprints_cons, Multiset.cons_inter_of_pos _ hMem, hNative,
          Multiset.erase_cons_head, Multiset.cons_add]
        exact congrArg _ hPairs
    · rename_i hNone
      obtain ⟨kept, hSublist, hPerm, hPairs⟩ := ih native
      refine ⟨first :: kept, hSublist.cons_cons first, ?_, ?_⟩
      · exact (hPerm.cons first).trans perm_middle.symm
      · have hMem := not_mem_fingerprints_of_find? hNone
        rw [matchedPairs, fingerprints_cons, fingerprints_cons, Multiset.cons_inter_of_neg _ hMem,
          Multiset.add_cons]
        exact congrArg _ hPairs

theorem IsBalanced.of_perm {adapted native findings : List CanonicalFinding}
    (h : findings.Perm (mergeFindings adapted native)) : IsBalanced adapted native findings := by
  obtain ⟨kept, hSublist, hMerge, hPairs⟩ := mergeFindings_members adapted native
  have hPerm := h.trans hMerge
  have hAll := (fingerprints_perm hPerm).trans (fingerprints_append native kept)
  refine ⟨⟨kept, hSublist, hPerm, hPairs⟩, ?_, fun fingerprint => ?_⟩
  · have hKept := congrArg Multiset.card hPairs
    rw [Multiset.card_add, card_fingerprints, card_fingerprints] at hKept
    have hLength := hPerm.length_eq
    rw [length_append] at hLength
    omega
  · have hKept := congrArg (Multiset.count fingerprint) hPairs
    rw [Multiset.count_add, matchedPairs, Multiset.count_inter] at hKept
    rw [hAll, Multiset.count_add]
    omega

section

variable (sha256 : List UInt8 → Text) (casefold : Casefold) (projectRoot : Option Text)

structure IsAdapted (result : EmittedResult) (keys : List (Text × Text)) (adapted : List CanonicalFinding) :
    Prop where
  keyed : List.Forall₂ (fun target key =>
    (canonicalProjectPath casefold projectRoot target.filePath).map
      (fun path => (path, strip target.targetName)) = .ok key) result.targets keys
  adapted : List.Forall₂ (fun entry finding => legacyTargetToFinding sha256 casefold projectRoot result
    entry.1 (fingerprintSymbol keys entry.2) = .ok finding) (result.targets.zip keys) adapted

def IsNative (result : EmittedResult) (native : List CanonicalFinding) : Prop :=
  List.Forall₂ (fun finding canonical => canonicalizeFinding sha256 casefold projectRoot finding =
    .ok canonical) result.findings native

variable {sha256 casefold projectRoot} {result : EmittedResult} {keys : List (Text × Text)}
  {adapted native findings : List CanonicalFinding}

theorem IsAdapted.length_eq (h : IsAdapted sha256 casefold projectRoot result keys adapted) :
    adapted.length = result.targets.length := by
  have hKeys := h.keyed.length_eq
  have hAdapted := h.adapted.length_eq
  rw [length_zip] at hAdapted
  omega

theorem findingsForResult_eq_ok : findingsForResult sha256 casefold projectRoot result = .ok findings ↔
      ∃ keys adapted native, IsAdapted sha256 casefold projectRoot result keys adapted ∧
        IsNative sha256 casefold projectRoot result native ∧
        findings = (mergeFindings adapted native).insertionSort (findingOrder · ≤ findingOrder ·) := by
  constructor
  · intro h
    obtain ⟨keys, hKeys, h⟩ := bind_eq_ok.mp h
    obtain ⟨adapted, hAdapted, h⟩ := bind_eq_ok.mp h
    obtain ⟨native, hNative, h⟩ := bind_eq_ok.mp h
    cases h
    exact ⟨keys, adapted, native, ⟨mapM_eq_ok.mp hKeys, mapM_eq_ok.mp hAdapted⟩, mapM_eq_ok.mp hNative, rfl⟩
  · rintro ⟨keys, adapted, native, hAdapted, hNative, rfl⟩
    exact step (mapM_eq_ok.mpr hAdapted.keyed) (step (mapM_eq_ok.mpr hAdapted.adapted)
      (step (mapM_eq_ok.mpr hNative) rfl))

theorem findings_balanced (sha256 : List UInt8 → Text) (casefold : Casefold) (projectRoot : Option Text)
    (result : EmittedResult) :
    ((∃ findings, findingsForResult sha256 casefold projectRoot result = .ok findings) ↔
      (∃ keys adapted, IsAdapted sha256 casefold projectRoot result keys adapted) ∧
        ∃ native, IsNative sha256 casefold projectRoot result native) ∧
    ∀ findings, findingsForResult sha256 casefold projectRoot result = .ok findings →
      ∃ keys adapted native, IsAdapted sha256 casefold projectRoot result keys adapted ∧
        IsNative sha256 casefold projectRoot result native ∧
        adapted.length = result.targets.length ∧ native.length = result.findings.length ∧
        IsBalanced adapted native findings := by
  refine ⟨⟨?_, ?_⟩, ?_⟩
  · rintro ⟨findings, h⟩
    obtain ⟨keys, adapted, native, hAdapted, hNative, -⟩ := findingsForResult_eq_ok.mp h
    exact ⟨⟨keys, adapted, hAdapted⟩, native, hNative⟩
  · rintro ⟨⟨keys, adapted, hAdapted⟩, native, hNative⟩
    exact ⟨_, findingsForResult_eq_ok.mpr ⟨keys, adapted, native, hAdapted, hNative, rfl⟩⟩
  · intro findings h
    obtain ⟨keys, adapted, native, hAdapted, hNative, rfl⟩ := findingsForResult_eq_ok.mp h
    refine ⟨keys, adapted, native, hAdapted, hNative, hAdapted.length_eq, hNative.length_eq.symm, ?_⟩
    exact .of_perm (perm_insertionSort _ _)

/-- A target outside of any project has no canonical path. -/
theorem absolute_target_refused :
    ¬∀ (sha256 : List UInt8 → Text) (casefold : Casefold) (projectRoot : Option Text)
      (result : EmittedResult), ∃ findings,
        findingsForResult sha256 casefold projectRoot result = .ok findings := by
  intro hAll
  obtain ⟨findings, h⟩ := hAll (fun _ => []) id none
    { engineName := py "line", status := .pass, targets := [{ filePath := py "/a.py", startLine := 1 }] }
  obtain ⟨keys, hKeys, -⟩ := bind_eq_ok.mp h
  cases mapM_eq_ok.mp hKeys with
  | cons hTarget _ =>
    obtain ⟨path, hPath, -⟩ := map_eq_ok.mp hTarget
    cases hPath

end

end Ici.Core
