import Ici.Application.Containment
import Ici.Application.Suppressions

/-! # Judging what a run did

Incompleteness is asked first, violations second. -/

namespace Ici

open Python

structure Verification where
  gate : GateOutcome
  observations : List Observation
  findings : List Finding
  executions : List Execution := []

/-- `_unique`: the first report of a fingerprint is kept. -/
def unique (findings : List Finding) : List Finding :=
  Deduplication.keepFirst (·.val.fingerprint) [] findings

def incompleteness (planned : PlannedCheck) (observation : Observation) : Text :=
  if !planned.check.required then []
  else if observation.val.state = .succeeded ∧ observation.evidenceIsComplete then []
  else planned.taskId ++ py ": " ++
    observation.val.limitations.head?.getD observation.val.state.value

def judge (incomplete : List Text) (findings : List Finding) (requiredFingerprints : List Text) :
    Result GateOutcome :=
  let blocking := findings.filter fun item =>
    item.countsAgainstGate && item.val.fingerprint ∈ requiredFingerprints
  let hasViolations := !blocking.isEmpty
  if incomplete ≠ [] then
    GateOutcome.make { selected := .incomplete, hasViolations, reasons := incomplete }
  else if hasViolations then
    GateOutcome.make
      { selected := .fail
        hasViolations := true
        reasons := [natDigits blocking.length ++ py " violation(s) found"] }
  else GateOutcome.make { selected := .pass }

def observationOf (byId : Dict Text Observation) (taskId : Text) : Result Observation :=
  match byId.get? taskId with
  | some observation => .ok observation
  | none => .error (keyError taskId)

def byTaskId (observations : List Observation) : Dict Text Observation :=
  Dict.setAll [] (observations.map fun item => (item.val.taskId, item))

/-- A check's own observation, once its findings have been attributed to the check. -/
def attributedObservation (sha256 : Sha256) (taskComponents : Dict Text Text) (scheduled : Scheduled)
    (planned : PlannedCheck) : Result Observation := do
  let observation ← observationOf (byTaskId scheduled.observations) planned.taskId
  attributeAll sha256 planned (taskComponents.get? planned.taskId) observation

/-- What `verify` does with the observations of the run. -/
def judgeRun (sha256 : Sha256) (suppressions : List EffectiveSuppression)
    (taskComponents : Dict Text Text) (checks : List PlannedCheck) (scheduled : Scheduled) :
    Result Verification := do
  let observations ← checks.mapM (attributedObservation sha256 taskComponents scheduled)
  let byId := byTaskId observations
  let reasons ← checks.mapM fun planned =>
    (observationOf byId planned.taskId).map (incompleteness planned)
  let findings := applySuppressions suppressions (unique (observations.flatMap (·.val.findings)))
  let required ← (checks.filter (·.check.required)).mapM fun planned =>
    (observationOf byId planned.taskId).map (·.val.findings.map (·.val.fingerprint))
  let gate ← judge (reasons.filter (· ≠ [])) findings required.flatten
  return { gate, observations, findings, executions := scheduled.executions }

def verify (sha256 : Sha256) (world : World) (suppressions : List EffectiveSuppression)
    (taskComponents : Dict Text Text) (plans : List (List PlannedCheck)) : Result Verification := do
  let graph ← buildGraph plans.flatten none
  let scheduled ← runGraph world graph
  judgeRun sha256 suppressions taskComponents plans.flatten scheduled

end Ici

/-! ## What the gate looks at

The gate is asked over the first copy of every fingerprint, in the order of the checks. -/

namespace Ici

open List Raising Python Deduplication

/-! ## Reasons are texts -/

theorem IsText.endsVisibly {t : Text} (h : IsText t) : EndsVisibly t := ⟨h.1, h.2.2 h.1⟩

theorem isText_append {s t : Text} (hs : IsText s) (ht : EndsVisibly t) : IsText (s ++ t) := by
  obtain ⟨hNe, hEnd⟩ := ht
  cases s with
  | nil => exact absurd rfl hs.1
  | cons a front =>
    exact ⟨by simp, (unpadded_append_iff a front t (hs.2.1 hs.1) hNe).mpr hEnd⟩

theorem endsVisibly_append {s t : Text} (ht : EndsVisibly t) : EndsVisibly (s ++ t) := by
  obtain ⟨hNe, hEnd⟩ := ht
  exact ⟨by simp [hNe], by rwa [getLast_append_of_ne_nil _ hNe]⟩

theorem isText_natDigits (n : ℕ) : IsText (natDigits n) := by
  have hAll : ∀ c ∈ natDigits n, isSpace c = false := by
    intro c hc
    obtain ⟨d, hd, rfl⟩ := mem_map.mp hc
    have hDigit := Nat.isDigit_of_mem_toDigits (by omega) (by omega) hd
    simp only [Char.isDigit, Bool.and_eq_true, decide_eq_true_eq] at hDigit
    have hLow : 48 ≤ d.toNat := hDigit.1
    have hHigh : d.toNat ≤ 57 := hDigit.2
    refine isSpace_of_isLowerAlnum ?_
    simp only [isLowerAlnum, Bool.or_eq_true, Bool.and_eq_true, decide_eq_true_eq, Fin.ofNat]
    omega
  have hNe : natDigits n ≠ [] := by simp [natDigits, Nat.toDigits_ne_nil]
  exact ⟨hNe, fun h => hAll _ (head_mem h), fun h => hAll _ (getLast_mem h)⟩

theorem endsVisibly_value (state : TaskState) : EndsVisibly state.value := by
  cases state <;> exact ⟨by decide, by decide⟩

theorem isText_incompleteness {planned : PlannedCheck} {observation : Observation}
    (hId : IsIdentifier planned.taskId) (h : incompleteness planned observation ≠ []) :
    IsText (incompleteness planned observation) := by
  unfold incompleteness at h ⊢
  split_ifs at h ⊢ with hRequired hDone
  · exact absurd rfl h
  · exact absurd rfl h
  · have hDetail : EndsVisibly (observation.val.limitations.head?.getD observation.val.state.value) := by
      cases hLimitations : observation.val.limitations with
      | nil => exact endsVisibly_value _
      | cons limitation rest =>
        have hAll := (ObservationFields.check_eq_ok_iff.mp observation.property).2.2.2.2
        exact (hAll limitation (hLimitations ▸ mem_cons_self)).endsVisibly
    rw [append_assoc]
    exact isText_append hId.isText (endsVisibly_append hDetail)

theorem GateOutcomeFields.check_eq_ok_iff {gate : GateOutcomeFields} : gate.check = .ok () ↔
    (∀ reason ∈ gate.reasons, IsText reason) ∧ ¬(gate.selected = .pass ∧ gate.hasViolations = true) ∧
      ¬((gate.selected = .fail ∨ gate.selected = .incomplete) ∧ gate.reasons = []) := by
  unfold check
  rw [seq_eq_ok, seq_eq_ok, forM_eq_ok, refuseIf_eq_ok_iff, refuseIf_eq_ok_iff]
  simp only [requireText_eq_ok_iff]

def Fails (findings : List Finding) (requiredFingerprints : List Text) : Prop :=
  ∃ finding ∈ findings, finding.countsAgainstGate = true ∧ finding.val.fingerprint ∈ requiredFingerprints

theorem exists_gate_of_check (gate : GateOutcomeFields) (h : gate.check = .ok ()) :
    ∃ outcome, GateOutcome.make gate = .ok outcome ∧ outcome.val = gate :=
  ⟨⟨gate, h⟩, Checked.construct_eq_ok h, rfl⟩

theorem blocking_eq_nil_iff {findings : List Finding} {requiredFingerprints : List Text} :
    (findings.filter fun item => item.countsAgainstGate &&
      item.val.fingerprint ∈ requiredFingerprints) = [] ↔ ¬Fails findings requiredFingerprints := by
  rw [filter_eq_nil_iff]
  unfold Fails
  push Not
  simp

theorem judge_eq_ok {incomplete : List Text} (findings : List Finding)
    (requiredFingerprints : List Text) (hText : ∀ reason ∈ incomplete, IsText reason) :
    ∃ gate, judge incomplete findings requiredFingerprints = .ok gate ∧
      (gate.val.selected = .incomplete ↔ incomplete ≠ []) ∧
      (incomplete = [] → (gate.val.selected = .fail ↔ Fails findings requiredFingerprints) ∧
        (gate.val.selected = .pass ↔ ¬Fails findings requiredFingerprints)) := by
  unfold judge
  by_cases hIncomplete : incomplete = []
  · by_cases hFails : Fails findings requiredFingerprints
    · have hSome := blocking_eq_nil_iff.not.mpr (not_not.mpr hFails)
      obtain ⟨gate, hGate, hVal⟩ := exists_gate_of_check {
          selected := .fail
          hasViolations := true
          reasons := [natDigits (findings.filter fun item => item.countsAgainstGate &&
            item.val.fingerprint ∈ requiredFingerprints).length ++ py " violation(s) found"] }
        (GateOutcomeFields.check_eq_ok_iff.mpr ⟨by
          simpa using isText_append (isText_natDigits _) ⟨by decide, by decide⟩, by simp, by simp⟩)
      refine ⟨gate, ?_, ?_⟩
      · simpa [hIncomplete, hSome] using hGate
      · simp [hVal, hIncomplete, hFails]
    · have hNone := blocking_eq_nil_iff.mpr hFails
      obtain ⟨gate, hGate, hVal⟩ := exists_gate_of_check { selected := .pass }
        (GateOutcomeFields.check_eq_ok_iff.mpr (by simp))
      refine ⟨gate, ?_, ?_⟩
      · simpa [hIncomplete, hNone] using hGate
      · simp [hVal, hIncomplete, hFails]
  · obtain ⟨gate, hGate, hVal⟩ := exists_gate_of_check {
        selected := .incomplete
        hasViolations := !(findings.filter fun item => item.countsAgainstGate &&
          item.val.fingerprint ∈ requiredFingerprints).isEmpty
        reasons := incomplete }
      (GateOutcomeFields.check_eq_ok_iff.mpr ⟨hText, by simp, by simp [hIncomplete]⟩)
    refine ⟨gate, ?_, ?_⟩
    · simpa [hIncomplete] using hGate
    · simp [hVal, hIncomplete]

end Ici
