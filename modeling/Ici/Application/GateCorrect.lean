import Ici.Application.Verify

/-! # The gate and what every check found for itself

The gate looks at the first copy of a fingerprint; the policy is about each check's own copy. -/

namespace Ici

open Dict List Raising Python Deduplication

section Found

variable (own : PlannedCheck → Result Observation) (suppressions : List EffectiveSuppression)
  (checks : List PlannedCheck)

def IsUnfinished : Prop :=
  ∃ planned ∈ checks, planned.check.required = true ∧ ∃ observation, own planned = .ok observation ∧
    ¬(observation.val.state = .succeeded ∧ observation.evidenceIsComplete = true)

def Violates : Prop :=
  ∃ planned ∈ checks, planned.check.required = true ∧ ∃ observation, own planned = .ok observation ∧
    ∃ finding ∈ observation.val.findings, Blocks suppressions finding

def Demands (fingerprint : Text) : Prop :=
  ∃ planned ∈ checks, planned.check.required = true ∧ ∃ observation, own planned = .ok observation ∧
    ∃ finding ∈ observation.val.findings, finding.val.fingerprint = fingerprint

/-! ## What the order of the checks makes of it -/

def Leads (finding : Finding) : Prop :=
  ∃ observations, checks.mapM own = .ok observations ∧
    IsFirst (·.val.fingerprint) (observations.flatMap (·.val.findings)) finding

def LeadViolates : Prop :=
  ∃ finding, Leads own checks finding ∧ Demands own checks finding.val.fingerprint ∧
    Blocks suppressions finding

/-- Every blocking finding of a required check is behind a copy that does not block. -/
def Hides : Prop :=
  Violates own suppressions checks ∧ ¬LeadViolates own suppressions checks

/-- No required check has a blocking finding, but an optional check's copy comes first and blocks. -/
def Promotes : Prop :=
  ¬Violates own suppressions checks ∧ LeadViolates own suppressions checks

def IsJudged (gate : GateOutcome) : Prop :=
  (gate.val.selected = .incomplete ↔ IsUnfinished own checks) ∧
  (¬IsUnfinished own checks → (gate.val.selected = .fail ↔ Violates own suppressions checks) ∧
    (gate.val.selected = .pass ↔ ¬Violates own suppressions checks))

end Found

def Reordered (plans plans' : List (List PlannedCheck)) : Prop :=
  ∃ middle, List.Forall₂ List.Perm plans middle ∧ middle.Perm plans'

theorem Reordered.refl (plans : List (List PlannedCheck)) : Reordered plans plans :=
  ⟨plans, forall₂_same.mpr fun _ _ => .refl _, .refl _⟩

theorem Reordered.perm {plans plans' : List (List PlannedCheck)} (h : Reordered plans plans') :
    plans.flatten.Perm plans'.flatten := by
  obtain ⟨middle, hInner, hOuter⟩ := h
  exact (Perm.flatten_congr hInner).trans hOuter.flatten

section Order

variable {own : PlannedCheck → Result Observation} {suppressions : List EffectiveSuppression}
  {checks checks' : List PlannedCheck} (hPerm : checks.Perm checks')

include hPerm

theorem isUnfinished_perm : IsUnfinished own checks ↔ IsUnfinished own checks' := by
  unfold IsUnfinished
  simp only [hPerm.mem_iff]

theorem violates_perm : Violates own suppressions checks ↔ Violates own suppressions checks' := by
  unfold Violates
  simp only [hPerm.mem_iff]

theorem isJudged_perm {gate : GateOutcome} :
    IsJudged own suppressions checks gate ↔ IsJudged own suppressions checks' gate := by
  unfold IsJudged
  rw [isUnfinished_perm hPerm, violates_perm hPerm]

end Order

/-! ## The observations the gate reads -/

theorem incompleteness_ne_nil_iff {planned : PlannedCheck} {observation : Observation} :
    incompleteness planned observation ≠ [] ↔ planned.check.required = true ∧
      ¬(observation.val.state = .succeeded ∧ observation.evidenceIsComplete = true) := by
  have hColon : py ": " ≠ [] := by decide
  unfold incompleteness
  cases planned.check.required with
  | false => simp
  | true =>
    split_ifs with hNo hDone
    · cases hNo
    · simp [hDone]
    · simp [hColon, hDone]

section Run

variable {sha256 : Sha256} {suppressions : List EffectiveSuppression}
  {taskComponents : Dict Text Text} {checks : List PlannedCheck} {scheduled : Scheduled}
  {observations : List Observation}

theorem attributedObservation_taskId {planned : PlannedCheck} {observation : Observation}
    (h : attributedObservation sha256 taskComponents scheduled planned = .ok observation) :
    observation.val.taskId = planned.taskId := by
  obtain ⟨raw, hRaw, hAttribute⟩ := bind_eq_ok.mp h
  obtain ⟨findings, -, hMake⟩ := bind_eq_ok.mp hAttribute
  rw [Checked.construct_eq_ok_iff.mp hMake]
  unfold observationOf at hRaw
  split at hRaw
  · rename_i found hFound
    obtain rfl := Except.ok.inj hRaw
    rcases mem_of_mem_setAll (mem_of_get? hFound) with hMem | hMem
    · cases hMem
    · obtain ⟨item, -, hPair⟩ := mem_map.mp hMem
      obtain ⟨hId, rfl⟩ := Prod.mk.inj hPair
      exact hId
  · cases hRaw

variable (hUnique : (checks.map (·.taskId)).Nodup)
  (hOwn : checks.mapM (attributedObservation sha256 taskComponents scheduled) = .ok observations)

include hUnique hOwn

theorem observationOf_byTaskId {planned : PlannedCheck} (hPlanned : planned ∈ checks) :
    observationOf (byTaskId observations) planned.taskId =
      attributedObservation sha256 taskComponents scheduled planned := by
  obtain ⟨observation, hMem, hObservation⟩ := mem_mapM_of_mem hOwn hPlanned
  have hFound : (byTaskId observations).get? planned.taskId = some observation := by
    apply get?_setAll_of_forall
    · intro pair hPair hKey
      obtain ⟨item, hItem, rfl⟩ := mem_map.mp hPair
      obtain ⟨other, hOther, hItemOwn⟩ := exists_of_mem_mapM hOwn hItem
      have hSame : other = planned := inj_on_of_nodup_map hUnique hOther hPlanned
        ((attributedObservation_taskId hItemOwn).symm.trans hKey)
      rw [hSame] at hItemOwn
      exact Except.ok.inj (hItemOwn.symm.trans hObservation)
    · exact ⟨_, mem_map_of_mem hMem, attributedObservation_taskId hObservation⟩
  rw [observationOf, hFound, hObservation]

theorem exists_collected {β : Type} (f : PlannedCheck → Observation → β) {chosen : List PlannedCheck}
    (hChosen : ∀ planned ∈ chosen, planned ∈ checks) :
    ∃ collected, chosen.mapM (fun planned =>
        (observationOf (byTaskId observations) planned.taskId).map (f planned)) = .ok collected ∧
      ∀ b, b ∈ collected ↔ ∃ planned ∈ chosen, ∃ observation,
        attributedObservation sha256 taskComponents scheduled planned = .ok observation ∧
          f planned observation = b := by
  have hLookup : ∀ planned ∈ chosen, ∀ b, (observationOf (byTaskId observations) planned.taskId).map
      (f planned) = .ok b ↔ ∃ observation,
        attributedObservation sha256 taskComponents scheduled planned = .ok observation ∧
          f planned observation = b := by
    intro planned hPlanned b
    rw [observationOf_byTaskId hUnique hOwn (hChosen planned hPlanned), map_eq_ok]
  have hAll : ∀ planned ∈ chosen, ∃ b,
      (observationOf (byTaskId observations) planned.taskId).map (f planned) = .ok b := by
    intro planned hPlanned
    obtain ⟨observation, -, hObservation⟩ := mem_mapM_of_mem hOwn (hChosen planned hPlanned)
    exact ⟨f planned observation, (hLookup planned hPlanned _).mpr ⟨observation, hObservation, rfl⟩⟩
  obtain ⟨collected, hCollected⟩ := exists_mapM_eq_ok.mpr hAll
  refine ⟨collected, hCollected, fun b => ?_⟩
  rw [mem_mapM_iff hCollected]
  exact exists_congr fun planned => and_congr_right fun hPlanned => hLookup planned hPlanned b

theorem judgeRun_eq_ok (suppressions : List EffectiveSuppression) :
    ∃ v, judgeRun sha256 suppressions taskComponents checks scheduled = .ok v ∧
      (v.gate.val.selected = .incomplete ↔
        IsUnfinished (attributedObservation sha256 taskComponents scheduled) checks) ∧
      (¬IsUnfinished (attributedObservation sha256 taskComponents scheduled) checks →
        (v.gate.val.selected = .fail ↔ LeadViolates
          (attributedObservation sha256 taskComponents scheduled) suppressions checks) ∧
        (v.gate.val.selected = .pass ↔ ¬LeadViolates
          (attributedObservation sha256 taskComponents scheduled) suppressions checks)) := by
  obtain ⟨reasons, hReasons, hMemReasons⟩ :=
    exists_collected hUnique hOwn incompleteness fun _ h => h
  obtain ⟨required, hRequired, hMemRequired⟩ := exists_collected hUnique hOwn
    (fun _ observation => observation.val.findings.map (·.val.fingerprint))
    fun planned h => (mem_filter.mp h).1
  have hTexts : ∀ reason ∈ reasons.filter (· ≠ []), IsText reason := by
    intro reason hReason
    rw [mem_filter, hMemReasons] at hReason
    obtain ⟨⟨planned, -, observation, hObservation, rfl⟩, hNe⟩ := hReason
    have hChecked := ObservationFields.check_eq_ok_iff.mp observation.property
    rw [attributedObservation_taskId hObservation] at hChecked
    exact isText_incompleteness hChecked.1 (of_decide_eq_true hNe)
  have hUnfinished : reasons.filter (· ≠ []) ≠ [] ↔
      IsUnfinished (attributedObservation sha256 taskComponents scheduled) checks := by
    rw [Ne, filter_eq_nil_iff]
    push Not
    constructor
    · rintro ⟨reason, hReason, hNe⟩
      obtain ⟨planned, hPlanned, observation, hObservation, rfl⟩ := (hMemReasons _).mp hReason
      obtain ⟨hMust, hOpen⟩ := incompleteness_ne_nil_iff.mp (of_decide_eq_true hNe)
      exact ⟨planned, hPlanned, hMust, observation, hObservation, hOpen⟩
    · rintro ⟨planned, hPlanned, hMust, observation, hObservation, hOpen⟩
      exact ⟨_, (hMemReasons _).mpr ⟨planned, hPlanned, observation, hObservation, rfl⟩,
        decide_eq_true (incompleteness_ne_nil_iff.mpr ⟨hMust, hOpen⟩)⟩
  have hDemands : ∀ fingerprint, fingerprint ∈ required.flatten ↔
      Demands (attributedObservation sha256 taskComponents scheduled) checks fingerprint := by
    intro fingerprint
    rw [mem_flatten]
    constructor
    · rintro ⟨fingerprints, hFingerprints, hMem⟩
      obtain ⟨planned, hPlanned, observation, hObservation, rfl⟩ := (hMemRequired _).mp hFingerprints
      obtain ⟨finding, hFinding, rfl⟩ := mem_map.mp hMem
      obtain ⟨hPlanned, hMust⟩ := mem_filter.mp hPlanned
      exact ⟨planned, hPlanned, hMust, observation, hObservation, finding, hFinding, rfl⟩
    · rintro ⟨planned, hPlanned, hMust, observation, hObservation, finding, hFinding, rfl⟩
      exact ⟨_, (hMemRequired _).mpr ⟨planned, mem_filter.mpr ⟨hPlanned, hMust⟩, observation,
        hObservation, rfl⟩, mem_map_of_mem hFinding⟩
  have hLead : Fails (applySuppressions suppressions
      (unique (observations.flatMap (·.val.findings)))) required.flatten ↔ LeadViolates
        (attributedObservation sha256 taskComponents scheduled) suppressions checks := by
    unfold Fails applySuppressions unique LeadViolates Leads
    constructor
    · rintro ⟨marked, hMarked, hCounts, hDemanded⟩
      obtain ⟨finding, hKept, rfl⟩ := mem_map.mp hMarked
      rw [suppress_fingerprint, hDemands] at hDemanded
      exact ⟨finding, ⟨observations, hOwn, (mem_keepFirst_iff.mp hKept).2⟩, hDemanded,
        suppress_counts_iff.mp hCounts⟩
    · rintro ⟨finding, ⟨others, hOthers, hFirst⟩, hDemanded, hBlocks⟩
      rw [Except.ok.inj (hOthers.symm.trans hOwn)] at hFirst
      refine ⟨suppress suppressions finding, mem_map_of_mem
        (mem_keepFirst_iff.mpr ⟨not_mem_nil, hFirst⟩), suppress_counts_iff.mpr hBlocks, ?_⟩
      rw [suppress_fingerprint, hDemands]
      exact hDemanded
  obtain ⟨gate, hGate, hIncomplete, hComplete⟩ := judge_eq_ok
    (applySuppressions suppressions (unique (observations.flatMap (·.val.findings))))
    required.flatten hTexts
  refine ⟨_, bind_eq_ok.mpr ⟨observations, hOwn, bind_eq_ok.mpr ⟨reasons, hReasons,
    bind_eq_ok.mpr ⟨required, hRequired, bind_eq_ok.mpr ⟨gate, hGate, rfl⟩⟩⟩⟩, ?_, ?_⟩
  · exact hIncomplete.trans hUnfinished
  · intro hFinished
    rw [← hLead]
    exact hComplete (not_not.mp (hUnfinished.not.mpr hFinished))

end Run

section Verdict

variable (sha256 : Sha256) (suppressions : List EffectiveSuppression)
  (taskComponents : Dict Text Text) (scheduled : Scheduled)

variable {own : PlannedCheck → Result Observation} {checks : List PlannedCheck}

theorem isJudged_iff {gate : GateOutcome} (hIncomplete : gate.val.selected = .incomplete ↔ IsUnfinished own
    checks)
    (hComplete : ¬IsUnfinished own checks →
      (gate.val.selected = .fail ↔ LeadViolates own suppressions checks) ∧
      (gate.val.selected = .pass ↔ ¬LeadViolates own suppressions checks)) :
    IsJudged own suppressions checks gate ↔ (IsUnfinished own checks ∨
      (¬Hides own suppressions checks ∧ ¬Promotes own suppressions checks)) := by
  unfold IsJudged Hides Promotes
  rw [iff_true_intro hIncomplete, true_and]
  by_cases hOpen : IsUnfinished own checks
  · simp [hOpen]
  · obtain ⟨hFail, hPass⟩ := hComplete hOpen
    simp only [hOpen, not_false_eq_true, true_implies, false_or, hFail, hPass]
    tauto

theorem IsJudged.selected_eq {gate gate' : GateOutcome} (h : IsJudged own suppressions checks gate)
    (h' : IsJudged own suppressions checks gate') : gate.val.selected = gate'.val.selected := by
  by_cases hOpen : IsUnfinished own checks
  · rw [h.1.mpr hOpen, h'.1.mpr hOpen]
  · by_cases hViolates : Violates own suppressions checks
    · rw [(h.2 hOpen).1.mpr hViolates, (h'.2 hOpen).1.mpr hViolates]
    · rw [(h.2 hOpen).2.mpr hViolates, (h'.2 hOpen).2.mpr hViolates]

end Verdict

def optionalAudit : PlannedCheck := audited {
  id := py "audit", language := py "cpp", tool := some (py "lint"), required := false
  id_ne_nil := audit_ne_nil }

def longLine (evidence : EvidenceLevel) : Finding :=
  ⟨{ fingerprint := py "sha256:e501"
     ruleId := py "lint.e501"
     message := py "too long"
     severity := py "medium"
     confidence := py "high"
     primaryLocation := ⟨{ path := py "a.py", startLine := 3 }, rfl⟩
     provider := py "lint"
     evidence }, rfl⟩

def finished (taskId : Text) (evidence : EvidenceLevel) (h : IsIdentifier taskId) : Observation :=
  ⟨{ taskId, provider := py "lint", state := .succeeded, findings := [longLine evidence] },
    ObservationFields.check_eq_ok_iff.mpr
      ⟨h, (by decide : IsIdentifier (py "lint")), by simp, by simp, by simp⟩⟩

def lintAndAudit (audited : EvidenceLevel) : Scheduled where
  observations := [finished (py "audit") audited (by decide),
    finished (py "lint") .measured (by decide)]
  executions := []

def coreComponent : Dict Text Text := [(py "audit", py "core"), (py "lint", py "core")]

theorem isText_of_judge {incomplete : List Text} {findings : List Finding} {required : List Text}
    {gate : GateOutcome} (h : judge incomplete findings required = .ok gate) :
    ∀ reason ∈ incomplete, IsText reason := by
  intro reason hReason
  unfold judge at h
  dsimp only at h
  rw [if_pos (ne_nil_of_mem hReason)] at h
  have hCheck := GateOutcomeFields.check_eq_ok_iff.mp gate.property
  rw [Checked.construct_eq_ok_iff.mp h] at hCheck
  exact hCheck.1 reason hReason

section Suppressing

variable {declared more : List EffectiveSuppression} (hMore : declared ⊆ more)
include hMore

theorem fails_of_more {findings : List Finding} {required : List Text}
    (h : Fails (applySuppressions more findings) required) :
    Fails (applySuppressions declared findings) required := by
  obtain ⟨_, hMarked, hCounts, hDemanded⟩ := h
  obtain ⟨finding, hFinding, rfl⟩ := mem_map.mp hMarked
  obtain ⟨hBlocks, hFree⟩ := suppress_counts_iff.mp hCounts
  rw [suppress_fingerprint] at hDemanded
  refine ⟨suppress declared finding, mem_map_of_mem hFinding, suppress_counts_iff.mpr
    ⟨hBlocks, fun item hItem => hFree item (hMore hItem)⟩, ?_⟩
  rwa [suppress_fingerprint]

/-- Nothing is hidden and nothing finished: only violations are cleared. -/
structure ClearsOnly (v w : Verification) : Prop where
  observations : w.observations = v.observations
  fingerprints : w.findings.map (·.val.fingerprint) = v.findings.map (·.val.fingerprint)
  incomplete_iff : w.gate.val.selected = .incomplete ↔ v.gate.val.selected = .incomplete
  pass : v.gate.val.selected = .pass → w.gate.val.selected = .pass
  fail : w.gate.val.selected = .fail → v.gate.val.selected = .fail

theorem verify_suppressed (sha256 : Sha256) (world : World) (taskComponents : Dict Text Text)
    (plans : List (List PlannedCheck)) {v : Verification}
    (h : verify sha256 world declared taskComponents plans = .ok v) :
    ∃ w, verify sha256 world more taskComponents plans = .ok w ∧ ClearsOnly v w := by
  obtain ⟨graph, hGraph, h⟩ := bind_eq_ok.mp h
  obtain ⟨scheduled, hScheduled, h⟩ := bind_eq_ok.mp h
  obtain ⟨observations, hOwn, h⟩ := bind_eq_ok.mp h
  obtain ⟨reasons, hReasons, h⟩ := bind_eq_ok.mp h
  obtain ⟨required, hRequired, h⟩ := bind_eq_ok.mp h
  obtain ⟨gate, hGate, h⟩ := bind_eq_ok.mp h
  cases h
  have hText := isText_of_judge hGate
  obtain ⟨_, hSame, hOpen, hDone⟩ := judge_eq_ok (applySuppressions declared
    (unique (observations.flatMap (·.val.findings)))) required.flatten hText
  obtain rfl := Except.ok.inj (hGate.symm.trans hSame)
  obtain ⟨gate', hGate', hOpen', hDone'⟩ := judge_eq_ok (applySuppressions more
    (unique (observations.flatMap (·.val.findings)))) required.flatten hText
  refine ⟨_, bind_eq_ok.mpr ⟨graph, hGraph, bind_eq_ok.mpr ⟨scheduled, hScheduled, bind_eq_ok.mpr
    ⟨observations, hOwn, bind_eq_ok.mpr ⟨reasons, hReasons, bind_eq_ok.mpr ⟨required, hRequired,
      bind_eq_ok.mpr ⟨gate', hGate', rfl⟩⟩⟩⟩⟩⟩, ?_⟩
  constructor
  case observations => rfl
  case fingerprints => simp [applySuppressions, Function.comp_def]
  case incomplete_iff => exact hOpen'.trans hOpen.symm
  case pass =>
    intro h
    have hNone : reasons.filter (· ≠ []) = [] := by
      by_contra hSome
      cases h.symm.trans (hOpen.mpr hSome)
    exact (hDone' hNone).2.mpr fun hFails => (hDone hNone).2.mp h (fails_of_more hMore hFails)
  case fail =>
    intro h
    have hNone : reasons.filter (· ≠ []) = [] := by
      by_contra hSome
      cases h.symm.trans (hOpen'.mpr hSome)
    exact (hDone hNone).1.mpr (fails_of_more hMore ((hDone' hNone).1.mp h))

end Suppressing

def lintWorld : World where
  perform _ := .ok (finished (py "lint") .measured (by decide))

def lintSuppression : EffectiveSuppression where
  fingerprint := []
  rule := py "lint"
  path := []
  component := []
  reason := py "generated"
  declaredIn := py "ici.toml"

theorem verify_suppressed_lint :
    ∃ v, verify (fun _ => py "e501") lintWorld [] coreComponent [[lintCheck]] = .ok v ∧
      v.gate.val.selected = .fail ∧ ∃ w, verify (fun _ => py "e501") lintWorld [lintSuppression]
        coreComponent [[lintCheck]] = .ok w ∧ ClearsOnly v w :=
  ⟨_, rfl, rfl, verify_suppressed (nil_subset _) _ _ _ _ rfl⟩

end Ici
