import Ici.Application.GateCorrect

/-! # A run that is no answer is no pass

Only a process that came to its own end can succeed. Every other run is told as an observation, whose
limitation the gate reads. -/

namespace Ici

open Option List Raising Python

def observeRun (provider : Provider) (plan : ProviderPlan) (spec : ProcessSpec) (run : TaskRun) :
    Result Observation := do
  let outcome ← runTask spec run
  observe provider plan outcome

/-- The process started, came to its own end, and its exit code is declared as an answer. -/
def GaveAnAnswer (contract : ExitContract) : TaskRun → Prop
  | .cancelledBefore _ => False
  | .startFailed _ _ _ => False
  | .ran result watchdog => RanToItsEnd result watchdog ∧
      (result.returncode ∈ contract.success ∨ result.returncode ∈ contract.findings)

/-- The gate is INCOMPLETE for every plan with a required check of this observation, and says why. -/
def ReadAsIncomplete (observation : Observation) : Prop :=
  ∀ sha256 suppressions taskComponents checks scheduled verification, ∀ planned ∈ checks,
    planned.check.required = true → (checks.map PlannedCheck.taskId).Nodup →
    observationOf (byTaskId scheduled.observations) planned.taskId = .ok observation →
    judgeRun sha256 suppressions taskComponents checks scheduled = .ok verification →
      verification.gate.val.selected = .incomplete ∧ ∃ limitation ∈ observation.val.limitations,
          planned.taskId ++ py ": " ++ limitation ∈ verification.gate.val.reasons

structure NoEmptyPass (provider : Provider) (plan : ProviderPlan) (spec : ProcessSpec) (run : TaskRun) :
    Prop where
  answered : ∀ observation, observeRun provider plan spec run = .ok observation →
    observation.val.state = .succeeded → observation.evidenceIsComplete = true →
      GaveAnAnswer plan.contract run
  reported : ¬GaveAnAnswer plan.contract run → ∃ observation,
    observeRun provider plan spec run = .ok observation ∧ observation.val.limitations ≠ [] ∧
      ReadAsIncomplete observation

theorem judge_reasons {incomplete : List Text} {findings : List Finding} {fingerprints : List Text}
    {gate : GateOutcome} (hSome : incomplete ≠ []) (h : judge incomplete findings fingerprints = .ok gate) :
    gate.val.selected = .incomplete ∧ gate.val.reasons = incomplete := by
  unfold judge at h
  dsimp only at h
  rw [if_pos hSome] at h
  rw [Checked.construct_eq_ok_iff.mp h]
  exact ⟨rfl, rfl⟩

theorem readAsIncomplete_of_failed {observation : Observation} {limitation : Text}
    (hState : observation.val.state ≠ .succeeded) (hLimitations : observation.val.limitations = [limitation]) :
    ReadAsIncomplete observation := by
  intro sha256 suppressions taskComponents checks scheduled verification planned hPlanned hRequired hUnique
    hObservation hRun
  obtain ⟨observations, hOwn, h⟩ := bind_eq_ok.mp hRun
  obtain ⟨reasons, hReasons, h⟩ := bind_eq_ok.mp h
  obtain ⟨required, -, h⟩ := bind_eq_ok.mp h
  obtain ⟨gate, hGate, h⟩ := bind_eq_ok.mp h
  obtain rfl := Except.ok.inj h
  obtain ⟨attributed, -, hAttributed⟩ := mem_mapM_of_mem hOwn hPlanned
  have hKept : attributed.val.state = observation.val.state ∧
      attributed.val.limitations = observation.val.limitations := by
    obtain ⟨raw, hRaw, hAttribute⟩ := bind_eq_ok.mp hAttributed
    obtain rfl := Except.ok.inj (hObservation.symm.trans hRaw)
    obtain ⟨findings, -, hMake⟩ := bind_eq_ok.mp hAttribute
    rw [Checked.construct_eq_ok_iff.mp hMake]
    exact ⟨rfl, rfl⟩
  have hReason : incompleteness planned attributed = planned.taskId ++ py ": " ++ limitation := by
    have hOpen : ¬(attributed.val.state = .succeeded ∧ attributed.evidenceIsComplete = true) :=
      fun hDone => hState (hKept.1.symm.trans hDone.1)
    rw [incompleteness, hRequired, if_neg (by simp), if_neg hOpen, hKept.2, hLimitations]
    rfl
  have hMem : planned.taskId ++ py ": " ++ limitation ∈ reasons.filter (· ≠ []) := by
    refine mem_filter.mpr ⟨(mem_mapM_iff hReasons).mpr ⟨planned, hPlanned, ?_⟩, ?_⟩
    · rw [observationOf_byTaskId hUnique hOwn hPlanned, hAttributed, ← hReason]
      rfl
    · exact decide_eq_true (by simp [show py ": " ≠ [] by decide])
  obtain ⟨hSelected, hGateReasons⟩ := judge_reasons (ne_nil_of_mem hMem) hGate
  exact ⟨hSelected, limitation, by simp [hLimitations], by rw [hGateReasons]; exact hMem⟩

def StartsVisibly (t : Text) : Prop := ∃ h : t ≠ [], isSpace (t.head h) = false

theorem isText_named_iff {name : Text} {rest : Text} (hRest : rest ≠ []) :
    IsText (name ++ py " " ++ rest) ↔ StartsVisibly name ∧ EndsVisibly rest := by
  have hLast (h : name ++ py " " ++ rest ≠ []) : (name ++ py " " ++ rest).getLast h = rest.getLast hRest :=
    getLast_append_of_ne_nil h hRest
  cases name with
  | nil =>
    refine iff_of_false (fun h => ?_) fun h => h.1.1 rfl
    have hSpace : isSpace 0x20 = false := h.2.1 h.1
    exact absurd hSpace (by decide)
  | cons a name =>
    constructor
    · intro h
      exact ⟨⟨by simp, h.2.1 h.1⟩, hRest, (hLast h.1).symm ▸ h.2.2 h.1⟩
    · rintro ⟨⟨_, hHead⟩, _, hEnd⟩
      exact ⟨by simp, fun _ => hHead, fun h => (hLast h).symm ▸ hEnd⟩

def IsDetail (detail : Text) : Prop := detail = [] ∨ EndsVisibly detail

theorem endsVisibly_detail_iff {front detail : Text} (hFront : EndsVisibly front) :
    EndsVisibly (front ++ if detail = [] then [] else py ": " ++ detail) ↔ IsDetail detail := by
  by_cases hNone : detail = []
  · rw [if_pos hNone, append_nil]
    exact iff_of_true hFront (.inl hNone)
  · rw [if_neg hNone, ← append_assoc]
    constructor
    · rintro ⟨hNe, hEnd⟩
      rw [getLast_append_of_ne_nil _ hNone] at hEnd
      exact .inr ⟨hNone, hEnd⟩
    · exact fun h => endsVisibly_append (h.resolve_left hNone)

theorem endsVisibly_outcome (outcome : Outcome) : EndsVisibly outcome.value := by
  cases outcome <;> exact ⟨by decide, by decide⟩

/-! ## When a run that is no answer can be told -/

theorem exists_strInt_neg_iff {n : ℤ} : (∃ t, strInt (-n) = .ok t) ↔ FitsDigitLimit n := by
  rw [Json.exists_strInt_iff, FitsDigitLimit, FitsDigitLimit, Int.natAbs_neg]

theorem isText_strInt_neg {n : ℤ} {t : Text} (hNegative : n < 0) (h : strInt (-n) = .ok t) : IsText t := by
  unfold strInt at h
  split at h
  · rw [← Except.ok.inj h, if_neg (by omega)]
    exact isText_natDigits _
  · exact nomatch h

theorem exists_limitationOf_iff {outcome : TaskOutcome} {interpretation : Interpretation} :
    (∃ t, limitationOf outcome interpretation = .ok t ∧ IsText t) ↔ StartsVisibly outcome.spec.val.name ∧
        if interpretation = .failed then FitsDigitLimit outcome.exitCode else IsDetail outcome.detail := by
  unfold limitationOf
  split
  · rw [← Json.exists_strInt_iff]
    constructor
    · rintro ⟨t, h, hText⟩
      obtain ⟨code, hCode, h⟩ := bind_eq_ok.mp h
      obtain rfl := Except.ok.inj h
      rw [append_assoc] at hText
      exact ⟨((@isText_named_iff _ (py "failed with exit code " ++ code) (by simp [py])).mp
        (by simpa [py] using hText)).1, code, hCode⟩
    · rintro ⟨hName, code, hCode⟩
      refine ⟨_, bind_eq_ok.mpr ⟨code, hCode, rfl⟩, ?_⟩
      have hEnd : EndsVisibly code := by
        unfold strInt at hCode
        split at hCode
        · rw [← Except.ok.inj hCode]
          exact endsVisibly_append (isText_natDigits _).endsVisibly
        · exact nomatch hCode
      have hNamed := (@isText_named_iff outcome.spec.val.name (py "failed with exit code " ++ code)
        (by simp [py])).mpr ⟨hName, endsVisibly_append hEnd⟩
      simpa [py] using hNamed
  · have hNe : outcome.outcome.value ++ (if outcome.detail = [] then [] else py ": " ++ outcome.detail) ≠ [] :=
      fun hNil => (endsVisibly_outcome outcome.outcome).1 (append_eq_nil_iff.mp hNil).1
    have hNamed := @isText_named_iff outcome.spec.val.name _ hNe
    rw [endsVisibly_detail_iff (endsVisibly_outcome _), ← append_assoc] at hNamed
    simp only [Except.ok.injEq, exists_eq_left', hNamed]

section Observe

variable {provider : Provider} {plan : ProviderPlan} {outcome : TaskOutcome}

def signalText (outcome : TaskOutcome) : Result (Option Text) :=
  match outcome.signal with
  | some number => (strInt number).map some
  | none => .ok none

theorem exists_signalText_iff : (∃ signal, signalText outcome = .ok signal) ↔
      (outcome.exitCode < 0 → FitsDigitLimit outcome.exitCode) := by
  unfold signalText TaskOutcome.signal
  split_ifs with hNegative
  · rw [imp_iff_right hNegative, ← exists_strInt_neg_iff]
    exact ⟨fun ⟨_, h⟩ => (map_eq_ok.mp h).imp fun _ h => h.1,
      fun ⟨t, h⟩ => ⟨some t, map_eq_ok.mpr ⟨t, h, rfl⟩⟩⟩
  · exact iff_of_true ⟨none, rfl⟩ fun h => absurd h hNegative

theorem isText_signalText {signal : Option Text} (h : signalText outcome = .ok signal) :
    ∀ t ∈ signal, IsText t := by
  unfold signalText TaskOutcome.signal at h
  split_ifs at h with hNegative
  · obtain ⟨t, hText, rfl⟩ := map_eq_ok.mp h
    rintro _ ⟨⟩
    exact isText_strInt_neg hNegative hText
  · obtain rfl := Except.ok.inj h
    exact fun _ h => nomatch h

def unansweredFields (provider : Provider) (plan : ProviderPlan) (outcome : TaskOutcome)
    (signal : Option Text)
    (limitation : Text) : ObservationFields where
  taskId := plan.task.val.id
  provider := provider.name
  state := stateFor outcome
  exitCode := some outcome.exitCode
  signal := signal
  timedOut := outcome.outcome = .timedOut
  truncated := outcome.truncated
  durationSeconds := some outcome.duration
  limitations := [limitation]

theorem observe_unanswered (hNot : (plan.contract.read outcome).isAnAnswer = false) :
    observe provider plan outcome = (do
      let signal ← signalText outcome
      let limitation ← limitationOf outcome (plan.contract.read outcome)
      Observation.make (unansweredFields provider plan outcome signal limitation)) := by
  unfold observe signalText
  dsimp only
  rw [hNot, Bool.not_false, if_pos rfl]
  cases outcome.signal <;> rfl

theorem state_unanswered : stateFor outcome ≠ .succeeded := by
  unfold stateFor
  cases outcome.outcome <;> decide

theorem exists_observe_iff (hProvider : IsIdentifier provider.name)
    (hDuration : outcome.duration.val.isNegative = false)
    (hNot : (plan.contract.read outcome).isAnAnswer = false) :
    (∃ observation, observe provider plan outcome = .ok observation ∧ observation.val.limitations ≠ [] ∧
        ReadAsIncomplete observation) ↔
      (outcome.exitCode < 0 → FitsDigitLimit outcome.exitCode) ∧
        ∃ t, limitationOf outcome (plan.contract.read outcome) = .ok t ∧ IsText t := by
  rw [← exists_signalText_iff]
  constructor
  · rintro ⟨observation, h, -, -⟩
    rw [observe_unanswered hNot] at h
    obtain ⟨signal, hSignal, h⟩ := bind_eq_ok.mp h
    obtain ⟨limitation, hLimitation, h⟩ := bind_eq_ok.mp h
    have hVal := Checked.construct_eq_ok_iff.mp h
    have hTexts := (ObservationFields.check_eq_ok_iff.mp observation.property).2.2.2.2
    rw [hVal] at hTexts
    exact ⟨⟨signal, hSignal⟩, limitation, hLimitation, hTexts limitation mem_cons_self⟩
  · rintro ⟨⟨signal, hSignal⟩, limitation, hLimitation, hText⟩
    have hCheck : (unansweredFields provider plan outcome signal limitation).check = .ok () := by
      refine ObservationFields.check_eq_ok_iff.mpr
        ⟨plan.task.id_isIdentifier, hProvider, isText_signalText hSignal, ?_, ?_⟩
      · rintro _ ⟨⟩
        exact hDuration
      · intro other hOther
        rw [mem_singleton.mp hOther]
        exact hText
    refine ⟨⟨_, hCheck⟩, ?_, cons_ne_nil _ _, readAsIncomplete_of_failed state_unanswered rfl⟩
    rw [observe_unanswered hNot]
    exact bind_eq_ok.mpr ⟨signal, hSignal, bind_eq_ok.mpr
      ⟨limitation, hLimitation, Checked.construct_eq_ok hCheck⟩⟩

theorem isAnAnswer_of_succeeded {observation : Observation}
    (h : observe provider plan outcome = .ok observation) (hState : observation.val.state = .succeeded) :
    (plan.contract.read outcome).isAnAnswer = true := by
  by_contra hNot
  rw [observe_unanswered (Bool.eq_false_iff.mpr hNot)] at h
  obtain ⟨signal, -, h⟩ := bind_eq_ok.mp h
  obtain ⟨limitation, -, h⟩ := bind_eq_ok.mp h
  rw [Checked.construct_eq_ok_iff.mp h] at hState
  exact state_unanswered hState

theorem isAnAnswer_iff {contract : ExitContract} : (contract.read outcome).isAnAnswer = true ↔
      outcome.outcome = .finished ∧ (outcome.exitCode ∈ contract.success ∨
        outcome.exitCode ∈ contract.findings) := by
  unfold ExitContract.read Outcome.ranToCompletion
  by_cases hFinished : outcome.outcome = .finished
  · by_cases hSuccess : outcome.exitCode ∈ contract.success
    · simp [hFinished, hSuccess, Interpretation.isAnAnswer]
    · by_cases hFindings : outcome.exitCode ∈ contract.findings <;>
        simp [hFinished, hSuccess, hFindings, Interpretation.isAnAnswer]
  · simp [hFinished, Interpretation.isAnAnswer]

theorem read_unanswered {contract : ExitContract} (hNot : (contract.read outcome).isAnAnswer = false) :
    contract.read outcome = .failed ↔ outcome.outcome = .finished := by
  unfold ExitContract.read Outcome.ranToCompletion at *
  by_cases hFinished : outcome.outcome = .finished
  · simp only [hFinished, decide_true, Bool.not_true, Bool.false_eq_true, if_false] at hNot ⊢
    split_ifs at hNot ⊢ <;> simp_all [Interpretation.isAnAnswer]
  · simp [hFinished]

end Observe

/-! ## From the runner to the gate -/

/-- The reason can be told: it is no text that begins or ends in blanks, and its numbers can be written. -/
def Tellable (spec : ProcessSpec) : TaskRun → Prop
  | .cancelledBefore reason => StartsVisibly spec.val.name ∧ IsDetail reason
  | .startFailed error _ _ => StartsVisibly spec.val.name ∧ IsDetail error
  | .ran result watchdog =>
    StartsVisibly spec.val.name ∧
      (∀ cleanup ∈ watchdog.cleanup, cleanup.interrupted = true → IsDetail cleanup.reason) ∧
      (result.returncode < 0 → FitsDigitLimit result.returncode) ∧
      (watchdog.interrupted = false → result.timedOut = false → 0 ≤ result.returncode →
        if result.truncated then FitsDigitLimit spec.val.outputLimit else FitsDigitLimit result.returncode)

theorem isDetail_interruption {watchdog : Watchdog} {reason : Outcome × Text}
    (h : watchdog.interruption = some reason) :
    IsDetail reason.2 ↔ ∀ cleanup ∈ watchdog.cleanup, cleanup.interrupted = true →
      IsDetail cleanup.reason := by
  have hDefault (text reason : Text) (hText : EndsVisibly text) :
      IsDetail (if reason = [] then text else reason) ↔ IsDetail reason := by
    split
    · rename_i hNone
      exact iff_of_true (.inr hText) (.inl hNone)
    · rfl
  unfold Watchdog.interruption at h
  split at h
  · exact nomatch h
  · rename_i cleanup hCleanup
    split at h
    · exact nomatch h
    · rename_i hStopped
      rw [hCleanup]
      simp only [mem_some_iff, forall_eq', imp_iff_right (by simpa using hStopped)]
      rw [← apply_ite some, some_inj] at h
      subst h
      split
      all_goals exact hDefault _ _ ⟨by decide, by decide⟩

theorem exists_reasonOf_iff {spec : ProcessSpec} {result : ProcessResult} {watchdog : Watchdog} :
    ((result.returncode < 0 → FitsDigitLimit result.returncode) ∧
        ∃ reason, reasonOf spec result watchdog = .ok reason ∧
          if reason.1 = .finished then FitsDigitLimit result.returncode else IsDetail reason.2) ↔
      (∀ cleanup ∈ watchdog.cleanup, cleanup.interrupted = true → IsDetail cleanup.reason) ∧
        (result.returncode < 0 → FitsDigitLimit result.returncode) ∧
        (watchdog.interrupted = false → result.timedOut = false → 0 ≤ result.returncode →
          if result.truncated then FitsDigitLimit spec.val.outputLimit
          else FitsDigitLimit result.returncode) := by
  unfold reasonOf
  cases hStopped : watchdog.interruption with
  | some reason =>
    have hInterrupted : watchdog.interrupted ≠ false := fun hNone =>
      nomatch hStopped.symm.trans (interruption_eq_none_iff.mpr hNone)
    have hOutcome : reason.1 ≠ .finished := by
      rcases interruption_outcome hStopped with h | h <;> rw [h] <;> decide
    have hNever (told : Prop) : (watchdog.interrupted = false → told) ↔ True :=
      iff_true_intro fun hNone => absurd hNone hInterrupted
    simp only [Except.ok.injEq, exists_eq_left', if_neg hOutcome, isDetail_interruption hStopped, hNever,
      and_true]
    exact and_comm
  | none =>
    have hUndisturbed := interruption_eq_none_iff.mp hStopped
    have hNoCleanup : ∀ cleanup ∈ watchdog.cleanup, cleanup.interrupted = true → IsDetail cleanup.reason := by
      intro cleanup hCleanup hInterrupted
      rw [Watchdog.interrupted, hCleanup, any_some, hInterrupted] at hUndisturbed
      exact nomatch hUndisturbed
    rw [and_iff_right hNoCleanup, imp_iff_right hUndisturbed]
    refine and_congr_right fun hCode => ?_
    cases result.timedOut with
    | true =>
      refine iff_of_true ⟨_, rfl, ?_⟩ fun h => (nomatch h)
      exact .inr (endsVisibly_append ⟨by decide, by decide⟩)
    | false =>
      rw [imp_iff_right rfl, if_neg Bool.false_ne_true]
      by_cases hSignal : result.returncode < 0
      · rw [if_pos hSignal]
        refine iff_of_true ?_ fun h => absurd hSignal (not_lt.mpr h)
        obtain ⟨number, hNumber⟩ := exists_strInt_neg_iff.mpr (hCode hSignal)
        refine ⟨_, bind_eq_ok.mpr ⟨number, hNumber, rfl⟩, ?_⟩
        exact .inr (endsVisibly_append (isText_strInt_neg hSignal hNumber).endsVisibly)
      · rw [if_neg hSignal, imp_iff_right (not_lt.mp hSignal)]
        cases result.truncated with
        | true =>
          rw [if_pos rfl, if_pos rfl]
          constructor
          · rintro ⟨reason, h, -⟩
            obtain ⟨limit, hLimit, -⟩ := bind_eq_ok.mp h
            exact (Json.exists_strInt_iff _).mp ⟨limit, hLimit⟩
          · intro hFits
            obtain ⟨limit, hLimit⟩ := (Json.exists_strInt_iff _).mpr hFits
            refine ⟨_, bind_eq_ok.mpr ⟨limit, hLimit, rfl⟩, ?_⟩
            exact .inr (endsVisibly_append ⟨by decide, by decide⟩)
        | false =>
          simp only [Bool.false_eq_true, if_false, Except.ok.injEq, exists_eq_left', if_true]

theorem told_iff {provider : Provider} {plan : ProviderPlan} {spec : ProcessSpec} {run : TaskRun}
    (hProvider : IsIdentifier provider.name) (hNot : ¬GaveAnAnswer plan.contract run) :
    (∃ observation, observeRun provider plan spec run = .ok observation ∧ observation.val.limitations ≠ [] ∧
        ReadAsIncomplete observation) ↔ Tellable spec run := by
  have hRun (told : Observation → Prop) : (∃ observation, observeRun provider plan spec run =
    .ok observation ∧ told observation) ↔ ∃ outcome, runTask spec run = .ok outcome ∧ ∃ observation,
        observe provider plan outcome = .ok observation ∧ told observation := by
    simp only [observeRun, bind_eq_ok]
    constructor
    · rintro ⟨observation, ⟨outcome, hOutcome, h⟩, hTold⟩
      exact ⟨outcome, hOutcome, observation, h, hTold⟩
    · rintro ⟨outcome, hOutcome, observation, h, hTold⟩
      exact ⟨observation, ⟨outcome, hOutcome, h⟩, hTold⟩
  have hTold (outcome : TaskOutcome) (hDuration : outcome.duration.val.isNegative = false)
      (hUnanswered : (plan.contract.read outcome).isAnAnswer = false) :
      (∃ observation, observe provider plan outcome = .ok observation ∧ observation.val.limitations ≠ [] ∧
        ReadAsIncomplete observation) ↔
        (outcome.exitCode < 0 → FitsDigitLimit outcome.exitCode) ∧ StartsVisibly outcome.spec.val.name ∧
          if outcome.outcome = .finished then FitsDigitLimit outcome.exitCode
          else IsDetail outcome.detail := by
    rw [exists_observe_iff hProvider hDuration hUnanswered, exists_limitationOf_iff,
      if_congr (read_unanswered hUnanswered) rfl rfl]
  have hOne : FitsDigitLimit (-1) := by decide
  rw [hRun]
  cases run with
  | cancelledBefore reason =>
    simp only [runTask, Except.ok.injEq, exists_eq_left', Tellable]
    rw [hTold _ (show Double.zero.val.isNegative = false by decide) rfl,
      imp_iff_right (show (-1 : ℤ) < 0 by decide), and_iff_right hOne]
    refine and_congr_right fun _ => ?_
    simp only [reduceCtorEq, if_false]
    split
    · rename_i hNone
      exact iff_of_true (.inr ⟨by decide, by decide⟩) (.inl hNone)
    · rfl
  | startFailed error duration hDuration =>
    simp only [runTask, Except.ok.injEq, exists_eq_left', Tellable]
    rw [hTold _ hDuration rfl, imp_iff_right (show (-1 : ℤ) < 0 by decide), and_iff_right hOne]
    simp only [reduceCtorEq, if_false]
  | ran result watchdog =>
    have hClassified (told : TaskOutcome → Prop) : (∃ outcome, classify spec result watchdog = .ok outcome ∧
        told outcome) ↔ ∃ reason, reasonOf spec result watchdog = .ok reason ∧ told {
          spec, outcome := reason.1, exitCode := result.returncode, stdout := result.stdout,
          stderr := result.stderr, duration := result.duration, detail := reason.2,
          truncated := result.truncated } := by
      simp only [classify, bind_eq_ok]
      constructor
      · rintro ⟨outcome, ⟨reason, hReason, h⟩, hTold⟩
        exact ⟨reason, hReason, Except.ok.inj h ▸ hTold⟩
      · rintro ⟨reason, hReason, hTold⟩
        exact ⟨_, ⟨reason, hReason, rfl⟩, hTold⟩
    rw [runTask, hClassified, Tellable, ← exists_reasonOf_iff]
    constructor
    · rintro ⟨reason, hReason, h⟩
      rw [hTold _ result.duration_nonneg (Bool.eq_false_iff.mpr fun hAnswer => hNot ?_)] at h
      · exact ⟨h.2.1, h.1, reason, hReason, h.2.2⟩
      · obtain ⟨hFinished, hCode⟩ := isAnAnswer_iff.mp hAnswer
        exact ⟨(reasonOf_finished_iff hReason).mp hFinished, hCode⟩
    · rintro ⟨hName, hCode, reason, hReason, h⟩
      refine ⟨reason, hReason, ?_⟩
      rw [hTold _ result.duration_nonneg (Bool.eq_false_iff.mpr fun hAnswer => hNot ?_)]
      · exact ⟨hCode, hName, h⟩
      · obtain ⟨hFinished, hCode⟩ := isAnAnswer_iff.mp hAnswer
        exact ⟨(reasonOf_finished_iff hReason).mp hFinished, hCode⟩

/-- A success is an answer; whatever else happened is told exactly when its texts can be. -/
theorem noEmptyPass_iff (provider : Provider) (plan : ProviderPlan) (spec : ProcessSpec) (run : TaskRun)
    (hProvider : IsIdentifier provider.name) :
    NoEmptyPass provider plan spec run ↔ (¬GaveAnAnswer plan.contract run → Tellable spec run) := by
  refine ⟨fun h hNot => (told_iff hProvider hNot).mp (h.reported hNot), fun h => ⟨?_, fun hNot =>
    (told_iff hProvider hNot).mpr (h hNot)⟩⟩
  intro observation hObserve hState _
  obtain ⟨outcome, hOutcome, hObserve⟩ := bind_eq_ok.mp hObserve
  obtain ⟨hFinished, hCode⟩ := isAnAnswer_iff.mp (isAnAnswer_of_succeeded hObserve hState)
  cases run with
  | cancelledBefore reason | startFailed error duration hDuration => exact nomatch (Except.ok.inj hOutcome) ▸ hFinished
  | ran result watchdog =>
    obtain ⟨reason, hReason, hOutcome⟩ := bind_eq_ok.mp hOutcome
    obtain rfl := Except.ok.inj hOutcome
    exact ⟨(reasonOf_finished_iff hReason).mp hFinished, hCode⟩

def ruffProvider : Provider := ⟨py "ruff", fun _ => .ok {}⟩

def ruffTask : TaskSpec := ⟨{
    id := py "app.python.lint"
    kind := .analyze
    provider := py "ruff"
    argv := [py "ruff"]
    cwd := py "." }, by decide⟩

def processSpec (name : Text) : ProcessSpec := ⟨{
    argv := [py "/"]
    name := name
    cwd := py "/work"
    environment := []
    timeout := .fin 300
    outputLimit := defaultOutputLimit
    workDirs := [] }, by
  have hPositive : ¬(PyFloat.fin 300 ≠ .nan ∧ PyFloat.lt (.fin 0) (.fin 300) = false) := by decide
  rw [ProcessSpecFields.check, if_neg (List.cons_ne_nil _ _), if_neg hPositive]⟩

theorem noEmptyPass_ruff :
    NoEmptyPass ruffProvider { task := ruffTask } (processSpec (py "ruff")) (.ran { returncode := 3 } {}) :=
  (noEmptyPass_iff ruffProvider { task := ruffTask } (processSpec (py "ruff")) (.ran { returncode := 3 } {})
    (by decide)).mpr fun _ => ⟨⟨by decide, by decide⟩, fun _ h => (nomatch h), fun h => absurd h (by decide),
      fun _ _ _ => by decide⟩

/-- The root directory has no name, so what failed to start is told behind a blank. -/
theorem nameless_process_untold :
    ¬∀ provider plan spec run, IsIdentifier provider.name → NoEmptyPass provider plan spec run := by
  intro h
  have hReported := (h ruffProvider { task := ruffTask } (processSpec [])
    (.startFailed (py "[Errno 13] Permission denied: '/'") .zero (by decide)) (by decide)).reported id
  exact ((told_iff (by decide) id).mp hReported).1.1 rfl

end Ici
