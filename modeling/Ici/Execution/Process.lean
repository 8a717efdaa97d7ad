import Ici.Domain.Events

/-! # How a process ended, and what its exit code was agreed to mean -/

namespace Ici

open Python

inductive Outcome where
  | finished
  | timedOut
  | signalled
  | outputTruncated
  | startFailed
  | cancelled
deriving DecidableEq

def Outcome.value : Outcome → Text
  | finished => py "finished"
  | timedOut => py "timed-out"
  | signalled => py "signalled"
  | outputTruncated => py "output-truncated"
  | startFailed => py "start-failed"
  | cancelled => py "cancelled"

def Outcome.ranToCompletion (outcome : Outcome) : Bool := outcome = .finished

inductive Interpretation where
  | succeeded
  | foundFindings
  | failed
  | didNotRun
deriving DecidableEq

def Interpretation.isAnAnswer : Interpretation → Bool
  | succeeded | foundFindings => true
  | failed | didNotRun => false

def defaultOutputLimit : ℤ := 1000000

structure ProcessSpecFields where
  argv : List Text
  name : Text
  cwd : Text
  environment : List (Text × Text)
  timeout : PyFloat
  outputLimit : ℤ
  workDirs : List Text
deriving DecidableEq

def ProcessSpecFields.check (spec : ProcessSpecFields) : Result Unit :=
  if spec.argv = [] then .error (valueError (py "a task must have a command"))
  -- a NaN is not at most zero
  else if spec.timeout ≠ .nan ∧ PyFloat.lt (.fin 0) spec.timeout = false then
    .error (valueError (py "a task timeout must be positive"))
  else .ok ()

abbrev ProcessSpec := Checked ProcessSpecFields.check

structure TaskOutcome where
  spec : ProcessSpec
  outcome : Outcome
  exitCode : ℤ
  stdout : Text := []
  stderr : Text := []
  duration : Double := Double.zero
  detail : Text := []
  truncated : Bool := false
deriving DecidableEq

def TaskOutcome.signal (outcome : TaskOutcome) : Option ℤ :=
  if outcome.exitCode < 0 then some (-outcome.exitCode) else none

theorem onlyZero_succeeds : ∀ code ∈ [(0 : ℤ)], code ∉ ([] : List ℤ) := by decide

structure ExitContract where
  success : List ℤ := [0]
  findings : List ℤ := []
  disjoint : ∀ code ∈ success, code ∉ findings := by first | exact onlyZero_succeeds | decide
deriving DecidableEq

def ExitContract.read (contract : ExitContract) (outcome : TaskOutcome) : Interpretation :=
  if !outcome.outcome.ranToCompletion then .didNotRun
  else if outcome.exitCode ∈ contract.success then .succeeded
  else if outcome.exitCode ∈ contract.findings then .foundFindings
  else .failed

end Ici

/-! ## Naming the reason a run ended for

One reason is picked in the order of causes; the facts it does not name are kept beside it. -/

namespace Ici

open Raising Python

structure ProcessResult where
  returncode : ℤ
  stdout : Text := []
  stderr : Text := []
  duration : Double := Double.zero
  timedOut : Bool := false
  truncated : Bool := false
  -- the clock behind it is monotonic
  duration_nonneg : duration.val.isNegative = false := by decide

inductive Trigger where
  | none
  | cancelled
  | overran
deriving DecidableEq

/-- What stopping a process tree found, as far as the reason depends on it. -/
structure Cleanup where
  reason : Text := []
  interrupted : Bool := false

structure Watchdog where
  cleanup : Option Cleanup := none
  trigger : Trigger := .none

namespace Watchdog

def interrupted (watchdog : Watchdog) : Bool := watchdog.cleanup.any (·.interrupted)

def interruption (watchdog : Watchdog) : Option (Outcome × Text) :=
  match watchdog.cleanup with
  | none => none
  | some cleanup =>
    if !cleanup.interrupted then none
    else if watchdog.trigger = .cancelled then
      some (.cancelled, if cleanup.reason = [] then py "cancelled" else cleanup.reason)
    else some (.timedOut, if cleanup.reason = [] then py "stopped by the watchdog" else cleanup.reason)

end Watchdog

section

variable (spec : ProcessSpec) (result : ProcessResult) (watchdog : Watchdog)

def reasonOf : Result (Outcome × Text) :=
  match watchdog.interruption with
  | some interruption => .ok interruption
  | none =>
    if result.timedOut then
      .ok (.timedOut, py "no answer within " ++ spec.val.timeout.general ++ py "s")
    else if result.returncode < 0 then do
      let number ← strInt (-result.returncode)
      return (.signalled, py "killed by signal " ++ number)
    else if result.truncated then do
      let limit ← strInt spec.val.outputLimit
      return (.outputTruncated, py "more than " ++ limit ++ py " characters of output")
    else .ok (.finished, [])

def classify : Result TaskOutcome := do
  let (outcome, detail) ← reasonOf spec result watchdog
  return {
    spec
    outcome
    exitCode := result.returncode
    stdout := result.stdout
    stderr := result.stderr
    duration := result.duration
    detail
    truncated := result.truncated }

end

inductive TaskRun where
  /-- A stop had been requested. -/
  | cancelledBefore (reason : Text)
  | startFailed (error : Text) (duration : Double) (duration_nonneg : duration.val.isNegative = false)
  | ran (result : ProcessResult) (watchdog : Watchdog)

def runTask (spec : ProcessSpec) : TaskRun → Result TaskOutcome
  | .cancelledBefore reason => .ok {
      spec
      outcome := .cancelled
      exitCode := -1
      detail := if reason = [] then py "cancelled before it started" else reason }
  | .startFailed error duration _ => .ok {
      spec
      outcome := .startFailed
      exitCode := -1
      duration
      detail := error }
  | .ran result watchdog => classify spec result watchdog

theorem interruption_eq_none_iff {watchdog : Watchdog} :
    watchdog.interruption = none ↔ watchdog.interrupted = false := by
  unfold Watchdog.interruption Watchdog.interrupted
  cases watchdog.cleanup with
  | none => simp
  | some cleanup => cases hStopped : cleanup.interrupted <;> split_ifs <;> simp_all

theorem interruption_outcome {watchdog : Watchdog} {interruption : Outcome × Text}
    (h : watchdog.interruption = some interruption) :
    interruption.1 = .cancelled ∨ interruption.1 = .timedOut := by
  unfold Watchdog.interruption at h
  split at h
  · exact nomatch h
  · split at h
    · exact nomatch h
    · rw [← apply_ite some, Option.some_inj] at h
      subst h
      split
      · exact .inl rfl
      · exact .inr rfl

/-- A process that came to its own end with a code of its own, its output whole. -/
structure RanToItsEnd (result : ProcessResult) (watchdog : Watchdog) : Prop where
  undisturbed : watchdog.interrupted = false
  inTime : result.timedOut = false
  unsignalled : 0 ≤ result.returncode
  whole : result.truncated = false

theorem reasonOf_finished_iff {spec : ProcessSpec} {result : ProcessResult} {watchdog : Watchdog}
    {outcome : Outcome} {detail : Text} (h : reasonOf spec result watchdog = .ok (outcome, detail)) :
    outcome = .finished ↔ RanToItsEnd result watchdog := by
  unfold reasonOf at h
  split at h
  · rename_i interruption hStopped
    have hSome : watchdog.interrupted ≠ false := fun hNone =>
      nomatch hStopped.symm.trans (interruption_eq_none_iff.mpr hNone)
    have hOutcome := interruption_outcome hStopped
    rw [Except.ok.inj h] at hOutcome
    refine iff_of_false (fun hFinished => ?_) fun hEnd => hSome hEnd.undisturbed
    rw [hFinished] at hOutcome
    exact hOutcome.elim (nomatch ·) (nomatch ·)
  · rename_i hStopped
    have hUndisturbed := interruption_eq_none_iff.mp hStopped
    split_ifs at h with hTime hSignal hCut
    · obtain ⟨rfl, -⟩ := Prod.mk.inj (Except.ok.inj h)
      exact iff_of_false (nomatch ·) fun hEnd => nomatch hTime.symm.trans hEnd.inTime
    · obtain ⟨number, -, h⟩ := bind_eq_ok.mp h
      obtain ⟨rfl, -⟩ := Prod.mk.inj (Except.ok.inj h)
      exact iff_of_false (nomatch ·) fun hEnd => absurd hEnd.unsignalled (not_le.mpr hSignal)
    · obtain ⟨limit, -, h⟩ := bind_eq_ok.mp h
      obtain ⟨rfl, -⟩ := Prod.mk.inj (Except.ok.inj h)
      exact iff_of_false (nomatch ·) fun hEnd => nomatch hCut.symm.trans hEnd.whole
    · obtain ⟨rfl, -⟩ := Prod.mk.inj (Except.ok.inj h)
      exact iff_of_true rfl ⟨hUndisturbed, Bool.eq_false_iff.mpr hTime, not_lt.mp hSignal,
        Bool.eq_false_iff.mpr hCut⟩

end Ici
