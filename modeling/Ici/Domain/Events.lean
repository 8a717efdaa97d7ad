import Ici.Domain.Decoding
import Ici.Domain.Serialization
import Ici.Library.Lines

/-! # One execution of one provider, described before it runs -/

namespace Ici

open Raising Python

structure TaskSpecFields where
  id : Text
  kind : TaskKind
  provider : Text
  argv : List Text
  cwd : Text
  analysisUnitIds : List Text := []
  envOverlay : List (Text × Text) := []
  inputRefs : List Text := []
  outputSpecs : List Text := []
  dependsOn : List Text := []
  resourceKeys : List Text := []
  workDirs : List Text := []
  requires : List Text := []
  timeoutSeconds : Option PyFloat := none
  outputLimitBytes : Option ℤ := none
  toolDigest : Option Text := none
  cacheable : Bool := true
  variant : Option Text := none
deriving DecidableEq

/-- Only a `prepare` task writes outside the run directory. -/
def TaskSpecFields.mutating (task : TaskSpecFields) : Bool := task.kind = .prepare

-- `resource_keys` is checked like the other text lists: each entry alone, repeats allowed.
def TaskSpecFields.check (task : TaskSpecFields) : Result Unit := do
  requireIdentifier task.id (py "task id")
  requireIdentifier task.provider (py "task provider")
  task.argv.forM (requireText · (py "task argv entry"))
  if task.argv = [] then
    .error (valueError (py "task " ++ task.id ++ py " must declare a non-empty argv"))
  requireText task.cwd (py "task cwd")
  task.analysisUnitIds.forM (requireIdentifier · (py "task analysis unit id"))
  requireUniqueIdentifiers task.analysisUnitIds (py "task analysis units")
  requireEnvOverlay task.envOverlay (py "task env overlay")
  [(py "input_refs", task.inputRefs), (py "output_specs", task.outputSpecs),
    (py "resource_keys", task.resourceKeys), (py "requires", task.requires),
    (py "work_dirs", task.workDirs)].forM fun field =>
      field.2.forM (requireText · (py "task " ++ field.1 ++ py " entry"))
  task.dependsOn.forM (requireIdentifier · (py "task dependency"))
  requireUniqueIdentifiers task.dependsOn (py "task dependencies")
  if task.id ∈ task.dependsOn then
    .error (valueError (py "task " ++ task.id ++ py " cannot depend on itself"))
  task.timeoutSeconds.toList.forM (requirePositive · (py "task timeout"))
  task.outputLimitBytes.toList.forM (requireNonNegative · (py "task output limit"))
  task.toolDigest.toList.forM (requireDigest · (py "task tool digest"))
  task.variant.toList.forM (requireIdentifier · (py "task variant"))
  if task.mutating ∧ task.cacheable then
    .error (valueError (py "task " ++ task.id ++
      py " prepares a build directory and must not be marked cacheable"))

abbrev TaskSpec := Checked TaskSpecFields.check

structure ShareKey where
  provider : Text
  kind : Text
  argv : List Text
  cwd : Text
  envOverlay : List (Text × Text)
  inputRefs : List Text
  toolDigest : Option Text
  requires : List Text
deriving DecidableEq

def TaskSpec.shareKey (task : TaskSpec) : ShareKey where
  provider := task.val.provider
  kind := task.val.kind.value
  argv := task.val.argv
  cwd := task.val.cwd
  envOverlay := task.val.envOverlay
  inputRefs := task.val.inputRefs
  toolDigest := task.val.toolDigest
  requires := task.val.requires

theorem TaskSpec.id_isIdentifier (task : TaskSpec) : IsIdentifier task.val.id :=
  requireIdentifier_eq_ok_iff.mp (seq_eq_ok.mp task.property).1

theorem TaskSpec.provider_isIdentifier (task : TaskSpec) : IsIdentifier task.val.provider :=
  requireIdentifier_eq_ok_iff.mp (seq_eq_ok.mp (seq_eq_ok.mp task.property).2).1

end Ici

/-! ## Progress records -/

namespace Ici

open Option Raising Python

inductive EventType where
  | runStarted
  | planReady
  | taskStarted
  | taskProgress
  | taskCompleted
  | diagnostic
  | runCompleted
deriving DecidableEq

def EventType.value : EventType → Text
  | runStarted => py "run.started"
  | planReady => py "plan.ready"
  | taskStarted => py "task.started"
  | taskProgress => py "task.progress"
  | taskCompleted => py "task.completed"
  | diagnostic => py "diagnostic"
  | runCompleted => py "run.completed"

def eventTypes : List (Text × EventType) :=
  [EventType.runStarted, .planReady, .taskStarted, .taskProgress, .taskCompleted, .diagnostic,
    .runCompleted].map fun kind => (kind.value, kind)

theorem enumMember_eventType (kind : EventType) : enumMember eventTypes (.str kind.value) = some kind := by
  cases kind <;> rfl

def maxPayloadChars : ℕ := 4096

def EventType.isTaskScoped (kind : EventType) : Bool :=
  kind ∈ [taskStarted, taskProgress, taskCompleted]

structure RunEventFields where
  runId : Text
  seq : ℤ
  eventType : EventType
  timestamp : Text
  taskId : Option Text := none
  componentId : Option Text := none
  message : Text := []
  schemaId : Text := py "ici.next.event"
  schemaVersion : ℤ := 1
deriving DecidableEq

def RunEventFields.check (event : RunEventFields) : Result Unit := do
  requireText event.runId (py "event run id")
  requireNonNegative event.seq (py "event seq")
  requireText event.timestamp (py "event timestamp")
  [(py "task_id", event.taskId), (py "component_id", event.componentId)].forM fun field =>
    field.2.toList.forM (requireIdentifier · (py "event " ++ field.1))
  refuseIf (maxPayloadChars < event.message.length)
    (py "event message exceeds 4096 characters; " ++
      py "bound tool output where it is produced, not in the event stream")
  refuseIf (event.schemaId ≠ py "ici.next.event") (py "event schema_id must be 'ici.next.event'")
  refuseIf (event.schemaVersion ≠ 1) (py "event schema_version must be 1")
  refuseIf (event.eventType.isTaskScoped ∧ event.taskId = none)
    (event.eventType.value ++ py " must name the task it is about")

abbrev RunEvent := Checked RunEventFields.check

theorem RunEventFields.check_eq_ok_iff {event : RunEventFields} : event.check = .ok () ↔
      IsText event.runId ∧ 0 ≤ event.seq ∧
      IsText event.timestamp ∧
      ((∀ t ∈ event.taskId, IsIdentifier t) ∧ ∀ t ∈ event.componentId, IsIdentifier t) ∧
      ¬maxPayloadChars < event.message.length ∧ event.schemaId = py "ici.next.event" ∧
      event.schemaVersion = 1 ∧ ¬(event.eventType.isTaskScoped ∧ event.taskId = none) := by
  simp only [check, seq_eq_ok, requireText_eq_ok_iff, forM_eq_ok, requireNonNegative_eq_ok_iff,
    requireIdentifier_eq_ok_iff, refuseIf_eq_ok_iff, mem_toList, mem_def, List.forall_mem_cons,
    List.not_mem_nil, false_imp_iff, implies_true, and_true, not_not]

end Ici

/-! ## The JSONL event codec

Nothing but events goes on this stream, one document a line. -/

namespace Ici

open Python

def eventFields (event : RunEvent) : Dict Text Json :=
  [(py "schema_id", .str event.val.schemaId), (py "schema_version", .int event.val.schemaVersion),
    (py "run_id", .str event.val.runId), (py "seq", .int event.val.seq),
    (py "event_type", .str event.val.eventType.value),
    (py "timestamp", .str event.val.timestamp)] ++
  optional (py "task_id") (event.val.taskId.map .str) ++
  optional (py "component_id") (event.val.componentId.map .str) ++
  nonEmpty (py "message") event.val.message

def eventToDict (event : RunEvent) : Json := .obj (eventFields event)

def RunEvent.ofValues (data : Dict Text Json) (eventType : EventType) : Result RunEvent := do
  let runId ← textValue (getValue data (py "run_id")) (py "event run id")
  let seq ← nonNegativeValue (getValue data (py "seq")) (py "event seq")
  let timestamp ← textValue (getValue data (py "timestamp")) (py "event timestamp")
  let taskId ← unlessNone (identifierValue · (py "event task_id")) (getValue data (py "task_id"))
  let componentId ← unlessNone (identifierValue · (py "event component_id"))
    (getValue data (py "component_id"))
  let message ← stringValue (getOr data (py "message") (.str [])) (py "event message must be a string")
  Checked.construct RunEventFields.check
    { runId
      seq
      eventType
      timestamp
      taskId
      componentId
      message }

def eventFromDict (payload : Json) : Result (Option RunEvent) := do
  let data ← requireMapping payload (py "event")
  checkEnvelope data (py "ici.next.event") 1
  match enumMember eventTypes (getValue data (py "event_type")) with
  | none => return none
  | some eventType =>
    match RunEvent.ofValues data eventType with
    | .ok event => return some event
    | .error e =>
      if isValueError e then .error (schemaError (py "event is not valid: " ++ e.text)) else .error e

def eventsToJsonl (events : List RunEvent) : Result Text :=
  (events.mapM fun event => (dumps (eventToDict event)).map (· ++ [0xa])).map List.flatten

def seqNote (previous : Option ℤ) (current : ℤ) (number : ℕ) : Result (Option Text) :=
  match previous with
  | none => .ok none
  | some last =>
    if current = last + 1 then .ok none
    else if current = last then do
      let shown ← strInt current
      return some (py "line " ++ natDigits number ++ py ": duplicate seq " ++ shown)
    else do
      let before ← strInt last
      let shown ← strInt current
      return some (py "line " ++ natDigits number ++ py ": seq jumped from " ++ before ++ py " to " ++
        shown)

structure EventsRead where
  events : List RunEvent := []
  skipped : List Text := []
  lastSeq : Option ℤ := none

def readLine (nesting : Nesting) (read : EventsRead) (line : Text × ℕ) : Result EventsRead :=
  if strip line.1 = [] then .ok read
  else match Json.loads nesting.limit line.1 with
  | .error e =>
    if isValueError e then
      .ok { read with
        skipped := read.skipped ++
          [py "line " ++ natDigits line.2 ++ py ": not valid JSON (truncated stream?)"] }
    else .error e
  | .ok payload => do
    match ← eventFromDict payload with
    | none =>
      return { read with
        skipped := read.skipped ++
          [py "line " ++ natDigits line.2 ++ py ": unknown event_type, ignored"] }
    | some event =>
      let note ← seqNote read.lastSeq event.val.seq line.2
      return {
        events := read.events ++ [event]
        skipped := read.skipped ++ note.toList
        lastSeq := some event.val.seq }

def eventsFromJsonl (nesting : Nesting) (text : Text) : Result (List RunEvent × List Text) :=
  (((splitLines text).zipIdx 1).foldlM (readLine nesting) {}).map fun read =>
    (read.events, read.skipped)

end Ici
