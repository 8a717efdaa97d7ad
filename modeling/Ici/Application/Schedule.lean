import Ici.Application.Graph
import Ici.Execution.Cache

/-! # Executing a task graph

Layer by layer: a unit starts only after everything it depends on has a successful observation,
and the results of a layer are told to the consumers when the whole layer is back. What happens
inside one layer while its units interleave is left to the machine of its own. -/

namespace Ici

open Python

structure Execution where
  unit : Text
  consumers : List Text
  provider : Text
  state : TaskState
  durationSeconds : Double := Double.zero
  detail : Text := []

structure Scheduled where
  observations : List Observation
  executions : List Execution

def toolOr (tool : Option Text) (default : Text) : Text :=
  match tool with
  | some name => if name = [] then default else name
  | none => default

def providerName (unit : WorkUnit) : Text :=
  if unit.isInternal then py "ici"
  else match unit.plan with
    | some plan => plan.task.val.provider
    | none => toolOr unit.val.source.check.tool (py "?")

/-- What a unit finds when it reaches for a provider, an analysis or the runner. -/
structure Hands where
  providers : Text → Option Provider
  analyses : Text → Option (Result Observation)
  runner : ProcessSpec → Result TaskOutcome
  environment : Option (Dict Text Text)
  environ : Dict Text Text

namespace Hands

variable (hands : Hands)

def executableSpec (plan : ProviderPlan) : Result ProcessSpec :=
  let task := plan.task.val
  Checked.construct ProcessSpecFields.check {
    argv := task.argv
    name := task.id
    cwd := PurePosixPath.asPosix task.cwd
    environment := Dict.setAll (hands.environment.getD hands.environ) task.envOverlay
    timeout := match task.timeoutSeconds with
      | some seconds => if seconds.truthy then seconds else .fin 300
      | none => .fin 300
    outputLimit := task.outputLimitBytes.getD defaultOutputLimit
    workDirs := task.workDirs.map PurePosixPath.asPosix }

-- `locks.held` takes one lock per listed key, and the second take of a key never returns.
def perform (unit : WorkUnit) : Result Observation :=
  if unit.isInternal then
    match hands.analyses unit.val.id with
    | some analysis => analysis
    | none => unavailable (py "ici") unit.val.id
        (unit.val.source.check.id ++ py " has no analysis registered") .blocked
  else match unit.plan with
    | none => .error ⟨py "AssertionError", []⟩
    | some plan =>
      match hands.providers plan.task.val.provider with
      | none => unavailable plan.task.val.provider unit.val.id
          (unit.val.source.check.tool.getD (py "None") ++ py " has no provider registered") .blocked
      | some provider => do
        (if plan.task.val.resourceKeys.Nodup then .ok () else .error noReturn)
        let spec ← hands.executableSpec plan
        let outcome ← hands.runner spec
        observe provider plan outcome

end Hands

/-! ## One attempt -/

structure Caching where
  identify : WorkUnit → Result (Option Text × Text)
  read : WorkUnit → Text → CacheRead
  sha256 : Sha256
  stored : WorkUnit → UInt64
  runId : Text

/-- Everything a run depends on besides its graph. A cancellation is the reason a unit reads when
its attempt begins, `none` while nothing was requested. -/
structure World where
  cancelled : WorkUnit → Option Text := fun _ => none
  caching : Option Caching := none
  perform : WorkUnit → Result Observation
  elapsed : WorkUnit → Double := fun _ => Double.zero

def failedPrerequisite (unit : WorkUnit) (finished : Dict Text Observation) : Option Text :=
  unit.val.dependsOn.find? fun dep =>
    match finished.get? dep with
    | none => true
    | some observation => observation.val.state ≠ .succeeded

inductive Lookup where
  | hit (observation : Observation) (sourceRun : Text)
  | miss (key : Option Text) (reason : Text)

def internalError (e : PyError) : Text := py "internal error: " ++ e.name ++ py ": " ++ e.text

namespace World

variable (world : World) (unit : WorkUnit)

def lookup : Lookup :=
  match world.caching with
  | none => .miss none []
  | some caching =>
    if unit.isInternal then .miss none []
    else match caching.identify unit with
      | .error e => .miss none (py "cache identification failed: " ++ e.name ++ py ": " ++ e.text)
      | .ok (none, reason) => .miss none reason
      | .ok (some key, _) =>
        match caching.read unit key with
        | ⟨true, _, some observation, sourceRun⟩ => .hit observation sourceRun
        | read => .miss (some key) read.reason

def contain (performed : Result Observation) : Result Observation :=
  match performed with
  | .ok observation => .ok observation
  | .error e =>
    if e = noReturn then .error e
    else unavailable (providerName unit) unit.val.id (internalError e) .failed

def keep (key : Option Text) (observation : Observation) : Result Unit :=
  match world.caching, key with
  | some caching, some key =>
    if key ≠ [] ∧ observation.val.state = .succeeded ∧ observation.evidenceIsComplete then
      (ObservationCache.write caching.sha256 (caching.stored unit) caching.runId key
        observation).map fun _ => ()
    else .ok ()
  | _, _ => .ok ()

def execution (state : TaskState) (detail : Text) : Execution where
  unit := unit.val.id
  consumers := unit.val.consumers
  provider := providerName unit
  state := state
  detail := detail

def attempt (finished : Dict Text Observation) : Result (Option Observation × Execution) :=
  match world.cancelled unit with
  | some reason =>
    let detail := if reason = [] then py "cancelled before it started" else reason
    .ok (none, execution unit .cancelled detail)
  | none =>
  match failedPrerequisite unit finished with
  | some blocker =>
    .ok (none, execution unit .blocked (py "prerequisite " ++ blocker ++ py " did not run"))
  | none =>
  match world.lookup unit with
  | .hit observation sourceRun =>
    let detail := if sourceRun = [] then py "cache hit" else py "cache hit from run " ++ sourceRun
    .ok (some observation, execution unit observation.val.state detail)
  | .miss key reason => do
    let observation ← contain unit (world.perform unit)
    world.keep unit key observation
    let duration := match observation.val.durationSeconds with
      | some seconds => if seconds.val.truthy then seconds else world.elapsed unit
      | none => world.elapsed unit
    return (some observation,
      { execution unit observation.val.state reason with durationSeconds := duration })

end World

/-! ## The run -/

structure RunState where
  observations : Dict Text Observation := []
  executions : List Execution := []
  finished : Dict Text Observation := []

section

variable (unit : WorkUnit) (produced : Option Observation × Execution)

def tell (consumer : Text) : Result Observation :=
  match produced.1 with
  | none => unavailable (providerName unit) consumer produced.2.detail produced.2.state
  | some observation => observation.withTaskId consumer

def tellConsumer (observations : Dict Text Observation) (consumer : Text) : Result (Dict Text Observation) :=
  (tell unit produced consumer).map fun observation => observations.set consumer observation

end

def settle (state : RunState) (result : WorkUnit × (Option Observation × Execution)) : Result RunState := do
  let observations ← result.1.val.consumers.foldlM (tellConsumer result.1 result.2)
    state.observations
  return {
    observations := observations
    executions := state.executions ++ [result.2.2]
    finished := match result.2.1 with
      | none => state.finished
      | some observation => state.finished.set result.1.val.id observation }

def runLayer (world : World) (state : RunState) (layer : List WorkUnit) : Result RunState := do
  let results ← layer.mapM (world.attempt · state.finished)
  (layer.zip results).foldlM settle state

def blockedObservation (item : Blocked) : Result Observation :=
  unavailable (toolOr item.check.check.tool (py "ici")) item.check.taskId item.reason .blocked

def tellBlocked (observations : Dict Text Observation) (item : Blocked) : Result (Dict Text Observation) :=
  (blockedObservation item).map fun observation => observations.set item.check.taskId observation

def runGraph (world : World) (graph : TaskGraph) : Result Scheduled := do
  let layers ← graph.layers
  let state ← layers.foldlM (runLayer world) {}
  let observations ← graph.blocked.foldlM tellBlocked state.observations
  return { observations := observations.values, executions := state.executions }

end Ici
