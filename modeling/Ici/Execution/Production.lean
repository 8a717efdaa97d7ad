import Ici.Execution.CacheSafe
import Ici.Execution.Process
import Ici.Library.FileTree
import Ici.Library.JsonIndent
import Ici.Library.Transition

/-! # Running a task and publishing what it made

The root and the staging directory are two trees; a step of the run is one change that a reader may come
between. -/

namespace Ici.Outputs

open Python Filing Tracing PurePosixPath Traced

structure Artifact where
  path : Text
  size : ℕ
  digest : Text
deriving DecidableEq

structure Manifest where
  task : Text
  outcome : Text
  exitCode : ℤ
  interpretation : Text
  artifacts : List Artifact := []
  run : Text := []
  identity : Text := []
deriving DecidableEq

/-- What a reader finds in a file: a manifest this version can read, or anything else. -/
inductive Content where
  | manifest (manifest : Manifest)
  | other (bytes : List UInt8)
deriving DecidableEq

abbrev Tree := FileTree Text Content

structure Measure where
  size : Content → ℕ
  digest : Content → Text
  plain : ∀ content, NoSurrogate (digest content)

def Manifest.texts (manifest : Manifest) : List Text :=
  [manifest.task, manifest.outcome, manifest.interpretation, manifest.run, manifest.identity] ++
    manifest.artifacts.flatMap fun artifact => [artifact.path, artifact.digest]

/-- `to_json().encode("utf-8")`. -/
def Manifest.encode (manifest : Manifest) : Result Content := do
  let _ ← utf8 manifest.texts.flatten
  return .manifest manifest

/-! ## Paths below a root -/

def pathRefused (text : Text) : PyError := ⟨py "PathRefused", text⟩

def below (base : Text) (parts : List Text) : Text :=
  if base = py "/" then base ++ join (py "/") parts else join (py "/") (base :: parts)

def firstLink (tree : Tree) (parts : List Text) : Option (List Text) :=
  parts.inits.tail.find? fun walked => isLink (tree.entry walked)

/-- `OutputRoot.resolve`. With no link on the way and no `..` in it, a path lands where it is written. -/
def resolve (rootPath : Text) (tree : Tree) (relative : Text) : Result (List Text) :=
  let parts := parts relative
  if isAbsolute relative then
    .error (pathRefused (relative ++ py " is absolute; task output is relative to its root"))
  else if parts = [] then .error (pathRefused (py "a task output needs a name"))
  else if py ".." ∈ parts then .error (pathRefused (relative ++ py " climbs out of its root"))
  else match firstLink tree parts with
    | some walked =>
      .error (pathRefused (relative ++ py " goes through the symlink " ++ below rootPath walked))
    | none => .ok parts

structure OutputState where
  root : Tree
  staged : Tree

abbrev Producing := Traced OutputState PyError

/-- `mkdir(parents=True, exist_ok=True)` under the root. -/
def makeParents (rootPath : Text) (tree : Tree) (directory : List Text) : Result Tree :=
  match tree.makeDirectories directory with
  | some after => .ok after
  | none =>
    if (tree.entry directory).isSome then
      .error ⟨py "FileExistsError", py "[Errno 17] File exists: " ++ pyRepr (below rootPath directory)⟩
    else
      .error ⟨py "NotADirectoryError",
        py "[Errno 20] Not a directory: " ++ pyRepr (below rootPath directory)⟩

/-- `os.replace` onto a path under the root. -/
def replace (rootPath source : Text) (tree : Tree) (target : List Text) (content : Content) : Result Tree :=
  match tree.put target content with
  | some after => .ok after
  | none => .error ⟨py "IsADirectoryError", py "[Errno 21] Is a directory: " ++ pyRepr source ++ py " -> " ++
      pyRepr (below rootPath target)⟩

section Run

variable (rootPath stagedPath : Text)

def prepare (relative : Text) : Producing (List Text) := do
  let target ← ask fun state => resolve rootPath state.root relative
  step fun state => do
    let root ← makeParents rootPath state.root target.dropLast
    return { state with root }
  return target

def taskText (outcome : TaskOutcome) : Text :=
  if outcome.outcome.ranToCompletion then
    outcome.spec.val.name ++ py " exited " ++
      (if outcome.exitCode < 0 then py "-" else []) ++ natDigits outcome.exitCode.natAbs
  else outcome.spec.val.name ++ py " " ++ outcome.outcome.value ++
    if outcome.detail = [] then [] else py ": " ++ outcome.detail

def stagedOutput (staged : Tree) (name : Text) : Result (List Text) :=
  let parts := parts name
  if isAbsolute name ∨ py ".." ∈ parts then
    .error (valueError (name ++ py " is not a name inside the task's working directory"))
  else match firstLink staged parts with
    | some walked =>
      .error (valueError (name ++ py " was written as a symlink (" ++ below stagedPath walked ++
        py ") and is not published"))
    | none => .ok parts

def refusalOf (staged : Tree) (name : Text) : Text :=
  match stagedOutput stagedPath staged name with
  | .error e => e.text
  | .ok target =>
    if isFile (staged.entry target) then [] else name ++ py " was expected but the tool did not write it"

def refusal (staged : Tree) (outcome : TaskOutcome) (produces : List Text) (contract : ExitContract) : Text :=
  if !(contract.read outcome).isAnAnswer then taskText outcome ++ py " — not a cacheable result"
  else ((produces.map (refusalOf stagedPath staged)).find? (· ≠ [])).getD []

/-! ## Publishing -/

def Interpretation.value : Interpretation → Text
  | .succeeded => py "succeeded"
  | .foundFindings => py "found-findings"
  | .failed => py "failed"
  | .didNotRun => py "did-not-run"

def publishName (name : Text) : Producing Unit := do
  let target ← prepare rootPath name
  step fun state =>
    let source := below stagedPath (parts name)
    match state.staged.take (parts name) with
    | some (content, staged) => do
      let root ← replace rootPath source state.root target content
      return { root, staged }
    | none => .error ⟨py "FileNotFoundError", py "[Errno 2] No such file or directory: " ++ pyRepr source ++
        py " -> " ++ pyRepr (below rootPath target)⟩

def publishNames : List Text → Producing Unit
  | [] => return ()
  | name :: names => do
    publishName rootPath stagedPath name
    publishNames names

variable (measure : Measure)

def notPromotable (text : Text) : PyError := ⟨py "NotPromotable", text⟩

def describeName (root : Tree) (name : Text) : Result Artifact := do
  let target ← resolve rootPath root name
  match root.entry target with
  | some (.file content) => return ⟨name, measure.size content, measure.digest content⟩
  | _ => .error (notPromotable (name ++ py " was listed as produced but is not there"))

/-- `describe`, without a run and an identity. -/
def describe (root : Tree) (outcome : TaskOutcome) (produced : List Text) (contract : ExitContract) :
    Result Manifest :=
  let interpretation := contract.read outcome
  if !interpretation.isAnAnswer then
    .error (notPromotable (outcome.spec.val.name ++ py " " ++ outcome.outcome.value ++
      (if outcome.detail = [] then [] else py ": " ++ outcome.detail) ++ py " — not a cacheable result"))
  else do
    let artifacts ← produced.mapM (describeName rootPath measure root)
    return { task := outcome.spec.val.name
             outcome := outcome.outcome.value
             exitCode := outcome.exitCode
             interpretation := Interpretation.value interpretation
             artifacts := artifacts }

/-- `publish`: the file the manifest is written into has a name nobody reads. -/
def publish (manifest : Manifest) (destination : List Text) : Producing (List Text) := do
  let content ← ask fun _ => manifest.encode
  step fun state => do
    let root ← replace rootPath (below rootPath (destination.dropLast ++ [py ".manifest-"])) state.root
      destination content
    return { state with root }
  return destination

structure Production where
  outcome : Option TaskOutcome
  manifest : Option Manifest := none
  published : Option (List Text) := none
  refusal : Text := []
deriving DecidableEq

def Production.promoted (production : Production) : Bool := production.published.isSome

/-- `_produce_holding_the_lock`, from where the tool has run in the staging directory. -/
def produceHoldingTheLock (outcome : TaskOutcome) (produces : List Text) (contract : ExitContract)
    (manifestName : Text) : Producing Production := do
  let refused ← ask fun state => .ok (refusal stagedPath state.staged outcome produces contract)
  if refused ≠ [] then return { outcome := some outcome, refusal := refused }
  else do
    publishNames rootPath stagedPath produces
    let manifest ← ask fun state => describe rootPath measure state.root outcome produces contract
    let destination ← prepare rootPath manifestName
    let published ← publish rootPath manifest destination
    return { outcome := some outcome, manifest := some manifest, published := some published }

def stagingDirectory : Text := py ".ici-staging"

def lockName : Text := py "output.lock"

def openStaging (root : Tree) : Result Tree :=
  match root.entry [stagingDirectory] with
  | some (.link true) => .ok root
  | _ => makeParents rootPath root [stagingDirectory]

def openLock (root : Tree) : Result Tree :=
  match root.entry [stagingDirectory], root.entry [stagingDirectory, lockName] with
  | some .directory, none =>
    replace rootPath [] root [stagingDirectory, lockName] (.other [])
  | some .directory, some .directory | some .directory, some (.link true) =>
    .error ⟨py "IsADirectoryError", py "[Errno 21] Is a directory: " ++
      pyRepr (below rootPath [stagingDirectory, lockName])⟩
  | _, _ => .ok root

/-- `produce`: the lock is not given up by others, or the tool runs and ends with an outcome. -/
def produce (unlocked : Option Text) (outcome : TaskOutcome) (produces : List Text) (contract : ExitContract)
    (manifestName : Text) : Producing Production := do
  step fun state => do
    let root ← openStaging rootPath state.root
    return { state with root }
  step fun state => do
    let root ← openLock rootPath state.root
    return { state with root }
  match unlocked with
  | some text => return { outcome := none, refusal := text }
  | none => produceHoldingTheLock rootPath stagedPath measure outcome produces contract manifestName

/-- `read(root.resolve(name))`. -/
def readManifest (tree : Tree) (name : Text) : Option Manifest :=
  match resolve rootPath tree name with
  | .ok target =>
    match tree.entry target with
    | some (.file (.manifest manifest)) => some manifest
    | _ => none
  | .error _ => none

structure Verification where
  missing : List Text := []
  altered : List Text := []
deriving DecidableEq

def Verification.isComplete (verification : Verification) : Bool :=
  verification.missing = [] ∧ verification.altered = []

inductive Standing where
  | missing
  | altered
  | intact
deriving DecidableEq

/-- What `verify` finds of one artifact. -/
def standing (tree : Tree) (artifact : Artifact) : Standing :=
  match resolve rootPath tree artifact.path with
  | .error _ => .missing
  | .ok target =>
    match tree.entry target with
    | some (.file content) =>
      if measure.size content ≠ artifact.size ∨ measure.digest content ≠ artifact.digest then .altered
      else .intact
    | _ => .missing

def verify (manifest : Manifest) (tree : Tree) : Verification :=
  let those (standing' : Standing) :=
    (manifest.artifacts.filter fun artifact => standing rootPath measure tree artifact = standing').map
      Artifact.path
  { missing := those .missing, altered := those .altered }

end Run

end Ici.Outputs

/-! ## Manifests on disk

What `describe` records is written as an indented document and read back field by field. -/

namespace Ici.Manifests

open Python Filing Outputs

def manifestSchema : Text := py "ici.next.task-manifest/v1"

structure Artifact where
  path : Text
  size : ℤ
  digest : Text
deriving DecidableEq

structure Manifest where
  task : Text
  outcome : Text
  exitCode : ℤ
  interpretation : Text
  artifacts : List Artifact := []
  run : Text := []
  identity : Text := []
  schema : Text := manifestSchema
deriving DecidableEq

def malformedManifest (text : Text) : PyError := ⟨py "MalformedManifest", text⟩

def Artifact.asDict (artifact : Artifact) : Json :=
  .obj [(py "path", .str artifact.path), (py "size", .int artifact.size),
    (py "digest", .str artifact.digest)]

section

variable (manifest : Manifest)

def Manifest.fields : Dict Text Json :=
  [(py "schema", .str manifest.schema), (py "task", .str manifest.task),
    (py "outcome", .str manifest.outcome), (py "exit_code", .int manifest.exitCode),
    (py "interpretation", .str manifest.interpretation),
    (py "artifacts", .arr (manifest.artifacts.map Artifact.asDict))] ++
    nonEmpty (py "run") manifest.run ++ nonEmpty (py "identity") manifest.identity

def Manifest.asDict : Json := .obj manifest.fields

/-- `sort_keys=True, ensure_ascii=False`; the comma before a line break stands alone. -/
def manifestStyle : Json.Style := { itemSeparator := py ",", ensureAscii := false }

def Manifest.toJson : Result Text := do
  let text ← Json.encodeIndented manifestStyle 2 0 manifest.asDict
  return text ++ py "\n"

def Manifest.body : Result (List UInt8) := do
  let text ← manifest.toJson
  utf8 text

end

def text (data : Dict Text Json) (key : Text) : Result Text :=
  match getValue data key with
  | .str value => .ok value
  | other => .error (malformedManifest (key ++ py " must be text, got " ++ typeName other))

section

variable (data : Dict Text Json)

def wholeNumber (key : Text) : Result ℤ :=
  match getValue data key with
  | .int value => .ok value
  | other => .error (malformedManifest (key ++ py " must be a whole number, got " ++ typeName other))

def Artifact.fromDict : Result Artifact := do
  let path ← text data (py "path")
  let size ← wholeNumber data (py "size")
  let digest ← text data (py "digest")
  return { path, size, digest }

def artifactsFrom : ℕ → List Json → Result (List Artifact)
  | _, [] => .ok []
  | index, .obj item :: rest => do
    let artifact ← Artifact.fromDict item
    let later ← artifactsFrom (index + 1) rest
    return artifact :: later
  | index, other :: _ => .error (malformedManifest
      (py "artifact " ++ natDigits index ++ py " must be a table, got " ++ typeName other))

def Manifest.ofFields (artifacts : List Artifact) : Result Manifest := do
  let task ← text data (py "task")
  let outcome ← text data (py "outcome")
  let exitCode ← wholeNumber data (py "exit_code")
  let interpretation ← text data (py "interpretation")
  -- Converted, where the other fields are checked.
  let run ← strValue (getOr data (py "run") (.str []))
  let identity ← strValue (getOr data (py "identity") (.str []))
  return { task, outcome, exitCode, interpretation, artifacts, run, identity }

def Manifest.fromDict : Result Manifest :=
  let schema := getValue data (py "schema")
  if equalsText schema manifestSchema then
    match getOr data (py "artifacts") (.arr []) with
    | .arr listed => do
      let artifacts ← artifactsFrom 0 listed
      Manifest.ofFields data artifacts
    | other => .error (malformedManifest (py "artifacts must be a list, got " ++ typeName other))
  else do
    let shown ← reprValue schema
    .error (malformedManifest (shown ++ py " is not " ++ manifestSchema))

end

section Read

variable (nesting : Nesting)

/-- `read`, of a file with these bytes. -/
def readBytes (content : List UInt8) : Result Manifest := do
  match ← entryDocument nesting content with
  | .obj data => Manifest.fromDict data
  | other => .error ⟨py "AttributeError", py "'" ++ typeName other ++ py "' object has no attribute 'get'"⟩

end Read

section Files

variable (rootPath : Text) (measure : Measure)

/-- What `describe` recorded, with the run and the identity it was given. -/
def ofDescribed (described : Outputs.Manifest) (runId identity : Text) : Manifest where
  task := described.task
  outcome := described.outcome
  exitCode := described.exitCode
  interpretation := described.interpretation
  artifacts := described.artifacts.map fun artifact => ⟨artifact.path, artifact.size, artifact.digest⟩
  run := runId
  identity := identity

def describe (root : Tree) (outcome : TaskOutcome) (produced : List Text) (contract : ExitContract)
    (runId identity : Text) : Result Manifest :=
  (Outputs.describe rootPath measure root outcome produced contract).map (ofDescribed · runId identity)

/-- The directories above the destination, and then the file under its name. -/
def publish (root : Tree) (manifest : Manifest) (destination : List Text) : Result Tree := do
  let root ← makeParents rootPath root destination.dropLast
  let body ← manifest.body
  replace rootPath (below rootPath (destination.dropLast ++ [py ".manifest-"])) root destination (.other body)

def contentBytes : Content → List UInt8
  | .other bytes => bytes
  | .manifest described => ((ofDescribed described described.run described.identity).body.toOption).getD []

def read (nesting : Nesting) (root : Tree) (destination : List Text) : Result Manifest :=
  match root.entry destination with
  | some (.file content) => readBytes nesting (contentBytes content)
  | some .directory | some (.link true) =>
    .error ⟨py "IsADirectoryError", py "[Errno 21] Is a directory: " ++ pyRepr (below rootPath destination)⟩
  | _ => .error ⟨py "FileNotFoundError",
      py "[Errno 2] No such file or directory: " ++ pyRepr (below rootPath destination)⟩

/-- What `verify` finds of one artifact. -/
def standing (root : Tree) (artifact : Artifact) : Standing :=
  match resolve rootPath root artifact.path with
  | .error _ => .missing
  | .ok target =>
    match root.entry target with
    | some (.file content) =>
      if (measure.size content : ℤ) ≠ artifact.size ∨ measure.digest content ≠ artifact.digest then .altered
      else .intact
    | _ => .missing

def verify (manifest : Manifest) (root : Tree) : Verification :=
  let those (standing' : Standing) :=
    (manifest.artifacts.filter fun artifact => standing rootPath measure root artifact = standing').map
      Artifact.path
  { missing := those .missing, altered := those .altered }

end Files

end Ici.Manifests
