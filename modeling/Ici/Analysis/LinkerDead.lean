import Ici.Library.Lines
import Ici.Library.Dict
import Mathlib.Data.Prod.Lex

/-! # Functions the linker dropped

Every supported link of a build is run once more with section collection on, and a section counts as dead
where each accepted target that linked its object discarded it. What the tools answer is a parameter. -/

namespace Ici

namespace LinkerDead

open Python

structure LinkCommand where
  target : Text
  path : PurePath
  argv : List Text
  driver : PurePath
  driverName : Text
  driverVersion : Text
  objects : List PurePath
  output : PurePath
  digest : Text
deriving DecidableEq

structure DiscardedSection where
  target : Text
  objectPath : PurePath
  sectionName : Text
  commandDigest : Text
  driverName : Text
  driverVersion : Text
deriving DecidableEq

def DiscardedSection.key (removal : DiscardedSection) : PurePath × Text :=
  (removal.objectPath, removal.sectionName)

section Rule

/-- `sets.setdefault(key, set()).add(target)`. -/
def addTarget {κ : Type} [DecidableEq κ] (sets : Dict κ (Finset Text)) (key : κ) (target : Text) :
    Dict κ (Finset Text) :=
  sets.set key (insert target ((sets.get? key).getD ∅))

def linkingTargets (linked : List LinkCommand) : Dict PurePath (Finset Text) :=
  linked.foldl (fun sets command =>
    command.objects.foldl (fun sets object => addTarget sets object command.target) sets) []

def discardingTargets (removals : List DiscardedSection) : Dict (PurePath × Text) (Finset Text) :=
  removals.foldl (fun sets removal => addTarget sets removal.key removal.target) []

structure Retaining where
  kept : ℕ := 0
  retained : List DiscardedSection := []
  seen : List (PurePath × Text) := []

/-- One removal: kept by a target that linked its object, seen before, or retained. -/
def Retaining.step (linking : Dict PurePath (Finset Text)) (discarding : Dict (PurePath × Text) (Finset Text))
    (state : Retaining) (removal : DiscardedSection) : Retaining :=
  let required := (linking.get? removal.objectPath).getD {removal.target}
  if ¬required ⊆ (discarding.get? removal.key).getD ∅ then { state with kept := state.kept + 1 }
  else if removal.key ∈ state.seen then state
  else { state with retained := state.retained ++ [removal], seen := removal.key :: state.seen }

def discardedByEveryLinkingTarget (removals : List DiscardedSection) (linked : List LinkCommand) :
    List DiscardedSection × ℕ :=
  if linked.length < 2 then (removals, 0)
  else
    let state := removals.foldl (Retaining.step (linkingTargets linked) (discardingTargets removals)) {}
    (state.retained, state.kept)

end Rule

/-! ## The build -/

structure CompilationUnit where
  source : Text
  argv : List Text
deriving DecidableEq

/-- What the binutils tell of a discarded section: its one function and where it stands. -/
structure Sighting where
  symbol : Text
  file : Text
  line : ℕ
deriving DecidableEq

structure Build where
  shadow : PurePath
  /-- The one line of a link file as `shlex.split` takes it apart, or the `ValueError` of reading it. -/
  shlexed : PurePath → Except Text (List Text)
  /-- `candidate.resolve(strict=True)`, where that is a regular file. -/
  resolve : PurePath → Option PurePath
  /-- The name and the version of a compiler. -/
  capability : PurePath → Option (Text × Text)
  compilerPaths : List PurePath
  /-- `canonical_digest` of a target and its arguments. -/
  digestOf : Text → List Text → Text
  /-- The driver hands over to GNU ld. -/
  linksWithGnu : PurePath → Bool
  units : Except Text (Dict PurePath CompilationUnit)
  /-- The budget is not used up when the command is linked again. -/
  inTime : LinkCommand → Bool
  /-- The output of a link that succeeded. -/
  relink : List Text → Option Text
  /-- `readelf -Wh` of an output names an executable. -/
  isExecutable : PurePath → Bool
  /-- The function of a section, where there is exactly one that can be told. -/
  inspect : PurePath → Text → Except Text (Option Sighting)
  sourcesUnchanged : Bool

def unsafeLinkExact : List Text :=
  [py "-flto", py "-flto=auto", py "-pie", py "-rdynamic", py "-shared", py "-u", py "--undefined",
    py "--export-dynamic", py "--whole-archive", py "-Wl,--export-dynamic", py "-Wl,--no-gc-sections",
    py "-Wl,--whole-archive"]

def unsafeLinkPrefixes : List Text :=
  [py "-flto=", py "-fuse-ld=", py "-B", py "-T", py "--script=", py "-Wl,-T", py "-Wl,--script=",
    py "-Wl,--dynamic-list", py "-Wl,--retain-symbols-file", py "-Wl,--undefined", py "-Wl,-u"]

def unsafeLinkArgument (value : Text) : Bool :=
  value ∈ unsafeLinkExact ∨ unsafeLinkPrefixes.any (·.isPrefixOf value) = true

def requiredFlags : List Text := [py "-Wl,--gc-sections", py "-Wl,--print-gc-sections", py "-no-pie"]

def isTargetChar (c : CodePoint) : Bool :=
  (0x30 ≤ c.val && c.val ≤ 0x39) || (0x41 ≤ c.val && c.val ≤ 0x5a) || (0x61 ≤ c.val && c.val ≤ 0x7a) ||
    c.val == 0x5f || c.val == 0x2e || c.val == 0x2b || c.val == 0x2d

def isTargetText (t : Text) : Bool := 0 < t.length ∧ t.length ≤ 256 ∧ t.all isTargetChar = true

def isSectionName (t : Text) : Bool :=
  [py ".text.", py ".gnu.linkonce.t."].any fun front =>
    front.isPrefixOf t ∧ 0 < (t.drop front.length).length ∧ (t.drop front.length).length ≤ 1024 ∧
      (t.drop front.length).all (fun c => isTargetChar c || c.val == 0x24) = true

def PurePath.name (path : PurePath) : Text := path.names.getLast?.getD []

def targetName (path : PurePath) : Except Text Text :=
  let parent := PurePath.name path.parent
  if ¬(py ".dir").isSuffixOf parent then .error (py "link command is outside a CMake target directory")
  else if ¬isTargetText (parent.take (parent.length - 4)) then .error (py "link target name is not bounded")
  else .ok (parent.take (parent.length - 4))

def isShellOperator (item : Text) : Bool :=
  item ∈ [py "&&", py "||", py ";", py "|", py "<", py ">"]

namespace Build

variable (build : Build)

def boundedLinkArgv (path : PurePath) : Except Text (List Text) := do
  let argv ← build.shlexed path
  if argv = [] ∨ 32768 < argv.length then
    .error (py "link command argument count is outside the bounded limit")
  else if 1048576 < (argv.map List.length).sum then
    .error (py "link command arguments exceed the bounded character limit")
  else if argv.any isShellOperator then .error (py "link command contains unsupported shell operators")
  else if argv.any ((py "@").isPrefixOf ·) then
    .error (py "link command response files are outside the exact contract")
  else .ok argv

def resolveInside (root : PurePath) (value : Text) : Option PurePath :=
  (build.resolve (build.shadow.join (.parse value))).filter fun path => (path.relativeTo root).isSome

def directObjects : List Text → Except Text (List PurePath)
  | [] => .ok []
  | value :: rest =>
    if (py ".o").isSuffixOf value ∨ (py ".obj").isSuffixOf value then
      match build.resolveInside build.shadow value with
      | none => .error (py "link target references an unsafe or missing direct object")
      | some object => (directObjects rest).map (object :: ·)
    else directObjects rest

def pathSort (paths : List PurePath) : List PurePath := paths.insertionSort (·.parts ≤ ·.parts)

/-- `_parse_link_command`: nothing where the link is not one of a known compiler into an executable. -/
def parseLinkCommand (path : PurePath) : Except Text (Option LinkCommand) := do
  let argv ← build.boundedLinkArgv path
  let first := argv.headD []
  let executable :=
    if PurePosixPath.isAbsolute first then build.resolveInside (.parse (py "/")) first else none
  match executable with
  | none => return none
  | some executable =>
  match build.capability executable with
  | none => return none
  | some (driverName, driverVersion) =>
  if executable ∉ build.compilerPaths then return none
  if py "-shared" ∈ argv then return none
  if ¬(∀ flag ∈ requiredFlags, flag ∈ argv) ∨ argv.any unsafeLinkArgument then
    throw (py "link target uses flags outside the exact GNU ELF executable contract")
  let objects ← build.directObjects argv.tail
  if objects = [] then return none
  if 4096 < objects.length then throw (py "link target direct-object count exceeds the bounded limit")
  match argv.idxsOf (py "-o") with
  | [index] =>
    match argv[index + 1]? with
    | none => throw (py "link target must declare exactly one output")
    | some value =>
    match build.resolveInside build.shadow value with
    | none => throw (py "link target output is unsafe or missing")
    | some output =>
      let target ← targetName path
      return some
        { target, path, argv, driver := executable, driverName, driverVersion
          objects := pathSort objects.dedup
          output
          digest := build.digestOf target argv }
  | _ => throw (py "link target must declare exactly one output")

end Build

/-! ## What a link reports -/

def isQuote (c : CodePoint) : Bool := c.val == 0x27 || c.val == 0x60

def afterFront (front t : Text) : Option Text :=
  if front.isPrefixOf t then some (t.drop front.length) else none

def quoted (t : Text) : Option (Text × Text) :=
  match t with
  | [] => none
  | c :: rest =>
    let inner := rest.takeWhile (!isQuote ·)
    if isQuote c ∧ inner ≠ [] ∧ inner.length < rest.length then some (inner, rest.drop (inner.length + 1))
    else none

/-- `_REMOVAL_RE` behind its anchor: the section and the object. -/
def removalAfter (t : Text) : Option (Text × Text) := do
  let t ← afterFront (py "removing unused section ") t
  let (sectionName, t) ← quoted t
  let t ← afterFront (py " in file ") t
  let (object, t) ← quoted t
  if t.all isSpace then some (sectionName, object) else none

def isAnchored (before : Text) : Bool :=
  before = [] ∨ (isSpace (before.headD 0) ∧ (before.dropWhile isSpace).head? = some 0x3a)

/-- `_REMOVAL_RE.search`, with what stands before reversed. -/
def searchRemoval (before : Text) : Text → Option (Text × Text)
  | [] => none
  | c :: rest =>
    match (if isAnchored before then removalAfter (c :: rest) else none) with
    | some found => some found
    | none => searchRemoval (c :: before) rest

def isRemovalLine (line : Text) : Bool := (line.tails).any ((py "removing unused section").isPrefixOf ·)

namespace Build

variable (build : Build)

/-- What one line tells of the direct objects: nothing, a discarded section, or that it cannot be read. -/
def removalOf (direct : List PurePath) (line : Text) : Except Text (Option (PurePath × Text)) :=
  if ¬isRemovalLine line then .ok none
  else match searchRemoval [] line with
    | none => .error (py "GNU ld emitted an unparseable discarded-section diagnostic")
    | some (sectionName, object) =>
      if 0x28 ∈ object ∨ 0x29 ∈ object ∨ ¬isSectionName sectionName then .ok none
      else match build.resolveInside build.shadow object with
        | none => .ok none
        | some path => if path ∈ direct then .ok (some (path, sectionName)) else .ok none

def discarded (command : LinkCommand) (found : PurePath × Text) : DiscardedSection where
  target := command.target
  objectPath := found.1
  sectionName := found.2
  commandDigest := command.digest
  driverName := command.driverName
  driverVersion := command.driverVersion

/-- `_parse_removals`, over the lines of the output. -/
def parseRemovals (command : LinkCommand) : List DiscardedSection → List Text →
    Except Text (List DiscardedSection)
  | removals, [] => .ok removals
  | removals, line :: rest => do
    match ← build.removalOf command.objects line with
    | none => parseRemovals command removals rest
    | some found =>
      if 16384 < removals.length + 1 then
        .error (py "discarded-section count exceeds the bounded limit")
      else parseRemovals command (removals ++ [discarded command found]) rest

def relinked (command : LinkCommand) : Except Text (List DiscardedSection) :=
  match build.relink command.argv with
  | none => .error (py "GNU ELF relink failed for target " ++ command.target)
  | some output =>
    match build.parseRemovals command [] (splitLines output) with
    | .error message => .error (py "Target " ++ command.target ++ py ": " ++ message)
    | .ok removals => .ok removals

end Build

/-! ## The run -/

inductive Policy where
  | off
  | auto
  | required
deriving DecidableEq

inductive Mode where
  | off
  | notApplicable
  | unavailable
  | error
  | exact
deriving DecidableEq

structure DeadSymbol where
  file : Text
  line : ℕ
  linkTarget : Text
  symbol : Text
  sectionName : Text
  objectPath : Text
  toolName : Text
  toolVersion : Text
  linkCommandDigest : Text
deriving DecidableEq

def DeadSymbol.key (symbol : DeadSymbol) : Lex (Text × Lex (ℕ × Lex (Text × Text))) :=
  toLex (symbol.file, toLex (symbol.line, toLex (symbol.linkTarget, symbol.symbol)))

structure Outcome where
  symbols : List DeadSymbol := []
  errors : List Text := []
  warnings : List Text := []
  mode : Mode := .unavailable
  linkTargetsChecked : ℕ := 0
  sourcesChecked : ℕ := 0
  discardedSectionsObserved : ℕ := 0
  ambiguousSectionsExcluded : ℕ := 0
  sectionsKeptByAnotherTarget : ℕ := 0
deriving DecidableEq

namespace Outcome

def fail (outcome : Outcome) (message : Text) : Outcome :=
  { outcome with errors := outcome.errors ++ [message] }

def warn (outcome : Outcome) (message : Text) : Outcome :=
  { outcome with warnings := outcome.warnings ++ [message] }

end Outcome

def unitHasFunctionSections (unit : CompilationUnit) : Bool :=
  let relevant := unit.argv.filter (· ∈ [py "-ffunction-sections", py "-fno-function-sections"])
  relevant.getLast? = some (py "-ffunction-sections") ∧
    unit.argv.any (fun value => value = py "-flto" ∨ (py "-flto=").isPrefixOf value) = false

namespace Build

variable (build : Build)

def excludedMessage (path : PurePath) (message : Text) : Text :=
  let parent := PurePath.name path.parent
  py "Link target " ++ parent.take (parent.length - 4) ++ py " was excluded: " ++ message

def discoverFrom (required : Bool) : List PurePath → Outcome → Outcome × Option (List LinkCommand)
  | [], outcome => (outcome, some [])
  | path :: rest, outcome =>
    match build.parseLinkCommand path with
    | .error message =>
      if required then (outcome.fail (excludedMessage path message), none)
      else discoverFrom required rest (outcome.warn (excludedMessage path message))
    | .ok none => discoverFrom required rest outcome
    | .ok (some command) =>
      let (outcome, commands) := discoverFrom required rest outcome
      (outcome, commands.map (command :: ·))

/-- `_discover_links`, of what `shadow.glob("**/CMakeFiles/*.dir/link.txt")` found. -/
def discoverLinks (links : List PurePath) (required : Bool) (outcome : Outcome) :
    Outcome × Option (List LinkCommand) :=
  let paths := pathSort links
  if 256 < paths.length then (outcome.fail (py "CMake link-target count exceeds the bounded limit"), none)
  else match build.discoverFrom required paths outcome with
    | (outcome, some []) => (outcome.warn
        (py "No supported direct-object CMake executable link target was found"), none)
    | found => found

/-- `_verify_gnu_linkers`: the first command whose driver does not hand over to GNU ld. -/
def verifyGnuLinkers (commands : List LinkCommand) (outcome : Outcome) : Outcome × Bool :=
  match commands.find? (!build.linksWithGnu ·.driver) with
  | some command =>
    (outcome.fail (py "Target " ++ command.target ++ py " linker identity is not supported GNU ld"), false)
  | none => (outcome, true)

section

variable (units : Dict PurePath CompilationUnit)

def isCovered (command : LinkCommand) : Bool :=
  command.objects.all fun object => (units.get? object).any unitHasFunctionSections

def eligibleFrom (units : Dict PurePath CompilationUnit) (required : Bool) :
    List LinkCommand → Outcome → Outcome × Option (List LinkCommand)
  | [], outcome => (outcome, some [])
  | command :: rest, outcome =>
    if isCovered units command then
      let (outcome, commands) := eligibleFrom units required rest outcome
      (outcome, commands.map (command :: ·))
    else
      let message := py "Link target " ++ command.target ++ py " was excluded because its direct-object " ++
        py "compilation coverage is incomplete or not function-section based"
      if required then (outcome.fail message, none)
      else eligibleFrom units required rest (outcome.warn message)

def eligibleCommands (required : Bool) (commands : List LinkCommand)
    (outcome : Outcome) : Outcome × Option (List LinkCommand) :=
  match eligibleFrom units required commands outcome with
  | (outcome, some []) =>
    (outcome.warn (py "No link target retained complete function-section coverage"), none)
  | found => found

structure Collected where
  outcome : Outcome
  linked : List LinkCommand := []
  removals : List DiscardedSection := []

def Collected.fail (state : Collected) (message : Text) : Collected :=
  { state with outcome := state.outcome.fail message }

/-- The loop of `_collect_removals`: the first link that fails ends it. -/
def collectFrom : List LinkCommand → Collected → Collected
  | [], state => state
  | command :: rest, state =>
    if ¬build.inTime command then state.fail (py "GNU ELF reachability exceeded its global budget")
    else match build.relinked command with
      | .error message => state.fail message
      | .ok observed =>
        if ¬build.isExecutable command.output then
          state.fail (py "Target " ++ command.target ++ py " did not produce an exact ELF executable")
        else collectFrom rest
          { outcome :=
              { state.outcome with linkTargetsChecked := state.outcome.linkTargetsChecked + 1 }
            linked := state.linked ++ [command]
            removals := state.removals ++ observed }

def collectRemovals (commands : List LinkCommand) (outcome : Outcome) : Outcome × List DiscardedSection :=
  let state := build.collectFrom commands { outcome }
  let (retained, kept) := discardedByEveryLinkingTarget state.removals state.linked
  ({ state.outcome with
      discardedSectionsObserved := state.removals.length
      sectionsKeptByAnotherTarget := kept }, retained)

def inspectRemoval (sources : List Text) (removal : DiscardedSection) : Except Text (Option DeadSymbol) :=
  match units.get? removal.objectPath with
  | none => .ok none
  | some unit =>
    if unit.source ∉ sources ∨ ¬unitHasFunctionSections unit then .ok none
    else do
      match ← build.inspect removal.objectPath removal.sectionName with
      | none => return none
      | some sighting =>
        match removal.objectPath.relativeTo build.shadow with
        | none => .error (pyRepr removal.objectPath.asPosix ++ py " is not in the subpath of " ++
            pyRepr build.shadow.asPosix)
        | some relative =>
          return some
            { file := sighting.file
              line := sighting.line
              linkTarget := removal.target
              symbol := sighting.symbol
              sectionName := removal.sectionName
              objectPath := relative.asPosix
              toolName := removal.driverName
              toolVersion := removal.driverVersion
              linkCommandDigest := removal.commandDigest }

/-- `_inspect_removals`: the first removal that cannot be inspected ends it. -/
def inspectRemovals (units : Dict PurePath CompilationUnit) (sources : List Text) :
    List DiscardedSection → Outcome → Outcome × List DeadSymbol
  | [], outcome => (outcome, [])
  | removal :: rest, outcome =>
    match build.inspectRemoval units sources removal with
    | .error message => (outcome.fail message, [])
    | .ok none => inspectRemovals units sources rest
        { outcome with ambiguousSectionsExcluded := outcome.ambiguousSectionsExcluded + 1 }
    | .ok (some symbol) =>
      let (outcome, accepted) := inspectRemovals units sources rest outcome
      (outcome, symbol :: accepted)

def recordSuccess (sources : List Text)
    (commands : List LinkCommand) (accepted : List DeadSymbol) (outcome : Outcome) : Outcome :=
  let unique : Dict (Lex (Text × Lex (ℕ × Lex (Text × Text)))) DeadSymbol := Dict.setAll []
    (accepted.map fun symbol => (symbol.key, symbol))
  let linkedSources := (commands.flatMap (·.objects)).filterMap fun object =>
    ((units.get? object).map (·.source)).filter (· ∈ sources)
  { outcome with
    symbols := (unique.keys.insertionSort (· ≤ ·)).filterMap unique.get?
    sourcesChecked := linkedSources.dedup.length
    mode := .exact }

def stopped (outcome : Outcome) : Outcome :=
  { outcome with mode := if outcome.errors ≠ [] then .error else .unavailable }

def conclude (sources : List Text) (commands : List LinkCommand)
    (removals : List DiscardedSection) (outcome : Outcome) : Outcome :=
  let (outcome, accepted) :=
    if outcome.errors = [] then build.inspectRemovals units sources removals outcome else (outcome, [])
  let outcome :=
    if outcome.errors = [] ∧ build.sourcesUnchanged = false then
      outcome.fail (py "Project source changed during GNU ELF reachability analysis")
    else outcome
  if outcome.errors ≠ [] then { outcome with mode := .error, symbols := [] }
  else recordSuccess units sources commands accepted outcome

end

/-- `run_cpp_linker_dead_symbols`, once the shadow build is configured. -/
def measure (policy : Policy) (sources : List Text) (links : List PurePath) : Outcome :=
  match build.discoverLinks links (policy = .required) {} with
  | (outcome, none) => stopped outcome
  | (outcome, some commands) =>
  match build.verifyGnuLinkers commands outcome with
  | (outcome, false) => { outcome with mode := .error }
  | (outcome, true) =>
  match build.units with
  | .error message => { (outcome.fail message) with mode := .error }
  | .ok units =>
  match eligibleCommands units (policy = .required) commands outcome with
  | (outcome, none) => stopped outcome
  | (outcome, some commands) =>
    let (outcome, removals) := build.collectRemovals commands outcome
    build.conclude units sources commands removals outcome

end Build

inductive Unprepared where
  | warning (message : Text)
  | error (message : Text)

/-- `run_cpp_linker_dead_symbols`: the platform, the context, the tools and the configuring come first, and
    leave a build with the link files found in it. -/
def runCppLinkerDeadSymbols (policy : Policy) (sources : List Text)
    (prepared : Except Unprepared (Build × List PurePath)) : Outcome :=
  if policy = .off then { mode := .off }
  else if sources = [] then { mode := .notApplicable }
  else match prepared with
    | .error (.warning message) => { warnings := [message] }
    | .error (.error message) => { errors := [message], mode := .error }
    | .ok (build, links) => build.measure policy sources links

end LinkerDead

end Ici
