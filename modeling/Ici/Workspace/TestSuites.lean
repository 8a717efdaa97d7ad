import Ici.Config.Paths
import Ici.Domain.Workspace
import Ici.Library.Lines

/-! # Resolving a declared `.pro` to the targets qmake would build

The file is read, qmake is not evaluated. Diagnostics and directories are left out. -/

namespace Ici

open Python

/-- A checkout as the readers of project files ask about it, by paths joined to its root. -/
structure Checkout where
  /-- The first bytes of a file, decoded with replacements, unless it cannot be read. -/
  head : Text → ℕ → Option Text
  isFile : Text → Bool
  /-- What a pattern matches below a directory, sorted, relative to it. -/
  glob : Text → Text → List Text
  resolve : Text → Text

structure QmakeTarget where
  name : Text
  /-- The project file the entry resolves to, empty when it is unresolved. -/
  project : Text
  directory : Text
  conditional : Bool
  depends : List Text
deriving DecidableEq

namespace Qmake

def maxProBytes : ℕ := 512 * 1024

def maxDepth : ℕ := 8

def assignmentOperators : List Text := [py "~=", py "-=", py "+=", py "*=", py "="]

def uncommented (raw : Text) : Text := rstrip (raw.takeWhile (· ≠ 0x23))

def kept (current : Text) : List Text := if strip current = [] then [] else [strip current]

/-- `_logical_lines`, from what a continued line has left. -/
def logicalLinesFrom (current : Text) : List Text → List Text
  | [] => kept current
  | raw :: rest =>
    let line := uncommented raw
    if line.getLast? = some 0x5c then logicalLinesFrom (current ++ line.dropLast ++ py " ") rest
    else kept (current ++ line) ++ logicalLinesFrom [] rest

def logicalLines (text : Text) : List Text := logicalLinesFrom [] (splitLines text)

/-! ## Statements -/

structure Statement where
  var : Text
  operator : Text
  value : Text
  conditional : Bool
deriving DecidableEq

def unscoped (line : Text) : Text × Bool :=
  match partition? (py ":") line with
  | some (scope, rest) =>
    if strip scope ≠ [] ∧ 0x3d ∈ rest then (strip rest, true) else (line, false)
  | none => (line, false)

def assignment (statement operator : Text) : Option (Text × Text × Text) :=
  (partition? operator statement).bind fun parts =>
    let var := strip parts.1
    if var ≠ [] ∧ 0x20 ∉ var ∧ 0x9 ∉ var then some (var, operator, strip parts.2) else none

def splitStatement (line : Text) : Option Statement :=
  let (statement, conditional) := unscoped line
  (assignmentOperators.findSome? (assignment statement)).map fun found =>
    { var := found.1, operator := found.2.1, value := found.2.2, conditional := conditional }

def statements (text : Text) : List Statement := (logicalLines text).filterMap splitStatement

/-- A token of a `SUBDIRS` assignment. -/
structure Entry where
  name : Text
  operator : Text
  conditional : Bool
deriving DecidableEq

def subdirs (text : Text) : List Entry :=
  ((statements text).filter (·.var = py "SUBDIRS")).flatMap fun statement =>
    (words statement.value).map fun token => ⟨token, statement.operator, statement.conditional⟩

abbrev Modifiers := Dict Text (List Text)

/-- `var.rpartition(".")`, where there is a dot. -/
def splitModifier (var : Text) : Option (Text × Text) :=
  if 0x2e ∉ var then none
  else
    let modifier := (var.reverse.takeWhile (· ≠ 0x2e)).reverse
    some (var.take (var.length - (modifier.length + 1)), modifier)

def modifierNames : List Text := [py "subdir", py "file", py "depends", py "target"]

def addModifier (names : List Text) (found : Dict Text Modifiers) (statement : Statement) :
    Dict Text Modifiers :=
  match splitModifier statement.var with
  | some (name, modifier) =>
    if name ∈ names ∧ modifier ∈ modifierNames then
      found.set name (Dict.set ((found.get? name).getD []) modifier (words statement.value))
    else found
  | none => found

def modifiers (text : Text) (names : List Text) : Dict Text Modifiers :=
  (statements text).foldl (addModifier names) []

/-- A step of `_norm`. -/
def normStep (parts : List Text) (part : Text) : List Text :=
  if part = [] ∨ part = py "." then parts
  else if part = py ".." then parts.dropLast
  else parts ++ [part]

/-- `_norm`: the file system is not consulted. -/
def norm (path : PurePath) : Text :=
  let parts := path.parts.foldl normStep []
  if join (py "/") parts = [] then py "." else join (py "/") parts

/-- `_project_in`: the project file of a directory, empty when it is not settled. -/
def projectIn (tree : Checkout) (directory : Text) : Text :=
  let conventional := directory ++ py "/" ++ PurePosixPath.name directory ++ py ".pro"
  if tree.isFile conventional then conventional
  else match tree.glob directory (py "*.pro") with
    | [only] => directory ++ py "/" ++ only
    | _ => []

def Modifiers.first (found : Modifiers) (modifier name : Text) : Option Text :=
  match found.get? modifier with
  | some (value :: _) => some value
  | some [] => none
  | none => some name

/-- `_resolve_target`. A modifier without a value is an `IndexError`. -/
def resolveTarget (tree : Checkout) (base : PurePath) (entry : Entry) (found : Modifiers) :
    Result (Option QmakeTarget) :=
  let depends := ((found.get? (py "depends")).getD []).filter (· ∉ assignmentOperators)
  let missing : PyError := ⟨py "IndexError", py "tuple index out of range"⟩
  if py "$$" <:+: entry.name ∨ py "$\x7b" <:+: entry.name then .ok none
  else if py ".pro" <:+ entry.name ∨ (found.get? (py "file")).any (· ≠ []) then
    match found.first (py "file") entry.name with
    | none => .error missing
    | some project =>
      let resolved := norm (base.join (PurePath.parse project))
      .ok (some
        { name := entry.name
          project := resolved
          directory := (PurePath.parse resolved).parent.asPosix
          conditional := entry.conditional
          depends := depends })
  else
    match found.first (py "subdir") entry.name with
    | none => .error missing
    | some directory =>
      let resolved := norm (base.join (PurePath.parse directory))
      .ok (some
        { name := entry.name
          project := projectIn tree resolved
          directory := resolved
          conditional := entry.conditional
          depends := depends })

structure Reach where
  seen : List Text := []
  targets : List QmakeTarget := []

def Reach.mark (reach : Reach) (canonical : Text) : Reach := { reach with seen := canonical :: reach.seen }

def standing (entries : List Entry) : List Entry :=
  let removed := (entries.filter (·.operator = py "-=")).map (·.name)
  entries.filter fun entry => entry.operator ≠ py "-=" ∧ entry.name ∉ removed

/-- `visit`, by how many levels may still be read. -/
def visit (tree : Checkout) : ℕ → Text → Reach → Result Reach
  | 0, project, reach => .ok (reach.mark (tree.resolve project))
  | levels + 1, project, reach =>
    if tree.resolve project ∈ reach.seen then .ok reach
    else
      let reach := reach.mark (tree.resolve project)
      match tree.head project (maxProBytes + 1) with
      | none => .ok reach
      | some text =>
        let entries := subdirs text
        let found := modifiers text (entries.map (·.name))
        (standing entries).foldlM (fun reach entry => do
          match ← resolveTarget tree (PurePath.parse project).parent entry
              ((found.get? entry.name).getD []) with
          | none => return reach
          | some target =>
            let reach : Reach := { reach with targets := reach.targets ++ [target] }
            if target.project = [] then return reach else visit tree levels target.project reach) reach

end Qmake

/-- The targets of `resolve_qmake_project`. -/
def resolveQmakeProject (tree : Checkout) (definition : Text) : Result (List QmakeTarget) :=
  (Qmake.visit tree (Qmake.maxDepth + 1) definition {}).map (·.targets)

end Ici

/-! ## The tests a declared `CMakeLists.txt` reaches

The file is read, cmake is not evaluated. Of a project only its tests are kept here. -/

namespace Ici

open Python

structure CmakeTest where
  name : Text
  project : Text
  directory : Text
  conditional : Bool
deriving DecidableEq

namespace Cmake

def maxListBytes : ℕ := 512 * 1024

def maxDepth : ℕ := 16

def blockOpeners : List Text := [py "if", py "foreach", py "while", py "function", py "macro"]

def blockClosers : List Text :=
  [py "endif", py "endforeach", py "endwhile", py "endfunction", py "endmacro"]

/-! ## Commands -/

def comment : Pattern :=
  .alt (.cat (.spelled (py "#[[")) (.cat (.many (fun _ => true) 0 none false) (.spelled (py "]]"))))
    (.cat (.spelled (py "#")) (.many (· ≠ 0xa) 0 none true))

def uncommented (text : Text) : Text := comment.sub (fun _ => false) (fun _ => []) text

/-- What stands before the closing bracket, where brackets may be nested once, and what follows it. -/
def closeArguments : Bool → Text → Option (Text × Text)
  | _, [] => none
  | false, c :: rest =>
    if c = 0x29 then some ([], rest)
    else (closeArguments (c = 0x28) rest).map fun found => (c :: found.1, found.2)
  | true, c :: rest =>
    if c = 0x28 then none
    else (closeArguments (c ≠ 0x29) rest).map fun found => (c :: found.1, found.2)

def commandAt (t : Text) : Option ((Text × Text) × Text) :=
  if !t.head?.any isNameStart then none
  else match (t.dropWhile isNameCode).dropWhile isSpace with
    | [] => none
    | c :: rest =>
      if c ≠ 0x28 then none
      else (closeArguments false rest).map fun found => ((t.takeWhile isNameCode, found.1), found.2)

/-- `re.finditer`: the commands one after another. -/
def commandsFrom : ℕ → Text → List (Text × Text)
  | 0, _ => []
  | _, [] => []
  | fuel + 1, c :: rest =>
    match commandAt (c :: rest) with
    | some (command, after) => command :: commandsFrom fuel after
    | none => commandsFrom fuel rest

def asciiLower (t : Text) : Text :=
  t.map fun c => if 0x41 ≤ c.val ∧ c.val ≤ 0x5a then Fin.ofNat 0x110000 (c.val + 0x20) else c

structure Command where
  name : Text
  arguments : List Text
  conditional : Bool
deriving DecidableEq

/-- What the loop of `_commands` makes of a match, by how many blocks are open. -/
def readCommand (state : ℕ × List Command) (found : Text × Text) : ℕ × List Command :=
  let name := asciiLower found.1
  if name ∈ blockClosers then (state.1 - 1, state.2)
  else
    (if name ∈ blockOpeners then state.1 + 1 else state.1,
      state.2 ++ [⟨name, words found.2, 0 < state.1⟩])

def commands (text : Text) : List Command :=
  let stripped := uncommented text
  ((commandsFrom stripped.length stripped).foldl readCommand (0, [])).2

def isLiteral (token : Text) : Bool := token ≠ [] ∧ 0x24 ∉ token ∧ 0x28 ∉ token ∧ 0x22 ∉ token

/-- The name an `add_test` gives: after the keyword, or else first. -/
def testName (arguments : List Text) : Text :=
  match arguments.dropWhile (· ≠ py "NAME") with
  | _ :: name :: _ => name
  | _ => arguments.head?.getD []

structure Reach where
  seen : List Text := []
  tests : List CmakeTest := []

/-- The list file an `add_subdirectory` leads to, where it can be followed. -/
def subdirectory (tree : Checkout) (base : PurePath) (token : Text) : Option Text :=
  let child := (base.join (PurePath.parse token)).asPosix ++ py "/CMakeLists.txt"
  if isLiteral token ∧ tree.isFile child then some child else none

/-- `visit`, by how many levels may still be read. -/
def visit (tree : Checkout) : ℕ → Text → Bool → Reach → Reach
  | 0, lists, _, reach => { reach with seen := tree.resolve lists :: reach.seen }
  | levels + 1, lists, inherited, reach =>
    if tree.resolve lists ∈ reach.seen then reach
    else
      let reach : Reach := { reach with seen := tree.resolve lists :: reach.seen }
      match tree.head lists (maxListBytes + 1) with
      | none => reach
      | some text =>
        let base := (PurePath.parse lists).parent
        (commands text).foldl (fun reach command =>
          let conditional := command.conditional || inherited
          match command.arguments with
          | [] => reach
          | first :: _ =>
            if command.name = py "add_subdirectory" then
              match subdirectory tree base first with
              | some child => visit tree levels child conditional reach
              | none => reach
            else if command.name = py "add_test" then
              let name := testName command.arguments
              if isLiteral name then
                { reach with tests := reach.tests ++ [⟨name, lists, base.asPosix, conditional⟩] }
              else reach
            else reach) reach

end Cmake

def resolveCmakeProject (tree : Checkout) (definition : Text) : List CmakeTest :=
  (Cmake.visit tree (Cmake.maxDepth + 1) definition false {}).tests

end Ici

/-! ## Which test suites a component's builds declare -/

namespace Ici

open Python

inductive SuiteKind where
  | ctest
  | qtest
deriving DecidableEq

structure TestSuite where
  id : Text
  kind : SuiteKind
  buildId : Text
  buildDir : Text
  /-- The binary's path below the build directory; empty for ctest. -/
  binary : Text
  conditional : Bool
deriving DecidableEq

namespace TestSuite

def maxProBytes : ℕ := 256 * 1024

section Patterns

open Pattern

def isTargetCode (c : CodePoint) : Bool :=
  isNameCode c || c == 0x2e || c == 0x2d

/-- `^\s*TARGET\s*=(?P<name>[A-Za-z0-9_.-]+)\s*$`. -/
def targetPattern : Pattern :=
  cat spaces (cat (spelled (py "TARGET")) (cat spaces (cat (spelled (py "="))
    (cat (group 1 (many isTargetCode 1 none true)) spaces))))

/-- `^\s*NAME\s*\+=?.*\bWORD\b`. -/
def declares (name : Text) (words : Pattern) : Pattern :=
  cat spaces (cat (spelled name) (cat spaces (cat (spelled (py "+"))
    (cat (many (· == 0x3d) 0 (some 1) true)
      (cat (many (· ≠ 0xa) 0 none true) (cat wordBoundary (cat words wordBoundary)))))))

def testlibPattern : Pattern := declares (py "QT") (spelled (py "testlib"))

def testcasePattern : Pattern := declares (py "CONFIG") (alt (spelled (py "testcase")) (spelled (py "test")))

end Patterns

variable (isWord : CodePoint → Bool)

def binaryOf (text defaultName : Text) : Option Text :=
  if (testlibPattern.searchLines isWord (fun _ => true) text).isNone ∧
      (testcasePattern.searchLines isWord (fun _ => true) text).isNone then none
  else match targetPattern.searchLines isWord (·.endsLine) text with
    | some found => some ((found.groupText 1).getD [])
    | none => some defaultName

def qtestBinary (tree : Checkout) (project defaultName : Text) : Option Text :=
  (tree.head project (maxProBytes + 1)).bind fun text => binaryOf isWord text defaultName

section

variable (tree : Checkout) (build : BuildUnit)

/-- `_cmake_suites`: the boundary of a suite is the build. -/
def cmakeSuites (definition : Text) : List TestSuite :=
  let tests := resolveCmakeProject tree definition
  if tests = [] then []
  else
    [{ id := build.val.id ++ py "-ctest"
       kind := .ctest
       buildId := build.val.id
       buildDir := build.val.directory
       binary := []
       conditional := tests.all (·.conditional) }]

def ofTarget (target : QmakeTarget) : Option TestSuite :=
  if target.project = [] then none
  else (qtestBinary isWord tree target.project (PurePosixPath.stem target.project)).map fun binary =>
    { id := build.val.id ++ py "-" ++ target.name
      kind := .qtest
      buildId := build.val.id
      buildDir := build.val.directory
      binary := binary
      conditional := target.conditional }

def qmakeSuites (definition : Text) : Result (List TestSuite) :=
  (resolveQmakeProject tree definition).map fun targets =>
    targets.filterMap (ofTarget isWord tree build)

end

end TestSuite

/-- `suites_for_build`: built or not, that is checked later. -/
def suitesForBuild (isWord : CodePoint → Bool) (tree : Checkout) (build : BuildUnit) :
    Result (List TestSuite) :=
  match build.val.definition with
  | none => .ok []
  | some definition =>
    if build.val.system = py "cmake" then .ok (TestSuite.cmakeSuites tree build definition)
    else if build.val.system = py "qmake" then TestSuite.qmakeSuites isWord tree build definition
    else .ok []

/-- `cpp_suites`: the suites the component's linked builds declare. -/
def cppSuites (isWord : CodePoint → Bool) (tree : Checkout) (component : Component)
    (builds : List BuildUnit) : Result (List TestSuite) :=
  ((builds.filter (·.val.id ∈ component.val.buildIds)).mapM (suitesForBuild isWord tree)).map List.flatten

end Ici
