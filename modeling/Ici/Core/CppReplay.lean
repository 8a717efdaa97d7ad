import Ici.Core.CppReplayPolicy
import Ici.Library.Decimals
import Ici.Library.Dict
import Ici.Library.PurePaths

/-! # Replaying a compile command

`cpp_replay` without its environment: the command of a translation unit with what the policy does not
keep taken out, behind a compiler that was probed and before one operation that only diagnoses. The
file system is a parameter. -/

namespace Ici.CppReplay

open List hiding splitOn
open Raising Python

def maxReplayArguments : ℕ := 32768

def maxReplayArgumentChars : ℕ := 1024 * 1024

inductive ReplayError where
  | refused (error : ReplayCommandError)
  | raised (error : PyError)
deriving DecidableEq

abbrev Replay := Except ReplayError

def refuse {α : Type} (code message : Text) : Replay α := .error (.refused ⟨code, message⟩)

structure FileSystem where
  /-- `path.resolve(strict=True)`, where it does not raise. -/
  resolveStrict : PurePath → Option PurePath
  /-- `path.resolve(strict=False)`, where it does not raise. -/
  resolve : PurePath → Option PurePath
  regularExecutable : PurePath → Bool
  isDir : PurePath → Bool
  isFile : PurePath → Bool
  which : Text → Option Text

structure ToolCapability where
  path : Text
  available : Bool
  complete : Bool

abbrev CapabilityInventory := Dict Text ToolCapability

structure CompilationUnit where
  source : Text
  directory : Text
  argv : List Text
  compiler : Text
  configuration : Text

inductive Operation where
  | syntax'
  | includes
  | unusedFunctions
deriving DecidableEq

structure ReplayCommand where
  argv : List Text
  cwd : PurePath
  source : PurePath
  compiler : Text
  configuration : Text
deriving DecidableEq

/-! ## The name of a driver -/

def asciiLower (c : CodePoint) : CodePoint :=
  if 0x41 ≤ c.val ∧ c.val ≤ 0x5a then Fin.ofNat 0x110000 (c.val + 0x20) else c

/-- `[A-Za-z0-9]` where the case is ignored: four letters besides the ASCII ones fold to one of these. -/
def isDriverChar (c : CodePoint) : Bool :=
  isDigit c || (0x61 ≤ (asciiLower c).val && (asciiLower c).val ≤ 0x7a) ||
    c ∈ [0x130, 0x131, 0x17f, 0x212a]

def isTargetPiece (piece : Text) : Bool :=
  piece ≠ [] && piece.all fun c => isDriverChar c || c ∈ py "_+."

/-- `(?:(?:[A-Za-z0-9_+.]+-)+)?`. -/
def isTargetPrefix (t : Text) : Bool :=
  t = [] || (t.getLast? = some 0x2d && (splitOn 0x2d t.dropLast).all isTargetPiece)

/-- `(?:-[0-9][A-Za-z0-9_.-]*)?`. -/
def isVersion : Text → Bool
  | [] => true
  | dash :: rest =>
    dash = 0x2d && rest.head?.any isDigit && rest.tail.all fun c => isDriverChar c || c ∈ py "_.-"

def isDriverEnd (t : Text) : Bool :=
  isVersion t || ((t.drop (t.length - 4)).map asciiLower = py ".exe" && isVersion (t.take (t.length - 4)))

def drivers : List Text := [py "gcc", py "g++", py "clang", py "clang++", py "cc", py "c++"]

def isCompilerName (name : Text) : Bool :=
  (List.range (name.length + 1)).any fun cut => isTargetPrefix (name.take cut) &&
    drivers.any fun driver =>
      startsWith ((name.drop cut).map asciiLower) driver && isDriverEnd ((name.drop cut).drop driver.length)

section Compiler

variable (files : FileSystem) (inventory : CapabilityInventory)

def isWithin (path root : PurePath) : Bool := (path.relativeTo root).isSome

def compilerCapabilities : List Text := [py "gcc", py "g++", py "clang", py "clang++"]

def approvedCompilerPaths : List PurePath :=
  compilerCapabilities.filterMap fun name => do
    let capability ← inventory.get? name
    if !capability.available || !capability.complete || capability.path = [] then none
    else
      let candidate ← files.resolveStrict (.parse capability.path)
      if files.regularExecutable candidate then some candidate else none

def compilerCandidate (cwd : PurePath) (value : Text) : Replay PurePath :=
  let lexical := PurePath.parse value
  if lexical.isAbsolute then .ok lexical
  else if 1 < lexical.parts.length then .ok (cwd.join lexical)
  else match files.which value with
    | none =>
      refuse (py "compiler-unavailable") (py "The translation unit compiler is not available on PATH.")
    | some discovered => .ok (.parse discovered)

def resolveCompiler (root cwd : PurePath) (value : Text) : Replay PurePath := do
  if !isCompilerName (PurePosixPath.name value) then
    refuse (py "unsupported-compiler-driver")
      (py "The translation unit does not use a direct GCC/Clang compiler driver.")
  let candidate ← compilerCandidate files cwd value
  match files.resolveStrict candidate with
  | none =>
    refuse (py "compiler-unavailable") (py "The translation unit compiler could not be resolved.")
  | some resolved =>
    if !files.regularExecutable resolved then
      refuse (py "compiler-not-executable")
        (py "The translation unit compiler is not a regular executable.")
    else if isWithin resolved root then
      refuse (py "project-compiler-rejected")
        (py "Project-contained compiler programs are not executed during analysis.")
    else if resolved ∉ approvedCompilerPaths files inventory then
      refuse (py "compiler-not-probed")
        (py "The translation unit compiler does not match a successfully probed GCC/Clang tool.")
    else match files.resolve candidate with
      | none => .error (.raised ⟨py "RuntimeError", py "Symlink loop"⟩)
      | some path => .ok path

end Compiler

/-! ## The arguments -/

section Arguments

variable (files : FileSystem) (cwd source : PurePath) (dropWarningSuppression preserveSourcePosition : Bool)

def resolvedOperand (value : Text) : Option PurePath :=
  if value = [] ∨ 0 ∈ value ∨ value.head? = some 0x2d then none
  else files.resolve (cwd.join (.parse value))

def requireValue (option : Text) : List Text → Replay (Text × List Text)
  | value :: rest =>
    if value = [] ∨ 0 ∈ value ∨ value.head? = some 0x2d then
      refuse (py "missing-option-value") (py "The compiler option " ++ option ++ py " has no safe value.")
    else .ok (value, rest)
  | [] => refuse (py "missing-option-value") (py "The compiler option " ++ option ++ py " has no safe value.")

def consumeOption (token : Text) (rest : List Text) : Replay (List Text × List Text) :=
  if shouldDrop token then .ok ([], rest)
  else if isRejected token then
    refuse (py "unsafe-compiler-option")
      (py "The compiler option " ++ token ++ py " is not allowed during analysis replay.")
  else if token ∈ dropValue then do
    let (_, rest) ← requireValue token rest
    return ([], rest)
  else if token ∈ preserveValue then do
    let (value, rest) ← requireValue token rest
    if token ∈ [py "-x", py "--language"] ∧ value ∉ safeLanguageValues then
      refuse (py "unsafe-compiler-option")
        (py "The compiler language " ++ value ++ py " is not allowed during analysis replay.")
    else return ([token, value], rest)
  else if isSafe token then .ok ([token], rest)
  else refuse (py "unsafe-compiler-option")
    (py "The compiler option " ++ token ++ py " is outside the replay allowlist.")

structure Filtering where
  kept : List Text := []
  sourceOperands : ℕ := 0
  afterSeparator : Bool := false
deriving DecidableEq

def extraOperand : Text := py "extra-compiler-operand"

def mismatchedOperand : Text :=
  py "The translation unit command contains an extra or mismatched input operand."

def consumeReplayArgument (state : Filtering) (token : Text) (rest : List Text) :
    Replay (Filtering × List Text) :=
  if token = py "--" then
    if state.afterSeparator then refuse extraOperand mismatchedOperand
    else .ok ({ state with afterSeparator := true }, rest)
  else if token.head? = some 0x40 then
    refuse (py "unexpanded-response-file") (py "Compiler response files must be expanded before replay.")
  else if token = py "-" then
    refuse extraOperand (py "Compiler stdin cannot be used as an additional replay input.")
  else if resolvedOperand files cwd token = some source then
    .ok ({ state with
      kept := state.kept ++ if preserveSourcePosition then [source.asPosix] else []
      sourceOperands := state.sourceOperands + 1 }, rest)
  else if state.afterSeparator ∨ token.head? ≠ some 0x2d then refuse extraOperand mismatchedOperand
  else if token = py "-w" ∧ dropWarningSuppression then .ok (state, rest)
  else do
    let (preserved, rest) ← consumeOption token rest
    return ({ state with kept := state.kept ++ preserved }, rest)

theorem suffix_requireValue {option value : Text} {rest left : List Text}
    (h : requireValue option rest = .ok (value, left)) :
    rest = value :: left ∧ value ≠ [] ∧ 0 ∉ value ∧ value.head? ≠ some 0x2d := by
  cases rest with
  | nil => cases h
  | cons first rest =>
    rw [requireValue] at h
    split_ifs at h with hUnsafe
    · cases h
    · cases h
      simp only [not_or] at hUnsafe
      exact ⟨rfl, hUnsafe⟩

theorem suffix_consumeOption {token : Text} {rest kept left : List Text}
    (h : consumeOption token rest = .ok (kept, left)) : left <:+ rest := by
  unfold consumeOption at h
  split_ifs at h with hDrop hReject hDropValue hPreserve hSafe
  · cases h
    exact suffix_rfl
  · cases h
  · obtain ⟨⟨value, after⟩, hRead, hDone⟩ := bind_eq_ok.mp h
    cases hDone
    rw [(suffix_requireValue hRead).1]
    exact suffix_cons ..
  · obtain ⟨⟨value, after⟩, hRead, hDone⟩ := bind_eq_ok.mp h
    dsimp only at hDone
    split_ifs at hDone
    · cases hDone
    · cases hDone
      rw [(suffix_requireValue hRead).1]
      exact suffix_cons ..
  · cases h
    exact suffix_rfl
  · cases h

variable {files cwd source dropWarningSuppression preserveSourcePosition} in
theorem suffix_consumeReplayArgument {state state' : Filtering} {token : Text} {rest left : List Text}
    (h : consumeReplayArgument files cwd source dropWarningSuppression preserveSourcePosition state token rest
      =
      .ok (state', left)) : left <:+ rest := by
  unfold consumeReplayArgument at h
  split_ifs at h
  all_goals try cases h
  all_goals try exact suffix_rfl
  obtain ⟨⟨preserved, after⟩, hOption, hDone⟩ := bind_eq_ok.mp h
  cases hDone
  exact suffix_consumeOption hOption

def filterFrom (state : Filtering) : List Text → Replay Filtering
  | [] => .ok state
  | token :: rest =>
    match _h : consumeReplayArgument files cwd source dropWarningSuppression preserveSourcePosition state
        token rest with
    | .error error => .error error
    | .ok (state, rest) => filterFrom state rest
termination_by argv => argv.length
decreasing_by
  have hLength := (suffix_consumeReplayArgument _h).length_le
  simp only [List.length_cons]
  omega

def fits (argv : List Text) : Bool :=
  argv.length ≤ maxReplayArguments && (argv.map List.length).sum ≤ maxReplayArgumentChars

def filteredArguments (argv : List Text) : Replay (List Text) := do
  if !fits argv then
    refuse (py "command-too-large") (py "The translation unit command exceeds the bounded replay size.")
  if ∃ value ∈ argv, value = [] ∨ 0 ∈ value then
    refuse (py "invalid-command-argument") (py "The translation unit command contains an invalid argument.")
  let state ← filterFrom files cwd source dropWarningSuppression preserveSourcePosition {} argv.tail
  if state.sourceOperands ≠ 1 then
    refuse (py "invalid-source-operands")
      (py "The translation unit command must identify its canonical source exactly once.")
  return state.kept

end Arguments

def noColor : Text := py "-fdiagnostics-color=never"

/-- The loop over the warnings of a command that only reports unused functions. -/
def projected (arguments : List Text) : Replay (List Text) := do
  let kept ← (arguments.filter (· ≠ py "-w")).mapM fun argument =>
    (diagnosticWarningArgument argument).mapError .refused
  return kept.filterMap id

def diagnosticOperationArguments (arguments : List Text) (operation : Operation) (source : PurePath) :
    Replay (List Text) :=
  let arguments := arguments ++ [noColor]
  match operation with
  | .syntax' => .ok (arguments ++ [py "-Wall", py "-Wextra", py "-fsyntax-only", source.asPosix])
  | .includes => .ok (arguments ++ [py "-w", py "-E", py "-H", py "-o", py "/dev/null", source.asPosix])
  | .unusedFunctions => do
    let projected ← projected arguments
    return projected ++ [py "-Wunused-function", py "-Wno-error=unused-function", py "-S", py "-o",
      py "/dev/null"]

def buildReplayCommand (files : FileSystem) (root : PurePath) (unit : CompilationUnit)
    (inventory : CapabilityInventory) (operation : Operation) : Replay ReplayCommand := do
  match files.resolveStrict root with
  | none => .error (.raised ⟨py "OSError", root.asPosix⟩)
  | some projectRoot =>
    match files.resolveStrict (projectRoot.join (.parse unit.directory)),
        files.resolveStrict (projectRoot.join (.parse unit.source)) with
    | some cwd, some source =>
      if !isWithin cwd projectRoot || !files.isDir cwd then
        refuse (py "unsafe-working-directory") (py "The translation unit working directory is outside the " ++
          py "project or not a directory.")
      if !isWithin source projectRoot || !files.isFile source then
        refuse (py "unsafe-source")
          (py "The translation unit source is outside the project or not a regular file.")
      let compiler ← resolveCompiler files inventory projectRoot cwd (unit.argv.headD [])
      let diagnoses := operation = .unusedFunctions
      let arguments ← filteredArguments files cwd source diagnoses diagnoses unit.argv
      let arguments ← diagnosticOperationArguments arguments operation source
      let command := compiler.asPosix :: arguments
      if !fits command then
        refuse (py "command-too-large")
          (py "The sanitized translation unit command exceeds the bounded replay size.")
      return {
        argv := command
        cwd
        source
        compiler := if unit.compiler = [] then PurePosixPath.name (unit.argv.headD []) else unit.compiler
        configuration := unit.configuration }
    | _, _ =>
      refuse (py "stale-translation-unit")
        (py "The translation unit working directory or source no longer exists.")

end Ici.CppReplay
