import Ici.Library.PurePaths
import Ici.Library.Reporting

/-! # Where a configuration value came from

Layers in precedence order, values with the place that declared them, and the problems of a
configuration, each with its place. -/

namespace Ici

open Option Python

structure Origin where
  file : Text
  key : Text := []
  file_ne : file ≠ [] := by decide
deriving DecidableEq

namespace Origin

section

variable (origin : Origin)

def isDocument : Bool := origin.key = []

def child (key : Text) : Origin :=
  { origin with key := if origin.isDocument then key else origin.key ++ py "." ++ key }

def item (index : ℕ) : Origin :=
  { origin with key := origin.key ++ py "[" ++ natDigits index ++ py "]" }

/-- `str(origin)`. -/
def text : Text :=
  if origin.isDocument then origin.file else origin.file ++ py ": " ++ origin.key

@[simp] theorem file_item (index : ℕ) : (origin.item index).file = origin.file := rfl

end

def inRoot (key : Text) : Origin := ⟨py "ici.toml", key, by decide⟩

def inWorkspace (key : Text) : Origin := ⟨py "ws/ici.toml", key, by decide⟩

def inApp (key : Text) : Origin := ⟨py "ws/app/ici.toml", key, by decide⟩

end Origin

structure Sourced (α : Type) where
  value : α
  origin : Origin
deriving DecidableEq

structure ConfigProblem where
  message : Text
  origin : Origin
  hint : Option Text := none
  message_ne : message ≠ [] := by simp [py]
deriving DecidableEq

/-! ## Layers -/

inductive Layer where
  | defaults
  | root
  | component
  | localOverlay
  | cli
deriving DecidableEq

def Layer.rank : Layer → ℕ
  | defaults => 0
  | root => 1
  | component => 2
  | localOverlay => 3
  | cli => 4

def Layer.beats (layer other : Layer) : Bool := other.rank ≤ layer.rank

structure Decided (α : Type) where
  value : α
  origin : Origin
  layer : Layer
deriving DecidableEq

variable {α : Type}

def Sourced.optional (value : Option (Sourced α)) (layer : Layer) : Option (Decided α) :=
  value.map fun sourced => { value := sourced.value, origin := sourced.origin, layer := layer }

def Decided.decide (current : Decided α) (candidate : Option (Sourced α)) (layer : Layer) : Decided α :=
  match candidate with
  | none => current
  | some sourced =>
    if layer.beats current.layer then
      { value := sourced.value, origin := sourced.origin, layer := layer }
    else current

def Decided.decideOptional (current : Option (Decided α)) (candidate : Option (Sourced α))
    (layer : Layer) : Option (Decided α) :=
  match current with
  | none => Sourced.optional candidate layer
  | some decided => some (decided.decide candidate layer)

theorem Decided.value_decide_of_beats {current : Decided α} {layer : Layer}
    (h : layer.beats current.layer = true) (candidate : Option (Sourced α)) :
    (current.decide candidate layer).value = (candidate.map (·.value)).getD current.value := by
  cases candidate with
  | none => rfl
  | some sourced => rw [Decided.decide, if_pos h, map_some, getD_some]

end Ici

/-! ## The local overlay: a file that may move paths and nothing else -/

namespace Ici

open Python

def localOverlayAllowlist : List Text :=
  [py "builds.*.directory", py "builds.*.project", py "cache", py "components.*.python.executable",
    py "output", py "tools.*.path"]

def keyMatches : List Text → List Text → Bool
  | [], [] => true
  | pattern :: patterns, key :: keys =>
    (if pattern = py "*" then key ≠ [] else key = pattern) && keyMatches patterns keys
  | _, _ => false

def overlayKeyAllowed (key : Text) : Bool :=
  localOverlayAllowlist.any fun entry => keyMatches (splitOn 0x2e entry) (splitOn 0x2e key)

inductive TomlScalar where
  | text (value : Text)
  | other (typeName : Text)

inductive Toml where
  | scalar (value : TomlScalar)
  | table (fields : List (Text × Toml))

mutual

/-- `_leaves`: every scalar with its dotted key. -/
def overlayLeaves (folded : Text) : List (Text × Toml) → List (Text × TomlScalar)
  | [] => []
  | (key, value) :: rest =>
    leavesOfField (if folded = [] then key else folded ++ py "." ++ key) value ++ overlayLeaves folded rest

def leavesOfField (dotted : Text) : Toml → List (Text × TomlScalar)
  | .scalar value => [(dotted, value)]
  | .table fields => overlayLeaves dotted fields

end

structure LocalOverlay where
  values : Dict Text (Sourced Text)
  allowed : ∀ key ∈ values.keys, overlayKeyAllowed key = true

def LocalOverlay.empty : LocalOverlay := ⟨[], by decide⟩

def LocalOverlay.get? (overlay : LocalOverlay) (key : Text) : Option (Sourced Text) :=
  overlay.values.get? key

theorem LocalOverlay.get?_of_not_allowed {key : Text} (h : overlayKeyAllowed key = false)
    (overlay : LocalOverlay) : overlay.get? key = none := by
  apply (Dict.get?_eq_none_iff _ _).mpr
  intro hMem
  rw [overlay.allowed key hMem] at h
  cases h

theorem LocalOverlay.allowed_set {overlay : LocalOverlay} {key : Text}
    (h : overlayKeyAllowed key = true) (value : Sourced Text) :
    ∀ name ∈ Dict.keys (overlay.values.set key value), overlayKeyAllowed name = true := by
  intro name hName
  rcases (Dict.mem_keys_set _ _ _ _).mp hName with rfl | hOld
  · exact h
  · exact overlay.allowed name hOld

def LocalOverlay.set (overlay : LocalOverlay) (key : Text) (value : Sourced Text)
    (h : overlayKeyAllowed key = true) : LocalOverlay :=
  ⟨overlay.values.set key value, overlay.allowed_set h value⟩

def readLeaf (file : Text) (hFile : file ≠ []) (overlay : LocalOverlay) (leaf : Text × TomlScalar) :
    Reported ConfigProblem LocalOverlay :=
  let origin : Origin :=
    { file := file
      key := leaf.1
      file_ne := hFile }
  if h : overlayKeyAllowed leaf.1 = true then
    match leaf.2 with
    | .text value => pure (overlay.set leaf.1 ⟨value, origin⟩ h)
    | .other typeName => do
      Reported.report
        { message := leaf.1 ++ py " must be a path, not " ++ typeName
          origin := origin }
      pure overlay
  else do
    Reported.report
      { message := py "a local overlay may only adjust paths"
        origin := origin
        hint := some (py "allowed: " ++ join (py ", ") localOverlayAllowlist)
        message_ne := by decide }
    pure overlay

/-- `read_local`, on a document that parsed. -/
def readLocal (document : List (Text × Toml)) (file : Text) (hFile : file ≠ []) :
    Except (List ConfigProblem) LocalOverlay :=
  ((overlayLeaves [] document).foldlM (readLeaf file hFile) LocalOverlay.empty).collect

end Ici

/-! ## Declared paths, source globs and executables

A declared path is anchored to the directory of the file that declared it, a source glob to the
root of its component; an executable is looked up or anchored like a declared path. -/

namespace Ici

open List Python

abbrev Environment := Dict Text Text

/-! ## Environment references -/

def isNameStart (c : CodePoint) : Bool :=
  (0x41 ≤ c.val && c.val ≤ 0x5a) || (0x61 ≤ c.val && c.val ≤ 0x7a) || c.val == 0x5f

def isNameCode (c : CodePoint) : Bool := isNameStart c || (0x30 ≤ c.val && c.val ≤ 0x39)

/-- The name in a `${env:NAME}` at the front of a text, and what follows it. -/
def environmentReference (t : Text) : Option (Text × Text) :=
  let name := (t.drop 6).takeWhile isNameCode
  let rest := (t.drop 6).dropWhile isNameCode
  if t.take 6 = py "$\x7benv:" ∧ name.head?.any isNameStart ∧ rest.head? = some 0x7d then
    some (name, rest.drop 1)
  else none

def replaceReference (origin : Origin) (environment : Environment) (name : Text) :
    Reported ConfigProblem Text :=
  match environment.get? name with
  | some value => pure value
  | none => do
    Reported.report
      { message := py "environment variable " ++ name ++ py " is not set"
        origin := origin
        hint := some (py "set it, or write the path literally") }
    pure (py "$\x7benv:" ++ name ++ py "\x7d")

def substituteFrom (origin : Origin) (environment : Environment) : ℕ → Text → Reported ConfigProblem Text
  | 0, t => pure t
  | _, [] => pure []
  | fuel + 1, c :: rest =>
    match environmentReference (c :: rest) with
    | none => do
      let later ← substituteFrom origin environment fuel rest
      pure (c :: later)
    | some (name, left) => do
      let value ← replaceReference origin environment name
      let later ← substituteFrom origin environment fuel left
      pure (value ++ later)

def substituteEnvironment (raw : Text) (origin : Origin) (environment : Environment) :
    Reported ConfigProblem Text :=
  substituteFrom origin environment raw.length raw

theorem environmentReference_of_ne {c : CodePoint} (h : c ≠ 0x24) (rest : Text) :
    environmentReference (c :: rest) = none := by
  have hFront : (c :: rest).take 6 ≠ py "$\x7benv:" := by
    intro hTake
    rw [take_succ_cons] at hTake
    exact h (cons.inj hTake).1
  rw [environmentReference, if_neg fun hAll => hFront hAll.1]

section

variable {front : Text} (h : 0x24 ∉ front) (origin : Origin) (environment : Environment)
include h

theorem substituteFrom_append (fuel : ℕ) (raw : Text) :
    substituteFrom origin environment (front.length + fuel) (front ++ raw) =
      { value := front ++ (substituteFrom origin environment fuel raw).value
        reports := (substituteFrom origin environment fuel raw).reports } := by
  induction front with
  | nil => rw [length_nil, Nat.zero_add, nil_append, nil_append]
  | cons c front ih =>
    obtain ⟨hc, hFront⟩ := not_or.mp (mt mem_cons.mpr h)
    have hStep := ih hFront
    rw [length_cons, Nat.add_right_comm, cons_append, substituteFrom,
      environmentReference_of_ne (Ne.symm hc), hStep]
    simp only [bind, pure, append_nil, cons_append]

theorem substituteEnvironment_append (raw : Text) :
    substituteEnvironment (front ++ raw) origin environment =
      { value := front ++ (substituteEnvironment raw origin environment).value
        reports := (substituteEnvironment raw origin environment).reports } := by
  rw [substituteEnvironment, length_append, substituteFrom_append h]
  rfl

end

theorem substituteFrom_origin (origin origin' : Origin) (environment : Environment) (fuel : ℕ) (raw : Text) :
    (substituteFrom origin environment fuel raw).value =
        (substituteFrom origin' environment fuel raw).value ∧
      ((substituteFrom origin environment fuel raw).reports = [] ↔
        (substituteFrom origin' environment fuel raw).reports = []) := by
  induction fuel generalizing raw with
  | zero => exact ⟨rfl, Iff.rfl⟩
  | succ fuel ih =>
    cases raw with
    | nil => exact ⟨rfl, Iff.rfl⟩
    | cons c rest =>
      rw [substituteFrom, substituteFrom]
      split
      · obtain ⟨hValue, hReports⟩ := ih rest
        simp only [Reported.value_bind, Reported.reports_bind, Reported.value_pure,
          Reported.reports_pure, append_nil, hValue, hReports, and_self]
      · rename_i name left _
        obtain ⟨hValue, hReports⟩ := ih left
        unfold replaceReference
        cases environment.get? name with
        | none =>
          simp only [Reported.value_bind, Reported.reports_bind, Reported.value_pure, Reported.reports_pure,
            Reported.reports_report, hValue, cons_append, reduceCtorEq, and_self]
        | some value =>
          simp only [Reported.value_bind, Reported.reports_bind, Reported.value_pure,
            Reported.reports_pure, append_nil, nil_append, hValue, hReports, and_self]

theorem substituteEnvironment_origin (raw : Text) (origin origin' : Origin) (environment : Environment) :
    (substituteEnvironment raw origin environment).value =
        (substituteEnvironment raw origin' environment).value ∧
      ((substituteEnvironment raw origin environment).reports = [] ↔
        (substituteEnvironment raw origin' environment).reports = []) :=
  substituteFrom_origin origin origin' environment raw.length raw

/-- A step of `_normalise`. The root that keeps a `..` is the single slash only. -/
def normaliseStep (parts : List Text) (part : Text) : List Text :=
  if part = py "." then parts
  else if part = py ".." ∧ parts ≠ [] ∧ parts.getLast?.all fun last => last ≠ py ".." ∧ last ≠ py "/" then
    parts.dropLast
  else parts ++ [part]

def normalise (path : PurePath) : PurePath := PurePath.ofSegments (path.parts.foldl normaliseStep [])

abbrev AbsolutePath := { path : PurePath // path.isAbsolute = true }

theorem isAbsolute_join_slash (path : PurePath) :
    ((PurePath.parse (py "/")).join path).isAbsolute = true := by
  unfold PurePath.join
  split
  · assumption
  · rfl

/-- `_virtual`: an absolute spelling of a possibly relative path. -/
def virtualPath (path : PurePath) : AbsolutePath :=
  if h : path.isAbsolute then ⟨path, h⟩
  else ⟨(PurePath.parse (py "/")).join path, isAbsolute_join_slash path⟩

def declaringDirectory (file : Text) : AbsolutePath := virtualPath (PurePath.parse file).parent

structure DeclaredPath where
  raw : Text
  origin : Origin
deriving DecidableEq

def DeclaredPath.resolve (path : DeclaredPath) (directory : AbsolutePath) (environment : Environment) :
    Reported ConfigProblem PurePath := do
  let substituted ← substituteEnvironment path.raw path.origin environment
  let candidate := PurePath.parse substituted
  if candidate.isAbsolute then
    Reported.report
      { message := py "an absolute path is not portable between checkouts"
        origin := path.origin
        hint := some (py "write it relative to this file, or use $\x7benv:NAME\x7d") }
    pure candidate
  else pure (normalise (directory.val.join candidate))

structure SourceGlob where
  raw : Text
  origin : Origin
  raw_ne : raw ≠ []
deriving DecidableEq

def SourceGlob.resolve (glob : SourceGlob) (componentRoot : PurePath) : Text :=
  if PurePosixPath.isAbsolute glob.raw then glob.raw
  else (normalise (componentRoot.join (PurePath.parse glob.raw))).asPosix

structure Executable where
  raw : Text
  origin : Origin
  raw_ne : raw ≠ []
deriving DecidableEq

def Executable.searchesPath (executable : Executable) : Bool := 0x2f ∉ executable.raw

end Ici
