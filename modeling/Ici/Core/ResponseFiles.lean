import Ici.Core.CompileCommands
import Ici.Library.Dict
import Ici.Library.PurePaths
import Ici.Library.Utf8

/-! # Response files of a compiler command

`_compile_db_commands` from `_scoped_path` on. A reference is replaced by the arguments of its file,
which are read once and may refer to other files in turn; what cannot be replaced leaves a diagnostic.
Paths, the file system and `shlex` are parameters. -/

namespace Ici.CompileCommands

open List hiding splitOn
open Raising Python

structure CompilationDiagnostic where
  code : Text
  message : Text
  level : Text
deriving DecidableEq

structure RowError where
  code : Text
  message : Text
deriving DecidableEq

structure CommandLimits where
  maxArguments : ℕ
  maxArgumentChars : ℕ
  maxResponseFileBytes : ℕ
  maxResponseFileTotalBytes : ℕ
  maxResponseFileDepth : ℕ

/-- What `_read_bounded_regular` does with a path: it raises `FileNotFoundError`, raises a `_ReadError`
or returns the bytes. -/
inductive ReadOutcome where
  | missing
  | failed (code : Text)
  | content (encoded : List UInt8)

structure Platform (P : Type) where
  /-- `os.name == "nt"`. -/
  nt : Bool
  windowsDrive : Text → Text
  joined : P → Text → P
  resolve : P → Option P
  /-- `path.relative_to(root).as_posix()`, where it does not raise. -/
  relativeTo : P → P → Option Text
  asPosix : P → Text
  parent : P → P
  readBoundedRegular : P → ℕ → P → ReadOutcome
  shlexSplit : Text → Result (List Text)

def responseDiagnostic (code message : Text) : CompilationDiagnostic := ⟨code, message, py "error"⟩

def project : Text := py "project"

def isReference (token : Text) : Bool := token.head? = some 0x40

/-- What the expansion of one row has used so far, and the files that were read. -/
structure Expanding (P : Type) where
  byteBudget : ℕ
  characterBudget : ℕ
  responseCache : Dict P (List Text × Option CompilationDiagnostic)

section Expansion

variable {P : Type} [DecidableEq P] (platform : Platform P) (limits : CommandLimits) (root : P)

def relativeText (path : P) : Option Text :=
  (platform.relativeTo path root).map fun relative => if relative = [] then py "." else relative

def scopedPath (base : P) (value : Text) : Except RowError (Text × Text × P) :=
  if !platform.nt && (0x5c ∈ value || platform.windowsDrive value ≠ []) then
    .error ⟨py "foreign-path-syntax", py "A compilation path uses foreign platform syntax."⟩
  else
    match platform.resolve (platform.joined base value) with
    | none => .error ⟨py "invalid-path", py "A compilation path could not be resolved."⟩
    | some resolved =>
      match relativeText platform root resolved with
      | none => .ok (platform.asPosix resolved, py "external", resolved)
      | some relative => .ok (relative, project, resolved)

def tokenizeResponseFile (encoded : List UInt8) : Except RowError (List Text) :=
  match decodeUtf8 encoded >>= fun text =>
    if platform.nt then splitWindowsCommand text else platform.shlexSplit text with
  | .error _ => .error ⟨py "response-file-malformed",
      py "A compiler response file could not be decoded safely."⟩
  | .ok values =>
    if limits.maxArguments < values.length ∨ (∃ value ∈ values, value = [] ∨ 0 ∈ value) ∨
        limits.maxArgumentChars < (values.map List.length).sum then
      .error ⟨py "response-file-malformed",
        py "A compiler response file contains invalid or excessive arguments."⟩
    else .ok values

/-- A file that is not in the cache: its arguments or the diagnostic, and the bytes used with it. -/
def readResponse (resolved : P) (byteBudget : ℕ) : (List Text × Option CompilationDiagnostic) × ℕ :=
  match platform.readBoundedRegular resolved limits.maxResponseFileBytes root with
  | .missing =>
    (([], some (responseDiagnostic (py "response-file-missing")
      (py "A compiler response file does not exist."))), byteBudget)
  | .failed code =>
    (([], some (responseDiagnostic (py "response-file-" ++ code)
      (py "A compiler response file could not be read safely."))), byteBudget)
  | .content encoded =>
    let byteBudget := byteBudget + encoded.length
    if limits.maxResponseFileTotalBytes < byteBudget then
      (([], some (responseDiagnostic (py "response-file-too-large")
        (py "A compiler response file could not be read safely."))), byteBudget)
    else
      match tokenizeResponseFile platform limits encoded with
      | .error err => (([], some (responseDiagnostic err.code err.message)), byteBudget)
      | .ok values => ((values, none), byteBudget)

def loadResponseTokens (resolved : P) (state : Expanding P) :
    (List Text × Option CompilationDiagnostic) × Expanding P :=
  match state.responseCache.get? resolved with
  | some cached => (cached, state)
  | none =>
    let (result, byteBudget) := readResponse platform limits root resolved state.byteBudget
    (result, { state with byteBudget, responseCache := state.responseCache.set resolved result })

/-! ## Expansion -/

/-- The checks of `_expand_response_token` before the file is read. -/
def responsePath (depth : ℕ) (active : List P) (directory : P) (token : Text) :
    Except CompilationDiagnostic P :=
  if token = py "@" then
    .error (responseDiagnostic (py "response-file-invalid")
      (py "A compiler response-file token has no path."))
  else if limits.maxResponseFileDepth ≤ depth then
    .error (responseDiagnostic (py "response-file-depth")
      (py "Compiler response-file nesting exceeds the bounded depth."))
  else
    match scopedPath platform root directory token.tail with
    | .error err => .error (responseDiagnostic err.code err.message)
    | .ok (_, scope, resolved) =>
      if scope ≠ project then
        .error (responseDiagnostic (py "response-file-outside-project")
          (py "A compiler response file resolves outside the project."))
      else if resolved ∈ active then
        .error (responseDiagnostic (py "response-file-cycle")
          (py "Compiler response files contain a recursive cycle."))
      else .ok resolved

variable {token : Text} {loaded : P → List Text × Option CompilationDiagnostic}

variable {platform limits root} in
theorem depth_lt_of_responsePath {depth : ℕ} {active : List P} {directory resolved : P}
    (h : responsePath platform limits root depth active directory token = .ok resolved) :
    depth < limits.maxResponseFileDepth := by
  unfold responsePath at h
  split at h
  · cases h
  · split at h
    · cases h
    · omega

def tooManyCharacters : RowError :=
  ⟨py "invalid-arguments", py "Expanded compilation arguments exceed the bounded character count."⟩

def tooManyArguments : RowError :=
  ⟨py "invalid-arguments", py "Expanded compilation arguments exceed the bounded count."⟩

abbrev Expansion (P : Type) := List Text × List CompilationDiagnostic × Expanding P

def appendPlainArgument (expansion : Expansion P) (token : Text) : Except RowError (Expansion P) :=
  let (expanded, diagnostics, state) := expansion
  let characterBudget := state.characterBudget + token.length
  if limits.maxArgumentChars < characterBudget then .error tooManyCharacters
  else .ok (expanded ++ [token], diagnostics, { state with characterBudget })

/-- `expanded.extend` and `diagnostics.extend`. -/
def extended (expansion nested : Expansion P) : Expansion P :=
  (expansion.1 ++ nested.1, expansion.2.1 ++ nested.2.1, nested.2.2)

def checkCount (expansion : Expansion P) : Except RowError (Expansion P) :=
  if limits.maxArguments < expansion.1.length then .error tooManyArguments else .ok expansion

mutual

def expandResponseToken (depth : ℕ) (active : List P) (directory : P) (token : Text)
    (state : Expanding P) : Except RowError (Expansion P) :=
  match _h : responsePath platform limits root depth active directory token with
  | .error diagnostic => .ok ([], [diagnostic], state)
  | .ok resolved =>
    match loadResponseTokens platform limits root resolved state with
    | ((_, some diagnostic), state) => .ok ([], [diagnostic], state)
    | ((nested, none), state) =>
      expandResponseFiles (depth + 1) (active ++ [resolved]) (platform.parent resolved) nested state
termination_by 2 * (limits.maxResponseFileDepth - depth)
decreasing_by
  have hDepth := depth_lt_of_responsePath _h
  omega

def expandResponseFiles (depth : ℕ) (active : List P) (directory : P) (argv : List Text)
    (state : Expanding P) : Except RowError (Expansion P) :=
  argv.foldlM (fun expansion token =>
    (if isReference token then
      (expandResponseToken depth active directory token expansion.2.2).map (extended expansion)
    else appendPlainArgument limits expansion token) >>= checkCount limits) ([], [], state)
termination_by 2 * (limits.maxResponseFileDepth - depth) + 1

end

/-! ## What a command line stands for -/

/-- Every reference replaced by the arguments that its file was loaded with, or by the diagnostic. -/
def inPlace (loaded : P → List Text × Option CompilationDiagnostic) (depth : ℕ) (active : List P)
    (directory : P) (argv : List Text) : List (Text ⊕ CompilationDiagnostic) :=
  argv.flatMap fun token =>
    if isReference token then
      match _h : responsePath platform limits root depth active directory token with
      | .error diagnostic => [.inr diagnostic]
      | .ok resolved =>
        match loaded resolved with
        | (_, some diagnostic) => [.inr diagnostic]
        | (nested, none) =>
          inPlace loaded (depth + 1) (active ++ [resolved]) (platform.parent resolved) nested
    else [.inl token]
termination_by limits.maxResponseFileDepth - depth
decreasing_by
  have hDepth := depth_lt_of_responsePath _h
  omega

def arguments (items : List (Text ⊕ CompilationDiagnostic)) : List Text := items.filterMap Sum.getLeft?

def reported (items : List (Text ⊕ CompilationDiagnostic)) : List CompilationDiagnostic :=
  items.filterMap Sum.getRight?

def Agrees (loaded : P → List Text × Option CompilationDiagnostic)
    (cache : Dict P (List Text × Option CompilationDiagnostic)) : Prop :=
  ∀ path result, cache.get? path = some result → loaded path = result

/-- The cache holds what reading the files gives, whatever was read before each. -/
def Truthful (cache : Dict P (List Text × Option CompilationDiagnostic)) : Prop :=
  ∀ path result, cache.get? path = some result →
    ∃ byteBudget, result = (readResponse platform limits root path byteBudget).1

structure Expands (depth : ℕ) (active : List P) (directory : P) (argv : List Text) (state : Expanding P)
    (expansion : Expansion P) : Prop where
  arguments_eq : ∀ loaded, Agrees loaded expansion.2.2.responseCache → expansion.1 =
    arguments (inPlace platform limits root loaded depth active directory argv)
  reported_eq : ∀ loaded, Agrees loaded expansion.2.2.responseCache → expansion.2.1 =
    reported (inPlace platform limits root loaded depth active directory argv)
  plain : ∀ token ∈ expansion.1, isReference token = false
  characters : expansion.2.2.characterBudget = state.characterBudget + (expansion.1.map List.length).sum
  within : state.characterBudget ≤ limits.maxArgumentChars →
    expansion.2.2.characterBudget ≤ limits.maxArgumentChars
  kept : ∀ path result, state.responseCache.get? path = some result →
    expansion.2.2.responseCache.get? path = some result
  truthful : Truthful platform limits root state.responseCache →
    Truthful platform limits root expansion.2.2.responseCache

variable {platform limits root}

theorem inPlace_append (loaded : P → List Text × Option CompilationDiagnostic) (depth : ℕ)
    (active : List P) (directory : P) (front rest : List Text) :
    inPlace platform limits root loaded depth active directory (front ++ rest) =
      inPlace platform limits root loaded depth active directory front ++
        inPlace platform limits root loaded depth active directory rest := by
  rw [inPlace, inPlace, inPlace, flatMap_append]

variable {depth : ℕ} {active : List P} {directory : P}

theorem inPlace_plain (h : isReference token = false) :
    inPlace platform limits root loaded depth active directory [token] = [.inl token] := by
  rw [inPlace]
  simp [h]

theorem inPlace_reference (h : isReference token = true) :
    inPlace platform limits root loaded depth active directory [token] =
      match responsePath platform limits root depth active directory token with
      | .error diagnostic => [.inr diagnostic]
      | .ok resolved =>
        match loaded resolved with
        | (_, some diagnostic) => [.inr diagnostic]
        | (nested, none) => inPlace platform limits root loaded (depth + 1) (active ++ [resolved])
          (platform.parent resolved) nested := by
  rw [inPlace]
  simp only [flatMap_cons, flatMap_nil, append_nil, h, if_true]
  split <;> rename_i hPath <;> rw [hPath]

theorem Agrees.of_kept {cache cache' : Dict P (List Text × Option CompilationDiagnostic)}
    (hKept : ∀ path result, cache.get? path = some result → cache'.get? path = some result)
    (h : Agrees loaded cache') : Agrees loaded cache := fun path result hGet =>
  h path result (hKept path result hGet)

theorem loadResponseTokens_eq {resolved : P} {state state' : Expanding P}
    {result : List Text × Option CompilationDiagnostic}
    (h : loadResponseTokens platform limits root resolved state = (result, state')) :
    state'.responseCache.get? resolved = some result ∧ state'.characterBudget = state.characterBudget ∧
      (∀ path result, state.responseCache.get? path = some result →
        state'.responseCache.get? path = some result) ∧
      (Truthful platform limits root state.responseCache →
        Truthful platform limits root state'.responseCache) := by
  unfold loadResponseTokens at h
  cases hCached : state.responseCache.get? resolved with
  | some cached =>
    rw [hCached] at h
    cases h
    exact ⟨hCached, rfl, fun _ _ => id, id⟩
  | none =>
    rw [hCached] at h
    cases h
    refine ⟨by rw [Dict.get?_set, if_pos rfl], rfl, fun path result hGet => ?_,
      fun hTrue path result hGet => ?_⟩
    · have hOther : resolved ≠ path := by
        rintro rfl
        rw [hCached] at hGet
        cases hGet
      dsimp only
      rw [Dict.get?_set, if_neg hOther, hGet]
    · dsimp only at hGet
      rw [Dict.get?_set] at hGet
      split at hGet
      · rename_i hSame
        subst hSame
        cases hGet
        exact ⟨_, rfl⟩
      · exact hTrue path result hGet

section Steps

variable {depth : ℕ} {active : List P} {directory : P}

theorem expands_nil (state : Expanding P) :
    Expands platform limits root depth active directory [] state ([], [], state) where
  arguments_eq loaded _ := by
    rw [inPlace]
    rfl
  reported_eq loaded _ := by
    rw [inPlace]
    rfl
  plain := nofun
  characters := rfl
  within := id
  kept _ _ := id
  truthful := id

variable {front : List Text} {state state' : Expanding P} {token : Text} {expansion : Expansion P}

theorem Expands.append {rest values values' : List Text} {found found' : List CompilationDiagnostic}
    {state'' : Expanding P}
    (hFront : Expands platform limits root depth active directory front state (values, found, state'))
    (hRest : Expands platform limits root depth active directory rest state' (values', found', state'')) :
    Expands platform limits root depth active directory (front ++ rest) state
      (values ++ values', found ++ found', state'') where
  arguments_eq loaded hLoaded := by
    have hEarlier : Agrees loaded state'.responseCache := hLoaded.of_kept hRest.kept
    have hBefore := hFront.arguments_eq loaded hEarlier
    have hAfter := hRest.arguments_eq loaded hLoaded
    dsimp only at hBefore hAfter ⊢
    rw [hBefore, hAfter, inPlace_append, arguments, arguments, arguments, filterMap_append]
  reported_eq loaded hLoaded := by
    have hEarlier : Agrees loaded state'.responseCache := hLoaded.of_kept hRest.kept
    have hBefore := hFront.reported_eq loaded hEarlier
    have hAfter := hRest.reported_eq loaded hLoaded
    dsimp only at hBefore hAfter ⊢
    rw [hBefore, hAfter, inPlace_append, reported, reported, reported, filterMap_append]
  plain token hToken := by
    rcases mem_append.mp hToken with hBefore | hAfter
    · exact hFront.plain token hBefore
    · exact hRest.plain token hAfter
  characters := by
    have hBefore := hFront.characters
    have hAfter := hRest.characters
    dsimp only at hBefore hAfter ⊢
    rw [map_append, sum_append]
    omega
  within hWithin := hRest.within (hFront.within hWithin)
  kept path result hGet := hRest.kept path result (hFront.kept path result hGet)
  truthful hTrue := hRest.truthful (hFront.truthful hTrue)

theorem expands_diagnostic {diagnostic : CompilationDiagnostic}
    (hItems : ∀ loaded, Agrees loaded state'.responseCache →
      inPlace platform limits root loaded depth active directory [token] = [.inr diagnostic])
    (hCharacters : state'.characterBudget = state.characterBudget)
    (hKept : ∀ path result, state.responseCache.get? path = some result →
      state'.responseCache.get? path = some result)
    (hTrue : Truthful platform limits root state.responseCache →
      Truthful platform limits root state'.responseCache) :
    Expands platform limits root depth active directory [token] state ([], [diagnostic], state') where
  arguments_eq loaded hLoaded := by
    rw [hItems loaded hLoaded]
    rfl
  reported_eq loaded hLoaded := by
    rw [hItems loaded hLoaded]
    rfl
  plain := nofun
  characters := hCharacters
  within hWithin := hCharacters.trans_le hWithin
  kept := hKept
  truthful := hTrue

def IsSound (platform : Platform P) (limits : CommandLimits) (root : P) (depth : ℕ) (active : List P)
    (directory : P) (argv : List Text) (state : Expanding P) : Except RowError (Expansion P) → Prop
  | .error error => error = tooManyCharacters ∨ error = tooManyArguments
  | .ok expansion => Expands platform limits root depth active directory argv state expansion

def SoundAt (platform : Platform P) (limits : CommandLimits) (root : P) (depth : ℕ) : Prop :=
  ∀ active directory argv state, IsSound platform limits root depth active directory argv state
    (expandResponseFiles platform limits root depth active directory argv state)

theorem appendPlainArgument_sound {values : List Text} {found : List CompilationDiagnostic}
    (hToken : isReference token = false)
    (h : Expands platform limits root depth active directory front state (values, found, state')) :
    IsSound platform limits root depth active directory (front ++ [token]) state
      (appendPlainArgument limits (values, found, state') token) := by
  unfold appendPlainArgument
  dsimp only
  split
  · exact .inl rfl
  · rename_i hRoom
    have hOne : Expands platform limits root depth active directory [token] state'
        ([token], [], { state' with characterBudget := state'.characterBudget + token.length }) := {
      arguments_eq := fun loaded _ => by
        rw [inPlace_plain hToken]
        rfl
      reported_eq := fun loaded _ => by
        rw [inPlace_plain hToken]
        rfl
      plain := fun other hOther => by
        obtain rfl := mem_singleton.mp hOther
        exact hToken
      characters := by simp
      within := fun _ => by
        dsimp only
        omega
      kept := fun _ _ => id
      truthful := id }
    have hBoth := h.append hOne
    rwa [append_nil] at hBoth

theorem expandResponseToken_sound (hToken : isReference token = true)
    (hDeeper : depth < limits.maxResponseFileDepth → SoundAt platform limits root (depth + 1)) :
    IsSound platform limits root depth active directory [token] state
      (expandResponseToken platform limits root depth active directory token state) := by
  rw [expandResponseToken]
  split
  · rename_i diagnostic hPath
    apply expands_diagnostic
    · intro loaded _
      rw [inPlace_reference hToken, hPath]
    · rfl
    · exact fun _ _ => id
    · exact id
  · rename_i resolved hPath
    have hDepth := depth_lt_of_responsePath hPath
    split
    · rename_i unused diagnostic state' hLoad
      obtain ⟨hGet, hCharacters, hKept, hTrue⟩ := loadResponseTokens_eq hLoad
      apply expands_diagnostic
      · intro loaded hLoaded
        rw [inPlace_reference hToken, hPath]
        dsimp only
        rw [hLoaded _ _ hGet]
      · exact hCharacters
      · exact hKept
      · exact hTrue
    · rename_i nested state' hLoad
      obtain ⟨hGet, hCharacters, hKept, hTrue⟩ := loadResponseTokens_eq hLoad
      have hNested := hDeeper hDepth (active ++ [resolved]) (platform.parent resolved) nested state'
      have hItems : ∀ loaded, loaded resolved = (nested, none) →
          inPlace platform limits root loaded depth active directory [token] =
            inPlace platform limits root loaded (depth + 1) (active ++ [resolved])
              (platform.parent resolved) nested := by
        intro loaded hLoaded
        rw [inPlace_reference hToken, hPath]
        dsimp only
        rw [hLoaded]
      cases hResult : expandResponseFiles platform limits root (depth + 1) (active ++ [resolved])
          (platform.parent resolved) nested state' with
      | error error =>
        rw [hResult] at hNested
        exact hNested
      | ok expansion =>
        rw [hResult] at hNested
        have hInside : Expands platform limits root (depth + 1) (active ++ [resolved])
          (platform.parent resolved) nested state' expansion := hNested
        have hEnd : ∀ loaded, Agrees loaded expansion.2.2.responseCache → loaded resolved = (nested, none) :=
          fun loaded hLoaded => hLoaded _ _ (hInside.kept _ _ hGet)
        exact {
          arguments_eq := fun loaded hLoaded => by
            rw [hItems loaded (hEnd loaded hLoaded)]
            exact hInside.arguments_eq loaded hLoaded
          reported_eq := fun loaded hLoaded => by
            rw [hItems loaded (hEnd loaded hLoaded)]
            exact hInside.reported_eq loaded hLoaded
          plain := hInside.plain
          characters := by rw [hInside.characters, hCharacters]
          within := fun hWithin => hInside.within (hCharacters.trans_le hWithin)
          kept := fun path result h => hInside.kept path result (hKept path result h)
          truthful := fun h => hInside.truthful (hTrue h) }

/-- One turn of the loop of `_expand_response_files`, before the count is checked. -/
def expandArgument (platform : Platform P) (limits : CommandLimits) (root : P) (depth : ℕ) (active : List P)
    (directory : P) (expansion : Expansion P) (token : Text) : Except RowError (Expansion P) :=
  if isReference token then
    (expandResponseToken platform limits root depth active directory token expansion.2.2).map
      (extended expansion)
  else appendPlainArgument limits expansion token

def expandTurn (platform : Platform P) (limits : CommandLimits) (root : P) (depth : ℕ) (active : List P)
    (directory : P) (expansion : Expansion P) (token : Text) : Except RowError (Expansion P) :=
  expandArgument platform limits root depth active directory expansion token >>= checkCount limits

theorem expandResponseFiles_eq (argv : List Text) (state : Expanding P) :
    expandResponseFiles platform limits root depth active directory argv state =
      argv.foldlM (expandTurn platform limits root depth active directory) ([], [], state) := by
  rw [expandResponseFiles]
  rfl

section

variable (token : Text)
  (hDeeper : depth < limits.maxResponseFileDepth → SoundAt platform limits root (depth + 1))
  (h : Expands platform limits root depth active directory front state expansion)
include hDeeper h

theorem expandArgument_sound : IsSound platform limits root depth active directory (front ++ [token]) state
      (expandArgument platform limits root depth active directory expansion token) := by
  obtain ⟨values, found, state'⟩ := expansion
  unfold expandArgument
  split
  · rename_i hReference
    have hOne : IsSound platform limits root depth active directory [token] state'
        (expandResponseToken platform limits root depth active directory token state') :=
      expandResponseToken_sound hReference hDeeper
    cases hResult : expandResponseToken platform limits root depth active directory token state' with
    | error error =>
      rw [hResult] at hOne
      exact hOne
    | ok expansion =>
      rw [hResult] at hOne
      exact h.append hOne
  · rename_i hPlain
    exact appendPlainArgument_sound (Bool.eq_false_iff.mpr hPlain) h

theorem expandTurn_sound : IsSound platform limits root depth active directory (front ++ [token]) state
      (expandTurn platform limits root depth active directory expansion token) := by
  have hToken := expandArgument_sound token hDeeper h
  unfold expandTurn
  cases hResult : expandArgument platform limits root depth active directory expansion token with
  | error error =>
    rw [hResult] at hToken
    exact hToken
  | ok expansion =>
    rw [hResult] at hToken
    dsimp only [bind, Except.bind, checkCount]
    split
    · exact .inr rfl
    · exact hToken

end

theorem foldlM_expandTurn_sound {argv : List Text}
    (hDeeper : depth < limits.maxResponseFileDepth → SoundAt platform limits root (depth + 1))
    (h : Expands platform limits root depth active directory front state expansion) :
    IsSound platform limits root depth active directory (front ++ argv) state
      (argv.foldlM (expandTurn platform limits root depth active directory) expansion) := by
  induction argv generalizing front expansion with
  | nil =>
    rw [append_nil]
    exact h
  | cons token rest ih =>
    have hTurn := expandTurn_sound token hDeeper h
    rw [foldlM_cons]
    cases hResult : expandTurn platform limits root depth active directory expansion token with
    | error error =>
      rw [hResult] at hTurn
      exact hTurn
    | ok expansion' =>
      rw [hResult] at hTurn
      have hRest := ih hTurn
      rwa [append_assoc, singleton_append] at hRest

end Steps

theorem expandResponseFiles_sound (platform : Platform P) (limits : CommandLimits) (root : P) (depth : ℕ) :
    SoundAt platform limits root depth := by
  generalize hLeft : limits.maxResponseFileDepth - depth = left
  induction left generalizing depth with
  | zero =>
    intro active directory argv state
    rw [expandResponseFiles_eq]
    exact foldlM_expandTurn_sound (fun hDepth => by omega) (expands_nil state)
  | succ left ih =>
    intro active directory argv state
    rw [expandResponseFiles_eq]
    exact foldlM_expandTurn_sound (fun _ => ih (depth + 1) (by omega)) (expands_nil state)

theorem length_expandResponseFiles {depth : ℕ} {active : List P} {directory : P} {argv : List Text}
    {state : Expanding P} {expansion : Expansion P}
    (h : expandResponseFiles platform limits root depth active directory argv state = .ok expansion) :
    expansion.1.length ≤ limits.maxArguments := by
  rw [expandResponseFiles_eq] at h
  refine foldlM_invariant (fun expansion : Expansion P => expansion.1.length ≤ limits.maxArguments)
    ?_ (Nat.zero_le _) h
  intro before token after _ _ hTurn
  obtain ⟨turned, -, hCheck⟩ := bind_eq_ok.mp hTurn
  unfold checkCount at hCheck
  split at hCheck
  · cases hCheck
  · cases hCheck
    omega

/-- An error is one of the two limits. Arguments that are returned are within both, none is a
reference, and they are those of the command line and of its files in place. -/
def IsBounded (platform : Platform P) (limits : CommandLimits) (root directory : P) (argv : List Text) :
    Except RowError (Expansion P) → Prop
  | .error error => error = tooManyCharacters ∨ error = tooManyArguments
  | .ok (expanded, diagnostics, _) =>
    expanded.length ≤ limits.maxArguments ∧ (expanded.map List.length).sum ≤ limits.maxArgumentChars ∧
    (∀ token ∈ expanded, isReference token = false) ∧
    ∃ loaded : P → List Text × Option CompilationDiagnostic,
      (∀ path, ∃ byteBudget, loaded path = (readResponse platform limits root path byteBudget).1) ∧
      expanded = arguments (inPlace platform limits root loaded 0 [] directory argv) ∧
      diagnostics = reported (inPlace platform limits root loaded 0 [] directory argv)

/-- Every expansion ends, from whatever the rows before have read. -/
theorem expandResponseFiles_bounded (directory : P) (argv : List Text) {state : Expanding P}
    (hFresh : state.characterBudget = 0) (hCache : Truthful platform limits root state.responseCache) :
    IsBounded platform limits root directory argv
      (expandResponseFiles platform limits root 0 [] directory argv state) := by
  have hSound := expandResponseFiles_sound platform limits root 0 [] directory argv state
  cases hResult : expandResponseFiles platform limits root 0 [] directory argv state with
  | error error =>
    rw [hResult] at hSound
    exact hSound
  | ok expansion =>
    rw [hResult] at hSound
    have hLength := length_expandResponseFiles hResult
    obtain ⟨expanded, diagnostics, state'⟩ := expansion
    have hExpands : Expands platform limits root 0 [] directory argv state (expanded, diagnostics, state') :=
      hSound
    have hCharacters := hExpands.characters
    have hWithin := hExpands.within (by omega)
    dsimp only at hCharacters hWithin
    have hAgrees : Agrees (fun path => (state'.responseCache.get? path).getD
        (readResponse platform limits root path 0).1) state'.responseCache := by
      intro path result hGet
      dsimp only
      rw [hGet, Option.getD_some]
    refine ⟨hLength, by omega, hExpands.plain, _, fun path => ?_, hExpands.arguments_eq _ hAgrees,
      hExpands.reported_eq _ hAgrees⟩
    cases hGet : state'.responseCache.get? path with
    | none => exact ⟨0, rfl⟩
    | some result => exact hExpands.truthful hCache path result hGet

end Expansion

def ascii (t : Text) : List UInt8 := t.map fun c => UInt8.ofNat c.val

def twoFiles : Platform PurePath where
  nt := false
  windowsDrive _ := []
  joined base value := base.join (.parse value)
  resolve := some
  relativeTo path root := (path.relativeTo root).map PurePath.asPosix
  asPosix := PurePath.asPosix
  parent := PurePath.parent
  readBoundedRegular path _ _ :=
    if path = .parse (py "/p/a.rsp") then .content (ascii (py "-DA @b.rsp -DC"))
    else if path = .parse (py "/p/b.rsp") then .content (ascii (py "@a.rsp -DB"))
    else .missing
  shlexSplit text := .ok (splitOn 0x20 text)

def rowLimits : CommandLimits := ⟨32768, 1048576, 4194304, 4194304, 4⟩

def unread : Expanding PurePath := ⟨0, 0, []⟩

example : (expandResponseFiles twoFiles rowLimits (.parse (py "/p")) 0 [] (.parse (py "/p"))
    [py "cc", py "@a.rsp", py "main.c"] unread).map Prod.fst =
      .ok [py "cc", py "-DA", py "-DB", py "-DC", py "main.c"] := by
  decide +kernel

theorem expandResponseFiles_cycle : IsBounded twoFiles rowLimits (.parse (py "/p")) (.parse (py "/p"))
    [py "cc", py "@a.rsp", py "main.c"] (expandResponseFiles twoFiles rowLimits (.parse (py "/p")) 0 []
      (.parse (py "/p")) [py "cc", py "@a.rsp", py "main.c"] unread) :=
  expandResponseFiles_bounded _ _ rfl nofun

end Ici.CompileCommands
