import Ici.Library.Dict
import Ici.Library.Regex

/-! # Which tool answers a request

The rules are here and the probing is given. A failed explicit choice is not an invitation to choose
something else: it comes out as an `Unresolved`, which does not run. -/

namespace Ici.Toolchain

open Python

inductive Role where
  | projectPython
  | analyzer
  | compiler
  | buildSystem
deriving DecidableEq

inductive Availability where
  | available
  | unavailable
  | unsupported
  | broken
deriving DecidableEq

theorem unavailable_ne_available : Availability.unavailable ≠ .available := nofun

structure ProbeResult where
  exitCode : ℤ
  output : Text := []
  timedOut : Bool := false
  truncated : Bool := false
deriving DecidableEq

def ProbeResult.usable (result : ProbeResult) : Bool :=
  result.exitCode = 0 && !result.timedOut && !result.truncated

abbrev Probe := List Text → ProbeResult

structure SelectionOrigin where
  reason : Text
  source : Text
  configKey : Option Text := none
deriving DecidableEq

structure ResolvedTool where
  role : Role
  name : Text
  launchPath : Text
  identityPath : Text
  origin : SelectionOrigin
  version : Option Text := none
  capabilities : List Text := []
  passedOver : List Text := []
  limits : List Text := []
  launches : launchPath ≠ []
  identified : identityPath ≠ []

structure Unresolved where
  role : Role
  name : Text
  availability : Availability
  origin : SelectionOrigin
  detail : Text
  considered : List Text := []
  refused : availability ≠ .available

inductive Resolution where
  | resolved (tool : ResolvedTool)
  | unresolved (no : Unresolved)

structure Candidate where
  path : Text
  source : Text
  configKey : Option Text := none
  explicit : Bool := false
deriving DecidableEq

structure Request where
  role : Role
  name : Text
  candidates : List Candidate := []
  versionArgv : List Text := [py "--version"]
  minimumVersion : Option (List ℕ) := none
  requiredCapabilities : List Text := []
  capabilityProbes : Dict Text (List Text) := []
  named : name ≠ []

/-- What the resolver asks the file system and the interpreter; nothing is at an empty path. -/
structure Surroundings where
  exists' : Text → Bool
  realpath : Text → Text
  decimal : CodePoint → Option ℕ
  exists_nil : exists' [] = false
  realpath_ne_nil : ∀ path, exists' path = true → realpath path ≠ []

namespace Surroundings

variable (surroundings : Surroundings)

theorem ne_nil_of_exists {path : Text} (h : surroundings.exists' path = true) : path ≠ [] := by
  rintro rfl
  rw [surroundings.exists_nil] at h
  cases h

/-- `(\d+)\.(\d+)(?:\.(\d+))?`. -/
def versionPattern : Pattern :=
  let digits : Pattern := .many (fun c => (surroundings.decimal c).isSome) 1 none true
  let point : Pattern := .one (· == 0x2e)
  .cat (.group 1 digits) (.cat point (.cat (.group 2 digits)
    (.alt (.cat point (.group 3 digits)) .nothing)))

def searchFrom (pattern : Pattern) : Option CodePoint → Text → Option Cursor
  | _, [] => none
  | before, c :: rest =>
    match pattern.matchAt (fun _ => false) before (c :: rest) with
    | some stop => some stop
    | none => searchFrom pattern (some c) rest

def readNumber (part : Text) : Result ℕ :=
  if part.length ≤ maxStrDigits then
    .ok (part.foldl (fun n c => 10 * n + (surroundings.decimal c).getD 0) 0)
  else .error digitLimit

def parseVersion (output : Text) : Result (Option (List ℕ)) :=
  match searchFrom surroundings.versionPattern none output with
  | none => .ok none
  | some stop => (([1, 2, 3].filterMap stop.groupText).mapM surroundings.readNumber).map some

end Surroundings

def render : Option (List ℕ) → Text
  | none => py "an unreadable version"
  | some [] => py "an unreadable version"
  | some version => join (py ".") (version.map natDigits)

/-- `minimum and (version is None or version < minimum)`: tuples are compared as they are. -/
def isBelow (version minimum : Option (List ℕ)) : Bool :=
  match minimum, version with
  | none, _ => false
  | some [], _ => false
  | some _, none => true
  | some minimum, some version => version < minimum

def brokenDetail (result : ProbeResult) : Text :=
  if result.timedOut then py "the version probe timed out"
  else if result.truncated then py "the version probe produced more output than could be read"
  else py "the version probe exited " ++ (if result.exitCode < 0 then py "-" else []) ++
    natDigits result.exitCode.natAbs

/-! ## One candidate -/

inductive Standing where
  | refused (availability : Availability) (detail : Text) (h : availability ≠ .available)
  | accepted (version : Option Text) (capabilities : List Text)

section

variable (surroundings : Surroundings) (probe : Option Probe)

section

variable (ask : Probe) (path : Text) (request : Request)

def checkCapability (capability : Text) : Option Text :=
  match request.capabilityProbes.get? capability with
  | none => some (capability ++ py " (no way to check it was given)")
  | some argv => if (ask (path :: argv)).usable then none else some capability

def missingCapabilities : List Text :=
  request.requiredCapabilities.filterMap (checkCapability ask path request)

def supportedCapabilities : List Text :=
  request.requiredCapabilities.filter fun capability =>
    (checkCapability ask path request capability).isNone

end

/-- What `_resolve_one` makes of the answer to its version probe. -/
def standing (ask : Probe) (request : Request) (path : Text) (result : ProbeResult) : Result Standing :=
  if result.usable = false then .ok (.refused .broken (brokenDetail result) nofun)
  else do
    let version ← surroundings.parseVersion result.output
    if isBelow version request.minimumVersion then
      return .refused .unsupported
        (render version ++ py " is below the required " ++ render request.minimumVersion) nofun
    else if missingCapabilities ask path request ≠ [] then
      return .refused .unsupported
        (py "does not support " ++ join (py ", ") (missingCapabilities ask path request)) nofun
    else
      return .accepted (version.map fun version => render (some version))
        (supportedCapabilities ask path request)

def originOf (request : Request) (candidate : Candidate) : SelectionOrigin where
  reason := request.name ++ py " chosen from " ++ candidate.source
  source := candidate.source
  configKey := candidate.configKey

section

variable (request : Request) (candidate : Candidate) (passedOver : List Text)

def refusal (availability : Availability) (detail : Text) (h : availability ≠ .available) : Unresolved where
  role := request.role
  name := request.name
  availability
  origin := originOf request candidate
  detail
  considered := passedOver
  refused := h

def choice (version : Option Text) (capabilities limits : List Text)
    (h : surroundings.exists' candidate.path = true) : ResolvedTool where
  role := request.role
  name := request.name
  launchPath := candidate.path
  identityPath := surroundings.realpath candidate.path
  origin := originOf request candidate
  version
  capabilities
  passedOver
  limits
  launches := surroundings.ne_nil_of_exists h
  identified := surroundings.realpath_ne_nil candidate.path h

def Standing.resolution (h : surroundings.exists' candidate.path = true) : Standing → Resolution
  | refused availability detail hRefused =>
    .unresolved (refusal request candidate passedOver availability detail hRefused)
  | accepted version capabilities =>
    .resolved (choice surroundings request candidate passedOver version capabilities [] h)

/-- `_version`: the answer of a path is remembered under the path. -/
def askVersion (ask : Probe) (path : Text) (argv : List Text) (probed : Dict Text ProbeResult) :
    ProbeResult × Dict Text ProbeResult :=
  match probed.get? path with
  | some cached => (cached, probed)
  | none => (ask (path :: argv), probed.set path (ask (path :: argv)))

def resolveUnprobed (h : surroundings.exists' candidate.path = true) : Resolution :=
  if request.minimumVersion.getD [] ≠ [] ∨ request.requiredCapabilities ≠ [] then
    .unresolved (refusal request candidate passedOver .unsupported
      (py "its version or capabilities need a probe the caller did not allow") nofun)
  else .resolved (choice surroundings request candidate passedOver none [] [py "not probed"] h)

def resolveOne (probed : Dict Text ProbeResult) : Result Resolution × Dict Text ProbeResult :=
  if h : surroundings.exists' candidate.path = true then
    match probe with
    | none => (.ok (resolveUnprobed surroundings request candidate passedOver h), probed)
    | some ask =>
      let answer := askVersion ask candidate.path request.versionArgv probed
      ((standing surroundings ask request candidate.path answer.1).map
        (Standing.resolution surroundings request candidate passedOver h), answer.2)
  else
    (.ok (.unresolved (refusal request candidate passedOver .unavailable
      (py "no such file: " ++ candidate.path) unavailable_ne_available)), probed)

end

def nothingFound (request : Request) (considered : List Text) : Unresolved where
  role := request.role
  name := request.name
  availability := .unavailable
  origin :=
    { reason := py "no " ++ request.name ++ py " was found for this role"
      source := py "search"
      configKey := (request.candidates.filterMap (·.configKey)).find? (· ≠ []) }
  detail :=
    if considered ≠ [] then
      py "none of " ++ natDigits considered.length ++ py " candidate(s) could be used"
    else py "no candidate was offered"
  considered
  refused := nofun

/-- The loop of `resolve`: the first specific reason is kept. -/
def search (request : Request) : List Candidate → List Text → Option Unresolved →
    Dict Text ProbeResult → Result Resolution × Dict Text ProbeResult
  | [], considered, specific, probed =>
    (.ok (.unresolved ((specific.map fun no => { no with considered }).getD
      (nothingFound request considered))), probed)
  | candidate :: rest, considered, specific, probed =>
    if surroundings.exists' candidate.path = true then
      let answer := resolveOne surroundings probe request candidate considered probed
      match answer.1 with
      | .error e => (.error e, answer.2)
      | .ok (.resolved tool) => (.ok (.resolved tool), answer.2)
      | .ok (.unresolved no) =>
        search request rest (considered ++ [candidate.path]) (specific.orElse fun _ => some no) answer.2
    else search request rest (considered ++ [candidate.path]) specific probed

/-- `Resolver.resolve`, with what the resolver has probed before and after. -/
def resolve (request : Request) (probed : Dict Text ProbeResult) :
    Result Resolution × Dict Text ProbeResult :=
  match request.candidates.find? (·.explicit) with
  | some candidate => resolveOne surroundings probe request candidate [] probed
  | none => search surroundings probe request request.candidates [] none probed

def resolveAll : List Request → Dict Text ProbeResult → List (Result Resolution)
  | [], _ => []
  | request :: rest, probed =>
    let answer := resolve surroundings probe request probed
    answer.1 :: resolveAll rest answer.2

def resolveFresh (request : Request) : Result Resolution := (resolve surroundings probe request []).1

end

end Ici.Toolchain

/-! ## How far a request gets

A request goes past the candidates that are missing or refused and ends at the first one that is
accepted. What it is told of a path is remembered for the requests after it. -/

namespace Ici.Toolchain

open List Python

section

variable (surroundings : Surroundings) (ask : Probe) (request : Request)

def view (probed : Dict Text ProbeResult) (path : Text) : ProbeResult :=
  (probed.get? path).getD (ask (path :: request.versionArgv))

def stand (outputs : Text → ProbeResult) (candidate : Candidate) : Result Standing :=
  standing surroundings ask request candidate.path (outputs candidate.path)

def IsRefused (standing : Result Standing) : Prop :=
  ∃ availability detail h, standing = .ok (.refused availability detail h)

def AllRefused (outputs : Text → ProbeResult) (candidates : List Candidate) : Prop :=
  ∀ candidate ∈ candidates, surroundings.exists' candidate.path = true →
    IsRefused (stand surroundings ask request outputs candidate)

def record (probed : Dict Text ProbeResult) : List Candidate → Dict Text ProbeResult
  | [] => probed
  | candidate :: rest =>
    if surroundings.exists' candidate.path = true then
      record (askVersion ask candidate.path request.versionArgv probed).2 rest
    else record probed rest

def firstReason (outputs : Text → ProbeResult) : List Candidate → List Text → Option Unresolved
  | [], _ => none
  | candidate :: rest, considered =>
    if surroundings.exists' candidate.path = true then
      match stand surroundings ask request outputs candidate with
      | .ok (.refused availability detail h) =>
        some (refusal request candidate considered availability detail h)
      | _ => none
    else firstReason outputs rest (considered ++ [candidate.path])

variable {surroundings ask request} {probed : Dict Text ProbeResult}

theorem askVersion_fst (path : Text) :
    (askVersion ask path request.versionArgv probed).1 = view ask request probed path := by
  unfold askVersion view
  cases probed.get? path <;> rfl

theorem get?_askVersion (path other : Text) : (askVersion ask path request.versionArgv probed).2.get? other =
      (probed.get? other).or (if other = path then some (ask (path :: request.versionArgv)) else none) := by
  unfold askVersion
  by_cases hSame : other = path
  · rw [hSame, if_pos rfl]
    cases hCached : probed.get? path with
    | some cached => exact hCached
    | none => exact Dict.get?_set_self probed path _
  · rw [if_neg hSame, Option.or_none]
    cases hCached : probed.get? path with
    | some cached => rfl
    | none => exact Dict.get?_set_of_ne (Ne.symm hSame) probed _

theorem view_askVersion (path : Text) :
    view ask request (askVersion ask path request.versionArgv probed).2 = view ask request probed := by
  funext other
  rw [view, view, get?_askVersion]
  cases hCached : probed.get? other with
  | some cached => rfl
  | none =>
    split
    · rename_i hSame
      rw [hSame]
      rfl
    · rfl

theorem get?_record (candidates : List Candidate) (path : Text) :
    (record surroundings ask request probed candidates).get? path = (probed.get? path).or
      (if ∃ candidate ∈ candidates, surroundings.exists' candidate.path = true ∧ candidate.path = path
        then some (ask (path :: request.versionArgv)) else none) := by
  induction candidates generalizing probed with
  | nil => simp [record]
  | cons candidate rest ih =>
    rw [record]
    simp only [exists_mem_cons_iff]
    split
    · rename_i hThere
      rw [ih, get?_askVersion, Option.or_assoc]
      by_cases hSame : path = candidate.path
      · simp [hSame, hThere]
      · simp [hSame, Ne.symm hSame]
    · rename_i hMissing
      rw [ih]
      simp [hMissing]

/-! ## Going past what is refused -/

variable {candidate : Candidate} {front back : List Candidate}

theorem resolveOne_eq (h : surroundings.exists' candidate.path = true) (passedOver : List Text) :
    resolveOne surroundings (some ask) request candidate passedOver probed =
      ((stand surroundings ask request (view ask request probed) candidate).map
        (Standing.resolution surroundings request candidate passedOver h),
        (askVersion ask candidate.path request.versionArgv probed).2) := by
  rw [resolveOne, dif_pos h]
  dsimp only
  rw [askVersion_fst]
  rfl

theorem search_refused (front rest : List Candidate) (considered : List Text) (specific : Option Unresolved)
    (h : AllRefused surroundings ask request (view ask request probed) front) :
    search surroundings (some ask) request (front ++ rest) considered specific probed =
      search surroundings (some ask) request rest (considered ++ front.map (·.path))
        (specific.orElse fun _ => firstReason surroundings ask request (view ask request probed)
          front considered) (record surroundings ask request probed front) := by
  induction front generalizing considered specific probed with
  | nil =>
    rw [nil_append, map_nil, append_nil, record, firstReason]
    cases specific <;> rfl
  | cons candidate front ih =>
    obtain ⟨hHead, hTail⟩ := forall_mem_cons.mp h
    rw [cons_append, search, record, firstReason]
    by_cases hThere : surroundings.exists' candidate.path = true
    · obtain ⟨availability, detail, hRefused, hStand⟩ := hHead hThere
      rw [if_pos hThere, if_pos hThere, if_pos hThere, resolveOne_eq hThere, hStand]
      change search surroundings (some ask) request (front ++ rest) _ _ _ = _
      rw [ih, view_askVersion, append_assoc, map_cons, singleton_append]
      · cases specific <;> rfl
      · rw [view_askVersion]
        exact hTail
    · rw [if_neg hThere, if_neg hThere, if_neg hThere, ih _ _ hTail, append_assoc, map_cons, singleton_append]

theorem view_record (candidates : List Candidate) :
    view ask request (record surroundings ask request probed candidates) = view ask request probed := by
  induction candidates generalizing probed with
  | nil => rfl
  | cons candidate rest ih =>
    rw [record]
    split
    · rw [ih, view_askVersion]
    · rw [ih]

theorem record_append (front rest : List Candidate) : record surroundings ask request probed (front ++ rest) =
      record surroundings ask request (record surroundings ask request probed front) rest := by
  induction front generalizing probed with
  | nil => rfl
  | cons candidate front ih =>
    rw [cons_append, record, record]
    split <;> exact ih

theorem search_accepted {version : Option Text}
    {capabilities : List Text} (hThere : surroundings.exists' candidate.path = true)
    (hFront : AllRefused surroundings ask request (view ask request probed) front)
    (hStand : stand surroundings ask request (view ask request probed) candidate =
      .ok (.accepted version capabilities)) :
    search surroundings (some ask) request (front ++ candidate :: back) [] none probed =
      (.ok (.resolved (choice surroundings request candidate (front.map (·.path)) version capabilities []
        hThere)), record surroundings ask request probed (front ++ [candidate])) := by
  rw [search_refused _ _ _ _ hFront, search, if_pos hThere, resolveOne_eq hThere, view_record, hStand,
    record_append, record, if_pos hThere]
  rfl

theorem search_raised {e : PyError} (hThere : surroundings.exists' candidate.path = true)
    (hFront : AllRefused surroundings ask request (view ask request probed) front)
    (hStand : stand surroundings ask request (view ask request probed) candidate = .error e) :
    (search surroundings (some ask) request (front ++ candidate :: back) [] none probed).1 = .error e := by
  rw [search_refused _ _ _ _ hFront, search, if_pos hThere, resolveOne_eq hThere, view_record, hStand]
  rfl

def exhausted (surroundings : Surroundings) (ask : Probe) (request : Request)
    (outputs : Text → ProbeResult) (candidates : List Candidate) : Unresolved :=
  ((firstReason surroundings ask request outputs candidates []).map fun no =>
    { no with considered := candidates.map (·.path) }).getD
      (nothingFound request (candidates.map (·.path)))

theorem search_exhausted {candidates : List Candidate}
    (h : AllRefused surroundings ask request (view ask request probed) candidates) :
    search surroundings (some ask) request candidates [] none probed =
      (.ok (.unresolved (exhausted surroundings ask request (view ask request probed) candidates)),
        record surroundings ask request probed candidates) := by
  have hSkip := search_refused candidates [] [] none h
  rw [append_nil] at hSkip
  rw [hSkip, search]
  rfl

theorem allRefused_or (outputs : Text → ProbeResult) (candidates : List Candidate) :
    AllRefused surroundings ask request outputs candidates ∨
      ∃ front candidate back, candidates = front ++ candidate :: back ∧
        AllRefused surroundings ask request outputs front ∧
        surroundings.exists' candidate.path = true ∧
        ¬IsRefused (stand surroundings ask request outputs candidate) := by
  induction candidates with
  | nil => exact .inl nofun
  | cons first rest ih =>
    by_cases hFirst : surroundings.exists' first.path = true →
        IsRefused (stand surroundings ask request outputs first)
    · rcases ih with hAll | ⟨front, candidate, back, rfl, hFront, hThere, hNot⟩
      · exact .inl (forall_mem_cons.mpr ⟨hFirst, hAll⟩)
      · exact .inr ⟨first :: front, candidate, back, rfl, forall_mem_cons.mpr ⟨hFirst, hFront⟩,
          hThere, hNot⟩
    · obtain ⟨hThere, hNot⟩ := Classical.not_imp.mp hFirst
      exact .inr ⟨[], first, rest, rfl, nofun, hThere, hNot⟩

end

end Ici.Toolchain
