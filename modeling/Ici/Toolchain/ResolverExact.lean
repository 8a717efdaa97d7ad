import Mathlib.Order.Nat
import Ici.Library.Components
import Ici.Toolchain.Resolver

/-! # What a request should be answered

The first candidate that is there, answers, is recent enough and supports what is needed. The
resolver says so unless a version lacks nothing but zeros or another request asked the same path
with arguments that are answered otherwise. -/

namespace Ici.Toolchain

open List Python Raising Components

section

variable (surroundings : Surroundings) (ask : Probe)

def offered (request : Request) : List Candidate :=
  match request.candidates.find? (·.explicit) with
  | some candidate => [candidate]
  | none => request.candidates

def own (request : Request) (path : Text) : ProbeResult := ask (path :: request.versionArgv)

/-- A version that is not below the minimum, missing components read as zero. -/
def IsRecentEnough (version minimum : Option (List ℕ)) : Prop :=
  ∀ least ∈ minimum, least ≠ [] → ∃ found ∈ version, IsNotBelow found least

structure Meets (request : Request) (candidate : Candidate) : Prop where
  there : surroundings.exists' candidate.path = true
  answers : (own ask request candidate.path).usable = true
  recent : ∃ version, surroundings.parseVersion (own ask request candidate.path).output = .ok version ∧
    IsRecentEnough version request.minimumVersion
  capable : ∀ capability ∈ request.requiredCapabilities, ∃ argv,
    request.capabilityProbes.get? capability = some argv ∧ (ask (candidate.path :: argv)).usable = true

inductive IsAnswer (request : Request) : Resolution → Prop
  | chosen {front back : List Candidate} {candidate : Candidate} {tool : ResolvedTool}
    (hOffered : offered request = front ++ candidate :: back)
    (hFront : ∀ earlier ∈ front, ¬Meets surroundings ask request earlier)
    (hMeets : Meets surroundings ask request candidate) (hPath : tool.launchPath = candidate.path)
    (hOrigin : tool.origin = originOf request candidate)
    (hPassed : tool.passedOver = front.map (·.path)) : IsAnswer request (.resolved tool)
  | none {no : Unresolved} (hNone : ∀ candidate ∈ offered request, ¬Meets surroundings ask request candidate)
    (hExplicit : ∀ candidate, request.candidates.find? (·.explicit) = some candidate →
      no.origin = originOf request candidate)
    (hConsidered : request.candidates.find? (·.explicit) = none →
      no.considered = request.candidates.map (·.path)) : IsAnswer request (.unresolved no)

/-! ## When it is -/

def IsTried (request : Request) (candidate : Candidate) : Prop :=
  ∃ front back, offered request = front ++ candidate :: back ∧
    surroundings.exists' candidate.path = true ∧
    ∀ earlier ∈ front, ¬Meets surroundings ask request earlier

def Asks (path : Text) (request : Request) : Prop :=
  ∃ candidate, IsTried surroundings ask request candidate ∧ candidate.path = path

open Classical in
noncomputable def remembered (earlier : List Request) (path : Text) : Option ProbeResult :=
  (earlier.find? fun request => decide (Asks surroundings ask path request)).map fun request =>
    own ask request path

noncomputable def outputsAfter (earlier : List Request) (request : Request) (path : Text) : ProbeResult :=
  (remembered surroundings ask earlier path).getD (own ask request path)

/-- The reported version is the minimum without some of the zeros it ends in. -/
def LacksZeros (request : Request) (candidate : Candidate) : Prop :=
  ∃ version minimum, surroundings.parseVersion (own ask request candidate.path).output = .ok (some version) ∧
    request.minimumVersion = some minimum ∧ IsCutShort version minimum

def Alike (first second : Result Standing) : Prop :=
  (IsRefused first ∧ IsRefused second) ∨
    ∃ version capabilities, first = .ok (.accepted version capabilities) ∧ second = first

def IsFirst (request : Request) (candidate : Candidate) : Prop :=
  ∃ front back, offered request = front ++ candidate :: back ∧
    surroundings.exists' candidate.path = true ∧
    ∀ earlier ∈ front, surroundings.exists' earlier.path = false

structure Fits (earlier : List Request) (request : Request) : Prop where
  whole : ∀ candidate, IsTried surroundings ask request candidate →
    Meets surroundings ask request candidate → ¬LacksZeros surroundings ask request candidate
  alike : ∀ candidate, IsTried surroundings ask request candidate →
    Alike (stand surroundings ask request (own ask request) candidate)
      (stand surroundings ask request (outputsAfter surroundings ask earlier request) candidate)
  reason : (∀ candidate ∈ offered request, ¬Meets surroundings ask request candidate) →
    ∀ candidate, IsFirst surroundings request candidate →
      stand surroundings ask request (outputsAfter surroundings ask earlier request) candidate =
        stand surroundings ask request (own ask request) candidate

variable {surroundings ask} {request : Request}

variable {version minimum : Option (List ℕ)} {path : Text} {shown : Option Text}
  {capabilities : List Text} {candidate : Candidate}

theorem isBelow_eq_false :
    isBelow version minimum = false ↔ ∀ least ∈ minimum, least ≠ [] → ∃ found ∈ version, ¬found < least := by
  rcases minimum with _ | _ | ⟨first, rest⟩
  · simp [isBelow]
  · simp [isBelow]
  · cases version with
    | none | some found => simp [isBelow]

theorem IsRecentEnough.of_not_isBelow
    (h : isBelow version minimum = false) : IsRecentEnough version minimum := by
  intro least hLeast hSome
  obtain ⟨found, hFound, hNot⟩ := isBelow_eq_false.mp h least hLeast hSome
  exact ⟨found, hFound, isNotBelow_iff.mpr (.inl hNot)⟩

theorem missingCapabilities_eq_nil :
    missingCapabilities ask path request = [] ↔ ∀ capability ∈ request.requiredCapabilities, ∃ argv,
      request.capabilityProbes.get? capability = some argv ∧ (ask (path :: argv)).usable = true := by
  rw [missingCapabilities, filterMap_eq_nil_iff]
  refine forall₂_congr fun capability _ => ?_
  unfold checkCapability
  split
  · rename_i hNone
    simp [hNone]
  · rename_i argv hSome
    rw [hSome]
    split
    · rename_i hUsable
      exact iff_of_true rfl ⟨argv, rfl, hUsable⟩
    · rename_i hNot
      refine iff_of_false (Option.some_ne_none _) ?_
      rintro ⟨other, hOther, hUsable⟩
      cases hOther
      exact hNot hUsable

theorem standing_eq_accepted {result : ProbeResult} :
    standing surroundings ask request path result = .ok (.accepted shown capabilities) ↔
      result.usable = true ∧ missingCapabilities ask path request = [] ∧ ∃ version,
        surroundings.parseVersion result.output = .ok version ∧
        isBelow version request.minimumVersion = false ∧
        shown = version.map (fun version => render (some version)) ∧
        capabilities = supportedCapabilities ask path request := by
  unfold standing
  cases hUsable : result.usable with
  | false => simp
  | true =>
    rw [if_neg (by simp), bind_eq_ok]
    constructor
    · rintro ⟨version, hVersion, h⟩
      split at h
      · cases h
      · rename_i hBelow
        split at h
        · cases h
        · rename_i hMissing
          cases h
          exact ⟨rfl, not_not.mp hMissing, version, hVersion, Bool.eq_false_iff.mpr hBelow, rfl, rfl⟩
    · rintro ⟨-, hMissing, version, hVersion, hBelow, rfl, rfl⟩
      refine ⟨version, hVersion, ?_⟩
      rw [hBelow, if_neg Bool.false_ne_true, if_neg (not_not_intro hMissing)]
      rfl

theorem meets_of_accepted (hThere : surroundings.exists' candidate.path = true)
    (h : stand surroundings ask request (own ask request) candidate = .ok (.accepted shown capabilities)) :
    Meets surroundings ask request candidate ∧ ¬LacksZeros surroundings ask request candidate := by
  obtain ⟨hUsable, hMissing, version, hVersion, hBelow, -, -⟩ := standing_eq_accepted.mp h
  refine ⟨⟨hThere, hUsable, ⟨version, hVersion, .of_not_isBelow hBelow⟩,
    missingCapabilities_eq_nil.mp hMissing⟩, ?_⟩
  rintro ⟨found, minimum, hFound, hMinimum, n, rfl⟩
  cases hVersion.symm.trans hFound
  have hSome : found ++ List.replicate (n + 1) (⊥ : ℕ) ≠ [] := by simp
  obtain ⟨again, hAgain, hNot⟩ := isBelow_eq_false.mp hBelow _ hMinimum hSome
  cases hAgain
  refine hNot ?_
  have hLess : found ++ [] < found ++ (⊥ : ℕ) :: List.replicate n ⊥ :=
    append_left_lt (nil_lt_cons ⊥ (List.replicate n ⊥))
  rwa [append_nil] at hLess

theorem accepted_of_meets (h : Meets surroundings ask request candidate)
    (hWhole : ¬LacksZeros surroundings ask request candidate) : ∃ shown capabilities,
      stand surroundings ask request (own ask request) candidate = .ok (.accepted shown capabilities) := by
  obtain ⟨version, hVersion, hRecent⟩ := h.recent
  refine ⟨_, _, standing_eq_accepted.mpr ⟨h.answers, missingCapabilities_eq_nil.mpr h.capable,
    version, hVersion, isBelow_eq_false.mpr fun least hLeast hSome => ?_, rfl, rfl⟩⟩
  obtain ⟨found, hFound, hNot⟩ := hRecent least hLeast hSome
  refine ⟨found, hFound, (isNotBelow_iff.mp hNot).resolve_right fun hCut => hWhole ?_⟩
  cases hFound
  exact ⟨found, least, hVersion, hLeast, hCut⟩

theorem not_isRefused_accepted : ¬IsRefused (.ok (.accepted shown capabilities)) := by
  rintro ⟨_, _, _, h⟩
  cases h

end

end Ici.Toolchain
