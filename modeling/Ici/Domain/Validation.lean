import Mathlib.Data.List.Sort
import Ici.Library.PurePaths
import Ici.Library.PyDouble
import Ici.Library.Raising

/-! # The status axes of the result envelope -/

namespace Ici

open Python

inductive ScopeKind where
  | full
  | partial'
  | standalone
deriving DecidableEq

def ScopeKind.value : ScopeKind → Text
  | full => py "full"
  | partial' => py "partial"
  | standalone => py "standalone"

inductive GateVerdict where
  | pass
  | fail
  | incomplete
  | notEvaluated
deriving DecidableEq

def GateVerdict.value : GateVerdict → Text
  | pass => py "PASS"
  | fail => py "FAIL"
  | incomplete => py "INCOMPLETE"
  | notEvaluated => py "NOT_EVALUATED"

inductive EvidenceLevel where
  | measured
  | estimated
  | notRun
  | notApplicable
deriving DecidableEq

def EvidenceLevel.value : EvidenceLevel → Text
  | measured => py "MEASURED"
  | estimated => py "ESTIMATED"
  | notRun => py "NOT_RUN"
  | notApplicable => py "NOT_APPLICABLE"

inductive Profile where
  | fast
  | standard
  | deep
deriving DecidableEq

inductive TaskKind where
  | probe
  | prepare
  | analyze
  | test
  | collect
deriving DecidableEq

def TaskKind.value : TaskKind → Text
  | probe => py "probe"
  | prepare => py "prepare"
  | analyze => py "analyze"
  | test => py "test"
  | collect => py "collect"

inductive TaskState where
  | ready
  | running
  | succeeded
  | failed
  | blocked
  | cancelled
deriving DecidableEq

def TaskState.value : TaskState → Text
  | ready => py "READY"
  | running => py "RUNNING"
  | succeeded => py "SUCCEEDED"
  | failed => py "FAILED"
  | blocked => py "BLOCKED"
  | cancelled => py "CANCELLED"

inductive PublicationState where
  | success
  | failed
  | notConfigured
deriving DecidableEq

def PublicationState.value : PublicationState → Text
  | success => py "SUCCESS"
  | failed => py "FAILED"
  | notConfigured => py "NOT_CONFIGURED"

inductive BaselineState where
  | comparable
  | incompatible
deriving DecidableEq

def BaselineState.value : BaselineState → Text
  | comparable => py "comparable"
  | incompatible => py "incompatible"

end Ici

/-! ## Validation primitives of the domain models

The source returns the value it was given; here a check only says whether it passes. What a
Python `isinstance` test guards is carried by the types. -/

namespace Ici

open Raising Python

def refuseIf (condition : Prop) [Decidable condition] (text : Text) : Result Unit :=
  if condition then .error (valueError text) else .ok ()

section

variable (value description : Text)

def requireText : Result Unit :=
  if value = [] then .error (valueError (description ++ py " must be a non-empty string"))
  else if value ≠ strip value then
    .error (valueError (description ++ py " must not be padded with whitespace: " ++ pyRepr value))
  else .ok ()

def isLowerAlnum (c : CodePoint) : Bool :=
  (0x61 ≤ c.val && c.val ≤ 0x7a) || (0x30 ≤ c.val && c.val ≤ 0x39)

def isIdentifierChar (c : CodePoint) : Bool :=
  isLowerAlnum c || c.val == 0x2e || c.val == 0x5f || c.val == 0x2d

/-- `[a-z0-9](?:[a-z0-9._-]*[a-z0-9])?` against the whole text. -/
def identifierMatch (t : Text) : Bool :=
  t.head?.any isLowerAlnum && t.getLast?.any isLowerAlnum && t.all isIdentifierChar

def requireIdentifier : Result Unit := do
  requireText value description
  if identifierMatch value then .ok ()
  else .error (valueError
    (description ++ py " must be lowercase alphanumeric with . _ - separators: " ++ pyRepr value))

def requireRelativePath (allowDot : Bool) : Result Unit := do
  requireText value description
  if 0x5c ∈ value then
    .error (valueError (description ++ py " must use POSIX separators: " ++ pyRepr value))
  else if PurePosixPath.isAbsolute value ∨ py ".." ∈ PurePosixPath.parts value then
    .error (valueError (description ++ py " must be relative and contained: " ++ pyRepr value))
  else if PurePosixPath.asPosix value ≠ value then
    .error (valueError (description ++ py " must be canonical: " ++ pyRepr value))
  else if !allowDot ∧ value = py "." then
    .error (valueError (description ++ py " must name a path below the root"))
  else .ok ()

/-- `sha256:[0-9a-f]{64}` against the whole text. -/
def digestMatch (t : Text) : Bool :=
  t.take 7 == py "sha256:" && (t.drop 7).length == 64 &&
  (t.drop 7).all fun c => (0x30 ≤ c.val && c.val ≤ 0x39) || (0x61 ≤ c.val && c.val ≤ 0x66)

def requireDigest : Result Unit := do
  requireText value description
  if digestMatch value then .ok ()
  else .error (valueError
    (description ++ py " must be a full sha256:<64 hex> digest: " ++ pyRepr value))

end

/-- `sorted(set(duplicates))` as a list is printed. -/
def reprSorted (items : List Text) : Text :=
  py "[" ++ join (py ", ") ((items.dedup.insertionSort (· ≤ ·)).map pyRepr) ++ py "]"

def duplicates (seen : List Text) : List Text → List Text
  | [] => []
  | item :: rest =>
    if item ∈ seen then item :: duplicates (item :: seen) rest else duplicates (item :: seen) rest

def requireUniqueIdentifiers (values : List Text) (description : Text) : Result Unit :=
  if duplicates [] values = [] then .ok ()
  else .error (valueError
    (description ++ py " contains duplicate ids: " ++ reprSorted (duplicates [] values)))

def requireNonNegative (value : ℤ) (description : Text) : Result Unit :=
  if 0 ≤ value then .ok ()
  else do
    let shown ← strInt value
    .error (valueError (description ++ py " must not be negative: " ++ shown))

def requirePositive (value : PyFloat) (description : Text) : Result Unit :=
  if !value.isFinite then
    .error (valueError (description ++ py " must be finite: " ++ value.pyRepr))
  else if !PyFloat.lt (.fin 0) value then
    .error (valueError (description ++ py " must be greater than zero: " ++ value.pyRepr))
  else .ok ()

def requireEnvOverlay (value : List (Text × Text)) (description : Text) : Result Unit := do
  value.forM fun pair => requireText pair.1 (description ++ py " name")
  if (value.map Prod.fst).Nodup then .ok ()
  else .error (valueError (description ++ py " must not set a variable twice"))

def IsText (t : Text) : Prop := t ≠ [] ∧ Unpadded t

def IsIdentifier (t : Text) : Prop := identifierMatch t = true

instance (t : Text) : Decidable (IsText t) := inferInstanceAs (Decidable (_ ∧ _))

instance (t : Text) : Decidable (IsIdentifier t) := inferInstanceAs (Decidable (_ = _))

variable {condition : Prop} {e : PyError} {description value : Text}

variable [Decidable condition]

theorem refuseIf_eq_ok_iff {text : Text} : refuseIf condition text = .ok () ↔ ¬condition := by
  unfold refuseIf
  split <;> simp [*]

/-- A check written as `if … : raise` ahead of the others. -/
theorem refuse_then_eq_ok_iff {rest : Result Unit} :
    (if condition then (.error e >>= fun _ : Unit => rest) else rest) = .ok () ↔
      ¬condition ∧ rest = .ok () := by
  split
  · exact iff_of_false (fun h => nomatch h) fun h => h.1 ‹_›
  · exact (and_iff_right ‹_›).symm

theorem refuse_last_eq_ok_iff :
    (if condition then .error e else pure () : Result Unit) = .ok () ↔ ¬condition := by
  split
  · exact iff_of_false (fun h => nomatch h) fun h => h ‹_›
  · exact iff_of_true rfl ‹_›

theorem requireNonNegative_eq_ok_iff {value : ℤ} :
    requireNonNegative value description = .ok () ↔ 0 ≤ value := by
  unfold requireNonNegative
  split
  · exact iff_of_true rfl ‹_›
  · refine iff_of_false (fun h => ?_) ‹_›
    obtain ⟨_, -, h⟩ := bind_eq_ok.mp h
    cases h

theorem requireText_eq_ok_iff : requireText value description = .ok () ↔ IsText value := by
  unfold requireText IsText
  split
  · simp [*]
  · split
    · rename_i hne hPad
      simp [hne, ← strip_eq_self_iff, Ne.symm hPad]
    · rename_i hne hPad
      simp [hne, ← strip_eq_self_iff, (not_not.mp hPad).symm]

theorem isSpace_of_isLowerAlnum {c : CodePoint} (h : isLowerAlnum c = true) : isSpace c = false := by
  simp only [isLowerAlnum, Bool.or_eq_true, Bool.and_eq_true, decide_eq_true_eq] at h
  simp only [isSpace, Bool.or_eq_false_iff, Bool.and_eq_false_iff, decide_eq_false_iff_not,
    beq_eq_false_iff_ne]
  omega

theorem IsIdentifier.isText {t : Text} (h : IsIdentifier t) : IsText t := by
  simp only [IsIdentifier, identifierMatch, Bool.and_eq_true] at h
  obtain ⟨⟨hHead, hLast⟩, -⟩ := h
  have hne : t ≠ [] := by
    rintro rfl
    cases hHead
  refine ⟨hne, fun h => ?_, fun h => ?_⟩
  · rw [List.head?_eq_some_head h] at hHead
    exact isSpace_of_isLowerAlnum hHead
  · rw [List.getLast?_eq_some_getLast h] at hLast
    exact isSpace_of_isLowerAlnum hLast

theorem requireIdentifier_eq_ok_iff : requireIdentifier value description = .ok () ↔ IsIdentifier value := by
  unfold requireIdentifier
  rw [bind_eq_ok]
  constructor
  · rintro ⟨_, -, h⟩
    split at h
    · assumption
    · cases h
  · intro h
    exact ⟨(), requireText_eq_ok_iff.mpr h.isText, if_pos h⟩

end Ici
