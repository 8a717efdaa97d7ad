import Ici.Domain.Raised

/-! # Decoding under guarded coercions

Where every coercion follows the interpreter's, so does every decoder. -/

namespace Ici

open Python Raising Guarding Follows

/-- What a guarded decoder raises where it stops; the interpreter has no such exception. -/
def stopped : PyError := ⟨py "Stopped", []⟩

/-- A guard for decoders; besides `ValueError`s, its coercions may raise what else is given. -/
def guarding (raised : PyError → Prop) (goesOn : Prop) (other : PyError → Prop)
    (hOther : ¬other stopped) : Guarding PyError where
  stop := stopped
  raised
  goesOn
  handled e := isValueError e = true ∨ other e
  unhandled h := h.elim (fun hValue => nomatch hValue) hOther

/-- The guard handles every `ValueError`. -/
class HandlesValueErrors (g : Guarding PyError) : Prop where
  handled : ∀ e, isValueError e = true → g.handled e

instance (raised : PyError → Prop) (goesOn : Prop) (other : PyError → Prop) (hOther : ¬other stopped) :
    HandlesValueErrors (guarding raised goesOn other hOther) := ⟨fun _ => .inl⟩

variable {g : Guarding PyError} [HandlesValueErrors g]

section Steps

variable {α β : Type} {x : Result α}

theorem follows_refl (hx : RaisesValueError x) : g.Follows x x :=
  .refl (hx.mono HandlesValueErrors.handled)

theorem follows_step {f k : α → Result β} (hx : RaisesValueError x)
    (hf : ∀ a, g.Follows (f a) (k a)) : g.Follows (x >>= f) (x >>= k) := (follows_refl hx).bind hf

end Steps

structure Coercions.Guards (g : Guarding PyError) (c b : Coercions) : Prop where
  items : ∀ value, g.Follows (c.items value) (b.items value)
  flag : ∀ value, g.Follows (c.flag value) (b.flag value)
  orEmpty : ∀ value, g.Follows (c.orEmpty value) (b.orEmpty value)
  number : ∀ n, g.Follows (c.number n) (b.number n)

section Decoders

variable {c b : Coercions} (h : Coercions.Guards g c b)

include h

section

variable (payload : Json)

theorem suppressionFromDict_follows :
    g.Follows (suppressionFromDict c payload) (suppressionFromDict b payload) := by
  unfold suppressionFromDict
  split
  · exact follows_refl (.ok _)
  · refine follows_step (raises_requireMapping _ _) fun raw => ?_
    refine (h.flag _).bind fun _ => ?_
    refine follows_step (raises_stringValue _ _) fun _ => ?_
    refine follows_step (raises_stringValue _ _) fun _ => ?_
    refine follows_step (raises_stringValue _ _) fun _ => ?_
    exact follows_refl (raises_construct (raises_checkSuppression _))

theorem findingFromDict_follows : g.Follows (findingFromDict c payload) (findingFromDict b payload) := by
  refine follows_step (raises_requireMapping _ _) fun data => ?_
  refine follows_step (raises_spanFromDict _) fun _ => ?_
  refine (h.items _).bind fun _ => ?_
  refine (h.items _).bind fun _ => ?_
  refine follows_step (Raises.mapM fun item _ => raises_spanFromDict item) fun _ => ?_
  refine follows_step (raises_readEnum _ _ _) fun _ => ?_
  refine (suppressionFromDict_follows h _).bind fun _ => ?_
  refine (h.items _).bind fun _ => ?_
  refine follows_step (raises_textValue _ _) fun _ => ?_
  refine follows_step (raises_textValue _ _) fun _ => ?_
  refine follows_step (raises_textValue _ _) fun _ => ?_
  refine follows_step (raises_identifierValue _ _) fun _ => ?_
  refine follows_step (raises_identifierValue _ _) fun _ => ?_
  refine follows_step (raises_identifierValue _ _) fun _ => ?_
  refine follows_step (raises_stringValue _ _) fun _ => ?_
  refine follows_step (raises_stringValue _ _) fun _ => ?_
  refine follows_step (raises_stringValue _ _) fun _ => ?_
  refine follows_step (raises_textItems _ _) fun _ => ?_
  refine follows_step (Raises.forM fun tag _ => raises_requireIdentifier tag _) fun _ => ?_
  refine follows_step (raises_unlessNone _ fun value => raises_identifierValue value _) fun _ => ?_
  refine follows_step (raises_unlessNone _ fun value => raises_identifierValue value _) fun _ => ?_
  refine follows_step (raises_unlessNone _ fun value => raises_identifierValue value _) fun _ => ?_
  refine follows_step (raises_unlessNone _ fun value => raises_identifierValue value _) fun _ => ?_
  refine follows_step (raises_textItems _ _) fun _ => ?_
  exact follows_refl (raises_construct (raises_checkFinding _))

theorem measuredValue_follows (value : Json) :
    g.Follows (measuredValue c value) (measuredValue b value) := by
  cases value with
  | int n => exact h.number n
  | float x => exact follows_refl (.ite (fun _ => raises_valueError _) fun _ => .ok x)
  | _ => exact follows_refl (raises_valueError _)

theorem measurementFromDict_follows :
    g.Follows (measurementFromDict c payload) (measurementFromDict b payload) := by
  refine follows_step (raises_requireMapping _ _) fun data => ?_
  refine follows_step (raises_readEnum _ _ _) fun _ => ?_
  refine follows_step (raises_identifierValue _ _) fun _ => ?_
  refine (measuredValue_follows h _).bind fun _ => ?_
  refine follows_step (raises_stringValue _ _) fun _ => ?_
  refine follows_step (raises_unlessNone _ fun value => raises_nonNegativeValue value _) fun _ => ?_
  refine follows_step (raises_unlessNone _ fun value => raises_nonNegativeValue value _) fun _ => ?_
  exact follows_refl (raises_construct (raises_checkMeasurement _))

theorem durationValue_follows (value : Json) :
    g.Follows (durationValue c value) (durationValue b value) := by
  cases value with
  | null => exact follows_refl (.ok _)
  | int n =>
    unfold durationValue
    dsimp only
    split
    · exact follows_refl (raises_valueError _)
    · exact (h.number n).map some
  | float x => exact follows_refl (.ite (fun _ => raises_valueError _) fun _ => .ok _)
  | _ => exact follows_refl (raises_valueError _)

theorem observationFromDict_follows :
    g.Follows (observationFromDict c payload) (observationFromDict b payload) := by
  refine follows_step (raises_requireMapping _ _) fun data => ?_
  refine follows_step (raises_readEnum _ _ _) fun _ => ?_
  refine (h.items _).bind fun _ => ?_
  refine (mapM fun item _ => findingFromDict_follows h item).bind fun _ => ?_
  refine (h.items _).bind fun _ => ?_
  refine (mapM fun item _ => measurementFromDict_follows h item).bind fun _ => ?_
  refine (h.flag _).bind fun _ => ?_
  refine (h.flag _).bind fun _ => ?_
  refine (h.items _).bind fun _ => ?_
  refine (mapM fun item _ => h.items item).bind fun _ => ?_
  refine (h.items _).bind fun _ => ?_
  refine follows_step (raises_identifierValue _ _) fun _ => ?_
  refine follows_step (raises_identifierValue _ _) fun _ => ?_
  refine follows_step (raises_exitCodeValue _) fun _ => ?_
  refine follows_step (raises_unlessNone _ fun value => raises_textValue value _) fun _ => ?_
  refine (durationValue_follows h _).bind fun _ => ?_
  refine follows_step (Raises.mapM fun item _ => raises_toolVersion item) fun _ => ?_
  refine follows_step (raises_textItems _ _) fun _ => ?_
  exact follows_refl (raises_construct (raises_checkObservation _))

theorem snapshotFromDict_follows (snapshot : Dict Text Json) :
    g.Follows (snapshotFromDict c snapshot) (snapshotFromDict b snapshot) := by
  refine (h.items _).bind fun _ => ?_
  refine (h.items _).bind fun _ => ?_
  refine (h.items _).bind fun _ => ?_
  refine (h.flag _).bind fun _ => ?_
  refine follows_step (raises_digestValue _ _) fun _ => ?_
  refine follows_step (raises_textItems _ _) fun _ => ?_
  refine follows_step (raises_requireRelativePaths _ _) fun _ => ?_
  refine follows_step (raises_textItems _ _) fun _ => ?_
  refine follows_step (raises_requireRelativePaths _ _) fun _ => ?_
  refine follows_step (raises_textItems _ _) fun _ => ?_
  refine follows_step (Raises.forM fun value _ => raises_requireText value _) fun _ => ?_
  refine follows_step (raises_unlessNone _ fun value => raises_textValue value _) fun _ => ?_
  exact follows_refl (raises_construct (raises_checkSnapshot _))

theorem identityFromDict_follows : g.Follows (identityFromDict c payload) (identityFromDict b payload) := by
  refine follows_step (raises_requireMapping _ _) fun data => ?_
  refine follows_step (raises_requireMapping _ _) fun snapshot => ?_
  refine (snapshotFromDict_follows h _).bind fun _ => ?_
  refine (h.orEmpty _).bind fun _ => ?_
  refine follows_step (raises_digestValue _ _) fun _ => ?_
  refine follows_step (raises_digestValue _ _) fun _ => ?_
  refine follows_step (raises_stringValue _ _) fun _ => ?_
  exact follows_refl (raises_construct (raises_checkIdentity _))

theorem scopeFromDict_follows : g.Follows (scopeFromDict c payload) (scopeFromDict b payload) := by
  refine follows_step (raises_requireMapping _ _) fun data => ?_
  refine follows_step (raises_readEnum _ _ _) fun _ => ?_
  refine (h.items _).bind fun _ => ?_
  refine (h.items _).bind fun _ => ?_
  refine (h.items _).bind fun _ => ?_
  refine (h.items _).bind fun _ => ?_
  refine (h.flag _).bind fun _ => ?_
  refine follows_step (raises_scopeItems _ _) fun _ => ?_
  refine follows_step (raises_scopeItems _ _) fun _ => ?_
  refine follows_step (raises_scopeItems _ _) fun _ => ?_
  refine follows_step (raises_scopeItems _ _) fun _ => ?_
  exact follows_refl (raises_construct (raises_checkScope _))

theorem executionFromDict_follows (execution : Dict Text Json) :
    g.Follows (executionFromDict c execution) (executionFromDict b execution) := by
  refine (h.flag _).bind fun _ => ?_
  refine (h.flag _).bind fun _ => ?_
  refine (h.items _).bind fun _ => ?_
  refine (h.items _).bind fun _ => ?_
  refine (h.items _).bind fun _ => ?_
  refine follows_step (raises_textItems _ _) fun _ => ?_
  refine follows_step (Raises.forM fun value _ => raises_requireIdentifier value _) fun _ => ?_
  refine follows_step (raises_textItems _ _) fun _ => ?_
  refine follows_step (Raises.forM fun value _ => raises_requireIdentifier value _) fun _ => ?_
  refine follows_step (raises_textItems _ _) fun _ => ?_
  refine follows_step (Raises.forM fun value _ => raises_requireIdentifier value _) fun _ => ?_
  exact follows_refl (raises_construct (raises_checkExecution _))

theorem gateFromDict_follows : g.Follows (gateFromDict c payload) (gateFromDict b payload) := by
  refine follows_step (raises_requireMapping _ _) fun data => ?_
  refine follows_step (raises_readEnum _ _ _) fun _ => ?_
  refine follows_step (raises_readEnum _ _ _) fun _ => ?_
  refine (h.flag _).bind fun _ => ?_
  refine (h.items _).bind fun _ => ?_
  refine follows_step (raises_textItems _ _) fun _ => ?_
  exact follows_refl (raises_construct (raises_checkGate _))

theorem baselineFromDict_follows : g.Follows (baselineFromDict c payload) (baselineFromDict b payload) := by
  unfold baselineFromDict
  split
  · exact follows_refl (.ok _)
  · refine follows_step (raises_requireMapping _ _) fun data => ?_
    refine follows_step (raises_readEnum _ _ _) fun _ => ?_
    refine (h.items _).bind fun _ => ?_
    refine (h.items _).bind fun _ => ?_
    refine (h.items _).bind fun _ => ?_
    refine (h.items _).bind fun _ => ?_
    refine follows_step (raises_stringValue _ _) fun _ => ?_
    refine follows_step (raises_stringValue _ _) fun _ => ?_
    refine follows_step (raises_baselineItems _ _) fun _ => ?_
    refine follows_step (raises_baselineItems _ _) fun _ => ?_
    refine follows_step (raises_baselineItems _ _) fun _ => ?_
    refine follows_step (raises_baselineItems _ _) fun _ => ?_
    exact follows_step (raises_construct (raises_checkBaseline _)) fun _ => follows_refl (.ok _)

end

theorem runOfValues_follows (data execution producer : Dict Text Json) (version : ℤ) :
    g.Follows (runOfValues c data execution producer version)
      (runOfValues b data execution producer version) := by
  refine follows_step (raises_producerFromDict _) fun _ => ?_
  refine (identityFromDict_follows h _).bind fun _ => ?_
  refine (scopeFromDict_follows h _).bind fun _ => ?_
  refine (executionFromDict_follows h _).bind fun _ => ?_
  refine (gateFromDict_follows h _).bind fun _ => ?_
  refine (h.items _).bind fun _ => ?_
  refine (mapM fun item _ => findingFromDict_follows h item).bind fun _ => ?_
  refine (h.items _).bind fun _ => ?_
  refine (mapM fun item _ => measurementFromDict_follows h item).bind fun _ => ?_
  refine follows_step (raises_publicationFromDict _) fun _ => ?_
  refine (h.items _).bind fun _ => ?_
  refine (baselineFromDict_follows h _).bind fun _ => ?_
  refine follows_step (raises_checksFromDict _) fun _ => ?_
  refine follows_step (raises_textValue _ _) fun _ => ?_
  refine follows_step (raises_textItems _ _) fun _ => ?_
  exact follows_refl (raises_construct (raises_checkResult _))

omit h

/-- The `try` catches neither a stop nor what the interpreter raises there. -/
theorem invalidResult_follows (hRaised : ∀ e, g.raised e → isValueError e = false)
    {x y : Result RunResult} (hxy : g.Follows x y) :
    g.Follows (invalidResult x) (invalidResult y) := by
  obtain ⟨⟨rfl, hGo⟩ | ⟨rfl, hStop⟩, hRaises⟩ := hxy
  · cases x with
    | ok result => exact follows_refl (.ok result)
    | error e =>
      exact ite (fun _ => follows_refl (raises_schemaError _)) fun _ =>
        ⟨.inl ⟨rfl, hGo⟩, hRaises⟩
  · have hStopped : invalidResult (.error g.stop) = .error g.stop :=
      if_neg fun hBoth => g.unhandled (HandlesValueErrors.handled _ hBoth.2)
    rw [hStopped]
    refine stop (hStop.imp_right ?_)
    rintro ⟨e, he, rfl⟩
    refine ⟨e, he, if_neg fun hBoth => ?_⟩
    exact absurd hBoth.2 (Bool.eq_false_iff.mp (hRaised e he))

include h

theorem runResultFromDict_follows (hRaised : ∀ e, g.raised e → isValueError e = false) (payload : Json) :
    g.Follows (runResultFromDict c payload) (runResultFromDict b payload) := by
  refine follows_step (raises_requireMapping _ _) fun data => ?_
  refine follows_step (raises_checkEnvelope _ _ _) fun _ => ?_
  have hRead : g.Follows
      (do
        let execution ← requireMapping (getValue data (py "execution")) (py "execution")
        let producer ← requireMapping (getValue data (py "producer")) (py "producer")
        invalidResult (runOfValues c data execution producer (envelopeVersion data)))
      (do
        let execution ← requireMapping (getValue data (py "execution")) (py "execution")
        let producer ← requireMapping (getValue data (py "producer")) (py "producer")
        invalidResult (runOfValues b data execution producer (envelopeVersion data))) := by
    refine follows_step (raises_requireMapping _ _) fun execution => ?_
    refine follows_step (raises_requireMapping _ _) fun producer => ?_
    exact invalidResult_follows hRaised (runOfValues_follows h _ _ _ _)
  refine .ite (fun _ => follows_step (raises_schemaError _) fun _ => ?_) fun _ => ?_
  all_goals exact .ite (fun _ => follows_step (raises_schemaError _) fun _ => hRead) fun _ => hRead

end Decoders

end Ici
