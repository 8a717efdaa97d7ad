import Ici.Domain.ResultReading
import Ici.Library.JsonScan

/-! # Validation raises nothing but `ValueError`

Every check of the domain models, and every reader that looks at the type of what it is given. -/

namespace Ici

open Python Raising Raises

/-- Everything it raises is a `ValueError`, `SchemaError` included. -/
abbrev RaisesValueError {α : Type} (x : Result α) : Prop := Raises (isValueError · = true) x

theorem raises_valueError {α : Type} (text : Text) :
    RaisesValueError (.error (valueError text) : Result α) := .error rfl

theorem raises_schemaError {α : Type} (text : Text) :
    RaisesValueError (.error (schemaError text) : Result α) := .error rfl

variable {condition : Prop} [Decidable condition]

theorem raises_refuseIf (text : Text) : RaisesValueError (refuseIf condition text) :=
  .ite (fun _ => raises_valueError text) fun _ => .ok ()

/-- `if condition: raise ValueError(text)` ahead of other steps. -/
theorem raises_refuse_then {text : Text} {α : Type} {rest : Result α} (h : RaisesValueError rest) :
    RaisesValueError (if condition then
      ((.error (valueError text) : Result PUnit) >>= fun _ => rest) else rest) :=
  .ite (fun _ => (raises_valueError text).bind fun _ => h) fun _ => h

theorem raises_refuse_last {text : Text} :
    RaisesValueError (if condition then .error (valueError text) else pure () : Result Unit) :=
  .ite (fun _ => raises_valueError text) fun _ => .ok ()

theorem raises_construct {α : Type} {check : α → Result Unit} {a : α}
    (h : RaisesValueError (check a)) : RaisesValueError (Checked.construct check a) :=
  fun e hEq => h e (Checked.construct_eq_error_iff.mp hEq)

/-! ## Primitives -/

section Primitives

variable (value description : Text)

theorem raisesLimit_strInt (n : ℤ) : Raises (· = digitLimit) (strInt n) :=
  .ite (fun _ => .ok _) fun _ => .error rfl

theorem raises_of_limit {α : Type} {x : Result α} (h : Raises (· = digitLimit) x) :
    RaisesValueError x := h.mono fun _ hLimit => hLimit ▸ rfl

theorem raises_strInt (n : ℤ) : RaisesValueError (strInt n) := raises_of_limit (raisesLimit_strInt n)

theorem raises_requireText : RaisesValueError (requireText value description) :=
  .ite (fun _ => raises_valueError _) fun _ => .ite (fun _ => raises_valueError _) fun _ => .ok ()

theorem raises_requireIdentifier : RaisesValueError (requireIdentifier value description) :=
  (raises_requireText value description).bind fun _ => .ite (fun _ => .ok ()) fun _ => raises_valueError _

theorem raises_requireDigest : RaisesValueError (requireDigest value description) :=
  (raises_requireText value description).bind fun _ => .ite (fun _ => .ok ()) fun _ => raises_valueError _

theorem raises_requireRelativePath (allowDot : Bool) :
    RaisesValueError (requireRelativePath value description allowDot) := by
  refine (raises_requireText value description).bind fun _ => ?_
  refine .ite (fun _ => raises_valueError _) fun _ => ?_
  refine .ite (fun _ => raises_valueError _) fun _ => ?_
  refine .ite (fun _ => raises_valueError _) fun _ => ?_
  exact .ite (fun _ => raises_valueError _) fun _ => .ok ()

theorem raises_requireNonNegative (n : ℤ) : RaisesValueError (requireNonNegative n description) :=
  .ite (fun _ => .ok ()) fun _ => (raises_strInt n).bind fun _ => raises_valueError _

theorem raises_requireUniqueIdentifiers (values : List Text) :
    RaisesValueError (requireUniqueIdentifiers values description) :=
  .ite (fun _ => .ok ()) fun _ => raises_valueError _

theorem raises_requireRelativePaths (values : List Text) :
    RaisesValueError (requireRelativePaths values description) :=
  .forM fun value _ => raises_requireRelativePath value description false

end Primitives

mutual

theorem raisesLimit_reprValue : ∀ value : Json, Raises (· = digitLimit) (reprValue value)
  | .null => .ok _
  | .bool _ => .ok _
  | .int n => raisesLimit_strInt n
  | .float _ => .ok _
  | .str _ => .ok _
  | .arr items => (raisesLimit_reprItems items).map _
  | .obj fields => (raisesLimit_reprFields fields).map _

theorem raisesLimit_reprItems : ∀ items : List Json, Raises (· = digitLimit) (reprItems items)
  | [] => .ok _
  | item :: rest =>
    (raisesLimit_reprValue item).bind fun _ => (raisesLimit_reprItems rest).bind fun _ => .ok _

theorem raisesLimit_reprFields : ∀ fields : List (Text × Json), Raises (· = digitLimit) (reprFields fields)
  | [] => .ok _
  | (_, value) :: rest =>
    (raisesLimit_reprValue value).bind fun _ => (raisesLimit_reprFields rest).bind fun _ => .ok _

end

theorem raises_reprValue (value : Json) : RaisesValueError (reprValue value) :=
  raises_of_limit (raisesLimit_reprValue value)

theorem isValueError_of_malformed {e : PyError} (h : Json.IsMalformed e) : isValueError e = true := by
  unfold isValueError
  rcases h with h | h <;> simp [h]

theorem raises_encode (style : Json.Style) (j : Json) : RaisesValueError (Json.encode style j) := by
  induction j using Json.induction with
  | hScalar j hScalar =>
    cases j with
    | int value => exact raises_strInt value
    | float value => exact .ite (fun _ => .ok _) fun _ => .ite (fun _ => raises_valueError _) fun _ => .ok _
    | arr items | obj fields => exact hScalar.elim
    | _ => exact .ok _
  | hArr items ih =>
    rw [Json.encode, Json.encodeItems_eq_mapM]
    exact (mapM ih).map _
  | hObj fields ih =>
    rw [Json.encode, Json.encodeFields_eq_map]
    refine (mapM fun pair hPair => ?_).map _
    obtain ⟨field, hField, rfl⟩ := List.mem_map.mp ((List.mem_insertionSort _).mp hPair)
    exact (ih field hField).map _

theorem raises_utf8 (t : Text) : RaisesValueError (utf8 t) := .ite (fun _ => .error rfl) fun _ => .ok _

theorem raises_decodeFrom (s : Utf8State) (bytes : List UInt8) : RaisesValueError (decodeFrom s bytes) := by
  induction bytes generalizing s with
  | nil => exact .ite (fun _ => .ok _) fun _ => .error rfl
  | cons b rest ih =>
    unfold decodeFrom
    split
    · exact .error rfl
    · exact .ite (fun _ => (ih _).map _) fun _ => ih _

/-- `json.loads` fails by a `ValueError`, or the recursion allowance is exhausted. -/
theorem yields_loads (depth : ℕ) (t : Text) :
    Yields Json.IsShown (fun e => isValueError e = true ∨ e = Json.recursionError) (Json.loads depth t) := by
  have hYields := Json.yields_loads depth t
  cases hLoads : Json.loads depth t with
  | ok value =>
    rw [hLoads] at hYields
    exact hYields
  | error e =>
    rw [hLoads] at hYields
    exact hYields.imp_left isValueError_of_malformed

/-! ## Readers -/

theorem raises_requireMapping (value : Json) (description : Text) :
    RaisesValueError (requireMapping value description) := by
  unfold requireMapping
  split
  · exact .ok _
  · exact raises_schemaError _

theorem raises_readEnum {α : Type} (members : List (Text × α)) (value : Json) (description : Text) :
    RaisesValueError (readEnum members value description) := by
  unfold readEnum
  split
  · exact .ok _
  · exact (raises_reprValue value).bind fun _ => raises_schemaError _

theorem raises_checkEnvelope (payload : Dict Text Json) (schemaId : Text) (version : ℤ) :
    RaisesValueError (checkEnvelope payload schemaId version) := by
  unfold checkEnvelope
  split
  · refine .ite (fun _ => ?_) fun _ => raises_schemaError _
    split
    · refine .ite (fun _ => .ok ()) fun _ => ?_
      exact (raises_strInt _).bind fun _ => (raises_strInt _).bind fun _ => .error rfl
    · exact (raises_reprValue _).bind fun _ => raises_schemaError _
  · exact (raises_reprValue _).bind fun _ => raises_schemaError _

section Readers

variable (value : Json) (description : Text)

theorem raises_textValue : RaisesValueError (textValue value description) := by
  unfold textValue
  split
  · exact (raises_requireText _ _).map _
  · exact raises_valueError _

theorem raises_identifierValue : RaisesValueError (identifierValue value description) := by
  unfold identifierValue
  split
  · exact (raises_requireIdentifier _ _).map _
  · exact raises_valueError _

theorem raises_digestValue : RaisesValueError (digestValue value description) := by
  unfold digestValue
  split
  · exact (raises_requireDigest _ _).map _
  · exact raises_valueError _

theorem raises_relativePathValue (allowDot : Bool) :
    RaisesValueError (relativePathValue value description allowDot) := by
  unfold relativePathValue
  split
  · exact (raises_requireRelativePath _ _ _).map _
  · exact raises_valueError _

theorem raises_nonNegativeValue : RaisesValueError (nonNegativeValue value description) := by
  unfold nonNegativeValue
  split
  · exact (raises_requireNonNegative _ _).map _
  · exact raises_valueError _

theorem raises_stringValue (text : Text) : RaisesValueError (stringValue value text) := by
  unfold stringValue
  split
  · exact .ok _
  · exact raises_valueError _

theorem raises_boolValue (text : Text) : RaisesValueError (boolValue value text) := by
  unfold boolValue
  split
  · exact .ok _
  · exact raises_valueError _

theorem raises_unlessNone {α : Type} {check : Json → Result α}
    (h : ∀ value, RaisesValueError (check value)) : RaisesValueError (unlessNone check value) := by
  unfold unlessNone
  split
  · exact .ok _
  · exact (h _).map _

theorem raises_exitCodeValue : RaisesValueError (exitCodeValue value) := by
  unfold exitCodeValue
  split
  · exact .ok _
  · exact .ok _
  · exact raises_valueError _

end Readers

theorem raises_textItems (items : List Json) (description : Text) :
    RaisesValueError (textItems items description) := .mapM fun item _ => raises_stringValue item _

theorem raises_scopeItems (items : List Json) (name : Text) : RaisesValueError (scopeItems items name) := by
  refine (raises_textItems _ _).bind fun values => ?_
  refine (forM fun value _ => raises_requireIdentifier value _).bind fun _ => ?_
  exact (raises_requireUniqueIdentifiers _ _).bind fun _ => .ok _

theorem raises_baselineItems (items : List Json) (name : Text) :
    RaisesValueError (baselineItems items name) := by
  refine (raises_textItems _ _).bind fun values => ?_
  exact (forM fun value _ => raises_requireText value _).bind fun _ => .ok _

theorem raises_toolVersion (item : List Json) : RaisesValueError (toolVersion item) := by
  unfold toolVersion
  split
  · exact .ok _
  · exact raises_valueError _

/-! ## Constructors -/

theorem raises_checkSpan (span : SourceSpanFields) : RaisesValueError span.check := by
  refine (raises_requireRelativePath _ _ _).bind fun _ => ?_
  refine (raises_requireNonNegative _ _).bind fun _ => raises_refuse_then ?_
  refine (Raises.forM fun line _ =>
    (raises_requireNonNegative _ _).bind fun _ => raises_refuse_last).bind fun _ => ?_
  exact .forM fun column _ => .forM fun value _ =>
    (raises_requireNonNegative _ _).bind fun _ => raises_refuse_last

theorem raises_checkSuppression (suppression : FindingSuppressionFields) :
    RaisesValueError suppression.check := .ite (fun _ => raises_valueError _) fun _ => .ok ()

theorem raises_checkFinding (finding : FindingFields) : RaisesValueError finding.check := by
  refine (raises_requireText _ _).bind fun _ => ?_
  refine (raises_requireText _ _).bind fun _ => ?_
  refine (raises_requireText _ _).bind fun _ => ?_
  refine (raises_requireIdentifier _ _).bind fun _ => ?_
  refine (raises_requireIdentifier _ _).bind fun _ => ?_
  refine (raises_requireIdentifier _ _).bind fun _ => ?_
  refine (forM fun tag _ => raises_requireIdentifier tag _).bind fun _ => ?_
  refine (forM fun field _ => .forM fun id _ => raises_requireIdentifier id _).bind fun _ => ?_
  exact .forM fun limitation _ => raises_requireText limitation _

theorem raises_checkMeasurement (measurement : MeasurementFields) : RaisesValueError measurement.check := by
  refine (raises_requireIdentifier _ _).bind fun _ => raises_refuse_then ?_
  refine (forM fun n _ => raises_requireNonNegative _ n).bind fun _ => ?_
  exact (forM fun n _ => raises_requireNonNegative _ n).bind fun _ => raises_refuse_last

theorem raises_checkObservation (observation : ObservationFields) : RaisesValueError observation.check := by
  refine (raises_requireIdentifier _ _).bind fun _ => ?_
  refine (raises_requireIdentifier _ _).bind fun _ => ?_
  refine (forM fun signal _ => raises_requireText signal _).bind fun _ => ?_
  refine (forM fun value _ =>
    .ite (fun _ => raises_valueError _) fun _ => .ok ()).bind fun _ => ?_
  exact .forM fun limitation _ => raises_requireText limitation _

theorem raises_checkProducer (producer : ProducerFields) : RaisesValueError producer.check :=
  (raises_requireText _ _).bind fun _ => .forM fun value _ => raises_requireDigest value _

theorem raises_checkSnapshot (snapshot : SourceSnapshotFields) : RaisesValueError snapshot.check := by
  refine (raises_requireDigest _ _).bind fun _ => ?_
  refine (raises_requireRelativePaths _ _).bind fun _ => ?_
  refine (raises_requireRelativePaths _ _).bind fun _ => ?_
  refine (forM fun value _ => raises_requireText value _).bind fun _ => ?_
  exact .forM fun value _ => raises_requireText value _

theorem raises_checkIdentity (identity : RunIdentityFields) : RaisesValueError identity.check :=
  (raises_requireDigest _ _).bind fun _ => raises_requireDigest _ _

theorem raises_checkScope (scope : ScopeSelectionFields) : RaisesValueError scope.check := by
  refine (forM fun field _ => ?_).bind fun _ => ?_
  · exact (forM fun value _ => raises_requireIdentifier value _).bind fun _ =>
      raises_requireUniqueIdentifiers _ _
  · exact (raises_refuseIf _).bind fun _ => raises_refuseIf _

theorem raises_checkExecution (execution : ExecutionSummaryFields) : RaisesValueError execution.check :=
  (forM fun _ _ => .forM fun value _ => raises_requireIdentifier value _).bind fun _ =>
    raises_refuseIf _

theorem raises_checkGate (gate : GateOutcomeFields) : RaisesValueError gate.check :=
  (forM fun value _ => raises_requireText value _).bind fun _ =>
    (raises_refuseIf _).bind fun _ => raises_refuseIf _

theorem raises_checkBaseline (baseline : BaselineComparisonFields) : RaisesValueError baseline.check :=
  (forM fun _ _ => .forM fun value _ => raises_requireText value _).bind fun _ =>
    raises_refuseIf _

theorem raises_checkRecord (record : CheckRecordFields) : RaisesValueError record.check := by
  refine (forM fun field _ => raises_requireIdentifier _ _).bind fun _ => ?_
  refine (forM fun field _ => .forM fun value _ =>
    raises_requireIdentifier value _).bind fun _ => ?_
  exact (raises_requireDigest _ _).bind fun _ => raises_refuseIf _

theorem raises_checkResult (result : RunResultFields) : RaisesValueError result.check := by
  refine (raises_requireText _ _).bind fun _ => ?_
  refine (forM fun value _ => raises_requireText value _).bind fun _ => ?_
  refine (raises_refuseIf _).bind fun _ => ?_
  refine (raises_refuseIf _).bind fun _ => ?_
  refine (forM fun checks _ => ?_).bind fun _ => ?_
  · exact (raises_refuseIf _).bind fun _ => raises_requireUniqueIdentifiers _ _
  · exact (raises_refuseIf _).bind fun _ => raises_refuseIf _

theorem raises_spanFromDict (payload : Json) : RaisesValueError (spanFromDict payload) := by
  refine (raises_requireMapping _ _).bind fun data => ?_
  refine (raises_relativePathValue _ _ _).bind fun _ => ?_
  refine (raises_nonNegativeValue _ _).bind fun _ => ?_
  refine (raises_refuseIf _).bind fun _ => ?_
  refine (raises_unlessNone _ fun value => raises_nonNegativeValue value _).bind fun _ => ?_
  refine (raises_refuseIf _).bind fun _ => ?_
  refine (raises_unlessNone _ fun value => raises_nonNegativeValue value _).bind fun _ => ?_
  refine (raises_refuseIf _).bind fun _ => ?_
  refine (raises_unlessNone _ fun value => raises_nonNegativeValue value _).bind fun _ => ?_
  refine (raises_refuseIf _).bind fun _ => ?_
  exact (raises_stringValue _ _).bind fun _ => raises_construct (raises_checkSpan _)

theorem raises_producerFromDict (producer : Dict Text Json) :
    RaisesValueError (producerFromDict producer) := by
  refine (raises_textValue _ _).bind fun _ => ?_
  exact (raises_unlessNone _ fun value => raises_digestValue value _).bind fun _ =>
    raises_construct (raises_checkProducer _)

theorem raises_publicationFromDict (payload : Json) : RaisesValueError (publicationFromDict payload) := by
  unfold publicationFromDict
  split
  · exact .ok _
  · refine (raises_requireMapping _ _).bind fun _ => ?_
    refine (raises_readEnum _ _ _).bind fun _ => ?_
    exact (raises_stringValue _ _).bind fun _ => .ok _

theorem raises_checkRecordCall (data : Dict Text Json) :
    Raises (fun e => e.name = py "TypeError") (checkRecordCall data) := by
  unfold checkRecordCall
  split
  · exact .error rfl
  · split
    · exact .ok ()
    · exact .error rfl

/-- A keyword that the record does not have is a `TypeError`, which is caught with the others. -/
theorem raises_checkRecordOfValues (data : Dict Text Json) :
    Raises (fun e => e.name = py "TypeError" ∨ isValueError e = true) (checkRecordOfValues data) := by
  have hValue {α : Type} {x : Result α} (h : RaisesValueError x) :
      Raises (fun e => e.name = py "TypeError" ∨ isValueError e = true) x := h.mono fun _ => .inr
  refine (hValue (raises_readEnum _ _ _)).bind fun _ => ?_
  refine ((raises_checkRecordCall data).mono fun _ => .inl).bind fun _ => hValue ?_
  refine (raises_identifierValue _ _).bind fun _ => ?_
  refine (raises_identifierValue _ _).bind fun _ => ?_
  refine (raises_identifierValue _ _).bind fun _ => ?_
  refine (raises_identifierValue _ _).bind fun _ => ?_
  refine (raises_unlessNone _ fun value => raises_identifierValue value _).bind fun _ => ?_
  refine (raises_unlessNone _ fun value => raises_identifierValue value _).bind fun _ => ?_
  refine (raises_digestValue _ _).bind fun _ => ?_
  exact (raises_boolValue _ _).bind fun _ => raises_construct (raises_checkRecord _)

theorem raises_checkRecordFromDict (payload : Json) : RaisesValueError (checkRecordFromDict payload) := by
  refine (raises_requireMapping _ _).bind fun data => .ite (fun _ => ?_) fun _ => raises_schemaError _
  split
  · exact .ok _
  · rename_i e hError
    exact .ite (fun _ => raises_schemaError _) fun hOther =>
      absurd (raises_checkRecordOfValues data e hError) hOther

theorem raises_checksFromDict (payload : Json) : RaisesValueError (checksFromDict payload) := by
  unfold checksFromDict
  split
  · exact .ok _
  · exact (mapM fun item _ => raises_checkRecordFromDict item).map _
  · exact raises_schemaError _

end Ici
