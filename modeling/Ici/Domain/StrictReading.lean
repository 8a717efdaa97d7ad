import Ici.Domain.Coercing

/-! # Which documents are decoded without coercion

A strict reader makes the same steps as the decoder and stops where it would coerce a value of
another type than the declared one. -/

namespace Ici

open List Python Raising Guarding Json

/-! ## Strict coercions -/

/-- An array, a boolean, a text; `or ""` is for a text that may be missing. -/
def typed : Coercions where
  items
    | .arr items => .ok items
    | _ => .error stopped
  flag
    | .bool value => .ok value
    | _ => .error stopped
  orEmpty
    | .null => .ok (.str [])
    | .str t => .ok (.str t)
    | value => if truth value then .ok value else .error stopped
  number := floatOf

def declared : Coercions :=
  { typed with number n :=
      if (Double.ofRat n).val.isFinite then .ok (Double.ofRat n) else .error stopped }

def isOverflow (e : PyError) : Prop := e.name = py "OverflowError"

theorem not_isOverflow_stopped : ¬isOverflow stopped :=
  (by decide : py "Stopped" ≠ py "OverflowError")

abbrev coercing : Guarding PyError :=
  guarding (fun _ => False) True isOverflow not_isOverflow_stopped

abbrev overflowing : Guarding PyError :=
  guarding (fun e => isOverflow e ∨ e = stopped) False (fun _ => False) not_false

theorem typed_guards_builtin : Coercions.Guards coercing typed builtin where
  items value := by
    cases value with
    | arr items => exact follows_refl (.ok items)
    | _ => exact .stop (.inl trivial)
  flag value := by
    cases value with
    | bool value => exact follows_refl (.ok value)
    | _ => exact .stop (.inl trivial)
  orEmpty value := by
    have hOther {value : Json} : coercing.Follows
        (if truth value then .ok value else .error stopped : Result Json)
        (.ok (if truth value then value else .str [])) := by
      split
      · exact follows_refl (.ok value)
      · exact .stop (.inl trivial)
    cases value with
    | null => exact follows_refl (.ok _)
    | str t => cases t <;> exact follows_refl (.ok _)
    | _ => exact hOther
  number n := .refl (.ite (fun _ => .ok _) fun _ => .error (.inr rfl))

theorem declared_guards_typed : Coercions.Guards overflowing declared typed where
  items value := by
    cases value with
    | arr items => exact follows_refl (.ok items)
    | _ => exact .stop (.inr ⟨stopped, .inr rfl, rfl⟩)
  flag value := by
    cases value with
    | bool value => exact follows_refl (.ok value)
    | _ => exact .stop (.inr ⟨stopped, .inr rfl, rfl⟩)
  orEmpty value := by
    have hOther {value : Json} : overflowing.Follows
        (if truth value then .ok value else .error stopped : Result Json)
        (if truth value then .ok value else .error stopped) := by
      split
      · exact follows_refl (.ok value)
      · exact .stop (.inr ⟨stopped, .inr rfl, rfl⟩)
    cases value with
    | null | str t => exact follows_refl (.ok _)
    | _ => exact hOther
  number n := by
    change overflowing.Follows
      (if (Double.ofRat n).val.isFinite then .ok (Double.ofRat n) else .error stopped) (floatOf n)
    unfold floatOf
    split
    · exact follows_refl (.ok _)
    · exact .stop (.inr ⟨overflowError (py "int too large to convert to float"), .inl rfl, rfl⟩)

/-! ## The envelope

Its numbers are shown before any handler is in place. -/

mutual

/-- `repr(value)` exists when every integer keeps within the digit limit. -/
theorem exists_reprValue_iff : ∀ value : Json, (∃ t, reprValue value = .ok t) ↔ Json.IsShown value
  | .null => by simp [reprValue, Json.IsShown, leaves]
  | .bool _ => by simp [reprValue, Json.IsShown, leaves]
  | .int n => by
    simpa [reprValue, Json.IsShown, leaves, Json.Leaf.IsPrintable] using exists_strInt_iff n
  | .float _ => by simp [reprValue, Json.IsShown, leaves, Json.Leaf.IsPrintable]
  | .str _ => by simp [reprValue, Json.IsShown, leaves, Json.Leaf.IsPrintable]
  | .arr items => by
    rw [reprValue, exists_map_iff, Json.IsShown, leaves]
    exact exists_reprItems_iff items
  | .obj fields => by
    rw [reprValue, exists_map_iff, Json.IsShown, leaves]
    exact exists_reprFields_iff fields

theorem exists_reprItems_iff : ∀ items : List Json, (∃ parts, reprItems items = .ok parts) ↔
      ∀ leaf ∈ leavesOfItems items, leaf.IsPrintable {}
  | [] => by simp [reprItems, leavesOfItems]
  | item :: rest => by
    rw [leavesOfItems, forall_mem_append, ← exists_reprItems_iff rest, reprItems, exists_pair_iff]
    exact and_congr_left' (exists_reprValue_iff item)

theorem exists_reprFields_iff : ∀ fields : List (Text × Json), (∃ parts, reprFields fields = .ok parts) ↔
      ∀ leaf ∈ leavesOfFields fields, leaf.IsPrintable {}
  | [] => by simp [reprFields, leavesOfFields]
  | (_, value) :: rest => by
    rw [leavesOfFields, cons_append, forall_mem_cons, forall_mem_append,
      ← exists_reprFields_iff rest, reprFields, exists_pair_iff, exists_reprValue_iff value]
    exact (and_iff_right trivial).symm

end

section

variable (payload : Json)

def EnvelopeIsShown : Prop :=
  match payload with
  | .obj data =>
    match getValue data (py "schema_id") with
    | .str found => found = py "ici.next.run" →
      match getValue data (py "schema_version") with
      | .int number => number = 1 ∨ number = 2 ∨ FitsDigitLimit number
      | version => Json.IsShown version
    | found => Json.IsShown found
  | _ => True

abbrev RaisesSchemaError {α : Type} (x : Result α) : Prop := Raises (isSchemaError · = true) x

theorem raisesSchema_requireMapping (value : Json) (description : Text) :
    RaisesSchemaError (requireMapping value description) := by
  unfold requireMapping
  split
  · exact .ok _
  · exact .error rfl

theorem raisesSchema_shown_iff {value : Json} {refuse : Text → Result Unit}
    (hRefuse : ∀ shown, RaisesSchemaError (refuse shown)) :
    RaisesSchemaError (reprValue value >>= refuse) ↔ Json.IsShown value := by
  rw [← exists_reprValue_iff]
  constructor
  · intro h
    cases hShown : reprValue value with
    | ok t => exact ⟨t, rfl⟩
    | error e =>
      have hLimit := raisesLimit_reprValue value e hShown
      subst hLimit
      have hSchema := h digitLimit (by rw [hShown]; rfl)
      exact absurd hSchema (by decide)
  · rintro ⟨t, hShown⟩
    rw [hShown]
    exact hRefuse t

theorem raisesSchema_version_iff (number version : ℤ) (hVersion : FitsDigitLimit version) :
    RaisesSchemaError (do
      let shown ← strInt number
      let expected ← strInt version
      .error (unsupportedSchemaError (py "ici.next.run" ++ py " version " ++ shown ++
        py " cannot be read by this build, which implements version " ++ expected)) : Result Unit) ↔
      FitsDigitLimit number := by
  obtain ⟨expected, hExpected⟩ := (exists_strInt_iff version).mpr hVersion
  rw [hExpected, ← exists_strInt_iff]
  constructor
  · intro h
    cases hShown : strInt number with
    | ok t => exact ⟨t, rfl⟩
    | error e =>
      have hLimit := raisesLimit_strInt number e hShown
      subst hLimit
      have hSchema := h digitLimit (by rw [hShown]; rfl)
      exact absurd hSchema (by decide)
  · rintro ⟨t, hShown⟩
    rw [hShown]
    exact .error rfl

theorem raisesSchema_checkEnvelope_iff (data : Dict Text Json) :
    RaisesSchemaError (checkEnvelope data (py "ici.next.run") (envelopeVersion data)) ↔
      EnvelopeIsShown (.obj data) := by
  unfold checkEnvelope EnvelopeIsShown envelopeVersion
  dsimp only
  cases getValue data (py "schema_id") with
  | str found =>
    dsimp only
    by_cases hFound : found = py "ici.next.run"
    · rw [if_pos hFound, imp_iff_right hFound]
      cases getValue data (py "schema_version") with
      | int number =>
        dsimp only
        by_cases hOne : number = 1
        · simp only [if_pos hOne]
          exact iff_of_true (.ok ()) (.inl hOne)
        · simp only [if_neg hOne]
          by_cases hTwo : number = 2
          · simp only [if_pos hTwo]
            exact iff_of_true (.ok ()) (.inr (.inl hTwo))
          · rw [if_neg hTwo, or_iff_right hOne, or_iff_right hTwo]
            exact raisesSchema_version_iff number 2 (by decide)
      | _ => exact raisesSchema_shown_iff fun _ => .error rfl
    · rw [if_neg hFound]
      exact iff_of_true (.error rfl) fun h => absurd h hFound
  | _ => exact raisesSchema_shown_iff fun _ => .error rfl

/-! ## Strict decoding -/

/-- A result is returned, or `SchemaError` or its subclass is raised. -/
def Answers : Prop :=
  (∃ result, runResultFromDict builtin payload = .ok result) ∨
    ∃ e, isSchemaError e = true ∧ runResultFromDict builtin payload = .error e

/-- No value of another type is turned into one of the declared type on the way. -/
def CoercesNothing : Prop := runResultFromDict typed payload ≠ .error stopped

def DecodesStrictly : Prop := Answers payload ∧ CoercesNothing payload

/-- Every value that is reached where the decoder applies `tuple`, `bool`, `or` or `float` has the
declared type. -/
def IsDeclared : Prop := runResultFromDict declared payload ≠ .error stopped

end

theorem not_isValueError_overflow (e : PyError) (h : isOverflow e ∨ e = stopped) :
    isValueError e = false := by
  rcases h with hOverflow | rfl
  · unfold isOverflow at hOverflow
    unfold isValueError
    rw [hOverflow]
    decide
  · rfl

theorem raises_invalidResult {x : Result RunResult}
    (hx : Raises (fun e => isValueError e = true ∨ e = stopped) x) :
    Raises (fun e => isSchemaError e = true ∨ e = stopped) (invalidResult x) := by
  cases x with
  | ok result => exact .ok result
  | error e =>
    refine .ite (fun _ => .error (.inl rfl)) fun hKept => .error ?_
    rcases hx e rfl with hValue | rfl
    · exact .inl (by_contra fun hSchema => hKept ⟨by simpa using hSchema, hValue⟩)
    · exact .inr rfl

/-- Once the envelope can be shown, a strict reader raises `SchemaError` or stops. -/
theorem raises_declared {payload : Json} (hShown : EnvelopeIsShown payload) :
    Raises (fun e => isSchemaError e = true ∨ e = stopped) (runResultFromDict declared payload) := by
  have hSchema {α : Type} {x : Result α} (hx : RaisesSchemaError x) :
      Raises (fun e => isSchemaError e = true ∨ e = stopped) x := hx.mono fun _ => .inl
  have hRefused (text : Text) : Raises (fun e => isSchemaError e = true ∨ e = stopped)
      (.error (schemaError text) : Result PUnit) := .error (.inl rfl)
  have hRead (data : Dict Text Json) :
      Raises (fun e => isSchemaError e = true ∨ e = stopped) (do
        let execution ← requireMapping (getValue data (py "execution")) (py "execution")
        let producer ← requireMapping (getValue data (py "producer")) (py "producer")
        invalidResult (runOfValues declared data execution producer (envelopeVersion data))) := by
    refine (hSchema (raisesSchema_requireMapping _ _)).bind fun execution => ?_
    refine (hSchema (raisesSchema_requireMapping _ _)).bind fun producer => raises_invalidResult ?_
    refine (runOfValues_follows declared_guards_typed data execution producer _).raises.mono ?_
    rintro e ((hValue | hNone) | hStop)
    · exact .inl hValue
    · exact absurd hNone not_false
    · exact .inr hStop
  cases payload with
  | obj data =>
    refine (hSchema ((raisesSchema_checkEnvelope_iff data).mpr hShown)).bind fun _ => ?_
    refine .ite (fun _ => (hRefused _).bind fun _ => ?_) fun _ => ?_
    all_goals exact .ite (fun _ => (hRefused _).bind fun _ => hRead data) fun _ => hRead data
  | _ => exact .error (.inl rfl)

theorem envelopeIsShown_of_answers {payload : Json} (h : Answers payload) : EnvelopeIsShown payload := by
  cases payload with
  | obj data =>
    refine (raisesSchema_checkEnvelope_iff data).mp fun e hEnvelope => ?_
    have hRun : runResultFromDict builtin (.obj data) = .error e := by
      change (checkEnvelope data (py "ici.next.run") (envelopeVersion data) >>= _) = _
      rw [hEnvelope]
      rfl
    rcases h with ⟨result, hOk⟩ | ⟨e', hSchema, hError⟩
    · rw [hRun] at hOk
      cases hOk
    · rw [hRun] at hError
      cases hError
      exact hSchema
  | _ => exact trivial

/-- A run whose snapshot lists its files as `null`. -/
def nullFiles : Json := .obj [
  (py "schema_id", .str (py "ici.next.run")),
  (py "schema_version", .int 1),
  (py "execution", .obj []),
  (py "producer", .obj [(py "ici_version", .str (py "1.0"))]),
  (py "identity", .obj [(py "source", .obj [(py "files", .null)])])]

end Ici
