import Ici.Domain.Validation
import Ici.Library.JsonText

/-! # Primitives shared by the result and event codecs

A decoder is given whatever a JSON document holds: a field that is absent reads as `None`, and every
model checks the type of what it is handed before anything else. -/

namespace Ici

open Python

/-- How deep `json.loads` may nest. No document written here nests more than sixteen containers,
and an interpreter that could not read those could not have come this far. -/
structure Nesting where
  limit : ℕ
  enough : 16 ≤ limit

def schemaError (text : Text) : PyError := ⟨py "SchemaError", text⟩

def unsupportedSchemaError (text : Text) : PyError := ⟨py "UnsupportedSchemaError", text⟩

/-- `except ValueError`. -/
def isValueError (e : PyError) : Bool :=
  e.name ∈ [py "ValueError", py "SchemaError", py "UnsupportedSchemaError", py "JSONDecodeError",
    py "UnicodeDecodeError", py "UnicodeEncodeError"]

def typeName : Json → Text
  | .null => py "NoneType"
  | .bool _ => py "bool"
  | .int _ => py "int"
  | .float _ => py "float"
  | .str _ => py "str"
  | .arr _ => py "list"
  | .obj _ => py "dict"

mutual

/-- `repr(value)`; an integer past the digit limit has none. -/
def reprValue : Json → Result Text
  | .null => .ok (py "None")
  | .bool value => .ok (if value then py "True" else py "False")
  | .int value => strInt value
  | .float value => .ok value.val.pyRepr
  | .str value => .ok (pyRepr value)
  | .arr items => (reprItems items).map fun parts => py "[" ++ join (py ", ") parts ++ py "]"
  | .obj fields => (reprFields fields).map fun parts => [0x7b] ++ join (py ", ") parts ++ [0x7d]

def reprItems : List Json → Result (List Text)
  | [] => .ok []
  | item :: rest => do
    let part ← reprValue item
    let parts ← reprItems rest
    return part :: parts

def reprFields : List (Text × Json) → Result (List Text)
  | [] => .ok []
  | (key, value) :: rest => do
    let part ← reprValue value
    let parts ← reprFields rest
    return (pyRepr key ++ py ": " ++ part) :: parts

end

section

variable (value : Json) (description : Text)

def requireMapping : Result (Dict Text Json) :=
  match value with
  | .obj fields => .ok fields
  | other => .error (schemaError
      (description ++ py " must be a JSON object, got " ++ typeName other))

def getValue (data : Dict Text Json) (name : Text) : Json := (data.get? name).getD .null

def getOr (data : Dict Text Json) (name : Text) (default : Json) : Json :=
  (data.get? name).getD default

def checkEnvelope (payload : Dict Text Json) (schemaId : Text) (version : ℤ) : Result Unit :=
  match getValue payload (py "schema_id") with
  | .str found =>
    if found = schemaId then
      match getValue payload (py "schema_version") with
      | .int number =>
        if number = version then .ok ()
        else do
          let shown ← strInt number
          let expected ← strInt version
          .error (unsupportedSchemaError (schemaId ++ py " version " ++ shown ++
            py " cannot be read by this build, which implements version " ++ expected))
      | other => do
        let shown ← reprValue other
        .error (schemaError (py "schema_version must be an integer, found " ++ shown))
    else .error (schemaError
      (py "expected schema_id " ++ pyRepr schemaId ++ py ", found " ++ pyRepr found))
  | other => do
    let shown ← reprValue other
    .error (schemaError (py "expected schema_id " ++ pyRepr schemaId ++ py ", found " ++ shown))

section

variable {α : Type} (members : List (Text × α)) (value : Json)

/-- `enum_type(value)`: the member with that value. -/
def enumMember : Option α :=
  match value with
  | .str t => (members.find? (·.1 = t)).map Prod.snd
  | _ => none

def readEnum (description : Text) : Result α :=
  match enumMember members value with
  | some member => .ok member
  | none => do
    let shown ← reprValue value
    .error (schemaError (description ++ py " must be one of " ++
      reprSorted (members.map Prod.fst) ++ py ", found " ++ shown))

end

def textValue : Result Text :=
  match value with
  | .str t => (requireText t description).map fun _ => t
  | _ => .error (valueError (description ++ py " must be a non-empty string"))

def identifierValue : Result Text :=
  match value with
  | .str t => (requireIdentifier t description).map fun _ => t
  | _ => .error (valueError (description ++ py " must be a non-empty string"))

def digestValue : Result Text :=
  match value with
  | .str t => (requireDigest t description).map fun _ => t
  | _ => .error (valueError (description ++ py " must be a non-empty string"))

def relativePathValue (allowDot : Bool) : Result Text :=
  match value with
  | .str t => (requireRelativePath t description allowDot).map fun _ => t
  | _ => .error (valueError (description ++ py " must be a non-empty string"))

def nonNegativeValue : Result ℤ :=
  match value with
  | .int n => (requireNonNegative n description).map fun _ => n
  | _ => .error (valueError (description ++ py " must be an integer"))

end

/-- A check that is made only when the value is not `None`. -/
def unlessNone {α : Type} (check : Json → Result α) (value : Json) : Result (Option α) :=
  match value with
  | .null => .ok none
  | other => (check other).map some

def stringValue (value : Json) (text : Text) : Result Text :=
  match value with
  | .str t => .ok t
  | _ => .error (valueError text)

end Ici
