import Ici.Library.Decimals
import Ici.Library.Dict
import Ici.Library.Json

/-! # Reading JSON texts

`json.loads`: the scanner of the standard library, which accepts `NaN` and the infinities, keeps the
last of two members with one name, and enters a container only while the interpreter's recursion
allowance lasts. The line and column of an error are not kept. -/

namespace Python

namespace Json

def decodeError (text : Text) : PyError := ⟨py "JSONDecodeError", text⟩

def recursionError : PyError :=
  ⟨py "RecursionError", py "maximum recursion depth exceeded while decoding a JSON document"⟩

def isWhitespace (c : CodePoint) : Bool := c == 0x20 || c == 0x9 || c == 0xa || c == 0xd

def skip (t : Text) : Text := t.dropWhile isWhitespace

def hexValue (c : CodePoint) : Option ℕ :=
  if 0x30 ≤ c.val ∧ c.val ≤ 0x39 then some (c.val - 0x30)
  else if 0x41 ≤ c.val ∧ c.val ≤ 0x46 then some (c.val - 0x37)
  else if 0x61 ≤ c.val ∧ c.val ≤ 0x66 then some (c.val - 0x57)
  else none

def scanUnit : Text → Option (ℕ × Text)
  | a :: b :: c :: d :: rest => do
    let a ← hexValue a
    let b ← hexValue b
    let c ← hexValue c
    let d ← hexValue d
    return (((a * 16 + b) * 16 + c) * 16 + d, rest)
  | _ => none

/-- What follows `\u`: a high surrogate takes a low one that is escaped right behind it. -/
def scanUnicode (t : Text) : Option (CodePoint × Text) := do
  let high ← scanUnit t
  if 0xd800 ≤ high.1 ∧ high.1 ≤ 0xdbff then
    match high.2 with
    | back :: mark :: more =>
      if back = 0x5c ∧ mark = 0x75 then do
        let low ← scanUnit more
        if 0xdc00 ≤ low.1 ∧ low.1 ≤ 0xdfff then
          return (Fin.ofNat 0x110000 (0x10000 + (high.1 - 0xd800) * 0x400 + (low.1 - 0xdc00)), low.2)
        else return (Fin.ofNat 0x110000 high.1, high.2)
      else return (Fin.ofNat 0x110000 high.1, high.2)
    | _ => return (Fin.ofNat 0x110000 high.1, high.2)
  else return (Fin.ofNat 0x110000 high.1, high.2)

def unescaped (c : CodePoint) : Option CodePoint :=
  if c = 0x22 ∨ c = 0x5c ∨ c = 0x2f then some c
  else if c = 0x62 then some 0x8
  else if c = 0x66 then some 0xc
  else if c = 0x6e then some 0xa
  else if c = 0x72 then some 0xd
  else if c = 0x74 then some 0x9
  else none

def scanEscape : Text → Result (CodePoint × Text)
  | [] => .error (decodeError (py "Unterminated string starting at"))
  | c :: rest =>
    if c = 0x75 then match scanUnicode rest with
      | some found => .ok found
      | none => .error (decodeError (py "Invalid \\uXXXX escape"))
    else match unescaped c with
      | some d => .ok (d, rest)
      | none => .error (decodeError (py "Invalid \\escape"))

/-- The characters up to the closing quote; every round of the loop takes at least one. -/
def scanBody : ℕ → Text → Result (Text × Text)
  | 0, _ => .error (decodeError (py "Unterminated string starting at"))
  | _ + 1, [] => .error (decodeError (py "Unterminated string starting at"))
  | fuel + 1, c :: rest =>
    if c = 0x22 then .ok ([], rest)
    else if c = 0x5c then do
      let found ← scanEscape rest
      let tail ← scanBody fuel found.2
      return (found.1 :: tail.1, tail.2)
    else if c.val < 0x20 then .error (decodeError (py "Invalid control character at"))
    else do
      let tail ← scanBody fuel rest
      return (c :: tail.1, tail.2)

def scanString (t : Text) : Result (Text × Text) := scanBody (t.length + 1) t

/-! ## Values -/

/-- `NaN`, `Infinity` and `-Infinity` are read as the floats they name. -/
def constants : List (Text × Json) :=
  [(py "null", .null), (py "true", .bool true), (py "false", .bool false),
    (py "NaN", .float ⟨.nan, trivial⟩), (py "Infinity", .float ⟨.inf false, trivial⟩),
    (py "-Infinity", .float ⟨.inf true, trivial⟩)]

def scanConstant (t : Text) : Option (Json × Text) :=
  constants.findSome? fun constant =>
    if constant.1.isPrefixOf t then some (constant.2, t.drop constant.1.length) else none

def numeralValue (n : Numeral) : Result Json :=
  if n.isInteger then n.toInt.map .int else .ok (.float n.toFloat)

def scanScalar (t : Text) : Result (Json × Text) :=
  match scanConstant t with
  | some found => .ok found
  | none => match scanNumeral t with
    | some (n, rest) => (numeralValue n).map fun value => (value, rest)
    | none => .error (decodeError (py "Expecting value"))

def scanSequence {α : Type} (close : CodePoint) (scan : Text → Result (α × Text)) :
    ℕ → Text → Result (List α × Text)
  | 0, _ => .error (decodeError (py "Expecting value"))
  | fuel + 1, t => do
    let entry ← scan t
    match skip entry.2 with
    | [] => .error (decodeError (py "Expecting ',' delimiter"))
    | c :: rest =>
      if c = close then return ([entry.1], rest)
      else if c = 0x2c then do
        let later ← scanSequence close scan fuel (skip rest)
        return (entry.1 :: later.1, later.2)
      else .error (decodeError (py "Expecting ',' delimiter"))

section

variable (element : Text → Result (Json × Text)) (t : Text)

def scanMember : Result ((Text × Json) × Text) :=
  match t with
  | [] => .error (decodeError (py "Expecting property name enclosed in double quotes"))
  | quote :: body =>
    if quote = 0x22 then do
      let key ← scanString body
      match skip key.2 with
      | [] => .error (decodeError (py "Expecting ':' delimiter"))
      | colon :: rest =>
        if colon = 0x3a then do
          let value ← element (skip rest)
          return ((key.1, value.1), value.2)
        else .error (decodeError (py "Expecting ':' delimiter"))
    else .error (decodeError (py "Expecting property name enclosed in double quotes"))

def scanArray : Result (Json × Text) :=
  match skip t with
  | [] => .error (decodeError (py "Expecting value"))
  | c :: rest =>
    if c = 0x5d then .ok (.arr [], rest)
    else (scanSequence 0x5d element (t.length + 1) (c :: rest)).map fun items => (.arr items.1, items.2)

def scanObject : Result (Json × Text) :=
  match skip t with
  | [] => .error (decodeError (py "Expecting property name enclosed in double quotes"))
  | c :: rest =>
    if c = 0x7d then .ok (.obj [], rest)
    else (scanSequence 0x7d (scanMember element) (t.length + 1) (c :: rest)).map fun members =>
      (.obj (Dict.setAll [] members.1), members.2)

end

/-- One value; without an `element` scanner the recursion allowance is used up. -/
def scanWith (element : Option (Text → Result (Json × Text))) (t : Text) : Result (Json × Text) :=
  match t with
  | [] => .error (decodeError (py "Expecting value"))
  | c :: rest =>
    if c = 0x22 then (scanString rest).map fun text => (.str text.1, text.2)
    else if c = 0x7b then match element with
      | some element => scanObject element rest
      | none => .error recursionError
    else if c = 0x5b then match element with
      | some element => scanArray element rest
      | none => .error recursionError
    else scanScalar (c :: rest)

/-- A value with at most `depth` containers around a scalar. -/
def scanValue : ℕ → Text → Result (Json × Text)
  | 0 => scanWith none
  | depth + 1 => scanWith (some (scanValue depth))

/-- `json.loads` on a `str`. -/
def loads (depth : ℕ) (t : Text) : Result Json :=
  if t.head? = some 0xfeff then
    .error (decodeError (py "Unexpected UTF-8 BOM (decode using utf-8-sig)"))
  else do
    let value ← scanValue depth (skip t)
    if skip value.2 = [] then return value.1
    else .error (decodeError (py "Extra data"))

end Json

end Python
