import Mathlib.Data.List.Sort
import Ici.Library.Raising
import Ici.Library.Utf8

/-! # JSON texts

`json.dumps` with sorted keys, and the UTF-8 bytes of what it returns. Which values it refuses is
read off the leaves of the document. -/

namespace Python

open List Raising

inductive Json where
  | null
  | bool (value : Bool)
  | int (value : ℤ)
  | float (value : Double)
  | str (value : Text)
  | arr (items : List Json)
  | obj (fields : List (Text × Json))

namespace Json

/-- The arguments of `json.dumps`; keys are always sorted. -/
structure Style where
  itemSeparator : Text := py ", "
  keySeparator : Text := py ": "
  ensureAscii : Bool := true
  allowNan : Bool := true

def escapeChar (ensureAscii : Bool) (c : CodePoint) : Text :=
  if c = 0x22 ∨ c = 0x5c then [0x5c, c]
  else if c = 0x8 then py "\\b"
  else if c = 0x9 then py "\\t"
  else if c = 0xa then py "\\n"
  else if c = 0xc then py "\\f"
  else if c = 0xd then py "\\r"
  else if c.val < 0x20 then py "\\u" ++ hex 4 c.val
  else if !ensureAscii ∨ c.val < 0x7f then [c]
  else if c.val < 0x10000 then py "\\u" ++ hex 4 c.val
  else py "\\u" ++ hex 4 (0xd800 + (c.val - 0x10000) / 0x400) ++
    py "\\u" ++ hex 4 (0xdc00 + (c.val - 0x10000) % 0x400)

def encodeStr (style : Style) (t : Text) : Text :=
  [0x22] ++ t.flatMap (escapeChar style.ensureAscii) ++ [0x22]

def encodeFloat (style : Style) (x : Double) : Result Text :=
  if x.val.isFinite then .ok x.val.pyRepr
  else if !style.allowNan then
    .error (valueError (py "Out of range float values are not JSON compliant: " ++ x.val.pyRepr))
  else .ok (match x.val with
    | .inf negative => if negative then py "-Infinity" else py "Infinity"
    | _ => py "NaN")

mutual

def encode (style : Style) : Json → Result Text
  | null => .ok (py "null")
  | bool value => .ok (if value then py "true" else py "false")
  | int value => strInt value
  | float value => encodeFloat style value
  | str value => .ok (encodeStr style value)
  | arr items => (encodeItems style items).map fun parts =>
    [0x5b] ++ join style.itemSeparator parts ++ [0x5d]
  | obj fields => (((encodeFields style fields).insertionSort (·.1 ≤ ·.1)).mapM Prod.snd).map
      fun parts => [0x7b] ++ join style.itemSeparator parts ++ [0x7d]

def encodeItems (style : Style) : List Json → Result (List Text)
  | [] => .ok []
  | item :: rest => do
    let part ← encode style item
    let parts ← encodeItems style rest
    return part :: parts

def encodeFields (style : Style) : List (Text × Json) → List (Text × Result Text)
  | [] => []
  | (key, value) :: rest =>
    (key, (encode style value).map (encodeStr style key ++ style.keySeparator ++ ·)) ::
      encodeFields style rest

end

/-! ## Leaves -/

inductive Leaf where
  | int (value : ℤ)
  | float (value : Double)
  | text (value : Text)

mutual

def leaves : Json → List Leaf
  | null => []
  | bool _ => []
  | int value => [.int value]
  | float value => [.float value]
  | str value => [.text value]
  | arr items => leavesOfItems items
  | obj fields => leavesOfFields fields

def leavesOfItems : List Json → List Leaf
  | [] => []
  | item :: rest => leaves item ++ leavesOfItems rest

def leavesOfFields : List (Text × Json) → List Leaf
  | [] => []
  | (key, value) :: rest => .text key :: leaves value ++ leavesOfFields rest

end

variable {leaf : Leaf} {fields : List (Text × Json)} {field : Text × Json}

theorem mem_leavesOfItems {items : List Json} {item : Json} (hItem : item ∈ items)
    (hLeaf : leaf ∈ item.leaves) : leaf ∈ leavesOfItems items := by
  induction items with
  | nil => cases hItem
  | cons first rest ih =>
    rw [leavesOfItems, mem_append]
    rcases mem_cons.mp hItem with rfl | hItem
    · exact .inl hLeaf
    · exact .inr (ih hItem)

theorem mem_leavesOfFields
    (hField : field ∈ fields) (hLeaf : leaf ∈ field.2.leaves) : leaf ∈ leavesOfFields fields := by
  induction fields with
  | nil => cases hField
  | cons first rest ih =>
    rw [leavesOfFields, cons_append, mem_cons, mem_append]
    rcases mem_cons.mp hField with rfl | hField
    · exact .inr (.inl hLeaf)
    · exact .inr (.inr (ih hField))

theorem key_mem_leavesOfFields (hField : field ∈ fields) : Leaf.text field.1 ∈ leavesOfFields fields := by
  induction fields with
  | nil => cases hField
  | cons first rest ih =>
    rw [leavesOfFields, cons_append, mem_cons, mem_append]
    rcases mem_cons.mp hField with rfl | hField
    · exact .inl rfl
    · exact .inr (.inr (ih hField))

/-- A number `json.dumps` can render. -/
def Leaf.IsPrintable (style : Style) : Leaf → Prop
  | int value => FitsDigitLimit value
  | float value => value.val.isFinite = true ∨ style.allowNan = true
  | text _ => True

/-- Every code point a leaf's texts are written with satisfies `allowed`. -/
def Leaf.WrittenIn (style : Style) (allowed : CodePoint → Prop) : Leaf → Prop
  | text value => ∀ c ∈ value.flatMap (escapeChar style.ensureAscii), allowed c
  | _ => True

def Leaf.IsEncodable : Leaf → Prop
  | text value => NoSurrogate value
  | _ => True

theorem exists_strInt_iff (n : ℤ) : (∃ t, strInt n = .ok t) ↔ FitsDigitLimit n := by
  unfold strInt
  split <;> simp [*]

theorem exists_encodeFloat_iff (style : Style) (x : Double) :
    (∃ t, encodeFloat style x = .ok t) ↔ x.val.isFinite = true ∨ style.allowNan = true := by
  unfold encodeFloat
  split
  · simp [*]
  · split <;> simp_all

theorem exists_map_iff {α β : Type} {x : Result α} {f : α → β} : (∃ b, x.map f = .ok b) ↔ ∃ a, x = .ok a := by
  cases x with
  | error e => exact ⟨fun ⟨_, h⟩ => (nomatch h), fun ⟨_, h⟩ => (nomatch h)⟩
  | ok a => exact ⟨fun _ => ⟨a, rfl⟩, fun _ => ⟨f a, rfl⟩⟩

mutual

theorem exists_encode_iff (style : Style) : ∀ j : Json,
    (∃ t, encode style j = .ok t) ↔ ∀ leaf ∈ j.leaves, leaf.IsPrintable style
  | null => by simp [encode, leaves]
  | bool value => by simp [encode, leaves]
  | int value => by simpa [encode, leaves, Leaf.IsPrintable] using exists_strInt_iff value
  | float value => by
    simpa [encode, leaves, Leaf.IsPrintable] using exists_encodeFloat_iff style value
  | str value => by simp [encode, leaves, Leaf.IsPrintable]
  | arr items => by
    rw [encode, exists_map_iff, leaves]
    exact exists_encodeItems_iff style items
  | obj fields => by
    rw [encode, exists_map_iff, exists_mapM_eq_ok, leaves, ← exists_encodeFields_iff style fields]
    simp only [mem_insertionSort]

theorem exists_encodeItems_iff (style : Style) : ∀ items : List Json,
    (∃ parts, encodeItems style items = .ok parts) ↔ ∀ leaf ∈ leavesOfItems items, leaf.IsPrintable style
  | [] => by simp [encodeItems, leavesOfItems]
  | item :: rest => by
    rw [leavesOfItems, forall_mem_append, ← exists_encode_iff style item,
      ← exists_encodeItems_iff style rest, encodeItems]
    constructor
    · rintro ⟨parts, h⟩
      obtain ⟨part, hPart, h⟩ := bind_eq_ok.mp h
      obtain ⟨later, hLater, -⟩ := bind_eq_ok.mp h
      exact ⟨⟨part, hPart⟩, later, hLater⟩
    · rintro ⟨⟨part, hPart⟩, later, hLater⟩
      exact ⟨part :: later, bind_eq_ok.mpr
        ⟨part, hPart, bind_eq_ok.mpr ⟨later, hLater, rfl⟩⟩⟩

theorem exists_encodeFields_iff (style : Style) : ∀ fields : List (Text × Json),
    (∀ pair ∈ encodeFields style fields, ∃ t, pair.2 = .ok t) ↔
      ∀ leaf ∈ leavesOfFields fields, leaf.IsPrintable style
  | [] => by simp [encodeFields, leavesOfFields]
  | (key, value) :: rest => by
    rw [leavesOfFields, encodeFields, forall_mem_cons, cons_append, forall_mem_cons, forall_mem_append,
      exists_map_iff, exists_encode_iff style value, exists_encodeFields_iff style rest]
    simp [Leaf.IsPrintable]

end

/-! ## The code points of a document

Besides what the texts are written with, a document holds printable ASCII only. -/

structure Style.Admits (style : Style) (allowed : CodePoint → Prop) : Prop where
  plain : ∀ c : CodePoint, 0x20 ≤ c.val ∧ c.val < 0x80 → allowed c
  item : ∀ c ∈ style.itemSeparator, allowed c
  key : ∀ c ∈ style.keySeparator, allowed c

section

variable {style : Style} {allowed : CodePoint → Prop}

theorem Style.Admits.text (h : style.Admits allowed) {t : Text} (ht : IsPlain t) : ∀ c ∈ t, allowed c :=
  fun c hc => h.plain c (ht c hc)

theorem forall_encodeStr_iff (h : style.Admits allowed) (t : Text) :
    (∀ c ∈ encodeStr style t, allowed c) ↔ (Leaf.text t).WrittenIn style allowed := by
  have hQuote : allowed 0x22 := h.plain 0x22 (by decide)
  rw [encodeStr, forall_mem_append, forall_mem_append]
  simp only [forall_mem_singleton, hQuote, true_and, and_true, Leaf.WrittenIn]

theorem isPlain_encodeFloat {x : Double} {t : Text} (h : encodeFloat style x = .ok t) : IsPlain t := by
  unfold encodeFloat at h
  split at h
  · cases h
    exact x.val.isPlain_pyRepr
  split at h
  · cases h
  · cases h
    cases x.val with
    | inf negative => cases negative <;> decide
    | fin value => exact (by decide : IsPlain (py "NaN"))
    | nan => decide

theorem forall_join_iff {separator : Text} (hSeparator : ∀ c ∈ separator, allowed c) (items : List Text) :
    (∀ c ∈ join separator items, allowed c) ↔ ∀ item ∈ items, ∀ c ∈ item, allowed c := by
  induction items with
  | nil => simp [join]
  | cons item rest ih =>
    cases rest with
    | nil => simp [join]
    | cons next rest =>
      have hStep : join separator (item :: next :: rest) =
          item ++ separator ++ join separator (next :: rest) := by
        simp [join, List.intercalate, List.intersperse]
      rw [hStep, forall_mem_append, forall_mem_append, ih, forall_mem_cons (a := item)]
      tauto

theorem forall_bracketed_iff (h : style.Admits allowed) {first last : CodePoint}
    (hFirst : 0x20 ≤ first.val ∧ first.val < 0x80) (hLast : 0x20 ≤ last.val ∧ last.val < 0x80)
      (parts : List Text) :
    (∀ c ∈ [first] ++ join style.itemSeparator parts ++ [last], allowed c) ↔
      ∀ part ∈ parts, ∀ c ∈ part, allowed c := by
  rw [forall_mem_append, forall_mem_append, forall_join_iff h.item]
  simp [h.plain first hFirst, h.plain last hLast]

end

mutual

theorem forall_encode_iff {style : Style} {allowed : CodePoint → Prop}
    (h : style.Admits allowed) : ∀ (j : Json) (t : Text), encode style j = .ok t →
    ((∀ c ∈ t, allowed c) ↔ ∀ leaf ∈ j.leaves, leaf.WrittenIn style allowed)
  | null, t, hEncode => by
    cases hEncode
    have hText : ∀ c ∈ py "null", allowed c := h.text (by decide)
    simpa [leaves] using hText
  | bool value, t, hEncode => by
    cases hEncode
    have hText : ∀ c ∈ (if value then py "true" else py "false"), allowed c :=
      h.text (by cases value <;> decide)
    simpa [leaves] using hText
  | int value, t, hEncode => by
    have hText := h.text (isPlain_strInt hEncode)
    simpa [leaves, Leaf.WrittenIn] using hText
  | float value, t, hEncode => by
    have hText := h.text (isPlain_encodeFloat hEncode)
    simpa [leaves, Leaf.WrittenIn] using hText
  | str value, t, hEncode => by
    cases hEncode
    simpa [leaves] using forall_encodeStr_iff h value
  | arr items, t, hEncode => by
    obtain ⟨parts, hParts, rfl⟩ := map_eq_ok.mp hEncode
    rw [forall_bracketed_iff h (by decide) (by decide), leaves]
    exact forall_encodeItems_iff h items parts hParts
  | obj fields, t, hEncode => by
    obtain ⟨parts, hParts, rfl⟩ := map_eq_ok.mp hEncode
    rw [forall_bracketed_iff h (by decide) (by decide), leaves,
      ← forall_encodeFields_iff h fields fun pair hPair => by
        obtain ⟨part, -, hEq⟩ := mem_mapM_of_mem hParts
          ((mem_insertionSort _).mpr hPair)
        exact ⟨part, hEq⟩]
    constructor
    · intro hAll pair hPair t ht
      obtain ⟨part, hPart, hEq⟩ := mem_mapM_of_mem hParts
        ((mem_insertionSort _).mpr hPair)
      rw [ht] at hEq
      cases hEq
      exact hAll t hPart
    · intro hAll part hPart
      obtain ⟨pair, hPair, hEq⟩ := exists_of_mem_mapM hParts hPart
      exact hAll pair ((mem_insertionSort _).mp hPair) part hEq

theorem forall_encodeItems_iff {style : Style} {allowed : CodePoint → Prop}
    (h : style.Admits allowed) : ∀ (items : List Json) (parts : List Text),
    encodeItems style items = .ok parts →
    ((∀ part ∈ parts, ∀ c ∈ part, allowed c) ↔ ∀ leaf ∈ leavesOfItems items, leaf.WrittenIn style allowed)
  | [], parts, hEncode => by
    cases hEncode
    simp [leavesOfItems]
  | item :: rest, parts, hEncode => by
    obtain ⟨part, hPart, hEncode⟩ := bind_eq_ok.mp hEncode
    obtain ⟨later, hLater, hEncode⟩ := bind_eq_ok.mp hEncode
    cases hEncode
    rw [forall_mem_cons, leavesOfItems, forall_mem_append,
      forall_encode_iff h item part hPart, forall_encodeItems_iff h rest later hLater]

theorem forall_encodeFields_iff {style : Style} {allowed : CodePoint → Prop}
    (h : style.Admits allowed) : ∀ fields : List (Text × Json),
    (∀ pair ∈ encodeFields style fields, ∃ t, pair.2 = .ok t) →
    ((∀ pair ∈ encodeFields style fields, ∀ t, pair.2 = .ok t → ∀ c ∈ t, allowed c) ↔
      ∀ leaf ∈ leavesOfFields fields, leaf.WrittenIn style allowed)
  | [], _ => by simp [encodeFields, leavesOfFields]
  | (key, value) :: rest, hOk => by
    rw [encodeFields, forall_mem_cons] at hOk
    obtain ⟨⟨member, hMember⟩, hRest⟩ := hOk
    obtain ⟨t, ht, rfl⟩ := map_eq_ok.mp hMember
    rw [encodeFields, forall_mem_cons, leavesOfFields, cons_append, forall_mem_cons, forall_mem_append,
      ← forall_encodeFields_iff h rest hRest, ← forall_encode_iff h value t ht, ← and_assoc]
    apply and_congr_left'
    simp only [ht, Except.map, Except.ok.injEq, forall_eq', forall_mem_append, forall_encodeStr_iff h]
    exact and_congr_left fun _ => and_iff_left h.key

end

theorem noSurrogate_escapeChar (c : CodePoint) :
    NoSurrogate (escapeChar false c) ↔ isSurrogate c = false := by
  unfold escapeChar
  split
  · rename_i h
    rcases h with rfl | rfl <;> decide
  iterate 5
    split
    · rename_i h
      subst h
      decide
  split
  · rename_i h
    have hNot : isSurrogate c = false := by
      simp only [isSurrogate, Bool.and_eq_false_iff, decide_eq_false_iff_not]
      omega
    simp only [noSurrogate_append, (isPlain_hex 4 c.val).noSurrogate, and_true, hNot, iff_true]
    decide
  · simp

theorem isPlain_escapeChar (c : CodePoint) : IsPlain (escapeChar true c) := by
  unfold escapeChar
  split
  · rename_i h
    rcases h with rfl | rfl <;> decide
  iterate 5
    split
    · decide
  split
  · exact IsPlain.append (by decide) (isPlain_hex _ _)
  split
  · rename_i h
    intro d hd
    rw [mem_singleton.mp hd]
    simp only [Bool.not_true, Bool.false_eq_true, false_or] at h
    omega
  split
  · exact IsPlain.append (by decide) (isPlain_hex _ _)
  · exact ((IsPlain.append (by decide) (isPlain_hex _ _)).append (by decide)).append
      (isPlain_hex _ _)

/-- Without `ensure_ascii` a document has bytes iff its texts have. -/
theorem noSurrogate_encode_iff {style : Style} (hAscii : style.ensureAscii = false)
    (hStyle : style.Admits (isSurrogate · = false)) {j : Json} {t : Text}
    (h : encode style j = .ok t) :
    NoSurrogate t ↔ ∀ leaf ∈ j.leaves, leaf.IsEncodable := by
  refine (forall_encode_iff hStyle j t h).trans ?_
  refine forall₂_congr fun leaf _ => ?_
  cases leaf with
  | int value => rfl
  | float value => rfl
  | text value =>
    simp only [Leaf.WrittenIn, Leaf.IsEncodable, hAscii, NoSurrogate, mem_flatMap,
      forall_exists_index, and_imp]
    constructor
    · intro hAll c hc
      exact (noSurrogate_escapeChar c).mp fun d hd => hAll d c hc hd
    · intro hAll d c hc hd
      exact (noSurrogate_escapeChar c).mpr (hAll c hc) d hd

theorem isPlain_encode {style : Style} (hAscii : style.ensureAscii = true)
    (hStyle : style.Admits fun c => 0x20 ≤ c.val ∧ c.val < 0x80) {j : Json} {t : Text}
    (h : encode style j = .ok t) : IsPlain t := by
  refine (forall_encode_iff hStyle j t h).mpr ?_
  intro leaf _
  cases leaf with
  | int value => trivial
  | float value => trivial
  | text value =>
    simp only [Leaf.WrittenIn, hAscii, mem_flatMap]
    rintro d ⟨c, -, hd⟩
    exact isPlain_escapeChar c d hd

end Json

end Python
