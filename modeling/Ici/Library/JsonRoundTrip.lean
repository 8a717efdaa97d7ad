import Ici.Library.FloatText
import Ici.Library.JsonText

/-! # Documents read back as they were written

Up to the order of members: a document is written with its keys sorted. -/

namespace Python

open Option Dict List Raising

namespace Json

/-! ## Strings -/

theorem hexValue_hexDigit (n : ℕ) : hexValue (hexDigit n) = some (n % 16) := by
  have hLess : n % 16 < 16 := Nat.mod_lt _ (by omega)
  have hAll : ∀ k, k < 16 → hexValue (hexDigit k) = some k := by decide
  have hSame : hexDigit n = hexDigit (n % 16) := by simp [hexDigit]
  rw [hSame, hAll _ hLess]

theorem scanUnit_hex (n : ℕ) (rest : Text) : scanUnit (hex 4 n ++ rest) = some (n % 0x10000, rest) := by
  have hDigits : hex 4 n ++ rest =
      hexDigit (n / 16 / 16 / 16) :: hexDigit (n / 16 / 16) :: hexDigit (n / 16) :: hexDigit n ::
        rest := rfl
  rw [hDigits]
  simp only [scanUnit, hexValue_hexDigit, bind_eq_bind, bind_some, Option.pure_def]
  congr 2
  omega

theorem scanUnicode_hex {n : ℕ} (h : ¬(0xd800 ≤ n % 0x10000 ∧ n % 0x10000 ≤ 0xdbff)) (rest : Text) :
    scanUnicode (hex 4 n ++ rest) = some (Fin.ofNat 0x110000 (n % 0x10000), rest) := by
  unfold scanUnicode
  rw [scanUnit_hex]
  simp only [bind_eq_bind, bind_some, if_neg h, Option.pure_def]

theorem scanUnicode_pair (high low : ℕ) (hHigh : 0xd800 ≤ high ∧ high ≤ 0xdbff)
    (hLow : 0xdc00 ≤ low ∧ low ≤ 0xdfff) (rest : Text) :
    scanUnicode (hex 4 high ++ (0x5c :: 0x75 :: (hex 4 low ++ rest))) =
      some (Fin.ofNat 0x110000 (0x10000 + (high - 0xd800) * 0x400 + (low - 0xdc00)), rest) := by
  have hHighMod : high % 0x10000 = high := Nat.mod_eq_of_lt (by omega)
  have hLowMod : low % 0x10000 = low := Nat.mod_eq_of_lt (by omega)
  unfold scanUnicode
  rw [scanUnit_hex, hHighMod]
  simp only [bind_eq_bind, bind_some, if_pos hHigh, and_self, if_true, scanUnit_hex,
    hLowMod, if_pos hLow, Option.pure_def]

def ReadsBack (ensureAscii : Bool) (c : CodePoint) : Prop := ensureAscii = true → isSurrogate c = false

theorem scanBody_escape (fuel : ℕ) {letter c : CodePoint} {rest : Text} (hU : letter ≠ 0x75)
    (hLetter : unescaped letter = some c) :
    scanBody (fuel + 1) (0x5c :: letter :: rest) =
      (scanBody fuel rest).map fun tail => (c :: tail.1, tail.2) := by
  have hEscape : scanEscape (letter :: rest) = .ok (c, rest) := by
    rw [scanEscape, if_neg hU, hLetter]
  have hQuote : (0x5c : CodePoint) ≠ 0x22 := by decide
  rw [scanBody, if_neg hQuote, if_pos rfl, hEscape]
  change (scanBody fuel rest >>= fun tail => pure (c :: tail.1, tail.2)) = _
  cases scanBody fuel rest <;> rfl

theorem scanBody_unicode (fuel : ℕ) {c : CodePoint} {t rest : Text}
    (hUnicode : scanUnicode t = some (c, rest)) :
    scanBody (fuel + 1) (0x5c :: 0x75 :: t) =
      (scanBody fuel rest).map fun tail => (c :: tail.1, tail.2) := by
  have hEscape : scanEscape (0x75 :: t) = .ok (c, rest) := by
    rw [scanEscape, if_pos rfl, hUnicode]
  have hQuote : (0x5c : CodePoint) ≠ 0x22 := by decide
  rw [scanBody, if_neg hQuote, if_pos rfl, hEscape]
  change (scanBody fuel rest >>= fun tail => pure (c :: tail.1, tail.2)) = _
  cases scanBody fuel rest <;> rfl

section

variable (ensureAscii : Bool)

theorem scanBody_escapeChar (fuel : ℕ) {c : CodePoint} (rest : Text) (h : ReadsBack ensureAscii c) :
    scanBody (fuel + 1) (escapeChar ensureAscii c ++ rest) =
      (scanBody fuel rest).map fun tail => (c :: tail.1, tail.2) := by
  have hMark : py "\\u" = [0x5c, 0x75] := by decide
  unfold escapeChar
  split
  · rename_i hSelf
    have hU : c ≠ 0x75 := by rcases hSelf with rfl | rfl <;> decide
    refine scanBody_escape fuel hU ?_
    rw [unescaped, if_pos (by tauto)]
  iterate 5
    split
    · rename_i hc
      subst hc
      exact scanBody_escape fuel (by decide) rfl
  split
  · rename_i hControl
    have hMod : c.val % 0x10000 = c.val := Nat.mod_eq_of_lt (by omega)
    have hPlain : ¬(0xd800 ≤ c.val % 0x10000 ∧ c.val % 0x10000 ≤ 0xdbff) := by omega
    have hRead := scanUnicode_hex hPlain rest
    rw [hMod, Fin.ofNat_val_eq_self] at hRead
    rw [hMark, append_assoc, cons_append, cons_append, nil_append]
    exact scanBody_unicode fuel hRead
  split
  · rename_i hQuote _ _ _ _ _ hControl _
    rw [not_or] at hQuote
    rw [singleton_append, scanBody, if_neg hQuote.1, if_neg hQuote.2, if_neg hControl]
    cases scanBody fuel rest <;> rfl
  rename_i hLiteral
  have hNot : isSurrogate c = false := by
    apply h
    cases ensureAscii with
    | true => rfl
    | false => exact absurd (.inl rfl) hLiteral
  have hPlain : ¬(0xd800 ≤ c.val ∧ c.val ≤ 0xdfff) := by
    intro hIn
    simp [isSurrogate, hIn.1, hIn.2] at hNot
  rw [hMark]
  split
  · rename_i hBmp
    have hMod : c.val % 0x10000 = c.val := Nat.mod_eq_of_lt hBmp
    have hRead := scanUnicode_hex (n := c.val) (by omega) rest
    rw [hMod, Fin.ofNat_val_eq_self] at hRead
    rw [append_assoc, cons_append, cons_append, nil_append]
    exact scanBody_unicode fuel hRead
  · have hBound : c.val < 0x110000 := c.isLt
    have hRead := scanUnicode_pair (0xd800 + (c.val - 0x10000) / 0x400)
      (0xdc00 + (c.val - 0x10000) % 0x400) (by omega) (by omega) rest
    have hValue : 0x10000 + (0xd800 + (c.val - 0x10000) / 0x400 - 0xd800) * 0x400 +
        (0xdc00 + (c.val - 0x10000) % 0x400 - 0xdc00) = c.val := by omega
    rw [hValue, Fin.ofNat_val_eq_self] at hRead
    simp only [append_assoc, cons_append, nil_append]
    exact scanBody_unicode fuel hRead

theorem scanBody_flatMap {t : Text} (h : ∀ c ∈ t, ReadsBack ensureAscii c)
    {fuel : ℕ} (hFuel : t.length < fuel) (rest : Text) :
    scanBody fuel (t.flatMap (escapeChar ensureAscii) ++ 0x22 :: rest) = .ok (t, rest) := by
  induction t generalizing fuel with
  | nil =>
    cases fuel with
    | zero => omega
    | succ fuel => rfl
  | cons c t ih =>
    cases fuel with
    | zero => omega
    | succ fuel =>
      have hTail := ih (fun d hd => h d (mem_cons_of_mem _ hd)) (Nat.lt_of_succ_lt_succ hFuel)
      rw [flatMap_cons, append_assoc, scanBody_escapeChar ensureAscii fuel _ (h c mem_cons_self), hTail]
      rfl

theorem escapeChar_ne_nil (c : CodePoint) : escapeChar ensureAscii c ≠ [] := by
  have hMark : py "\\u" = [0x5c, 0x75] := by decide
  unfold escapeChar
  rw [hMark]
  split_ifs <;> first | decide | simp

theorem length_le_flatMap (t : Text) : t.length ≤ (t.flatMap (escapeChar ensureAscii)).length := by
  induction t with
  | nil => simp
  | cons c t ih =>
    have hPos := length_pos_of_ne_nil (escapeChar_ne_nil ensureAscii c)
    rw [flatMap_cons, length_append, length_cons]
    omega

end

theorem scanString_encode (style : Style) {t : Text} (h : ∀ c ∈ t, ReadsBack style.ensureAscii c)
    (rest : Text) :
    ∃ body, encodeStr style t ++ rest = 0x22 :: body ∧ scanString body = .ok (t, rest) := by
  refine ⟨t.flatMap (escapeChar style.ensureAscii) ++ 0x22 :: rest, ?_, ?_⟩
  · simp [encodeStr]
  · refine scanBody_flatMap _ h ?_ rest
    rw [length_append]
    have hLength := length_le_flatMap style.ensureAscii t
    omega

/-! ## The document that is read -/

mutual

def canon : Json → Json
  | arr items => arr (canonItems items)
  | obj fields => obj ((canonFields fields).insertionSort (·.1 ≤ ·.1))
  | null => null
  | bool value => bool value
  | int value => int value
  | float value => float value
  | str value => str value

def canonItems : List Json → List Json
  | [] => []
  | item :: rest => canon item :: canonItems rest

def canonFields : List (Text × Json) → List (Text × Json)
  | [] => []
  | (key, value) :: rest => (key, canon value) :: canonFields rest

end

theorem canonItems_eq_map (items : List Json) : canonItems items = items.map canon := by
  induction items with
  | nil => rfl
  | cons item rest ih => rw [canonItems, ih, map_cons]

theorem canonFields_eq_map (fields : List (Text × Json)) :
    canonFields fields = fields.map fun field => (field.1, canon field.2) := by
  induction fields with
  | nil => rfl
  | cons field rest ih => rw [canonFields, ih, map_cons]

mutual

def depth : Json → ℕ
  | arr items => depthOfItems items + 1
  | obj fields => depthOfFields fields + 1
  | null => 0
  | bool _ => 0
  | int _ => 0
  | float _ => 0
  | str _ => 0

def depthOfItems : List Json → ℕ
  | [] => 0
  | item :: rest => max item.depth (depthOfItems rest)

def depthOfFields : List (Text × Json) → ℕ
  | [] => 0
  | (_, value) :: rest => max value.depth (depthOfFields rest)

end

variable {items : List Json} {d : ℕ} {fields : List (Text × Json)} {ensureAscii : Bool} {n : Numeral}

theorem depthOfItems_le_iff : depthOfItems items ≤ d ↔ ∀ item ∈ items, item.depth ≤ d := by
  induction items with
  | nil => simp [depthOfItems]
  | cons item rest ih => rw [depthOfItems, max_le_iff, ih, forall_mem_cons]

theorem depthOfFields_le_iff : depthOfFields fields ≤ d ↔ ∀ field ∈ fields, field.2.depth ≤ d := by
  induction fields with
  | nil => simp [depthOfFields]
  | cons field rest ih => rw [depthOfFields, max_le_iff, ih, forall_mem_cons]

theorem items_depth_le (h : (arr items).depth ≤ d) : ∃ k, d = k + 1 ∧ ∀ item ∈ items, item.depth ≤ k := by
  rw [depth] at h
  obtain ⟨k, rfl⟩ : ∃ k, d = k + 1 := ⟨d - 1, by omega⟩
  exact ⟨k, rfl, depthOfItems_le_iff.mp (Nat.le_of_succ_le_succ h)⟩

theorem fields_depth_le (h : (obj fields).depth ≤ d) : ∃ k, d = k + 1 ∧ ∀ field ∈ fields, field.2.depth ≤ k :=
    by
  rw [depth] at h
  obtain ⟨k, rfl⟩ : ∃ k, d = k + 1 := ⟨d - 1, by omega⟩
  exact ⟨k, rfl, depthOfFields_le_iff.mp (Nat.le_of_succ_le_succ h)⟩

mutual

def IsReadable (ensureAscii : Bool) : Json → Prop
  | float value => value.val.isFinite = true
  | str value => ∀ c ∈ value, ReadsBack ensureAscii c
  | arr items => ItemsReadable ensureAscii items
  | obj fields => (fields.map Prod.fst).Nodup ∧ FieldsReadable ensureAscii fields
  | null => True
  | bool _ => True
  | int _ => True

def ItemsReadable (ensureAscii : Bool) : List Json → Prop
  | [] => True
  | item :: rest => IsReadable ensureAscii item ∧ ItemsReadable ensureAscii rest

def FieldsReadable (ensureAscii : Bool) : List (Text × Json) → Prop
  | [] => True
  | (key, value) :: rest => ((∀ c ∈ key, ReadsBack ensureAscii c) ∧ IsReadable ensureAscii value) ∧
      FieldsReadable ensureAscii rest

end

theorem itemsReadable_iff :
    ItemsReadable ensureAscii items ↔ ∀ item ∈ items, IsReadable ensureAscii item := by
  induction items with
  | nil => simp [ItemsReadable]
  | cons item rest ih => rw [ItemsReadable, ih, forall_mem_cons]

theorem fieldsReadable_iff : FieldsReadable ensureAscii fields ↔ ∀ field ∈ fields,
      (∀ c ∈ field.1, ReadsBack ensureAscii c) ∧ IsReadable ensureAscii field.2 := by
  induction fields with
  | nil => simp [FieldsReadable]
  | cons field rest ih => rw [FieldsReadable, ih, forall_mem_cons]

/-- A value without entries. -/
def IsScalar : Json → Prop
  | arr _ | obj _ => False
  | _ => True

theorem induction {holds : Json → Prop} (hScalar : ∀ j, j.IsScalar → holds j)
    (hArr : ∀ items, (∀ item ∈ items, holds item) → holds (arr items))
    (hObj : ∀ fields, (∀ field ∈ fields, holds field.2) → holds (obj fields)) : ∀ j, holds j :=
  @Json.rec holds (fun items => ∀ item ∈ items, holds item) (fun fields => ∀ field ∈ fields, holds field.2)
    (fun field => holds field.2) (hScalar _ trivial) (fun _ => hScalar _ trivial) (fun _ => hScalar _ trivial)
    (fun _ => hScalar _ trivial) (fun _ => hScalar _ trivial) hArr hObj (forall_mem_nil _)
    (fun _ _ hItem hRest => forall_mem_cons.mpr ⟨hItem, hRest⟩) (forall_mem_nil _)
    (fun _ _ hField hRest => forall_mem_cons.mpr ⟨hField, hRest⟩) fun _ _ hValue => hValue

/-! ## Scalars -/

variable {c : CodePoint} {t rest spaces : Text}

theorem scanConstant_of_head (h : c = 0x2d ∨ isDigit c = true)
    (hMinus : c = 0x2d → t.head? ≠ some 0x49) : scanConstant (c :: t) = none := by
  have hNotLetter : ∀ letter : CodePoint, letter.val ≠ 0x2d → isDigit letter = false →
      ∀ word : Text, (letter :: word).isPrefixOf (c :: t) = false := by
    intro letter hVal hDigit word
    have hNe : letter ≠ c := by
      rintro rfl
      rcases h with rfl | h
      · exact hVal rfl
      · rw [hDigit] at h
        cases h
    simp [List.isPrefixOf, hNe]
  have hInfinity : (py "-Infinity").isPrefixOf (c :: t) = false := by
    have hText : py "-Infinity" = 0x2d :: 0x49 :: py "nfinity" := by decide
    rw [hText]
    by_cases hc : c = 0x2d
    · subst hc
      cases t with
      | nil => rfl
      | cons d t =>
        have hNe : (0x49 : CodePoint) ≠ d := fun hEq => hMinus rfl (by rw [← hEq]; rfl)
        simp [List.isPrefixOf, hNe]
    · simp [List.isPrefixOf, Ne.symm hc]
  unfold scanConstant constants
  rw [findSome?_eq_none_iff]
  intro constant hMem
  have hFalse : constant.1.isPrefixOf (c :: t) = false := by
    simp only [mem_cons, not_mem_nil, or_false] at hMem
    rcases hMem with rfl | rfl | rfl | rfl | rfl | rfl
    · exact hNotLetter 0x6e (by decide) (by decide) (py "ull")
    · exact hNotLetter 0x74 (by decide) (by decide) (py "rue")
    · exact hNotLetter 0x66 (by decide) (by decide) (py "alse")
    · exact hNotLetter 0x4e (by decide) (by decide) (py "aN")
    · exact hNotLetter 0x49 (by decide) (by decide) (py "nfinity")
    · exact hInfinity
  rw [hFalse]
  rfl

theorem scanWhole_head {whole : Text} (h : scanWhole t = some (whole, rest)) :
    ∃ c u, t = c :: u ∧ isDigit c = true := by
  cases t with
  | nil => cases h
  | cons c u =>
    refine ⟨c, u, rfl, ?_⟩
    rw [scanWhole] at h
    split_ifs at h with hZero hDigit
    · rw [hZero]
      rfl
    · exact hDigit

theorem scanNumeral_head (h : scanNumeral t = some (n, rest)) :
    ∃ c u, t = c :: u ∧ (c = 0x2d ∨ isDigit c = true) ∧ (c = 0x2d → u.head? ≠ some 0x49) := by
  unfold scanNumeral at h
  obtain ⟨⟨whole, tail⟩, hWhole, -⟩ := map_eq_some_iff.mp h
  obtain ⟨d, u, hText, hDigit⟩ := scanWhole_head hWhole
  cases t with
  | nil => cases hText
  | cons c t =>
    refine ⟨c, t, rfl, ?_⟩
    rw [scanMinus] at hText
    split_ifs at hText with hc
    · dsimp only at hText
      refine ⟨.inl hc, fun _ hHead => ?_⟩
      rw [hText, head?_cons] at hHead
      rw [some.inj hHead] at hDigit
      cases hDigit
    · dsimp only at hText
      obtain ⟨rfl, -⟩ := cons.inj hText
      exact ⟨.inr hDigit, fun hEq => absurd hEq hc⟩

theorem scanWith_scalar {u : Text} (hText : t = c :: u) (h : c ≠ 0x22 ∧ c ≠ 0x7b ∧ c ≠ 0x5b)
    (element : Option (Text → Result (Json × Text))) : scanWith element t = scanScalar t := by
  subst hText
  unfold scanWith
  dsimp only
  rw [if_neg h.1, if_neg h.2.1, if_neg h.2.2]

theorem scanWith_numeral (h : scanNumeral t = some (n, rest))
    (element : Option (Text → Result (Json × Text))) :
    scanWith element t = (numeralValue n).map fun value => (value, rest) := by
  obtain ⟨c, u, rfl, hHead, hMinus⟩ := scanNumeral_head h
  have hPlain : c ≠ 0x22 ∧ c ≠ 0x7b ∧ c ≠ 0x5b := by
    rcases hHead with rfl | hDigit
    · decide
    · refine ⟨?_, ?_, ?_⟩ <;>
      · rintro rfl
        cases hDigit
  rw [scanWith_scalar rfl hPlain, scanScalar, scanConstant_of_head hHead hMinus, h]

theorem numeralValue_integer (negative : Bool) {whole : Text} (h : whole.length ≤ maxStrDigits) :
    numeralValue ⟨negative, whole, [], none⟩ =
      .ok (.int ((if negative then -1 else 1) * digitsValue whole)) := by
  have hKind : Numeral.isInteger ⟨negative, whole, [], none⟩ = true := rfl
  rw [numeralValue, if_pos hKind, Numeral.toInt, if_pos h]
  rfl

theorem scanWith_int {value : ℤ} (hEncode : strInt value = .ok t)
    (hRest : StopsNumeral rest) (element : Option (Text → Result (Json × Text))) :
    scanWith element (t ++ rest) = .ok (.int value, rest) := by
  unfold strInt at hEncode
  split at hEncode
  · rename_i hFits
    cases hEncode
    have hScan := scanNumeral_integer (decide (value < 0)) (isWhole_natDigits value.natAbs) hRest
    rw [← append_assoc] at hScan
    simp only [decide_eq_true_eq] at hScan
    rw [scanWith_numeral hScan, numeralValue_integer _ hFits, digitsValue_natDigits]
    have hValue : (if decide (value < 0) = true then -1 else 1) * (value.natAbs : ℤ) = value := by
      split_ifs with hNegative
      · have hLess := of_decide_eq_true hNegative
        omega
      · have hLess := of_decide_eq_false (Bool.eq_false_iff.mpr hNegative)
        omega
    rw [hValue]
    rfl
  · cases hEncode

theorem scanWith_float {style : Style} {value : Double}
    (hFinite : value.val.isFinite = true) (hEncode : encodeFloat style value = .ok t)
    (hRest : StopsNumeral rest) (element : Option (Text → Result (Json × Text))) :
    scanWith element (t ++ rest) = .ok (.float value, rest) := by
  rw [encodeFloat, if_pos hFinite] at hEncode
  cases hEncode
  obtain ⟨n, hScan, hKind, hValue⟩ := PyFloat.scan_pyRepr hFinite hRest
  rw [scanWith_numeral hScan, numeralValue, hKind, hValue]
  rfl

/-! ## Containers -/

structure Style.IsLegible (style : Style) : Prop where
  item : ∃ spaces, style.itemSeparator = 0x2c :: spaces ∧ ∀ c ∈ spaces, isWhitespace c = true
  key : ∃ spaces, style.keySeparator = 0x3a :: spaces ∧ ∀ c ∈ spaces, isWhitespace c = true

def IsVisible (t : Text) : Prop := ∃ c u, t = c :: u ∧ isWhitespace c = false

theorem skip_of_visible (h : IsVisible t) : skip t = t := by
  obtain ⟨c, u, rfl, hc⟩ := h
  rw [skip, dropWhile_cons_of_neg (by simp [hc])]

theorem skip_append (hSpaces : ∀ c ∈ spaces, isWhitespace c = true) : skip (spaces ++ t) = skip t := by
  unfold skip
  rw [dropWhile_append_of_pos hSpaces]

theorem IsVisible.append (h : IsVisible t) (rest : Text) : IsVisible (t ++ rest) := by
  obtain ⟨c, u, rfl, hc⟩ := h
  exact ⟨c, u ++ rest, rfl, hc⟩

theorem isVisible_cons (t : Text) (h : isWhitespace c = false) : IsVisible (c :: t) := ⟨c, t, rfl, h⟩

theorem stopsNumeral_of_mark (h : c = 0x2c ∨ c = 0x5d ∨ c = 0x7d) : StopsNumeral (c :: rest) := by
  intro d hd
  cases hd
  rcases h with rfl | rfl | rfl <;> decide

theorem stopsNumeral_of_space (hSpaces : ∀ c ∈ spaces, isWhitespace c = true)
    (h : StopsNumeral rest) : StopsNumeral (spaces ++ rest) := by
  cases spaces with
  | nil => exact h
  | cons space spaces =>
    intro c hc
    cases hc
    have hSpace := hSpaces space mem_cons_self
    simp only [isWhitespace, Bool.or_eq_true, beq_iff_eq] at hSpace
    rcases hSpace with ((rfl | rfl) | rfl) | rfl <;> decide

structure ReadsAs {α : Type} (scan : Text → Result (α × Text)) (part : Text) (value : α) : Prop where
  visible : IsVisible part
  reads : ∀ rest, StopsNumeral rest → scan (part ++ rest) = .ok (value, rest)

theorem skip_separator (hSpaces : ∀ c ∈ spaces, isWhitespace c = true)
    (h : IsVisible t) : skip (spaces ++ t) = t := by
  rw [skip_append hSpaces, skip_of_visible h]

theorem forall₂_imp_of_mem {α β : Type} {related implied : α → β → Prop} {l : List α} {l' : List β}
    (h : List.Forall₂ related l l') (hImp : ∀ a ∈ l, ∀ b, related a b → implied a b) :
    List.Forall₂ implied l l' := by
  induction h with
  | nil => exact .nil
  | cons hHead _ ih =>
    exact .cons (hImp _ mem_cons_self _ hHead) (ih fun a ha => hImp a (mem_cons_of_mem _ ha))

theorem exists_of_forall₂_mem {α β : Type} {related : α → β → Prop} {l : List α} {l' : List β}
    (h : List.Forall₂ related l l') {b : β} (hb : b ∈ l') : ∃ a ∈ l, related a b := by
  induction h with
  | nil => cases hb
  | cons hHead _ ih =>
    rcases mem_cons.mp hb with rfl | hb
    · exact ⟨_, mem_cons_self, hHead⟩
    · obtain ⟨a, ha, hRelated⟩ := ih hb
      exact ⟨a, mem_cons_of_mem _ ha, hRelated⟩

section Sequences

variable {style : Style} {α : Type} {scan : Text → Result (α × Text)} {close : CodePoint}

theorem join_visible (separator : Text) {parts : List Text} (hNe : parts ≠ [])
    (h : ∀ part ∈ parts, IsVisible part) (rest : Text) :
    IsVisible (join separator parts ++ rest) := by
  cases parts with
  | nil => exact absurd rfl hNe
  | cons part later =>
    have hPart := h part mem_cons_self
    cases later with
    | nil =>
      rw [join_singleton]
      exact hPart.append rest
    | cons next later =>
      rw [join_cons, append_assoc]
      exact hPart.append _

theorem forall₂_visible {parts : List Text} {values : List α}
    (h : List.Forall₂ (ReadsAs scan) parts values) : ∀ part ∈ parts, IsVisible part := by
  induction h with
  | nil => simp
  | cons hPart _ ih => exact forall_mem_cons.mpr ⟨hPart.visible, ih⟩

theorem scanSequence_last {t after rest : Text} {value : α} (fuel : ℕ)
    (hScan : scan t = .ok (value, after)) (hSkip : skip after = close :: rest) :
    scanSequence close scan (fuel + 1) t = .ok ([value], rest) := by
  rw [scanSequence, hScan]
  dsimp only [bind, Except.bind]
  rw [hSkip]
  dsimp only
  rw [if_pos rfl]
  rfl

theorem scanSequence_more {t after rest : Text} {value : α} (hClose : close ≠ 0x2c) (fuel : ℕ)
    (hScan : scan t = .ok (value, after)) (hSkip : skip after = 0x2c :: rest) :
    scanSequence close scan (fuel + 1) t =
      (scanSequence close scan fuel (skip rest)).map fun later => (value :: later.1, later.2) := by
  rw [scanSequence, hScan]
  dsimp only [bind, Except.bind]
  rw [hSkip]
  dsimp only
  rw [if_neg hClose.symm, if_pos rfl]
  rfl

theorem scanSequence_join (hStyle : style.IsLegible) (hClose : close = 0x5d ∨ close = 0x7d)
    {parts : List Text} {values : List α} (h : List.Forall₂ (ReadsAs scan) parts values)
    (hNe : parts ≠ []) (fuel : ℕ) (hFuel : parts.length ≤ fuel) {trail : Text}
    (hTrail : ∀ c ∈ trail, isWhitespace c = true) (rest : Text) :
    scanSequence close scan fuel (join style.itemSeparator parts ++ (trail ++ close :: rest)) =
      .ok (values, rest) := by
  obtain ⟨spaces, hSeparator, hSpaces⟩ := hStyle.item
  have hComma : close ≠ 0x2c := by rcases hClose with rfl | rfl <;> decide
  have hVisibleClose : isWhitespace close = false := by rcases hClose with rfl | rfl <;> decide
  induction h generalizing fuel with
  | nil => exact absurd rfl hNe
  | @cons part value later values hPart hLater ih =>
    cases fuel with
    | zero => cases hFuel
    | succ fuel =>
      cases later with
      | nil =>
        cases hLater
        rw [join_singleton]
        exact scanSequence_last fuel
          (hPart.reads _ (stopsNumeral_of_space hTrail (stopsNumeral_of_mark (by tauto))))
          (skip_separator hTrail (isVisible_cons rest hVisibleClose))
      | cons next later =>
        have hAfter := ih (cons_ne_nil _ _) fuel (Nat.le_of_succ_le_succ hFuel)
        have hVisible := join_visible style.itemSeparator (cons_ne_nil next later)
          (forall₂_visible hLater) (trail ++ close :: rest)
        rw [join_cons, append_assoc, append_assoc]
        have hRead := hPart.reads (style.itemSeparator ++
          (join style.itemSeparator (next :: later) ++ (trail ++ close :: rest)))
          (by rw [hSeparator]; exact stopsNumeral_of_mark (by simp))
        have hSkip : skip (style.itemSeparator ++
            (join style.itemSeparator (next :: later) ++ (trail ++ close :: rest))) =
              0x2c :: (spaces ++ (join style.itemSeparator (next :: later) ++ (trail ++ close :: rest))) := by
          rw [hSeparator, cons_append]
          exact skip_of_visible (isVisible_cons _ (by decide))
        rw [scanSequence_more hComma fuel hRead hSkip, skip_separator hSpaces hVisible, hAfter]
        rfl

end Sequences

/-! ## Values -/

section Values

variable {style : Style} {element : Text → Result (Json × Text)}

theorem readsAs_member (hStyle : style.IsLegible) {key part : Text} {value : Json}
    (hKey : ∀ c ∈ key, ReadsBack style.ensureAscii c) (h : ReadsAs element part value) :
    ReadsAs (scanMember element) (encodeStr style key ++ style.keySeparator ++ part) (key, value) := by
  obtain ⟨spaces, hSeparator, hSpaces⟩ := hStyle.key
  refine ⟨⟨0x22, _, rfl, by decide⟩, fun rest hRest => ?_⟩
  obtain ⟨body, hBody, hString⟩ :=
    scanString_encode style hKey (style.keySeparator ++ (part ++ rest))
  have hColon : skip (style.keySeparator ++ (part ++ rest)) = 0x3a :: (spaces ++ (part ++ rest)) := by
    rw [hSeparator, cons_append]
    exact skip_of_visible (isVisible_cons _ (by decide))
  rw [append_assoc, append_assoc, hBody]
  unfold scanMember
  dsimp only
  rw [if_pos rfl, hString]
  dsimp only [bind, Except.bind]
  rw [hColon]
  dsimp only
  rw [if_pos rfl, skip_separator hSpaces (h.visible.append rest), h.reads rest hRest]
  rfl

/-- What is not written as a string or a container starts none, and nothing starts with a closing
bracket or a space. -/
structure IsHead (c : CodePoint) : Prop where
  visible : isWhitespace c = false
  item : c ≠ 0x5d
  member : c ≠ 0x7d
  mark : c ≠ 0xfeff

theorem isHead_of_numeral {c : CodePoint} (h : c = 0x2d ∨ isDigit c = true) : IsHead c := by
  refine ⟨?_, ?_, ?_, ?_⟩
  · rcases h with rfl | h
    · decide
    · simp only [isDigit, Bool.and_eq_true, decide_eq_true_eq] at h
      simp only [isWhitespace, Bool.or_eq_false_iff, beq_eq_false_iff_ne, Fin.ext_iff, ne_eq]
      refine ⟨⟨⟨?_, ?_⟩, ?_⟩, ?_⟩ <;> intro hEq <;> rw [hEq] at h <;> revert h <;> decide
  iterate 3
    · rintro rfl
      rcases h with h | h <;> revert h <;> decide

theorem encode_head {j : Json} {t : Text} (hFinite : ∀ x, j = float x → x.val.isFinite = true)
    (h : encode style j = .ok t) : ∃ c u, t = c :: u ∧ IsHead c := by
  have hStops : StopsNumeral [] := by simp [StopsNumeral]
  cases j with
  | null =>
    cases h
    exact ⟨0x6e, py "ull", by decide, by decide, by decide, by decide, by decide⟩
  | bool value =>
    cases h
    cases value
    · exact ⟨0x66, py "alse", by decide, by decide, by decide, by decide, by decide⟩
    · exact ⟨0x74, py "rue", by decide, by decide, by decide, by decide, by decide⟩
  | int value =>
    have hInt : strInt value = .ok t := h
    unfold strInt at hInt
    split at hInt
    · cases hInt
      have hScan := scanNumeral_integer (decide (value < 0)) (isWhole_natDigits value.natAbs) hStops
      simp only [decide_eq_true_eq, append_nil] at hScan
      obtain ⟨c, u, hText, hHead, -⟩ := scanNumeral_head hScan
      exact ⟨c, u, hText, isHead_of_numeral hHead⟩
    · cases hInt
  | float value =>
    have hFloat : encodeFloat style value = .ok t := h
    rw [encodeFloat, if_pos (hFinite value rfl)] at hFloat
    cases hFloat
    obtain ⟨n, hScan, -⟩ := PyFloat.scan_pyRepr (hFinite value rfl) hStops
    rw [append_nil] at hScan
    obtain ⟨c, u, hText, hHead, -⟩ := scanNumeral_head hScan
    exact ⟨c, u, hText, isHead_of_numeral hHead⟩
  | str value =>
    cases h
    exact ⟨0x22, _, rfl, by decide, by decide, by decide, by decide⟩
  | arr items =>
    obtain ⟨parts, -, rfl⟩ := map_eq_ok.mp h
    exact ⟨0x5b, _, rfl, by decide, by decide, by decide, by decide⟩
  | obj fields =>
    obtain ⟨parts, -, rfl⟩ := map_eq_ok.mp h
    exact ⟨0x7b, _, rfl, by decide, by decide, by decide, by decide⟩

theorem encodeItems_eq_mapM (style : Style) (items : List Json) :
    encodeItems style items = items.mapM (encode style) := by
  induction items with
  | nil => rfl
  | cons item rest ih =>
    rw [encodeItems, mapM_cons, ih]

theorem encodeFields_eq_map (style : Style) (fields : List (Text × Json)) :
    encodeFields style fields = fields.map fun field =>
      (field.1, (encode style field.2).map (encodeStr style field.1 ++ style.keySeparator ++ ·)) := by
  induction fields with
  | nil => rfl
  | cons field rest ih => rw [encodeFields, ih, map_cons]

def written (fields : List (Text × Json)) : List (Text × Json) :=
  fields.insertionSort (·.1 ≤ ·.1)

theorem map_written {β : Type} (f : Text × Json → β) (fields : List (Text × Json)) :
    (written fields).map (fun field => (field.1, f field)) =
      (fields.map fun field => (field.1, f field)).insertionSort (·.1 ≤ ·.1) :=
  map_insertionSort (fun a b : Text × Json => a.1 ≤ b.1) (s := fun a b : Text × β => a.1 ≤ b.1)
    (fun field => (field.1, f field)) fields fun _ _ _ _ => Iff.rfl

theorem canon_obj (fields : List (Text × Json)) :
    canon (obj fields) = obj ((written fields).map fun field => (field.1, canon field.2)) := by
  rw [canon, canonFields_eq_map, map_written fun field => canon field.2]

/-- The members as they are written. -/
def Members (style : Style) (write : Json → Result Text) (fields : List (Text × Json)) (parts : List Text) : Prop :=
  List.Forall₂ (fun field part => ∃ text, write field.2 = .ok text ∧
    encodeStr style field.1 ++ style.keySeparator ++ text = part) (written fields) parts

theorem encode_obj_eq_ok {fields : List (Text × Json)} {t : Text} :
    encode style (obj fields) = .ok t ↔ ∃ parts, t = [0x7b] ++ join style.itemSeparator parts ++ [0x7d] ∧
      Members style (encode style) fields parts := by
  have hSorted : (encodeFields style fields).insertionSort (·.1 ≤ ·.1) =
      (written fields).map fun field =>
        (field.1, (encode style field.2).map (encodeStr style field.1 ++ style.keySeparator ++ ·)) := by
    rw [encodeFields_eq_map, map_written]
  rw [encode, hSorted, map_eq_ok]
  simp only [Members, mapM_eq_ok, forall₂_map_left_iff, map_eq_ok]
  exact exists_congr fun parts => and_comm.trans (and_congr_left fun _ => eq_comm)

theorem head?_join (separator : Text) {part : Text} {c : CodePoint} (hPart : part.head? = some c)
    (later : List Text) (rest : Text) :
    (join separator (part :: later) ++ rest).head? = some c := by
  have hNe : part ≠ [] := by
    rintro rfl
    cases hPart
  cases later with
  | nil => rw [join_singleton, head?_append_of_ne_nil _ hNe, hPart]
  | cons next later =>
    rw [join_cons, append_assoc, head?_append_of_ne_nil _ hNe, hPart]

theorem length_le_join (separator : Text) {parts : List Text} (h : ∀ part ∈ parts, IsVisible part) :
    parts.length ≤ (join separator parts).length := by
  induction parts with
  | nil => simp
  | cons part later ih =>
    obtain ⟨c, u, hPart, -⟩ := h part mem_cons_self
    have hLater := ih fun p hp => h p (mem_cons_of_mem _ hp)
    have hPos : 1 ≤ part.length := by simp [hPart]
    cases later with
    | nil =>
      rw [join_singleton]
      exact hPos
    | cons next later =>
      rw [join_cons, length_append, length_append, length_cons]
      omega

theorem scanArray_join (hStyle : style.IsLegible) {parts : List Text} {values : List Json}
    (h : List.Forall₂ (ReadsAs element) parts values)
    (hHeads : ∀ part ∈ parts, ∃ c u, part = c :: u ∧ IsHead c) {lead trail : Text}
    (hLead : ∀ c ∈ lead, isWhitespace c = true) (hTrail : ∀ c ∈ trail, isWhitespace c = true)
    (rest : Text) :
    scanArray element (lead ++ (join style.itemSeparator parts ++ (trail ++ 0x5d :: rest))) =
      .ok (.arr values, rest) := by
  unfold scanArray
  cases parts with
  | nil =>
    cases h
    rw [skip_append hLead]
    rw [show join style.itemSeparator [] = [] from rfl, nil_append, skip_separator hTrail (isVisible_cons rest (by decide))]
    rfl
  | cons part later =>
    have hNe : part :: later ≠ [] := cons_ne_nil _ _
    have hVisible := join_visible style.itemSeparator hNe (forall₂_visible h) (trail ++ 0x5d :: rest)
    have hLength := length_le_join style.itemSeparator (forall₂_visible h)
    obtain ⟨c, u, hPart, hHead⟩ := hHeads part mem_cons_self
    obtain ⟨u', hText⟩ := head?_eq_some_iff.mp (head?_join style.itemSeparator
      (hPart ▸ head?_cons : part.head? = some c) later (trail ++ 0x5d :: rest))
    have hScan := scanSequence_join hStyle (.inl rfl) h hNe
      ((lead ++ (join style.itemSeparator (part :: later) ++ (trail ++ 0x5d :: rest))).length + 1)
      (by rw [length_append, length_append]; omega) hTrail rest
    rw [skip_separator hLead hVisible]
    rw [hText] at hScan ⊢
    dsimp only
    rw [if_neg hHead.item, hScan]
    rfl

theorem scanObject_join (hStyle : style.IsLegible) {parts : List Text} {fields : List (Text × Json)}
    (h : List.Forall₂ (ReadsAs (scanMember element)) parts fields)
    (hQuotes : ∀ part ∈ parts, ∃ u, part = 0x22 :: u) (hKeys : (fields.map Prod.fst).Nodup)
    {lead trail : Text} (hLead : ∀ c ∈ lead, isWhitespace c = true)
    (hTrail : ∀ c ∈ trail, isWhitespace c = true) (rest : Text) :
    scanObject element (lead ++ (join style.itemSeparator parts ++ (trail ++ 0x7d :: rest))) =
      .ok (.obj fields, rest) := by
  unfold scanObject
  cases parts with
  | nil =>
    cases h
    rw [skip_append hLead]
    rw [show join style.itemSeparator [] = [] from rfl, nil_append, skip_separator hTrail (isVisible_cons rest (by decide))]
    rfl
  | cons part later =>
    have hNe : part :: later ≠ [] := cons_ne_nil _ _
    have hVisible := join_visible style.itemSeparator hNe (forall₂_visible h) (trail ++ 0x7d :: rest)
    have hLength := length_le_join style.itemSeparator (forall₂_visible h)
    obtain ⟨u, hPart⟩ := hQuotes part mem_cons_self
    obtain ⟨u', hText⟩ := head?_eq_some_iff.mp (head?_join style.itemSeparator
      (hPart ▸ head?_cons : part.head? = some 0x22) later (trail ++ 0x7d :: rest))
    have hScan := scanSequence_join hStyle (.inr rfl) h hNe
      ((lead ++ (join style.itemSeparator (part :: later) ++ (trail ++ 0x7d :: rest))).length + 1)
      (by rw [length_append, length_append]; omega) hTrail rest
    have hQuote : (0x22 : CodePoint) ≠ 0x7d := by decide
    rw [skip_separator hLead hVisible]
    rw [hText] at hScan ⊢
    dsimp only
    rw [if_neg hQuote, hScan]
    change Except.ok (obj (Dict.setAll [] fields), rest) = _
    rw [setAll_eq_append (by simpa [Dict.keys] using hKeys)]
    rfl

theorem IsReadable.finite {ascii : Bool} {j : Json} (h : IsReadable ascii j) :
    ∀ x, j = float x → x.val.isFinite = true := by
  rintro x rfl
  exact h

section Parts

variable {write : Json → Result Text} {scan : Text → Result (Json × Text)} {parts : List Text}

theorem readsAs_items {items : List Json} (hParts : items.mapM write = .ok parts)
    (h : ∀ item ∈ items, ∀ part, write item = .ok part → ReadsAs scan part item.canon) :
    List.Forall₂ (ReadsAs scan) parts (items.map canon) := by
  rw [forall₂_map_right_iff]
  exact Forall₂.flip (forall₂_imp_of_mem (mapM_eq_ok.mp hParts) h)

theorem head_of_items {ascii : Bool} {items : List Json} (hReadable : ∀ item ∈ items, IsReadable ascii item)
    (hParts : items.mapM write = .ok parts) (h : ∀ item part, (∀ x, item = float x → x.val.isFinite = true) →
      write item = .ok part → ∃ c u, part = c :: u ∧ IsHead c) :
    ∀ part ∈ parts, ∃ c u, part = c :: u ∧ IsHead c := by
  intro part hPart
  obtain ⟨item, hMem, hWrite⟩ := exists_of_mem_mapM hParts hPart
  exact h item part (hReadable item hMem).finite hWrite

variable {fields : List (Text × Json)}

theorem quoted_of_members (hParts : Members style write fields parts) : ∀ part ∈ parts, ∃ u, part = 0x22 ::
    u := by
  intro part hPart
  obtain ⟨field, -, text, -, rfl⟩ := exists_of_forall₂_mem hParts hPart
  exact ⟨_, rfl⟩

theorem readsAs_members (hStyle : style.IsLegible) (hParts : Members style write fields parts)
    (hReadable : IsReadable style.ensureAscii (obj fields))
    (h : ∀ field ∈ fields, ∀ text, write field.2 = .ok text → ReadsAs scan text field.2.canon) :
    List.Forall₂ (ReadsAs (scanMember scan)) parts ((written fields).map fun field => (field.1, canon field.2)) ∧
      (((written fields).map fun field => (field.1, canon field.2)).map Prod.fst).Nodup := by
  rw [IsReadable, fieldsReadable_iff] at hReadable
  constructor
  · rw [forall₂_map_right_iff]
    refine Forall₂.flip (forall₂_imp_of_mem hParts ?_)
    rintro field hField part ⟨text, hText, rfl⟩
    have hIn : field ∈ fields := (mem_insertionSort _).mp hField
    exact readsAs_member hStyle (hReadable.2 field hIn).1 (h field hIn text hText)
  · rw [List.map_map]
    exact ((perm_insertionSort _ fields).map Prod.fst).nodup_iff.mpr hReadable.1

end Parts

theorem scanValue_eq_scanWith (d : ℕ) : ∃ element, scanValue d = scanWith element := by
  cases d with
  | zero => exact ⟨none, rfl⟩
  | succ d => exact ⟨some (scanValue d), rfl⟩

theorem readsAs_encode (hStyle : style.IsLegible) (j : Json) : ∀ (d : ℕ) (t : Text),
    j.depth ≤ d → IsReadable style.ensureAscii j → encode style j = .ok t →
      ReadsAs (scanValue d) t j.canon := by
  induction j using induction with
  | hScalar j hScalar =>
    intro d t _ hReadable h
    obtain ⟨c, u, hText, hHead⟩ := encode_head hReadable.finite h
    obtain ⟨element, hScan⟩ := scanValue_eq_scanWith d
    rw [hScan]
    refine ⟨⟨c, u, hText, hHead.visible⟩, fun rest hRest => ?_⟩
    cases j with
    | null =>
      cases h
      have hNull : py "null" ++ rest = 0x6e :: (py "ull" ++ rest) := rfl
      rw [scanWith_scalar hNull (by decide)]
      rfl
    | bool value =>
      cases h
      cases value
      · have hFalse : (if false = true then py "true" else py "false") ++ rest =
            0x66 :: (py "alse" ++ rest) := rfl
        rw [scanWith_scalar hFalse (by decide)]
        rfl
      · have hTrue : (if true = true then py "true" else py "false") ++ rest =
            0x74 :: (py "rue" ++ rest) := rfl
        rw [scanWith_scalar hTrue (by decide)]
        rfl
    | int value => exact scanWith_int h hRest element
    | float value => exact scanWith_float hReadable h hRest element
    | str value =>
      cases h
      obtain ⟨body, hBody, hString⟩ := scanString_encode style hReadable rest
      rw [hBody]
      unfold scanWith
      dsimp only
      rw [if_pos rfl, hString]
      rfl
    | arr items | obj fields => exact hScalar.elim
  | hArr items ih =>
    intro d t hDepth hReadable h
    rw [encode, encodeItems_eq_mapM, map_eq_ok] at h
    obtain ⟨parts, hParts, rfl⟩ := h
    obtain ⟨d, rfl, hItems⟩ := items_depth_le hDepth
    rw [IsReadable, itemsReadable_iff] at hReadable
    have hReads := readsAs_items hParts fun item hMem part hPart =>
      ih item hMem d part (hItems item hMem) (hReadable item hMem) hPart
    refine ⟨⟨0x5b, _, rfl, by decide⟩, fun rest _ => ?_⟩
    have hArray := scanArray_join hStyle hReads (head_of_items hReadable hParts fun _ _ => encode_head)
      (forall_mem_nil _) (forall_mem_nil _) rest
    rw [append_assoc, append_assoc, canon, canonItems_eq_map, ← hArray]
    rfl
  | hObj fields ih =>
    intro d t hDepth hReadable h
    obtain ⟨parts, rfl, hParts⟩ := encode_obj_eq_ok.mp h
    obtain ⟨d, rfl, hFields⟩ := fields_depth_le hDepth
    obtain ⟨hReads, hKeys⟩ := readsAs_members hStyle hParts hReadable fun field hIn text hText =>
      ih field hIn d text (hFields field hIn) (fieldsReadable_iff.mp hReadable.2 field hIn).2 hText
    refine ⟨⟨0x7b, _, rfl, by decide⟩, fun rest _ => ?_⟩
    have hObject := scanObject_join hStyle hReads (quoted_of_members hParts) hKeys (forall_mem_nil _)
      (forall_mem_nil _) rest
    rw [append_assoc, append_assoc, canon_obj, ← hObject]
    rfl

theorem loads_encode (hStyle : style.IsLegible) {j : Json} {t : Text} {d : ℕ} (hDepth : j.depth ≤ d)
    (hReadable : IsReadable style.ensureAscii j) (h : encode style j = .ok t) :
    loads d t = .ok j.canon := by
  have hReads := readsAs_encode hStyle j d t hDepth hReadable h
  have hValue := hReads.reads [] (by simp [StopsNumeral])
  obtain ⟨c, u, hText, hHead⟩ := encode_head hReadable.finite h
  rw [append_nil] at hValue
  unfold loads
  rw [if_neg (by rw [hText, head?_cons]; exact fun hEq => hHead.mark (some.inj hEq)),
    skip_of_visible hReads.visible, hValue]
  rfl

end Values

theorem get?_canon {fields : Dict Text Json} (hKeys : fields.keys.Nodup) (name : Text) :
    Dict.get? ((written fields).map fun field => (field.1, canon field.2)) name =
      (fields.get? name).map canon := by
  have hPerm : (written fields).Perm fields := perm_insertionSort _ fields
  rw [get?_map canon, get?_perm hKeys hPerm.symm]

theorem encode_canon (style : Style) (j : Json) : encode style j.canon = encode style j := by
  induction j using Json.induction with
  | hScalar j hScalar => cases j <;> first | rfl | exact hScalar.elim
  | hArr items ih =>
    rw [canon, encode, encode, encodeItems_eq_mapM, encodeItems_eq_mapM, canonItems_eq_map, List.mapM_map]
    exact congrArg _ (mapM_congr ih)
  | hObj fields ih =>
    have hSorted : ((encodeFields style fields).insertionSort (·.1 ≤ ·.1)).Pairwise (·.1 ≤ ·.1) :=
      haveI : IsTrans (Text × Result Text) fun a b => a.1 ≤ b.1 := ⟨fun _ _ _ => le_trans⟩
      haveI : Std.Total fun a b : Text × Result Text => a.1 ≤ b.1 := ⟨fun a b => le_total a.1 b.1⟩
      pairwise_insertionSort _ _
    have hMembers : encodeFields style ((written fields).map fun field => (field.1, canon field.2)) =
        (encodeFields style fields).insertionSort (·.1 ≤ ·.1) := by
      rw [encodeFields_eq_map, encodeFields_eq_map, List.map_map, ← map_written]
      refine map_congr_left fun field hField => ?_
      have hMem : field ∈ fields := (perm_insertionSort _ fields).mem_iff.mp hField
      rw [Function.comp_apply, ih field hMem]
    rw [canon_obj, encode, encode, hMembers, hSorted.insertionSort_eq]

theorem IsReadable.ascii {j : Json} (h : IsReadable false j)
    (hEncodable : ∀ leaf ∈ j.leaves, leaf.IsEncodable) : IsReadable true j := by
  induction j using Json.induction with
  | hScalar j hScalar =>
    cases j with
    | str value =>
      have hText : NoSurrogate value := hEncodable (.text value) (mem_singleton_self _)
      exact fun c hc _ => hText c hc
    | _ => first | exact h | exact hScalar.elim
  | hArr items ih =>
    refine itemsReadable_iff.mpr fun item hItem => ?_
    refine ih item hItem (itemsReadable_iff.mp h item hItem) fun leaf hLeaf => ?_
    exact hEncodable leaf (mem_leavesOfItems hItem hLeaf)
  | hObj fields ih =>
    refine ⟨h.1, fieldsReadable_iff.mpr fun field hField => ⟨fun c hc _ => ?_, ?_⟩⟩
    · have hKey : NoSurrogate field.1 := hEncodable (.text field.1) (key_mem_leavesOfFields hField)
      exact hKey c hc
    · refine ih field hField (fieldsReadable_iff.mp h.2 field hField).2 fun leaf hLeaf => ?_
      exact hEncodable leaf (mem_leavesOfFields hField hLeaf)

end Json

end Python
