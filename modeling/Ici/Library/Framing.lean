import Mathlib.Tactic.IntervalCases
import Ici.Library.Raising
import Ici.Library.Utf8

/-! # Codes whose words end by themselves

A code is framed when a word of it is recognised at the front of any text, whatever follows. -/

namespace Framing

open List

universe u v w

variable {α : Type u} {β : Type v} {σ : Type w} {encode : α → List σ}

def Framed (encode : α → List σ) : Prop :=
  ∀ a b rest rest', encode a ++ rest = encode b ++ rest' → a = b ∧ rest = rest'

theorem Framed.behind (h : Framed encode) (front : List σ) : Framed fun a => front ++ encode a := by
  intro a b rest rest' hEq
  dsimp only at hEq
  rw [append_assoc, append_assoc, append_right_inj] at hEq
  exact h a b rest rest' hEq

theorem framed_of_length {n : ℕ} (hInjective : Function.Injective encode)
    (hLength : ∀ a, (encode a).length = n) : Framed encode := by
  intro a b rest rest' hEq
  obtain ⟨hSame, hRest⟩ := append_inj hEq ((hLength a).trans (hLength b).symm)
  exact ⟨hInjective hSame, hRest⟩

theorem framed_of_prefix (hPrefix : ∀ a b, encode a <+: encode b → a = b) : Framed encode := by
  intro a b rest rest' hEq
  have hFront : encode a <+: encode b ++ rest' := ⟨rest, hEq⟩
  obtain rfl : a = b := by
    rcases prefix_or_prefix_of_prefix hFront (prefix_append (encode b) rest') with hBegins | hBegins
    · exact hPrefix a b hBegins
    · exact (hPrefix b a hBegins).symm
  exact ⟨rfl, append_cancel_left hEq⟩

theorem Framed.closed {stop : σ} (h : Framed encode) (hBegin : ∀ a, (encode a).head? ≠ some stop)
    (hNonempty : ∀ a, encode a ≠ []) {words words' : List α} {rest rest' : List σ}
    (hEq : words.flatMap encode ++ stop :: rest = words'.flatMap encode ++ stop :: rest') :
    words = words' ∧ rest = rest' := by
  have hHead (a : α) (tail : List σ) : encode a ++ tail ≠ stop :: rest ∧
      encode a ++ tail ≠ stop :: rest' := by
    obtain ⟨letter, word, hWord⟩ := exists_cons_of_ne_nil (hNonempty a)
    have hLetter : letter ≠ stop := fun hStop => hBegin a (by rw [hWord, hStop, head?_cons])
    rw [hWord, cons_append]
    exact ⟨fun hClash => hLetter (cons.inj hClash).1, fun hClash => hLetter (cons.inj hClash).1⟩
  induction words generalizing words' with
  | nil =>
    cases words' with
    | nil => exact ⟨rfl, (cons.inj hEq).2⟩
    | cons b words' =>
      rw [flatMap_cons, append_assoc] at hEq
      exact absurd hEq.symm (hHead b _).1
  | cons a words ih =>
    cases words' with
    | nil =>
      rw [flatMap_cons, append_assoc] at hEq
      exact absurd hEq (hHead a _).2
    | cons b words' =>
      rw [flatMap_cons, flatMap_cons, append_assoc, append_assoc] at hEq
      obtain ⟨rfl, hTail⟩ := h a b _ _ hEq
      obtain ⟨rfl, hRest⟩ := ih hTail
      exact ⟨rfl, hRest⟩

theorem Framed.flatMap_injective (h : Framed encode) (hNonempty : ∀ a, encode a ≠ []) :
    Function.Injective fun words : List α => words.flatMap encode := by
  intro words words' hEq
  dsimp only at hEq
  induction words generalizing words' with
  | nil =>
    cases words' with
    | nil => rfl
    | cons b words' => exact absurd (append_eq_nil_iff.mp hEq.symm).1 (hNonempty b)
  | cons a words ih =>
    cases words' with
    | nil => exact absurd (append_eq_nil_iff.mp hEq).1 (hNonempty a)
    | cons b words' =>
      rw [flatMap_cons, flatMap_cons] at hEq
      obtain ⟨rfl, hTail⟩ := h a b _ _ hEq
      rw [ih hTail]

end Framing

namespace Python

open Option List Raising Framing

/-- `repr` of a tuple whose entries are printed already. -/
def tupleRepr : List Text → Text
  | [item] => py "(" ++ item ++ py ",)"
  | items => py "(" ++ join (py ", ") items ++ py ")"

/-- `repr` of an optional text. -/
def optionRepr : Option Text → Text
  | none => py "None"
  | some t => pyRepr t

theorem join_cons_eq (separator item : Text) (rest : List Text) :
    join separator (item :: rest) = item ++ rest.flatMap (separator ++ ·) := by
  induction rest generalizing item with
  | nil => simp [join_singleton]
  | cons next rest ih => rw [join_cons, ih, flatMap_cons, append_assoc]

theorem tupleRepr_nil : tupleRepr [] = py "()" := by decide

theorem tupleRepr_cons_cons (item next : Text) (rest : List Text) : tupleRepr (item :: next :: rest) =
      py "(" ++ (item ++ ((next :: rest).flatMap (py ", " ++ ·) ++ py ")")) := by
  rw [tupleRepr, join_cons_eq]
  · simp only [append_assoc]
  · exact fun _ h => nomatch h

/-! ## Texts -/

theorem hexDigit_injective {m n : ℕ} (hm : m < 16) (hn : n < 16) (h : hexDigit m = hexDigit n) : m = n := by
  interval_cases m <;> interval_cases n <;> first | rfl | exact absurd h (by decide)

theorem length_hex (width n : ℕ) : (hex width n).length = width := by
  induction width generalizing n with
  | zero => rfl
  | succ width ih => rw [hex, length_append, ih, length_singleton]

theorem hex_injective {width m n : ℕ} (hm : m < 16 ^ width) (hn : n < 16 ^ width)
    (h : hex width m = hex width n) : m = n := by
  induction width generalizing m n with
  | zero => omega
  | succ width ih =>
    rw [hex, hex] at h
    obtain ⟨hFront, hLast⟩ := append_inj h (by rw [length_hex, length_hex])
    have hDigit (k : ℕ) : hexDigit k = hexDigit (k % 16) := by simp [hexDigit]
    have hLow : m % 16 = n % 16 := by
      refine hexDigit_injective (Nat.mod_lt _ (by omega)) (Nat.mod_lt _ (by omega)) ?_
      rw [← hDigit, ← hDigit]
      exact singleton_inj.mp hLast
    have hHigh : m / 16 = n / 16 := ih (by omega) (by omega) hFront
    omega

def IsQuote (c : CodePoint) : Prop := c = 0x27 ∨ c = 0x22

theorem isQuote_reprQuote (t : Text) : IsQuote (reprQuote t) := by
  unfold reprQuote
  split
  · exact .inr rfl
  · exact .inl rfl

def unescape (c : CodePoint) : CodePoint :=
  if c = 0x74 then 0x9 else if c = 0x6e then 0xa else if c = 0x72 then 0xd else c

def hexEscapes : List (CodePoint × ℕ) := [(0x78, 2), (0x75, 4), (0x55, 8)]

theorem reprChar_cases {quote : CodePoint} (hQuote : IsQuote quote) (c : CodePoint) :
    (reprChar quote c = [c] ∧ c ≠ 0x5c ∧ c ≠ quote) ∨
      (∃ letter, reprChar quote c = [0x5c, letter] ∧ c = unescape letter ∧
        letter ∉ hexEscapes.map Prod.fst) ∨
      ∃ tag width, (tag, width) ∈ hexEscapes ∧ c.val < 16 ^ width ∧
        reprChar quote c = 0x5c :: tag :: hex width c.val := by
  have hBound := c.isLt
  by_cases hSame : c = quote ∨ c = 0x5c
  · refine .inr (.inl ⟨c, by rw [reprChar, if_pos hSame], ?_⟩)
    rcases hSame with rfl | rfl
    · rcases hQuote with rfl | rfl <;> exact ⟨by decide, by decide⟩
    · exact ⟨by decide, by decide⟩
  · rw [reprChar, if_neg hSame]
    obtain ⟨hNotQuote, hNotSlash⟩ := not_or.mp hSame
    have hHex (tag : CodePoint) (width : ℕ) (hTag : (tag, width) ∈ hexEscapes) (hFits : c.val < 16 ^ width) :
        (∃ tag' width', (tag', width') ∈ hexEscapes ∧ c.val < 16 ^ width' ∧
          0x5c :: tag :: hex width c.val = 0x5c :: tag' :: hex width' c.val) := ⟨tag, width, hTag, hFits, rfl⟩
    split_ifs with hTab hLine hReturn hControl hAscii hPlain hByte hShort
    · exact .inr (.inl ⟨0x74, rfl, hTab.trans (by decide), by decide⟩)
    · exact .inr (.inl ⟨0x6e, rfl, hLine.trans (by decide), by decide⟩)
    · exact .inr (.inl ⟨0x72, rfl, hReturn.trans (by decide), by decide⟩)
    · exact .inr (.inr (hHex 0x78 2 (by decide) (by omega)))
    · exact .inl ⟨rfl, hNotSlash, hNotQuote⟩
    · exact .inl ⟨rfl, hNotSlash, hNotQuote⟩
    · exact .inr (.inr (hHex 0x78 2 (by decide) (by omega)))
    · exact .inr (.inr (hHex 0x75 4 (by decide) (by omega)))
    · exact .inr (.inr (hHex 0x55 8 (by decide) (by omega)))

theorem hexEscapes_width {tag : CodePoint} {width width' : ℕ} (h : (tag, width) ∈ hexEscapes)
    (h' : (tag, width') ∈ hexEscapes) : width = width' := by
  simp only [hexEscapes, mem_cons, Prod.mk.injEq, not_mem_nil, or_false] at h h'
  rcases h with ⟨rfl, rfl⟩ | ⟨rfl, rfl⟩ | ⟨rfl, rfl⟩ <;>
    rcases h' with ⟨hTag, rfl⟩ | ⟨hTag, rfl⟩ | ⟨hTag, rfl⟩ <;>
    first | rfl | exact absurd hTag (by decide)

theorem framed_reprChar {quote : CodePoint} (hQuote : IsQuote quote) : Framed (reprChar quote) := by
  intro a b rest rest' hEq
  rcases reprChar_cases hQuote a with ⟨hA, hSlash, -⟩ | ⟨letter, hA, hLetter, hTags⟩ |
      ⟨tag, width, hTag, hFits, hA⟩ <;>
    rcases reprChar_cases hQuote b with ⟨hB, hSlash', -⟩ | ⟨letter', hB, hLetter', hTags'⟩ |
      ⟨tag', width', hTag', hFits', hB⟩ <;>
    rw [hA, hB] at hEq <;> simp only [cons_append, nil_append, cons.injEq] at hEq
  · exact hEq
  · exact absurd hEq.1 hSlash
  · exact absurd hEq.1 hSlash
  · exact absurd hEq.1.symm hSlash'
  · obtain ⟨-, rfl, hRest⟩ := hEq
    exact ⟨hLetter.trans hLetter'.symm, hRest⟩
  · obtain ⟨-, rfl, -⟩ := hEq
    exact absurd (mem_map.mpr ⟨_, hTag', rfl⟩) hTags
  · exact absurd hEq.1.symm hSlash'
  · obtain ⟨-, rfl, -⟩ := hEq
    exact absurd (mem_map.mpr ⟨_, hTag, rfl⟩) hTags'
  · obtain ⟨-, rfl, hDigits⟩ := hEq
    obtain rfl := hexEscapes_width hTag hTag'
    obtain ⟨hSame, hRest⟩ := append_inj hDigits (by rw [length_hex, length_hex])
    exact ⟨Fin.ext (hex_injective hFits hFits' hSame), hRest⟩

theorem framed_pyRepr : Framed pyRepr := by
  intro s t rest rest' hEq
  have hUnfold (t rest : Text) : pyRepr t ++ rest =
      reprQuote t :: (t.flatMap (reprChar (reprQuote t)) ++ reprQuote t :: rest) := by simp [pyRepr]
  rw [hUnfold, hUnfold] at hEq
  obtain ⟨hQuote, hEq⟩ := cons.inj hEq
  rw [← hQuote] at hEq
  have hIsQuote := isQuote_reprQuote s
  have hWord (c : CodePoint) : (reprChar (reprQuote s) c).head? ≠ some (reprQuote s) ∧
      reprChar (reprQuote s) c ≠ [] := by
    have hSlash : (0x5c : CodePoint) ≠ reprQuote s := by
      rcases hIsQuote with h | h <;> rw [h] <;> decide
    rcases reprChar_cases hIsQuote c with ⟨hC, -, hNot⟩ | ⟨letter, hC, -, -⟩ | ⟨tag, width, -, -, hC⟩ <;>
      rw [hC]
    · exact ⟨fun h => hNot (some_inj.mp h), cons_ne_nil _ _⟩
    all_goals exact ⟨fun h => hSlash (some_inj.mp h), cons_ne_nil _ _⟩
  exact (framed_reprChar hIsQuote).closed (fun c => (hWord c).1) (fun c => (hWord c).2) hEq

section Tuple

variable {α : Type} {encode : α → Text}

def BeginsEntry (encode : α → Text) : Prop := ∀ a, ∃ c word, encode a = c :: word ∧ c ≠ 0x29

theorem framed_tupleRepr (h : Framed encode) (hBegin : BeginsEntry encode) :
    Framed fun items : List α => tupleRepr (items.map encode) := by
  have hComma : Framed fun a => py ", " ++ encode a := h.behind _
  have hRest (items items' : List α) (rest rest' : Text)
      (hEq : (items.map encode).flatMap (py ", " ++ ·) ++ py ")" ++ rest =
        (items'.map encode).flatMap (py ", " ++ ·) ++ py ")" ++ rest') : items = items' ∧ rest = rest' := by
    rw [flatMap_map, flatMap_map, append_assoc, append_assoc] at hEq
    have hHead (a : α) : (py ", " ++ encode a).head? ≠ some 0x29 := by
      rw [show (py ", " ++ encode a).head? = some 0x2c from rfl]
      decide
    exact hComma.closed hHead (fun _ => cons_ne_nil _ _) hEq
  have hEntry (a : α) (tail tail' : Text) : encode a ++ tail ≠ py ")" ++ tail' := by
    obtain ⟨c, word, hWord, hC⟩ := hBegin a
    rw [hWord]
    exact fun hClash => hC (cons.inj hClash).1
  intro items items' rest rest' hEq
  dsimp only at hEq
  match items, items' with
  | [], [] => exact ⟨rfl, append_cancel_left hEq⟩
  | [], [b] =>
    rw [map_nil, tupleRepr_nil, map_singleton, tupleRepr] at hEq
    simp only [append_assoc] at hEq
    exact absurd (@List.append_cancel_left _ (py "(") _ _ hEq).symm (hEntry b _ _)
  | [], b :: next :: more =>
    rw [map_nil, tupleRepr_nil, map_cons, map_cons, tupleRepr_cons_cons] at hEq
    simp only [append_assoc] at hEq
    exact absurd (@List.append_cancel_left _ (py "(") _ _ hEq).symm (hEntry b _ _)
  | [a], [] =>
    rw [map_nil, tupleRepr_nil, map_singleton, tupleRepr] at hEq
    simp only [append_assoc] at hEq
    exact absurd (@List.append_cancel_left _ (py "(") _ _ hEq) (hEntry a _ _)
  | a :: next :: more, [] =>
    rw [map_nil, tupleRepr_nil, map_cons, map_cons, tupleRepr_cons_cons] at hEq
    simp only [append_assoc] at hEq
    exact absurd (@List.append_cancel_left _ (py "(") _ _ hEq) (hEntry a _ _)
  | [a], [b] =>
    rw [map_singleton, map_singleton, tupleRepr, tupleRepr] at hEq
    simp only [append_assoc] at hEq
    obtain ⟨rfl, hTail⟩ := h a b _ _ (append_cancel_left hEq)
    exact ⟨rfl, append_cancel_left hTail⟩
  | [a], b :: next :: more =>
    rw [map_singleton, tupleRepr, map_cons, map_cons, tupleRepr_cons_cons] at hEq
    simp only [append_assoc] at hEq
    obtain ⟨-, hTail⟩ := h a b _ _ (append_cancel_left hEq)
    exact absurd (congrArg (·[1]?) hTail) (by simp [py])
  | a :: next :: more, [b] =>
    rw [map_singleton, tupleRepr, map_cons, map_cons, tupleRepr_cons_cons] at hEq
    simp only [append_assoc] at hEq
    obtain ⟨-, hTail⟩ := h a b _ _ (append_cancel_left hEq)
    exact absurd (congrArg (·[1]?) hTail) (by simp [py])
  | a :: next :: more, b :: next' :: more' =>
    rw [map_cons, map_cons, tupleRepr_cons_cons, map_cons, map_cons, tupleRepr_cons_cons] at hEq
    simp only [append_assoc] at hEq
    obtain ⟨rfl, hTail⟩ := h a b _ _ (append_cancel_left hEq)
    rw [← append_assoc, ← append_assoc, ← map_cons, ← map_cons] at hTail
    obtain ⟨hMore, hEnd⟩ := hRest _ _ _ _ hTail
    exact ⟨by rw [hMore], hEnd⟩

end Tuple

theorem beginsEntry_pyRepr : BeginsEntry pyRepr := by
  intro t
  refine ⟨reprQuote t, _, append_assoc _ _ _, ?_⟩
  rcases isQuote_reprQuote t with h | h <;> rw [h] <;> decide

theorem beginsEntry_tupleRepr {α : Type} (entries : α → List Text) :
    BeginsEntry fun a => tupleRepr (entries a) := by
  intro a
  refine ⟨0x28, (tupleRepr (entries a)).tail, ?_, by decide⟩
  have hHead : (tupleRepr (entries a)).head? = some 0x28 := by
    unfold tupleRepr
    split <;> rfl
  exact (cons_head?_tail hHead).symm

theorem framed_optionRepr : Framed optionRepr := by
  have hNone (t rest rest' : Text) : py "None" ++ rest ≠ pyRepr t ++ rest' := by
    intro hClash
    have hQuote : (0x4e : CodePoint) = reprQuote t := (cons.inj hClash).1
    rcases isQuote_reprQuote t with h | h <;> rw [h] at hQuote <;> exact absurd hQuote (by decide)
  intro a b rest rest' hEq
  cases a with
  | none =>
    cases b with
    | none => exact ⟨rfl, append_cancel_left hEq⟩
    | some t => exact absurd hEq (hNone t rest rest')
  | some s =>
    cases b with
    | none => exact absurd hEq.symm (hNone s rest' rest)
    | some t =>
      obtain ⟨rfl, hRest⟩ := framed_pyRepr s t rest rest' hEq
      exact ⟨rfl, hRest⟩

theorem ofNat_byte_injective {m n : ℕ} (hm : m < 256) (hn : n < 256) (h : UInt8.ofNat m = UInt8.ofNat n) :
    m = n := by
  have hNat := congrArg UInt8.toNat h
  rwa [UInt8.toNat_ofNat', UInt8.toNat_ofNat', Nat.mod_eq_of_lt hm, Nat.mod_eq_of_lt hn] at hNat

theorem framed_utf8Char : Framed utf8Char := by
  intro a b rest rest' hEq
  have ha := a.isLt
  have hb := b.isLt
  have hBytes {m n : ℕ} (h : UInt8.ofNat m = UInt8.ofNat n) (hm : m < 256 := by omega)
      (hn : n < 256 := by omega) : m = n := ofNat_byte_injective hm hn h
  have hSame (h : a.val = b.val) : a = b := Fin.ext h
  unfold utf8Char at hEq
  split_ifs at hEq <;> simp only [cons_append, nil_append, cons.injEq] at hEq
  any_goals
    have := hBytes hEq.1
    omega
  · exact ⟨hSame (hBytes hEq.1), hEq.2⟩
  · obtain ⟨h0, h1, hRest⟩ := hEq
    have := hBytes h0; have := hBytes h1
    exact ⟨hSame (by omega), hRest⟩
  · obtain ⟨h0, h1, h2, hRest⟩ := hEq
    have := hBytes h0; have := hBytes h1; have := hBytes h2
    exact ⟨hSame (by omega), hRest⟩
  · obtain ⟨h0, h1, h2, h3, hRest⟩ := hEq
    have := hBytes h0; have := hBytes h1; have := hBytes h2; have := hBytes h3
    exact ⟨hSame (by omega), hRest⟩

theorem utf8_eq_ok {t : Text} {bytes : List UInt8} (h : utf8 t = .ok bytes) : bytes = t.flatMap utf8Char := by
  unfold utf8 at h
  split at h
  · exact nomatch h
  · exact (Except.ok.inj h).symm

theorem utf8_append {s t : Text} {bytes more : List UInt8} (hs : utf8 s = .ok bytes) (ht : utf8 t = .ok more) :
    utf8 (s ++ t) = .ok (bytes ++ more) := by
  have hText := noSurrogate_append.mpr ⟨exists_utf8_iff.mp ⟨bytes, hs⟩, exists_utf8_iff.mp ⟨more, ht⟩⟩
  obtain ⟨all, hAll⟩ := exists_utf8_iff.mpr hText
  rw [hAll, utf8_eq_ok hAll, utf8_eq_ok hs, utf8_eq_ok ht, flatMap_append]

theorem flatten_utf8 {pieces : List Text} {parts : List (List UInt8)} (h : pieces.mapM utf8 = .ok parts) :
    parts.flatten = pieces.flatten.flatMap utf8Char := by
  induction pieces generalizing parts with
  | nil =>
    obtain rfl := Except.ok.inj h
    rfl
  | cons piece pieces ih =>
    rw [mapM_cons] at h
    obtain ⟨bytes, hBytes, h⟩ := bind_eq_ok.mp h
    obtain ⟨more, hMore, h⟩ := bind_eq_ok.mp h
    obtain rfl := Except.ok.inj h
    rw [flatten_cons, flatten_cons, flatMap_append, ih hMore, utf8_eq_ok hBytes]

theorem utf8_injective : Function.Injective fun t : Text => t.flatMap utf8Char := by
  refine framed_utf8Char.flatMap_injective fun c => ?_
  unfold utf8Char
  split_ifs <;> exact cons_ne_nil _ _

end Python
