import Mathlib.Data.Fin.Basic
import Mathlib.Data.List.DropRight
import Mathlib.Data.List.Lex

/-! # Python texts and exceptions

A `str` may hold any code point, lone surrogates included, so a text is a list of code points
rather than a `String`. Stripping, quoting and decimal rendering follow the documented behaviour
of `str.strip`, `repr` and `str(int)`, the digit limit of the last one included. -/

namespace Python

open List

abbrev CodePoint := Fin 0x110000

abbrev Text := List CodePoint

-- Named, so that every literal and every membership test of the project carries the same proof.
instance neZeroCodePoint : @NeZero Nat Zero.ofOfNat0 0x110000 := ⟨by decide⟩

instance lawfulBEqCodePoint : LawfulBEq CodePoint := inferInstance

instance lawfulBEqText : LawfulBEq Text := inferInstance

def py (s : String) : Text := s.toList.map fun c => Fin.ofNat 0x110000 c.toNat

/-- `str.isspace` on one code point: bidirectional class WS, B or S, or category Zs. -/
def isSpace (c : CodePoint) : Bool :=
  (0x9 ≤ c.val && c.val ≤ 0xd) || (0x1c ≤ c.val && c.val ≤ 0x20) || c.val == 0x85 ||
  c.val == 0xa0 || c.val == 0x1680 || (0x2000 ≤ c.val && c.val ≤ 0x200a) || c.val == 0x2028 ||
  c.val == 0x2029 || c.val == 0x202f || c.val == 0x205f || c.val == 0x3000

def strip (t : Text) : Text := (t.dropWhile isSpace).rdropWhile isSpace

def isSurrogate (c : CodePoint) : Bool := 0xd800 ≤ c.val && c.val ≤ 0xdfff

/-- Code points above ASCII that `repr` escapes: controls, formats, separators, surrogates and
private use. Unassigned code points depend on the Unicode version and are left as they are. -/
def isEscapedAboveAscii (n : Nat) : Bool :=
  n ≤ 0xa0 || n == 0xad || (0x600 ≤ n && n ≤ 0x605) || n == 0x61c || n == 0x6dd || n == 0x70f ||
  n == 0x890 || n == 0x891 || n == 0x8e2 || n == 0x1680 || n == 0x180e ||
  (0x2000 ≤ n && n ≤ 0x200f) || (0x2028 ≤ n && n ≤ 0x202f) || (0x205f ≤ n && n ≤ 0x206f) ||
  n == 0x3000 || (0xd800 ≤ n && n ≤ 0xf8ff) || n == 0xfeff || (0xfff9 ≤ n && n ≤ 0xfffb) ||
  n == 0x110bd || n == 0x110cd || (0x13430 ≤ n && n ≤ 0x1343f) ||
  (0x1bca0 ≤ n && n ≤ 0x1bca3) || (0x1d173 ≤ n && n ≤ 0x1d17a) || 0xe0001 ≤ n

def hexDigit (n : Nat) : CodePoint :=
  Fin.ofNat 0x110000 (if n % 16 < 10 then 0x30 + n % 16 else 0x57 + n % 16)

def hex : Nat → Nat → Text
  | 0, _ => []
  | width + 1, n => hex width (n / 16) ++ [hexDigit n]

def reprChar (quote c : CodePoint) : Text :=
  if c = quote ∨ c = 0x5c then [0x5c, c]
  else if c = 0x9 then py "\\t"
  else if c = 0xa then py "\\n"
  else if c = 0xd then py "\\r"
  else if c.val < 0x20 ∨ c.val = 0x7f then py "\\x" ++ hex 2 c.val
  else if c.val < 0x7f then [c]
  else if !isEscapedAboveAscii c.val then [c]
  else if c.val ≤ 0xff then py "\\x" ++ hex 2 c.val
  else if c.val ≤ 0xffff then py "\\u" ++ hex 4 c.val
  else py "\\U" ++ hex 8 c.val

def reprQuote (t : Text) : CodePoint := if 0x27 ∈ t ∧ 0x22 ∉ t then 0x22 else 0x27

def pyRepr (t : Text) : Text := [reprQuote t] ++ t.flatMap (reprChar (reprQuote t)) ++ [reprQuote t]

def join (separator : Text) (items : List Text) : Text := List.intercalate separator items

theorem join_singleton (separator part : Text) : join separator [part] = part := by
  simp [join, List.intercalate]

theorem join_cons (separator part next : Text) (rest : List Text) :
    join separator (part :: next :: rest) = part ++ (separator ++ join separator (next :: rest)) := by
  simp [join, List.intercalate, List.intersperse]

theorem mem_join {separator : Text} {items : List Text} {c : CodePoint} (h : c ∈ join separator items) :
    c ∈ separator ∨ ∃ item ∈ items, c ∈ item := by
  induction items with
  | nil => exact absurd h (by simp [join])
  | cons item rest ih =>
    cases rest with
    | nil =>
      rw [join_singleton] at h
      exact .inr ⟨item, mem_cons_self, h⟩
    | cons next rest =>
      rw [join_cons, mem_append, mem_append] at h
      rcases h with hItem | hSeparator | hRest
      · exact .inr ⟨item, mem_cons_self, hItem⟩
      · exact .inl hSeparator
      · rcases ih hRest with hSeparator | ⟨other, hOther, hc⟩
        · exact .inl hSeparator
        · exact .inr ⟨other, mem_cons_of_mem _ hOther, hc⟩

theorem join_concat {separator : Text} {items : List Text} (h : items ≠ []) (last : Text) :
    join separator (items ++ [last]) = join separator items ++ (separator ++ last) := by
  induction items with
  | nil => exact absurd rfl h
  | cons item rest ih =>
    cases rest with
    | nil => rw [singleton_append, join_cons, join_singleton, join_singleton]
    | cons next rest =>
      have hRest := ih (cons_ne_nil _ _)
      rw [cons_append] at hRest
      rw [cons_append, cons_append, join_cons, join_cons, hRest]
      simp only [append_assoc]

structure PyError where
  name : Text
  text : Text
deriving DecidableEq

def valueError (text : Text) : PyError := ⟨py "ValueError", text⟩

def keyError (key : Text) : PyError := ⟨py "KeyError", pyRepr key⟩

/-- A computation that never returns; no exception of the language has an empty name. -/
def noReturn : PyError := ⟨[], []⟩

abbrev Result := Except PyError

/-- `sys.int_info.default_max_str_digits`: `str` of a longer integer is refused. -/
def maxStrDigits : Nat := 4300

def natDigits (n : Nat) : Text := (Nat.toDigits 10 n).map fun c => Fin.ofNat 0x110000 c.toNat

def digitLimit : PyError :=
  valueError (py "Exceeds the limit (4300 digits) for integer string conversion; " ++
    py "use sys.set_int_max_str_digits() to increase the limit")

def FitsDigitLimit (n : Int) : Prop := (natDigits n.natAbs).length ≤ maxStrDigits

instance (n : Int) : Decidable (FitsDigitLimit n) := inferInstanceAs (Decidable (_ ≤ _))

def strInt (n : Int) : Result Text :=
  if FitsDigitLimit n then .ok ((if n < 0 then py "-" else []) ++ natDigits n.natAbs)
  else .error digitLimit

/-- A text `str.strip` leaves alone. -/
def Unpadded (t : Text) : Prop :=
  (∀ h : t ≠ [], isSpace (t.head h) = false) ∧ ∀ h : t ≠ [], isSpace (t.getLast h) = false

theorem strip_eq_self_iff (t : Text) : strip t = t ↔ Unpadded t := by
  constructor
  · intro h
    have hLength : (t.dropWhile isSpace).length = t.length := by
      have hLe := (dropWhile_suffix (l := t) isSpace).length_le
      have hGe := (List.rdropWhile_prefix isSpace (t.dropWhile isSpace)).length_le
      change (strip t).length ≤ _ at hGe
      rw [h] at hGe
      omega
    have hDrop : t.dropWhile isSpace = t :=
      (dropWhile_suffix (l := t) isSpace).eq_of_length hLength
    rw [strip, hDrop] at h
    constructor
    · intro hne
      have hHead := dropWhile_eq_self_iff.mp hDrop (length_pos_of_ne_nil hne)
      rw [head_eq_getElem]
      exact Bool.eq_false_iff.mpr hHead
    · intro hne
      exact Bool.eq_false_iff.mpr (rdropWhile_eq_self_iff.mp h hne)
  · rintro ⟨hHead, hLast⟩
    have hDrop : t.dropWhile isSpace = t := by
      rw [dropWhile_eq_self_iff]
      intro hPos
      have hne : t ≠ [] := ne_nil_of_length_pos hPos
      rw [← head_eq_getElem hne]
      exact Bool.eq_false_iff.mp (hHead hne)
    rw [strip, hDrop, rdropWhile_eq_self_iff]
    intro hne
    exact Bool.eq_false_iff.mp (hLast hne)

instance (t : Text) : Decidable (Unpadded t) := decidable_of_iff _ (strip_eq_self_iff t)

theorem unpadded_append_iff (a : CodePoint) (front rest : Text) (ha : isSpace a = false) (hrest : rest ≠ []) :
    Unpadded (a :: (front ++ rest)) ↔ isSpace (rest.getLast hrest) = false := by
  have hLast : (a :: (front ++ rest)).getLast (by simp) = rest.getLast hrest := by
    rw [getLast_cons (by simp [hrest]), getLast_append_of_ne_nil _ hrest]
  constructor
  · intro h
    rw [← hLast]
    exact h.2 (by simp)
  · intro h
    exact ⟨fun _ => ha, fun _ => hLast ▸ h⟩

end Python
