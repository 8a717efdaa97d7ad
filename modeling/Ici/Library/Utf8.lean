import Ici.Library.PyDouble

/-! # UTF-8

`text.encode("utf-8")`. Only a lone surrogate has no encoding, and rendered numbers hold none. -/

namespace Python

open List

def utf8Char (c : CodePoint) : List UInt8 :=
  if c.val < 0x80 then [.ofNat c.val]
  else if c.val < 0x800 then [.ofNat (0xc0 + c.val / 0x40), .ofNat (0x80 + c.val % 0x40)]
  else if c.val < 0x10000 then
    [.ofNat (0xe0 + c.val / 0x1000), .ofNat (0x80 + c.val / 0x40 % 0x40), .ofNat (0x80 + c.val % 0x40)]
  else
    [.ofNat (0xf0 + c.val / 0x40000), .ofNat (0x80 + c.val / 0x1000 % 0x40),
      .ofNat (0x80 + c.val / 0x40 % 0x40), .ofNat (0x80 + c.val % 0x40)]

def encodeError (t : Text) : PyError :=
  let start := (t.takeWhile (!isSurrogate ·)).length
  let run := (t.drop start).takeWhile isSurrogate
  ⟨py "UnicodeEncodeError", match run with
    | [c] => py "'utf-8' codec can't encode character '\\u" ++ hex 4 c.val ++ py "' in position " ++
        natDigits start ++ py ": surrogates not allowed"
    | _ => py "'utf-8' codec can't encode characters in position " ++ natDigits start ++ py "-" ++
        natDigits (start + run.length - 1) ++ py ": surrogates not allowed"⟩

def utf8 (t : Text) : Result (List UInt8) :=
  if t.any isSurrogate then .error (encodeError t) else .ok (t.flatMap utf8Char)

def NoSurrogate (t : Text) : Prop := ∀ c ∈ t, isSurrogate c = false

instance (t : Text) : Decidable (NoSurrogate t) := List.decidableBAll _ t

variable {t : Text} {c : CodePoint} {s : Utf8State} {b v : ℕ}

theorem exists_utf8_iff : (∃ bytes, utf8 t = .ok bytes) ↔ NoSurrogate t := by
  unfold utf8 NoSurrogate
  cases h : t.any isSurrogate with
  | true =>
    obtain ⟨c, hc, hSurrogate⟩ := any_eq_true.mp h
    simp only [if_true, reduceCtorEq, exists_false, false_iff]
    intro hAll
    rw [hAll c hc] at hSurrogate
    cases hSurrogate
  | false =>
    simp only [Bool.false_eq_true, if_false, Except.ok.injEq, exists_eq', true_iff]
    exact fun c hc => Bool.eq_false_iff.mpr (any_eq_false.mp h c hc)

@[simp] theorem noSurrogate_nil : NoSurrogate [] := by simp [NoSurrogate]

@[simp] theorem noSurrogate_cons : NoSurrogate (c :: t) ↔ isSurrogate c = false ∧ NoSurrogate t := by
  simp [NoSurrogate]

@[simp] theorem noSurrogate_append {s : Text} : NoSurrogate (s ++ t) ↔ NoSurrogate s ∧ NoSurrogate t := by
  simp [NoSurrogate, or_imp, forall_and]

/-! ## Decoding

`bytes.decode("utf-8")`, one byte at a time. The position of an error is not kept. -/

/-- Inside a character: its bits so far, how many bytes it still takes, and the range of the next. -/
structure Utf8State where
  bits : ℕ
  owed : ℕ
  low : ℕ
  high : ℕ

open Utf8State

def Utf8State.between : Utf8State := ⟨0, 0, 0, 0⟩

/-- What a first byte asks for; overlong forms, surrogates and what lies past the last code point
are refused with the second byte. -/
def Utf8State.leading (b : ℕ) : Option Utf8State :=
  if b < 0x80 then some ⟨b, 0, 0, 0⟩
  else if 0xc2 ≤ b ∧ b ≤ 0xdf then some ⟨b - 0xc0, 1, 0x80, 0xbf⟩
  else if b = 0xe0 then some ⟨0, 2, 0xa0, 0xbf⟩
  else if b = 0xed then some ⟨0xd, 2, 0x80, 0x9f⟩
  else if 0xe1 ≤ b ∧ b ≤ 0xef then some ⟨b - 0xe0, 2, 0x80, 0xbf⟩
  else if b = 0xf0 then some ⟨0, 3, 0x90, 0xbf⟩
  else if 0xf1 ≤ b ∧ b ≤ 0xf3 then some ⟨b - 0xf0, 3, 0x80, 0xbf⟩
  else if b = 0xf4 then some ⟨4, 3, 0x80, 0x8f⟩
  else none

def Utf8State.next (s : Utf8State) (b : ℕ) : Option Utf8State :=
  if s.owed = 0 then leading b
  else if s.low ≤ b ∧ b ≤ s.high then some ⟨s.bits * 0x40 + (b - 0x80), s.owed - 1, 0x80, 0xbf⟩
  else none

def unicodeDecodeError (reason : Text) : PyError :=
  ⟨py "UnicodeDecodeError", py "'utf-8' codec can't decode: " ++ reason⟩

def decodeFrom (s : Utf8State) : List UInt8 → Result Text
  | [] => if s.owed = 0 then .ok [] else .error (unicodeDecodeError (py "unexpected end of data"))
  | b :: rest =>
    match s.next b.toNat with
    | none => .error (unicodeDecodeError
        (if s.owed = 0 then py "invalid start byte" else py "invalid continuation byte"))
    | some s' =>
      if s'.owed = 0 then (decodeFrom s' rest).map (Fin.ofNat 0x110000 s'.bits :: ·)
      else decodeFrom s' rest

def decodeUtf8 (bytes : List UInt8) : Result Text := decodeFrom .between bytes

theorem Utf8State.next_of_owed (hOwed : s.owed ≠ 0) (h : s.low ≤ b ∧ b ≤ s.high) :
    s.next b = some ⟨s.bits * 0x40 + (b - 0x80), s.owed - 1, 0x80, 0xbf⟩ := by
  rw [next, if_neg hOwed, if_pos h]

theorem Utf8State.next_of_between (hOwed : s.owed = 0) : s.next b = leading b := by
  rw [next, if_pos hOwed]

theorem decodeFrom_inside {s' : Utf8State} (hByte : b < 0x100) (h : s.next b = some s')
    (hOwed : s'.owed ≠ 0) (rest : List UInt8) :
    decodeFrom s (UInt8.ofNat b :: rest) = decodeFrom s' rest := by
  rw [decodeFrom, show (UInt8.ofNat b).toNat = b from Nat.mod_eq_of_lt hByte, h]
  exact if_neg hOwed

theorem decodeFrom_last {s' : Utf8State} (hByte : b < 0x100)
    (h : s.next b = some s') (hOwed : s'.owed = 0) (hBits : s'.bits = c.val) (rest : List UInt8) :
    decodeFrom s (UInt8.ofNat b :: rest) = (decodeFrom s' rest).map (c :: ·) := by
  rw [decodeFrom, show (UInt8.ofNat b).toNat = b from Nat.mod_eq_of_lt hByte, h]
  dsimp only
  rw [if_pos hOwed, hBits, Fin.ofNat_val_eq_self]

theorem leading_two (hLow : 0x80 ≤ v) (hHigh : v < 0x800) :
    leading (0xc0 + v / 0x40) = some ⟨v / 0x40, 1, 0x80, 0xbf⟩ := by
  rw [leading, if_neg (by omega), if_pos (by omega), Nat.add_sub_cancel_left]

theorem leading_three (hLow : 0x800 ≤ v) (hHigh : v < 0x10000) (hPlain : v < 0xd800 ∨ 0xdfff < v) :
    ∃ low high, leading (0xe0 + v / 0x1000) = some ⟨v / 0x1000, 2, low, high⟩ ∧
      low ≤ 0x80 + v / 0x40 % 0x40 ∧ 0x80 + v / 0x40 % 0x40 ≤ high := by
  rw [leading, if_neg (by omega), if_neg (by omega)]
  by_cases hFirst : v / 0x1000 = 0
  · exact ⟨0xa0, 0xbf, by rw [hFirst, if_pos rfl], by omega, by omega⟩
  · rw [if_neg (by omega)]
    by_cases hSurrogate : v / 0x1000 = 0xd
    · exact ⟨0x80, 0x9f, by rw [hSurrogate, if_pos rfl], by omega, by omega⟩
    · rw [if_neg (by omega), if_pos (by omega), Nat.add_sub_cancel_left]
      exact ⟨0x80, 0xbf, rfl, by omega, by omega⟩

theorem leading_four (hLow : 0x10000 ≤ v) (hHigh : v < 0x110000) :
    ∃ low high, leading (0xf0 + v / 0x40000) = some ⟨v / 0x40000, 3, low, high⟩ ∧
      low ≤ 0x80 + v / 0x1000 % 0x40 ∧ 0x80 + v / 0x1000 % 0x40 ≤ high := by
  rw [leading, if_neg (by omega), if_neg (by omega), if_neg (by omega), if_neg (by omega),
    if_neg (by omega)]
  by_cases hFirst : v / 0x40000 = 0
  · exact ⟨0x90, 0xbf, by rw [hFirst, if_pos rfl], by omega, by omega⟩
  · rw [if_neg (by omega)]
    by_cases hLast : v / 0x40000 = 4
    · exact ⟨0x80, 0x8f, by rw [hLast, if_neg (by decide), if_pos rfl], by omega, by omega⟩
    · rw [if_pos (by omega), Nat.add_sub_cancel_left]
      exact ⟨0x80, 0xbf, rfl, by omega, by omega⟩

theorem exists_decodeFrom_utf8Char (h : isSurrogate c = false) {s : Utf8State}
    (hs : s.owed = 0) : ∃ s' : Utf8State, s'.owed = 0 ∧
      ∀ rest, decodeFrom s (utf8Char c ++ rest) = (decodeFrom s' rest).map (c :: ·) := by
  have hBound : c.val < 0x110000 := c.isLt
  have hNext (b : ℕ) : s.next b = leading b := next_of_between hs
  unfold utf8Char
  by_cases hOne : c.val < 0x80
  · rw [if_pos hOne]
    refine ⟨⟨c.val, 0, 0, 0⟩, rfl, fun rest => decodeFrom_last (by omega) ?_ rfl rfl rest⟩
    rw [hNext, leading, if_pos hOne]
  rw [if_neg hOne]
  by_cases hTwo : c.val < 0x800
  · rw [if_pos hTwo]
    refine ⟨⟨c.val / 0x40 * 0x40 + (0x80 + c.val % 0x40 - 0x80), 0, 0x80, 0xbf⟩, rfl, fun rest => ?_⟩
    rw [cons_append, cons_append, nil_append,
      decodeFrom_inside (by omega) ((hNext _).trans (leading_two (by omega) hTwo)) (by simp)]
    exact decodeFrom_last (by omega) (next_of_owed (by simp) (by dsimp only; omega)) rfl
      (by dsimp only; omega) rest
  rw [if_neg hTwo]
  by_cases hThree : c.val < 0x10000
  · rw [if_pos hThree]
    have hPlain : c.val < 0xd800 ∨ 0xdfff < c.val := by
      by_contra hIn
      have hTrue : isSurrogate c = true := by
        simp only [isSurrogate, Bool.and_eq_true, decide_eq_true_eq]
        omega
      rw [h] at hTrue
      cases hTrue
    obtain ⟨low, high, hLeading, hLow, hHigh⟩ := leading_three (by omega) hThree hPlain
    refine ⟨⟨(c.val / 0x1000 * 0x40 + (0x80 + c.val / 0x40 % 0x40 - 0x80)) * 0x40 +
      (0x80 + c.val % 0x40 - 0x80), 0, 0x80, 0xbf⟩, rfl, fun rest => ?_⟩
    rw [cons_append, cons_append, cons_append, nil_append,
      decodeFrom_inside (by omega) ((hNext _).trans hLeading) (by simp),
      decodeFrom_inside (by omega) (next_of_owed (by simp) ⟨hLow, hHigh⟩) (by simp)]
    exact decodeFrom_last (by omega) (next_of_owed (by simp) (by dsimp only; omega)) rfl
      (by dsimp only; omega) rest
  · rw [if_neg hThree]
    obtain ⟨low, high, hLeading, hLow, hHigh⟩ := leading_four (by omega) hBound
    refine ⟨⟨((c.val / 0x40000 * 0x40 + (0x80 + c.val / 0x1000 % 0x40 - 0x80)) * 0x40 +
      (0x80 + c.val / 0x40 % 0x40 - 0x80)) * 0x40 + (0x80 + c.val % 0x40 - 0x80), 0, 0x80, 0xbf⟩, rfl,
      fun rest => ?_⟩
    rw [cons_append, cons_append, cons_append, cons_append, nil_append,
      decodeFrom_inside (by omega) ((hNext _).trans hLeading) (by simp),
      decodeFrom_inside (by omega) (next_of_owed (by simp) ⟨hLow, hHigh⟩) (by simp),
      decodeFrom_inside (by omega) (next_of_owed (by simp) (by dsimp only; omega)) (by simp)]
    exact decodeFrom_last (by omega) (next_of_owed (by simp) (by dsimp only; omega)) rfl
      (by dsimp only; omega) rest

theorem decodeFrom_utf8 (h : NoSurrogate t) {s : Utf8State} (hs : s.owed = 0) :
    decodeFrom s (t.flatMap utf8Char) = .ok t := by
  induction t generalizing s with
  | nil => exact if_pos hs
  | cons c t ih =>
    obtain ⟨hc, ht⟩ := noSurrogate_cons.mp h
    obtain ⟨s', hs', hDecode⟩ := exists_decodeFrom_utf8Char hc hs
    rw [flatMap_cons, hDecode, ih ht hs']
    rfl

theorem decodeUtf8_encoded {bytes : List UInt8} (h : utf8 t = .ok bytes) : decodeUtf8 bytes = .ok t := by
  have hPlain : NoSurrogate t := exists_utf8_iff.mp ⟨bytes, h⟩
  unfold utf8 at h
  split at h
  · cases h
  · cases h
    exact decodeFrom_utf8 hPlain rfl

/-! ## Rendered numbers are printable ASCII -/

def IsPlain (t : Text) : Prop := ∀ c ∈ t, 0x20 ≤ c.val ∧ c.val < 0x80

instance (t : Text) : Decidable (IsPlain t) := List.decidableBAll _ t

theorem noSurrogate_of_ascii (h : ∀ c ∈ t, c.val < 0x80) : NoSurrogate t := by
  intro c hc
  have hLess := h c hc
  simp only [isSurrogate, Bool.and_eq_false_iff, decide_eq_false_iff_not]
  omega

theorem IsPlain.noSurrogate (h : IsPlain t) : NoSurrogate t :=
  noSurrogate_of_ascii fun c hc => (h c hc).2

theorem IsPlain.append {s : Text} (hs : IsPlain s) (ht : IsPlain t) : IsPlain (s ++ t) := by
  intro c hc
  rcases mem_append.mp hc with hc | hc
  · exact hs c hc
  · exact ht c hc

theorem IsPlain.sublist {s : Text} (ht : IsPlain t) (h : s.Sublist t) : IsPlain s :=
  fun c hc => ht c (h.subset hc)

theorem isPlain_natDigits (n : ℕ) : IsPlain (natDigits n) := by
  intro c hc
  obtain ⟨d, hd, rfl⟩ := mem_map.mp hc
  have hDigit := Nat.isDigit_of_mem_toDigits (by omega) (by omega) hd
  simp only [Char.isDigit, Bool.and_eq_true, decide_eq_true_eq] at hDigit
  have hGe : 48 ≤ d.toNat := hDigit.1
  have hLe : d.toNat ≤ 57 := hDigit.2
  simp only [Fin.ofNat]
  omega

theorem isPlain_hexDigit (n : ℕ) : 0x20 ≤ (hexDigit n).val ∧ (hexDigit n).val < 0x80 := by
  unfold hexDigit
  simp only [Fin.ofNat]
  split <;> omega

theorem isPlain_hex (width n : ℕ) : IsPlain (hex width n) := by
  induction width generalizing n with
  | zero => simp [hex, IsPlain]
  | succ width ih =>
    refine (ih (n / 16)).append ?_
    intro c hc
    rw [mem_singleton.mp hc]
    exact isPlain_hexDigit n

theorem isPlain_strInt {n : ℤ} (h : strInt n = .ok t) : IsPlain t := by
  unfold strInt at h
  split at h
  · cases h
    refine IsPlain.append ?_ (isPlain_natDigits _)
    split <;> decide
  · cases h

namespace PyFloat

theorem isPlain_layout {digits : Text} (h : IsPlain digits) (point : ℤ) : IsPlain (layout digits point) := by
  have hTake (k : ℕ) : IsPlain (digits.take k) := h.sublist (take_sublist _ _)
  have hDrop (k : ℕ) : IsPlain (digits.drop k) := h.sublist (drop_sublist _ _)
  have hZeros (k : ℕ) : IsPlain (List.replicate k 0x30) := by
    intro c hc
    rw [(mem_replicate.mp hc).2]
    decide
  unfold layout
  split
  · refine (((IsPlain.append (hTake 1) ?_).append ?_).append ?_).append (isPlain_natDigits _)
    · split
      · decide
      · exact IsPlain.append (by decide) (hDrop 1)
    · split <;> decide
    · split <;> decide
  split
  · exact (IsPlain.append (by decide) (hZeros _)).append h
  split
  · exact (h.append (hZeros _)).append (by decide)
  · exact ((hTake _).append (by decide)).append (hDrop _)

theorem isPlain_pyRepr (x : PyFloat) : IsPlain x.pyRepr := by
  cases x with
  | nan => decide
  | inf negative => cases negative <;> decide
  | fin q =>
    simp only [pyRepr]
    split
    · decide
    · refine IsPlain.append ?_ (isPlain_layout ?_ _)
      · split <;> decide
      · exact (isPlain_natDigits _).sublist (List.rdropWhile_prefix _ _).sublist

end PyFloat

end Python
