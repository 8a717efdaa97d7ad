import Ici.Library.Utf8

/-! # Reading decimal numbers

`int(text)` and `float(text)` on the numerals a document may hold. The shortest decimal of a double
reads back as that double because seventeen digits always do. -/

namespace Python

open Option List

def isDigit (c : CodePoint) : Bool := 0x30 ≤ c.val && c.val ≤ 0x39

def digitsValue (t : Text) : ℕ := t.foldl (fun n c => 10 * n + (c.val - 0x30)) 0

theorem foldl_digits (t : Text) (n : ℕ) :
    t.foldl (fun n c => 10 * n + (c.val - 0x30)) n = n * 10 ^ t.length + digitsValue t := by
  induction t generalizing n with
  | nil => simp [digitsValue]
  | cons c t ih =>
    have hCons : digitsValue (c :: t) = (c.val - 0x30) * 10 ^ t.length + digitsValue t := by
      rw [← ih, digitsValue, foldl_cons, Nat.mul_zero, Nat.zero_add]
    rw [foldl_cons, ih, hCons, length_cons]
    ring

theorem digitsValue_append (s t : Text) :
    digitsValue (s ++ t) = digitsValue s * 10 ^ t.length + digitsValue t := by
  rw [digitsValue, foldl_append, foldl_digits]
  rfl

theorem digitsValue_replicate_zero (k : ℕ) : digitsValue (List.replicate k 0x30) = 0 := by
  induction k with
  | zero => rfl
  | succ k ih =>
    rw [replicate_succ', digitsValue_append, ih]
    rfl

variable {n : ℕ} {digits rest t : Text}

theorem natDigits_of_lt (h : n < 10) : natDigits n = [Fin.ofNat 0x110000 (0x30 + n)] := by
  unfold natDigits
  rw [Nat.toDigits_of_lt_base h]
  revert n
  decide

theorem natDigits_of_le (h : 10 ≤ n) : natDigits n = natDigits (n / 10) ++ natDigits (n % 10) := by
  have hLess : n % 10 < 10 := Nat.mod_lt _ (by omega)
  unfold natDigits
  rw [Nat.toDigits_of_base_le (by omega) h, map_append, Nat.toDigits_of_lt_base hLess]

theorem natDigits_ne_nil (n : ℕ) : natDigits n ≠ [] := by simp [natDigits, Nat.toDigits_ne_nil]

theorem isDigit_of_mem_natDigits {c : CodePoint} (h : c ∈ natDigits n) : isDigit c = true := by
  induction n using Nat.strongRecOn with
  | ind n ih =>
    by_cases hLess : n < 10
    · rw [natDigits_of_lt hLess, mem_singleton] at h
      subst h
      simp only [isDigit, Fin.ofNat, Bool.and_eq_true, decide_eq_true_eq]
      omega
    · rw [natDigits_of_le (by omega), mem_append] at h
      rcases h with h | h
      · exact ih (n / 10) (by omega) h
      · exact ih (n % 10) (by omega) h

theorem digitsValue_natDigits (n : ℕ) : digitsValue (natDigits n) = n := by
  induction n using Nat.strongRecOn with
  | ind n ih =>
    by_cases hLess : n < 10
    · rw [natDigits_of_lt hLess]
      simp only [digitsValue, foldl_cons, foldl_nil, Fin.ofNat]
      omega
    · have hMod : n % 10 < 10 := Nat.mod_lt _ (by omega)
      rw [natDigits_of_le (by omega), digitsValue_append, ih _ (by omega), ih _ (by omega),
        natDigits_of_lt hMod, length_singleton]
      omega

theorem head_natDigits (hPos : 0 < n) : (natDigits n).head (natDigits_ne_nil n) ≠ 0x30 := by
  induction n using Nat.strongRecOn with
  | ind n ih =>
    by_cases hLess : n < 10
    · intro hHead
      simp only [natDigits_of_lt hLess, head_cons] at hHead
      have hVal := congrArg Fin.val hHead
      simp only [Fin.ofNat] at hVal
      change (0x30 + n) % 0x110000 = 0x30 at hVal
      omega
    · intro hHead
      simp only [natDigits_of_le (by omega : 10 ≤ n)] at hHead
      rw [head_append_of_ne_nil (natDigits_ne_nil _)] at hHead
      exact ih (n / 10) (by omega) (by omega) hHead

/-- `(-?(?:0|[1-9][0-9]*))(\.[0-9]+)?([eE][-+]?[0-9]+)?`; an empty fraction was not written. -/
structure Numeral where
  negative : Bool
  whole : Text
  fraction : Text
  exponent : Option ℤ
deriving DecidableEq

def scanMinus : Text → Bool × Text
  | [] => (false, [])
  | c :: rest => if c = 0x2d then (true, rest) else (false, c :: rest)

def scanWhole : Text → Option (Text × Text)
  | [] => none
  | c :: rest =>
    if c = 0x30 then some ([c], rest)
    else if isDigit c then some (c :: rest.takeWhile isDigit, rest.dropWhile isDigit)
    else none

def scanFraction : Text → Text × Text
  | [] => ([], [])
  | c :: rest =>
    if c = 0x2e ∧ rest.takeWhile isDigit ≠ [] then (rest.takeWhile isDigit, rest.dropWhile isDigit)
    else ([], c :: rest)

def scanSign : Text → Bool × Text
  | [] => (false, [])
  | c :: rest =>
    if c = 0x2d then (true, rest) else if c = 0x2b then (false, rest) else (false, c :: rest)

def scanExponent : Text → Option ℤ × Text
  | [] => (none, [])
  | c :: rest =>
    let digits := (scanSign rest).2.takeWhile isDigit
    if (c = 0x65 ∨ c = 0x45) ∧ digits ≠ [] then
      (some (if (scanSign rest).1 then -digitsValue digits else digitsValue digits),
        (scanSign rest).2.dropWhile isDigit)
    else (none, c :: rest)

def scanNumeral (t : Text) : Option (Numeral × Text) :=
  (scanWhole (scanMinus t).2).map fun whole =>
    ({ negative := (scanMinus t).1
       whole := whole.1
       fraction := (scanFraction whole.2).1
       exponent := (scanExponent (scanFraction whole.2).2).1 },
      (scanExponent (scanFraction whole.2).2).2)

/-! ## What a scanner takes -/

def NoDigitNext (rest : Text) : Prop := ∀ c ∈ rest.head?, isDigit c = false

def StopsNumeral (rest : Text) : Prop :=
  ∀ c ∈ rest.head?, isDigit c = false ∧ c ≠ 0x2e ∧ c ≠ 0x65 ∧ c ≠ 0x45

structure IsWhole (t : Text) : Prop where
  ne_nil : t ≠ []
  digits : ∀ c ∈ t, isDigit c = true
  leading : t.head? = some 0x30 → t = [0x30]

theorem takeWhile_digits (hDigits : ∀ c ∈ digits, isDigit c = true)
    (hNext : NoDigitNext rest) : (digits ++ rest).takeWhile isDigit = digits := by
  rw [takeWhile_append_of_pos hDigits]
  cases rest with
  | nil => simp
  | cons c rest => simp [hNext c rfl]

theorem dropWhile_digits (hDigits : ∀ c ∈ digits, isDigit c = true)
    (hNext : NoDigitNext rest) : (digits ++ rest).dropWhile isDigit = rest := by
  rw [dropWhile_append_of_pos hDigits]
  cases rest with
  | nil => rfl
  | cons c rest => simp [hNext c rfl]

theorem scanMinus_of_ne (h : t.head? ≠ some 0x2d) : scanMinus t = (false, t) := by
  cases t with
  | nil => rfl
  | cons c t => exact if_neg fun hc => h (by rw [hc, head?_cons])

theorem scanWhole_append {whole : Text} (h : IsWhole whole) (hNext : NoDigitNext rest) :
    scanWhole (whole ++ rest) = some (whole, rest) := by
  cases whole with
  | nil => exact absurd rfl h.ne_nil
  | cons c digits =>
    rw [cons_append, scanWhole]
    split_ifs with hZero hDigit
    · have hOnly := h.leading (by rw [hZero, head?_cons])
      rw [hOnly]
      obtain ⟨-, rfl⟩ := cons.inj hOnly
      rw [hZero]
      rfl
    · have hTail : ∀ d ∈ digits, isDigit d = true := fun d hd =>
        h.digits d (mem_cons_of_mem _ hd)
      rw [takeWhile_digits hTail hNext, dropWhile_digits hTail hNext]
    · exact absurd (h.digits c mem_cons_self) hDigit

theorem scanFraction_append {fraction : Text} (hNe : fraction ≠ [])
    (hDigits : ∀ c ∈ fraction, isDigit c = true) (hNext : NoDigitNext rest) :
    scanFraction (0x2e :: (fraction ++ rest)) = (fraction, rest) := by
  rw [scanFraction, takeWhile_digits hDigits hNext, dropWhile_digits hDigits hNext, if_pos ⟨rfl, hNe⟩]

theorem scanFraction_of_ne (h : t.head? ≠ some 0x2e) : scanFraction t = ([], t) := by
  cases t with
  | nil => rfl
  | cons c t => exact if_neg fun hc => h (by rw [hc.1, head?_cons])

theorem scanExponent_append (negative : Bool) {digits rest : Text} (hNe : digits ≠ [])
    (hDigits : ∀ c ∈ digits, isDigit c = true) (hNext : NoDigitNext rest) :
    scanExponent (0x65 :: (if negative then 0x2d else 0x2b) :: (digits ++ rest)) =
      (some (if negative then -(digitsValue digits : ℤ) else digitsValue digits), rest) := by
  have hSign : scanSign ((if negative then 0x2d else 0x2b) :: (digits ++ rest)) =
      (negative, digits ++ rest) := by
    cases negative <;> rfl
  dsimp only [scanExponent]
  rw [hSign]
  dsimp only
  rw [takeWhile_digits hDigits hNext, dropWhile_digits hDigits hNext, if_pos ⟨.inl rfl, hNe⟩]

theorem digits_natDigits (n : ℕ) : ∀ c ∈ natDigits n, isDigit c = true := fun _ h =>
  isDigit_of_mem_natDigits h

theorem scanExponent_of_ne (h : ∀ c ∈ t.head?, c ≠ 0x65 ∧ c ≠ 0x45) : scanExponent t = (none, t) := by
  cases t with
  | nil => rfl
  | cons c t =>
    have hNe := h c rfl
    exact if_neg fun hc => hc.1.elim hNe.1 hNe.2

namespace Numeral

section

variable (n : Numeral)

def isInteger : Bool := n.fraction = [] && n.exponent = none

def sign : ℤ := if n.negative then -1 else 1

def value : ℚ :=
  n.sign * digitsValue (n.whole ++ n.fraction) * 10 ^ (n.exponent.getD 0 - n.fraction.length)

def toFloat : Double := Double.ofRat n.value

def toInt : Result ℤ :=
  if n.whole.length ≤ maxStrDigits then .ok (n.sign * digitsValue n.whole)
  else .error (valueError (py "Exceeds the limit (4300 digits) for integer string conversion: " ++
    py "value has " ++ natDigits n.whole.length ++
    py " digits; use sys.set_int_max_str_digits() to increase the limit"))

end

end Numeral

theorem isWhole_natDigits (n : ℕ) : IsWhole (natDigits n) where
  ne_nil := natDigits_ne_nil n
  digits := digits_natDigits n
  leading := by
    intro hHead
    rcases Nat.eq_zero_or_pos n with rfl | hPos
    · rfl
    · rw [head?_eq_some_head (natDigits_ne_nil n)] at hHead
      exact absurd (some.inj hHead) (head_natDigits hPos)

theorem StopsNumeral.noDigitNext (h : StopsNumeral rest) : NoDigitNext rest :=
  fun c hc => (h c hc).1

theorem scanNumeral_of_parts (negative : Bool) {whole fraction tail exponentTail rest : Text}
    {exponent : Option ℤ} (hWhole : IsWhole whole) (hTail : NoDigitNext tail)
    (hFraction : scanFraction tail = (fraction, exponentTail))
    (hExponent : scanExponent exponentTail = (exponent, rest)) :
    scanNumeral ((if negative then py "-" else []) ++ (whole ++ tail)) =
      some (⟨negative, whole, fraction, exponent⟩, rest) := by
  have hMinus : scanMinus ((if negative then py "-" else []) ++ (whole ++ tail)) =
      (negative, whole ++ tail) := by
    cases negative with
    | true => rfl
    | false =>
      refine scanMinus_of_ne ?_
      rw [if_neg Bool.false_ne_true, nil_append, head?_append_of_ne_nil _ hWhole.ne_nil,
        head?_eq_some_head hWhole.ne_nil]
      intro hHead
      have hDigit := hWhole.digits _ (head_mem hWhole.ne_nil)
      rw [some.inj hHead] at hDigit
      cases hDigit
  unfold scanNumeral
  rw [hMinus, scanWhole_append hWhole hTail, map_some, hFraction, hExponent]

theorem scanNumeral_integer (negative : Bool) {whole rest : Text} (hWhole : IsWhole whole)
    (hRest : StopsNumeral rest) :
    scanNumeral ((if negative then py "-" else []) ++ (whole ++ rest)) =
      some (⟨negative, whole, [], none⟩, rest) :=
  scanNumeral_of_parts negative hWhole hRest.noDigitNext
    (scanFraction_of_ne fun hHead => (hRest _ hHead).2.1 rfl)
    (scanExponent_of_ne fun c hc => (hRest c hc).2.2)

end Python

/-! ## Timestamps

`datetime.isoformat(timespec="milliseconds")` of a moment in UTC. -/

namespace Python

open List

def zfill (width n : ℕ) : Text := List.replicate (width - (natDigits n).length) 0x30 ++ natDigits n

structure UtcTime where
  year : Fin 10000
  month : Fin 13
  day : Fin 32
  hour : Fin 24
  minute : Fin 60
  second : Fin 60
  millisecond : Fin 1000

def UtcTime.isoformat (now : UtcTime) : Text :=
  zfill 4 now.year ++ py "-" ++ zfill 2 now.month ++ py "-" ++ zfill 2 now.day ++ py "T" ++
    zfill 2 now.hour ++ py ":" ++ zfill 2 now.minute ++ py ":" ++ zfill 2 now.second ++ py "." ++
    zfill 3 now.millisecond ++ py "+00:00"

def IsInk (t : Text) : Prop := ∀ c ∈ t, 0x21 ≤ c.val ∧ c.val < 0x7f

instance (t : Text) : Decidable (IsInk t) := List.decidableBAll _ t

theorem IsInk.append {s t : Text} (hs : IsInk s) (ht : IsInk t) : IsInk (s ++ t) :=
  forall_mem_append.mpr ⟨hs, ht⟩

theorem IsInk.isPlain {t : Text} (h : IsInk t) : IsPlain t := by
  intro c hc
  have hInk := h c hc
  omega

theorem IsInk.isSpace {t : Text} (h : IsInk t) {c : CodePoint} (hc : c ∈ t) : isSpace c = false := by
  have hInk := h c hc
  simp only [Python.isSpace, Bool.or_eq_false_iff, Bool.and_eq_false_iff, decide_eq_false_iff_not,
    beq_eq_false_iff_ne]
  omega

theorem isInk_zfill (width n : ℕ) : IsInk (zfill width n) := by
  refine IsInk.append (fun c hc => ?_) fun c hc => ?_
  · rw [(mem_replicate.mp hc).2]
    decide
  · have hDigit := isDigit_of_mem_natDigits hc
    simp only [isDigit, Bool.and_eq_true, decide_eq_true_eq] at hDigit
    have hLow : 0x30 ≤ c.val := hDigit.1
    have hHigh : c.val ≤ 0x39 := hDigit.2
    omega

theorem UtcTime.isInk_isoformat (now : UtcTime) : IsInk now.isoformat := by
  unfold isoformat
  iterate 6 refine IsInk.append (IsInk.append ?_ (isInk_zfill _ _)) (by decide)
  exact (isInk_zfill _ _).append (by decide)

theorem UtcTime.isoformat_ne_nil (now : UtcTime) : now.isoformat ≠ [] :=
  append_ne_nil_of_right_ne_nil _ (by decide)

end Python
