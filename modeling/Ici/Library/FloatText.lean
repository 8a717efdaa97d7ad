import Ici.Library.Decimals

/-! # What `repr` of a float reads back as -/

namespace Python

open Option List Numeral

namespace PyFloat

/-! ## Seventeen digits suffice -/

theorem step_lt {step r grid : ℚ} (hStep : (10 : ℚ) ^ 16 * step ≤ r) (hGrid : r < 2 ^ 53 * grid)
    (hPos : 0 < step) : step < grid := by
  have hSixteen : (2 : ℚ) ^ 53 * step < 10 ^ 16 * step :=
    mul_lt_mul_of_pos_right (by norm_num) hPos
  by_contra hNot
  have hLe := mul_le_mul_of_nonneg_left (not_lt.mp hNot) (by positivity : (0 : ℚ) ≤ 2 ^ 53)
  linarith

variable {q : ℚ}

theorem IsDouble.quantum_le_gap (h : (fin q).IsDouble) (hPos : 0 < q)
    (hTop : q < (2 : ℚ) ^ (Int.log 2 q + 1)) :
    quantum q ≤ (2 : ℚ) ^ (Int.log 2 q + 1) - q := by
  obtain ⟨⟨m, hm⟩, -⟩ := h.exists_mul
  have hGrid := quantum_pos q
  have hm0 : 0 < m := by
    by_contra hNot
    have hLe : (m : ℚ) ≤ 0 := by exact_mod_cast not_lt.mp hNot
    have hNonpos := mul_nonpos_of_nonpos_of_nonneg hLe hGrid.le
    linarith
  have hSelf : quantum q ≤ q := by
    have hOne : (1 : ℚ) ≤ m := by exact_mod_cast hm0
    calc quantum q = 1 * quantum q := (one_mul _).symm
      _ ≤ m * quantum q := mul_le_mul_of_nonneg_right hOne hGrid.le
      _ = q := hm.symm
  have hExponent : max (Int.log 2 |q| - 52) (-1074) < Int.log 2 q + 1 :=
    (zpow_lt_zpow_iff_right₀ (by norm_num : (1 : ℚ) < 2)).mp (hSelf.trans_lt hTop)
  have hPower : (2 : ℚ) ^ (Int.log 2 q + 1) = (2 ^ (Int.log 2 q + 1 -
      max (Int.log 2 |q| - 52) (-1074)).toNat : ℤ) * quantum q := by
    push_cast
    rw [quantum, ← zpow_natCast, ← zpow_add₀ (by norm_num)]
    congr 1
    omega
  generalize (2 ^ (Int.log 2 q + 1 - max (Int.log 2 |q| - 52) (-1074)).toNat : ℤ) = k at hPower
  rw [hPower] at hTop ⊢
  have hLess : m < k := by
    have hMul : (m : ℚ) * quantum q < k * quantum q := by rwa [← hm]
    exact_mod_cast lt_of_mul_lt_mul_right hMul hGrid.le
  have hNext : (m : ℚ) + 1 ≤ k := by exact_mod_cast hLess
  have hMul := mul_le_mul_of_nonneg_right hNext hGrid.le
  linarith

theorem ofRat_of_seventeen {q step : ℚ} {n : ℕ} (hDouble : (fin q).IsDouble) (hPos : 0 < q)
    (hStep : 0 < step) (hMany : (10 : ℚ) ^ 16 ≤ n) (hQ : (10 : ℚ) ^ 16 * step ≤ q)
    (hNear : |n * step - q| ≤ step / 2) : ofRat (n * step) = fin q := by
  obtain ⟨⟨m, hm⟩, hFits⟩ := hDouble.exists_mul
  have hX : (10 : ℚ) ^ 16 * step ≤ n * step := mul_le_mul_of_nonneg_right hMany hStep.le
  have hXPos : 0 < n * step := lt_of_lt_of_le (by positivity) hX
  have hQx : n * step < 2 ^ 53 * quantum (n * step) := by
    simpa [abs_of_pos hXPos] using abs_lt_quantum (n * step)
  have hQq : q < 2 ^ 53 * quantum q := by simpa [abs_of_pos hPos] using abs_lt_quantum q
  refine ofRat_eq_of_near ?_ ?_ hFits
  · -- The decimal cannot reach the next power of two: the double below it is a whole step away.
    have hFine : quantum (n * step) ≤ quantum q := by
      by_contra hCoarse
      have hBinade : (2 : ℚ) ^ (Int.log 2 q + 1) ≤ n * step := by
        by_contra hBelow
        have hLog : Int.log 2 (n * step) ≤ Int.log 2 q := by
          have hLess := (Int.zpow_log_le_self (b := 2) (by norm_num) hXPos).trans_lt
            (not_le.mp hBelow)
          have hExponent := (zpow_lt_zpow_iff_right₀ (by norm_num : (1 : ℚ) < 2)).mp
            (by exact_mod_cast hLess)
          omega
        apply hCoarse
        unfold quantum
        rw [abs_of_pos hPos, abs_of_pos hXPos]
        apply zpow_le_zpow_right₀ (by norm_num)
        omega
      have hTop : q < (2 : ℚ) ^ (Int.log 2 q + 1) := by
        exact_mod_cast Int.lt_zpow_succ_log_self (b := 2) (by norm_num) q
      have hGap := hDouble.quantum_le_gap hPos hTop
      have hTiny : step < quantum q := step_lt hQ hQq hStep
      linarith [(abs_le.mp hNear).2]
    obtain ⟨k, hk⟩ := exists_quantum_mul hFine
    refine ⟨m * k, ?_⟩
    push_cast
    rw [mul_assoc, ← hk]
    exact hm
  · have hSixteen : (2 : ℚ) ^ 53 < 10 ^ 16 := by norm_num
    have hSmall : (2 : ℚ) ^ 53 * step < n * step :=
      (mul_lt_mul_of_pos_right hSixteen hStep).trans_le hX
    have hHalf : step < quantum (n * step) := by
      by_contra hNot
      have hLe := mul_le_mul_of_nonneg_left (not_lt.mp hNot) (by positivity : (0 : ℚ) ≤ 2 ^ 53)
      linarith
    linarith

theorem exists_digitsAt (hDouble : (fin q).IsDouble) (hPos : 0 < q) : ∃ d, digitsAt q 17 = some d := by
  have hLow : (10 : ℚ) ^ Int.log 10 q ≤ q := by
    exact_mod_cast Int.zpow_log_le_self (b := 10) (by norm_num) hPos
  have hStep : (0 : ℚ) < 10 ^ (Int.log 10 q - (17 : ℕ) + 1) := zpow_pos (by norm_num) _
  have hQ : (10 : ℚ) ^ 16 * 10 ^ (Int.log 10 q - (17 : ℕ) + 1) ≤ q := by
    refine le_trans (le_of_eq ?_) hLow
    rw [← zpow_natCast, ← zpow_add₀ (by norm_num)]
    congr 1
    push_cast
    omega
  generalize hStepEq : (10 : ℚ) ^ (Int.log 10 q - (17 : ℕ) + 1) = step at hStep hQ
  have hScaled : (10 : ℚ) ^ 16 ≤ q / step := (le_div_iff₀ hStep).mpr hQ
  have hFloorLow : (10 : ℤ) ^ 16 ≤ ⌊q / step⌋ := Int.le_floor.mpr (by exact_mod_cast hScaled)
  have hFloor : ((⌊q / step⌋.toNat : ℕ) : ℚ) = ⌊q / step⌋ := by
    have hCast : ((⌊q / step⌋.toNat : ℕ) : ℤ) = ⌊q / step⌋ := Int.toNat_of_nonneg (by omega)
    exact_mod_cast congrArg (Int.cast : ℤ → ℚ) hCast
  have hBelow := Int.floor_le (q / step)
  have hAbove := Int.lt_floor_add_one (q / step)
  have hManyBelow : (10 : ℚ) ^ 16 ≤ (⌊q / step⌋.toNat : ℕ) := by
    rw [hFloor]
    exact_mod_cast hFloorLow
  rw [← hFloor] at hBelow hAbove
  have hQEq : q / step * step = q := by field_simp
  unfold digitsAt
  dsimp only
  rw [hStepEq]
  generalize (⌊q / step⌋.toNat : ℕ) = below at hManyBelow hBelow hAbove
  have hNearest : ∀ nearest : ℕ, (10 : ℚ) ^ 16 ≤ nearest → |(nearest : ℚ) - q / step| ≤ 1 / 2 →
      ofRat (nearest * step) = fin q := by
    intro nearest hMany hClose
    refine ofRat_of_seventeen hDouble hPos hStep hMany hQ ?_
    calc |(nearest : ℚ) * step - q| = |((nearest : ℚ) - q / step) * step| := by
          rw [sub_mul, hQEq]
      _ = |(nearest : ℚ) - q / step| * step := by rw [abs_mul, abs_of_pos hStep]
      _ ≤ 1 / 2 * step := mul_le_mul_of_nonneg_right hClose hStep.le
      _ = step / 2 := by ring
  by_cases hSide : q / step - below ≤ below + 1 - q / step
  · have hRound := hNearest below hManyBelow (by rw [abs_le]; constructor <;> linarith)
    refine ⟨(below, Int.log 10 q - (17 : ℕ) + 1), ?_⟩
    rw [if_pos hSide, findSome?_cons, if_pos hRound]
  · have hRound := hNearest (below + 1) (by push_cast; linarith)
      (by push_cast; rw [abs_le]; constructor <;> linarith)
    refine ⟨(below + 1, Int.log 10 q - (17 : ℕ) + 1), ?_⟩
    rw [if_neg hSide, findSome?_cons, if_pos hRound]

theorem ofRat_of_digitsAt {k n : ℕ} {e : ℤ} (h : digitsAt q k = some (n, e)) :
    ofRat (n * 10 ^ e) = fin q := by
  unfold digitsAt at h
  obtain ⟨n', -, h⟩ := exists_of_findSome?_eq_some h
  split_ifs at h with hRead
  cases h
  exact hRead

theorem ofRat_shortest (hDouble : (fin q).IsDouble) (hPos : 0 < q) :
    ofRat ((shortest q).1 * 10 ^ (shortest q).2) = fin q := by
  obtain ⟨last, hLast⟩ := exists_digitsAt hDouble hPos
  unfold shortest
  cases hFind : (List.range 17).findSome? fun k => digitsAt q (k + 1) with
  | none =>
    have hNone := findSome?_eq_none_iff.mp hFind 16 (by simp)
    rw [hLast] at hNone
    cases hNone
  | some d =>
    obtain ⟨k, -, hDigits⟩ := exists_of_findSome?_eq_some hFind
    exact ofRat_of_digitsAt hDigits

structure IsCoefficient (t : Text) : Prop where
  ne_nil : t ≠ []
  digits : ∀ c ∈ t, isDigit c = true
  leading : t.head? ≠ some 0x30

theorem exists_trailing_zeros (t : Text) : ∃ k, t = t.rdropWhile (· == 0x30) ++ List.replicate k 0x30 := by
  induction t using List.reverseRecOn with
  | nil => exact ⟨0, rfl⟩
  | append_singleton front c ih =>
    by_cases hZero : c = 0x30
    · obtain ⟨k, hk⟩ := ih
      refine ⟨k + 1, ?_⟩
      rw [rdropWhile_concat_pos _ _ _ (by simpa using hZero), replicate_succ', ← append_assoc, ← hk, hZero]
    · refine ⟨0, ?_⟩
      rw [rdropWhile_concat_neg _ _ _ (by simpa using hZero)]
      simp

/-- The digits of `repr` and the place of their point denote the shortest decimal. -/
theorem decimalParts_spec (hDouble : (fin q).IsDouble) (hPos : 0 < q) : IsCoefficient (decimalParts q).1 ∧
      ofRat (digitsValue (decimalParts q).1 *
        10 ^ ((decimalParts q).2 - (decimalParts q).1.length)) = fin q := by
  have hRead := ofRat_shortest hDouble hPos
  unfold decimalParts
  dsimp only
  generalize shortest q = d at hRead ⊢
  obtain ⟨n, e⟩ := d
  dsimp only at hRead ⊢
  have hN : 0 < n := by
    rcases Nat.eq_zero_or_pos n with rfl | hN
    · rw [Nat.cast_zero, zero_mul] at hRead
      have hZero : ofRat 0 = fin 0 := Double.zero.property
      rw [hZero] at hRead
      injection hRead with hQ
      exact absurd hQ hPos.ne
    · exact hN
  have hNe := natDigits_ne_nil n
  have hHead := head_natDigits hN
  have hDigits := digits_natDigits n
  have hValue := digitsValue_natDigits n
  obtain ⟨k, hk⟩ := exists_trailing_zeros (natDigits n)
  generalize (natDigits n).rdropWhile (· == 0x30) = kept at hk ⊢
  have hKept : kept ≠ [] := by
    rintro rfl
    have hZeros : ∀ c ∈ natDigits n, c = 0x30 := by
      rw [hk, nil_append]
      exact fun c hc => eq_of_mem_replicate hc
    exact hHead (hZeros _ (head_mem hNe))
  refine ⟨⟨hKept, fun c hc => hDigits c (hk ▸ mem_append_left _ hc), fun hZero => ?_⟩, ?_⟩
  · have hSame : (natDigits n).head? = kept.head? := by
      rw [hk, head?_append_of_ne_nil _ hKept]
    rw [hZero, head?_eq_some_head hNe] at hSame
    exact hHead (some.inj hSame)
  · rw [hk, digitsValue_append, digitsValue_replicate_zero, length_replicate, Nat.add_zero]
      at hValue
    have hLength : ((natDigits n).length : ℤ) + e - kept.length = k + e := by
      rw [hk, length_append, length_replicate]
      push_cast
      ring
    rw [hLength, zpow_add₀ (by norm_num), zpow_natCast, ← mul_assoc]
    have hCast : (digitsValue kept : ℚ) * 10 ^ k = n := by exact_mod_cast hValue
    rw [hCast]
    exact hRead

/-! ## The layout of `repr` -/

section Layout

variable {digits rest : Text}

theorem IsCoefficient.isWhole_take (h : IsCoefficient digits) {k : ℕ} (hk : 0 < k) :
    IsWhole (digits.take k) where
  ne_nil := by
    rw [Ne, take_eq_nil_iff, not_or]
    exact ⟨by omega, h.ne_nil⟩
  digits := fun c hc => h.digits c (mem_of_mem_take hc)
  leading := by
    intro hZero
    rw [head?_take, if_neg (by omega)] at hZero
    exact absurd hZero h.leading

theorem IsCoefficient.isWhole_append (h : IsCoefficient digits) {more : Text}
    (hMore : ∀ c ∈ more, isDigit c = true) : IsWhole (digits ++ more) where
  ne_nil := by simp [h.ne_nil]
  digits := fun c hc => (mem_append.mp hc).elim (h.digits c) (hMore c)
  leading := by
    intro hZero
    rw [head?_append_of_ne_nil _ h.ne_nil] at hZero
    exact absurd hZero h.leading

structure Reads (n : Numeral) (negative : Bool) (digits : Text) (point : ℤ) : Prop where
  negative : n.negative = negative
  isInteger : n.isInteger = false
  value : (digitsValue (n.whole ++ n.fraction) : ℚ) *
    10 ^ (n.exponent.getD 0 - n.fraction.length) = digitsValue digits * 10 ^ (point - digits.length)

theorem scanNumeral_fraction (negative : Bool) {whole fraction : Text} (hWhole : IsWhole whole)
    (hNe : fraction ≠ []) (hDigits : ∀ c ∈ fraction, isDigit c = true) (hRest : StopsNumeral rest) :
    scanNumeral ((if negative then py "-" else []) ++ (whole ++ (0x2e :: (fraction ++ rest)))) =
      some (⟨negative, whole, fraction, none⟩, rest) := by
  refine scanNumeral_of_parts negative hWhole ?_
    (scanFraction_append hNe hDigits hRest.noDigitNext)
    (scanExponent_of_ne fun c hc => (hRest c hc).2.2)
  intro c hc
  cases hc
  rfl

theorem digitsValue_zeros_append (k : ℕ) (t : Text) :
    digitsValue (List.replicate k 0x30 ++ t) = digitsValue t := by
  rw [digitsValue_append, digitsValue_replicate_zero, Nat.zero_mul, Nat.zero_add]

theorem isDigit_of_mem_zeros {k : ℕ} {c : CodePoint} (h : c ∈ List.replicate k (0x30 : CodePoint)) :
    isDigit c = true := by
  rw [eq_of_mem_replicate h]
  rfl

theorem scan_fraction_reads (negative : Bool) {point : ℤ} (whole fraction : Text)
    (hWhole : IsWhole whole) (hNe : fraction ≠ []) (hDigits : ∀ c ∈ fraction, isDigit c = true)
    (hRest : StopsNumeral rest)
    (hText : layout digits point ++ rest = whole ++ (0x2e :: (fraction ++ rest)))
    (hValue : (digitsValue (whole ++ fraction) : ℚ) * 10 ^ (-(fraction.length : ℤ)) =
      digitsValue digits * 10 ^ (point - digits.length)) :
    ∃ n, scanNumeral ((if negative then py "-" else []) ++ (layout digits point ++ rest)) =
      some (n, rest) ∧ Reads n negative digits point := by
  refine ⟨⟨negative, whole, fraction, none⟩, ?_, rfl, ?_, ?_⟩
  · rw [hText]
    exact scanNumeral_fraction negative hWhole hNe hDigits hRest
  · simp [isInteger, hNe]
  · rw [← hValue, getD_none, zero_sub]

section

variable (h : IsCoefficient digits) {point : ℤ} (negative : Bool) (hFixed : ¬(16 < point ∨ point < -3))
include h hFixed

theorem scan_layout_small (hSmall : point ≤ 0) (hRest : StopsNumeral rest) :
    ∃ n, scanNumeral ((if negative then py "-" else []) ++ (layout digits point ++ rest)) =
      some (n, rest) ∧ Reads n negative digits point := by
  have hWhole : IsWhole [0x30] := ⟨by simp, by simp [isDigit], fun _ => rfl⟩
  have hValue : digitsValue ([0x30] ++ (List.replicate (-point).toNat 0x30 ++ digits)) =
      digitsValue digits := by
    rw [← digitsValue_zeros_append (-point).toNat digits,
      ← digitsValue_zeros_append 1 (List.replicate (-point).toNat 0x30 ++ digits)]
    rfl
  refine scan_fraction_reads negative [0x30] (List.replicate (-point).toNat 0x30 ++ digits) hWhole
    ?_ ?_ hRest ?_ ?_
  · simp [h.ne_nil]
  · exact fun c hc => (mem_append.mp hc).elim isDigit_of_mem_zeros (h.digits c)
  · rw [layout, if_neg hFixed, if_pos hSmall, append_assoc, append_assoc, append_assoc]
    exact congrArg _ rfl
  · rw [hValue, length_append, length_replicate]
    congr 2
    push_cast
    omega

theorem scan_layout_long (hSmall : ¬point ≤ 0)
    (hLong : digits.length ≤ point.toNat) (hRest : StopsNumeral rest) :
    ∃ n, scanNumeral ((if negative then py "-" else []) ++ (layout digits point ++ rest)) =
      some (n, rest) ∧ Reads n negative digits point := by
  have hZeros : ∀ c ∈ List.replicate (point.toNat - digits.length) (0x30 : CodePoint),
      isDigit c = true := fun c hc => isDigit_of_mem_zeros hc
  refine scan_fraction_reads negative (digits ++ List.replicate (point.toNat - digits.length) 0x30)
    [0x30] (h.isWhole_append hZeros) (by simp) (by simp [isDigit]) hRest ?_ ?_
  · rw [layout, if_neg hFixed, if_neg hSmall, if_pos hLong, append_assoc (_ ++ _)]
    rfl
  · have hExponent : point - digits.length = (point.toNat - digits.length : ℕ) := by omega
    have hOne : digitsValue [0x30] = 0 := rfl
    rw [digitsValue_append, digitsValue_append, digitsValue_replicate_zero, length_replicate,
      hExponent, zpow_natCast, length_singleton, hOne]
    push_cast
    rw [zpow_neg_one]
    ring

theorem scan_layout_inner (hSmall : ¬point ≤ 0)
    (hLong : ¬digits.length ≤ point.toNat) (hRest : StopsNumeral rest) :
    ∃ n, scanNumeral ((if negative then py "-" else []) ++ (layout digits point ++ rest)) =
      some (n, rest) ∧ Reads n negative digits point := by
  have hNe : digits.drop point.toNat ≠ [] := by
    rw [Ne, drop_eq_nil_iff]
    exact hLong
  refine scan_fraction_reads negative (digits.take point.toNat) (digits.drop point.toNat)
    (h.isWhole_take (by omega)) hNe ?_ hRest ?_ ?_
  · exact fun c hc => h.digits c (mem_of_mem_drop hc)
  · rw [layout, if_neg hFixed, if_neg hSmall, if_neg hLong, append_assoc (_ ++ _), append_assoc]
    rfl
  · rw [take_append_drop, length_drop]
    congr 2
    omega

end

/-- The exponent of `repr`, at least two digits wide. -/
def exponentDigits (point : ℤ) : Text :=
  (if (point - 1).natAbs < 10 then py "0" else []) ++ natDigits (point - 1).natAbs

theorem scanExponent_layout (point : ℤ) (hRest : StopsNumeral rest) :
    scanExponent (0x65 :: (if decide (point - 1 < 0) then 0x2d else 0x2b) ::
      (exponentDigits point ++ rest)) = (some (point - 1), rest) := by
  have hValue : digitsValue (exponentDigits point) = (point - 1).natAbs := by
    unfold exponentDigits
    rw [digitsValue_append, digitsValue_natDigits]
    split_ifs <;> simp [digitsValue, py]
  have hDigits : ∀ c ∈ exponentDigits point, isDigit c = true := by
    intro c hc
    rcases mem_append.mp hc with hc | hc
    · split_ifs at hc
      · rw [mem_singleton.mp hc]
        rfl
      · cases hc
    · exact isDigit_of_mem_natDigits hc
  have hNe : exponentDigits point ≠ [] := by simp [exponentDigits, natDigits_ne_nil]
  rw [scanExponent_append _ hNe hDigits hRest.noDigitNext, hValue]
  congr 2
  split_ifs with hNegative
  · have hLess := of_decide_eq_true hNegative
    omega
  · have hLess := of_decide_eq_false (Bool.eq_false_iff.mpr hNegative)
    omega

theorem layout_scientific {point : ℤ} (h : 16 < point ∨ point < -3) :
    layout digits point ++ rest = digits.take 1 ++
      ((if digits.length = 1 then [] else 0x2e :: digits.drop 1) ++
        (0x65 :: (if decide (point - 1 < 0) then 0x2d else 0x2b) ::
          (exponentDigits point ++ rest))) := by
  have hSign : (if point - 1 < 0 then py "e-" else py "e+") =
      [0x65, if decide (point - 1 < 0) then 0x2d else 0x2b] := by
    by_cases hLess : point - 1 < 0
    · rw [if_pos hLess, if_pos (decide_eq_true hLess)]
      rfl
    · rw [if_neg hLess, if_neg (by simpa using hLess)]
      rfl
  have hPoint : py "." ++ digits.drop 1 = 0x2e :: digits.drop 1 := rfl
  rw [layout, if_pos h, hSign, hPoint]
  simp only [exponentDigits, append_assoc, cons_append, nil_append]

theorem scan_layout_scientific (h : IsCoefficient digits) {point : ℤ} (negative : Bool)
    (hScientific : 16 < point ∨ point < -3) (hRest : StopsNumeral rest) :
    ∃ n, scanNumeral ((if negative then py "-" else []) ++ (layout digits point ++ rest)) =
      some (n, rest) ∧ Reads n negative digits point := by
  have hExponent := scanExponent_layout point hRest
  have hWhole := h.isWhole_take (by omega : 0 < 1)
  rw [layout_scientific hScientific]
  by_cases hSingle : digits.length = 1
  · have hTake : digits.take 1 = digits := take_of_length_le (by omega)
    refine ⟨⟨negative, digits.take 1, [], some (point - 1)⟩, ?_, rfl, by simp [isInteger], ?_⟩
    · rw [if_pos hSingle, nil_append]
      refine scanNumeral_of_parts negative hWhole ?_ (scanFraction_of_ne (by simp)) hExponent
      intro c hc
      cases hc
      rfl
    · dsimp only
      rw [hTake, append_nil, hSingle, getD_some, length_nil]
      congr 2
      omega
  · have hNe : digits.drop 1 ≠ [] := by
      have hPos := length_pos_of_ne_nil h.ne_nil
      rw [Ne, drop_eq_nil_iff]
      omega
    refine ⟨⟨negative, digits.take 1, digits.drop 1, some (point - 1)⟩, ?_, rfl,
      by simp [isInteger], ?_⟩
    · rw [if_neg hSingle, cons_append]
      refine scanNumeral_of_parts negative hWhole ?_ (scanFraction_append hNe ?_ ?_) hExponent
      · intro c hc
        cases hc
        rfl
      · exact fun c hc => h.digits c (mem_of_mem_drop hc)
      · intro c hc
        cases hc
        rfl
    · have hPos := length_pos_of_ne_nil h.ne_nil
      dsimp only
      rw [take_append_drop, length_drop, getD_some]
      congr 2
      omega

theorem scan_layout (h : IsCoefficient digits) (point : ℤ) (negative : Bool) (hRest : StopsNumeral rest) :
    ∃ n, scanNumeral ((if negative then py "-" else []) ++ (layout digits point ++ rest)) =
      some (n, rest) ∧ Reads n negative digits point := by
  by_cases hScientific : 16 < point ∨ point < -3
  · exact scan_layout_scientific h negative hScientific hRest
  by_cases hSmall : point ≤ 0
  · exact scan_layout_small h negative hScientific hSmall hRest
  by_cases hLong : digits.length ≤ point.toNat
  · exact scan_layout_long h negative hScientific hSmall hLong hRest
  · exact scan_layout_inner h negative hScientific hSmall hLong hRest

end Layout

/-- A finite float reads back from its `repr`. -/
theorem scan_pyRepr {x : Double} (hFinite : x.val.isFinite = true) {rest : Text}
    (hRest : StopsNumeral rest) : ∃ n, scanNumeral (x.val.pyRepr ++ rest) = some (n, rest) ∧
      n.isInteger = false ∧ n.toFloat = x := by
  obtain ⟨x, hDouble⟩ := x
  cases x with
  | nan | inf negative => cases hFinite
  | fin q =>
    have hRepr : (fin q).pyRepr = if q = 0 then py "0.0"
        else (if q < 0 then py "-" else []) ++ layout (decimalParts |q|).1 (decimalParts |q|).2 := rfl
    dsimp only
    rw [hRepr]
    by_cases hZero : q = 0
    · subst hZero
      refine ⟨⟨false, [0x30], [0x30], none⟩, ?_, rfl, ?_⟩
      · have hZeroes : ∀ c ∈ ([0x30] : Text), isDigit c = true := by simp [isDigit]
        have hScan := scanNumeral_fraction false ⟨by simp, hZeroes, fun _ => rfl⟩ (by simp)
          hZeroes hRest
        rw [if_pos rfl]
        exact hScan
      · apply Subtype.ext
        change ofRat _ = fin 0
        have hValue : value ⟨false, [0x30], [0x30], none⟩ = 0 := by
          simp [value, digitsValue]
        rw [hValue]
        exact hDouble
    · have hPos : 0 < |q| := abs_pos.mpr hZero
      obtain ⟨hCoefficient, hRead⟩ := decimalParts_spec (isDouble_abs hDouble) hPos
      obtain ⟨n, hScan, hReads⟩ :=
        scan_layout hCoefficient (decimalParts |q|).2 (decide (q < 0)) hRest
      refine ⟨n, ?_, hReads.isInteger, ?_⟩
      · rw [if_neg hZero, append_assoc, ← hScan]
        simp only [decide_eq_true_eq]
      · apply Subtype.ext
        change ofRat n.value = fin q
        have hMagnitude : n.value = n.sign * (digitsValue (decimalParts |q|).1 *
            10 ^ ((decimalParts |q|).2 - (decimalParts |q|).1.length)) := by
          rw [value, mul_assoc, hReads.value]
        rw [hMagnitude, sign, hReads.negative]
        by_cases hNegative : q < 0
        · rw [abs_of_neg hNegative] at hRead ⊢
          rw [if_pos (decide_eq_true hNegative), Int.cast_neg, Int.cast_one, neg_one_mul, ofRat_neg, hRead]
          simp
        · rw [abs_of_nonneg (not_lt.mp hNegative)] at hRead ⊢
          rw [if_neg (by simpa using hNegative), Int.cast_one, one_mul, hRead]

end PyFloat

end Python
