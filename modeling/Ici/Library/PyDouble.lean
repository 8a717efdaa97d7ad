import Mathlib.Data.Int.Log
import Mathlib.Data.Rat.Floor
import Mathlib.Tactic.Positivity
import Ici.Library.Python

/-! # Python floats

A finite double is the rational it denotes; the sign of zero is not kept. Every operation rounds
the exact result once, to nearest with ties to even, as IEEE 754 asks of binary64. -/

namespace Python

inductive PyFloat where
  | fin (value : ℚ)
  | inf (negative : Bool)
  | nan
deriving DecidableEq

namespace PyFloat

def isFinite : PyFloat → Bool
  | fin _ => true
  | _ => false

/-- `value < 0`: a comparison with a NaN is false. -/
def isNegative : PyFloat → Bool
  | fin q => decide (q < 0)
  | inf negative => negative
  | nan => false

def truthy (x : PyFloat) : Bool := x != fin 0

def roundHalfEven (q : ℚ) : ℤ :=
  let below := ⌊q⌋
  if q - below < 1 / 2 then below
  else if 1 / 2 < q - below then below + 1
  else if below % 2 = 0 then below else below + 1

/-- The spacing of doubles at `q`: 53 significant bits, not below the least subnormal. -/
def quantum (q : ℚ) : ℚ := 2 ^ max (Int.log 2 |q| - 52) (-1074)

def ofRat (q : ℚ) : PyFloat :=
  let rounded := roundHalfEven (q / quantum q) * quantum q
  if (2 : ℚ) ^ 1024 ≤ |rounded| then inf (decide (q < 0)) else fin rounded

def mul : PyFloat → PyFloat → PyFloat
  | nan, _ => nan
  | _, nan => nan
  | fin a, fin b => ofRat (a * b)
  | inf a, inf b => inf (a != b)
  | inf a, fin b => if b = 0 then nan else inf (a != decide (b < 0))
  | fin a, inf b => if a = 0 then nan else inf (b != decide (a < 0))

def sub : PyFloat → PyFloat → PyFloat
  | nan, _ => nan
  | _, nan => nan
  | fin a, fin b => ofRat (a - b)
  | inf a, inf b => if a = b then nan else inf a
  | inf a, fin _ => inf a
  | fin _, inf b => inf !b

def divConst (x : PyFloat) (d : ℚ) : PyFloat :=
  match x with
  | nan => nan
  | fin a => ofRat (a / d)
  | inf a => inf (a != decide (d < 0))

def lt : PyFloat → PyFloat → Bool
  | nan, _ => false
  | _, nan => false
  | fin a, fin b => decide (a < b)
  | fin _, inf negative => !negative
  | inf negative, fin _ => negative
  | inf a, inf b => a && !b

/-- `min(a, b)`: the second argument only when it is strictly below the first. -/
def pyMin (a b : PyFloat) : PyFloat := if lt b a then b else a

/-- `max(a, b)`: the second argument only when it is strictly above the first. -/
def pyMax (a b : PyFloat) : PyFloat := if lt a b then b else a

/-- `round(x, digits)`: the exact value rounded to the decimal, then to a double. -/
def roundTo (digits : ℕ) : PyFloat → PyFloat
  | fin q => ofRat (roundHalfEven (q * 10 ^ digits) / 10 ^ digits)
  | x => x

/-- The decimal of `k` significant digits nearest to `q`, if it reads back as `q`; with it the power
of ten its last digit stands for. -/
def digitsAt (q : ℚ) (k : ℕ) : Option (ℕ × ℤ) :=
  let exponent := Int.log 10 q - k + 1
  let scaled := q / 10 ^ exponent
  let below := ⌊scaled⌋.toNat
  let nearest := if scaled - below ≤ below + 1 - scaled then below else below + 1
  let other := if nearest = below then below + 1 else below
  [nearest, other].findSome? fun (n : ℕ) =>
    if ofRat ((n : ℚ) * 10 ^ exponent) = fin q then some (n, exponent) else none

def shortest (q : ℚ) : ℕ × ℤ :=
  ((List.range 17).findSome? fun k => digitsAt q (k + 1)).getD (0, 0)

/-- Digits without trailing zeros and the position of the decimal point relative to the first. -/
def decimalParts (q : ℚ) : Text × ℤ :=
  let digits := natDigits (shortest q).1
  (digits.rdropWhile (· == 0x30), digits.length + (shortest q).2)

def layout (digits : Text) (point : ℤ) : Text :=
  if 16 < point ∨ point < -3 then
    digits.take 1 ++ (if digits.length = 1 then [] else py "." ++ digits.drop 1) ++
      (if point - 1 < 0 then py "e-" else py "e+") ++
      (if (point - 1).natAbs < 10 then py "0" else []) ++ natDigits (point - 1).natAbs
  else if point ≤ 0 then py "0." ++ List.replicate (-point).toNat 0x30 ++ digits
  else if digits.length ≤ point.toNat then
    digits ++ List.replicate (point.toNat - digits.length) 0x30 ++ py ".0"
  else digits.take point.toNat ++ py "." ++ digits.drop point.toNat

/-- `repr(x)`: the shortest decimal that reads back as the same double. -/
def pyRepr : PyFloat → Text
  | nan => py "nan"
  | inf negative => if negative then py "-inf" else py "inf"
  | fin q =>
    if q = 0 then py "0.0"
    else (if q < 0 then py "-" else []) ++ layout (decimalParts |q|).1 (decimalParts |q|).2

/-- `f"{x:.1f}"`. -/
def tenths : PyFloat → Text
  | nan => py "nan"
  | inf negative => if negative then py "-inf" else py "inf"
  | fin q =>
    let rounded := (roundHalfEven (|q| * 10)).toNat
    (if q < 0 then py "-" else []) ++ natDigits (rounded / 10) ++ py "." ++ natDigits (rounded % 10)

theorem ne_nan_of_lt {a b : PyFloat} (h : lt a b = true) : b ≠ nan := by
  rintro rfl
  cases a <;> cases h

theorem pyMax_ne_nan (low : ℚ) (x : PyFloat) : pyMax (fin low) x ≠ nan := by
  unfold pyMax
  split
  · rename_i h
    exact ne_nan_of_lt h
  · simp

end PyFloat

end Python

/-! ## The doubles among the rationals

A double is a multiple of its own spacing; rounding a number that is near enough to one yields it. -/

namespace Python

namespace PyFloat

def IsDouble : PyFloat → Prop
  | fin q => ofRat q = fin q
  | _ => True

instance (x : PyFloat) : Decidable x.IsDouble := by
  cases x <;> unfold IsDouble <;> infer_instance

theorem roundHalfEven_intCast (m : ℤ) : roundHalfEven m = m := by
  simp [roundHalfEven]

theorem roundHalfEven_eq_of_near {q : ℚ} {m : ℤ} (h : |q - m| < 1 / 2) : roundHalfEven q = m := by
  obtain ⟨hLow, hHigh⟩ := abs_lt.mp h
  unfold roundHalfEven
  by_cases hAbove : (m : ℚ) ≤ q
  · have hFloor : ⌊q⌋ = m := Int.floor_eq_iff.mpr ⟨hAbove, by linarith⟩
    simp only [hFloor]
    rw [if_pos (by linarith)]
  · have hFloor : ⌊q⌋ = m - 1 := Int.floor_eq_iff.mpr ⟨by push_cast; linarith, by push_cast; linarith⟩
    simp only [hFloor]
    push_cast
    rw [if_neg (by linarith), if_pos (by linarith)]
    omega

theorem abs_roundHalfEven_sub_le (q : ℚ) : |roundHalfEven q - q| ≤ 1 / 2 := by
  have hLow := Int.floor_le q
  have hHigh := Int.lt_floor_add_one q
  unfold roundHalfEven
  rw [abs_le]
  dsimp only
  split_ifs <;> push_cast <;> constructor <;> linarith

theorem roundHalfEven_neg (q : ℚ) : roundHalfEven (-q) = -roundHalfEven q := by
  by_cases hInt : (⌊q⌋ : ℚ) = q
  · rw [← hInt, ← Int.cast_neg, roundHalfEven_intCast, roundHalfEven_intCast]
  · have hLow : (⌊q⌋ : ℚ) < q := lt_of_le_of_ne (Int.floor_le q) hInt
    have hHigh := Int.lt_floor_add_one q
    have hFloor : ⌊-q⌋ = -⌊q⌋ - 1 := by
      rw [Int.floor_eq_iff]
      push_cast
      constructor <;> linarith
    unfold roundHalfEven
    simp only [hFloor]
    push_cast
    split_ifs <;> first | omega | (exfalso; linarith)

theorem quantum_pos (q : ℚ) : 0 < quantum q := by
  unfold quantum
  exact zpow_pos (by norm_num) _

@[simp] theorem quantum_neg (q : ℚ) : quantum (-q) = quantum q := by
  simp [quantum]

theorem abs_lt_quantum (q : ℚ) : |q| < 2 ^ 53 * quantum q := by
  have hLog : |q| < (2 : ℚ) ^ (Int.log 2 |q| + 1) := Int.lt_zpow_succ_log_self (by norm_num) _
  have hLe : (2 : ℚ) ^ (Int.log 2 |q| + 1) ≤ 2 ^ 53 * quantum q := by
    have hPow : (2 : ℚ) ^ 53 * quantum q = 2 ^ (53 + max (Int.log 2 |q| - 52) (-1074) : ℤ) := by
      rw [quantum, zpow_add₀ (by norm_num)]
      norm_num
    rw [hPow]
    apply zpow_le_zpow_right₀ (by norm_num)
    omega
  exact hLog.trans_le hLe

theorem exists_quantum_mul {q r : ℚ} (h : quantum r ≤ quantum q) : ∃ n : ℤ, quantum q = n * quantum r := by
  unfold quantum at *
  have hExponent := (zpow_le_zpow_iff_right₀ (by norm_num : (1 : ℚ) < 2)).mp h
  refine ⟨2 ^ (max (Int.log 2 |q| - 52) (-1074) - max (Int.log 2 |r| - 52) (-1074)).toNat, ?_⟩
  push_cast
  rw [← zpow_natCast, ← zpow_add₀ (by norm_num)]
  congr 1
  omega

/-! ## Rounding to a double -/

theorem ofRat_eq_of_near {x q : ℚ} (hInt : ∃ m : ℤ, q = m * quantum x)
    (hNear : |x - q| < quantum x / 2) (hFits : |q| < 2 ^ 1024) : ofRat x = fin q := by
  obtain ⟨m, rfl⟩ := hInt
  have hPos := quantum_pos x
  have hRound : roundHalfEven (x / quantum x) = m := by
    apply roundHalfEven_eq_of_near
    have hScale : x / quantum x - m = (x - m * quantum x) / quantum x := by field_simp
    rw [hScale, abs_div, abs_of_pos hPos, div_lt_iff₀ hPos]
    linarith
  unfold ofRat
  simp only [hRound]
  rw [if_neg (not_le.mpr hFits)]

theorem ofRat_neg (q : ℚ) : ofRat (-q) = match ofRat q with
    | fin r => fin (-r)
    | inf _ => inf (decide (-q < 0))
    | nan => nan := by
  unfold ofRat
  simp only [quantum_neg, neg_div, roundHalfEven_neg, Int.cast_neg, neg_mul, abs_neg]
  split_ifs <;> rfl

theorem abs_rounded_le (x : ℚ) : |(roundHalfEven (x / quantum x) : ℚ)| ≤ 2 ^ 53 := by
  have hPos := quantum_pos x
  have hBelow : |x / quantum x| < 2 ^ 53 := by
    rw [abs_div, abs_of_pos hPos, div_lt_iff₀ hPos]
    exact abs_lt_quantum x
  have hNear := abs_roundHalfEven_sub_le (x / quantum x)
  have hLess : |(roundHalfEven (x / quantum x) : ℚ)| < 2 ^ 53 + 1 := by
    have hTriangle := abs_sub_abs_le_abs_sub (roundHalfEven (x / quantum x) : ℚ) (x / quantum x)
    linarith
  have hCast : |roundHalfEven (x / quantum x)| < 2 ^ 53 + 1 := by exact_mod_cast hLess
  exact_mod_cast Int.lt_add_one_iff.mp hCast

theorem exists_mul_quantum_rounded (x : ℚ) : ∃ m : ℤ, roundHalfEven (x / quantum x) * quantum x =
      m * quantum (roundHalfEven (x / quantum x) * quantum x) := by
  have hPos := quantum_pos x
  have hLe := abs_rounded_le x
  generalize hn : roundHalfEven (x / quantum x) = n at hLe ⊢
  by_cases hZero : n = 0
  · exact ⟨0, by simp [hZero]⟩
  have hAbs : |(n : ℚ) * quantum x| = |(n : ℚ)| * quantum x := by rw [abs_mul, abs_of_pos hPos]
  have hNe : 0 < |(n : ℚ) * quantum x| := by
    rw [hAbs]
    exact mul_pos (abs_pos.mpr (by exact_mod_cast hZero)) hPos
  rcases hLe.lt_or_eq with hLess | hEq
  · have hFine : quantum (n * quantum x) ≤ quantum x := by
      have hLog : (2 : ℚ) ^ Int.log 2 |(n : ℚ) * quantum x| ≤ |(n : ℚ) * quantum x| :=
        Int.zpow_log_le_self (by norm_num) hNe
      have hPow : (2 : ℚ) ^ Int.log 2 |(n : ℚ) * quantum x| < 2 ^ 53 * quantum x := by
        refine hLog.trans_lt ?_
        rw [hAbs]
        exact mul_lt_mul_of_pos_right hLess hPos
      have hScale : (2 : ℚ) ^ 53 * quantum x = 2 ^ (53 + max (Int.log 2 |x| - 52) (-1074) : ℤ) := by
        rw [quantum, zpow_add₀ (by norm_num)]
        norm_num
      rw [hScale] at hPow
      have hExponent := (zpow_lt_zpow_iff_right₀ (by norm_num : (1 : ℚ) < 2)).mp hPow
      change (2 : ℚ) ^ max (Int.log 2 |(n : ℚ) * quantum x| - 52) (-1074) ≤
        2 ^ max (Int.log 2 |x| - 52) (-1074)
      apply zpow_le_zpow_right₀ (by norm_num)
      omega
    obtain ⟨k, hk⟩ := exists_quantum_mul hFine
    refine ⟨n * k, ?_⟩
    push_cast
    rw [mul_assoc, ← hk]
  · have hLog : Int.log 2 |(n : ℚ) * quantum x| = 53 + max (Int.log 2 |x| - 52) (-1074) := by
      have hScale : |(n : ℚ) * quantum x| = 2 ^ (53 + max (Int.log 2 |x| - 52) (-1074) : ℤ) := by
        rw [hAbs, hEq, quantum, zpow_add₀ (by norm_num)]
        norm_num
      rw [hScale]
      exact Int.log_zpow (by norm_num) _
    have hTwice : quantum (n * quantum x) = 2 * quantum x := by
      have hMax : max (Int.log 2 |(n : ℚ) * quantum x| - 52) (-1074) =
          1 + max (Int.log 2 |x| - 52) (-1074) := by omega
      rw [quantum, hMax, quantum, zpow_add₀ (by norm_num)]
      norm_num
    rcases abs_eq (by norm_num : (0 : ℚ) ≤ 2 ^ 53) |>.mp hEq with hVal | hVal
    · exact ⟨2 ^ 52, by rw [hTwice, hVal]; push_cast; ring⟩
    · exact ⟨-2 ^ 52, by rw [hTwice, hVal]; push_cast; ring⟩

theorem isDouble_ofRat (x : ℚ) : (ofRat x).IsDouble := by
  unfold ofRat
  dsimp only
  split_ifs with hOver
  · trivial
  · have hHalf := half_pos (quantum_pos (roundHalfEven (x / quantum x) * quantum x))
    exact ofRat_eq_of_near (exists_mul_quantum_rounded x) (by simpa using hHalf) (not_le.mp hOver)

section

variable {q : ℚ} (h : (fin q).IsDouble)
include h

theorem IsDouble.exists_mul : (∃ m : ℤ, q = m * quantum q) ∧ |q| < 2 ^ 1024 := by
  unfold IsDouble ofRat at h
  dsimp only at h
  split_ifs at h with hOver
  have hSelf : (roundHalfEven (q / quantum q) : ℚ) * quantum q = q := by injection h
  exact ⟨⟨_, hSelf.symm⟩, hSelf ▸ not_le.mp hOver⟩

theorem isDouble_neg : (fin (-q)).IsDouble := by
  have hSelf : ofRat q = fin q := h
  change ofRat (-q) = fin (-q)
  rw [ofRat_neg, hSelf]

theorem isDouble_abs : (fin |q|).IsDouble := by
  rcases abs_choice q with hAbs | hAbs
  · rwa [hAbs]
  · rw [hAbs]
    exact isDouble_neg h

end

/-! ## Arithmetic stays within the doubles -/

theorem isDouble_mul (x y : PyFloat) : (mul x y).IsDouble := by
  cases x with
  | nan => trivial
  | fin a =>
    cases y with
    | nan => trivial
    | fin b => exact isDouble_ofRat _
    | inf b =>
      change (if a = 0 then nan else inf _).IsDouble
      split <;> trivial
  | inf a =>
    cases y with
    | nan => trivial
    | fin b =>
      change (if b = 0 then nan else inf _).IsDouble
      split <;> trivial
    | inf b => trivial

theorem isDouble_divConst (x : PyFloat) (d : ℚ) : (divConst x d).IsDouble := by
  cases x with
  | fin a => exact isDouble_ofRat _
  | _ => trivial

theorem isDouble_roundTo (digits : ℕ) (x : PyFloat) : (roundTo digits x).IsDouble := by
  cases x with
  | fin q => exact isDouble_ofRat _
  | _ => trivial

theorem isDouble_pyMin {x y : PyFloat} (hx : x.IsDouble) (hy : y.IsDouble) : (pyMin x y).IsDouble := by
  unfold pyMin
  split <;> assumption

theorem isDouble_pyMax {x y : PyFloat} (hx : x.IsDouble) (hy : y.IsDouble) : (pyMax x y).IsDouble := by
  unfold pyMax
  split <;> assumption

end PyFloat

abbrev Double := { x : PyFloat // x.IsDouble }

def Double.ofRat (q : ℚ) : Double := ⟨PyFloat.ofRat q, PyFloat.isDouble_ofRat q⟩

namespace Double

def mul (x y : Double) : Double := ⟨x.val.mul y.val, PyFloat.isDouble_mul _ _⟩

def divConst (x : Double) (d : ℚ) : Double := ⟨x.val.divConst d, PyFloat.isDouble_divConst _ _⟩

def pyMin (x y : Double) : Double := ⟨x.val.pyMin y.val, PyFloat.isDouble_pyMin x.property y.property⟩

def pyMax (x y : Double) : Double := ⟨x.val.pyMax y.val, PyFloat.isDouble_pyMax x.property y.property⟩

def roundTo (digits : ℕ) (x : Double) : Double :=
  ⟨x.val.roundTo digits, PyFloat.isDouble_roundTo _ _⟩

def trueDiv (a b : ℤ) : Result Double :=
  if b = 0 then .error ⟨py "ZeroDivisionError", py "division by zero"⟩
  else if (ofRat (a / b)).val.isFinite then .ok (ofRat (a / b))
  else .error ⟨py "OverflowError", py "integer division result too large for a float"⟩

theorem exists_trueDiv_iff {a b : ℤ} :
    (∃ x, trueDiv a b = .ok x) ↔ b ≠ 0 ∧ (ofRat (a / b)).val.isFinite = true := by
  unfold trueDiv
  split_ifs with hZero hFinite
  · exact iff_of_false (fun ⟨_, h⟩ => nomatch h) fun h => h.1 hZero
  · exact iff_of_true ⟨_, rfl⟩ ⟨hZero, hFinite⟩
  · exact iff_of_false (fun ⟨_, h⟩ => nomatch h) fun h => hFinite h.2

end Double

def Double.zero : Double := ⟨.fin 0, by simp [PyFloat.IsDouble, PyFloat.ofRat, PyFloat.roundHalfEven]⟩

end Python

/-! ## Rounding does not pass an integer

An integer of at most 53 bits is a double, so rounding a smaller number does not exceed it. -/

namespace Python

namespace PyFloat

theorem roundHalfEven_nonneg {q : ℚ} (h : 0 ≤ q) : 0 ≤ roundHalfEven q := by
  have hFloor : 0 ≤ ⌊q⌋ := Int.floor_nonneg.mpr h
  unfold roundHalfEven
  dsimp only
  split_ifs <;> omega

theorem roundHalfEven_le {q : ℚ} {m : ℤ} (h : q ≤ m) : roundHalfEven q ≤ m := by
  rcases h.eq_or_lt with rfl | hLess
  · exact (roundHalfEven_intCast m).le
  · have hFloor : ⌊q⌋ < m := Int.floor_lt.mpr hLess
    unfold roundHalfEven
    dsimp only
    split_ifs <;> omega

theorem exists_natCast_eq_mul_quantum {q : ℚ} {b : ℕ} (h : |q| < 2 ^ 53) :
    ∃ m : ℤ, (b : ℚ) = m * quantum q := by
  have hLog : Int.log 2 |q| ≤ 52 := by
    by_cases hPos : 0 < |q|
    · have hLt : Int.log 2 |q| < 53 := (Int.lt_zpow_iff_log_lt (by norm_num) hPos).mp (by exact_mod_cast h)
      omega
    · rw [show |q| = 0 from le_antisymm (not_lt.mp hPos) (abs_nonneg q)]
      simp
  obtain ⟨n, hn⟩ : ∃ n : ℕ, max (Int.log 2 |q| - 52) (-1074) = -(n : ℤ) :=
    ⟨(-max (Int.log 2 |q| - 52) (-1074)).toNat, by omega⟩
  refine ⟨b * 2 ^ n, ?_⟩
  rw [quantum, hn, zpow_neg, zpow_natCast]
  push_cast
  field_simp

theorem ofRat_mem_Icc {q : ℚ} {b : ℕ} (hLow : 0 ≤ q) (hHigh : q ≤ b) (hBits : b < 2 ^ 53) :
    ∃ r, ofRat q = fin r ∧ 0 ≤ r ∧ r ≤ b := by
  have hBitsCast : (b : ℚ) < 2 ^ 53 := by exact_mod_cast hBits
  have hAbs : |q| < 2 ^ 53 := by
    rw [abs_of_nonneg hLow]
    exact hHigh.trans_lt hBitsCast
  have hPos := quantum_pos q
  obtain ⟨m, hm⟩ := @exists_natCast_eq_mul_quantum q b hAbs
  have hRounded : roundHalfEven (q / quantum q) ≤ m := by
    apply roundHalfEven_le
    rwa [div_le_iff₀ hPos, ← hm]
  have hNonneg : (0 : ℚ) ≤ roundHalfEven (q / quantum q) * quantum q :=
    mul_nonneg (by exact_mod_cast roundHalfEven_nonneg (div_nonneg hLow hPos.le)) hPos.le
  have hLe : roundHalfEven (q / quantum q) * quantum q ≤ (b : ℚ) := by
    rw [hm]
    exact mul_le_mul_of_nonneg_right (by exact_mod_cast hRounded) hPos.le
  refine ⟨_, ?_, hNonneg, hLe⟩
  rw [ofRat, if_neg]
  rw [abs_of_nonneg hNonneg, not_le]
  exact hLe.trans_lt (hBitsCast.trans_le (pow_le_pow_right₀ one_le_two (by norm_num)))

end PyFloat

namespace Double

theorem trueDiv_percent_mem_Icc {part whole : ℤ} {ratio : Double} (hPart : 0 ≤ part) (hWhole : part ≤ whole)
    (h : trueDiv part whole = .ok ratio) :
    ∃ r, (ratio.mul (.ofRat 100)).val = .fin r ∧ 0 ≤ r ∧ r ≤ 100 := by
  obtain ⟨hZero, -⟩ := exists_trueDiv_iff.mp ⟨_, h⟩
  have hPos : (0 : ℚ) < whole := by exact_mod_cast lt_of_le_of_ne (hPart.trans hWhole) (Ne.symm hZero)
  have hPartCast : (0 : ℚ) ≤ part := by exact_mod_cast hPart
  have hWholeCast : (part : ℚ) ≤ whole := by exact_mod_cast hWhole
  obtain ⟨share, hShare, hLow, hHigh⟩ := @PyFloat.ofRat_mem_Icc (part / whole)
    1 (div_nonneg hPartCast hPos.le)
    (by rw [div_le_iff₀ hPos]; simpa using hWholeCast) (by norm_num)
  have hRatio : ratio.val = .fin share := by
    unfold trueDiv at h
    split_ifs at h
    rw [← Except.ok.inj h, ← hShare]
    rfl
  have hHundred : (Double.ofRat 100).val = .fin 100 := by decide +kernel
  obtain ⟨percent, hPercent, hNonneg, hLe⟩ := @PyFloat.ofRat_mem_Icc (share * 100) 100
    (by positivity) (by push_cast at *; linarith) (by norm_num)
  refine ⟨percent, ?_, hNonneg, by exact_mod_cast hLe⟩
  have hMul : (ratio.mul (.ofRat 100)).val = ratio.val.mul (Double.ofRat 100).val := rfl
  rw [hMul, hRatio, hHundred, PyFloat.mul, hPercent]

end Double

end Python

/-! ## Floats in the general format

Six significant digits, without trailing zeros; an exponent where the number is far from one. -/

namespace Python

namespace PyFloat

/-- The six significant digits of a positive number and the position of its decimal point. -/
def generalDigits (q : ℚ) : ℕ × ℤ :=
  let exponent := Int.log 10 q
  let digits := (roundHalfEven (q / 10 ^ (exponent - 5))).toNat
  if digits = 1000000 then (100000, exponent + 2) else (digits, exponent + 1)

def generalLayout (digits : Text) (point : ℤ) : Text :=
  if point ≤ -4 ∨ 6 < point then
    digits.take 1 ++ (if digits.length = 1 then [] else py "." ++ digits.drop 1) ++
      (if point - 1 < 0 then py "e-" else py "e+") ++
      (if (point - 1).natAbs < 10 then py "0" else []) ++ natDigits (point - 1).natAbs
  else if point ≤ 0 then py "0." ++ List.replicate (-point).toNat 0x30 ++ digits
  else if digits.length ≤ point.toNat then digits ++ List.replicate (point.toNat - digits.length) 0x30
  else digits.take point.toNat ++ py "." ++ digits.drop point.toNat

/-- `f"{x:g}"`. -/
def general : PyFloat → Text
  | nan => py "nan"
  | inf negative => if negative then py "-inf" else py "inf"
  | fin q =>
    if q = 0 then py "0"
    else
      let (digits, point) := generalDigits |q|
      (if q < 0 then py "-" else []) ++ generalLayout ((natDigits digits).rdropWhile (· == 0x30)) point

example : general (fin 300) = py "300" := by decide +kernel

example : general (fin (1 / 100000)) = py "1e-05" := by decide +kernel

end PyFloat

end Python
