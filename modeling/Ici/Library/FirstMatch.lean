import Ici.Library.Decimals
import Ici.Library.Lines

/-! # The first match of a pattern

A match is the first of the places a pattern may end at. Where a repetition takes the whole run of
code points it accepts, or all of it up to a place, nothing is tried that a reader would not try. -/

namespace Python

open Option List Cursor

section

variable (before : Option CodePoint)

def lastOf (run : Text) : Option CodePoint := run.getLast?.or before

@[simp] theorem lastOf_nil : lastOf before [] = before := rfl

theorem lastOf_cons (c : CodePoint) (run : Text) : lastOf before (c :: run) = lastOf (some c) run := by
  cases run with
  | nil => rfl
  | cons d run => simp [lastOf, getLast?_cons]

theorem Cursor.advance_append (run tail : Text) (groups : List (ℕ × Text)) :
    (mk before (run ++ tail) groups).advance run.length =
      { before := lastOf before run, rest := tail, groups := groups } := by
  simp only [advance, take_left, drop_left]
  cases run with
  | nil => rfl
  | cons c run => simp [lastOf, getLast?_cons]

end

theorem Cursor.read_append (before before' : Option CodePoint) (run tail : Text)
    (groups groups' : List (ℕ × Text)) :
    (mk before (run ++ tail) groups).read ⟨before', tail, groups'⟩ = run := by
  simp [read]

namespace Pattern

variable (isWord : CodePoint → Bool)

def matchStart (pattern : Pattern) (t : Text) : Option Cursor :=
  (pattern.ends isWord { before := none, rest := t }).head?

def search (pattern : Pattern) (t : Text) : Option Cursor :=
  (placesFrom none t).findSome? fun start => (pattern.ends isWord start).head?

variable {isWord} {before : Option CodePoint} {groups : List (ℕ × Text)} {next : Pattern}

/-! ## Single code points and spelled texts -/

variable {c : CodePoint} {rest t : Text} {pattern : Pattern}

variable {accepts : CodePoint → Bool}

theorem ends_one (h : accepts c = true) (rest : Text) :
    (one accepts).ends isWord ⟨before, c :: rest, groups⟩ = [⟨some c, rest, groups⟩] := by
  simp [ends, h, advance]

theorem ends_one_of_not (h : ∀ c ∈ rest.head?, accepts c = false) :
    (one accepts).ends isWord ⟨before, rest, groups⟩ = [] := by
  cases rest with
  | nil => simp [ends]
  | cons c rest => simp [ends, h c rfl]

theorem ends_cat_one (h : accepts c = true) (rest : Text) :
    (cat (one accepts) next).ends isWord ⟨before, c :: rest, groups⟩ =
      next.ends isWord ⟨some c, rest, groups⟩ := by
  rw [ends, ends_one h, flatMap_singleton]

theorem ends_cat_one_of_not (h : ∀ c ∈ rest.head?, accepts c = false) :
    (cat (one accepts) next).ends isWord ⟨before, rest, groups⟩ = [] := by
  rw [ends, ends_one_of_not h, flatMap_nil]

theorem ends_spelled (t rest : Text) :
    (spelled t).ends isWord ⟨before, t ++ rest, groups⟩ = [⟨lastOf before t, rest, groups⟩] := by
  induction t generalizing before with
  | nil => rfl
  | cons c t ih =>
    have hStep : (cat (one (· == c)) (spelled t)).ends isWord ⟨before, c :: (t ++ rest), groups⟩ =
        (spelled t).ends isWord ⟨some c, t ++ rest, groups⟩ := ends_cat_one (beq_self_eq_true c) _
    rw [lastOf_cons, ← ih]
    exact hStep

theorem ends_spelled_of_not (h : ¬t <+: rest) : (spelled t).ends isWord ⟨before, rest, groups⟩ = [] := by
  induction t generalizing before rest with
  | nil => exact absurd (List.nil_prefix) h
  | cons c t ih =>
    change (cat (one (· == c)) (spelled t)).ends isWord _ = []
    cases rest with
    | nil => exact ends_cat_one_of_not (by simp)
    | cons d rest =>
      by_cases hSame : d = c
      · subst hSame
        have hStep : (cat (one (· == d)) (spelled t)).ends isWord ⟨before, d :: rest, groups⟩ =
            (spelled t).ends isWord ⟨some d, rest, groups⟩ := ends_cat_one (beq_self_eq_true d) _
        rw [hStep]
        apply ih
        intro hPrefix
        exact h (cons_prefix_cons.mpr ⟨rfl, hPrefix⟩)
      · exact ends_cat_one_of_not (by simpa using hSame)

theorem ends_cat_spelled (t rest : Text) : (cat (spelled t) next).ends isWord ⟨before, t ++ rest, groups⟩ =
      next.ends isWord ⟨lastOf before t, rest, groups⟩ := by
  rw [ends, ends_spelled, flatMap_singleton]

theorem ends_cat_spelled_of_not (h : ¬t <+: rest) :
    (cat (spelled t) next).ends isWord ⟨before, rest, groups⟩ = [] := by
  rw [ends, ends_spelled_of_not h, flatMap_nil]

/-! ## Repetitions -/

section Repetition

variable {accepts : CodePoint → Bool} {least : ℕ} {run tail : Text}

section

variable (hRun : ∀ c ∈ run, accepts c = true) (hTail : ∀ c ∈ tail.head?, accepts c = false)
include hRun hTail

theorem takeWhile_run : (run ++ tail).takeWhile accepts = run := by
  rw [takeWhile_append_of_pos hRun]
  cases tail with
  | nil => simp
  | cons c tail => simp [hTail c rfl]

omit hRun hTail in
theorem findSome_down {β : Type*} {answer : ℕ → Option β} {k n : ℕ} (hLeast : least ≤ k) (hk : k ≤ n)
    (hAbove : ∀ j, k < j → j ≤ n → answer j = none) {found : β} (h : answer k = some found) :
    ((List.range (n + 1)).filter (least ≤ ·)).reverse.findSome? answer = some found := by
  induction n with
  | zero =>
    obtain rfl : k = 0 := by omega
    obtain rfl : least = 0 := by omega
    simp [h]
  | succ n ih =>
    have hKept : decide (least ≤ n + 1) = true := decide_eq_true (by omega)
    rw [range_succ, filter_append, reverse_append, filter_singleton, hKept]
    simp only [cond_true, reverse_singleton, singleton_append, findSome?_cons]
    by_cases hTop : k = n + 1
    · rw [← hTop, h]
    · rw [hAbove (n + 1) (by omega) le_rfl]
      exact ih (by omega) fun j hj hn => hAbove j hj (by omega)

theorem head_cat_many_at {k : ℕ} (hLeast : least ≤ k) (hk : k ≤ run.length)
    (hBeyond : ∀ j, k < j → j ≤ run.length →
      next.ends isWord ((mk before (run ++ tail) groups).advance j) = [])
    {stop : Cursor}
    (h : (next.ends isWord ((mk before (run ++ tail) groups).advance k)).head? = some stop) :
    ((cat (many accepts least none true) next).ends isWord ⟨before, run ++ tail, groups⟩).head? = some stop := by
  simp only [ends, repeatCounts, takeWhile_run hRun hTail, map_none, getD_none, if_true,
    head?_flatMap, findSome?_map]
  apply findSome_down hLeast hk
  · intro j hj hn
    simp only [Function.comp_apply, hBeyond j hj hn, head?_nil]
  · exact h

theorem head_cat_many (hLeast : least ≤ run.length) {stop : Cursor}
    (h : (next.ends isWord ⟨lastOf before run, tail, groups⟩).head? = some stop) :
    ((cat (many accepts least none true) next).ends isWord ⟨before, run ++ tail, groups⟩).head? = some stop := by
  apply head_cat_many_at hRun hTail hLeast le_rfl
  · intro j hj hn
    omega
  · rwa [advance_append]

end

theorem ends_cat_group (index : ℕ) (inner : Pattern) (start : Cursor) :
    (cat (group index inner) next).ends isWord start = (inner.ends isWord start).flatMap fun stop =>
      next.ends isWord { stop with groups := (index, start.read stop) :: stop.groups } := by
  simp only [ends, flatMap_map]

section

variable (index : ℕ) (hRun : ∀ c ∈ run, accepts c = true) (hTail : ∀ c ∈ tail.head?, accepts c = false)
include hRun hTail

theorem head_cat_group_many_at {k : ℕ} (hLeast : least ≤ k) (hk : k ≤ run.length)
    (hBeyond : ∀ j groups', k < j → j ≤ run.length → next.ends isWord
      { (mk before (run ++ tail) groups).advance j with groups := groups' } = [])
    {stop : Cursor}
    (h : (next.ends isWord { (mk before (run ++ tail) groups).advance k with
      groups := (index, (mk before (run ++ tail) groups).read
        ((mk before (run ++ tail) groups).advance k)) :: groups }).head? = some stop) :
    ((cat (group index (many accepts least none true)) next).ends isWord
      ⟨before, run ++ tail, groups⟩).head? = some stop := by
  rw [ends_cat_group]
  simp only [ends, repeatCounts, takeWhile_run hRun hTail, map_none, getD_none, if_true,
    head?_flatMap, findSome?_map]
  apply findSome_down hLeast hk
  · intro j hj hn
    simp only [Function.comp_apply, hBeyond j _ hj hn, head?_nil]
  · exact h

theorem head_cat_group_many (hLeast : least ≤ run.length) {stop : Cursor}
    (h : (next.ends isWord ⟨lastOf before run, tail, (index, run) :: groups⟩).head? = some stop) :
    ((cat (group index (many accepts least none true)) next).ends isWord
      ⟨before, run ++ tail, groups⟩).head? = some stop := by
  apply head_cat_group_many_at index hRun hTail hLeast le_rfl
  · intro j _ hj hn
    omega
  · rw [advance_append, read_append]
    exact h

end

end Repetition

theorem search_skip (h : ∀ start : Cursor, start.rest = c :: rest → pattern.ends isWord start = []) :
    (placesFrom before (c :: rest)).findSome? (fun start => (pattern.ends isWord start).head?) =
      (placesFrom (some c) rest).findSome? fun start => (pattern.ends isWord start).head? := by
  rw [placesFrom, findSome?_cons, h _ rfl, head?_nil]

theorem search_here {stop : Cursor} (h : (pattern.ends isWord ⟨before, t, []⟩).head? = some stop) :
    (placesFrom before t).findSome? (fun start => (pattern.ends isWord start).head?) = some stop := by
  cases t <;> rw [placesFrom, findSome?_cons, h]

end Pattern

/-- The digits of Unicode: what `\d` matches and `int` reads, and what `str.isdigit` accepts. -/
structure DigitTable where
  decimal : CodePoint → Option ℕ
  like : CodePoint → Bool
  decimal_ascii : ∀ c, c.val < 0x80 → decimal c = if isDigit c then some (c.val - 0x30) else none
  like_ascii : ∀ c, c.val < 0x80 → like c = isDigit c
  like_of_decimal : ∀ c, (decimal c).isSome = true → like c = true

namespace DigitTable

variable (table : DigitTable)

def isDecimal (c : CodePoint) : Bool := (table.decimal c).isSome

def isdigit (t : Text) : Bool := t ≠ [] && t.all table.like

def value (t : Text) : ℕ := t.foldl (fun n c => 10 * n + (table.decimal c).getD 0) 0

/-- `int(text)` of decimal digits. -/
def readInt (t : Text) : Result ℕ :=
  if t.length ≤ maxStrDigits then .ok (table.value t)
  else .error (valueError (py "Exceeds the limit (4300 digits) for integer string conversion: " ++
    py "value has " ++ natDigits t.length ++
    py " digits; use sys.set_int_max_str_digits() to increase the limit"))

theorem isDecimal_of_isDigit {c : CodePoint} (h : isDigit c = true) : table.isDecimal c = true := by
  have hAscii : c.val < 0x80 := by
    simp only [isDigit, Bool.and_eq_true, decide_eq_true_eq] at h
    omega
  rw [isDecimal, table.decimal_ascii c hAscii, if_pos h]
  rfl

end DigitTable

def asciiDigits : DigitTable where
  decimal c := if isDigit c then some (c.val - 0x30) else none
  like := isDigit
  decimal_ascii _ _ := rfl
  like_ascii _ _ := rfl
  like_of_decimal c h := by
    split at h
    · assumption
    · cases h

end Python
