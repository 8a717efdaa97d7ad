import Ici.Analysis.CppText

/-! # The physical lines of a spliced source

Line splices are taken out before a C++ source is split into tokens. A table keeps where each physical
line starts in what is left. -/

namespace Ici.Duplicates

open List Python CppText

structure SplicedCppSource where
  text : Text
  physicalLineStarts : List ℕ
  lastPhysicalSourceLine : ℕ

/-- `bisect.bisect_right` of a table in order. -/
def bisectRight (places : List ℕ) (place : ℕ) : ℕ := (places.takeWhile (· ≤ place)).length

def SplicedCppSource.lineAt (source : SplicedCppSource) (offset : ℤ) : Result ℕ :=
  if offset < 0 ∨ source.text.length ≤ offset then
    .error ⟨py "IndexError", py "logical C++ source offset is out of range"⟩
  else .ok (bisectRight source.physicalLineStarts offset.toNat)

/-- What the loop over the splices and line ends appends for the rest of a text. -/
def lineStarts (position removed : ℕ) : Text → List ℕ
  | c :: d :: rest =>
    if c = 0x5c ∧ d = 0xa then (position - removed) :: lineStarts (position + 2) (removed + 2) rest
    else (if c = 0xa then [position + 1 - removed] else []) ++ lineStarts (position + 1) removed (d :: rest)
  | [c] => if c = 0xa then [position + 1 - removed] else []
  | [] => []

def spliceCppSource (t : Text) : SplicedCppSource where
  text := replacePair 0x5c 0xa [] t
  physicalLineStarts := 0 :: lineStarts 0 0 t
  lastPhysicalSourceLine :=
    if t = [] then 0 else (lineStarts 0 0 t).length + if t.getLast? = some 0xa then 0 else 1

/-! ## Where the characters come from -/

/-- Whether a character is one of a backslash and the line end right behind it. -/
def isSpliced (t : Text) (position : ℕ) : Bool :=
  (t[position]? = some 0x5c && t[position + 1]? = some 0xa) ||
    (t[position]? = some 0xa && 0 < position && t[position - 1]? = some 0x5c)

def keptPositions (t : Text) : List ℕ := (List.range t.length).filter (!isSpliced t ·)

def physicalLine (t : Text) (position : ℕ) : ℕ := (t.take position).count 0xa + 1

def StartsSplice (c : CodePoint) (rest : Text) : Prop := c = 0x5c ∧ rest.head? = some 0xa

theorem splice_induction {motive : Text → Prop} (nil : motive [])
    (splice : ∀ rest, motive rest → motive (0x5c :: 0xa :: rest))
    (cons : ∀ c rest, ¬StartsSplice c rest → motive rest → motive (c :: rest)) : ∀ t, motive t
  | [] => nil
  | [c] => cons c [] (by simp [StartsSplice]) nil
  | c :: d :: rest => by
    by_cases h : c = 0x5c ∧ d = 0xa
    · obtain ⟨rfl, rfl⟩ := h
      exact splice rest (splice_induction nil splice cons rest)
    · exact cons c (d :: rest) (by simpa [StartsSplice] using h)
        (splice_induction nil splice cons (d :: rest))

theorem lineStarts_splice (position removed : ℕ) (rest : Text) :
    lineStarts position removed (0x5c :: 0xa :: rest) =
      (position - removed) :: lineStarts (position + 2) (removed + 2) rest := by
  simp [lineStarts]

variable {c : CodePoint} {rest : Text}

theorem lineStarts_cons (h : ¬StartsSplice c rest) (position removed : ℕ) :
    lineStarts position removed (c :: rest) =
      (if c = 0xa then [position + 1 - removed] else []) ++ lineStarts (position + 1) removed rest := by
  cases rest with
  | nil => simp [lineStarts]
  | cons d rest => rw [lineStarts, if_neg (by simpa [StartsSplice] using h)]

theorem replacePair_cons (h : ¬StartsSplice c rest) :
    replacePair 0x5c 0xa [] (c :: rest) = c :: replacePair 0x5c 0xa [] rest := by
  cases rest with
  | nil => rfl
  | cons d rest => rw [replacePair, if_neg (by simpa [StartsSplice] using h)]

theorem keptPositions_splice (rest : Text) :
    keptPositions (0x5c :: 0xa :: rest) = (keptPositions rest).map (· + 2) := by
  have hShift (position : ℕ) : isSpliced (0x5c :: 0xa :: rest) (position + 2) = isSpliced rest position := by
    cases position <;> simp [isSpliced]
  rw [keptPositions, length_cons, length_cons, range_succ_eq_map, range_succ_eq_map,
    filter_cons_of_neg (by simp [isSpliced]), map_cons,
    filter_cons_of_neg (by simp [isSpliced]), List.map_map, filter_map]
  simp only [Function.comp_def, Nat.succ_eq_add_one, Nat.add_assoc, Nat.reduceAdd, hShift]
  rfl

theorem keptPositions_cons (h : ¬StartsSplice c rest) :
    keptPositions (c :: rest) = 0 :: (keptPositions rest).map (· + 1) := by
  have hShift (position : ℕ) : isSpliced (c :: rest) (position + 1) = isSpliced rest position := by
    cases position with
    | zero =>
      simp only [isSpliced, StartsSplice, head?_eq_getElem?] at h ⊢
      simp
      tauto
    | succ position => simp [isSpliced]
  have hFirst : isSpliced (c :: rest) 0 = false := by
    simpa [isSpliced, StartsSplice, head?_eq_getElem?] using h
  rw [keptPositions, length_cons, range_succ_eq_map, filter_cons_of_pos (by simp [hFirst]), filter_map]
  simp only [Function.comp_def, Nat.succ_eq_add_one, hShift]
  rfl

theorem lineStarts_sorted (t : Text) : ∀ position removed,
    ((position - removed) :: lineStarts position removed t).Pairwise (· ≤ ·) := by
  induction t using splice_induction with
  | nil => exact fun _ _ => pairwise_singleton _ _
  | splice rest ih =>
    intro position removed
    have hLater := ih (position + 2) (removed + 2)
    rw [Nat.add_sub_add_right] at hLater
    rw [lineStarts_splice]
    exact .cons (forall_mem_cons.mpr ⟨le_rfl, (pairwise_cons.mp hLater).1⟩) hLater
  | cons c rest h ih =>
    intro position removed
    have hLater := ih (position + 1) removed
    have hLe : ∀ start ∈ lineStarts (position + 1) removed rest, position - removed ≤ start :=
      fun start hStart => le_trans (by omega) (rel_of_pairwise_cons hLater hStart)
    rw [lineStarts_cons h]
    split_ifs
    · exact .cons (forall_mem_cons.mpr ⟨by omega, hLe⟩) hLater
    · exact .cons hLe hLater.of_cons

theorem bisectRight_eq_zero {places : List ℕ} {place : ℕ} (h : ∀ start ∈ places, place < start) :
    bisectRight places place = 0 := by
  cases places with
  | nil => rfl
  | cons start rest =>
    rw [bisectRight, takeWhile_cons_of_neg (by simpa using h start mem_cons_self)]
    rfl

theorem bisectRight_mono (places : List ℕ) : Monotone (bisectRight places) := fun place later hLe => by
  induction places with
  | nil => exact le_rfl
  | cons start rest ih =>
    simp only [bisectRight, takeWhile_cons, decide_eq_true_eq] at ih ⊢
    split_ifs <;> simp <;> omega

/-- Each character stands at a kept position, and so many line starts are at most its offset as there are line
ends before that position. -/
theorem spliced_traced (t : Text) : ∀ {position removed offset : ℕ}, removed ≤ position →
    offset < (replacePair 0x5c 0xa [] t).length → ∃ origin, (keptPositions t)[offset]? = some origin ∧
      (replacePair 0x5c 0xa [] t)[offset]? = t[origin]? ∧
      bisectRight (lineStarts position removed t) (position - removed + offset) =
        (t.take origin).count 0xa := by
  induction t using splice_induction with
  | nil => exact fun _ h => (Nat.not_lt_zero _ h).elim
  | splice rest ih =>
    intro position removed offset hLe hOffset
    have hText : replacePair 0x5c 0xa [] (0x5c :: 0xa :: rest) = replacePair 0x5c 0xa [] rest := by
      simp [replacePair]
    rw [hText] at hOffset ⊢
    obtain ⟨origin, hKept, hChar, hStarts⟩ := ih (Nat.add_le_add_right hLe 2) hOffset
    rw [Nat.add_sub_add_right, bisectRight] at hStarts
    refine ⟨origin + 2, by simp [keptPositions_splice, hKept], hChar, ?_⟩
    rw [lineStarts_splice, bisectRight, takeWhile_cons_of_pos (by simp), length_cons, hStarts]
    simp [take_succ_cons]
  | cons c rest h ih =>
    intro position removed offset hLe hOffset
    have hSorted := lineStarts_sorted rest (position + 1) removed
    rw [replacePair_cons h] at hOffset ⊢
    rw [lineStarts_cons h, keptPositions_cons h]
    cases offset with
    | zero =>
      refine ⟨0, rfl, rfl, bisectRight_eq_zero fun start hStart => ?_⟩
      have hMem : start ∈ (position + 1 - removed) :: lineStarts (position + 1) removed rest := by
        split_ifs at hStart
        · exact hStart
        · exact mem_cons_of_mem _ hStart
      have hLess : position + 1 - removed ≤ start := by
        rcases mem_cons.mp hMem with rfl | hMem
        · exact le_rfl
        · exact rel_of_pairwise_cons hSorted hMem
      omega
    | succ offset =>
      obtain ⟨origin, hKept, hChar, hStarts⟩ :=
        ih (Nat.le_succ_of_le hLe) (Nat.lt_of_succ_lt_succ hOffset)
      rw [show position.succ - removed + offset = position - removed + (offset + 1) by omega] at hStarts
      refine ⟨origin + 1, by simp [hKept], hChar, ?_⟩
      rw [take_succ_cons, count_cons, ← hStarts]
      by_cases hEnd : c = 0xa
      · rw [if_pos hEnd, if_pos (beq_iff_eq.mpr hEnd), bisectRight, singleton_append,
        takeWhile_cons_of_pos (by simp; omega), length_cons]
        rfl
      · rw [if_neg hEnd, if_neg (by simpa using hEnd)]
        rfl

theorem line_at_physical (t : Text) : (spliceCppSource t).physicalLineStarts.Pairwise (· ≤ ·) ∧
    (∀ offset < (spliceCppSource t).text.length, ∃ position, (keptPositions t)[offset]? = some position ∧
      (spliceCppSource t).text[offset]? = t[position]? ∧
      (spliceCppSource t).lineAt offset = .ok (physicalLine t position)) ∧
    ∀ offset later lineBefore lineAfter : ℕ, offset ≤ later →
      (spliceCppSource t).lineAt offset = .ok lineBefore →
      (spliceCppSource t).lineAt later = .ok lineAfter → lineBefore ≤ lineAfter := by
  refine ⟨lineStarts_sorted t 0 0, fun offset hOffset => ?_,
    fun offset later lineBefore lineAfter hLe hBefore hAfter => ?_⟩
  · obtain ⟨origin, hKept, hChar, hStarts⟩ := spliced_traced t (Nat.le_refl 0) hOffset
    rw [Nat.sub_self, Nat.zero_add] at hStarts
    refine ⟨origin, hKept, hChar, ?_⟩
    rw [SplicedCppSource.lineAt, if_neg (by omega), physicalLine, ← hStarts]
    rfl
  · unfold SplicedCppSource.lineAt at hBefore hAfter
    split_ifs at hBefore hAfter
    cases hBefore
    cases hAfter
    exact bisectRight_mono _ (by omega)

end Ici.Duplicates
