import Ici.Library.JsonTruncation

/-! # What reading a JSON text can yield

A document whose integers keep within the digit limit, a `ValueError`, or an exhausted recursion
allowance. -/

namespace Python

namespace Json

open List Raising

def IsShown (value : Json) : Prop := ∀ leaf ∈ value.leaves, leaf.IsPrintable {}

theorem isShown_arr_iff {items : List Json} : IsShown (.arr items) ↔ ∀ item ∈ items, IsShown item := by
  unfold IsShown
  rw [leaves]
  induction items with
  | nil => simp [leavesOfItems]
  | cons item rest ih => rw [leavesOfItems, forall_mem_append, ih, forall_mem_cons]

theorem isShown_obj_iff {fields : List (Text × Json)} :
    IsShown (.obj fields) ↔ ∀ field ∈ fields, IsShown field.2 := by
  unfold IsShown
  rw [leaves]
  induction fields with
  | nil => simp [leavesOfFields]
  | cons field rest ih =>
    rw [leavesOfFields, cons_append, forall_mem_cons, forall_mem_append, ih, forall_mem_cons]
    exact and_iff_right trivial

/-- What `json.loads` raises. -/
def IsScanError (e : PyError) : Prop := IsMalformed e ∨ e = recursionError

abbrev Scans {α : Type} (good : α → Prop) (x : Result (α × Text)) : Prop :=
  Yields (fun found => good found.1) IsScanError x

theorem yields_decodeError {α : Type} {returned : α → Prop} (text : Text) :
    Yields returned IsScanError (.error (decodeError text) : Result α) :=
  .inl (isMalformed_decodeError text)

theorem digitsValue_lt {t : Text} (h : ∀ c ∈ t, isDigit c = true) : digitsValue t < 10 ^ t.length := by
  induction t using List.reverseRecOn with
  | nil => decide
  | append_singleton t c ih =>
    have hTail := ih fun d hd => h d (mem_append_left _ hd)
    have hDigit := h c (mem_append_right _ (mem_singleton_self c))
    simp only [isDigit, Bool.and_eq_true, decide_eq_true_eq] at hDigit
    have hLast : digitsValue [c] = c.val - 0x30 := by simp [digitsValue]
    rw [digitsValue_append, hLast, length_append, length_singleton, pow_one, pow_succ]
    omega

theorem length_natDigits_le {n k : ℕ} (hk : 0 < k) (h : n < 10 ^ k) : (natDigits n).length ≤ k := by
  rw [natDigits, length_map]
  exact (Nat.length_toDigits_le_iff (by omega) hk).mpr h

theorem fitsDigitLimit_toInt {n : Numeral} {value : ℤ} (hDigits : ∀ c ∈ n.whole, isDigit c = true)
    (h : n.toInt = .ok value) : FitsDigitLimit value := by
  unfold Numeral.toInt at h
  split at h
  · rename_i hLength
    cases h
    have hAbs : (n.sign * digitsValue n.whole).natAbs = digitsValue n.whole := by
      unfold Numeral.sign
      split <;> simp
    unfold FitsDigitLimit
    rw [hAbs]
    have hPos : 0 < maxStrDigits := by decide
    refine length_natDigits_le hPos ((digitsValue_lt hDigits).trans_le ?_)
    exact Nat.pow_le_pow_right (by omega) hLength
  · cases h

theorem digits_scanWhole {t whole rest : Text} (h : scanWhole t = some (whole, rest)) :
    ∀ c ∈ whole, isDigit c = true := by
  cases t with
  | nil => cases h
  | cons c u =>
    rw [scanWhole] at h
    split_ifs at h with hZero hDigit
    · cases h
      intro d hd
      rw [mem_singleton.mp hd, hZero]
      rfl
    · cases h
      intro d hd
      rcases mem_cons.mp hd with rfl | hd
      · exact hDigit
      · exact mem_takeWhile_imp hd

theorem digits_scanNumeral {t rest : Text} {n : Numeral} (h : scanNumeral t = some (n, rest)) :
    ∀ c ∈ n.whole, isDigit c = true := by
  unfold scanNumeral at h
  obtain ⟨⟨whole, tail⟩, hWhole, hEq⟩ := Option.map_eq_some_iff.mp h
  cases hEq
  exact digits_scanWhole hWhole

theorem scans_scalar (t : Text) : Scans IsShown (scanScalar t) := by
  unfold scanScalar
  split
  · rename_i found hFound
    unfold scanConstant constants at hFound
    obtain ⟨constant, hMem, hSome⟩ := exists_of_findSome?_eq_some hFound
    split at hSome
    · cases hSome
      have hAll : ∀ constant ∈ constants, IsShown constant.2 := by
        simp [constants, IsShown, leaves, Leaf.IsPrintable]
      exact hAll constant hMem
    · cases hSome
  · split
    · rename_i n rest hNumeral
      cases hValue : numeralValue n with
      | error e => exact .inl (numeralValue_error hValue)
      | ok value =>
        unfold numeralValue at hValue
        split at hValue
        · obtain ⟨i, hInt, rfl⟩ := Raising.map_eq_ok.mp hValue
          have hFits := fitsDigitLimit_toInt (digits_scanNumeral hNumeral) hInt
          exact forall_mem_singleton.mpr hFits
        · cases hValue
          exact forall_mem_singleton.mpr (.inr rfl)
    · exact yields_decodeError _

/-! ## Strings and containers -/

theorem scans_body (fuel : ℕ) (t : Text) : Scans (fun _ => True) (scanBody fuel t) := by
  induction fuel generalizing t with
  | zero => exact yields_decodeError _
  | succ fuel ih =>
    cases t with
    | nil => exact yields_decodeError _
    | cons c rest =>
      rw [scanBody]
      refine .ite (fun _ => trivial) fun _ => .ite (fun _ => ?_) fun _ => ?_
      · cases hEscape : scanEscape rest with
        | error e => exact .inl (scanEscape_error hEscape)
        | ok found => exact (ih found.2).bind fun _ _ => trivial
      · exact .ite (fun _ => yields_decodeError _) fun _ => (ih rest).bind fun _ _ => trivial

section Containers

variable {α : Type} {good : α → Prop} {scan : Text → Result (α × Text)}

theorem scans_sequence (h : ∀ t, Scans good (scan t)) (close : CodePoint) (fuel : ℕ) (t : Text) :
    Scans (fun entries => ∀ entry ∈ entries, good entry) (scanSequence close scan fuel t) := by
  induction fuel generalizing t with
  | zero => exact yields_decodeError _
  | succ fuel ih =>
    rw [scanSequence]
    refine (h t).bind fun entry hEntry => ?_
    split
    · exact yields_decodeError _
    · rename_i c rest
      refine .ite (fun _ => forall_mem_singleton.mpr hEntry) fun _ => ?_
      refine .ite (fun _ => ?_) fun _ => yields_decodeError _
      exact (ih _).bind fun later hLater => forall_mem_cons.mpr ⟨hEntry, hLater⟩

variable {element : Text → Result (Json × Text)}

section

variable (h : ∀ t, Scans IsShown (element t)) (t : Text)
include h

theorem scans_member : Scans (fun member => IsShown member.2) (scanMember element t) := by
  unfold scanMember
  split
  · exact yields_decodeError _
  · rename_i quote body
    refine .ite (fun _ => ?_) fun _ => yields_decodeError _
    refine (scans_body _ body).bind fun key _ => ?_
    split
    · exact yields_decodeError _
    · rename_i colon rest
      refine .ite (fun _ => ?_) fun _ => yields_decodeError _
      exact (h _).bind fun value hValue => hValue

theorem scans_array : Scans IsShown (scanArray element t) := by
  unfold scanArray
  split
  · exact yields_decodeError _
  · refine .ite (fun _ => isShown_arr_iff.mpr (forall_mem_nil _)) fun _ => ?_
    exact (scans_sequence h _ _ _).map fun items hItems => isShown_arr_iff.mpr hItems

theorem scans_object : Scans IsShown (scanObject element t) := by
  unfold scanObject
  split
  · exact yields_decodeError _
  · refine .ite (fun _ => isShown_obj_iff.mpr (forall_mem_nil _)) fun _ => ?_
    refine (scans_sequence (scans_member h) _ _ _).map fun members hMembers => ?_
    refine isShown_obj_iff.mpr fun field hField => ?_
    rcases Dict.mem_of_mem_setAll hField with hNone | hMem
    · cases hNone
    · exact hMembers field hMem

end

theorem scans_with {element : Option (Text → Result (Json × Text))}
    (h : ∀ scan ∈ element, ∀ t, Scans IsShown (scan t)) (t : Text) :
    Scans IsShown (scanWith element t) := by
  unfold scanWith
  split
  · exact yields_decodeError _
  · refine .ite (fun _ => ?_) fun _ => .ite (fun _ => ?_) fun _ => .ite (fun _ => ?_) fun _ => ?_
    · exact (scans_body _ _).map fun _ _ => forall_mem_singleton.mpr trivial
    · cases element with
      | none => exact .inr rfl
      | some scan => exact scans_object (h scan rfl) _
    · cases element with
      | none => exact .inr rfl
      | some scan => exact scans_array (h scan rfl) _
    · exact scans_scalar _

end Containers

theorem scans_value (depth : ℕ) (t : Text) : Scans IsShown (scanValue depth t) := by
  induction depth generalizing t with
  | zero => exact scans_with (fun scan hScan => by cases hScan) t
  | succ depth ih => exact scans_with (fun scan hScan t => by cases hScan; exact ih t) t

theorem yields_loads (depth : ℕ) (t : Text) : Yields IsShown IsScanError (loads depth t) := by
  unfold loads
  refine .ite (fun _ => yields_decodeError _) fun _ => ?_
  refine (scans_value depth _).bind fun value hValue => ?_
  exact .ite (fun _ => hValue) fun _ => yields_decodeError _

end Json

end Python
