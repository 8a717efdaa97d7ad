import Ici.Library.JsonRoundTrip

/-! # Truncated JSON texts

A document that is a container ends with the bracket that closes it, so no part of its text before
the end is a document: a reader refuses every truncation as malformed. -/

namespace Python

open Option List Raising

structure IsCut (p t : Text) : Prop where
  isPrefix : p <+: t
  ne : p ≠ t

theorem isCut_nil {t : Text} (h : t ≠ []) : IsCut [] t := ⟨List.nil_prefix, h.symm⟩

theorem not_isCut_nil {p : Text} : ¬IsCut p [] := fun h => h.ne (prefix_nil.mp h.isPrefix)

theorem IsCut.subset {p t : Text} (h : IsCut p t) : ∀ c ∈ p, c ∈ t := fun _ hc =>
  h.isPrefix.subset hc

theorem prefix_append_cases {p a b : Text} (h : p <+: a ++ b) : IsCut p a ∨ ∃ q, p = a ++ q ∧ q <+: b := by
  rcases prefix_or_prefix_of_prefix h (prefix_append a b) with hShort | ⟨q, rfl⟩
  · rcases eq_or_ne p a with rfl | hNe
    · exact .inr ⟨[], (append_nil p).symm, nil_prefix⟩
    · exact .inl ⟨hShort, hNe⟩
  · exact .inr ⟨q, rfl, (prefix_append_right_inj a).mp h⟩

theorem IsCut.append_cases {p a b : Text} (h : IsCut p (a ++ b)) :
    IsCut p a ∨ ∃ q, p = a ++ q ∧ IsCut q b := by
  rcases prefix_append_cases h.isPrefix with hCut | ⟨q, rfl, hq⟩
  · exact .inl hCut
  · exact .inr ⟨q, rfl, hq, fun hEq => h.ne (hEq ▸ rfl)⟩

theorem IsCut.cons_cases {p t : Text} {c : CodePoint} (h : IsCut p (c :: t)) :
    p = [] ∨ ∃ q, p = c :: q ∧ IsCut q t := by
  rcases IsCut.append_cases (a := [c]) (b := t) h with hHead | ⟨q, rfl, hq⟩
  · rcases prefix_cons_iff.mp hHead.isPrefix with rfl | ⟨q, rfl, hq⟩
    · exact .inl rfl
    · exact absurd (by rw [prefix_nil.mp hq]) hHead.ne
  · exact .inr ⟨q, rfl, hq⟩

theorem decodeFrom_eq_nil {bytes : List UInt8} : ∀ {s : Utf8State}, decodeFrom s bytes = .ok [] → bytes = [] := by
  induction bytes with
  | nil => exact fun _ => rfl
  | cons b rest ih =>
    intro s h
    rw [decodeFrom] at h
    split at h
    · cases h
    · split at h
      · obtain ⟨_, -, hNil⟩ := map_eq_ok.mp h
        cases hNil
      · rename_i hOwed
        obtain rfl := ih h
        rw [decodeFrom, if_neg hOwed] at h
        cases h

theorem decodeFrom_append {part rest : List UInt8} : ∀ {s : Utf8State} {t q : Text},
    decodeFrom s (part ++ rest) = .ok t → decodeFrom s part = .ok q →
      ∃ s' u, decodeFrom s' rest = .ok u ∧ t = q ++ u := by
  induction part with
  | nil =>
    intro s t q h hPart
    rw [decodeFrom] at hPart
    split at hPart
    · cases hPart
      exact ⟨s, t, h, rfl⟩
    · cases hPart
  | cons b part ih =>
    intro s t q h hPart
    rw [cons_append, decodeFrom] at h
    rw [decodeFrom] at hPart
    split at h
    · cases h
    · rename_i hNext
      rw [hNext] at hPart
      dsimp only at hPart
      split at h
      · rename_i hOwed
        rw [if_pos hOwed] at hPart
        obtain ⟨t', hRest, rfl⟩ := map_eq_ok.mp h
        obtain ⟨q', hShort, rfl⟩ := map_eq_ok.mp hPart
        obtain ⟨s', u, hLast, rfl⟩ := ih hRest hShort
        exact ⟨s', u, hLast, rfl⟩
      · rename_i hOwed
        rw [if_neg hOwed] at hPart
        exact ih h hPart

theorem isCut_of_decodeUtf8 {t q : Text} {bytes part : List UInt8} (h : utf8 t = .ok bytes)
    (hPart : part <+: bytes) (hNe : part ≠ bytes) (hShort : decodeUtf8 part = .ok q) : IsCut q t := by
  obtain ⟨rest, rfl⟩ := hPart
  obtain ⟨s, u, hRest, rfl⟩ := decodeFrom_append (decodeUtf8_encoded h) hShort
  refine ⟨prefix_append q u, fun hEq => hNe ?_⟩
  rw [self_eq_append_right.mp hEq] at hRest
  rw [decodeFrom_eq_nil hRest, append_nil]

namespace Json

/-- A reader's complaint about a text, which `except ValueError` catches. -/
def IsMalformed (e : PyError) : Prop := e.name = py "JSONDecodeError" ∨ e.name = py "ValueError"

theorem isMalformed_decodeError (text : Text) : IsMalformed (decodeError text) := .inl rfl

def Refuses {α : Type} (r : Result α) : Prop := ∃ e, r = .error e ∧ IsMalformed e

theorem refuses_decodeError {α : Type} (text : Text) :
    Refuses (.error (decodeError text) : Result α) := ⟨_, rfl, isMalformed_decodeError text⟩

theorem Refuses.map {α β : Type} {r : Result α} (h : Refuses r) (f : α → β) : Refuses (r.map f) := by
  obtain ⟨e, rfl, he⟩ := h
  exact ⟨e, rfl, he⟩

theorem Refuses.bind {α β : Type} {r : Result α} (h : Refuses r) (f : α → Result β) : Refuses (r >>= f) := by
  obtain ⟨e, rfl, he⟩ := h
  exact ⟨e, rfl, he⟩

def isNumeralChar (c : CodePoint) : Bool :=
  isDigit c || c == 0x2e || c == 0x65 || c == 0x45 || c == 0x2b || c == 0x2d

def IsNumeralText (t : Text) : Prop := ∀ c ∈ t, isNumeralChar c = true

instance (t : Text) : Decidable (IsNumeralText t) :=
  List.decidableBAll _ t

def Stuck {α : Type} (r : Result (α × Text)) : Prop :=
  Refuses r ∨ ∃ value rest, r = .ok (value, rest) ∧ ∀ c ∈ rest.head?, isNumeralChar c = true

def BreaksOff {α : Type} (scan : Text → Result (α × Text)) (part : Text) : Prop :=
  ∀ p, IsCut p part → Stuck (scan p)

/-! ## Strings -/

variable {t rest p : Text} {c : CodePoint}

theorem suffix_scanUnit {n : ℕ} (h : scanUnit t = some (n, rest)) : rest <:+ t := by
  match t with
  | [] | [_] | [_, _] | [_, _, _] => cases h
  | a :: b :: c :: d :: more =>
    rw [scanUnit] at h
    obtain ⟨_, -, h⟩ := bind_eq_some_iff.mp h
    obtain ⟨_, -, h⟩ := bind_eq_some_iff.mp h
    obtain ⟨_, -, h⟩ := bind_eq_some_iff.mp h
    obtain ⟨_, -, h⟩ := bind_eq_some_iff.mp h
    obtain ⟨-, rfl⟩ := Prod.mk.inj (some.inj h)
    exact ⟨[a, b, c, d], rfl⟩

theorem suffix_scanUnicode (h : scanUnicode t = some (c, rest)) : rest <:+ t := by
  unfold scanUnicode at h
  obtain ⟨⟨high, more⟩, hHigh, h⟩ := bind_eq_some_iff.mp h
  have hSuffix := suffix_scanUnit hHigh
  dsimp only at h
  split at h
  · split at h
    · rename_i back mark later
      split at h
      · obtain ⟨⟨low, tail⟩, hLow, h⟩ := bind_eq_some_iff.mp h
        dsimp only at h
        split at h
        · obtain ⟨-, rfl⟩ := Prod.mk.inj (some.inj h)
          exact ((suffix_scanUnit hLow).trans ⟨[back, mark], rfl⟩).trans hSuffix
        · obtain ⟨-, rfl⟩ := Prod.mk.inj (some.inj h)
          exact hSuffix
      · obtain ⟨-, rfl⟩ := Prod.mk.inj (some.inj h)
        exact hSuffix
    · obtain ⟨-, rfl⟩ := Prod.mk.inj (some.inj h)
      exact hSuffix
  · obtain ⟨-, rfl⟩ := Prod.mk.inj (some.inj h)
    exact hSuffix

theorem suffix_scanEscape (h : scanEscape t = .ok (c, rest)) : rest <:+ t := by
  cases t with
  | nil => cases h
  | cons letter more =>
    rw [scanEscape] at h
    split at h
    · split at h
      · rename_i hUnicode
        cases h
        exact (suffix_scanUnicode hUnicode).trans (suffix_cons _ _)
      · cases h
    · split at h
      · cases h
        exact suffix_cons _ _
      · cases h

theorem scanEscape_error {e : PyError} (h : scanEscape t = .error e) : IsMalformed e := by
  cases t with
  | nil =>
    cases h
    exact isMalformed_decodeError _
  | cons letter more =>
    rw [scanEscape] at h
    split at h <;> split at h <;> cases h <;> exact isMalformed_decodeError _

theorem refuses_scanBody (fuel : ℕ) {t : Text} (h : (0x22 : CodePoint) ∉ t) : Refuses (scanBody fuel t) := by
  induction fuel generalizing t with
  | zero => exact refuses_decodeError _
  | succ fuel ih =>
    cases t with
    | nil => exact refuses_decodeError _
    | cons c rest =>
      have hQuote : c ≠ 0x22 := fun hEq => h (by rw [hEq]; exact mem_cons_self)
      have hRest : (0x22 : CodePoint) ∉ rest := fun hMem => h (mem_cons_of_mem _ hMem)
      rw [scanBody, if_neg hQuote]
      split
      · cases hEscape : scanEscape rest with
        | error e => exact ⟨e, rfl, scanEscape_error hEscape⟩
        | ok found => exact (ih fun hMem => hRest ((suffix_scanEscape hEscape).subset hMem)).bind _
      · split
        · exact refuses_decodeError _
        · exact (ih hRest).bind _

theorem quote_notMem_hex (width n : ℕ) : (0x22 : CodePoint) ∉ hex width n := by
  induction width generalizing n with
  | zero => exact not_mem_nil
  | succ width ih =>
    have hDigit : ∀ k, k < 16 → hexDigit k ≠ 0x22 := by decide
    have hSame : hexDigit n = hexDigit (n % 16) := by simp [hexDigit]
    rw [hex, mem_append, mem_singleton]
    rintro (hMem | hEq)
    · exact ih _ hMem
    · exact hDigit (n % 16) (Nat.mod_lt _ (by omega)) (by rw [← hSame, ← hEq])

theorem quote_notMem_cut {ascii : Bool} (h : IsCut p (escapeChar ascii c)) : (0x22 : CodePoint) ∉ p := by
  have hMark : py "\\u" = [0x5c, 0x75] := by decide
  unfold escapeChar at h
  rw [hMark] at h
  split_ifs at h with hPlain
  · rcases h.cons_cases with rfl | ⟨q, rfl, hq⟩
    · exact not_mem_nil
    · rcases hq.cons_cases with rfl | ⟨_, -, hNil⟩
      · decide
      · exact absurd hNil not_isCut_nil
  all_goals
    intro hMem
    have hIn := h.subset _ hMem
    first
    | exact absurd hIn (by decide)
    | exact hPlain (.inl (mem_singleton.mp hIn).symm)
    | simp [quote_notMem_hex] at hIn

theorem refuses_scanBody_cut {ascii : Bool} (h : ∀ c ∈ t, ReadsBack ascii c) (fuel : ℕ)
    {p : Text} (hp : IsCut p (t.flatMap (escapeChar ascii) ++ [0x22])) : Refuses (scanBody fuel p) := by
  induction t generalizing fuel p with
  | nil =>
    rcases hp.cons_cases with rfl | ⟨q, rfl, hq⟩
    · exact refuses_scanBody fuel not_mem_nil
    · exact absurd hq not_isCut_nil
  | cons c t ih =>
    rw [flatMap_cons, append_assoc] at hp
    rcases hp.append_cases with hHead | ⟨q, rfl, hq⟩
    · exact refuses_scanBody fuel (quote_notMem_cut hHead)
    · cases fuel with
      | zero => exact refuses_decodeError _
      | succ fuel =>
        rw [scanBody_escapeChar ascii fuel q (h c mem_cons_self)]
        exact (ih (fun d hd => h d (mem_cons_of_mem _ hd)) fuel hq).map _

/-! ## Numerals -/

theorem suffix_scanMinus (t : Text) : (scanMinus t).2 <:+ t := by
  cases t with
  | nil => exact suffix_refl _
  | cons c t =>
    rw [scanMinus]
    split
    · exact suffix_cons _ _
    · exact suffix_refl _

theorem suffix_scanWhole {whole : Text} (h : scanWhole t = some (whole, rest)) : rest <:+ t := by
  cases t with
  | nil => cases h
  | cons c t =>
    rw [scanWhole] at h
    split at h
    · cases h
      exact suffix_cons _ _
    · split at h
      · cases h
        exact (dropWhile_suffix _).trans (suffix_cons _ _)
      · cases h

theorem suffix_scanFraction (t : Text) : (scanFraction t).2 <:+ t := by
  cases t with
  | nil => exact suffix_refl _
  | cons c t =>
    rw [scanFraction]
    split
    · exact (dropWhile_suffix _).trans (suffix_cons _ _)
    · exact suffix_refl _

theorem suffix_scanSign (t : Text) : (scanSign t).2 <:+ t := by
  cases t with
  | nil => exact suffix_refl _
  | cons c t =>
    rw [scanSign]
    split_ifs
    · exact suffix_cons _ _
    · exact suffix_cons _ _
    · exact suffix_refl _

theorem suffix_scanExponent (t : Text) : (scanExponent t).2 <:+ t := by
  cases t with
  | nil => exact suffix_refl _
  | cons c t =>
    dsimp only [scanExponent]
    split
    · exact ((dropWhile_suffix _).trans (suffix_scanSign t)).trans (suffix_cons _ _)
    · exact suffix_refl _

theorem suffix_scanNumeral {n : Numeral} (h : scanNumeral t = some (n, rest)) : rest <:+ t := by
  unfold scanNumeral at h
  obtain ⟨⟨whole, tail⟩, hWhole, hEq⟩ := map_eq_some_iff.mp h
  cases hEq
  exact ((suffix_scanExponent _).trans (suffix_scanFraction tail)).trans
    ((suffix_scanWhole hWhole).trans (suffix_scanMinus t))

theorem numeralValue_error {n : Numeral} {e : PyError} (h : numeralValue n = .error e) : IsMalformed e := by
  unfold numeralValue at h
  split at h
  · rw [map_eq_error] at h
    unfold Numeral.toInt at h
    split at h
    · cases h
    · cases h
      exact .inr rfl
  · cases h

theorem scanConstant_of_numeral (h : IsNumeralText p) : scanConstant p = none := by
  have hLetters : ∀ constant ∈ constants, ∃ d ∈ constant.1, isNumeralChar d = false := by
    unfold constants
    simp only [forall_mem_cons, not_mem_nil, false_imp_iff, implies_true, and_true]
    exact ⟨⟨0x6e, by decide, by decide⟩, ⟨0x74, by decide, by decide⟩, ⟨0x66, by decide, by decide⟩,
      ⟨0x4e, by decide, by decide⟩, ⟨0x49, by decide, by decide⟩, ⟨0x49, by decide, by decide⟩⟩
  refine findSome?_eq_none_iff.mpr fun constant hMem => if_neg fun hPrefix => ?_
  obtain ⟨d, hd, hLetter⟩ := hLetters constant hMem
  rw [h d ((List.isPrefixOf_iff_prefix.mp hPrefix).subset hd)] at hLetter
  cases hLetter

theorem stuck_scanWith_numeral (h : IsNumeralText p)
    (element : Option (Text → Result (Json × Text))) : Stuck (scanWith element p) := by
  cases p with
  | nil => exact .inl (refuses_decodeError _)
  | cons c u =>
    have hc := h c mem_cons_self
    have hPlain : c ≠ 0x22 ∧ c ≠ 0x7b ∧ c ≠ 0x5b := by
      refine ⟨?_, ?_, ?_⟩ <;>
      · rintro rfl
        revert hc
        decide
    rw [scanWith_scalar rfl hPlain, scanScalar, scanConstant_of_numeral h]
    cases hScan : scanNumeral (c :: u) with
    | none => exact .inl (refuses_decodeError _)
    | some found =>
      obtain ⟨n, rest⟩ := found
      dsimp only
      cases hValue : numeralValue n with
      | error e => exact .inl ⟨e, rfl, numeralValue_error hValue⟩
      | ok value =>
        refine .inr ⟨value, rest, rfl, fun d hd => h d ?_⟩
        exact (suffix_scanNumeral hScan).subset (mem_of_mem_head? hd)

theorem IsNumeralText.append {s : Text} (hs : IsNumeralText s) (ht : IsNumeralText t) :
    IsNumeralText (s ++ t) := forall_mem_append.mpr ⟨hs, ht⟩

theorem IsNumeralText.subset {s : Text} (ht : IsNumeralText t) (h : s ⊆ t) : IsNumeralText s :=
  fun c hc => ht c (h hc)

theorem isNumeralText_of_digits (h : ∀ c ∈ t, isDigit c = true) : IsNumeralText t := by
  intro c hc
  simp [isNumeralChar, h c hc]

theorem isNumeralText_natDigits (n : ℕ) : IsNumeralText (natDigits n) :=
  isNumeralText_of_digits (digits_natDigits n)

theorem isNumeralText_layout {digits : Text} (h : IsNumeralText digits) (point : ℤ) :
    IsNumeralText (PyFloat.layout digits point) := by
  have hTake (k : ℕ) : IsNumeralText (digits.take k) := h.subset (take_subset k digits)
  have hDrop (k : ℕ) : IsNumeralText (digits.drop k) := h.subset (drop_subset k digits)
  have hZeros (k : ℕ) : IsNumeralText (List.replicate k 0x30) := by
    intro c hc
    rw [eq_of_mem_replicate hc]
    rfl
  unfold PyFloat.layout
  split
  · refine (((IsNumeralText.append (hTake 1) ?_).append ?_).append ?_).append
      (isNumeralText_natDigits _)
    · split
      · decide
      · exact IsNumeralText.append (by decide) (hDrop 1)
    · split <;> decide
    · split <;> decide
  split
  · exact (IsNumeralText.append (by decide) (hZeros _)).append h
  split
  · exact (h.append (hZeros _)).append (by decide)
  · exact ((hTake _).append (by decide)).append (hDrop _)

theorem isNumeralText_pyRepr {x : PyFloat} (hFinite : x.isFinite = true) : IsNumeralText x.pyRepr := by
  cases x with
  | nan | inf negative => cases hFinite
  | fin q =>
    rw [PyFloat.pyRepr]
    split
    · decide
    · refine IsNumeralText.append ?_ (isNumeralText_layout ?_ _)
      · split <;> decide
      · exact (isNumeralText_natDigits _).subset (List.rdropWhile_prefix _ _).subset

theorem isNumeralText_strInt {n : ℤ} (h : strInt n = .ok t) : IsNumeralText t := by
  unfold strInt at h
  split at h
  · cases h
    refine IsNumeralText.append ?_ (isNumeralText_natDigits _)
    split <;> decide
  · cases h

section Sequences

variable {style : Style} {α : Type} {scan : Text → Result (α × Text)} {close : CodePoint}

theorem isNumeralChar_ne {c d : CodePoint} (h : isNumeralChar c = true)
    (hd : isNumeralChar d = false) : c ≠ d := by
  rintro rfl
  rw [h] at hd
  cases hd

theorem skip_of_numeral {rest : Text} (h : ∀ c ∈ rest.head?, isNumeralChar c = true) : skip rest = rest := by
  cases rest with
  | nil => rfl
  | cons c rest =>
    have hc := h c rfl
    refine skip_of_visible (isVisible_cons rest ?_)
    simp only [isWhitespace, Bool.or_eq_false_iff, beq_eq_false_iff_ne]
    refine ⟨⟨⟨?_, ?_⟩, ?_⟩, ?_⟩ <;> exact isNumeralChar_ne hc (by decide)

theorem refuses_scanSequence (hClose : close = 0x5d ∨ close = 0x7d) {p : Text} (h : Stuck (scan p))
    (fuel : ℕ) : Refuses (scanSequence close scan fuel p) := by
  cases fuel with
  | zero => exact refuses_decodeError _
  | succ fuel =>
    rw [scanSequence]
    rcases h with hRefuses | ⟨value, rest, hScan, hRest⟩
    · exact hRefuses.bind _
    · rw [hScan]
      dsimp only [bind, Except.bind]
      rw [skip_of_numeral hRest]
      cases rest with
      | nil => exact refuses_decodeError _
      | cons c rest =>
        have hc := hRest c rfl
        have hNe : c ≠ close := by
          rcases hClose with rfl | rfl <;> exact isNumeralChar_ne hc (by decide)
        dsimp only
        rw [if_neg hNe, if_neg (isNumeralChar_ne hc (by decide))]
        exact refuses_decodeError _

theorem refuses_scanSequence_nil {p : Text} {value : α} (hScan : scan p = .ok (value, []))
    (fuel : ℕ) : Refuses (scanSequence close scan fuel p) := by
  cases fuel with
  | zero => exact refuses_decodeError _
  | succ fuel =>
    rw [scanSequence, hScan]
    exact refuses_decodeError _

theorem isCut_skip {spaces t p : Text} (hSpaces : ∀ c ∈ spaces, isWhitespace c = true)
    (ht : IsVisible t) (hp : IsCut p (spaces ++ t)) : IsCut (skip p) t := by
  obtain ⟨c, u, rfl, hc⟩ := ht
  rcases hp.append_cases with hCut | ⟨q, rfl, hq⟩
  · have hSkip : skip p = [] := dropWhile_eq_nil_iff.mpr fun d hd => hSpaces d (hCut.subset d hd)
    rw [hSkip]
    exact isCut_nil (cons_ne_nil c u)
  · rw [skip_append hSpaces]
    rcases hq.cons_cases with rfl | ⟨q, rfl, -⟩
    · exact hq
    · rwa [skip_of_visible (isVisible_cons q hc)]

theorem refuses_scanSequence_cut (hStyle : style.IsLegible) (hClose : close = 0x5d ∨ close = 0x7d)
    {parts : List Text} {values : List α} (h : List.Forall₂ (ReadsAs scan) parts values)
    (hParts : ∀ part ∈ parts, BreaksOff scan part) (hNe : parts ≠ []) (fuel : ℕ) {p : Text}
    (hp : IsCut p (join style.itemSeparator parts ++ [close])) :
    Refuses (scanSequence close scan fuel p) := by
  obtain ⟨spaces, hSeparator, hSpaces⟩ := hStyle.item
  have hComma : close ≠ 0x2c := by rcases hClose with rfl | rfl <;> decide
  induction h generalizing fuel p with
  | nil => exact absurd rfl hNe
  | @cons part value later values hPart hLater ih =>
    have hBreaks := hParts part mem_cons_self
    have hWhole : scan part = .ok (value, []) := by
      have hRead := hPart.reads [] (by simp [StopsNumeral])
      rwa [append_nil] at hRead
    cases later with
    | nil =>
      rw [join_singleton] at hp
      rcases hp.append_cases with hCut | ⟨q, rfl, hq⟩
      · exact refuses_scanSequence hClose (hBreaks p hCut) fuel
      · rcases hq.cons_cases with rfl | ⟨_, -, hNil⟩
        · rw [append_nil]
          exact refuses_scanSequence_nil hWhole fuel
        · exact absurd hNil not_isCut_nil
    | cons next later =>
      rw [join_cons, append_assoc, append_assoc] at hp
      rcases hp.append_cases with hCut | ⟨q, rfl, hq⟩
      · exact refuses_scanSequence hClose (hBreaks p hCut) fuel
      · have hSplit : style.itemSeparator ++ (join style.itemSeparator (next :: later) ++ [close]) =
            0x2c :: (spaces ++ (join style.itemSeparator (next :: later) ++ [close])) := by
          rw [hSeparator, cons_append]
        rw [hSplit] at hq
        rcases hq.cons_cases with rfl | ⟨q, rfl, hAfter⟩
        · rw [append_nil]
          exact refuses_scanSequence_nil hWhole fuel
        · cases fuel with
          | zero => exact refuses_decodeError _
          | succ fuel =>
            have hRead := hPart.reads (0x2c :: q) (stopsNumeral_of_mark (.inl rfl))
            have hVisible := join_visible style.itemSeparator (cons_ne_nil next later)
              (forall₂_visible hLater) [close]
            rw [scanSequence_more hComma fuel hRead (skip_of_visible (isVisible_cons q (by decide)))]
            exact (ih (fun part hMem => hParts part (mem_cons_of_mem _ hMem))
              (cons_ne_nil _ _) fuel (isCut_skip hSpaces hVisible hAfter)).map _

end Sequences

/-! ## Values -/

section Values

variable {style : Style} {element : Text → Result (Json × Text)}

theorem refuses_scanString_cut {t : Text} (h : ∀ c ∈ t, ReadsBack style.ensureAscii c) {p : Text}
    (hp : IsCut (0x22 :: p) (encodeStr style t)) : Refuses (scanString p) := by
  rw [encodeStr, append_assoc] at hp
  rcases IsCut.cons_cases hp with hNil | ⟨q, hEq, hq⟩
  · cases hNil
  · cases hEq
    exact refuses_scanBody_cut h _ hq

theorem breaksOff_member (hStyle : style.IsLegible) {key part : Text}
    (hKey : ∀ c ∈ key, ReadsBack style.ensureAscii c) (hVisible : IsVisible part)
    (h : BreaksOff element part) :
    BreaksOff (scanMember element) (encodeStr style key ++ style.keySeparator ++ part) := by
  obtain ⟨spaces, hSeparator, hSpaces⟩ := hStyle.key
  intro p hp
  rw [append_assoc] at hp
  rcases hp.append_cases with hCut | ⟨q, rfl, hq⟩
  · cases p with
    | nil => exact .inl (refuses_decodeError _)
    | cons quote body =>
      obtain rfl : quote = 0x22 := by
        obtain ⟨rest, hRest⟩ := hCut.isPrefix
        exact (cons.inj hRest).1
      refine .inl ?_
      rw [scanMember, if_pos rfl]
      exact (refuses_scanString_cut hKey hCut).bind _
  · obtain ⟨body, hBody, hString⟩ := scanString_encode style hKey q
    rw [hBody, scanMember, if_pos rfl, hString]
    dsimp only [bind, Except.bind]
    rw [hSeparator, cons_append] at hq
    rcases hq.cons_cases with rfl | ⟨q, rfl, hAfter⟩
    · exact .inl (refuses_decodeError _)
    · rw [skip_of_visible (isVisible_cons q (by decide))]
      dsimp only
      rw [if_pos rfl]
      rcases h _ (isCut_skip hSpaces hVisible hAfter) with hRefuses | ⟨value, rest, hScan, hRest⟩
      · exact .inl (hRefuses.bind _)
      · rw [hScan]
        exact .inr ⟨_, rest, rfl, hRest⟩

theorem head_of_cut {t p : Text} {c : CodePoint} (hp : IsCut p t) (hHead : t.head? = some c) :
    p = [] ∨ p.head? = some c := by
  cases p with
  | nil => exact .inl rfl
  | cons d p =>
    obtain ⟨rest, rfl⟩ := hp.isPrefix
    exact .inr hHead

section

variable (hStyle : style.IsLegible)
include hStyle

theorem refuses_scanArray_cut {parts : List Text} {values : List Json}
    (h : List.Forall₂ (ReadsAs element) parts values) (hParts : ∀ part ∈ parts, BreaksOff element part)
    (hHeads : ∀ part ∈ parts, ∃ c u, part = c :: u ∧ IsHead c) {p : Text}
    (hp : IsCut p (join style.itemSeparator parts ++ [0x5d])) : Refuses (scanArray element p) := by
  cases parts with
  | nil =>
    rcases IsCut.cons_cases hp with rfl | ⟨_, -, hNil⟩
    · exact refuses_decodeError _
    · exact absurd hNil not_isCut_nil
  | cons part later =>
    obtain ⟨c, u, hPart, hHead⟩ := hHeads part mem_cons_self
    have hStart : part.head? = some c := by rw [hPart, head?_cons]
    have hFirst := head?_join style.itemSeparator hStart later [0x5d]
    rcases head_of_cut hp hFirst with rfl | hCut
    · exact refuses_decodeError _
    · obtain ⟨q, rfl⟩ := head?_eq_some_iff.mp hCut
      have hRefuses := refuses_scanSequence_cut hStyle (.inl rfl) h hParts (cons_ne_nil _ _)
        ((c :: q).length + 1) hp
      rw [scanArray, skip_of_visible (isVisible_cons q hHead.visible)]
      dsimp only
      rw [if_neg hHead.item]
      exact hRefuses.map _

theorem refuses_scanObject_cut {parts : List Text}
    {fields : List (Text × Json)} (h : List.Forall₂ (ReadsAs (scanMember element)) parts fields)
    (hParts : ∀ part ∈ parts, BreaksOff (scanMember element) part)
    (hQuotes : ∀ part ∈ parts, ∃ u, part = 0x22 :: u) {p : Text}
    (hp : IsCut p (join style.itemSeparator parts ++ [0x7d])) : Refuses (scanObject element p) := by
  cases parts with
  | nil =>
    rcases IsCut.cons_cases hp with rfl | ⟨_, -, hNil⟩
    · exact refuses_decodeError _
    · exact absurd hNil not_isCut_nil
  | cons part later =>
    obtain ⟨u, hPart⟩ := hQuotes part mem_cons_self
    have hStart : part.head? = some 0x22 := by rw [hPart, head?_cons]
    have hFirst := head?_join style.itemSeparator hStart later [0x7d]
    rcases head_of_cut hp hFirst with rfl | hCut
    · exact refuses_decodeError _
    · obtain ⟨q, rfl⟩ := head?_eq_some_iff.mp hCut
      have hRefuses := refuses_scanSequence_cut hStyle (.inr rfl) h hParts (cons_ne_nil _ _)
        ((0x22 :: q).length + 1) hp
      have hQuote : (0x22 : CodePoint) ≠ 0x7d := by decide
      rw [scanObject, skip_of_visible (isVisible_cons q (by decide))]
      dsimp only
      rw [if_neg hQuote]
      exact hRefuses.map _

omit hStyle in
theorem breaksOff_word {word : Text} {c : CodePoint} {u : Text} (hWord : word = c :: u)
    (hPlain : c ≠ 0x22 ∧ c ≠ 0x7b ∧ c ≠ 0x5b)
    (h : ∀ p ∈ word.inits, p ≠ word → (scanConstant p).isNone ∧ (scanNumeral p).isNone)
    (element : Option (Text → Result (Json × Text))) : BreaksOff (scanWith element) word := by
  intro p hp
  cases p with
  | nil => exact .inl (refuses_decodeError _)
  | cons d q =>
    obtain ⟨rest, hRest⟩ := hp.isPrefix
    obtain rfl : d = c := (cons.inj (hRest.trans hWord)).1
    obtain ⟨hConstant, hNumeral⟩ := h _ ((mem_inits _ _).mpr hp.isPrefix) hp.ne
    rw [scanWith_scalar rfl hPlain, scanScalar, isNone_iff_eq_none.mp hConstant,
      isNone_iff_eq_none.mp hNumeral]
    exact .inl (refuses_decodeError _)

theorem refuses_scanValue_arr {items : List Json} {d : ℕ} {t : Text}
    (hDepth : (arr items).depth ≤ d) (hReadable : IsReadable style.ensureAscii (arr items))
    (h : encode style (arr items) = .ok t)
    (hItems : ∀ item ∈ items, ∀ (k : ℕ) (part : Text), item.depth ≤ k →
      encode style item = .ok part → BreaksOff (scanValue k) part) {p : Text} (hp : IsCut p t) :
    Refuses (scanValue d p) := by
  rw [encode, encodeItems_eq_mapM, map_eq_ok] at h
  obtain ⟨parts, hParts, rfl⟩ := h
  obtain ⟨d, rfl, hDepths⟩ := items_depth_le hDepth
  rw [IsReadable, itemsReadable_iff] at hReadable
  have hReads := readsAs_items hParts fun item hMem part hPart =>
    readsAs_encode hStyle item d part (hDepths item hMem) (hReadable item hMem) hPart
  have hBreaks : ∀ part ∈ parts, BreaksOff (scanValue d) part := by
    intro part hPart
    obtain ⟨item, hMem, hEncode⟩ := exists_of_mem_mapM hParts hPart
    exact hItems item hMem d part (hDepths item hMem) hEncode
  rw [append_assoc] at hp
  rcases IsCut.cons_cases hp with rfl | ⟨q, rfl, hq⟩
  · exact refuses_decodeError _
  · exact refuses_scanArray_cut hStyle hReads hBreaks
      (head_of_items hReadable hParts fun _ _ => encode_head) hq

theorem refuses_scanValue_obj {fields : List (Text × Json)} {d : ℕ}
    {t : Text} (hDepth : (obj fields).depth ≤ d)
    (hReadable : IsReadable style.ensureAscii (obj fields)) (h : encode style (obj fields) = .ok t)
    (hFields : ∀ field ∈ fields, ∀ (k : ℕ) (part : Text), field.2.depth ≤ k →
      encode style field.2 = .ok part → BreaksOff (scanValue k) part) {p : Text} (hp : IsCut p t) :
    Refuses (scanValue d p) := by
  obtain ⟨parts, rfl, hParts⟩ := encode_obj_eq_ok.mp h
  obtain ⟨d, rfl, hDepths⟩ := fields_depth_le hDepth
  have hAll := fieldsReadable_iff.mp hReadable.2
  have hValues : ∀ field ∈ fields, ∀ text, encode style field.2 = .ok text →
      ReadsAs (scanValue d) text field.2.canon := fun field hIn text =>
    readsAs_encode hStyle field.2 d text (hDepths field hIn) (hAll field hIn).2
  have hBreaks : ∀ part ∈ parts, BreaksOff (scanMember (scanValue d)) part := by
    intro part hPart
    obtain ⟨field, hField, text, hText, rfl⟩ := exists_of_forall₂_mem hParts hPart
    have hIn : field ∈ fields := (mem_insertionSort _).mp hField
    exact breaksOff_member hStyle (hAll field hIn).1 (hValues field hIn text hText).visible
      (hFields field hIn d text (hDepths field hIn) hText)
  rw [append_assoc] at hp
  rcases IsCut.cons_cases hp with rfl | ⟨q, rfl, hq⟩
  · exact refuses_decodeError _
  · exact refuses_scanObject_cut hStyle (readsAs_members hStyle hParts hReadable hValues).1 hBreaks
      (quoted_of_members hParts) hq

theorem breaksOff_encode (j : Json) : ∀ (d : ℕ) (t : Text),
    j.depth ≤ d → IsReadable style.ensureAscii j → encode style j = .ok t →
      BreaksOff (scanValue d) t := by
  induction j using induction with
  | hScalar j hScalar =>
    intro d t _ hReadable h
    obtain ⟨element, hScan⟩ := scanValue_eq_scanWith d
    rw [hScan]
    cases j with
    | null =>
      cases h
      exact breaksOff_word (u := py "ull") rfl (by decide) (by decide) element
    | bool value =>
      cases h
      cases value
      · exact breaksOff_word (u := py "alse") rfl (by decide) (by decide) element
      · exact breaksOff_word (u := py "rue") rfl (by decide) (by decide) element
    | int value => exact fun p hp =>
      stuck_scanWith_numeral ((isNumeralText_strInt h).subset hp.isPrefix.subset) element
    | float value =>
      have hFinite : value.val.isFinite = true := hReadable
      rw [encode, encodeFloat, if_pos hFinite] at h
      cases h
      exact fun p hp => stuck_scanWith_numeral ((isNumeralText_pyRepr hFinite).subset hp.isPrefix.subset) element
    | str value =>
      cases h
      intro p hp
      cases p with
      | nil => exact .inl (refuses_decodeError _)
      | cons quote body =>
        obtain rfl : quote = 0x22 := by
          obtain ⟨rest, hRest⟩ := hp.isPrefix
          exact (cons.inj hRest).1
        exact .inl ((refuses_scanString_cut hReadable hp).map _)
    | arr items | obj fields => exact hScalar.elim
  | hArr items ih =>
    intro d t hDepth hReadable h p hp
    refine .inl (refuses_scanValue_arr hStyle hDepth hReadable h ?_ hp)
    intro item hMem k part hItem hPart
    rw [IsReadable, itemsReadable_iff] at hReadable
    exact ih item hMem k part hItem (hReadable item hMem) hPart
  | hObj fields ih =>
    intro d t hDepth hReadable h p hp
    refine .inl (refuses_scanValue_obj hStyle hDepth hReadable h ?_ hp)
    intro field hMem k part hField hPart
    rw [IsReadable, fieldsReadable_iff] at hReadable
    exact ih field hMem k part hField (hReadable.2 field hMem).2 hPart

theorem refuses_loads_cut {fields : List (Text × Json)} {t : Text} {d : ℕ}
    (hDepth : (obj fields).depth ≤ d) (hReadable : IsReadable style.ensureAscii (obj fields))
    (h : encode style (obj fields) = .ok t) {p : Text} (hp : IsCut p t) : Refuses (loads d p) := by
  have hRefuses : Refuses (scanValue d p) := by
    refine refuses_scanValue_obj hStyle hDepth hReadable h ?_ hp
    intro field hMem k part hField hPart
    rw [IsReadable, fieldsReadable_iff] at hReadable
    exact breaksOff_encode hStyle field.2 k part hField (hReadable.2 field hMem).2 hPart
  obtain ⟨parts, rfl, -⟩ := encode_obj_eq_ok.mp h
  have hStart : p.head? ≠ some 0xfeff ∧ skip p = p := by
    rcases head_of_cut hp rfl with rfl | hHead
    · exact ⟨by decide, rfl⟩
    · obtain ⟨q, rfl⟩ := head?_eq_some_iff.mp hHead
      rw [head?_cons]
      exact ⟨by decide, skip_of_visible (isVisible_cons q (by decide))⟩
  rw [loads, if_neg hStart.1, hStart.2]
  exact hRefuses.bind _

end

end Values

end Json

end Python
