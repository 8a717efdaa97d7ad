import Ici.Library.Python

/-! # Texts within texts -/

namespace Python

open Option List

/-- `t.split(marker, 1)[0]` where `marker in t`. -/
def before? (marker : Text) : Text → Option Text
  | [] => if marker = [] then some [] else none
  | c :: t => if marker.isPrefixOf (c :: t) then some [] else (before? marker t).map (c :: ·)

def endsWith (suffix t : Text) : Bool := suffix.isSuffixOf t

theorem before?_eq_none_iff {marker : Text} (hMarker : marker ≠ []) (t : Text) :
    before? marker t = none ↔ ¬marker <:+: t := by
  induction t with
  | nil => simp [before?, hMarker]
  | cons c t ih =>
    rw [before?, infix_cons_iff]
    by_cases hHere : marker <+: c :: t
    · simp [hHere, isPrefixOf_iff_prefix.mpr hHere]
    · have hNot : marker.isPrefixOf (c :: t) = false := by
        simpa [← isPrefixOf_iff_prefix] using hHere
      simp [hHere, hNot, ih]

theorem before?_eq_some {marker t u : Text} (h : before? marker t = some u) : ∃ v, t = u ++ marker ++ v := by
  induction t generalizing u with
  | nil =>
    rw [before?] at h
    split at h
    · obtain rfl := some_inj.mp h
      exact ⟨[], by simp [*]⟩
    · exact nomatch h
  | cons c t ih =>
    rw [before?] at h
    split at h
    · rename_i hHere
      obtain rfl := some_inj.mp h
      obtain ⟨v, hv⟩ := isPrefixOf_iff_prefix.mp hHere
      exact ⟨v, by rw [nil_append, hv]⟩
    · obtain ⟨w, hw, rfl⟩ := map_eq_some_iff.mp h
      obtain ⟨v, rfl⟩ := ih hw
      exact ⟨v, by simp⟩

theorem before?_append_iff {marker : Text} (hMarker : marker ≠ []) (u v : Text) :
    before? marker (u ++ marker ++ v) = some u ↔ ¬marker <:+: u ++ marker.dropLast := by
  induction u with
  | nil =>
    have hLength : marker.dropLast.length < marker.length := by
      have := length_pos_iff.mpr hMarker
      rw [length_dropLast]
      omega
    refine iff_of_true ?_ fun h => absurd h.length_le (by simpa using hLength)
    obtain ⟨c, rest, rfl⟩ := exists_cons_of_ne_nil hMarker
    have hPrefix : (c :: rest).isPrefixOf (c :: (rest ++ v)) = true :=
      isPrefixOf_iff_prefix.mpr (prefix_append (c :: rest) v)
    simp only [nil_append, cons_append, before?, hPrefix, if_true]
  | cons c u ih =>
    rw [cons_append, cons_append, before?, cons_append, infix_cons_iff, not_or]
    have hHere : marker <+: c :: (u ++ marker ++ v) ↔ marker <+: c :: (u ++ marker.dropLast) := by
      have hShort : c :: (u ++ marker.dropLast) <+: c :: (u ++ marker ++ v) := by
        rw [append_assoc]
        refine cons_prefix_cons.mpr ⟨rfl, (prefix_append_right_inj u).mpr ?_⟩
        exact (List.dropLast_prefix marker).trans (prefix_append marker v)
      refine ⟨fun h => prefix_of_prefix_length_le h hShort ?_, (·.trans hShort)⟩
      simp only [length_cons, length_append, length_dropLast]
      omega
    rw [← hHere, ← isPrefixOf_iff_prefix, ← ih]
    cases marker.isPrefixOf (c :: (u ++ marker ++ v)) <;> simp

section Delimited

variable {separator : CodePoint} {word : Text}

theorem delimited_infix_append_iff (hWord : separator ∉ word) (u v : Text) :
    separator :: word ++ [separator] <:+: u ++ separator :: v ↔
      separator :: word ++ [separator] <:+: u ++ [separator] ∨
        separator :: word ++ [separator] <:+: separator :: v := by
  constructor
  · rintro ⟨s, t, h⟩
    rcases le_or_gt u.length s.length with hLate | hEarly
    · refine .inr ⟨s.drop u.length, t, ?_⟩
      have hDrop := congrArg (List.drop u.length) h
      rw [drop_left, append_assoc, drop_append_of_le_length hLate] at hDrop
      rw [← hDrop, append_assoc]
    · rcases le_or_gt (s.length + word.length + 2) (u.length + 1) with hInside | hAcross
      · refine .inl ?_
        have hMarker : s ++ (separator :: word ++ [separator]) <+: u ++ separator :: v := ⟨t, h⟩
        have hLeft : u ++ [separator] <+: u ++ separator :: v := ⟨v, by simp⟩
        refine (infix_append_right).trans (prefix_of_prefix_length_le hMarker hLeft ?_).isInfix
        simp only [length_append, length_cons, length_nil]
        omega
      · -- the separator after `u` would be a letter of the word
        refine absurd ?_ hWord
        have hAt := congrArg (fun l : Text => l[u.length]?) h
        obtain ⟨n, hn⟩ : ∃ n, u.length = s.length + 1 + n := ⟨u.length - s.length - 1, by omega⟩
        have hBound : n < word.length := by omega
        simp only [getElem?_append_right le_rfl, Nat.sub_self, getElem?_cons_zero] at hAt
        rw [append_assoc, getElem?_append_right hEarly.le, show u.length - s.length = n + 1 by omega,
          cons_append, cons_append, getElem?_cons_succ, append_assoc, getElem?_append_left hBound] at hAt
        exact mem_of_getElem? hAt
  · rintro (h | h)
    · exact h.trans ⟨[], v, by simp⟩
    · exact infix_append_of_infix_right h

theorem before?_delimited_iff (hWord : separator ∉ word) (u v : Text) :
    before? (separator :: word ++ [separator]) (u ++ (separator :: word ++ [separator]) ++ v) = some u ↔
      ¬separator :: word ++ [separator] <:+: u ++ [separator] := by
  have hShort : ¬separator :: word ++ [separator] <:+: separator :: word := fun h =>
    absurd h.length_le (by simp)
  rw [before?_append_iff (by simp), dropLast_concat, delimited_infix_append_iff hWord, or_iff_left hShort]

end Delimited

end Python
