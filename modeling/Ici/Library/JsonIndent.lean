import Ici.Library.JsonRoundTrip

/-! # Indented JSON texts

`json.dumps` with an `indent`: every entry of a container stands on a line of its own, and an empty
container is written without a break. -/

namespace Python

open List Raising

namespace Json

def newlineIndent (indent level : ℕ) : Text := 0xa :: List.replicate (indent * level) 0x20

def bracketed (indent level : ℕ) (first last : CodePoint) (parts : List Text) : Text :=
  if parts = [] then [first, last]
  else [first] ++ newlineIndent indent (level + 1) ++
    join (0x2c :: newlineIndent indent (level + 1)) parts ++ newlineIndent indent level ++ [last]

mutual

def encodeIndented (style : Style) (indent : ℕ) : ℕ → Json → Result Text
  | level, arr items =>
    (encodeItemsIndented style indent (level + 1) items).map (bracketed indent level 0x5b 0x5d)
  | level, obj fields =>
    (((encodeFieldsIndented style indent (level + 1) fields).insertionSort (·.1 ≤ ·.1)).mapM Prod.snd).map
      (bracketed indent level 0x7b 0x7d)
  | _, null => encode style null
  | _, bool value => encode style (bool value)
  | _, int value => encode style (int value)
  | _, float value => encode style (float value)
  | _, str value => encode style (str value)

def encodeItemsIndented (style : Style) (indent : ℕ) : ℕ → List Json → Result (List Text)
  | _, [] => .ok []
  | level, item :: rest => do
    let part ← encodeIndented style indent level item
    let parts ← encodeItemsIndented style indent level rest
    return part :: parts

def encodeFieldsIndented (style : Style) (indent : ℕ) : ℕ → List (Text × Json) → List (Text × Result Text)
  | _, [] => []
  | level, (key, value) :: rest =>
    (key, (encodeIndented style indent level value).map (encodeStr style key ++ style.keySeparator ++ ·)) ::
      encodeFieldsIndented style indent level rest

end

section

variable (style : Style) (indent level : ℕ)

theorem encodeItemsIndented_eq_mapM (items : List Json) :
    encodeItemsIndented style indent level items = items.mapM (encodeIndented style indent level) := by
  induction items with
  | nil => rfl
  | cons item rest ih =>
    rw [encodeItemsIndented, ih, mapM_cons]

theorem encodeFieldsIndented_eq_map (fields : List (Text × Json)) :
    encodeFieldsIndented style indent level fields = fields.map fun field =>
      (field.1, (encodeIndented style indent level field.2).map
        (encodeStr style field.1 ++ style.keySeparator ++ ·)) := by
  induction fields with
  | nil => rfl
  | cons field rest ih =>
    rw [encodeFieldsIndented, ih, map_cons]

theorem encodeIndented_arr_eq_ok {style : Style} {indent level : ℕ} {items : List Json} {t : Text} :
    encodeIndented style indent level (arr items) = .ok t ↔ ∃ parts,
      items.mapM (encodeIndented style indent (level + 1)) = .ok parts ∧
        bracketed indent level 0x5b 0x5d parts = t := by
  rw [encodeIndented, encodeItemsIndented_eq_mapM, map_eq_ok]

theorem encodeIndented_obj_eq_ok {style : Style} {indent level : ℕ} {fields : List (Text × Json)} {t : Text} :
    encodeIndented style indent level (obj fields) = .ok t ↔ ∃ parts,
      t = bracketed indent level 0x7b 0x7d parts ∧
        Members style (encodeIndented style indent (level + 1)) fields parts := by
  have hSorted : (encodeFieldsIndented style indent (level + 1) fields).insertionSort (·.1 ≤ ·.1) =
      (written fields).map fun field => (field.1, (encodeIndented style indent (level + 1) field.2).map
        (encodeStr style field.1 ++ style.keySeparator ++ ·)) := by
    rw [encodeFieldsIndented_eq_map, map_written]
  rw [encodeIndented, hSorted, map_eq_ok]
  simp only [Members, mapM_eq_ok, forall₂_map_left_iff, map_eq_ok]
  exact exists_congr fun parts => and_comm.trans (and_congr_left fun _ => eq_comm)

theorem encodeIndented_scalar {j : Json} (h : j.IsScalar) (style : Style) (indent level : ℕ) :
    encodeIndented style indent level j = encode style j := by
  cases j <;> first | exact h.elim | rw [encodeIndented]

/-! ## Reading it back -/

theorem isWhitespace_newlineIndent (indent level : ℕ) :
    ∀ c ∈ newlineIndent indent level, isWhitespace c = true := by
  intro c hc
  rcases mem_cons.mp hc with rfl | hSpace
  · decide
  · rw [(mem_replicate.mp hSpace).2]
    decide

def Style.indented : Style :=
  { style with itemSeparator := 0x2c :: newlineIndent indent level }

end

theorem isLegible_indented {style : Style} (h : style.IsLegible) (indent level : ℕ) :
    (style.indented indent level).IsLegible where
  item := ⟨_, rfl, isWhitespace_newlineIndent indent level⟩
  key := h.key

theorem bracketed_append (indent level : ℕ) (first last : CodePoint) (parts : List Text) (rest : Text) :
    ∃ lead trail : Text, (∀ c ∈ lead, isWhitespace c = true) ∧ (∀ c ∈ trail, isWhitespace c = true) ∧
      bracketed indent level first last parts ++ rest = first ::
        (lead ++ (join (0x2c :: newlineIndent indent (level + 1)) parts ++ (trail ++ last :: rest))) := by
  by_cases hNone : parts = []
  · subst hNone
    exact ⟨[], [], forall_mem_nil _, forall_mem_nil _, rfl⟩
  · refine ⟨_, _, isWhitespace_newlineIndent indent (level + 1), isWhitespace_newlineIndent indent level, ?_⟩
    rw [bracketed, if_neg hNone]
    simp only [append_assoc, cons_append, nil_append]

variable {style : Style} {indent : ℕ}

theorem bracketed_head (indent level : ℕ) (first last : CodePoint) (parts : List Text) :
    ∃ u, bracketed indent level first last parts = first :: u := by
  obtain ⟨lead, trail, -, -, hText⟩ := bracketed_append indent level first last parts []
  rw [append_nil] at hText
  exact ⟨_, hText⟩

theorem encodeIndented_head {level : ℕ} {j : Json} {t : Text}
    (hFinite : ∀ x, j = float x → x.val.isFinite = true)
    (h : encodeIndented style indent level j = .ok t) : ∃ c u, t = c :: u ∧ IsHead c := by
  cases j with
  | arr items =>
    obtain ⟨parts, -, rfl⟩ := encodeIndented_arr_eq_ok.mp h
    obtain ⟨u, hText⟩ := bracketed_head indent level 0x5b 0x5d parts
    exact ⟨_, u, hText, by decide, by decide, by decide, by decide⟩
  | obj fields =>
    obtain ⟨parts, rfl, -⟩ := encodeIndented_obj_eq_ok.mp h
    obtain ⟨u, hText⟩ := bracketed_head indent level 0x7b 0x7d parts
    exact ⟨_, u, hText, by decide, by decide, by decide, by decide⟩
  | _ => exact encode_head hFinite (by rwa [encodeIndented] at h)

theorem readsAs_encodeIndented (hStyle : style.IsLegible) (j : Json) : ∀ (level d : ℕ) (t : Text),
    j.depth ≤ d → IsReadable style.ensureAscii j → encodeIndented style indent level j = .ok t →
      ReadsAs (scanValue d) t j.canon := by
  induction j using induction with
  | hScalar j hScalar =>
    intro level d t hDepth hReadable h
    rw [encodeIndented_scalar hScalar] at h
    exact readsAs_encode hStyle j d t hDepth hReadable h
  | hArr items ih =>
    intro level d t hDepth hReadable h
    obtain ⟨c, u, hText, hHead⟩ := encodeIndented_head hReadable.finite h
    refine ⟨⟨c, u, hText, hHead.visible⟩, fun rest _ => ?_⟩
    obtain ⟨parts, hParts, rfl⟩ := encodeIndented_arr_eq_ok.mp h
    obtain ⟨d, rfl, hItems⟩ := items_depth_le hDepth
    rw [IsReadable, itemsReadable_iff] at hReadable
    have hReads := readsAs_items hParts fun item hMem part hPart =>
      ih item hMem (level + 1) d part (hItems item hMem) (hReadable item hMem) hPart
    obtain ⟨lead, trail, hLead, hTrail, hText⟩ := bracketed_append indent level 0x5b 0x5d parts rest
    have hArray := scanArray_join (isLegible_indented hStyle indent (level + 1)) hReads
      (head_of_items hReadable hParts fun _ _ => encodeIndented_head) hLead hTrail rest
    rw [hText, canon, canonItems_eq_map, ← hArray]
    rfl
  | hObj fields ih =>
    intro level d t hDepth hReadable h
    obtain ⟨c, u, hText, hHead⟩ := encodeIndented_head hReadable.finite h
    refine ⟨⟨c, u, hText, hHead.visible⟩, fun rest _ => ?_⟩
    obtain ⟨parts, rfl, hParts⟩ := encodeIndented_obj_eq_ok.mp h
    obtain ⟨d, rfl, hFields⟩ := fields_depth_le hDepth
    obtain ⟨hReads, hKeys⟩ := readsAs_members hStyle hParts hReadable fun field hIn text hText =>
      ih field hIn (level + 1) d text (hFields field hIn) (fieldsReadable_iff.mp hReadable.2 field hIn).2 hText
    obtain ⟨lead, trail, hLead, hTrail, hText⟩ := bracketed_append indent level 0x7b 0x7d parts rest
    have hObject := scanObject_join (isLegible_indented hStyle indent (level + 1)) hReads
      (quoted_of_members hParts) hKeys hLead hTrail rest
    rw [hText, canon_obj, ← hObject]
    rfl

/-- `loads` of what `dumps` wrote with an `indent`, whatever spaces follow it. -/
theorem loads_encodeIndented (hStyle : style.IsLegible) {j : Json} {t : Text} {d level : ℕ}
    (hDepth : j.depth ≤ d) (hReadable : IsReadable style.ensureAscii j)
    (h : encodeIndented style indent level j = .ok t) {trail : Text}
    (hTrail : ∀ c ∈ trail, isWhitespace c = true) : loads d (t ++ trail) = .ok j.canon := by
  have hReads := readsAs_encodeIndented hStyle j level d t hDepth hReadable h
  have hStops : StopsNumeral trail := by
    have hSpaces := stopsNumeral_of_space hTrail (show StopsNumeral [] by simp [StopsNumeral])
    rwa [append_nil] at hSpaces
  obtain ⟨c, u, hText, hHead⟩ := encodeIndented_head hReadable.finite h
  have hNoMark : (t ++ trail).head? ≠ some 0xfeff := by
    rw [hText, cons_append, head?_cons]
    exact fun hEq => hHead.mark (Option.some.inj hEq)
  have hSkip : skip trail = [] := by
    rw [← append_nil trail, skip_append hTrail]
    rfl
  unfold loads
  rw [if_neg hNoMark, skip_of_visible (hReads.visible.append trail), hReads.reads trail hStops]
  change (if skip trail = [] then _ else _) = _
  rw [if_pos hSkip]
  rfl

section Alphabet

variable {allowed : CodePoint → Prop}

section

variable (h : style.Admits allowed) (hBreak : allowed 0xa)
include h hBreak

theorem forall_newlineIndent (level : ℕ) : ∀ c ∈ newlineIndent indent level, allowed c := by
  intro c hc
  rcases mem_cons.mp hc with rfl | hSpace
  · exact hBreak
  · rw [(mem_replicate.mp hSpace).2]
    exact h.plain 0x20 (by decide)

theorem forall_bracketed {first last : CodePoint}
    (hFirst : allowed first) (hLast : allowed last) (level : ℕ) {parts : List Text}
    (hParts : ∀ part ∈ parts, ∀ c ∈ part, allowed c) : ∀ c ∈ bracketed indent level first last parts,
      allowed c := by
  unfold bracketed
  split
  · simp [hFirst, hLast]
  · have hSeparator : ∀ c ∈ 0x2c :: newlineIndent indent (level + 1), allowed c :=
      forall_mem_cons.mpr ⟨h.plain 0x2c (by decide), forall_newlineIndent h hBreak (level + 1)⟩
    simp only [forall_mem_append, forall_mem_singleton, forall_join_iff hSeparator]
    exact ⟨⟨⟨⟨hFirst, forall_newlineIndent h hBreak (level + 1)⟩, hParts⟩,
      forall_newlineIndent h hBreak level⟩,
      hLast⟩

theorem forall_encodeIndented (j : Json) :
    ∀ (level : ℕ) (t : Text), encodeIndented style indent level j = .ok t →
      (∀ leaf ∈ j.leaves, leaf.WrittenIn style allowed) → ∀ c ∈ t, allowed c := by
  induction j using induction with
  | hScalar j hScalar =>
    intro level t hEncode
    rw [encodeIndented_scalar hScalar] at hEncode
    exact (forall_encode_iff h j t hEncode).mpr
  | hArr items ih =>
    intro level t hEncode hLeaves
    obtain ⟨parts, hParts, rfl⟩ := encodeIndented_arr_eq_ok.mp hEncode
    apply forall_bracketed h hBreak (h.plain _ (by decide)) (h.plain _ (by decide)) level
    intro part hPart
    obtain ⟨item, hMem, hItem⟩ := exists_of_mem_mapM hParts hPart
    exact ih item hMem (level + 1) part hItem fun leaf hLeaf => hLeaves leaf (mem_leavesOfItems hMem hLeaf)
  | hObj fields ih =>
    intro level t hEncode hLeaves
    obtain ⟨parts, rfl, hParts⟩ := encodeIndented_obj_eq_ok.mp hEncode
    apply forall_bracketed h hBreak (h.plain _ (by decide)) (h.plain _ (by decide)) level
    intro part hPart
    obtain ⟨field, hField, text, hText, rfl⟩ := exists_of_forall₂_mem hParts hPart
    have hMem : field ∈ fields := (mem_insertionSort _).mp hField
    have hKey := hLeaves (.text field.1) (key_mem_leavesOfFields hMem)
    simp only [forall_mem_append]
    exact ⟨⟨(forall_encodeStr_iff h field.1).mpr hKey, h.key⟩,
      ih field hMem (level + 1) text hText fun leaf hLeaf => hLeaves leaf (mem_leavesOfFields hMem hLeaf)⟩

end

end Alphabet

end Json

end Python
