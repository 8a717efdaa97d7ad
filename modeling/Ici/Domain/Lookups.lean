import Ici.Domain.ResultReading
import Ici.Domain.Serialization
import Ici.Library.JsonRoundTrip

/-! # What a decoder finds in a document that was written

A written document has its members in the order of their names; a decoder finds them by name. -/

namespace Ici

open List Raising Python Json

theorem keys_optional (name : Text) (value : Option Json) :
    (Dict.keys (optional name value)).Sublist [name] := by
  cases value with
  | none => exact nil_sublist _
  | some value => exact Sublist.refl _

theorem keys_nonEmpty (name value : Text) : (Dict.keys (nonEmpty name value)).Sublist [name] := by
  unfold nonEmpty
  split
  · exact nil_sublist _
  · exact Sublist.refl _

theorem keys_listed (name : Text) (items : List Json) : (Dict.keys (listed name items)).Sublist [name] := by
  unfold listed
  split
  · exact nil_sublist _
  · exact Sublist.refl _

/-! ## Members -/

theorem textValue_str {t : Text} (h : IsText t) (description : Text) :
    textValue (.str t) description = .ok t := by
  rw [textValue, requireText_eq_ok_iff.mpr h]
  rfl

theorem identifierValue_str {t : Text} (h : IsIdentifier t) (description : Text) :
    identifierValue (.str t) description = .ok t := by
  rw [identifierValue, requireIdentifier_eq_ok_iff.mpr h]
  rfl

theorem digestValue_str {t description : Text} (h : requireDigest t description = .ok ()) :
    digestValue (.str t) description = .ok t := by
  rw [digestValue, h]
  rfl

theorem relativePathValue_str {t description : Text} {allowDot : Bool}
    (h : requireRelativePath t description allowDot = .ok ()) :
    relativePathValue (.str t) description allowDot = .ok t := by
  rw [relativePathValue, h]
  rfl

theorem nonNegativeValue_int {n : ℤ} (h : 0 ≤ n) (description : Text) :
    nonNegativeValue (.int n) description = .ok n := by
  rw [nonNegativeValue, requireNonNegative_eq_ok_iff.mpr h]
  rfl

theorem textItems_str (items : List Text) (description : Text) :
    textItems (items.map .str) description = .ok items := by
  refine mapM_eq_ok.mpr ?_
  rw [forall₂_map_left_iff]
  exact forall₂_same.mpr fun _ _ => rfl

theorem readEnum_value {α : Type} {members : List (Text × α)} {value : α → Text} {member : α}
    (h : enumMember members (.str (value member)) = some member) (description : Text) :
    readEnum members (.str (value member)) description = .ok member := by
  rw [readEnum, h]

theorem mapM_canon {α β : Type} {read : Json → Result β} {write : α → Json} (back : α → β)
    {items : List α} (h : ∀ item ∈ items, read (write item).canon = .ok (back item)) :
    ((items.map write).map canon).mapM read = .ok (items.map back) := by
  refine mapM_eq_ok.mpr ?_
  rw [List.map_map, forall₂_map_left_iff, forall₂_map_right_iff]
  exact forall₂_same.mpr h

abbrev canonical (fields : Dict Text Json) : Dict Text Json :=
  (written fields).map fun field => (field.1, canon field.2)

section Lookups

variable {fields : Dict Text Json} (hKeys : fields.keys.Nodup) {name : Text}

include hKeys

theorem getValue_canon (name : Text) : getValue (canonical fields) name = (getValue fields name).canon := by
  unfold getValue
  rw [get?_canon hKeys]
  cases fields.get? name <;> rfl

theorem getOr_canon (name : Text) {default : Json} (hDefault : default.canon = default) :
    getOr (canonical fields) name default = (getOr fields name default).canon := by
  unfold getOr
  rw [get?_canon hKeys]
  cases fields.get? name with
  | none => exact hDefault.symm
  | some value => rfl

variable {t description : Text} {value : Option Text}

theorem text_canon (h : getValue fields name = .str t) (ht : IsText t)
    (description : Text) : textValue (getValue (canonical fields) name) description = .ok t := by
  rw [getValue_canon hKeys, h]
  exact textValue_str ht description

theorem identifier_canon (h : getValue fields name = .str t) (ht : IsIdentifier t) (description : Text) :
    identifierValue (getValue (canonical fields) name) description = .ok t := by
  rw [getValue_canon hKeys, h]
  exact identifierValue_str ht description

theorem digest_canon (h : getValue fields name = .str t) (ht : requireDigest t description = .ok ()) :
    digestValue (getValue (canonical fields) name) description = .ok t := by
  rw [getValue_canon hKeys, h]
  exact digestValue_str ht

theorem nonNegative_canon {n : ℤ} (h : getValue fields name = .int n) (hn : 0 ≤ n) (description : Text) :
    nonNegativeValue (getValue (canonical fields) name) description = .ok n := by
  rw [getValue_canon hKeys, h]
  exact nonNegativeValue_int hn description

theorem string_canon (h : getOr fields name (.str []) = .str t) (text : Text) :
    stringValue (getOr (canonical fields) name (.str [])) text = .ok t := by
  have hDefault : (Json.str []).canon = .str [] := rfl
  rw [getOr_canon hKeys name hDefault, h]
  rfl

theorem enum_canon {α : Type} {members : List (Text × α)} {value : α → Text} {member : α}
    (h : getValue fields name = .str (value member))
    (hMember : enumMember members (.str (value member)) = some member) (description : Text) :
    readEnum members (getValue (canonical fields) name) description = .ok member := by
  rw [getValue_canon hKeys, h]
  exact readEnum_value hMember description

theorem enumOr_canon {α : Type} {members : List (Text × α)} {value : α → Text} {member : α}
    {default : Text} (h : getOr fields name (.str default) = .str (value member))
    (hMember : enumMember members (.str (value member)) = some member) (description : Text) :
    readEnum members (getOr (canonical fields) name (.str default)) description = .ok member := by
  have hDefault : (Json.str default).canon = .str default := rfl
  rw [getOr_canon hKeys name hDefault, h]
  exact readEnum_value hMember description

theorem tuple_canon {items : List Json} (h : getOr fields name (.arr []) = .arr items) :
    tupleField builtin (canonical fields) name = .ok (items.map canon) := by
  have hDefault : (Json.arr []).canon = .arr [] := rfl
  rw [tupleField, getOr_canon hKeys name hDefault, h, canon, canonItems_eq_map]
  rfl

theorem texts_canon {items : List Text} (h : getOr fields name (.arr []) = .arr (items.map .str)) :
    tupleField builtin (canonical fields) name = .ok (items.map .str) := by
  rw [tuple_canon hKeys h, List.map_map]
  rfl

theorem bool_canon {value : Bool} (h : getOr fields name (.bool false) = .bool value) :
    boolField builtin (canonical fields) name = .ok value := by
  have hDefault : (Json.bool false).canon = .bool false := rfl
  rw [boolField, getOr_canon hKeys name hDefault, h]
  rfl

theorem optional_canon {α : Type} {check : Json → Result α} {write : α → Json} {value : Option α}
    (h : getValue fields name = (value.map write).getD .null) (hNull : ∀ a, write a ≠ .null)
    (hCanon : ∀ a, (write a).canon = write a) (hCheck : ∀ a ∈ value, check (write a) = .ok a) :
    unlessNone check (getValue (canonical fields) name) = .ok value := by
  rw [getValue_canon hKeys, h]
  cases value with
  | none => rfl
  | some a =>
    have hAccepted := hCheck a rfl
    have hNe := hNull a
    change unlessNone check (write a).canon = _
    rw [hCanon a]
    unfold unlessNone
    split
    · exact absurd ‹_› hNe
    · rw [hAccepted]
      rfl

section

variable (h : getValue fields name = (value.map Json.str).getD .null)
include h

theorem optionalIdentifier_canon (hv : ∀ t ∈ value, IsIdentifier t) (description : Text) :
    unlessNone (identifierValue · description) (getValue (canonical fields) name) = .ok value :=
  optional_canon hKeys h (fun _ => nofun) (fun _ => rfl) fun t ht => identifierValue_str (hv t ht) _

omit h in
theorem optionalNonNegative_canon {value : Option ℤ}
    (h : getValue fields name = (value.map Json.int).getD .null) (hv : ∀ n ∈ value, 0 ≤ n)
    (description : Text) :
    unlessNone (nonNegativeValue · description) (getValue (canonical fields) name) = .ok value :=
  optional_canon hKeys h (fun _ => nofun) (fun _ => rfl) fun n hn => nonNegativeValue_int (hv n hn) _

theorem optionalText_canon (hv : ∀ t ∈ value, IsText t) (description : Text) :
    unlessNone (textValue · description) (getValue (canonical fields) name) = .ok value :=
  optional_canon hKeys h (fun _ => nofun) (fun _ => rfl) fun t ht => textValue_str (hv t ht) _

theorem optionalDigest_canon (hv : ∀ t ∈ value, requireDigest t description = .ok ()) :
    unlessNone (digestValue · description) (getValue (canonical fields) name) = .ok value :=
  optional_canon hKeys h (fun _ => nofun) (fun _ => rfl) fun t ht => digestValue_str (hv t ht)

end

omit hKeys in
theorem mem_keys_canonical {name : Text} : name ∈ (canonical fields).keys ↔ name ∈ fields.keys := by
  rw [Dict.keys, List.map_map]
  exact ((perm_insertionSort (·.1 ≤ ·.1) fields).map Prod.fst).mem_iff

end Lookups

theorem isLegible_codecStyle : codecStyle.IsLegible where
  item := ⟨[], rfl, by simp⟩
  key := ⟨[], rfl, by simp⟩

theorem readsBack_codecStyle (t : Text) : ∀ c ∈ t, ReadsBack codecStyle.ensureAscii c :=
  fun _ _ hAscii => nomatch hAscii

section Members

variable {holds : Json → Prop} (name : Text)

theorem forall_optional_iff (value : Option Json) :
    (∀ field ∈ optional name value, holds field.2) ↔ ∀ a, value = some a → holds a := by
  cases value <;> simp [optional]

theorem forall_nonEmpty_iff (value : Text) :
    (∀ field ∈ nonEmpty name value, holds field.2) ↔ (value ≠ [] → holds (.str value)) := by
  unfold nonEmpty
  split <;> simp [*]

theorem forall_listed_iff (items : List Json) :
    (∀ field ∈ listed name items, holds field.2) ↔ (items ≠ [] → holds (.arr items)) := by
  cases items <;> simp [listed]

end Members

/-! ## Documents the codec can write -/

def Printable (document : Json) : Prop := ∀ leaf ∈ document.leaves, leaf.IsPrintable codecStyle

theorem exists_dumps_iff {document : Json} :
    (∃ text, dumps document = .ok text) ↔ Printable document := exists_encode_iff codecStyle document

theorem forall_leavesOfItems_iff {items : List Json} {holds : Leaf → Prop} :
    (∀ leaf ∈ leavesOfItems items, holds leaf) ↔ ∀ item ∈ items, ∀ leaf ∈ item.leaves, holds leaf := by
  induction items with
  | nil => simp [leavesOfItems]
  | cons item rest ih =>
    rw [leavesOfItems, forall_mem_append, ih, forall_mem_cons]

theorem forall_leavesOfFields_iff {fields : List (Text × Json)} {holds : Leaf → Prop} :
    (∀ leaf ∈ leavesOfFields fields, holds leaf) ↔
      ∀ field ∈ fields, holds (.text field.1) ∧ ∀ leaf ∈ field.2.leaves, holds leaf := by
  induction fields with
  | nil => simp [leavesOfFields]
  | cons field rest ih =>
    rw [leavesOfFields, cons_append, forall_mem_cons, forall_mem_append, ih, forall_mem_cons, and_assoc]

theorem printable_null : Printable .null := fun _ h => nomatch h

@[simp] theorem printable_bool (value : Bool) : Printable (.bool value) := fun _ h => nomatch h

@[simp] theorem printable_str (t : Text) : Printable (.str t) := by simp [Printable, leaves, Leaf.IsPrintable]

theorem printable_int_iff (n : ℤ) : Printable (.int n) ↔ FitsDigitLimit n := by
  simp [Printable, leaves, Leaf.IsPrintable]

theorem printable_float_iff (x : Double) : Printable (.float x) ↔ x.val.isFinite = true := by
  simp [Printable, leaves, Leaf.IsPrintable, codecStyle]

theorem printable_arr_iff (items : List Json) : Printable (.arr items) ↔ ∀ item ∈ items, Printable item := by
  rw [Printable, leaves, forall_leavesOfItems_iff]
  rfl

theorem printable_obj_iff (fields : List (Text × Json)) :
    Printable (.obj fields) ↔ ∀ field ∈ fields, Printable field.2 := by
  rw [Printable, leaves, forall_leavesOfFields_iff]
  exact forall₂_congr fun _ _ => and_iff_right trivial

theorem printable_texts (items : List Text) : Printable (.arr (items.map .str)) := by
  rw [printable_arr_iff, forall_mem_map]
  exact fun t _ => printable_str t

structure ReadsWithin (d : ℕ) (document : Json) : Prop where
  depth_le : document.depth ≤ d
  readable : IsReadable codecStyle.ensureAscii document

namespace ReadsWithin

variable {d : ℕ}

theorem mono {document : Json} (h : ReadsWithin d document) : ReadsWithin (d + 1) document :=
  ⟨Nat.le_succ_of_le h.depth_le, h.readable⟩

theorem null : ReadsWithin d .null := ⟨Nat.zero_le d, trivial⟩

theorem bool (value : Bool) : ReadsWithin d (.bool value) := ⟨Nat.zero_le d, trivial⟩

theorem int (n : ℤ) : ReadsWithin d (.int n) := ⟨Nat.zero_le d, trivial⟩

theorem str (t : Text) : ReadsWithin d (.str t) := ⟨Nat.zero_le d, readsBack_codecStyle t⟩

theorem float {x : Double} (h : x.val.isFinite = true) : ReadsWithin d (.float x) :=
  ⟨Nat.zero_le d, h⟩

theorem arr {items : List Json} (h : ∀ item ∈ items, ReadsWithin d item) : ReadsWithin (d + 1) (.arr items) :=
  ⟨Nat.succ_le_succ (depthOfItems_le_iff.mpr fun item hItem => (h item hItem).depth_le),
    itemsReadable_iff.mpr fun item hItem => (h item hItem).readable⟩

theorem obj {fields : Dict Text Json} (hKeys : fields.keys.Nodup)
    (h : ∀ field ∈ fields, ReadsWithin d field.2) : ReadsWithin (d + 1) (.obj fields) :=
  ⟨Nat.succ_le_succ (depthOfFields_le_iff.mpr fun field hField => (h field hField).depth_le),
    hKeys, fieldsReadable_iff.mpr fun field hField =>
      ⟨readsBack_codecStyle field.1, (h field hField).readable⟩⟩

theorem texts (items : List Text) : ReadsWithin (d + 1) (.arr (items.map .str)) :=
  arr (forall_mem_map.mpr fun t _ => str t)

section

variable {α : Type} {write : α → Json} {value : Option α} (h : ∀ a ∈ value, ReadsWithin d (write a))
include h

theorem of_option : ReadsWithin d ((value.map write).getD .null) := by
  cases value with
  | none => exact null
  | some a => exact h a rfl

theorem of_optional (name : Text) : ∀ field ∈ optional name (value.map write), ReadsWithin d field.2 := by
  cases value with
  | none => exact fun _ hField => nomatch hField
  | some a => exact forall_mem_singleton.mpr (h a rfl)

end

theorem of_optionalText (value : Option Text) (name : Text) :
    ∀ field ∈ optional name (value.map Json.str), ReadsWithin d field.2 :=
  of_optional (fun t _ => str t) name

theorem of_optionalInt (value : Option ℤ) (name : Text) :
    ∀ field ∈ optional name (value.map Json.int), ReadsWithin d field.2 :=
  of_optional (fun n _ => int n) name

theorem of_nonEmpty (name value : Text) : ∀ field ∈ nonEmpty name value, ReadsWithin d field.2 :=
  (forall_nonEmpty_iff name value).mpr fun _ => str value

theorem of_listed {items : List Json} (h : ∀ item ∈ items, ReadsWithin d item) (name : Text) :
    ∀ field ∈ listed name items, ReadsWithin (d + 1) field.2 :=
  (forall_listed_iff name items).mpr fun _ => arr h

theorem of_listedTexts (items : List Text) (name : Text) :
    ∀ field ∈ listed name (items.map Json.str), ReadsWithin (d + 1) field.2 :=
  of_listed (forall_mem_map.mpr fun t _ => str t) name

theorem loads {document : Json} {t : Text} {limit : ℕ} (h : ReadsWithin d document)
    (hLimit : d ≤ limit) (hText : dumps document = .ok t) :
    Json.loads limit t = .ok document.canon :=
  loads_encode isLegible_codecStyle (h.depth_le.trans hLimit) h.readable hText

end ReadsWithin

end Ici
