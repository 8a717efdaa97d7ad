import Ici.Library.Json
import Ici.Library.PurePaths

/-! # Native identities for process evidence

Every option is kept and explicit references to the workspace are relocated: what lies below the root
is named from the root. -/

namespace Ici

open Option List Python PurePath

/-- What a text refers to: a place below the root of the workspace, or what it says. -/
inductive Reference where
  | inside (place : PurePath)
  | verbatim (t : Text)
deriving DecidableEq

def workspacePlaceholder : Text := py "$\x7bworkspace\x7d"

def placeText (place : PurePath) : Text :=
  if place.names = [] then workspacePlaceholder else workspacePlaceholder ++ py "/" ++ place.asPosix

def Reference.text : Reference → Text
  | inside place => placeText place
  | verbatim t => t

def referenceOf (root : PurePath) (value : Text) : Reference :=
  let path := parse (normpath value)
  if !path.isAbsolute then .verbatim value
  else match path.relativeTo root with
    | none => .verbatim value
    | some place => .inside place

def workspaceReference (value : Text) (root : PurePath) : Text := (referenceOf root value).text

/-- `_relative`: without a root absolute paths stay absolute. -/
def relative (value : Text) : Option PurePath → Text
  | none => value
  | some root => workspaceReference value root

def joinedPathOptions : List Text :=
  [py "-isystem", py "-idirafter", py "-iquote", py "-include", py "-imacros", py "-isysroot", py "-I",
    py "-L", py "-F", py "-B", py "@"]

def isQuoted (argument : Text) : Bool :=
  1 < argument.length && argument.head? == argument.getLast? &&
    (argument.head? == some 0x22 || argument.head? == some 0x27)

def relocateArgument (value : Text) (root : Option PurePath) : Text :=
  if value.head? = some 0x2d ∧ 0x3d ∈ value then
    let key := value.takeWhile (· != 0x3d)
    let argument := value.drop (key.length + 1)
    key ++ py "=" ++
      if isQuoted argument then
        argument.take 1 ++ relative argument.tail.dropLast root ++ argument.drop (argument.length - 1)
      else relative argument root
  else match joinedPathOptions.find? (·.isPrefixOf value) with
    | some option => option ++ relative (value.drop option.length) root
    | none => relative value root

def invocationIdentity (argv : List Text) (cwd : Option PurePath) (root : Option PurePath) :
    Option Text × List Text :=
  (cwd.map fun cwd => relative cwd.asPosix root, argv.map (relocateArgument · root))

/-- Both name the same place, each below its own root, or say the same. A text that spells the
placeholder out says what a reference is written as. -/
def SameReference (root root' : PurePath) (value value' : Text) : Prop :=
  referenceOf root value = referenceOf root' value' ∨
    (∃ place, referenceOf root value = .inside place ∧ referenceOf root' value' = .verbatim (placeText place))
      ∨
    ∃ place, referenceOf root value = .verbatim (placeText place) ∧ referenceOf root' value' = .inside place

variable {root place root' : PurePath} {value value' : Text}

theorem referenceOf_inside (h : referenceOf root value = .inside place) : place.root = .relative := by
  unfold referenceOf at h
  dsimp only at h
  split at h
  · cases h
  · split at h
    · cases h
    · rename_i hPlace
      cases h
      exact (relativeTo_eq_some hPlace).1

theorem placeText_injective {place' : PurePath} (hPlace : place.root = .relative)
    (hPlace' : place'.root = .relative) (h : placeText place = placeText place') : place = place' := by
  have hLonger (place : PurePath) :
    workspacePlaceholder ≠ workspacePlaceholder ++ py "/" ++ place.asPosix := by
    rw [append_assoc]
    exact fun hSame => absurd (self_eq_append_right.mp hSame) (by simp [py])
  obtain ⟨root, names, hNames⟩ := place
  obtain ⟨root', names', hNames'⟩ := place'
  cases hPlace
  cases hPlace'
  unfold placeText at h
  by_cases hNone : names = []
  · by_cases hNone' : names' = []
    · subst hNone hNone'
      rfl
    · rw [if_pos hNone, if_neg hNone'] at h
      exact absurd h (hLonger _)
  · by_cases hNone' : names' = []
    · rw [if_neg hNone, if_pos hNone'] at h
      exact absurd h.symm (hLonger _)
    · rw [if_neg hNone, if_neg hNone'] at h
      have hPosix := append_cancel_left h
      rw [← parse_asPosix ⟨.relative, names, hNames⟩, hPosix, parse_asPosix]

theorem workspaceReference_eq_iff : workspaceReference value root = workspaceReference value' root' ↔
      SameReference root root' value value' := by
  unfold workspaceReference SameReference
  cases hLeft : referenceOf root value with
  | inside place =>
    cases hRight : referenceOf root' value' with
    | inside place' =>
      simp only [Reference.inside.injEq, reduceCtorEq, and_false, exists_false, false_and, or_false]
      exact ⟨placeText_injective (referenceOf_inside hLeft) (referenceOf_inside hRight), fun h => h ▸ rfl⟩
    | verbatim t =>
      simp only [reduceCtorEq, false_and, exists_false, or_false, false_or, Reference.inside.injEq,
        exists_eq_left', Reference.verbatim.injEq]
      exact eq_comm
  | verbatim t =>
    cases hRight : referenceOf root' value' with
    | inside place =>
      simp only [reduceCtorEq, and_false, exists_false, false_or, Reference.inside.injEq,
        Reference.verbatim.injEq, exists_eq_right']
      rfl
    | verbatim t' => simp [Reference.text]

theorem referenceOf_below (hRoot : root.isAbsolute = true)
    (hNormal : ∀ name ∈ root.names, name ≠ py "..") (hPlace : place.root = .relative)
    (hInside : ∀ name ∈ place.names, name ≠ py "..") :
    referenceOf root (root.join place).asPosix = .inside place := by
  have hRelative : place.isAbsolute = false := by rw [isAbsolute, hPlace]; rfl
  have hNames : ∀ name ∈ (root.join place).names, name ≠ py ".." := by
    rw [PurePath.join, if_neg (Bool.eq_false_iff.mp hRelative)]
    exact forall_mem_append.mpr ⟨hNormal, hInside⟩
  unfold referenceOf
  rw [parse_normpath, normalPath_asPosix hNames]
  dsimp only
  rw [isAbsolute_join hRelative, hRoot, relativeTo_join hPlace]
  rfl

/-! ## One argument -/

structure SplitArgument where
  front : Text
  reference : Text
  back : Text
deriving DecidableEq

open SplitArgument

def SplitArgument.fill (split : SplitArgument) (t : Text) : Text := split.front ++ t ++ split.back

/-- Where `_argument` looks for a reference. -/
def splitArgument (value : Text) : SplitArgument :=
  if value.head? = some 0x2d ∧ 0x3d ∈ value then
    let key := value.takeWhile (· != 0x3d)
    let argument := value.drop (key.length + 1)
    if isQuoted argument then
      ⟨key ++ py "=" ++ argument.take 1, argument.tail.dropLast, argument.drop (argument.length - 1)⟩
    else ⟨key ++ py "=", argument, []⟩
  else match joinedPathOptions.find? (·.isPrefixOf value) with
    | some option => ⟨option, value.drop option.length, []⟩
    | none => ⟨[], value, []⟩

theorem relocateArgument_eq (value : Text) (root : Option PurePath) : relocateArgument value root =
    (splitArgument value).fill (relative (splitArgument value).reference root) := by
  unfold relocateArgument splitArgument
  dsimp only
  split
  · split
    · simp only [fill, append_assoc]
    · simp only [fill, append_nil]
  · split
    · simp only [fill, append_nil]
    · simp only [fill, append_nil, nil_append]

inductive ArgumentShape (value : Text) : SplitArgument → Prop where
  | quoted {key reference : Text} {quote : CodePoint} (hKey : 0x3d ∉ key) (hDash : key.head? = some 0x2d)
      (hQuote : quote = 0x22 ∨ quote = 0x27) (hValue : value = key ++ 0x3d :: quote :: (reference ++ [quote])) :
      ArgumentShape value ⟨key ++ py "=" ++ [quote], reference, [quote]⟩
  | keyed {key reference : Text} (hKey : 0x3d ∉ key) (hDash : key.head? = some 0x2d)
      (hQuote : isQuoted reference = false) (hValue : value = key ++ 0x3d :: reference) :
      ArgumentShape value ⟨key ++ py "=", reference, []⟩
  | joined {option reference : Text} (hOption : option ∈ joinedPathOptions)
      (hKey : option.head? = some 0x2d → 0x3d ∉ reference) (hValue : value = option ++ reference) :
      ArgumentShape value ⟨option, reference, []⟩
  | plain (hKey : ¬(value.head? = some 0x2d ∧ 0x3d ∈ value))
      (hOption : joinedPathOptions.find? (·.isPrefixOf value) = none) : ArgumentShape value ⟨[], value, []⟩

theorem isQuoted_iff {argument : Text} : isQuoted argument = true ↔
    ∃ quote reference, (quote = 0x22 ∨ quote = 0x27) ∧ argument = quote :: (reference ++ [quote]) := by
  unfold isQuoted
  simp only [Bool.and_eq_true, decide_eq_true_eq, beq_iff_eq, Bool.or_eq_true]
  constructor
  · rintro ⟨⟨hLong, hSame⟩, hQuote⟩
    cases argument with
    | nil => exact absurd hLong (by simp)
    | cons quote rest =>
      have hRest : rest ≠ [] := by
        rintro rfl
        exact absurd hLong (by simp)
      obtain ⟨reference, last, rfl⟩ := eq_nil_or_concat rest |>.resolve_left hRest
      rw [concat_eq_append] at hSame ⊢
      have hLast : quote = last := by
        rw [head?_cons, ← cons_append, getLast?_concat] at hSame
        exact some.inj hSame
      subst hLast
      exact ⟨quote, reference, by simpa using hQuote, rfl⟩
  · rintro ⟨quote, reference, hQuote, rfl⟩
    refine ⟨⟨by simp, ?_⟩, by simpa using hQuote⟩
    rw [head?_cons, ← cons_append, getLast?_concat]

theorem split_at_equals (h : 0x3d ∈ value) :
    0x3d ∉ value.takeWhile (· != 0x3d) ∧ value = value.takeWhile (· != 0x3d) ++
      0x3d :: value.drop ((value.takeWhile (· != 0x3d)).length + 1) := by
  induction value with
  | nil => exact nomatch h
  | cons c rest ih =>
    by_cases hc : c = 0x3d
    · subst hc
      simp
    · obtain ⟨hNot, hEq⟩ := ih ((mem_cons.mp h).resolve_left (Ne.symm hc))
      rw [takeWhile_cons_of_pos (by simpa using hc)]
      refine ⟨fun hMem => (mem_cons.mp hMem).elim (fun hSame => hc hSame.symm) hNot, ?_⟩
      rw [length_cons, drop_succ_cons, cons_append, ← hEq]

theorem argumentShape (value : Text) : ArgumentShape value (splitArgument value) := by
  unfold splitArgument
  dsimp only
  split
  · rename_i hKeyed
    obtain ⟨hDash, hEquals⟩ := hKeyed
    obtain ⟨hKey, hValue⟩ := split_at_equals hEquals
    have hHead : (value.takeWhile (· != 0x3d)).head? = some 0x2d := by
      cases value with
      | nil => cases hDash
      | cons c rest =>
        obtain rfl := some.inj hDash
        rfl
    split
    · rename_i hQuoted
      obtain ⟨quote, reference, hQuote, hArgument⟩ := isQuoted_iff.mp hQuoted
      rw [hArgument] at hValue ⊢
      have hTail : (quote :: (reference ++ [quote])).tail.dropLast = reference := by simp
      have hBack : (quote :: (reference ++ [quote])).drop ((quote :: (reference ++ [quote])).length - 1) =
          [quote] := by simp
      rw [hTail, hBack]
      exact .quoted hKey hHead hQuote hValue
    · rename_i hPlain
      exact .keyed hKey hHead (Bool.eq_false_iff.mpr hPlain) hValue
  · rename_i hKeyed
    split
    · rename_i option hFound
      have hOption := mem_of_find?_eq_some hFound
      have hPrefix : option.isPrefixOf value = true := by simpa using find?_some hFound
      obtain ⟨rest, rfl⟩ := isPrefixOf_iff_prefix.mp hPrefix
      rw [drop_left]
      refine .joined hOption (fun hDash hMem => hKeyed ⟨?_, mem_append_right _ hMem⟩) rfl
      rw [head?_append, hDash]
      rfl
    · rename_i hNone
      exact .plain hKeyed hNone

theorem takeWhile_key {key rest : Text} (hKey : 0x3d ∉ key) :
    (key ++ 0x3d :: rest).takeWhile (· != 0x3d) = key := by
  induction key with
  | nil => simp
  | cons c key ih =>
    obtain ⟨hc, hRest⟩ := not_or.mp (mt mem_cons.mpr hKey)
    rw [cons_append, takeWhile_cons_of_pos (by simpa using Ne.symm hc), ih hRest]

theorem drop_key (key : Text) (c : CodePoint) (rest : Text) : (key ++ c :: rest).drop (key.length + 1) =
    rest := by
  rw [drop_append, Nat.sub_eq_of_eq_add (Nat.add_comm _ _), drop_of_length_le (by omega), drop_succ_cons,
    drop_zero, nil_append]

theorem find?_option {option : Text} (h : option ∈ joinedPathOptions) (rest : Text) :
    joinedPathOptions.find? (·.isPrefixOf (option ++ rest)) = some option := by
  unfold joinedPathOptions at h
  simp only [mem_cons, not_mem_nil, or_false] at h
  rcases h with rfl | rfl | rfl | rfl | rfl | rfl | rfl | rfl | rfl | rfl | rfl <;> rfl

theorem splitArgument_of_shape {split : SplitArgument} (h : ArgumentShape value split) :
    splitArgument value = split := by
  unfold splitArgument
  dsimp only
  cases h with
  | @quoted key reference quote hKey hDash hQuote hValue =>
    have hKeyed : value.head? = some 0x2d ∧ 0x3d ∈ value := by
      rw [hValue, head?_append, hDash]
      exact ⟨rfl, by simp⟩
    rw [if_pos hKeyed, hValue, takeWhile_key hKey, drop_key, if_pos (isQuoted_iff.mpr ⟨quote, reference,
      hQuote, rfl⟩)]
    simp
  | @keyed key reference hKey hDash hQuote hValue =>
    have hKeyed : value.head? = some 0x2d ∧ 0x3d ∈ value := by
      rw [hValue, head?_append, hDash]
      exact ⟨rfl, by simp⟩
    rw [if_pos hKeyed, hValue, takeWhile_key hKey, drop_key, if_neg (Bool.eq_false_iff.mp hQuote)]
  | @joined option reference hOption hKey hValue =>
    have hFound := find?_option hOption reference
    have hNotKeyed : ¬(value.head? = some 0x2d ∧ 0x3d ∈ value) := by
      rintro ⟨hDash, hEquals⟩
      have hOptions : ∀ option ∈ joinedPathOptions, option ≠ [] ∧ 0x3d ∉ option := by decide
      obtain ⟨hNe, hNone⟩ := hOptions option hOption
      rw [hValue, head?_append_of_ne_nil _ hNe] at hDash
      rw [hValue] at hEquals
      exact (mem_append.mp hEquals).elim hNone (hKey hDash)
    rw [if_neg hNotKeyed, hValue, hFound]
    dsimp only
    rw [drop_left]
  | plain hKey hOption => rw [if_neg hKey, hOption]

def Fits (reference t : Text) : Prop := t = reference ∨ (t.head? = some 0x24 ∧ (0x3d ∈ t → 0x3d ∈ reference))

theorem splitArgument_fill (value : Text) {t : Text} (hFits : Fits (splitArgument value).reference t) :
    splitArgument ((splitArgument value).fill t) = { splitArgument value with reference := t } := by
  refine splitArgument_of_shape ?_
  have hEqualsSign : py "=" = [0x3d] := rfl
  have hPlain (h : t.head? = some 0x24) : isQuoted t = false := by
    refine Bool.eq_false_iff.mpr fun hQuoted => ?_
    obtain ⟨quote, reference, hQuote, rfl⟩ := isQuoted_iff.mp hQuoted
    obtain rfl := some.inj h
    exact absurd hQuote (by decide)
  cases hSplit : splitArgument value with
  | mk front reference back =>
    have hShape := argumentShape value
    rw [hSplit] at hShape hFits
    cases hShape with
    | @quoted key _ quote hKey hDash hQuote hValue =>
      exact .quoted hKey hDash hQuote (by simp [fill, hEqualsSign])
    | @keyed key _ hKey hDash hQuote hValue =>
      refine .keyed hKey hDash ?_ (by simp [fill, hEqualsSign])
      rcases hFits with rfl | ⟨hHead, -⟩
      · exact hQuote
      · exact hPlain hHead
    | joined hOption hKey hValue =>
      refine .joined hOption (fun hDash hMem => hKey hDash ?_) (by simp [fill])
      rcases hFits with rfl | ⟨-, hEquals⟩
      · exact hMem
      · exact hEquals hMem
    | plain hKey hOption =>
      rw [fill, nil_append, append_nil]
      rcases hFits with rfl | ⟨hHead, -⟩
      · exact .plain hKey hOption
      · cases t with
        | nil => cases hHead
        | cons c rest =>
          obtain rfl := some.inj hHead
          exact .plain (fun h => absurd (some.inj h.1) (by decide)) rfl

theorem mem_of_mem_placeText (h : referenceOf root value = .inside place)
    (hEquals : 0x3d ∈ placeText place) : 0x3d ∈ value := by
  have hPlaceholder : (0x3d : CodePoint) ∉ workspacePlaceholder ++ py "/" := by decide
  have hRelative := referenceOf_inside h
  unfold referenceOf at h
  dsimp only at h
  rw [parse_normpath] at h
  split at h
  · cases h
  · split at h
    · cases h
    · rename_i hPlace
      cases h
      have hNames : place.names ⊆ (normalPath value).names := by
        unfold relativeTo at hPlace
        split at hPlace
        · cases hPlace
          exact drop_subset _ _
        · cases hPlace
      unfold placeText at hEquals
      split at hEquals
      · exact absurd (mem_append_left _ hEquals) hPlaceholder
      · rename_i hSome
        have hPosix := (mem_append.mp hEquals).resolve_left hPlaceholder
        have hText : place.asPosix = join (py "/") place.names := by
          rw [asPosix, if_neg fun hDot => hSome hDot.2, hRelative]
          rfl
        rw [hText] at hPosix
        by_contra hNone
        have hSlash : ∀ c ∈ py "/", c ≠ 0x3d := forall_mem_singleton.mpr (by decide)
        refine (Json.forall_join_iff hSlash _).mpr (fun name hName c hc hSame => ?_) _ hPosix rfl
        exact hNone (hSame ▸ mem_of_mem_names (hNames hName) hc)

theorem fits_relative (value : Text) (root : Option PurePath) : Fits value (relative value root) := by
  cases root with
  | none => exact .inl rfl
  | some root =>
    cases hReference : referenceOf root value with
    | inside place =>
      have hText : relative value (some root) = placeText place := by
        rw [relative, workspaceReference, hReference]
        rfl
      rw [hText]
      refine .inr ⟨?_, mem_of_mem_placeText hReference⟩
      unfold placeText
      split <;> rfl
    | verbatim t =>
      refine .inl ?_
      rw [relative, workspaceReference, hReference]
      unfold referenceOf at hReference
      dsimp only at hReference
      split at hReference
      · cases hReference
        rfl
      · split at hReference
        · cases hReference
          rfl
        · cases hReference

structure SameArgument (root root' : PurePath) (value value' : Text) : Prop where
  front : (splitArgument value).front = (splitArgument value').front
  reference : SameReference root root' (splitArgument value).reference (splitArgument value').reference
  back : (splitArgument value).back = (splitArgument value').back

theorem relocateArgument_eq_iff :
    relocateArgument value root = relocateArgument value' root' ↔ SameArgument root root' value value' := by
  rw [relocateArgument_eq, relocateArgument_eq]
  constructor
  · intro h
    have hSplit := congrArg splitArgument h
    rw [splitArgument_fill _ (fits_relative _ _), splitArgument_fill _ (fits_relative _ _)] at hSplit
    obtain ⟨hFront, hReference, hBack⟩ := mk.inj hSplit
    exact ⟨hFront, workspaceReference_eq_iff.mp hReference, hBack⟩
  · intro h
    have hReference : relative (splitArgument value).reference (some root) =
        relative (splitArgument value').reference (some root') := workspaceReference_eq_iff.mpr h.reference
    rw [fill, fill, h.front, h.back, hReference]

theorem map_eq_map_iff_forall₂ {α β γ : Type*} {f : α → γ} {g : β → γ} {items : List α} {items' : List β} :
    items.map f = items'.map g ↔ List.Forall₂ (fun a b => f a = g b) items items' := by
  rw [← forall₂_eq_eq_eq, forall₂_map_left_iff, forall₂_map_right_iff]

structure SameInvocation (root root' : PurePath) (argv argv' : List Text) (cwd cwd' : PurePath) : Prop where
  argv : List.Forall₂ (SameArgument root root') argv argv'
  cwd : SameReference root root' cwd.asPosix cwd'.asPosix

theorem invocationIdentity_eq_iff {root root' : PurePath} {argv argv' : List Text} {cwd cwd' : PurePath} :
    invocationIdentity argv (some cwd) root = invocationIdentity argv' (some cwd') root' ↔
      SameInvocation root root' argv argv' cwd cwd' := by
  unfold invocationIdentity
  rw [Prod.mk.injEq, map_some, map_some, some.injEq]
  constructor
  · rintro ⟨hCwd, hArgv⟩
    rw [map_eq_map_iff_forall₂] at hArgv
    exact ⟨hArgv.imp fun _ _ => relocateArgument_eq_iff.mp, workspaceReference_eq_iff.mp hCwd⟩
  · rintro ⟨hArgv, hCwd⟩
    refine ⟨workspaceReference_eq_iff.mpr hCwd, map_eq_map_iff_forall₂.mpr ?_⟩
    exact hArgv.imp fun _ _ => relocateArgument_eq_iff.mpr

end Ici
