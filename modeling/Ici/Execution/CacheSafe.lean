import Ici.Domain.StrictReading
import Ici.Execution.Cache

/-! # What a file in the cache can do to a reader -/

namespace Ici

open Python Raising Guarding

def usable : Coercions where
  items value := match value with
    | .arr _ => builtin.items value
    | .str _ => builtin.items value
    | .obj _ => builtin.items value
    | _ => .error stopped
  flag := builtin.flag
  orEmpty := builtin.orEmpty
  number := declared.number

def isUncaught (e : PyError) : Prop := e.name = py "TypeError" ∨ e.name = py "OverflowError"

abbrev uncaught : Guarding PyError := guarding isUncaught False (fun _ => False) not_false

theorem usable_guards_builtin : Coercions.Guards uncaught usable builtin where
  items value := by
    have hStop (name : Text) : uncaught.Follows (.error stopped : Result (List Json))
        (.error (typeError ([0x27] ++ name ++ py "' object is not iterable"))) :=
      .stop (.inr ⟨_, .inl rfl, rfl⟩)
    cases value with
    | arr items => exact follows_refl (.ok items)
    | str t | obj fields => exact follows_refl (.ok _)
    | null | bool value | int n | float x => exact hStop _
  flag value := follows_refl (.ok _)
  orEmpty value := follows_refl (.ok _)
  number n := by
    change uncaught.Follows
      (if (Double.ofRat n).val.isFinite then .ok (Double.ofRat n) else .error stopped) (floatOf n)
    unfold floatOf
    split
    · exact follows_refl (.ok _)
    · exact .stop (.inr ⟨overflowError (py "int too large to convert to float"), .inr rfl, rfl⟩)

theorem not_isValueError_uncaught {e : PyError} (h : isUncaught e) : isValueError e = false := by
  unfold isValueError
  rcases h with hName | hName <;>
  · rw [hName]
    decide

/-- An observation that does not stop is decoded or refused by a `ValueError`. -/
theorem raises_of_usable {payload : Json} (hUsable : observationFromDict usable payload ≠ .error stopped) :
    RaisesValueError (observationFromDict builtin payload) := by
  have hFollows := observationFromDict_follows usable_guards_builtin payload
  rw [← hFollows.eq_of_ne hUsable]
  intro e hError
  rcases hFollows.raises e hError with (hValue | hNone) | hStop
  · exact hValue
  · exact hNone.elim
  · rw [hStop] at hError
    exact absurd hError hUsable

theorem uncaught_of_not_usable {payload : Json}
    (hStop : observationFromDict usable payload = .error stopped) :
    ∃ e, isUncaught e ∧ observationFromDict builtin payload = .error e := by
  have hFollows := observationFromDict_follows usable_guards_builtin payload
  exact (hFollows.of_stop hStop).resolve_left id

/-- A document that `read` adopts for a key, up to what its observation decodes to. -/
structure IsEntry (sha256 : Sha256) (key : Text) (data observationData : Dict Text Json) : Prop where
  schema : getValue data (py "schema") = .str cacheSchema
  identity : getValue data (py "identity") = .str key
  observation : getValue data (py "observation") = .obj observationData
  integrity : ∃ found, getValue data (py "integrity") = .str found ∧
    digest sha256 (.obj observationData) = .ok found

theorem equalsText_iff {value : Json} {t : Text} : equalsText value t = true ↔ value = .str t := by
  cases value <;> simp [equalsText]

theorem raises_digest (sha256 : Sha256) (payload : Json) : RaisesValueError (digest sha256 payload) :=
  ((raises_encode _ payload).bind fun t => raises_utf8 t).bind fun _ => .ok _

section Entries

variable {nesting : Nesting} {sha256 : Sha256} {key : Text} {content : List UInt8}

variable {data observationData : Dict Text Json} {e : PyError}

theorem openEntry_of_isEntry (hDocument : entryDocument nesting content = .ok (.obj data))
    (hEntry : IsEntry sha256 key data observationData) :
    openEntry nesting sha256 key content = (observationFromDict builtin (.obj observationData)).map
      fun observation => .inr (observation, getOr data (py "run") (.str [])) := by
  obtain ⟨hSchema, hIdentity, hObservation, found, hFound, hDigest⟩ := hEntry
  unfold openEntry
  rw [hDocument]
  change (if !equalsText (getValue data (py "schema")) cacheSchema then _ else _) = _
  rw [if_neg (by simp [equalsText_iff.mpr hSchema]), if_neg (by simp [equalsText_iff.mpr hIdentity]),
    hObservation, hFound]
  change (digest sha256 (.obj observationData) >>= _) = _
  rw [hDigest]
  change (if found ≠ found then _ else _) = _
  rw [if_neg (not_not.mpr rfl)]
  cases observationFromDict builtin (.obj observationData) <;> rfl

theorem openEntry_of_not_isEntry (hDocument : entryDocument nesting content = .ok (.obj data))
    (hNot : ∀ observationData, ¬IsEntry sha256 key data observationData) :
    (∃ reason, reason ≠ [] ∧ openEntry nesting sha256 key content = .ok (.inl reason)) ∨
      ∃ e, isValueError e = true ∧ openEntry nesting sha256 key content = .error e := by
  unfold openEntry
  rw [hDocument]
  change (∃ reason, reason ≠ [] ∧ (if !equalsText (getValue data (py "schema")) cacheSchema then _
    else _) = _) ∨ ∃ e, isValueError e = true ∧
      (if !equalsText (getValue data (py "schema")) cacheSchema then _ else _) = _
  split
  · exact .inr ⟨_, rfl, rfl⟩
  rename_i hSchema
  rw [Bool.not_eq_true', Bool.not_eq_false, equalsText_iff] at hSchema
  split
  · exact .inl ⟨_, by decide, rfl⟩
  rename_i hIdentity
  rw [Bool.not_eq_true', Bool.not_eq_false, equalsText_iff] at hIdentity
  split
  · rename_i observationData hObservation
    split
    · rename_i integrity hIntegrity
      cases hDigest : digest sha256 (.obj observationData) with
      | error e => exact .inr ⟨e, raises_digest _ _ e hDigest, rfl⟩
      | ok found =>
        by_cases hSame : found = integrity
        · subst hSame
          exact absurd ⟨hSchema, hIdentity, hObservation, found, hIntegrity, hDigest⟩
            (hNot observationData)
        · exact .inl ⟨py "stored result was modified", by decide, if_pos hSame⟩
    · exact .inl ⟨_, by decide, rfl⟩
  · exact .inr ⟨_, rfl, rfl⟩

theorem openEntry_of_not_object {document : Json} (hNot : ∀ data, document ≠ .obj data)
    (hDocument : entryDocument nesting content = .ok document) :
    ∃ e, isValueError e = true ∧ openEntry nesting sha256 key content = .error e := by
  unfold openEntry
  rw [hDocument]
  cases document with
  | obj data => exact absurd rfl (hNot data)
  | _ => exact ⟨_, rfl, rfl⟩

/-- Reading a document fails by a `ValueError`, or the recursion allowance is exhausted. -/
theorem entryDocument_yields (nesting : Nesting) (content : List UInt8) :
    Yields Json.IsShown (fun e => isValueError e = true ∨ e = Json.recursionError)
      (entryDocument nesting content) := by
  unfold entryDocument
  cases hText : decodeUtf8 content with
  | error e => exact .inl (raises_decodeFrom .between content e hText)
  | ok text => exact yields_loads _ _

/-! ## Reading -/

def IsVerdict (nesting : Nesting) (sha256 : Sha256) (key : Text) (content : List UInt8)
    (found : CacheRead) : Prop :=
  (found.hit = false ∧ found.reason ≠ [] ∧ found.observation = none) ∨
    found.hit = true ∧ ∃ data observationData observation,
      entryDocument nesting content = .ok (.obj data) ∧ IsEntry sha256 key data observationData ∧
      observationFromDict builtin (.obj observationData) = .ok observation ∧
      found.observation = some observation

/-- `json.loads` does not exhaust the recursion allowance, and the observation of an entry that is
otherwise adopted iterates over nothing but arrays, strings and objects, and has no integer too
large for a float where it has a number. -/
def EntryIsSafe (nesting : Nesting) (sha256 : Sha256) (key : Text) (content : List UInt8) : Prop :=
  entryDocument nesting content ≠ .error Json.recursionError ∧
    ∀ data observationData, entryDocument nesting content = .ok (.obj data) →
      IsEntry sha256 key data observationData →
      observationFromDict usable (.obj observationData) ≠ .error stopped

theorem exists_strValue {value : Json} (h : Json.IsShown value) : ∃ t, strValue value = .ok t := by
  obtain ⟨t, hRepr⟩ := (exists_reprValue_iff value).mpr h
  cases value with
  | str t => exact ⟨t, rfl⟩
  | _ => exact ⟨t, hRepr⟩

theorem isShown_getOr (h : Json.IsShown (.obj data)) (name : Text) :
    Json.IsShown (getOr data name (.str [])) := by
  unfold getOr
  cases hGet : data.get? name with
  | none => exact List.forall_mem_singleton.mpr trivial
  | some value => exact Json.isShown_obj_iff.mp h _ (Dict.mem_of_get? hGet)

theorem readEntry_of_error (hValue : isValueError e = true)
    (hOpen : openEntry nesting sha256 key content = .error e) :
    ∃ found, readEntry nesting sha256 key content = .ok found ∧
      IsVerdict nesting sha256 key content found := by
  unfold readEntry
  rw [hOpen]
  refine ⟨_, if_pos hValue, .inl ⟨rfl, ?_, rfl⟩⟩
  exact List.append_ne_nil_of_left_ne_nil (by decide) _

theorem readEntry_of_isEntry {observation : Observation}
    (hDocument : entryDocument nesting content = .ok (.obj data))
    (hEntry : IsEntry sha256 key data observationData)
    (hDecoded : observationFromDict builtin (.obj observationData) = .ok observation) :
    ∃ found, readEntry nesting sha256 key content = .ok found ∧ found.hit = true ∧
      found.observation = some observation := by
  have hYields := entryDocument_yields nesting content
  rw [hDocument] at hYields
  obtain ⟨run, hRun⟩ := exists_strValue (isShown_getOr hYields (py "run"))
  unfold readEntry
  rw [openEntry_of_isEntry hDocument hEntry, hDecoded]
  dsimp only [Except.map]
  rw [hRun]
  exact ⟨_, rfl, rfl, rfl⟩

theorem readEntry_of_safe (h : EntryIsSafe nesting sha256 key content) :
    ∃ found, readEntry nesting sha256 key content = .ok found ∧
      IsVerdict nesting sha256 key content found := by
  have hYields := entryDocument_yields nesting content
  cases hDocument : entryDocument nesting content with
  | error e =>
    rw [hDocument] at hYields
    have hOpen : openEntry nesting sha256 key content = .error e := by
      unfold openEntry
      rw [hDocument]
      rfl
    rcases hYields with hValue | rfl
    · exact readEntry_of_error hValue hOpen
    · exact absurd hDocument h.1
  | ok document =>
    by_cases hObject : ∃ data, document = .obj data
    · obtain ⟨data, rfl⟩ := hObject
      by_cases hEntry : ∃ observationData, IsEntry sha256 key data observationData
      · obtain ⟨observationData, hEntry⟩ := hEntry
        have hRaises := raises_of_usable (h.2 data observationData hDocument hEntry)
        cases hDecoded : observationFromDict builtin (.obj observationData) with
        | error e =>
          refine readEntry_of_error (hRaises e hDecoded) ?_
          rw [openEntry_of_isEntry hDocument hEntry, hDecoded]
          rfl
        | ok observation =>
          obtain ⟨found, hFound, hHit, hHeld⟩ := readEntry_of_isEntry hDocument hEntry hDecoded
          exact ⟨found, hFound, .inr ⟨hHit, data, observationData, observation, hDocument, hEntry,
            hDecoded, hHeld⟩⟩
      · rcases openEntry_of_not_isEntry hDocument (not_exists.mp hEntry) with
          ⟨reason, hReason, hOpen⟩ | ⟨e, hValue, hOpen⟩
        · unfold readEntry
          rw [hOpen]
          exact ⟨_, rfl, .inl ⟨rfl, hReason, rfl⟩⟩
        · exact readEntry_of_error hValue hOpen
    · obtain ⟨e, hValue, hOpen⟩ :=
        openEntry_of_not_object (fun data hEq => hObject ⟨data, hEq⟩) hDocument
      exact readEntry_of_error hValue hOpen

theorem readEntry_error (hValue : isValueError e = false)
    (hOpen : openEntry nesting sha256 key content = .error e) :
    readEntry nesting sha256 key content = .error e := by
  unfold readEntry
  rw [hOpen]
  exact if_neg (Bool.eq_false_iff.mp hValue)

theorem safe_of_readEntry {found : CacheRead} (hFound : readEntry nesting sha256 key content = .ok found) :
    EntryIsSafe nesting sha256 key content := by
  refine ⟨fun hRecursion => ?_, fun data observationData hDocument hEntry hStop => ?_⟩
  · have hOpen : openEntry nesting sha256 key content = .error Json.recursionError := by
      unfold openEntry
      rw [hRecursion]
      rfl
    rw [readEntry_error rfl hOpen] at hFound
    cases hFound
  · obtain ⟨e, hUncaught, hDecoded⟩ := uncaught_of_not_usable hStop
    have hOpen : openEntry nesting sha256 key content = .error e := by
      rw [openEntry_of_isEntry hDocument hEntry, hDecoded]
      rfl
    rw [readEntry_error (not_isValueError_uncaught hUncaught) hOpen] at hFound
    cases hFound

/-- `read` returns a miss with a reason, or a hit whose entry is the key's own. -/
def CacheDirectory.ReadsSafely (nesting : Nesting) (sha256 : Sha256) (cache : CacheDirectory)
    (key : Text) : Prop :=
  ∃ found left, cache.read nesting sha256 key = .ok (found, left) ∧
    match cache.content? (entryName key) with
    | none => found.hit = false ∧ found.reason ≠ []
    | some content => IsVerdict nesting sha256 key content found

theorem CacheDirectory.readsSafely_iff_safe (cache : CacheDirectory) : cache.ReadsSafely nesting sha256 key ↔
      ∀ content, cache.content? (entryName key) = some content →
        EntryIsSafe nesting sha256 key content := by
  unfold ReadsSafely read
  cases cache.content? (entryName key) with
  | none => exact iff_of_true ⟨_, _, rfl, rfl, by decide⟩ fun _ h => nomatch h
  | some content =>
    dsimp only
    constructor
    · rintro ⟨found, left, hRead, -⟩ other hOther
      obtain rfl := Option.some.inj hOther
      obtain ⟨found', hFound, -⟩ := bind_eq_ok.mp hRead
      exact safe_of_readEntry hFound
    · intro h
      obtain ⟨found, hFound, hVerdict⟩ := readEntry_of_safe (h content rfl)
      exact ⟨found, _, step hFound rfl, hVerdict⟩

end Entries

end Ici
