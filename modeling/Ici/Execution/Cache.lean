import Ici.Domain.FindingRoundTrip
import Ici.Library.Lines

/-! # The observation cache

What is stored is the observation, never the verdict. Here a lookup is whatever the scheduler is
told it found, and a write is the bytes it publishes. -/

namespace Ici

open List Raising Python

structure CacheRead where
  hit : Bool
  reason : Text
  observation : Option Observation := none
  sourceRun : Text := []

def cacheSchema : Text := py "ici.next.observation-cache/v1"

/-- `hashlib.sha256(...).hexdigest()` of some bytes. -/
abbrev Sha256 := List UInt8 → Text

def digest (sha256 : Sha256) (payload : Json) : Result Text := do
  let bytes ← dumps payload >>= utf8
  return sha256 bytes

/-- The entry `write` publishes, if the evidence is a finished answer. -/
def ObservationCache.write (sha256 : Sha256) (stored : UInt64) (runId key : Text)
    (observation : Observation) : Result (Option (List UInt8)) :=
  if !observation.evidenceIsComplete then .ok none
  else do
    let observationData := observationToDict observation
    let integrity ← digest sha256 observationData
    let body := Json.obj [(py "schema", .str cacheSchema), (py "identity", .str key),
      (py "run", .str runId), (py "stored", .int stored.toNat), (py "integrity", .str integrity),
      (py "observation", observationData)]
    let bytes ← Json.encode {} body >>= utf8
    return some bytes

theorem defaultStyle_admits : ({} : Json.Style).Admits fun c => 0x20 ≤ c.val ∧ c.val < 0x80 where
  plain _ hc := hc
  item := (by decide : IsPlain (py ", "))
  key := (by decide : IsPlain (py ": "))

theorem fitsDigitLimit_of_lt {n : ℕ} (h : n < 2 ^ 64) : FitsDigitLimit n := by
  have hLength : (Nat.toDigits 10 n).length ≤ 4300 := by
    refine le_trans ((Nat.length_toDigits_le_iff (b := 10) (k := 20) (by omega) (by omega)).mpr ?_)
      (by omega)
    omega
  simpa [FitsDigitLimit, natDigits, maxStrDigits] using hLength

theorem exists_entry {payload : Json} (h : HasBytes payload) (stored : UInt64) (runId key integrity : Text) :
    ∃ bytes, (Json.encode {} (.obj [(py "schema", .str cacheSchema), (py "identity", .str key),
      (py "run", .str runId), (py "stored", .int stored.toNat), (py "integrity", .str integrity),
      (py "observation", payload)]) >>= utf8) = .ok bytes := by
  have hPrintable : ∀ leaf ∈ payload.leaves, leaf.IsPrintable {} := by
    intro leaf hLeaf
    have hCodec := (h leaf hLeaf).1
    cases leaf with
    | int value => exact hCodec
    | float value => exact .inr rfl
    | text value => trivial
  have hStored : FitsDigitLimit stored.toNat := fitsDigitLimit_of_lt stored.toNat_lt
  obtain ⟨t, ht⟩ := (Json.exists_encode_iff {} (.obj [(py "schema", .str cacheSchema),
      (py "identity", .str key), (py "run", .str runId), (py "stored", .int stored.toNat),
      (py "integrity", .str integrity), (py "observation", payload)])).mpr (by
    simp only [Json.leaves, Json.leavesOfFields, cons_append, nil_append, append_nil, forall_mem_cons]
    exact ⟨trivial, trivial, trivial, trivial, trivial, trivial, trivial, hStored, trivial, trivial,
      trivial, hPrintable⟩)
  obtain ⟨bytes, hBytes⟩ := exists_utf8_iff.mpr
    (Json.isPlain_encode rfl defaultStyle_admits ht).noSurrogate
  exact ⟨bytes, bind_eq_ok.mpr ⟨t, ht, hBytes⟩⟩

theorem exists_write_iff {sha256 : Sha256} {stored : UInt64} {runId key : Text}
    {observation : Observation} (hComplete : observation.evidenceIsComplete = true) :
    (∃ entry, ObservationCache.write sha256 stored runId key observation = .ok entry) ↔
      HasBytes (observationToDict observation) := by
  unfold ObservationCache.write
  rw [hComplete]
  simp only [Bool.not_true, Bool.false_eq_true, if_false]
  constructor
  · rintro ⟨entry, h⟩
    obtain ⟨integrity, hIntegrity, -⟩ := bind_eq_ok.mp h
    obtain ⟨bytes, hBytes, -⟩ := bind_eq_ok.mp hIntegrity
    exact exists_bytes_iff.mp ⟨bytes, hBytes⟩
  · intro hHas
    obtain ⟨bytes, hBytes⟩ := exists_bytes_iff.mpr hHas
    obtain ⟨entry, hEntry⟩ := exists_entry hHas stored runId key (sha256 bytes)
    exact ⟨some entry, bind_eq_ok.mpr ⟨sha256 bytes,
      bind_eq_ok.mpr ⟨bytes, hBytes, rfl⟩, bind_eq_ok.mpr ⟨entry, hEntry, rfl⟩⟩⟩

end Ici

/-! ## The directory of the observation cache

One file per key. An operation on a file is taken to succeed, and the lock file is not listed. -/

namespace Ici

open Python

structure CacheFile where
  name : Text
  modified : ℤ
  content : List UInt8

structure CacheDirectory where
  files : List CacheFile
  maxEntries : ℕ
  nodup_names : (files.map CacheFile.name).Nodup
  max_pos : 1 ≤ maxEntries

def isHexChar (c : CodePoint) : Bool :=
  (0x30 ≤ c.val && c.val ≤ 0x39) || (0x61 ≤ c.val && c.val ≤ 0x66)

abbrev HexText := { t : Text // ∀ c ∈ t, isHexChar c = true }

namespace CacheDirectory

/-- `_entry`: a key is never a path. -/
def entryName (key : Text) : Text :=
  let safe := key.filter isHexChar
  (if safe = [] then py "empty" else safe) ++ py ".json"

section

variable (cache : CacheDirectory)

def content? (name : Text) : Option (List UInt8) :=
  (cache.files.find? (·.name = name)).map CacheFile.content

def evictOne (name : Text) : CacheDirectory where
  files := cache.files.filter (·.name ≠ name)
  maxEntries := cache.maxEntries
  nodup_names := cache.nodup_names.sublist (List.filter_sublist.map _)
  max_pos := cache.max_pos

def oldest : List CacheFile :=
  (cache.files.insertionSort (·.modified ≤ ·.modified)).take (cache.files.length - cache.maxEntries)

def evict : CacheDirectory where
  files := cache.files.filter fun file => file.name ∉ cache.oldest.map CacheFile.name
  maxEntries := cache.maxEntries
  nodup_names := cache.nodup_names.sublist (List.filter_sublist.map _)
  max_pos := cache.max_pos

def others (name : Text) : List CacheFile :=
  cache.files.filter (·.name ≠ name)

/-- `_atomic_write`; the directory lists the file wherever it likes. -/
def publish (place : ℕ) (file : CacheFile) : CacheDirectory where
  files := (cache.others file.name).take place ++ file :: (cache.others file.name).drop place
  maxEntries := cache.maxEntries
  nodup_names := by
    have hOthers : ((cache.others file.name).map CacheFile.name).Nodup :=
      cache.nodup_names.sublist (List.filter_sublist.map _)
    have hNew : file.name ∉ (cache.others file.name).map CacheFile.name := by
      intro hMem
      obtain ⟨other, hOther, hName⟩ := List.mem_map.mp hMem
      exact of_decide_eq_true (List.mem_filter.mp hOther).2 hName
    have hPerm : ((cache.others file.name).take place ++ file ::
        (cache.others file.name).drop place).Perm (file :: cache.others file.name) := by
      refine List.perm_middle.trans ?_
      rw [List.take_append_drop]
    exact (hPerm.map CacheFile.name).nodup_iff.mpr (List.nodup_cons.mpr ⟨hNew, hOthers⟩)
  max_pos := cache.max_pos

end

/-- `write` at some time: what is not a finished answer is not stored. -/
def write (sha256 : Sha256) (cache : CacheDirectory) (place : ℕ) (modified : ℤ) (stored : UInt64)
    (runId key : Text) (observation : Observation) : Result CacheDirectory := do
  match ← ObservationCache.write sha256 stored runId key observation with
  | none => return cache
  | some content => return (cache.publish place ⟨entryName key, modified, content⟩).evict

end CacheDirectory

/-- `value == t` for a string `t`. -/
def equalsText (value : Json) (t : Text) : Bool :=
  match value with
  | .str found => found = t
  | _ => false

/-- `json.loads(entry.read_text(encoding="utf-8"))`. -/
def entryDocument (nesting : Nesting) (content : List UInt8) : Result Json := do
  let text ← decodeUtf8 content
  Json.loads nesting.limit (universalNewlines text)

def strValue : Json → Result Text
  | .str t => .ok t
  | other => reprValue other

section

variable (nesting : Nesting) (sha256 : Sha256)

/-- The body of the `try`: the reason why a readable entry is not adopted, or its evidence. -/
def openEntry (key : Text) (content : List UInt8) : Result (Text ⊕ Observation × Json) := do
  let payload ← entryDocument nesting content
  match payload with
  | .obj data =>
    if !equalsText (getValue data (py "schema")) cacheSchema then
      .error (valueError (py "unrecognised cache entry schema"))
    else if !equalsText (getValue data (py "identity")) key then
      return .inl (py "stored identity does not match")
    else match getValue data (py "observation") with
      | .obj observationData =>
        match getValue data (py "integrity") with
        | .str integrity => do
          let found ← digest sha256 (.obj observationData)
          if found ≠ integrity then return .inl (py "stored result was modified")
          else do
            let observation ← observationFromDict builtin (.obj observationData)
            return .inr (observation, getOr data (py "run") (.str []))
        | _ => return .inl (py "stored result carries no integrity digest")
      | _ => .error (valueError (py "stored result has no observation"))
  | _ => .error (valueError (py "unrecognised cache entry schema"))

/-- What `read` finds in a file: an entry it does not adopt is evicted, which is not shown here. -/
def readEntry (key : Text) (content : List UInt8) : Result CacheRead :=
  match openEntry nesting sha256 key content with
  | .ok (.inl reason) => .ok { hit := false, reason }
  | .ok (.inr (observation, run)) => do
    let sourceRun ← strValue run
    return { hit := true
             reason := py "reused a verified stored result"
             observation := some observation
             sourceRun }
  | .error e =>
    if isValueError e then
      .ok { hit := false, reason := py "stored result is not readable: " ++ e.text }
    else .error e

def CacheDirectory.read (cache : CacheDirectory) (key : Text) : Result (CacheRead × CacheDirectory) :=
  match cache.content? (entryName key) with
  | none => .ok ({ hit := false, reason := py "no stored result for these inputs" }, cache)
  | some content => do
    let found ← readEntry nesting sha256 key content
    return (found, if found.hit then cache else cache.evictOne (entryName key))

end

end Ici
