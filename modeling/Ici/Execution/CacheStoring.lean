import Ici.Domain.ResultCodec
import Ici.Execution.CacheSafe
import Ici.Library.Arrangement

/-! # What the cache keeps of an observation -/

namespace Ici

open List Raising Python Json Json

theorem readsWithin_observation {observation : Observation}
    (hMeasurements : ∀ measurement ∈ observation.val.measurements,
      measurement.val.value.val.isFinite = true)
    (hDuration : ∀ value ∈ observation.val.durationSeconds, value.val.isFinite = true) :
    ReadsWithin 5 (observationToDict observation) := by
  have hFindings : ∀ item ∈ observation.val.findings.map findingToDict, ReadsWithin 3 item :=
    forall_mem_map.mpr fun finding _ => readsWithin_finding finding
  have hMetrics : ∀ item ∈ observation.val.measurements.map measurementToDict, ReadsWithin 1 item :=
    forall_mem_map.mpr fun measurement hMem =>
      readsWithin_measurement (hMeasurements measurement hMem)
  have hVersions : ∀ item ∈ observation.val.toolVersions.map toolVersionToDict, ReadsWithin 1 item :=
    forall_mem_map.mpr fun item _ => .arr (forall_mem_cons.mpr
      ⟨.str _, forall_mem_singleton.mpr (.str _)⟩)
  have hFlag (name : Text) (value : Bool) : ∀ field ∈ flagged name value, ReadsWithin 4 field.2 := by
    cases value with
    | true => exact forall_mem_singleton.mpr (.bool true)
    | false => exact forall_mem_nil _
  refine ReadsWithin.obj (nodup_observationFields observation) ?_
  simp only [forall_mem_append, forall_mem_cons]
  refine ⟨⟨⟨⟨⟨⟨⟨⟨⟨⟨.str _, .str _, .str _, forall_mem_nil _⟩, ?_⟩, ?_⟩, ?_⟩, ?_⟩, ?_⟩, ?_⟩, ?_⟩, ?_⟩, ?_⟩
  · exact .of_listed hFindings _
  · exact fun field hField => (ReadsWithin.of_listed hMetrics _ field hField).mono.mono
  · exact .of_optionalInt _ _
  · exact .of_optionalText _ _
  · exact .of_optional (fun value hValue => .float (hDuration value hValue)) _
  · exact hFlag _ _
  · exact hFlag _ _
  · exact fun field hField => (ReadsWithin.of_listed hVersions _ field hField).mono.mono
  · exact .of_listedTexts _ _

theorem finite_of_hasBytes {observation : Observation} (h : HasBytes (observationToDict observation)) :
    (∀ measurement ∈ observation.val.measurements, measurement.val.value.val.isFinite = true) ∧
      ∀ value ∈ observation.val.durationSeconds, value.val.isFinite = true := by
  have hPrintable : Printable (observationToDict observation) := fun leaf hLeaf => (h leaf hLeaf).1
  rw [observationToDict_eq, printable_obj_iff] at hPrintable
  simp only [observationFields, forall_mem_append, forall_listed_iff, forall_optional_iff,
    printable_arr_iff, forall_mem_map] at hPrintable
  obtain ⟨⟨⟨⟨⟨⟨⟨⟨-, hMetrics⟩, -⟩, -⟩, hDuration⟩, -⟩, -⟩, -⟩, -⟩ := hPrintable
  constructor
  · intro measurement hMem
    have hSome : observation.val.measurements.map measurementToDict ≠ [] :=
      ne_nil_of_mem (mem_map_of_mem hMem)
    exact ((printable_measurement_iff measurement).mp (hMetrics hSome measurement hMem)).1
  · intro value hValue
    exact (printable_float_iff value).mp (hDuration (.float value) (by rw [hValue]; rfl))

/-! ## The entry -/

section

variable (stored : UInt64) (runId key integrity : Text) (observation : Observation)

/-- The document `write` publishes. -/
def entryFields : Dict Text Json :=
  [(py "schema", .str cacheSchema), (py "identity", .str key), (py "run", .str runId),
    (py "stored", .int stored.toNat), (py "integrity", .str integrity),
    (py "observation", observationToDict observation)]

theorem nodup_entryFields : (entryFields stored runId key integrity observation).keys.Nodup :=
  (by decide : [py "schema", py "identity", py "run", py "stored", py "integrity",
    py "observation"].Nodup)

end

theorem write_eq_some {sha256 : Sha256} {stored : UInt64} {runId key : Text}
    {observation : Observation} {entry : Option (List UInt8)}
    (hComplete : observation.evidenceIsComplete = true)
    (h : ObservationCache.write sha256 stored runId key observation = .ok entry) :
    ∃ integrity text content, entry = some content ∧
      digest sha256 (observationToDict observation) = .ok integrity ∧
      encode {} (.obj (entryFields stored runId key integrity observation)) = .ok text ∧
      utf8 text = .ok content := by
  unfold ObservationCache.write at h
  rw [hComplete] at h
  simp only [Bool.not_true, Bool.false_eq_true, if_false] at h
  obtain ⟨integrity, hDigest, h⟩ := bind_eq_ok.mp h
  obtain ⟨content, hBytes, h⟩ := bind_eq_ok.mp h
  obtain ⟨text, hText, hContent⟩ := bind_eq_ok.mp hBytes
  exact ⟨integrity, text, content, (Except.ok.inj h).symm, hDigest, hText, hContent⟩

theorem isLegible_default : ({} : Json.Style).IsLegible where
  item := ⟨[0x20], by decide, forall_mem_singleton.mpr rfl⟩
  key := ⟨[0x20], by decide, forall_mem_singleton.mpr rfl⟩

theorem noSurrogate_of_hex {t : Text} (h : ∀ c ∈ t, isHexChar c = true) : NoSurrogate t := by
  refine noSurrogate_of_ascii fun c hc => ?_
  have hHex := h c hc
  simp only [isHexChar, Bool.or_eq_true, Bool.and_eq_true, decide_eq_true_eq] at hHex
  omega

abbrev HexSha256 := List UInt8 → HexText

def HexSha256.digest (sha256 : HexSha256) : Sha256 := fun bytes => (sha256 bytes).val

section Entry

variable (nesting : Nesting) {sha256 : HexSha256} {stored : UInt64} {runId key : HexText}
  {observation : Observation} {integrity text : Text} {content : List UInt8}

section

variable {payload : Json} (h : Ici.digest sha256.digest payload = .ok integrity)
include h

theorem digest_hex : ∀ c ∈ integrity, isHexChar c = true := by
  obtain ⟨bytes, -, hEq⟩ := bind_eq_ok.mp h
  cases hEq
  exact (sha256 bytes).property

theorem hasBytes_of_digest : HasBytes payload := by
  obtain ⟨bytes, hBytes, -⟩ := bind_eq_ok.mp h
  exact exists_bytes_iff.mp ⟨bytes, hBytes⟩

end

theorem entryDocument_of_encode {depth : ℕ} {document : Json} (hReads : ReadsWithin depth document)
    (hDepth : depth ≤ 16) (hEncodable : ∀ leaf ∈ document.leaves, leaf.IsEncodable)
    (hText : encode {} document = .ok text) (hContent : utf8 text = .ok content) :
    entryDocument nesting content = .ok document.canon := by
  have hAscii := isPlain_encode rfl defaultStyle_admits hText
  have hDecoded := decodeUtf8_encoded hContent
  have hLines : universalNewlines text = text := by
    refine universalNewlines_eq_self fun c hc hReturn => ?_
    have hSpace := (hAscii c hc).1
    rw [hReturn] at hSpace
    exact absurd hSpace (by decide)
  have hReadable : IsReadable true document := hReads.readable.ascii hEncodable
  have hLimit : depth ≤ nesting.limit := hDepth.trans nesting.enough
  unfold entryDocument
  rw [hDecoded]
  change loads nesting.limit (universalNewlines text) = _
  rw [hLines, loads_encode isLegible_default (hReads.depth_le.trans hLimit) hReadable hText]

section

variable (hDigest : Ici.digest sha256.digest (observationToDict observation) = .ok integrity)
include hDigest

theorem entryDocument_of_write (hText : encode {} (.obj (entryFields stored runId.val key.val integrity
    observation)) = .ok text) (hContent : utf8 text = .ok content) :
    entryDocument nesting content =
      .ok (.obj (canonical (entryFields stored runId.val key.val integrity observation))) := by
  have hBytes := hasBytes_of_digest hDigest
  have hFinite := finite_of_hasBytes hBytes
  have hReads : ReadsWithin 6 (.obj (entryFields stored runId.val key.val integrity observation)) := by
    refine .obj (nodup_entryFields _ _ _ _ _) ?_
    simp only [entryFields, forall_mem_cons]
    exact ⟨.str _, .str _, .str _, .int _, .str _, readsWithin_observation hFinite.1 hFinite.2, nofun⟩
  have hPlain (name : Text) (hName : IsPlain name) : (Leaf.text name).IsEncodable := hName.noSurrogate
  have hHex {t : Text} (ht : ∀ c ∈ t, isHexChar c = true) : (Leaf.text t).IsEncodable :=
    noSurrogate_of_hex ht
  have hEncodable : ∀ leaf ∈
      (obj (entryFields stored runId.val key.val integrity observation)).leaves,
      leaf.IsEncodable := by
    simp only [entryFields, leaves, leavesOfFields, cons_append, nil_append, append_nil, forall_mem_cons]
    exact ⟨hPlain _ (by decide), hPlain _ (by decide), hPlain _ (by decide), hHex key.property,
      hPlain _ (by decide), hHex runId.property, hPlain _ (by decide), trivial, hPlain _ (by decide),
      hHex (digest_hex hDigest), hPlain _ (by decide), fun leaf hLeaf => (hBytes leaf hLeaf).2⟩
  rw [entryDocument_of_encode nesting hReads (by decide) hEncodable hText hContent, canon_obj]

theorem isEntry_of_write : IsEntry sha256.digest key.val
      (canonical (entryFields stored runId.val key.val integrity observation))
      (canonical (observationFields observation)) := by
  have hKeys := nodup_entryFields stored runId.val key.val integrity observation
  have hSame : Ici.digest sha256.digest (.obj (canonical (observationFields observation))) =
      .ok integrity := by
    rw [← canon_obj, ← observationToDict_eq, ← hDigest]
    unfold Ici.digest dumps
    rw [encode_canon]
  refine ⟨?_, ?_, ?_, integrity, ?_, hSame⟩
  · rw [getValue_canon hKeys]
    rfl
  · rw [getValue_canon hKeys]
    rfl
  · rw [getValue_canon hKeys]
    exact canon_obj (observationFields observation)
  · rw [getValue_canon hKeys]
    rfl

end

theorem readEntry_of_write {entry : Option (List UInt8)} (hComplete : observation.evidenceIsComplete = true)
    (h : ObservationCache.write sha256.digest stored runId.val key.val observation = .ok entry) :
    ∃ content found, entry = some content ∧
      readEntry nesting sha256.digest key.val content = .ok found ∧ found.hit = true ∧
      found.observation = some observation.stored := by
  obtain ⟨integrity, text, content, rfl, hDigest, hText, hContent⟩ := write_eq_some hComplete h
  have hDecoded := observationFromDict_canon observation
  rw [observationToDict_eq, canon_obj] at hDecoded
  obtain ⟨found, hFound, hHit, hHeld⟩ := readEntry_of_isEntry
    (entryDocument_of_write nesting hDigest hText hContent) (isEntry_of_write hDigest)
    hDecoded
  exact ⟨content, found, rfl, hFound, hHit, hHeld⟩

end Entry

/-! ## What a written entry leaves in the cache -/

namespace CacheDirectory

variable (cache : CacheDirectory)

variable {name : Text} {place : ℕ} {file : CacheFile}

theorem content?_eq_some_iff {content : List UInt8} : cache.content? name = some content ↔
      ∃ file ∈ cache.files, file.name = name ∧ file.content = content := by
  unfold content?
  rw [Option.map_eq_some_iff]
  constructor
  · rintro ⟨file, hFind, hContent⟩
    have hName : file.name = name := by simpa using find?_some hFind
    exact ⟨file, mem_of_find?_eq_some hFind, hName, hContent⟩
  · rintro ⟨file, hMem, hName, hContent⟩
    have hSome : (cache.files.find? (·.name = name)).isSome :=
      find?_isSome.mpr ⟨file, hMem, decide_eq_true hName⟩
    obtain ⟨found, hFind⟩ := Option.isSome_iff_exists.mp hSome
    have hFound : found.name = name := by simpa using find?_some hFind
    have hSame : found = file := inj_on_of_nodup_map cache.nodup_names
      (mem_of_find?_eq_some hFind) hMem (hFound.trans hName.symm)
    exact ⟨found, hFind, hSame ▸ hContent⟩

theorem mem_publish_iff {other : CacheFile} : other ∈ (cache.publish place file).files ↔
      other = file ∨ other ∈ cache.files ∧ other.name ≠ file.name := by
  change other ∈ (cache.others file.name).take place ++ file :: (cache.others file.name).drop place ↔ _
  rw [perm_middle.mem_iff, mem_cons, take_append_drop, others, mem_filter, decide_eq_true_iff]

theorem mem_files_of_mem_oldest (h : file ∈ cache.oldest) : file ∈ cache.files :=
  (mem_insertionSort _).mp (mem_of_mem_take h)

theorem mem_evict_iff : file ∈ cache.evict.files ↔ file ∈ cache.files ∧ file ∉ cache.oldest := by
  have hNames (hMem : file ∈ cache.files) :
      file.name ∈ cache.oldest.map CacheFile.name ↔ file ∈ cache.oldest := by
    refine ⟨fun hName => ?_, mem_map_of_mem⟩
    obtain ⟨other, hOther, hSame⟩ := mem_map.mp hName
    have hEq : other = file := inj_on_of_nodup_map cache.nodup_names
      (cache.mem_files_of_mem_oldest hOther) hMem hSame
    exact hEq ▸ hOther
  change file ∈ cache.files.filter _ ↔ _
  rw [mem_filter, decide_eq_true_iff]
  exact and_congr_right fun hMem => not_congr (hNames hMem)

/-- Fewer files than the bound are newer than one published now, or as new and listed behind it. -/
def Stays (place : ℕ) (modified : ℤ) (name : Text) : Prop :=
  (((cache.others name).take place).filter fun file => modified < file.modified).length +
    (((cache.others name).drop place).filter fun file => modified ≤ file.modified).length <
      cache.maxEntries

theorem not_mem_oldest_publish_iff (place : ℕ) (file : CacheFile) :
    file ∉ (cache.publish place file).oldest ↔ cache.Stays place file.modified file.name := by
  obtain ⟨older, newer, hSort, hNewer⟩ := insertionSort_split CacheFile.modified
    ((cache.others file.name).take place) ((cache.others file.name).drop place) file
  have hNodup : (older ++ file :: newer).Nodup := by
    rw [← hSort]
    exact (perm_insertionSort _ _).nodup_iff.mpr
      (Nodup.of_map CacheFile.name (cache.publish place file).nodup_names)
  have hLength : (cache.publish place file).files.length = older.length + (newer.length + 1) := by
    rw [← length_insertionSort (fun a b : CacheFile => a.modified ≤ b.modified), publish, hSort,
      length_append, length_cons]
  have hMax : (cache.publish place file).maxEntries = cache.maxEntries := rfl
  have hOldest : (cache.publish place file).oldest =
      (older ++ file :: newer).take (older.length + (newer.length + 1) - cache.maxEntries) := by
    unfold oldest
    rw [hLength, hMax]
    exact congrArg (List.take _) hSort
  rw [hOldest, mem_take_iff_of_nodup hNodup, Stays, ← hNewer]
  omega

theorem content?_write_iff (place : ℕ) (file : CacheFile) {content : List UInt8} :
    ((cache.publish place file).evict).content? file.name = some content ↔
      content = file.content ∧ cache.Stays place file.modified file.name := by
  rw [content?_eq_some_iff, ← not_mem_oldest_publish_iff]
  constructor
  · rintro ⟨other, hOther, hName, rfl⟩
    obtain ⟨hMem, hStays⟩ := (mem_evict_iff _).mp hOther
    rcases (cache.mem_publish_iff).mp hMem with rfl | ⟨-, hNe⟩
    · exact ⟨rfl, hStays⟩
    · exact absurd hName hNe
  · rintro ⟨rfl, hStays⟩
    exact ⟨file, (mem_evict_iff _).mpr ⟨(cache.mem_publish_iff).mpr (.inl rfl), hStays⟩, rfl, rfl⟩

theorem content?_of_write {content : List UInt8} (hName : name ≠ file.name)
    (h : ((cache.publish place file).evict).content? name = some content) :
    cache.content? name = some content := by
  obtain ⟨other, hOther, rfl, hContent⟩ := (content?_eq_some_iff _).mp h
  rcases (cache.mem_publish_iff).mp ((mem_evict_iff _).mp hOther).1 with rfl | ⟨hMem, -⟩
  · exact absurd rfl hName
  · exact (content?_eq_some_iff _).mpr ⟨other, hMem, rfl, hContent⟩

/-- `read` is a hit with an observation. -/
def HitsWith (nesting : Nesting) (sha256 : Sha256) (key : Text) (observation : Observation) : Prop :=
  ∃ found left, cache.read nesting sha256 key = .ok (found, left) ∧ found.hit = true ∧
    found.observation = some observation

theorem hitsWith_iff {nesting : Nesting} {sha256 : Sha256} {key : Text} {observation : Observation} :
    cache.HitsWith nesting sha256 key observation ↔
      ∃ content found, cache.content? (entryName key) = some content ∧
        readEntry nesting sha256 key content = .ok found ∧ found.hit = true ∧
        found.observation = some observation := by
  unfold HitsWith read
  cases cache.content? (entryName key) with
  | none =>
    constructor
    · rintro ⟨found, left, hRead, hHit, -⟩
      cases hRead
      cases hHit
    · rintro ⟨content, found, hContent, -⟩
      cases hContent
  | some content =>
    constructor
    · rintro ⟨found, left, hRead, hHit⟩
      obtain ⟨found', hFound, hEq⟩ := bind_eq_ok.mp hRead
      cases hEq
      exact ⟨content, found, rfl, hFound, hHit⟩
    · rintro ⟨content', found, hContent, hFound, hHit⟩
      cases hContent
      exact ⟨found, _, step hFound rfl, hHit⟩

end CacheDirectory

theorem filter_isHexChar (key : HexText) : key.val.filter isHexChar = key.val :=
  filter_eq_self.mpr key.property

theorem entryName_injective {key other : HexText}
    (h : CacheDirectory.entryName key.val = CacheDirectory.entryName other.val) : key = other := by
  have hEmpty {t : HexText} : t.val ≠ py "empty" := fun hEq =>
    absurd (t.property 0x6D (hEq ▸ by decide)) (by decide)
  unfold CacheDirectory.entryName at h
  have hStem := append_cancel_right h
  rw [filter_isHexChar, filter_isHexChar] at hStem
  refine Subtype.ext ?_
  split at hStem <;> split at hStem
  · rename_i hKey hOther
    rw [hKey, hOther]
  · exact absurd hStem.symm hEmpty
  · exact absurd hStem hEmpty
  · exact hStem

theorem Observation.stored_eq_self_iff (observation : Observation) : observation.stored = observation ↔
      ∀ finding ∈ observation.val.findings, finding.val.suppression.val.suppressed = false →
        finding.val.suppression = FindingSuppression.none := by
  have hFindings : observation.stored = observation ↔
      observation.val.findings.map Finding.stored = observation.val.findings := by
    rw [Subtype.ext_iff]
    change { observation.val with findings := observation.val.findings.map Finding.stored } =
      observation.val ↔ _
    exact ⟨fun h => congrArg ObservationFields.findings h, fun h => by rw [h]⟩
  have hEach := map_inj_left (f := Finding.stored) (g := id) (l := observation.val.findings)
  rw [List.map_id] at hEach
  rw [hFindings, hEach]
  exact forall₂_congr fun finding _ => Finding.stored_eq_self_iff finding

theorem isHexChar_hexDigit (n : ℕ) : isHexChar (hexDigit n) = true := by
  have hAll : ∀ k, k < 16 → isHexChar (hexDigit k) = true := by decide
  have hSame : hexDigit n = hexDigit (n % 16) := by simp [hexDigit]
  rw [hSame]
  exact hAll _ (Nat.mod_lt _ (by decide))

def spellHex : HexSha256 := fun bytes =>
  ⟨bytes.flatMap fun byte => [hexDigit (byte.toNat / 16), hexDigit byte.toNat], by
    intro c hc
    obtain ⟨byte, -, hDigit⟩ := List.mem_flatMap.mp hc
    rcases List.mem_pair.mp hDigit with rfl | rfl <;> exact isHexChar_hexDigit _⟩

def poisonedObservation : Dict Text Json :=
  [(py "findings", .null), (py "state", .str (py "SUCCEEDED"))]

def poisonedEntry : Dict Text Json :=
  [(py "identity", .str (py "ab")),
    (py "integrity", .str
      (py "7b2266696e64696e6773223a6e756c6c2c227374617465223a22535543434545444544227d")),
    (py "observation", .obj poisonedObservation), (py "schema", .str cacheSchema)]

/-- The directory that holds one file, the entry of `ab`. -/
def poisonedCache (content : List UInt8) : CacheDirectory where
  files := [{ name := py "ab.json", modified := 0, content }]
  maxEntries := 64
  nodup_names := List.nodup_singleton _
  max_pos := by decide

theorem isEntry_poisoned : IsEntry spellHex.digest (py "ab") poisonedEntry poisonedObservation where
  schema := rfl
  identity := rfl
  observation := rfl
  integrity := ⟨_, rfl, by decide +kernel⟩

end Ici
