import Ici.Execution.Production

/-! # Manifests read back, and what is damaged is mostly diagnosed

A document that names a run or an identity which is no text is read all the same. -/

namespace Ici.Manifests

open List hiding replace
open Manifest
open Python Json Filing Outputs Raising

/-! ## What a document has to hold -/

def IsStr (value : Json) : Prop := ∃ t, value = .str t

def IsNumber (value : Json) : Prop := ∃ n, value = .int n

structure FitsArtifact (data : Dict Text Json) : Prop where
  path : IsStr (getValue data (py "path"))
  size : IsNumber (getValue data (py "size"))
  digest : IsStr (getValue data (py "digest"))

structure FitsFields (data : Dict Text Json) : Prop where
  schema : getValue data (py "schema") = .str manifestSchema
  artifacts : ∃ listed, getOr data (py "artifacts") (.arr []) = .arr listed ∧
    ∀ item ∈ listed, ∃ table, item = .obj table ∧ FitsArtifact table
  task : IsStr (getValue data (py "task"))
  outcome : IsStr (getValue data (py "outcome"))
  exitCode : IsNumber (getValue data (py "exit_code"))
  interpretation : IsStr (getValue data (py "interpretation"))

structure FitsProvenance (data : Dict Text Json) : Prop where
  run : IsStr (getOr data (py "run") (.str []))
  identity : IsStr (getOr data (py "identity") (.str []))

structure HoldsArtifact (data : Dict Text Json) (artifact : Artifact) : Prop where
  path : getValue data (py "path") = .str artifact.path
  size : getValue data (py "size") = .int artifact.size
  digest : getValue data (py "digest") = .str artifact.digest

structure HoldsFields (data : Dict Text Json) (manifest : Manifest) : Prop where
  schema : getValue data (py "schema") = .str manifest.schema
  artifacts : ∃ tables, getOr data (py "artifacts") (.arr []) = .arr (tables.map .obj) ∧
    List.Forall₂ HoldsArtifact tables manifest.artifacts
  task : getValue data (py "task") = .str manifest.task
  outcome : getValue data (py "outcome") = .str manifest.outcome
  exitCode : getValue data (py "exit_code") = .int manifest.exitCode
  interpretation : getValue data (py "interpretation") = .str manifest.interpretation

structure Holds (data : Dict Text Json) (manifest : Manifest) : Prop where
  fields : HoldsFields data manifest
  run : getOr data (py "run") (.str []) = .str manifest.run
  identity : getOr data (py "identity") (.str []) = .str manifest.identity

/-! ## Checks -/

def Checks {α : Type} (holds : Prop) (returned : α → Prop) (r : Result α) : Prop :=
  (holds ∧ ∃ a, r = .ok a ∧ returned a) ∨ (¬holds ∧ ∃ message, r = .error (malformedManifest message))

section Checking

variable {α β : Type} {holds holds' : Prop} {returned : α → Prop} {returned' : β → Prop}

theorem Checks.bind {r : Result α} {f : α → Result β} (h : Checks holds returned r)
    (hNext : ∀ a, returned a → Checks holds' returned' (f a)) :
    Checks (holds ∧ holds') returned' (r >>= f) := by
  rcases h with ⟨hHolds, a, rfl, ha⟩ | ⟨hNot, message, rfl⟩
  · rcases hNext a ha with ⟨hHolds', b, hb, hReturned⟩ | ⟨hNot, message, hError⟩
    · exact .inl ⟨⟨hHolds, hHolds'⟩, b, hb, hReturned⟩
    · exact .inr ⟨fun hBoth => hNot hBoth.2, message, hError⟩
  · exact .inr ⟨fun hBoth => hNot hBoth.1, message, rfl⟩

theorem Checks.pure {P : α → Prop} {a : α} (h : P a) : Checks True P (.ok a) :=
  .inl ⟨trivial, a, rfl, h⟩

theorem Checks.of_iff {r : Result α} (h : Checks holds returned r) (hSame : holds ↔ holds') :
    Checks holds' returned r := by
  rwa [Checks, ← hSame]

end Checking

theorem checks_text (data : Dict Text Json) (key : Text) :
    Checks (IsStr (getValue data key)) (fun t => getValue data key = .str t) (text data key) := by
  unfold text
  split
  · next value hValue => exact .inl ⟨⟨value, hValue⟩, value, rfl, hValue⟩
  · next hOther =>
    refine .inr ⟨fun hStr => ?_, _, rfl⟩
    obtain ⟨t, ht⟩ := hStr
    exact hOther t ht

theorem checks_wholeNumber (data : Dict Text Json) (key : Text) :
    Checks (IsNumber (getValue data key)) (fun n => getValue data key = .int n) (wholeNumber data key) := by
  unfold wholeNumber
  split
  · next value hValue => exact .inl ⟨⟨value, hValue⟩, value, rfl, hValue⟩
  · next hOther =>
    refine .inr ⟨fun hNumber => ?_, _, rfl⟩
    obtain ⟨n, hn⟩ := hNumber
    exact hOther n hn

theorem checks_artifact (data : Dict Text Json) :
    Checks (FitsArtifact data) (HoldsArtifact data) (Artifact.fromDict data) := by
  unfold Artifact.fromDict
  have hChain := (checks_text data (py "path")).bind fun path hPath =>
    (checks_wholeNumber data (py "size")).bind fun size hSize =>
      (checks_text data (py "digest")).bind fun digest hDigest =>
        Checks.pure (a := (⟨path, size, digest⟩ : Artifact)) (P := HoldsArtifact data)
          ⟨hPath, hSize, hDigest⟩
  exact hChain.of_iff ⟨fun ⟨hPath, hSize, hDigest, _⟩ => ⟨hPath, hSize, hDigest⟩,
    fun h => ⟨h.path, h.size, h.digest, trivial⟩⟩

theorem checks_artifactsFrom (index : ℕ) (listed : List Json) :
    Checks (∀ item ∈ listed, ∃ table, item = .obj table ∧ FitsArtifact table)
      (fun artifacts => ∃ tables, listed = tables.map .obj ∧ List.Forall₂ HoldsArtifact tables artifacts)
      (artifactsFrom index listed) := by
  induction listed generalizing index with
  | nil => exact .inl ⟨nofun, [], rfl, [], rfl, .nil⟩
  | cons item rest ih =>
    cases item with
    | obj table =>
      have hChain := (checks_artifact table).bind fun artifact hArtifact =>
        (ih (index + 1)).bind fun later hLater =>
          Checks.pure (a := artifact :: later) (P := fun artifacts =>
            ∃ tables, Json.obj table :: rest = tables.map .obj ∧ List.Forall₂ HoldsArtifact tables artifacts)
            (by
              obtain ⟨tables, rfl, hTables⟩ := hLater
              exact ⟨table :: tables, rfl, .cons hArtifact hTables⟩)
      refine hChain.of_iff ⟨fun ⟨hFirst, hRest, _⟩ => ?_, fun h => ⟨?_, ?_, trivial⟩⟩
      · exact forall_mem_cons.mpr ⟨⟨table, rfl, hFirst⟩, hRest⟩
      · obtain ⟨other, hSame, hFits⟩ := h _ mem_cons_self
        cases hSame
        exact hFits
      · exact fun item hItem => h item (mem_cons_of_mem _ hItem)
    | _ =>
      refine .inr ⟨fun h => ?_, _, rfl⟩
      obtain ⟨table, hTable, -⟩ := h _ mem_cons_self
      cases hTable

variable {data : Dict Text Json} {t : Text}

theorem checks_ofFields (hShown : IsShown (.obj data)) (artifacts : List Artifact) :
    Checks (IsStr (getValue data (py "task")) ∧ IsStr (getValue data (py "outcome")) ∧
        IsNumber (getValue data (py "exit_code")) ∧ IsStr (getValue data (py "interpretation")))
      (fun manifest => manifest.schema = manifestSchema ∧ manifest.artifacts = artifacts ∧
        getValue data (py "task") = .str manifest.task ∧ getValue data (py "outcome") =
          .str manifest.outcome ∧
        getValue data (py "exit_code") = .int manifest.exitCode ∧
        getValue data (py "interpretation") = .str manifest.interpretation ∧
        strValue (getOr data (py "run") (.str [])) = .ok manifest.run ∧
        strValue (getOr data (py "identity") (.str [])) = .ok manifest.identity)
      (ofFields data artifacts) := by
  obtain ⟨run, hRun⟩ := exists_strValue (isShown_getOr hShown (py "run"))
  obtain ⟨identity, hIdentity⟩ := exists_strValue (isShown_getOr hShown (py "identity"))
  unfold ofFields
  rw [hRun, hIdentity]
  have hChain := (checks_text data (py "task")).bind fun task hTask =>
    (checks_text data (py "outcome")).bind fun outcome hOutcome =>
      (checks_wholeNumber data (py "exit_code")).bind fun exitCode hExitCode =>
        (checks_text data (py "interpretation")).bind fun interpretation hInterpretation =>
          Checks.pure (a := ({ task, outcome, exitCode, interpretation, artifacts, run, identity }
            : Manifest))
            (P := fun manifest : Manifest => manifest.schema = manifestSchema ∧
              manifest.artifacts = artifacts ∧ getValue data (py "task") = .str manifest.task ∧
              getValue data (py "outcome") = .str manifest.outcome ∧
              getValue data (py "exit_code") = .int manifest.exitCode ∧
              getValue data (py "interpretation") = .str manifest.interpretation ∧
              (.ok run : Result Text) = .ok manifest.run ∧ (.ok identity : Result Text) =
                .ok manifest.identity)
            ⟨rfl, rfl, hTask, hOutcome, hExitCode, hInterpretation, rfl, rfl⟩
  exact hChain.of_iff ⟨fun ⟨hTask, hOutcome, hExitCode, hInterpretation, _⟩ =>
    ⟨hTask, hOutcome, hExitCode, hInterpretation⟩, fun ⟨hTask, hOutcome, hExitCode, hInterpretation⟩ =>
    ⟨hTask, hOutcome, hExitCode, hInterpretation, trivial⟩⟩

theorem equalsText_iff {value : Json} : equalsText value t = true ↔ value = .str t := by
  cases value <;> simp [equalsText]

theorem checks_fromDict (hShown : IsShown (.obj data)) :
    Checks (FitsFields data) (fun manifest => HoldsFields data manifest ∧
        strValue (getOr data (py "run") (.str [])) = .ok manifest.run ∧
        strValue (getOr data (py "identity") (.str [])) = .ok manifest.identity)
      (fromDict data) := by
  unfold fromDict
  by_cases hSchema : getValue data (py "schema") = .str manifestSchema
  · rw [if_pos (equalsText_iff.mpr hSchema)]
    split
    · next listed hListed =>
      have hItemsOf (h : FitsFields data) :
          ∀ item ∈ listed, ∃ table, item = .obj table ∧ FitsArtifact table := by
        obtain ⟨others, hOthers, hItems⟩ := h.artifacts
        cases hListed.symm.trans hOthers
        exact hItems
      rcases checks_artifactsFrom 0 listed with ⟨hItems, artifacts, hArtifacts, tables, hTables, hHeld⟩ |
        ⟨hNot, message, hError⟩
      · rw [hArtifacts]
        rcases checks_ofFields hShown artifacts with ⟨hFields, manifest, hRead, hSchema', rfl, hTask,
          hOutcome,
          hExitCode, hInterpretation, hRun, hIdentity⟩ | ⟨hNot, message, hError⟩
        · refine .inl ⟨⟨hSchema, ⟨listed, hListed, hItems⟩, hFields.1, hFields.2.1, hFields.2.2.1,
            hFields.2.2.2⟩, manifest, hRead, ⟨hSchema' ▸ hSchema, ⟨tables, hTables ▸ hListed, hHeld⟩, hTask,
            hOutcome, hExitCode, hInterpretation⟩, hRun, hIdentity⟩
        · exact .inr ⟨fun h => hNot ⟨h.task, h.outcome, h.exitCode, h.interpretation⟩, message, hError⟩
      · rw [hError]
        exact .inr ⟨fun h => hNot (hItemsOf h), message, rfl⟩
    · next hOther =>
      refine .inr ⟨fun h => ?_, _, rfl⟩
      obtain ⟨listed, hListed, -⟩ := h.artifacts
      exact hOther listed hListed
  · have hSchema' : equalsText (getValue data (py "schema")) manifestSchema = false :=
      Bool.eq_false_iff.mpr fun hEqual => hSchema (equalsText_iff.mp hEqual)
    have hValue : IsShown (getValue data (py "schema")) := by
      unfold getValue
      cases hGet : data.get? (py "schema") with
      | none => exact nofun
      | some value => exact isShown_obj_iff.mp hShown _ (Dict.mem_of_get? hGet)
    obtain ⟨shown, hRepr⟩ := (exists_reprValue_iff _).mpr hValue
    dsimp only
    rw [hSchema', hRepr]
    exact .inr ⟨fun h => hSchema h.schema, _, rfl⟩

/-! ## Every content of a file -/

section Contents

variable (nesting : Nesting)

def IsDiagnosed (content : List UInt8) : Prop :=
  (∃ data manifest, entryDocument nesting content = .ok (.obj data) ∧
      readBytes nesting content = .ok manifest ∧ Holds data manifest) ∨
    ∃ message, readBytes nesting content = .error (malformedManifest message)

/-- A JSON table whose run and identity are texts, unless a field that is checked is wrong. -/
def IsTable (content : List UInt8) : Prop :=
  ∃ data, entryDocument nesting content = .ok (.obj data) ∧ (FitsFields data → FitsProvenance data)

variable {nesting} {content : List UInt8}

section

variable {data : Dict Text Json} (h : entryDocument nesting content = .ok (.obj data))
include h

theorem readBytes_obj : readBytes nesting content = fromDict data := by
  rw [readBytes, h]
  rfl

theorem isShown_of_document : IsShown (.obj data) := by
  have hYields := entryDocument_yields nesting content
  rwa [h] at hYields

end

theorem isValueError_malformedManifest (message : Text) : isValueError (malformedManifest message) =
    false := by
  change decide (py "MalformedManifest" ∈ [py "ValueError", py "SchemaError", py "UnsupportedSchemaError",
    py "JSONDecodeError", py "UnicodeDecodeError", py "UnicodeEncodeError"]) = false
  clear message
  decide

theorem exists_obj_of_malformed {message : Text}
    (h : readBytes nesting content = .error (malformedManifest message)) :
    ∃ data, entryDocument nesting content = .ok (.obj data) := by
  have hYields := entryDocument_yields nesting content
  unfold readBytes at h
  cases hDocument : entryDocument nesting content with
  | error e =>
    rw [hDocument] at h hYields
    cases h
    rcases hYields with hValue | hDeep
    · rw [isValueError_malformedManifest] at hValue
      cases hValue
    · exact absurd (congrArg PyError.name hDeep) (show py "MalformedManifest" ≠ py "RecursionError" by decide)
  | ok document =>
    rw [hDocument] at h
    cases document with
    | obj data => exact ⟨data, rfl⟩
    | _ =>
      exact absurd (congrArg PyError.name (Except.error.inj h))
        (show py "AttributeError" ≠ py "MalformedManifest" by decide)

theorem isDiagnosed_iff : IsDiagnosed nesting content ↔ IsTable nesting content := by
  constructor
  · rintro (⟨data, manifest, hDocument, -, hHolds⟩ | ⟨message, hError⟩)
    · exact ⟨data, hDocument, fun _ => ⟨⟨_, hHolds.run⟩, ⟨_, hHolds.identity⟩⟩⟩
    · obtain ⟨data, hDocument⟩ := exists_obj_of_malformed hError
      refine ⟨data, hDocument, fun hFits => ?_⟩
      rw [readBytes_obj hDocument] at hError
      rcases checks_fromDict (isShown_of_document hDocument) with ⟨-, manifest, hRead, -⟩ | ⟨hNot, -⟩
      · cases hRead.symm.trans hError
      · exact absurd hFits hNot
  · rintro ⟨data, hDocument, hProvenance⟩
    rw [IsDiagnosed, readBytes_obj hDocument]
    rcases checks_fromDict (isShown_of_document hDocument) with
      ⟨hFits, manifest, hRead, hFields, hRun, hIdentity⟩ | ⟨-, message, hError⟩
    · obtain ⟨⟨run, hRunText⟩, identity, hIdentityText⟩ := hProvenance hFits
      rw [hRunText] at hRun
      rw [hIdentityText] at hIdentity
      cases hRun
      cases hIdentity
      exact .inl ⟨data, manifest, hDocument, hRead, hFields, hRunText, hIdentityText⟩
    · exact .inr ⟨message, hError⟩

/-- An empty file is no JSON document, and the decoder's own error leaves `read`. -/
theorem empty_manifest_escapes : readBytes ⟨16, le_rfl⟩ [] = .error (decodeError (py "Expecting value")) ∧
      ¬∀ content, IsDiagnosed ⟨16, le_rfl⟩ content := by
  refine ⟨rfl, fun h => ?_⟩
  obtain ⟨data, hDocument, -⟩ := isDiagnosed_iff.mp (h [])
  cases hDocument

end Contents

/-! ## A manifest reads back -/

theorem text_of_str {key : Text} (h : getValue data key = .str t) : text data key = .ok t := by rw [text, h]

theorem wholeNumber_of_int {key : Text} {n : ℤ} (h : getValue data key = .int n) :
    wholeNumber data key = .ok n := by rw [wholeNumber, h]

theorem fromDict_of_holdsArtifact {artifact : Artifact}
    (h : HoldsArtifact data artifact) : Artifact.fromDict data = .ok artifact := by
  rw [Artifact.fromDict, text_of_str h.path, wholeNumber_of_int h.size, text_of_str h.digest]
  rfl

theorem artifactsFrom_of_holds (index : ℕ) {tables : List (Dict Text Json)} {artifacts : List Artifact}
    (h : List.Forall₂ HoldsArtifact tables artifacts) :
    artifactsFrom index (tables.map .obj) = .ok artifacts := by
  induction h generalizing index with
  | nil => rfl
  | cons hFirst _ ih =>
    rw [map_cons, artifactsFrom, fromDict_of_holdsArtifact hFirst, ih]
    rfl

theorem fromDict_of_holds {manifest : Manifest} (h : Holds data manifest)
    (hSchema : manifest.schema = manifestSchema) : fromDict data = .ok manifest := by
  obtain ⟨tables, hListed, hTables⟩ := h.fields.artifacts
  rw [fromDict, if_pos (equalsText_iff.mpr (hSchema ▸ h.fields.schema)), hListed]
  dsimp only
  rw [artifactsFrom_of_holds 0 hTables]
  change ofFields data manifest.artifacts = _
  rw [ofFields, text_of_str h.fields.task, text_of_str h.fields.outcome,
    wholeNumber_of_int h.fields.exitCode, text_of_str h.fields.interpretation, h.run, h.identity]
  show (Except.ok { manifest with schema := manifestSchema } : Result Manifest) = _
  rw [← hSchema]

section

variable (manifest : Manifest)

theorem nodup_fields : manifest.fields.keys.Nodup := by
  have hSub : manifest.fields.keys.Sublist [py "schema", py "task", py "outcome", py "exit_code",
      py "interpretation", py "artifacts", py "run", py "identity"] := by
    simp only [fields, Dict.keys, map_append]
    exact ((Sublist.refl _).append (keys_nonEmpty (py "run") manifest.run)).append
      (keys_nonEmpty (py "identity") manifest.identity)
  exact hSub.nodup (by decide)

theorem getOr_fields {name : Text} (h : name = py "run" ∨ name = py "identity") :
    getOr manifest.fields name (.str []) =
      .str (if name = py "run" then manifest.run else manifest.identity) := by
  have hFirst : Dict.get? (manifest.fields.take 6) name = none := by
    rw [Dict.get?_eq_none_iff]
    change name ∉ [py "schema", py "task", py "outcome", py "exit_code", py "interpretation", py "artifacts"]
    rcases h with rfl | rfl <;> decide
  have hSplit : manifest.fields = manifest.fields.take 6 ++
      (nonEmpty (py "run") manifest.run ++ nonEmpty (py "identity") manifest.identity) := by
    simp [fields]
  rw [getOr, hSplit, Dict.get?_append, Dict.get?_append, hFirst, get?_nonEmpty, get?_nonEmpty]
  rcases h with rfl | rfl
  · have hNe : py "identity" ≠ py "run" := by decide
    rw [if_pos rfl, if_pos rfl, if_neg hNe, Option.none_or, Option.or_none]
    exact getD_nonEmpty manifest.run
  · have hNe : py "run" ≠ py "identity" := by decide
    rw [if_neg hNe, if_pos rfl, if_neg hNe.symm, Option.none_or, Option.none_or]
    exact getD_nonEmpty manifest.identity

def artifactFields (artifact : Artifact) : Dict Text Json :=
  [(py "path", .str artifact.path), (py "size", .int artifact.size), (py "digest", .str artifact.digest)]

theorem canon_asDict (artifact : Artifact) :
    artifact.asDict.canon = .obj (canonical (artifactFields artifact)) := canon_obj _

theorem holds_artifact (artifact : Artifact) :
    HoldsArtifact (canonical (artifactFields artifact)) artifact := by
  have hKeys : (artifactFields artifact).keys.Nodup :=
    (by decide : [py "path", py "size", py "digest"].Nodup)
  have hRead := getValue_canon hKeys
  exact ⟨hRead _, hRead _, hRead _⟩

theorem holds_fields : Holds (canonical manifest.fields) manifest := by
  have hKeys := nodup_fields manifest
  have hRead := getValue_canon hKeys
  refine ⟨⟨hRead _, ?_, hRead _, hRead _, hRead _, hRead _⟩, ?_, ?_⟩
  · refine ⟨manifest.artifacts.map fun artifact => canonical (artifactFields artifact), ?_, ?_⟩
    · rw [getOr_canon hKeys _ rfl]
      change canon (.arr (manifest.artifacts.map Artifact.asDict)) = _
      rw [canon, canonItems_eq_map, List.map_map, List.map_map]
      exact congrArg Json.arr (map_congr_left fun artifact _ => canon_asDict artifact)
    · rw [forall₂_map_left_iff]
      exact forall₂_same.mpr fun artifact _ => holds_artifact artifact
  · rw [getOr_canon hKeys _ rfl, getOr_fields manifest (.inl rfl)]
    rfl
  · rw [getOr_canon hKeys _ rfl, getOr_fields manifest (.inr rfl)]
    rfl

theorem readsWithin_asDict : ReadsWithin 3 manifest.asDict := by
  have hArtifact (artifact : Artifact) : ReadsWithin 1 artifact.asDict := by
    refine .obj (by decide : [py "path", py "size", py "digest"].Nodup) ?_
    simp only [forall_mem_cons]
    exact ⟨.str _, .int _, .str _, nofun⟩
  refine .obj (nodup_fields manifest) ?_
  simp only [fields, forall_mem_append, forall_mem_cons]
  exact ⟨⟨⟨.str _, .str _, .str _, .int _, .str _, .arr (forall_mem_map.mpr fun artifact _ =>
    hArtifact artifact), nofun⟩, ReadsWithin.of_nonEmpty _ _⟩, ReadsWithin.of_nonEmpty _ _⟩

end

theorem isLegible_manifestStyle : manifestStyle.IsLegible where
  item := ⟨[], rfl, forall_mem_nil _⟩
  key := ⟨[0x20], by decide, forall_mem_singleton.mpr rfl⟩

def NoReturn (t : Text) : Prop := ∀ c ∈ t, c ≠ 0xd

instance (t : Text) : Decidable (NoReturn t) := List.decidableBAll _ t

theorem noReturn_of_isPlain (h : IsPlain t) : NoReturn t := by
  rintro c hc rfl
  exact absurd (h _ hc).1 (by decide)

theorem noReturn_escapeChar (c : CodePoint) : NoReturn (escapeChar false c) := by
  unfold escapeChar
  split
  · next h => rcases h with rfl | rfl <;> decide
  iterate 4
    split
    · decide
  split
  · decide
  · next hReturn =>
    split
    · exact noReturn_of_isPlain (IsPlain.append (by decide) (isPlain_hex _ _))
    · simpa [NoReturn] using hReturn

theorem noReturn_of_encode {manifest : Manifest} {text : Text}
    (h : encodeIndented manifestStyle 2 0 manifest.asDict = .ok text) : NoReturn text := by
  have hAdmits : manifestStyle.Admits (· ≠ 0xd) :=
    ⟨fun c hc hReturn => noReturn_of_isPlain (t := [c]) (forall_mem_singleton.mpr hc) c (by simp)
      hReturn,
      (by decide : NoReturn (py ",")), (by decide : NoReturn (py ": "))⟩
  apply forall_encodeIndented hAdmits (by decide) manifest.asDict 0 text h
  rintro leaf -
  cases leaf with
  | text value =>
    intro c hc
    obtain ⟨d, -, hd⟩ := mem_flatMap.mp hc
    exact noReturn_escapeChar d c hd
  | _ => trivial

theorem readBytes_of_body (nesting : Nesting) {manifest : Manifest} {body : List UInt8}
    (hSchema : manifest.schema = manifestSchema) (h : manifest.body = .ok body) :
    readBytes nesting body = .ok manifest := by
  obtain ⟨full, hText, hBytes⟩ := bind_eq_ok.mp h
  obtain ⟨text, hEncode, hFull⟩ := bind_eq_ok.mp hText
  cases hFull
  have hReads := readsWithin_asDict manifest
  have hDepth : manifest.asDict.depth ≤ nesting.limit :=
    hReads.depth_le.trans (Nat.le_trans (by decide) nesting.enough)
  have hBreak : ∀ c ∈ py "\n", isWhitespace c = true := forall_mem_singleton.mpr rfl
  have hLines : universalNewlines (text ++ py "\n") = text ++ py "\n" := by
    apply universalNewlines_eq_self
    exact forall_mem_append.mpr ⟨noReturn_of_encode hEncode, (by decide : NoReturn (py "\n"))⟩
  have hDocument : entryDocument nesting body = .ok (.obj (canonical manifest.fields)) := by
    unfold entryDocument
    rw [decodeUtf8_encoded hBytes]
    change Json.loads nesting.limit (universalNewlines (text ++ py "\n")) = _
    rw [hLines, loads_encodeIndented isLegible_manifestStyle hDepth hReads.readable hEncode hBreak,
      asDict, canon_obj]
  rw [readBytes_obj hDocument]
  exact fromDict_of_holds (holds_fields manifest) hSchema

/-! ## The artifacts of a root -/

section Roots

variable (rootPath : Text) (measure : Measure)

def HasFile (root : Tree) (name : Text) (content : Content) : Prop :=
  ∃ target, resolve rootPath root name = .ok target ∧ root.entry target = some (.file content)

variable {rootPath measure} {root after : Tree} {manifest : Manifest}

theorem HasFile.unique {name : Text} {content content' : Content} (h : HasFile rootPath root name content)
    (h' : HasFile rootPath root name content') : content = content' := by
  obtain ⟨target, hTarget, hFile⟩ := h
  obtain ⟨target', hTarget', hFile'⟩ := h'
  cases hTarget.symm.trans hTarget'
  cases hFile.symm.trans hFile'
  rfl

theorem standing_eq_intact_iff {artifact : Artifact} :
    standing rootPath measure root artifact = .intact ↔ ∃ content,
      HasFile rootPath root artifact.path content ∧ (measure.size content : ℤ) = artifact.size ∧
        measure.digest content = artifact.digest := by
  unfold standing
  cases hResolve : resolve rootPath root artifact.path with
  | error e =>
    simp only [reduceCtorEq, false_iff, not_exists, not_and]
    rintro content ⟨target, hTarget, -⟩
    cases hResolve.symm.trans hTarget
  | ok target =>
    dsimp only
    split
    · next content hFile =>
      have hHas : HasFile rootPath root artifact.path content := ⟨target, hResolve, hFile⟩
      constructor
      · intro h
        split at h
        · cases h
        · next hSame =>
          obtain ⟨hSize, hDigest⟩ := not_or.mp hSame
          exact ⟨content, hHas, not_not.mp hSize, not_not.mp hDigest⟩
      · rintro ⟨other, hOther, hSize, hDigest⟩
        cases hHas.unique hOther
        rw [if_neg (not_or.mpr ⟨not_not.mpr hSize, not_not.mpr hDigest⟩)]
    · next hNone =>
      simp only [reduceCtorEq, false_iff, not_exists, not_and]
      rintro content ⟨target', hTarget, hFile⟩
      cases hResolve.symm.trans hTarget
      exact absurd hFile (hNone content)

theorem verify_isComplete_iff : (verify rootPath measure manifest root).isComplete = true ↔
    ∀ artifact ∈ manifest.artifacts, standing rootPath measure root artifact = .intact := by
  simp only [Verification.isComplete, verify, decide_eq_true_eq, map_eq_nil_iff, filter_eq_nil_iff]
  constructor
  · rintro ⟨hMissing, hAltered⟩ artifact hArtifact
    cases hStanding : standing rootPath measure root artifact with
    | missing => exact absurd hStanding (hMissing artifact hArtifact)
    | altered => exact absurd hStanding (hAltered artifact hArtifact)
    | intact => rfl
  · intro h
    exact ⟨fun artifact hArtifact => by rw [h artifact hArtifact]; decide,
      fun artifact hArtifact => by rw [h artifact hArtifact]; decide⟩

theorem described_artifact {outcome : TaskOutcome} {produced : List Text} {contract : ExitContract}
    {runId identity : Text}
    (h : describe rootPath measure root outcome produced contract runId identity = .ok manifest) :
    manifest.schema = manifestSchema ∧ ∀ artifact ∈ manifest.artifacts, ∃ content,
      HasFile rootPath root artifact.path content ∧ (measure.size content : ℤ) = artifact.size ∧
        measure.digest content = artifact.digest := by
  obtain ⟨described, hDescribed, rfl⟩ := map_eq_ok.mp h
  refine ⟨rfl, fun artifact hArtifact => ?_⟩
  obtain ⟨listed, hListed, rfl⟩ := mem_map.mp hArtifact
  unfold Outputs.describe at hDescribed
  dsimp only at hDescribed
  split at hDescribed
  · cases hDescribed
  · obtain ⟨artifacts, hArtifacts, hManifest⟩ := bind_eq_ok.mp hDescribed
    cases hManifest
    obtain ⟨name, -, hName⟩ := exists_of_mem_mapM hArtifacts hListed
    unfold describeName at hName
    obtain ⟨target, hTarget, hFile⟩ := bind_eq_ok.mp hName
    split at hFile
    · next content hContent =>
      cases hFile
      exact ⟨content, ⟨target, hTarget, hContent⟩, rfl, rfl⟩
    · cases hFile

/-- The size and the digest are those of the bytes, and no two files share a digest. -/
structure IsFaithful (measure : Measure) : Prop where
  size : ∀ content other, contentBytes content = contentBytes other → measure.size content =
    measure.size other
  digest : ∀ content other,
    measure.digest content = measure.digest other ↔ contentBytes content = contentBytes other

def IsSame (rootPath : Text) (root after : Tree) (name : Text) : Prop :=
  ∃ content content', HasFile rootPath root name content ∧ HasFile rootPath after name content' ∧
    contentBytes content = contentBytes content'

theorem read_publish (nesting : Nesting) {tree : Tree} {destination : List Text}
    (hSchema : manifest.schema = manifestSchema)
    (h : publish rootPath tree manifest destination = .ok after) :
    read rootPath nesting after destination = .ok manifest := by
  obtain ⟨made, -, h⟩ := bind_eq_ok.mp h
  obtain ⟨body, hBody, h⟩ := bind_eq_ok.mp h
  unfold replace at h
  split at h
  · next put hPut =>
    cases h
    have hEntry := FileTree.entry_put hPut destination
    rw [if_pos rfl] at hEntry
    rw [read, hEntry]
    exact readBytes_of_body nesting hSchema hBody
  · cases h

end Roots

/-- What was described reads back and is told apart from what changed, and a file that is read at all is
diagnosed exactly where it is a table without a run or an identity of another type. -/
theorem manifests_exact_iff (nesting : Nesting) (rootPath : Text) (measure : Measure) :
    (∀ root outcome produced contract runId identity manifest,
      describe rootPath measure root outcome produced contract runId identity = .ok manifest →
      (∀ tree destination after, publish rootPath tree manifest destination = .ok after →
        read rootPath nesting after destination = .ok manifest) ∧
      (verify rootPath measure manifest root).isComplete = true ∧
      (IsFaithful measure → ∀ after, (verify rootPath measure manifest after).isComplete = true ↔
        ∀ artifact ∈ manifest.artifacts, IsSame rootPath root after artifact.path)) ∧
    ∀ content, IsDiagnosed nesting content ↔ IsTable nesting content := by
  refine ⟨fun root outcome produced contract runId identity manifest h => ?_, fun content => isDiagnosed_iff⟩
  obtain ⟨hSchema, hArtifacts⟩ := described_artifact h
  refine ⟨fun tree destination after => read_publish nesting hSchema, ?_, fun hFaithful after => ?_⟩
  · exact verify_isComplete_iff.mpr fun artifact hArtifact =>
      standing_eq_intact_iff.mpr (hArtifacts artifact hArtifact)
  · rw [verify_isComplete_iff]
    apply forall₂_congr
    intro artifact hArtifact
    obtain ⟨content, hBefore, hSize, hDigest⟩ := hArtifacts artifact hArtifact
    rw [standing_eq_intact_iff]
    constructor
    · rintro ⟨other, hAfter, -, hOther⟩
      exact ⟨content, other, hBefore, hAfter, (hFaithful.digest _ _).mp (hDigest.trans hOther.symm)⟩
    · rintro ⟨first, other, hFirst, hAfter, hSame⟩
      cases hBefore.unique hFirst
      exact ⟨other, hAfter, (congrArg _ (hFaithful.size _ _ hSame)).symm.trans hSize,
        ((hFaithful.digest _ _).mpr hSame).symm.trans hDigest⟩

end Ici.Manifests
