import Ici.Domain.Events
import Ici.Domain.Raised
import Ici.Domain.Lookups

/-! # What is read back from an event stream -/

namespace Ici

open Dict List Raising Python Json

def eventNames : List Text :=
  [py "schema_id", py "schema_version", py "run_id", py "seq", py "event_type", py "timestamp",
    py "task_id", py "component_id", py "message"]

section

variable (event : RunEvent)

theorem nodup_eventFields : (eventFields event).keys.Nodup := by
  have hNames : eventNames.Nodup := by decide
  refine hNames.sublist ?_
  simp only [Dict.keys, eventFields, map_append]
  exact ((Sublist.append (Sublist.refl _) (keys_optional _ _)).append
    (keys_optional _ _)).append (keys_nonEmpty _ _)

theorem getValue_eventFields : getValue (eventFields event) (py "schema_id") = .str event.val.schemaId ∧
    getValue (eventFields event) (py "schema_version") = .int event.val.schemaVersion ∧
    getValue (eventFields event) (py "run_id") = .str event.val.runId ∧
    getValue (eventFields event) (py "seq") = .int event.val.seq ∧
    getValue (eventFields event) (py "event_type") = .str event.val.eventType.value ∧
    getValue (eventFields event) (py "timestamp") = .str event.val.timestamp ∧
    getValue (eventFields event) (py "task_id") = (event.val.taskId.map Json.str).getD .null ∧
    getValue (eventFields event) (py "component_id") =
      (event.val.componentId.map Json.str).getD .null ∧
    getOr (eventFields event) (py "message") (.str []) = .str event.val.message := by
  refine ⟨rfl, rfl, rfl, rfl, rfl, rfl, ?_, ?_, ?_⟩
  · simp +decide [getValue, eventFields, get?_append, get?_optional, get?_nonEmpty, Dict.get?]
  · simp +decide [getValue, eventFields, get?_append, get?_optional, get?_nonEmpty, Dict.get?]
  · simp +decide [getOr, eventFields, get?_append, get?_optional, get?_nonEmpty, Dict.get?, getD_nonEmpty]

theorem eventFromDict_canon : eventFromDict (eventToDict event).canon = .ok (some event) := by
  have hKeys := nodup_eventFields event
  obtain ⟨hId, hVersion, hRun, hSeq, hKind, hTime, hTask, hComponent, hMessage⟩ :=
    getValue_eventFields event
  obtain ⟨hRunText, hSeqOk, hTimeText, ⟨hTaskIds, hComponentIds⟩, -, hSchema, hNumber, -⟩ :=
    RunEventFields.check_eq_ok_iff.mp event.property
  have hBuilt : Checked.construct RunEventFields.check
      { runId := event.val.runId
        seq := event.val.seq
        eventType := event.val.eventType
        timestamp := event.val.timestamp
        taskId := event.val.taskId
        componentId := event.val.componentId
        message := event.val.message } = .ok event := by
    rw [Checked.construct_eq_ok_iff]
    obtain ⟨⟨_, _, _, _, _, _, _, _, _⟩, _⟩ := event
    cases hSchema
    cases hNumber
    rfl
  have hValues : RunEvent.ofValues (canonical (eventFields event)) event.val.eventType = .ok event := by
    refine step (text_canon hKeys hRun hRunText _) ?_
    refine step (nonNegative_canon hKeys hSeq hSeqOk _) ?_
    refine step (text_canon hKeys hTime hTimeText _) ?_
    refine step (optionalIdentifier_canon hKeys hTask hTaskIds _) ?_
    refine step (optionalIdentifier_canon hKeys hComponent hComponentIds _) ?_
    exact step (string_canon hKeys hMessage _) hBuilt
  have hEnvelope : checkEnvelope (canonical (eventFields event)) (py "ici.next.event") 1 = .ok () := by
    unfold checkEnvelope
    rw [getValue_canon hKeys, getValue_canon hKeys, hId, hVersion, hSchema, hNumber]
    rfl
  have hMember : enumMember eventTypes (getValue (canonical (eventFields event)) (py "event_type")) =
      some event.val.eventType := by
    rw [getValue_canon hKeys, hKind]
    exact enumMember_eventType _
  rw [eventToDict, canon_obj]
  refine step rfl (step hEnvelope ?_)
  rw [hMember]
  dsimp only
  rw [hValues]
  rfl

theorem readsWithin_eventToDict : ReadsWithin 1 (eventToDict event) := by
  refine ReadsWithin.obj (nodup_eventFields event) ?_
  unfold eventFields
  simp only [forall_mem_append, forall_mem_cons, forall_optional_iff, forall_nonEmpty_iff,
    Option.map_eq_some_iff]
  refine ⟨⟨⟨⟨.str _, .int _, .str _, .int _, .str _, .str _, forall_mem_nil _⟩, ?_⟩, ?_⟩,
    fun _ => .str _⟩ <;>
  · rintro _ ⟨t, -, rfl⟩
    exact .str t

end

section Records

variable (nesting : Nesting) {event : RunEvent} {record : Text}

section

variable (h : dumps (eventToDict event) = .ok record)
include h

theorem loads_record : loads nesting.limit record = .ok (eventToDict event).canon :=
  (readsWithin_eventToDict event).loads (le_trans (by omega) nesting.enough) h

theorem refuses_record_cut {p : Text} (hp : IsCut p record) : Refuses (loads nesting.limit p) :=
  refuses_loads_cut isLegible_codecStyle
    ((readsWithin_eventToDict event).depth_le.trans (le_trans (by omega) nesting.enough))
    (readsWithin_eventToDict event).readable h hp

theorem record_head : ∃ u, record = 0x7b :: u := by
  obtain ⟨parts, rfl, -⟩ := encode_obj_eq_ok.mp h
  exact ⟨_, rfl⟩

omit h in
theorem strip_ne_nil {c : CodePoint} (hc : isSpace c = false) (t : Text) : strip (c :: t) ≠ [] := by
  intro h
  rw [strip, dropWhile_cons_of_neg (by simp [hc]), rdropWhile_eq_nil_iff] at h
  have hSpace := h c mem_cons_self
  rw [hc] at hSpace
  cases hSpace

theorem readLine_record {read : EventsRead}
    (hSeq : ∀ last ∈ read.lastSeq, event.val.seq = last + 1) (number : ℕ) :
    ∃ next, readLine nesting read (record, number) = .ok next ∧
      next.events = read.events ++ [event] ∧ next.skipped = read.skipped ∧
      next.lastSeq = some event.val.seq := by
  obtain ⟨u, hHead⟩ := record_head h
  have hNote : seqNote read.lastSeq event.val.seq number = .ok none := by
    cases hLast : read.lastSeq with
    | none => rfl
    | some last => exact if_pos (hSeq last hLast)
  have hVisible : strip record ≠ [] := by
    rw [hHead]
    exact strip_ne_nil (by decide) u
  unfold readLine
  dsimp only
  rw [if_neg hVisible, loads_record nesting h]
  dsimp only [bind, Except.bind]
  rw [eventFromDict_canon]
  dsimp only
  rw [hNote]
  exact ⟨_, rfl, rfl, append_nil _, rfl⟩

theorem readLine_cut {p : Text} (hp : IsCut p record) (hNe : p ≠ []) (read : EventsRead) (number : ℕ) :
    ∃ next note, readLine nesting read (p, number) = .ok next ∧ next.events = read.events ∧
      next.skipped = read.skipped ++ [note] := by
  obtain ⟨u, rfl⟩ := record_head h
  obtain ⟨q, rfl⟩ : ∃ q, p = 0x7b :: q := by
    rcases hp.cons_cases with rfl | ⟨q, rfl, -⟩
    · exact absurd rfl hNe
    · exact ⟨q, rfl⟩
  obtain ⟨e, hLoads, hMalformed⟩ := refuses_record_cut nesting h hp
  unfold readLine
  dsimp only
  rw [if_neg (strip_ne_nil (by decide) q), hLoads]
  exact ⟨_, _, if_pos (isValueError_of_malformed hMalformed), rfl, rfl⟩

end

end Records

/-! ## The stream -/

def scanLines (nesting : Nesting) (read : EventsRead) (number : ℕ) (text : Text) : Result EventsRead :=
  ((splitLines text).zipIdx number).foldlM (readLine nesting) read

abbrev Records (events : List RunEvent) (records : List Text) : Prop :=
  List.Forall₂ (fun event record => dumps (eventToDict event) = .ok record) events records

def framed (records : List Text) : Text := (records.map (· ++ [0xa])).flatten

theorem framed_cons (record : Text) (records : List Text) :
    framed (record :: records) = record ++ 0xa :: framed records := by
  simp [framed]

variable {events : List RunEvent} {text line name : Text} {holds : Leaf → Prop}

theorem eventsToJsonl_eq_ok_iff :
    eventsToJsonl events = .ok text ↔ ∃ records, Records events records ∧ framed records = text := by
  unfold eventsToJsonl Records
  rw [map_eq_ok]
  constructor
  · rintro ⟨lines, hLines, rfl⟩
    have hForall := mapM_eq_ok.mp hLines
    simp only [map_eq_ok] at hForall
    clear hLines
    induction hForall with
    | nil => exact ⟨[], .nil, rfl⟩
    | cons hHead _ ih =>
      obtain ⟨record, hRecord, rfl⟩ := hHead
      obtain ⟨records, hRecords, hText⟩ := ih
      exact ⟨record :: records, .cons hRecord hRecords, by rw [framed_cons, hText]; simp⟩
  · rintro ⟨records, hRecords, rfl⟩
    refine ⟨records.map (· ++ [0xa]), mapM_eq_ok.mpr ?_, rfl⟩
    rw [forall₂_map_right_iff]
    exact hRecords.imp fun event record h => map_eq_ok.mpr ⟨record, h, rfl⟩

def Consecutive (last : Option ℤ) : List RunEvent → Prop
  | [] => True
  | event :: rest => (∀ seq ∈ last, event.val.seq = seq + 1) ∧ Consecutive (some event.val.seq) rest

variable {nesting : Nesting}

theorem scanLines_line (h : Unbroken line) (read : EventsRead) (number : ℕ) (rest : Text) :
    scanLines nesting read number (line ++ 0xa :: rest) =
      (readLine nesting read (line, number) >>= fun read => scanLines nesting read (number + 1) rest) := by
  rw [scanLines, splitLines_line h, zipIdx_cons, foldlM_cons]
  rfl

theorem scanLines_last (h : Unbroken line) (hNe : line ≠ []) (read : EventsRead) (number : ℕ) :
    scanLines nesting read number line = readLine nesting read (line, number) := by
  rw [scanLines, splitLines_of_unbroken h hNe]
  exact bind_pure _

theorem scanLines_prefix (nesting : Nesting) {events : List RunEvent} {records : List Text}
    (h : Records events records) (hLines : ∀ record ∈ records, Unbroken record) (read : EventsRead)
    (hSeq : Consecutive read.lastSeq events) (number : ℕ) {p : Text} (hp : p <+: framed records) :
    ∃ result found notes, scanLines nesting read number p = .ok result ∧ found <+: events ∧
      result.events = read.events ++ found ∧ result.skipped = read.skipped ++ notes ∧
      notes.length ≤ 1 ∧ (p = framed records → found = events ∧ notes = []) := by
  induction h generalizing read number p with
  | nil =>
    obtain rfl := prefix_nil.mp hp
    exact ⟨read, [], [], rfl, nil_prefix, by simp, by simp, by simp, fun _ => ⟨rfl, rfl⟩⟩
  | @cons event record events records hRecord hRest ih =>
    have hUnbroken := hLines record mem_cons_self
    obtain ⟨next, hRead, hNextEvents, hNextSkipped, hNextSeq⟩ :=
      readLine_record nesting hRecord hSeq.1 number
    obtain ⟨u, hHead⟩ := record_head hRecord
    rw [framed_cons] at hp ⊢
    rcases prefix_append_cases hp with hCut | ⟨q, rfl, hq⟩
    · have hShort : p ≠ record ++ 0xa :: framed records := by
        rintro rfl
        exact hCut.ne (hCut.isPrefix.eq_of_length_le (by simp))
      rcases eq_or_ne p [] with rfl | hNe
      · exact ⟨read, [], [], rfl, nil_prefix, by simp, by simp, by simp,
          fun hEq => absurd hEq hShort⟩
      · obtain ⟨cut, note, hNote, hCutEvents, hCutSkipped⟩ :=
          readLine_cut nesting hRecord hCut hNe read number
        refine ⟨cut, [], [note], ?_, nil_prefix, by simp [hCutEvents], hCutSkipped, le_refl 1,
          fun hEq => absurd hEq hShort⟩
        rw [scanLines_last (fun c hc => hUnbroken c (hCut.subset c hc)) hNe, hNote]
    · rcases prefix_cons_iff.mp hq with rfl | ⟨rest, rfl, hRestPrefix⟩
      · refine ⟨next, [event], [], ?_, ?_, hNextEvents, by simp [hNextSkipped], Nat.zero_le 1,
          fun hEq => ?_⟩
        · rw [append_nil, scanLines_last hUnbroken (by simp [hHead]), hRead]
        · exact prefix_append [event] events
        · simp at hEq
      · obtain ⟨result, found, notes, hResult, hFound, hEvents, hSkipped, hNotes, hAll⟩ :=
          ih (fun r hr => hLines r (mem_cons_of_mem _ hr)) next (hNextSeq ▸ hSeq.2) (number + 1)
            hRestPrefix
        refine ⟨result, event :: found, notes, ?_, ?_, ?_, hSkipped.trans (by rw [hNextSkipped]),
          hNotes, fun hEq => ?_⟩
        · rw [scanLines_line hUnbroken, hRead]
          exact hResult
        · exact cons_prefix_cons.mpr ⟨rfl, hFound⟩
        · rw [hEvents, hNextEvents, append_assoc]
          rfl
        · obtain ⟨rfl, hNone⟩ := hAll (cons.inj (append_cancel_left hEq)).2
          exact ⟨rfl, hNone⟩

theorem readLine_skipped {read next : EventsRead} {line : Text × ℕ}
    (h : readLine nesting read line = .ok next) : read.skipped <+: next.skipped := by
  unfold readLine at h
  split at h
  · cases h
    exact prefix_rfl
  · split at h
    · split at h
      · cases h
        exact prefix_append _ _
      · cases h
    · obtain ⟨event, -, h⟩ := bind_eq_ok.mp h
      cases event with
      | none =>
        cases h
        exact prefix_append _ _
      | some event =>
        obtain ⟨note, -, h⟩ := bind_eq_ok.mp h
        cases h
        exact prefix_append _ _

theorem skipped_of_broken {records : List Text}
    (h : Records events records) (hBroken : ∃ record ∈ records, ¬Unbroken record)
    {read result : EventsRead} {number : ℕ}
    (hResult : scanLines nesting read number (framed records) = .ok result) : result.skipped ≠ [] := by
  induction h generalizing read number with
  | nil =>
    obtain ⟨_, hMem, -⟩ := hBroken
    cases hMem
  | @cons event record events records hRecord _ ih =>
    obtain ⟨u, hHead⟩ := record_head hRecord
    rw [framed_cons] at hResult
    by_cases hUnbroken : Unbroken record
    · have hLater : ∃ later ∈ records, ¬Unbroken later := by
        obtain ⟨later, hMem, hLater⟩ := hBroken
        rcases mem_cons.mp hMem with rfl | hMem
        · exact absurd hUnbroken hLater
        · exact ⟨later, hMem, hLater⟩
      rw [scanLines_line hUnbroken] at hResult
      obtain ⟨next, -, hRest⟩ := bind_eq_ok.mp hResult
      exact ih hLater hRest
    · obtain ⟨line, c, rest, rfl, hLine, hc⟩ := exists_break_of_not_unbroken hUnbroken
      have hNe : line ≠ [] := by
        rintro rfl
        obtain ⟨rfl, -⟩ := cons.inj hHead
        cases hc
      have hCut : IsCut line (line ++ c :: rest) := ⟨prefix_append _ _, by simp⟩
      obtain ⟨cut, note, hNote, -, hSkipped⟩ :=
        readLine_cut nesting hRecord hCut hNe read number
      obtain ⟨lines, hLines⟩ := exists_splitLines_of_break hc hLine (rest ++ 0xa :: framed records)
      rw [append_assoc, cons_append, scanLines, hLines, zipIdx_cons] at hResult
      obtain ⟨next, hNext, hRest⟩ := foldlM_cons_eq_ok.mp hResult
      rw [hNote] at hNext
      cases hNext
      have hPrefix := foldlM_invariant (fun later => cut.skipped <+: later.skipped)
        (fun _ _ _ _ hBefore hStep => hBefore.trans (readLine_skipped hStep)) prefix_rfl hRest
      intro hNil
      rw [hNil, hSkipped] at hPrefix
      simp at hPrefix

/-! ## Which events survive the stream -/

def IsStreamable (event : RunEvent) : Prop :=
  FitsDigitLimit event.val.seq ∧
    ∀ c ∈ event.val.runId ++ event.val.timestamp ++ event.val.message, isBareBreak c = false

instance (event : RunEvent) : Decidable (IsStreamable event) :=
  haveI := List.decidableBAll (isBareBreak · = false)
    (event.val.runId ++ event.val.timestamp ++ event.val.message)
  inferInstanceAs (Decidable (_ ∧ _))

theorem forall_optional_leaves_iff {value : Option Text} : (∀ field ∈ optional name (value.map Json.str),
      holds (.text field.1) ∧ ∀ leaf ∈ field.2.leaves, holds leaf) ↔
        ∀ t ∈ value, holds (.text name) ∧ holds (.text t) := by
  cases value <;> simp [optional, leaves]

theorem forall_nonEmpty_leaves_iff {value : Text} : (∀ field ∈ nonEmpty name value,
      holds (.text field.1) ∧ ∀ leaf ∈ field.2.leaves, holds leaf) ↔
        (value ≠ [] → holds (.text name) ∧ holds (.text value)) := by
  unfold nonEmpty
  split <;> simp [leaves, *]

variable {event : RunEvent}

theorem forall_leaves_eventToDict (hNames : ∀ name ∈ eventNames, holds (.text name)) :
    (∀ leaf ∈ (eventToDict event).leaves, holds leaf) ↔
      (holds (.text event.val.schemaId) ∧ holds (.int event.val.schemaVersion) ∧
        holds (.text event.val.runId) ∧ holds (.int event.val.seq) ∧
        holds (.text event.val.eventType.value) ∧ holds (.text event.val.timestamp)) ∧
      (∀ t ∈ event.val.taskId, holds (.text t)) ∧ (∀ t ∈ event.val.componentId, holds (.text t)) ∧
      (event.val.message ≠ [] → holds (.text event.val.message)) := by
  have hName (name : Text) (hMem : name ∈ eventNames) : holds (.text name) ↔ True :=
    iff_true_intro (hNames name hMem)
  rw [eventToDict, leaves, forall_leavesOfFields_iff, eventFields]
  simp only [forall_mem_append, forall_mem_cons, forall_optional_leaves_iff,
    forall_nonEmpty_leaves_iff, leaves, mem_singleton, forall_eq]
  rw [hName (py "schema_id") (by decide), hName (py "schema_version") (by decide),
    hName (py "run_id") (by decide), hName (py "seq") (by decide), hName (py "event_type") (by decide),
    hName (py "timestamp") (by decide), hName (py "task_id") (by decide),
    hName (py "component_id") (by decide), hName (py "message") (by decide)]
  simp only [true_and, and_assoc]

theorem exists_dumps_event_iff :
    (∃ record, dumps (eventToDict event) = .ok record) ↔ FitsDigitLimit event.val.seq := by
  obtain ⟨-, -, -, -, -, -, hVersion, -⟩ := RunEventFields.check_eq_ok_iff.mp event.property
  have hOne : FitsDigitLimit 1 := by decide
  unfold dumps
  rw [exists_encode_iff, forall_leaves_eventToDict fun _ _ => trivial]
  simp only [Leaf.IsPrintable, hVersion, hOne, true_and, and_true, implies_true]

theorem isPlain_identifier {t : Text} (h : IsIdentifier t) : IsPlain t := by
  intro c hc
  simp only [IsIdentifier, identifierMatch, Bool.and_eq_true, all_eq_true] at h
  have hChar := h.2 c hc
  simp only [isIdentifierChar, isLowerAlnum, Bool.or_eq_true, Bool.and_eq_true, decide_eq_true_eq,
    beq_iff_eq] at hChar
  omega

/-- Only the run, the time and the message of an event are texts of any kind. -/
theorem forall_leaves_event_iff (hPlain : ∀ t, IsPlain t → holds (.text t))
    (hNumber : ∀ n, holds (.int n)) : (∀ leaf ∈ (eventToDict event).leaves, holds leaf) ↔
      holds (.text event.val.runId) ∧ holds (.text event.val.timestamp) ∧ holds (.text event.val.message) := by
  obtain ⟨-, -, -, ⟨hTask, hComponent⟩, -, hSchema, -, -⟩ :=
    RunEventFields.check_eq_ok_iff.mp event.property
  have hNamed {t : Text} (h : IsIdentifier t) := hPlain t (isPlain_identifier h)
  have hNames : ∀ name ∈ eventNames, IsIdentifier name := by decide
  have hKind : IsIdentifier event.val.eventType.value := by
    cases event.val.eventType <;> decide
  rw [forall_leaves_eventToDict fun name hMem => hNamed (hNames name hMem), hSchema]
  constructor
  · rintro ⟨⟨-, -, hRun, -, -, hTime⟩, -, -, hMessage⟩
    refine ⟨hRun, hTime, ?_⟩
    by_cases hEmpty : event.val.message = []
    · exact hEmpty ▸ hPlain [] nofun
    · exact hMessage hEmpty
  · rintro ⟨hRun, hTime, hMessage⟩
    exact ⟨⟨hNamed (by decide), hNumber _, hRun, hNumber _, hNamed hKind, hTime⟩,
      fun t ht => hNamed (hTask t ht), fun t ht => hNamed (hComponent t ht), fun _ => hMessage⟩

theorem codecStyle_oneLine : codecStyle.Admits (isLineBreak · = false) where
  plain _ hc := isLineBreak_of_plain hc
  item := (by decide : Unbroken (py ","))
  key := (by decide : Unbroken (py ":"))

theorem unbroken_record_iff {record : Text} (h : dumps (eventToDict event) = .ok record) : Unbroken record ↔
      ∀ c ∈ event.val.runId ++ event.val.timestamp ++ event.val.message, isBareBreak c = false := by
  have hPlain (t : Text) (ht : IsPlain t) : (Leaf.text t).IsOneLine := fun c hc => by
    have hChar := ht c hc
    rw [isBareBreak_eq_isLineBreak (by omega)]
    exact isLineBreak_of_plain hChar
  rw [unbroken_encode_iff rfl codecStyle_oneLine h, forall_leaves_event_iff hPlain fun _ => trivial,
    forall_mem_append, forall_mem_append, and_assoc]
  rfl

/-- The stream is written, reads back, and whatever was flushed of it reads as its first events. -/
def StreamsSafely (nesting : Nesting) (events : List RunEvent) : Prop :=
  ∃ text, eventsToJsonl events = .ok text ∧ eventsFromJsonl nesting text = .ok (events, []) ∧
    ∀ flushed, flushed <+: text → ∃ found skipped,
      eventsFromJsonl nesting flushed = .ok (found, skipped) ∧ found <+: events ∧ skipped.length ≤ 1

theorem eventsFromJsonl_eq_ok_iff {found : List RunEvent} {skipped : List Text} :
    eventsFromJsonl nesting text = .ok (found, skipped) ↔
      ∃ result, scanLines nesting {} 1 text = .ok result ∧ result.events = found ∧
        result.skipped = skipped := by
  unfold eventsFromJsonl scanLines
  simp only [map_eq_ok, Prod.mk.injEq]

theorem isStreamable_of_streamsSafely (h : StreamsSafely nesting events) :
    ∀ event ∈ events, IsStreamable event := by
  obtain ⟨text, hText, hRead, -⟩ := h
  obtain ⟨records, hRecords, rfl⟩ := eventsToJsonl_eq_ok_iff.mp hText
  obtain ⟨result, hResult, -, hSkipped⟩ := eventsFromJsonl_eq_ok_iff.mp hRead
  have hUnbroken : ∀ record ∈ records, Unbroken record := by
    intro record hMem
    by_contra hBroken
    exact skipped_of_broken hRecords ⟨record, hMem, hBroken⟩ hResult hSkipped
  clear hText hRead hResult
  induction hRecords with
  | nil => exact fun _ hMem => nomatch hMem
  | cons hRecord _ ih =>
    refine forall_mem_cons.mpr ⟨⟨exists_dumps_event_iff.mp ⟨_, hRecord⟩, ?_⟩, ?_⟩
    · exact (unbroken_record_iff hRecord).mp (hUnbroken _ mem_cons_self)
    · exact ih fun record hMem => hUnbroken record (mem_cons_of_mem _ hMem)

theorem exists_records (h : ∀ event ∈ events, IsStreamable event) :
    ∃ records, Records events records ∧ ∀ record ∈ records, Unbroken record := by
  induction events with
  | nil => exact ⟨[], .nil, forall_mem_nil _⟩
  | cons event events ih =>
    obtain ⟨⟨hSeq, hLine⟩, hRest⟩ := forall_mem_cons.mp h
    obtain ⟨record, hRecord⟩ := exists_dumps_event_iff.mpr hSeq
    obtain ⟨records, hRecords, hLines⟩ := ih hRest
    exact ⟨record :: records, .cons hRecord hRecords,
      forall_mem_cons.mpr ⟨(unbroken_record_iff hRecord).mpr hLine, hLines⟩⟩

/-- Consecutive events survive the stream, and every truncation of it, exactly when each of their
records is one line that can be written. -/
theorem streamsSafely_iff (nesting : Nesting) {events : List RunEvent} (hSeq : Consecutive none events) :
    StreamsSafely nesting events ↔ ∀ event ∈ events, IsStreamable event := by
  refine ⟨isStreamable_of_streamsSafely, fun h => ?_⟩
  obtain ⟨records, hRecords, hLines⟩ := exists_records h
  refine ⟨framed records, eventsToJsonl_eq_ok_iff.mpr ⟨records, hRecords, rfl⟩, ?_, fun flushed hp => ?_⟩
  · obtain ⟨result, found, notes, hResult, -, hEvents, hSkipped, -, hAll⟩ :=
      scanLines_prefix nesting hRecords hLines {} hSeq 1 prefix_rfl
    obtain ⟨rfl, rfl⟩ := hAll rfl
    exact eventsFromJsonl_eq_ok_iff.mpr ⟨result, hResult, hEvents, hSkipped⟩
  · obtain ⟨result, found, notes, hResult, hFound, hEvents, hSkipped, hNotes, -⟩ :=
      scanLines_prefix nesting hRecords hLines {} hSeq 1 hp
    exact ⟨found, notes, eventsFromJsonl_eq_ok_iff.mpr ⟨result, hResult, hEvents, hSkipped⟩, hFound,
      hNotes⟩

def startedEvent : RunEvent :=
  ⟨{ runId := py "run-1"
     seq := 0
     eventType := .runStarted
     timestamp := py "2026-07-01T08:00:00Z" }, by decide⟩

def newlineEvent : RunEvent :=
  ⟨{ runId := py "run-1"
     seq := 1
     eventType := .diagnostic
     timestamp := py "2026-07-01T08:00:01Z"
     message := py "one\ntwo" }, by decide⟩

/-- A newline in a message is escaped. -/
theorem streamsSafely_newline : StreamsSafely ⟨16, le_refl 16⟩ [startedEvent, newlineEvent] :=
  (streamsSafely_iff ⟨16, le_refl 16⟩ (by simp [Consecutive, startedEvent, newlineEvent])).mpr
    (by decide)

def separatorEvent : RunEvent :=
  ⟨{ runId := py "run-1"
     seq := 1
     eventType := .diagnostic
     timestamp := py "2026-07-01T08:00:01Z"
     message := py "one" ++ [0x2028] ++ py "two" }, by decide⟩

/-- A line separator is not, and the reader ends a line there. -/
theorem not_streamsSafely_separator : Consecutive none [startedEvent, separatorEvent] ∧
    ¬StreamsSafely ⟨16, le_refl 16⟩ [startedEvent, separatorEvent] := by
  refine ⟨by simp [Consecutive, startedEvent, separatorEvent], fun h => ?_⟩
  obtain ⟨-, hLine⟩ := isStreamable_of_streamsSafely h separatorEvent (by simp)
  exact absurd (hLine 0x2028 (by decide)) (by decide)

end Ici
