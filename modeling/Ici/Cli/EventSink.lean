import Ici.Application.Schedule
import Ici.Domain.EventRoundTrip

/-! # The event sink of a run

One critical section each: the sequence number, the event and its line. -/

namespace Ici

open List Raising Python Json

structure EventSink where
  runId : Text
  seq : ℕ := 0
  file : Option (List UInt8) := none

namespace EventSink

def eventLine (event : RunEvent) : Result (List UInt8) :=
  (dumps (eventToDict event)).bind fun record => utf8 (record ++ [0xa])

section

variable (sink : EventSink) (now : UtcTime)

/-- `emit`, under the lock: what is left of the sink, and whether the call returned. -/
def emit (eventType : EventType) (taskId componentId : Option Text)
    (message : Text) : EventSink × Result Unit :=
  let opened := { sink with file := some (sink.file.getD []) }
  let event := Checked.construct RunEventFields.check
    { runId := sink.runId
      seq := sink.seq
      eventType
      timestamp := now.isoformat
      taskId
      componentId
      message }
  match event with
  | .error e => (opened, .error e)
  | .ok event =>
    let counted := { opened with seq := sink.seq + 1 }
    match eventLine event with
    | .error e => (counted, .error e)
    | .ok line => ({ counted with file := some (sink.file.getD [] ++ line) }, .ok ())

def onStarted (unit : WorkUnit) : EventSink × Result Unit :=
  sink.emit now .taskStarted (some unit.val.id) none []

def completedMessage (execution : Execution) : Text :=
  execution.state.value ++ if execution.detail = [] then [] else py " — " ++ execution.detail

def onExecution (execution : Execution) : EventSink × Result Unit :=
  sink.emit now .taskCompleted (some execution.unit) none (completedMessage execution)

end

end EventSink

theorem isText_of_isInk {t : Text} (h : IsInk t) (hNe : t ≠ []) : IsText t :=
  ⟨hNe, fun _ => h.isSpace (head_mem _), fun _ => h.isSpace (getLast_mem _)⟩

theorem noSurrogate_record_iff {event : RunEvent} {record : Text} (h : dumps (eventToDict event) = .ok record)
    (hTime : NoSurrogate event.val.timestamp) :
    NoSurrogate record ↔ NoSurrogate event.val.runId ∧ NoSurrogate event.val.message := by
  rw [noSurrogate_encode_iff rfl codecStyle_admits h,
    forall_leaves_event_iff (fun _ ht => ht.noSurrogate) fun _ => trivial]
  exact and_congr_right' (and_iff_right hTime)

theorem newline_notMem_escapeChar (c : CodePoint) : 0xa ∉ escapeChar false c := by
  have hHex : (0xa : CodePoint) ∉ py "\\u" ++ hex 4 c.val := by
    intro hMem
    have hPlain := (IsPlain.append (by decide) (isPlain_hex 4 c.val)) _ hMem
    exact absurd hPlain.1 (by decide)
  unfold escapeChar
  split
  · rename_i hEscaped
    rcases hEscaped with rfl | rfl <;> decide
  iterate 5
    split
    · decide
  split
  · exact hHex
  · rename_i hNewline _ _ _
    simpa using Ne.symm hNewline

theorem newline_notMem_record {event : RunEvent} {record : Text} (h : dumps (eventToDict event) = .ok record) :
    0xa ∉ record := by
  have hAdmits : codecStyle.Admits (· ≠ 0xa) :=
    ⟨fun c hc hEq => by subst hEq; exact absurd hc.1 (by decide),
      forall_mem_singleton.mpr (by decide), forall_mem_singleton.mpr (by decide)⟩
  have hAll : ∀ c ∈ record, c ≠ 0xa := by
    refine (forall_encode_iff hAdmits _ _ h).mpr fun leaf _ => ?_
    cases leaf with
    | text value =>
      intro d hd hEq
      obtain ⟨c, -, hc⟩ := mem_flatMap.mp hd
      exact newline_notMem_escapeChar c (hEq ▸ hc)
    | _ => trivial
  exact fun hMem => hAll _ hMem rfl

/-! ## What a call does -/

namespace EventSink

structure Takes (sink : EventSink) (taskId message : Text) : Prop where
  runId : IsText sink.runId ∧ NoSurrogate sink.runId
  taskId : IsIdentifier taskId
  fits : message.length ≤ maxPayloadChars
  encodable : NoSurrogate message
  countable : FitsDigitLimit sink.seq

structure Wrote (sink : EventSink) (events : List RunEvent) : Prop where
  counted : sink.seq = events.length
  numbered : events.map (·.val.seq) = (List.range events.length).map Int.ofNat
  lines : ∃ records, Records events records ∧ (∀ record ∈ records, 0xa ∉ record) ∧
    utf8 (framed records) = .ok (sink.file.getD [])

def taskEvent (sink : EventSink) (now : UtcTime) (eventType : EventType) (taskId message : Text) :
    RunEventFields where
  runId := sink.runId
  seq := sink.seq
  eventType := eventType
  timestamp := now.isoformat
  taskId := some taskId
  message := message

section

variable {sink : EventSink} {now : UtcTime} {eventType : EventType} {taskId message : Text}

theorem check_taskEvent_iff : (sink.taskEvent now eventType taskId message).check = .ok () ↔
    IsText sink.runId ∧ IsIdentifier taskId ∧ message.length ≤ maxPayloadChars := by
  have hTime := isText_of_isInk now.isInk_isoformat now.isoformat_ne_nil
  rw [RunEventFields.check_eq_ok_iff]
  simp [taskEvent, hTime]

theorem exists_eventLine_iff {event : RunEvent}
    (hEvent : event.val = sink.taskEvent now eventType taskId message) :
    (∃ line, eventLine event = .ok line) ↔
      FitsDigitLimit sink.seq ∧ NoSurrogate sink.runId ∧ NoSurrogate message := by
  have hSeq : event.val.seq = sink.seq := by rw [hEvent]; rfl
  have hTime : NoSurrogate event.val.timestamp := by
    rw [hEvent]
    exact now.isInk_isoformat.isPlain.noSurrogate
  have hRun : event.val.runId = sink.runId := by rw [hEvent]; rfl
  have hMessage : event.val.message = message := by rw [hEvent]; rfl
  constructor
  · rintro ⟨line, hLine⟩
    obtain ⟨record, hRecord, hBytes⟩ := bind_eq_ok.mp hLine
    obtain ⟨hText, -⟩ := noSurrogate_append.mp (exists_utf8_iff.mp ⟨line, hBytes⟩)
    rw [noSurrogate_record_iff hRecord hTime, hRun, hMessage] at hText
    exact ⟨hSeq ▸ exists_dumps_event_iff.mp ⟨record, hRecord⟩, hText⟩
  · rintro ⟨hCount, hText⟩
    obtain ⟨record, hRecord⟩ := exists_dumps_event_iff.mpr (hSeq ▸ hCount)
    rw [← hRun, ← hMessage, ← noSurrogate_record_iff hRecord hTime] at hText
    have hLineText := noSurrogate_append.mpr ⟨hText, (by decide : NoSurrogate [0xa])⟩
    obtain ⟨line, hLine⟩ := exists_utf8_iff.mpr hLineText
    exact ⟨line, bind_eq_ok.mpr ⟨record, hRecord, hLine⟩⟩

def wrote (sink : EventSink) (line : List UInt8) : EventSink :=
  { sink with
    seq := sink.seq + 1
    file := some (sink.file.getD [] ++ line) }

theorem emit_eq_ok {after : EventSink}
    (h : sink.emit now eventType (some taskId) none message = (after, .ok ())) :
    ∃ event line, event.val = sink.taskEvent now eventType taskId message ∧ eventLine event = .ok line ∧
      after = sink.wrote line := by
  unfold emit at h
  dsimp only at h
  split at h
  · cases h
  · rename_i event hEvent
    split at h
    · cases h
    · rename_i line hLine
      cases h
      exact ⟨event, line, Checked.construct_eq_ok_iff.mp hEvent, hLine, rfl⟩

theorem emit_of_eventLine {event : RunEvent} {line : List UInt8}
    (hEvent : event.val = sink.taskEvent now eventType taskId message) (hLine : eventLine event = .ok line) :
    sink.emit now eventType (some taskId) none message = (sink.wrote line, .ok ()) := by
  have hBuilt : Checked.construct RunEventFields.check (sink.taskEvent now eventType taskId message) =
      .ok event :=
    Checked.construct_eq_ok_iff.mpr hEvent
  unfold taskEvent at hBuilt
  unfold emit
  rw [hBuilt]
  dsimp only
  rw [hLine]
  rfl

theorem exists_emit_iff : (∃ after, sink.emit now eventType (some taskId) none message = (after, .ok ())) ↔
    sink.Takes taskId message := by
  constructor
  · rintro ⟨after, h⟩
    obtain ⟨event, line, hEvent, hLine, -⟩ := emit_eq_ok h
    obtain ⟨hRun, hTask, hFits⟩ := check_taskEvent_iff.mp (hEvent ▸ event.property)
    obtain ⟨hCount, hRunText, hText⟩ := (exists_eventLine_iff hEvent).mp ⟨line, hLine⟩
    exact ⟨⟨hRun, hRunText⟩, hTask, hFits, hText, hCount⟩
  · intro h
    have hCheck := (@check_taskEvent_iff sink now eventType taskId message).mpr ⟨h.runId.1, h.taskId, h.fits⟩
    obtain ⟨line, hLine⟩ := (@exists_eventLine_iff sink now eventType taskId message ⟨_, hCheck⟩ rfl).mpr
      ⟨h.countable, h.runId.2, h.encodable⟩
    exact ⟨_, emit_of_eventLine rfl hLine⟩

theorem Wrote.empty (runId : Text) : Wrote { runId } [] :=
  ⟨rfl, rfl, [], .nil, forall_mem_nil _, rfl⟩

theorem Wrote.wrote {events : List RunEvent} (h : sink.Wrote events) {event : RunEvent} {line : List UInt8}
    (hEvent : event.val = sink.taskEvent now eventType taskId message) (hLine : eventLine event = .ok line) :
    (sink.wrote line).Wrote (events ++ [event]) := by
  obtain ⟨record, hRecord, hBytes⟩ := bind_eq_ok.mp hLine
  obtain ⟨records, hRecords, hWhole, hFile⟩ := h.lines
  have hSeq : event.val.seq = Int.ofNat events.length := by
    rw [hEvent, ← h.counted]
    rfl
  refine ⟨?_, ?_, records ++ [record], ?_, ?_, ?_⟩
  · rw [length_append, length_singleton, ← h.counted]
    rfl
  · rw [map_append, h.numbered, length_append, length_singleton, range_succ, map_append, map_singleton,
    map_singleton, hSeq]
  · exact rel_append hRecords (.cons hRecord .nil)
  · intro other hOther
    rcases mem_append.mp hOther with hOld | hNew
    · exact hWhole other hOld
    · rw [mem_singleton.mp hNew]
      exact newline_notMem_record hRecord
  · have hFramed : framed (records ++ [record]) = framed records ++ (record ++ [0xa]) := by
      simp [framed]
    rw [hFramed]
    exact utf8_append hFile hBytes

end

end EventSink

end Ici
