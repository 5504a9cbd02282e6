import Doda.Api.ConversationStream
import Doda.Lib.Framing

/-!
# Reading the event stream

The frontend decodes what it reads as UTF-8, buffers it, and cuts it at blank lines.
A frame with an event line and a data line is an event.  However the bytes of a
stream of events are split among the reads, it yields the events that were sent.

## Main definitions

* `StandardJson` — `JSON.parse`.
* `cutFrame`, `readFrame` — a frame and what it yields.
* `streamConversationMessage` — the reading loop.

## Main results

* `cuts_cutFrame`, `cutFrame_frame` — frames end where they should.
* `chat_stream_round_trip` — what is sent is what is yielded.
-/

namespace Doda

/-- A parser that reads what `json.dumps` writes, where both sides have the values. -/
class StandardJson where
  /-- `JSON.parse`; `none` where it throws. -/
  parse : String → Option Json
  parse_dumps : ∀ {v : Json}, v.Plain → parse v.dumps = some v

theorem toOption_loads_dumps [JsonText] {v : Json} (hv : v.Plain) :
    (loadsWithin v.dumps.length v.dumps).toOption = some v := by
  rw [loads_dumps hv (by simp [Json.dumps])]
  rfl

/-- `json.loads` is one, where no text nests too deep for it. -/
@[reducible] def StandardJson.ofLoads [JsonText] : StandardJson :=
  ⟨fun text => (loadsWithin text.length text).toOption, toOption_loads_dumps⟩

/-! ## The reader -/

/-- `buffer.slice(0, frameEnd)` and `buffer.slice(frameEnd + 2)`, where `frameEnd` is
`buffer.indexOf("\n\n")`. -/
def cutFrame : List Char → Option (List Char × List Char)
  | [] => none
  | c :: s =>
    if c = '\n' ∧ s.head? = some '\n' then some ([], s.tail)
    else (cutFrame s).map fun (frame, rest) => (c :: frame, rest)

/-- `frame.split("\n").find((line) => line.startsWith(start))`. -/
def findLine (start : String) (frame : List Char) : Option (List Char) :=
  (frame.splitOn '\n').find? fun line => start.toList.isPrefixOf line

/-- `{ kind, ...data }`; what is no object has no fields to spread. -/
def spread (kind : String) (data : Json) : Json :=
  match data with
  | .obj kvs => .obj (kvs.foldl (fun fields (k, v) => putField k v fields) [("kind", .str kind)])
  | _ => .obj [("kind", .str kind)]

/-- What a frame comes to. -/
inductive FrameResult where
  | yields (event : Json)
  | skipped
  /-- `JSON.parse` throws. -/
  | throws

section Reader

variable [StandardJson]

/-- The body of the inner loop. -/
def readFrame (frame : List Char) : FrameResult :=
  match findLine "event: " frame, findLine "data: " frame with
  | some eventLine, some dataLine =>
    match StandardJson.parse (String.ofList (dataLine.drop "data: ".length)) with
    | some data => .yields (spread (String.ofList (eventLine.drop "event: ".length)) data)
    | none => .throws
  | _, _ => .skipped

/-- The frames in order, up to one that throws: what is yielded, and whether none threw. -/
def yieldFrames : List (List Char) → List Json × Bool
  | [] => ([], true)
  | frame :: frames =>
    match readFrame frame with
    | .yields event => (event :: (yieldFrames frames).1, (yieldFrames frames).2)
    | .skipped => yieldFrames frames
    | .throws => ([], false)

/-- The outer loop, from what is decoded and buffered on. -/
def readLoop (decoder : Utf8Decoder) (buffer : List Char) : List (List UInt8) → List Json × Bool
  | [] => ([], true)
  | value :: values =>
    let (decoded, decoder) := decoder.decode value
    let (frames, buffer) := Framing.drain cutFrame (buffer ++ decoded)
    match yieldFrames frames with
    | (events, true) =>
      let (more, ended) := readLoop decoder buffer values
      (events ++ more, ended)
    | (events, false) => (events, false)

/-- `streamConversationMessage`, on the reads of a response: the events it yields, and whether it
ends without an exception. -/
def streamConversationMessage (reads : List (List UInt8)) : List Json × Bool :=
  readLoop {} [] reads

end Reader

/-! ## Frames -/

theorem cutFrame_newline_newline (s : List Char) :
    cutFrame ('\n' :: '\n' :: s) = some ([], s) := by
  rw [cutFrame, if_pos ⟨rfl, rfl⟩]
  rfl

theorem cuts_cutFrame : Framing.Cuts cutFrame := by
  constructor
  · intro x
    induction x with
    | nil => simp [cutFrame]
    | cons c s ih =>
      intro f r h
      rw [cutFrame] at h
      split at h
      · simp only [Option.some.injEq, Prod.mk.injEq] at h
        obtain ⟨-, rfl⟩ := h
        simp only [List.length_tail, List.length_cons]
        omega
      · obtain ⟨⟨frame, rest⟩, hs, heq⟩ := Option.map_eq_some_iff.1 h
        obtain ⟨-, rfl⟩ := Prod.mk.inj heq
        have := ih hs
        simp only [List.length_cons]
        omega
  · intro x
    induction x with
    | nil => simp [cutFrame]
    | cons c s ih =>
      intro f r y h
      rw [List.cons_append, cutFrame]
      rw [cutFrame] at h
      split at h
      · rename_i hc
        simp only [Option.some.injEq, Prod.mk.injEq] at h
        obtain ⟨rfl, rfl⟩ := h
        obtain ⟨s', rfl⟩ : ∃ s', s = '\n' :: s' := by
          cases s with
          | nil => simp at hc
          | cons d s' => exact ⟨s', by simpa using hc.2⟩
        rw [if_pos ⟨hc.1, rfl⟩]
        rfl
      · rename_i hc
        obtain ⟨⟨frame, rest⟩, hs, heq⟩ := Option.map_eq_some_iff.1 h
        obtain ⟨rfl, rfl⟩ := Prod.mk.inj heq
        -- a frame ends inside `s`, so `s` is not empty and begins as `s ++ y` does
        have hhead : (s ++ y).head? = s.head? := by
          cases s with
          | nil => simp [cutFrame] at hs
          | cons d s' => rfl
        rw [hhead, if_neg hc, ih y hs]
        rfl

/-- A line is read over. -/
theorem cutFrame_line {line : List Char} (hline : '\n' ∉ line) (s : List Char) :
    cutFrame (line ++ s) = (cutFrame s).map fun p => (line ++ p.1, p.2) := by
  induction line with
  | nil => simp
  | cons c line ih =>
    simp only [List.mem_cons, not_or] at hline
    rw [List.cons_append, cutFrame, if_neg (fun h => hline.1 h.1.symm), ih hline.2]
    cases cutFrame s <;> rfl

/-- Two lines and a blank one. -/
theorem cutFrame_lines {line₁ line₂ : List Char} (h₁ : '\n' ∉ line₁) (h₂ : '\n' ∉ line₂)
    (hne : line₂ ≠ []) (rest : List Char) :
    cutFrame (line₁ ++ '\n' :: (line₂ ++ '\n' :: '\n' :: rest)) =
      some (line₁ ++ '\n' :: line₂, rest) := by
  have hhead : (line₂ ++ '\n' :: '\n' :: rest).head? ≠ some '\n' := by
    cases line₂ with
    | nil => exact absurd rfl hne
    | cons c line₂ =>
      simp only [List.mem_cons, not_or] at h₂
      simpa using Ne.symm h₂.1
  rw [cutFrame_line h₁, cutFrame, if_neg fun h => hhead h.2, cutFrame_line h₂,
    cutFrame_newline_newline]
  simp

/-! ## No newline in a value -/

theorem newline_notMem_hex (n x : ℕ) : '\n' ∉ hex n x := by
  have key : ∀ d : Fin 16, '\n' ≠ hexDigit d.1 := by decide
  induction n generalizing x with
  | zero => simp [hex]
  | succ n ih =>
    rw [hex, List.mem_append, not_or]
    refine ⟨ih _, ?_⟩
    rw [List.mem_singleton]
    exact key ⟨x % 16, Nat.mod_lt _ (by decide)⟩

theorem newline_notMem_escape (c : Char) : '\n' ∉ escape c := by
  unfold escape
  split_ifs with h₁ h₂ h₃
  all_goals simp only [unicodeEscape, List.mem_cons, List.mem_append, List.not_mem_nil, or_false,
    newline_notMem_hex]
  all_goals first
    | decide
    | exact Ne.symm h₃

theorem newline_notMem_quote (s : String) : '\n' ∉ quote s := by
  simp only [quote, List.mem_cons, List.mem_append, List.mem_flatMap, List.not_mem_nil, or_false,
    not_or, not_exists, not_and]
  exact ⟨by decide, fun c _ => newline_notMem_escape c, by decide⟩

mutual

/-- **A value stands on one line.** -/
theorem newline_notMem_text : (v : Json) → v.Plain → '\n' ∉ v.text
  | .null, _ | .bool true, _ | .bool false, _ => by
    rw [Json.text]
    decide
  | .int _, hv | .float _, hv => absurd hv (by simp [Json.Plain])
  | .str s, _ => by
    rw [Json.text]
    exact newline_notMem_quote s
  | .arr xs, hv => by
    have := newline_notMem_elements xs hv
    simpa [Json.text] using this
  | .obj kvs, hv => by
    have := newline_notMem_fields kvs hv.2
    simpa [Json.text] using this

theorem newline_notMem_elements : (xs : List Json) → plainAll xs → '\n' ∉ elementsText xs
  | [], _ => by simp [elementsText]
  | [x], h => by
    rw [elementsText]
    exact newline_notMem_text x h.1
  | x :: y :: xs, h => by
    have hx := newline_notMem_text x h.1
    have hxs := newline_notMem_elements (y :: xs) h.2
    simp [elementsText, hx, hxs]

theorem newline_notMem_fields : (kvs : List (String × Json)) → plainFields kvs →
    '\n' ∉ fieldsText kvs
  | [], _ => by simp [fieldsText]
  | [(k, v)], h => by
    have hv := newline_notMem_text v h.1
    simp [fieldsText, fieldText, newline_notMem_quote, hv]
  | (k, v) :: kv' :: kvs, h => by
    have hv := newline_notMem_text v h.1
    have hkvs := newline_notMem_fields (kv' :: kvs) h.2
    simp [fieldsText, fieldText, newline_notMem_quote, hv, hkvs]

end

/-! ## Frames of events -/

/-- The first line of an event. -/
def SseEvent.eventLine (e : SseEvent) : List Char := "event: ".toList ++ e.kind.value.toList

/-- The second line of an event. -/
def SseEvent.dataLine (e : SseEvent) : List Char := "data: ".toList ++ (Json.obj e.data).text

/-- The lines of an event. -/
def SseEvent.lines (e : SseEvent) : List Char := e.eventLine ++ '\n' :: e.dataLine

/-- What an event is read as. -/
def SseEvent.yielded (e : SseEvent) : Json := .obj (("kind", .str e.kind.value) :: e.data)

theorem SseEvent.eventLine_eq (e : SseEvent) :
    e.eventLine = "event: ".toList ++ e.kind.value.toList := rfl

theorem SseEvent.dataLine_eq (e : SseEvent) :
    e.dataLine = "data: ".toList ++ (Json.obj e.data).text := rfl

theorem SseEvent.newline_notMem_eventLine (e : SseEvent) : '\n' ∉ e.eventLine := by
  rw [e.eventLine_eq, List.mem_append, not_or]
  refine ⟨by simp, ?_⟩
  cases e.kind <;> simp [SseKind.value]

theorem SseEvent.newline_notMem_dataLine (e : SseEvent) : '\n' ∉ e.dataLine := by
  have htext := newline_notMem_text _ e.plain
  rw [e.dataLine_eq, List.mem_append, not_or]
  exact ⟨by simp, htext⟩

theorem SseEvent.frame_eq (e : SseEvent) : e.frame = utf8Encode (e.lines ++ ['\n', '\n']) := by
  rw [SseEvent.frame, sseFrame, SseEvent.lines, e.eventLine_eq, e.dataLine_eq]
  simp

/-- **A frame is cut off where it ends.** -/
theorem SseEvent.cutFrame_frame (e : SseEvent) (rest : List Char) :
    cutFrame ((e.lines ++ ['\n', '\n']) ++ rest) = some (e.lines, rest) := by
  have hne : e.dataLine ≠ [] := by simp [e.dataLine_eq]
  have h := cutFrame_lines e.newline_notMem_eventLine e.newline_notMem_dataLine hne rest
  simpa [SseEvent.lines] using h

theorem SseEvent.splitOn_lines (e : SseEvent) :
    e.lines.splitOn '\n' = [e.eventLine, e.dataLine] := by
  have hlines : e.lines = ['\n'].intercalate [e.eventLine, e.dataLine] := by
    simp [SseEvent.lines, List.intercalate]
  rw [hlines, List.splitOn_intercalate _ _ (by simp)]
  intro l hl
  simp only [List.mem_cons, List.not_mem_nil, or_false] at hl
  rcases hl with rfl | rfl
  · exact e.newline_notMem_eventLine
  · exact e.newline_notMem_dataLine

/-- Spreading fields of other names adds them. -/
theorem foldl_putField {kvs fields : List (String × Json)}
    (h : ((fields ++ kvs).map (·.1)).Nodup) :
    kvs.foldl (fun fields (k, v) => putField k v fields) fields = fields ++ kvs := by
  induction kvs generalizing fields with
  | nil => simp
  | cons kv kvs ih =>
    obtain ⟨k, v⟩ := kv
    have hk : k ∉ fields.map (·.1) := by
      intro hmem
      rw [List.map_append, List.nodup_append] at h
      exact h.2.2 k hmem k (by simp) rfl
    rw [List.foldl_cons]
    dsimp only
    rw [putField_of_notMem hk, ih (by simpa using h), List.append_assoc, List.singleton_append]

theorem SseEvent.spread_data (e : SseEvent) : spread e.kind.value (.obj e.data) = e.yielded := by
  have hnodup : (([("kind", Json.str e.kind.value)] ++ e.data).map (·.1)).Nodup := by
    rw [List.singleton_append, List.map_cons, List.nodup_cons]
    exact ⟨e.unkinded, e.plain.1⟩
  rw [spread, foldl_putField hnodup, SseEvent.yielded, List.singleton_append]

section RoundTrip

variable [StandardJson]

/-- **A frame is read as its event.** -/
theorem SseEvent.readFrame_lines (e : SseEvent) : readFrame e.lines = .yields e.yielded := by
  have hevent : findLine "event: " e.lines = some e.eventLine := by
    rw [findLine, e.splitOn_lines, List.find?_cons_of_pos (by simp [e.eventLine_eq])]
  have hdata : findLine "data: " e.lines = some e.dataLine := by
    rw [findLine, e.splitOn_lines, List.find?_cons_of_neg (by simp [e.eventLine_eq]),
      List.find?_cons_of_pos (by simp [e.dataLine_eq])]
  have hkind : e.eventLine.drop "event: ".length = e.kind.value.toList := List.drop_left
  have htext : e.dataLine.drop "data: ".length = (Json.obj e.data).text := List.drop_left
  have hparse : StandardJson.parse (String.ofList (Json.obj e.data).text) = some (.obj e.data) :=
    StandardJson.parse_dumps e.plain
  rw [readFrame, hevent, hdata]
  dsimp only
  rw [hkind, htext, hparse, String.ofList_toList]
  dsimp only
  rw [e.spread_data]

theorem yieldFrames_lines (events : List SseEvent) :
    yieldFrames (events.map SseEvent.lines) = (events.map SseEvent.yielded, true) := by
  induction events with
  | nil => rfl
  | cons e events ih => simp only [List.map_cons, yieldFrames, e.readFrame_lines, ih]

/-- A throw ends the reading; without one it goes on. -/
theorem yieldFrames_append (fs gs : List (List Char)) : yieldFrames (fs ++ gs) =
    match yieldFrames fs with
    | (events, true) => (events ++ (yieldFrames gs).1, (yieldFrames gs).2)
    | (events, false) => (events, false) := by
  induction fs with
  | nil => rfl
  | cons f fs ih =>
    rw [List.cons_append, yieldFrames, yieldFrames]
    cases readFrame f with
    | yields event =>
      rw [ih]
      obtain ⟨events, ended⟩ := yieldFrames fs
      cases ended <;> rfl
    | skipped => exact ih
    | throws => rfl

/-- What the reads decode to, one by one. -/
def decodedReads (decoder : Utf8Decoder) : List (List UInt8) → List (List Char)
  | [] => []
  | value :: values => (decoder.decode value).1 :: decodedReads (decoder.decode value).2 values

omit [StandardJson] in
theorem flatten_decodedReads (decoder : Utf8Decoder) (reads : List (List UInt8)) :
    (decodedReads decoder reads).flatten = (decoder.decode reads.flatten).1 := by
  induction reads generalizing decoder with
  | nil => rfl
  | cons value values ih =>
    rw [decodedReads, List.flatten_cons, List.flatten_cons, ih, Utf8Decoder.decode_append]

/-- The loop yields the frames that the decoded reads feed it. -/
theorem readLoop_eq (decoder : Utf8Decoder) (buffer : List Char) (reads : List (List UInt8)) :
    readLoop decoder buffer reads =
      yieldFrames (Framing.feed cutFrame buffer (decodedReads decoder reads)).1 := by
  induction reads generalizing decoder buffer with
  | nil => rfl
  | cons value values ih =>
    rw [readLoop, decodedReads, Framing.feed]
    dsimp only
    rw [yieldFrames_append, ih]

/-- **What is sent is what is yielded**: for every list of events and every way to split their
bytes among the reads, exactly the events are yielded, in order, and no exception is raised. -/
theorem chat_stream_round_trip (events : List SseEvent) {reads : List (List UInt8)}
    (h : reads.flatten = sseStream events) :
    streamConversationMessage reads = (events.map SseEvent.yielded, true) := by
  have hbytes : sseStream events =
      utf8Encode (events.flatMap fun e => e.lines ++ ['\n', '\n']) := by
    simp only [sseStream, utf8Encode, List.flatMap_assoc]
    congr 1
    funext e
    exact e.frame_eq
  have hdecoded : (({} : Utf8Decoder).decode (sseStream events)).1 =
      events.flatMap fun e => e.lines ++ ['\n', '\n'] := by
    rw [hbytes]
    cases events with
    | nil => rfl
    | cons e events =>
      have hfirst : (e :: events).flatMap (fun e => e.lines ++ ['\n', '\n']) =
          'e' :: ((e :: events).flatMap fun e => e.lines ++ ['\n', '\n']).tail := rfl
      rw [hfirst, Utf8Decoder.decode_utf8Encode (by decide)]
  rw [streamConversationMessage, readLoop_eq,
    Framing.feed_eq_drain cuts_cutFrame rfl, flatten_decodedReads, h, hdecoded, List.nil_append,
    Framing.drain_frames cuts_cutFrame rfl SseEvent.cutFrame_frame, yieldFrames_lines]

end RoundTrip

/-- A text that looks like frames itself, then the end of the turn, read byte by byte. -/
theorem chat_stream_round_trip_sample :
    letI : JsonText := ⟨fun _ => ⟨"0.0", by decide⟩, 9000⟩
    letI := StandardJson.ofLoads
    streamConversationMessage
        ((sseStream [textEvent .text "ў\n\nevent: done\ndata: ", doneEvent none]).map ([·])) =
      ([.obj [("kind", .str "text"), ("text", .str "ў\n\nevent: done\ndata: ")],
        .obj [("kind", .str "done"), ("message", .null)]], true) := by
  refine @chat_stream_round_trip (@StandardJson.ofLoads ⟨fun _ => ⟨"0.0", by decide⟩, 9000⟩)
    [textEvent .text "ў\n\nevent: done\ndata: ", doneEvent none] _ ?_
  rw [← List.flatMap_def, List.flatMap_singleton']

end Doda
