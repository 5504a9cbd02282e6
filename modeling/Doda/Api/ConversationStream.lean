import Doda.Application.Conversation
import Doda.Domain.RoundTrip
import Doda.Lib.Utf8

/-!
# The event stream of a turn

A chunk of a turn goes to the client as one server-sent event: its kind and, as JSON
on one line, its data.

## Main definitions

* `SseKind`, `SseEvent` — the events that are sent.
* `sseFrame`, `errorFrame` — `_sse_frame` and `_error_frame`.
* `frameOf` — what `_body` sends for a chunk.
-/

namespace Doda

/-- The kinds of event. -/
inductive SseKind where
  | text | toolStatus | done | error
  deriving DecidableEq, Repr

def SseKind.value : SseKind → String
  | text => "text"
  | toolStatus => "tool_status"
  | done => "done"
  | error => "error"

/-- An event: its kind and its data, a dictionary without numbers and without a field that
would take the place of the kind. -/
structure SseEvent where
  kind : SseKind
  data : List (String × Json)
  plain : (Json.obj data).Plain
  unkinded : "kind" ∉ data.map (·.1)

/-- `_sse_frame`. -/
def sseFrame (event : String) (data : Json) : List UInt8 :=
  utf8Encode ("event: ".toList ++ event.toList ++ "\ndata: ".toList ++ data.text ++ "\n\n".toList)

/-- The bytes of an event. -/
def SseEvent.frame (e : SseEvent) : List UInt8 := sseFrame e.kind.value (.obj e.data)

/-- The bytes of the events, in order. -/
def sseStream (events : List SseEvent) : List UInt8 := events.flatMap SseEvent.frame

/-- The data of a text or a tool-status event. -/
def textEvent (kind : SseKind) (text : String) : SseEvent where
  kind := kind
  data := [("text", .str text)]
  plain := by simp [Json.Plain, plainFields]
  unkinded := by simp

/-- `_error_frame`. -/
def errorEvent (code message : String) (traceId : Uuid) (retryable : Bool) : SseEvent where
  kind := .error
  data := [("code", .str code), ("message", .str message), ("trace_id", .str traceId.str),
    ("retryable", .bool retryable)]
  plain := by simp [Json.Plain, plainFields]
  unkinded := by simp

def MessageRole.value : MessageRole → String
  | USER => "USER"
  | ASSISTANT => "ASSISTANT"
  | TOOL => "TOOL"

/-- `t.isoformat()` as pydantic writes it: UTC is `Z`. -/
def Time.zulu (t : Time) : String :=
  String.ofList ((t.isoformat.toList.take (t.isoformat.length - 6)) ++ ['Z'])

/-- `_to_message_out(message).model_dump(mode="json")`. -/
def messageOut (m : Message) : Json :=
  .obj [("id", .str m.id.str), ("conversation_id", .str m.conversationId.str),
    ("role", .str m.role.value), ("content", .str m.content),
    ("tool_call_id", .ofOption m.toolCallId), ("tool_name", .ofOption m.toolName),
    ("provider", .ofOption (m.provider.map Provider.value)), ("model", .ofOption m.model),
    ("finish_reason", .ofOption m.finishReason), ("created_at", .str (Time.zulu m.createdAt))]

theorem plain_ofOption (s : Option String) : (Json.ofOption s).Plain := by
  cases s <;> trivial

theorem plain_messageOut (m : Message) : (messageOut m).Plain := by
  simp [messageOut, Json.Plain, plainFields, plain_ofOption]

/-- The end of a turn. -/
def doneEvent (message : Option Message) : SseEvent where
  kind := .done
  data := [("message", (message.map messageOut).getD .null)]
  plain := by cases message <;> simp [Json.Plain, plainFields, plain_messageOut]
  unkinded := by simp

/-- What `_body` sends for a chunk. -/
def chunkEvent (traceId : Uuid) : TurnChunk → SseEvent
  | .text text => textEvent .text text
  | .toolStatus text _ _ => textEvent .toolStatus text
  | .done message => doneEvent message
  | .error => errorEvent "AI_STREAM_ERROR" "Suhbat davomida xato yuz berdi." traceId true

end Doda
