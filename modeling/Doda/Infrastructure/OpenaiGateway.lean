import Doda.Infrastructure.Gateways

/-!
# The OpenAI adapter

The adapter reads the events of the Responses API.  It knows five of them; the
others, such as `response.incomplete`, it passes over.

## Main definitions

* `toOpenaiInput` — `_to_openai_input`.
* `OpenaiEvent`, `OpenaiException` — what the SDK delivers and raises.
* `openaiReader` — the loop over the events.
* `openaiStreamChat` — `OpenAIGateway.stream_chat`.
-/

namespace Doda

/-! ## The request -/

/-- The input items of one turn. -/
def ChatTurn.openaiItems (turn : ChatTurn) : List Json :=
  if turn.role = .TOOL then
    [.obj [("type", .str "function_call_output"), ("call_id", .ofOption turn.toolCallId),
      ("output", .str turn.content)]]
  else if turn.toolCalls ≠ [] then
    turn.toolCalls.map fun call =>
      .obj [("type", .str "function_call"), ("call_id", .str call.callId),
        ("name", .str call.name), ("arguments", .str call.argumentsJson)]
  else
    let role := if turn.role = .USER then "user" else "assistant"
    [.obj [("role", .str role), ("content", .str turn.content)]]

/-- `_to_openai_input`. -/
def toOpenaiInput (history : List ChatTurn) : List Json := history.flatMap ChatTurn.openaiItems

/-- `_to_openai_tools`. -/
def toOpenaiTools (tools : List ToolSpec) : List Json :=
  tools.map fun tool =>
    .obj [("type", .str "function"), ("name", .str tool.name),
      ("description", .str tool.description), ("parameters", tool.parametersSchema),
      ("strict", .bool false)]

/-- `create_kwargs`. -/
def openaiCreateKwargs (request : ChatRequest) : Json :=
  .obj ([("model", .str request.model), ("instructions", .str request.instructions),
      ("input", .arr (toOpenaiInput request.history)),
      ("max_output_tokens", .int request.maxOutputTokens), ("stream", .bool true),
      ("store", .bool false)] ++
    (if request.tools ≠ [] then [("tools", .arr (toOpenaiTools request.tools))] else []) ++
    match request.responseSchema with
    | none => []
    | some schema => [("text", .obj [("format", .obj [("type", .str "json_schema"),
        ("name", .str "doda_structured_output"), ("schema", schema), ("strict", .bool true)])])])

/-! ## The stream -/

/-- An item of a response's output. -/
inductive OpenaiItem where
  | functionCall (id : Option String) (callId name : String)
  /-- A message, by the texts of its `output_text` parts. -/
  | message (texts : List String)
  | other

/-- `Response.usage`. -/
structure OpenaiUsage where
  inputTokens : ℤ
  outputTokens : ℤ
  cachedTokens : ℤ

/-- `Response`. -/
structure OpenaiResponse where
  status : Option String
  /-- `incomplete_details.reason`. -/
  incompleteReason : Option String := none
  output : List OpenaiItem
  usage : Option OpenaiUsage

/-- The events of a stream. -/
inductive OpenaiEvent where
  | outputTextDelta (delta : String)
  | outputItemAdded (item : OpenaiItem)
  | functionCallArgumentsDone (itemId arguments : String)
  | error (message : String)
  | completed (response : OpenaiResponse)
  | incomplete (response : OpenaiResponse)
  | other (type : String)

/-- `has_tool_calls`. -/
def OpenaiResponse.hasToolCalls (response : OpenaiResponse) : Bool :=
  response.output.any fun
    | .functionCall .. => true
    | _ => false

/-- The text of a response's messages. -/
def OpenaiResponse.text (response : OpenaiResponse) : String :=
  String.join (response.output.flatMap fun
    | .message texts => texts
    | _ => [])

/-- The token counts of a response. -/
def OpenaiResponse.gatewayUsage (response : OpenaiResponse) : GatewayUsage :=
  match response.usage with
  | none => ⟨0, 0, 0⟩
  | some usage => ⟨usage.inputTokens, usage.outputTokens, usage.cachedTokens⟩

/-- `finish_reason`. -/
def OpenaiResponse.finishReason (response : OpenaiResponse) : String :=
  if response.hasToolCalls then "tool_calls"
  else if response.status = some "incomplete" then "length" else "stop"

/-- The exceptions of the SDK. -/
inductive OpenaiException where
  | authenticationError | rateLimitError | apiTimeoutError
  /-- Any other `APIStatusError`. -/
  | apiStatusError (type : Option String) (className : String) (statusCode : ℤ)
  | other (className : String)

/-- `_translate_error`. -/
def OpenaiException.translate : OpenaiException → ModelGatewayError
  | authenticationError => .authentication "OpenAI rejected the configured API key"
  | rateLimitError => .rateLimited "OpenAI rate-limited this request"
  | apiTimeoutError => .timeout "OpenAI did not respond within the configured timeout"
  | apiStatusError type className statusCode =>
    let name := if type.getD "" = "" then className else type.getD ""
    .provider s!"OpenAI returned an error: {name}" (some statusCode)
  | other className => .provider s!"OpenAI request failed: {className}"

section

variable [JsonText]

/-- The structured output of a response, where the adapter looks for one; raises
where `json.loads` refuses its text. -/
def OpenaiResponse.structured (response : OpenaiResponse) (responseSchema : Option Json) :
    Except ModelGatewayError (List GatewayEvent) :=
  if responseSchema.isSome ∧ ¬ response.hasToolCalls ∧ response.text ≠ "" then
    match loads response.text with
    | .error exception => throw (OpenaiException.other exception).translate
    | .ok data => return [.structuredOutputReady data]
  else return []

/-- The loop over the events; its state is `item_call_info`, the newest entry first. -/
def openaiReader (responseSchema : Option Json) :
    Transducer (List (String × String × String)) OpenaiEvent GatewayEvent ModelGatewayError where
  step itemCallInfo
    | .outputTextDelta delta => return (itemCallInfo, [.textDelta delta])
    | .outputItemAdded (.functionCall (some id) callId name) =>
      return ((id, callId, name) :: itemCallInfo, [])
    | .functionCallArgumentsDone itemId arguments =>
      match itemCallInfo.lookup itemId with
      | none => return (itemCallInfo, [])
      | some (callId, name) =>
        return (itemCallInfo, [.toolCallReady ⟨callId, name, arguments⟩])
    | .error message => throw (.provider s!"OpenAI stream error: {message}")
    | .completed response => do
      let structured ← response.structured responseSchema
      return (itemCallInfo,
        structured ++ [.completed response.gatewayUsage response.finishReason])
    | _ => return (itemCallInfo, [])

/-- `OpenAIGateway.stream_chat`. -/
def openaiStreamChat (create : Json → SdkAnswer OpenaiEvent OpenaiException)
    (request : ChatRequest) : GatewayStream :=
  iterate (openaiReader request.responseSchema) OpenaiException.translate
    (fun _ => ⟨[], none⟩) [] (create (openaiCreateKwargs request))

end

end Doda
