import Doda.Infrastructure.Gateways

/-!
# The Claude adapter

The adapter reads the events of the Messages API.  The arguments of a tool call
arrive in pieces; they are put together by the index of their block.  Structured
output is asked for as a tool that the model must call.

## Main definitions

* `toClaudeMessages` — `_to_claude_messages`; it parses the arguments of every call.
* `ClaudeEvent`, `ClaudeException` — what the SDK delivers and raises.
* `claudeReader` — the loop over the events.
* `claudeStreamChat` — `ClaudeGateway.stream_chat`.
-/

namespace Doda

/-- `_STRUCTURED_OUTPUT_TOOL_NAME`. -/
def claudeStructuredOutputToolName : String := "__doda_structured_output__"

/-! ## The request -/

section

variable [JsonText]

/-- The block of a tool call; raises, by the name of the exception, where `json.loads`
refuses its arguments. -/
def ToolCallRequest.claudeBlock (call : ToolCallRequest) : Except String Json :=
  match loads call.argumentsJson with
  | .error exception => throw exception
  | .ok input =>
    return .obj [("type", .str "tool_use"), ("id", .str call.callId), ("name", .str call.name),
      ("input", input)]

/-- The message of one turn. -/
def ChatTurn.claudeMessage (turn : ChatTurn) : Except String Json :=
  if turn.role = .TOOL then
    return .obj [("role", .str "user"), ("content", .arr [.obj [("type", .str "tool_result"),
      ("tool_use_id", .ofOption turn.toolCallId), ("content", .str turn.content)]])]
  else if turn.toolCalls ≠ [] then do
    let blocks ← turn.toolCalls.mapM ToolCallRequest.claudeBlock
    return .obj [("role", .str "assistant"), ("content", .arr blocks)]
  else
    let role := if turn.role = .USER then "user" else "assistant"
    return .obj [("role", .str role), ("content", .str turn.content)]

/-- `_to_claude_messages`. -/
def toClaudeMessages (history : List ChatTurn) : Except String (List Json) :=
  history.mapM ChatTurn.claudeMessage

/-- `_to_claude_tools`. -/
def toClaudeTools (tools : List ToolSpec) : List Json :=
  tools.map fun tool =>
    .obj [("name", .str tool.name), ("description", .str tool.description),
      ("input_schema", tool.parametersSchema)]

/-- The tool that asks for structured output. -/
def claudeStructuredOutputTool (schema : Json) : ToolSpec where
  name := claudeStructuredOutputToolName
  description := "Return the final answer as structured data matching the required schema."
  parametersSchema := schema

/-- `create_kwargs`, with the converted history. -/
def claudeCreateKwargs (request : ChatRequest) (messages : List Json) : Json :=
  let claudeTools := toClaudeTools (request.tools ++
    (request.responseSchema.map claudeStructuredOutputTool).toList)
  .obj ([("model", .str request.model), ("max_tokens", .int request.maxOutputTokens),
      ("messages", .arr messages), ("stream", .bool true)] ++
    (if request.instructions ≠ "" then [("system", .str request.instructions)] else []) ++
    (if request.responseSchema.isSome then
      [("tool_choice", .obj [("type", .str "tool"),
        ("name", .str claudeStructuredOutputToolName)])] else []) ++
    if claudeTools ≠ [] then [("tools", .arr claudeTools)] else [])

/-! ## The stream -/

/-- A content block. -/
inductive ClaudeBlock where
  | toolUse (id name : String)
  | other

/-- A piece of a content block. -/
inductive ClaudeDelta where
  | textDelta (text : String)
  | inputJsonDelta (partialJson : String)
  | other

/-- The events of a stream. -/
inductive ClaudeEvent where
  | messageStart (inputTokens : ℤ) (cacheReadInputTokens : Option ℤ)
  | contentBlockStart (index : ℕ) (block : ClaudeBlock)
  | contentBlockDelta (index : ℕ) (delta : ClaudeDelta)
  | contentBlockStop (index : ℕ)
  | messageDelta (outputTokens : ℤ) (stopReason : Option String)
  | other (type : String)

/-- The exceptions of the SDK. -/
inductive ClaudeException where
  | authenticationError | rateLimitError | apiTimeoutError
  /-- Any other `APIStatusError`. -/
  | apiStatusError (className : String) (statusCode : ℤ)
  | other (className : String)

/-- `_translate_error`. -/
def ClaudeException.translate : ClaudeException → ModelGatewayError
  | authenticationError => .authentication "Claude rejected the configured API key"
  | rateLimitError => .rateLimited "Claude rate-limited this request"
  | apiTimeoutError => .timeout "Claude did not respond within the configured timeout"
  | apiStatusError className statusCode =>
    .provider s!"Claude returned an error: {className}" (some statusCode)
  | other className => .provider s!"Claude request failed: {className}"

/-- The locals of the loop; of two entries of an index the first counts. -/
structure ClaudeState where
  blockInfo : List (ℕ × String × String) := []
  toolJsonAccumulator : List (ℕ × String) := []
  usage : GatewayUsage := ⟨0, 0, 0⟩
  stopReason : Option String := none

/-- The pieces of an index so far. -/
def ClaudeState.pieces (s : ClaudeState) (index : ℕ) : String :=
  (s.toolJsonAccumulator.lookup index).getD ""

/-- What a finished tool block yields; raises where `json.loads` refuses the
structured output. -/
def claudeToolUse (callId name argumentsJson : String) :
    Except ModelGatewayError (List GatewayEvent) :=
  if name = claudeStructuredOutputToolName then
    match loads argumentsJson with
    | .error exception => throw (ClaudeException.other exception).translate
    | .ok data => return [.structuredOutputReady data]
  else return [.toolCallReady ⟨callId, name, argumentsJson⟩]

/-- The loop over the events. -/
def claudeReader : Transducer ClaudeState ClaudeEvent GatewayEvent ModelGatewayError where
  step s
    | .messageStart inputTokens cacheReadInputTokens =>
      return ({ s with usage := ⟨inputTokens, 0, cacheReadInputTokens.getD 0⟩ }, [])
    | .contentBlockStart index (.toolUse id name) =>
      return ({ s with blockInfo := (index, id, name) :: s.blockInfo,
                       toolJsonAccumulator := (index, "") :: s.toolJsonAccumulator }, [])
    | .contentBlockDelta _ (.textDelta text) => return (s, [.textDelta text])
    | .contentBlockDelta index (.inputJsonDelta partialJson) =>
      return ({ s with toolJsonAccumulator :=
        (index, s.pieces index ++ partialJson) :: s.toolJsonAccumulator }, [])
    | .contentBlockStop index =>
      match s.blockInfo.lookup index with
      | none => return (s, [])
      | some (callId, name) => do
        let argumentsJson := if s.pieces index = "" then "\x7b\x7d" else s.pieces index
        let events ← claudeToolUse callId name argumentsJson
        return (s, events)
    | .messageDelta outputTokens stopReason =>
      return ({ s with usage := ⟨s.usage.inputTokens, outputTokens, s.usage.cachedInputTokens⟩,
                       stopReason := stopReason.orElse fun _ => s.stopReason }, [])
    | _ => return (s, [])

/-- `finish_reason`. -/
def claudeFinishReason (stopReason : Option String) : String :=
  if stopReason = some "tool_use" then "tool_calls"
  else if stopReason = some "max_tokens" then "length" else "stop"

/-- `ClaudeGateway.stream_chat`; the history is converted outside of the `try`. -/
def claudeStreamChat (create : Json → SdkAnswer ClaudeEvent ClaudeException)
    (request : ChatRequest) : GatewayStream :=
  match toClaudeMessages request.history with
  | .error className => ⟨[], some (.builtin className)⟩
  | .ok messages =>
    iterate claudeReader ClaudeException.translate
      (fun s => ⟨[.completed s.usage (claudeFinishReason s.stopReason)], none⟩) {}
      (create (claudeCreateKwargs request messages))

end

end Doda
