import Doda.Infrastructure.Gateways

/-!
# The Gemini adapter

The adapter reads the chunks of the provider's stream.  The provider may leave out
the id of a function call; the adapter then makes one up from the function's name
and the call's place in its chunk.  Structured output is put together from the text
of all chunks, and parsed after the last.

The types of the SDK check what they are built of: a function call's arguments must
be an object, so `Part.from_function_call` refuses other values.  That check is the
class `GenaiTypes`.

## Main definitions

* `toGeminiContents` — `_to_gemini_contents`; it parses the arguments of every call.
* `GeminiChunk`, `GeminiException` — what the SDK delivers and raises.
* `geminiCallId` — the id of a tool call.
* `geminiReader` — the loop over the chunks.
* `geminiStreamChat` — `GeminiGateway.stream_chat`.
-/

namespace Doda

/-! ## The request -/

/-- `genai_types.Part`, of the three kinds the adapter builds. -/
inductive GeminiPart where
  | functionResponse (name : String) (response : Json)
  | functionCall (name : String) (args : Json)
  | text (text : String)

/-- `genai_types.Content`. -/
structure GeminiContent where
  role : String
  parts : List GeminiPart

/-- The checks of the SDK's types. -/
class GenaiTypes where
  /-- `Part.from_function_call` takes the value of this text for the arguments. -/
  acceptsArgs : String → Bool

/-- `genai_types.GenerateContentConfig`. -/
structure GeminiConfig where
  systemInstruction : Option String
  maxOutputTokens : ℤ
  /-- `automatic_function_calling.disable`. -/
  automaticFunctionCallingDisable : Bool := true
  tools : List ToolSpec := []
  responseMimeType : Option String := none
  responseJsonSchema : Option Json := none

/-- The arguments of `generate_content_stream`. -/
structure GeminiRequest where
  model : String
  contents : List GeminiContent
  config : GeminiConfig

section

variable [JsonText] [GenaiTypes]

/-- `Part.from_function_call(name=call.name, args=json.loads(call.arguments_json))`. -/
def ToolCallRequest.geminiPart (call : ToolCallRequest) : Except String GeminiPart :=
  match loads call.argumentsJson with
  | .error exception => throw exception
  | .ok args =>
    if GenaiTypes.acceptsArgs call.argumentsJson then return .functionCall call.name args
    else throw "ValidationError"

/-- The content of one turn. -/
def ChatTurn.geminiContent (turn : ChatTurn) : Except String GeminiContent :=
  if turn.role = .TOOL then
    return ⟨"user", [.functionResponse (turn.toolCallId.getD "")
      (.obj [("result", .str turn.content)])]⟩
  else if turn.toolCalls ≠ [] then do
    let parts ← turn.toolCalls.mapM ToolCallRequest.geminiPart
    return ⟨"model", parts⟩
  else
    let role := if turn.role = .USER then "user" else "model"
    return ⟨role, [.text turn.content]⟩

/-- `_to_gemini_contents`. -/
def toGeminiContents (history : List ChatTurn) : Except String (List GeminiContent) :=
  history.mapM ChatTurn.geminiContent

end

/-- `config_kwargs`. -/
def geminiConfig (request : ChatRequest) : GeminiConfig where
  systemInstruction := if request.instructions = "" then none else some request.instructions
  maxOutputTokens := request.maxOutputTokens
  tools := request.tools
  responseMimeType := request.responseSchema.map fun _ => "application/json"
  responseJsonSchema := request.responseSchema

/-! ## The stream -/

/-- A `FunctionCall` of a chunk. -/
structure GeminiFunctionCall where
  id : Option String := none
  name : Option String := none
  args : List (String × Json) := []

/-- The counts of `usage_metadata`. -/
structure GeminiUsageMetadata where
  promptTokenCount : Option ℤ := none
  candidatesTokenCount : Option ℤ := none
  cachedContentTokenCount : Option ℤ := none

/-- One chunk of the stream. -/
structure GeminiChunk where
  functionCalls : List GeminiFunctionCall := []
  text : Option String := none
  usageMetadata : Option GeminiUsageMetadata := none
  /-- `str(candidate.finish_reason)` of the candidates that have one. -/
  finishReasons : List String := []

/-- The exceptions of the SDK. -/
inductive GeminiException where
  | timeoutException
  | apiError (className : String) (code : ℤ) (message : Option String)
  | other (className : String)

/-- `_translate_error`. -/
def GeminiException.translate : GeminiException → ModelGatewayError
  | timeoutException => .timeout "Gemini did not respond within the configured timeout"
  | apiError className code message =>
    let said := message.getD ""
    if code = 429 then .rateLimited (strip s!"Gemini rate-limited this request: {said}")
    else
      let what := if said = "" then className else said
      .provider s!"Gemini returned an error: {what}" (some code)
  | other className => .provider s!"Gemini request failed: {className}"

/-- The id of a tool call: the provider's, or one made up from its name and place. -/
def geminiCallId (call : GeminiFunctionCall) (index : ℕ) : String :=
  match call.id with
  | some id => if id = "" then synthesized else id
  | none => synthesized
where
  /-- The id made up. -/
  synthesized : String :=
    let name := call.name.getD "None"
    s!"gemini-call-{name}-{index}"

/-- The tool call of a function call. -/
def GeminiFunctionCall.request (call : GeminiFunctionCall) (index : ℕ) : ToolCallRequest where
  callId := geminiCallId call index
  name := call.name.getD ""
  argumentsJson := (Json.obj call.args).dumps

/-- The token counts of a chunk that has them. -/
def GeminiUsageMetadata.gatewayUsage (u : GeminiUsageMetadata) : GatewayUsage :=
  ⟨u.promptTokenCount.getD 0, u.candidatesTokenCount.getD 0, u.cachedContentTokenCount.getD 0⟩

/-- A candidate of the chunk was cut at the limit on output tokens. -/
def GeminiChunk.cut (chunk : GeminiChunk) : Bool :=
  chunk.finishReasons.any fun reason =>
    reason.toList.tails.any ("MAX_TOKENS".toList.isPrefixOf ·)

/-- The locals of the loop. -/
structure GeminiState where
  finishReason : String := "stop"
  usage : GatewayUsage := ⟨0, 0, 0⟩
  sawToolCall : Bool := false
  structuredText : String := ""

/-- The loop over the chunks; it raises nothing of its own. -/
def geminiReader (responseSchema : Option Json) :
    Transducer GeminiState GeminiChunk GatewayEvent ModelGatewayError where
  step s chunk :=
    let calls := chunk.functionCalls.zipIdx.map fun (call, index) =>
      GatewayEvent.toolCallReady (call.request index)
    let text := chunk.text.getD ""
    let deltas := if responseSchema.isNone ∧ text ≠ "" then [.textDelta text] else []
    return ({ finishReason := if chunk.cut then "length" else s.finishReason
              usage := (chunk.usageMetadata.map (·.gatewayUsage)).getD s.usage
              sawToolCall := s.sawToolCall || !chunk.functionCalls.isEmpty
              structuredText :=
                if responseSchema.isSome then s.structuredText ++ text else s.structuredText },
            calls ++ deltas)

section

variable [JsonText]

/-- What follows the loop, outside of its `try`: the structured output and the last
event. -/
def geminiFinish (responseSchema : Option Json) (s : GeminiState) : GatewayStream :=
  let completed :=
    GatewayEvent.completed s.usage (if s.sawToolCall then "tool_calls" else s.finishReason)
  if responseSchema.isSome ∧ s.structuredText ≠ "" ∧ ¬ s.sawToolCall then
    match loads s.structuredText with
    | .error exception => ⟨[], some (.builtin exception)⟩
    | .ok data => ⟨[.structuredOutputReady data, completed], none⟩
  else ⟨[completed], none⟩

variable [GenaiTypes]

/-- `GeminiGateway.stream_chat`; the history is converted inside of the `try`. -/
def geminiStreamChat (generate : GeminiRequest → SdkAnswer GeminiChunk GeminiException)
    (request : ChatRequest) : GatewayStream :=
  let answer :=
    match toGeminiContents request.history with
    | .error className => .error (.other className)
    | .ok contents => generate ⟨request.model, contents, geminiConfig request⟩
  iterate (geminiReader request.responseSchema) GeminiException.translate
    (geminiFinish request.responseSchema) {} answer

end

end Doda
