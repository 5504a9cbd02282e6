import Doda.Ai.OutboundGuard
import Doda.Application.AiTools

/-!
# One turn of a conversation

`streamMessage` stores the user's message, reserves a budget, and calls a gateway
in rounds.  A round without tool calls ends the turn; a round with a write call
proposes an action for the first of them, reports it and ends the turn; the read
calls of any other round are answered and the next round begins.  A transient
failure before anything was produced may move the turn to another provider, once.

The locals of the generator outlive its exceptions, so a turn runs in `TurnM`:
a state, and an exception that leaves the state as it was.

## Main definitions

* `Turn`, `TurnM` — the locals, and programs over them.
* `yieldChunk` — hand a chunk to the client; it may have gone.
* `consumeEvents` — what a round takes from its gateway stream.
* `answerReadCalls`, `reportWriteCall` — the two kinds of tool call.
* `rounds`, `withFallback`, `streamMessage` — the loop, and `stream_message`.
-/

namespace Doda

open ReadCommitted

variable [Sha256] [JsonText] [Deployment]

/-- The locals of a turn. -/
structure Turn where
  choice : ResolvedProviderChoice
  history : List ChatTurn := []
  totalUsage : GatewayUsage := ⟨0, 0, 0⟩
  roundIndex : ℕ := 0
  accumulatedText : String := ""
  toolCallsThisRound : List ToolCallRequest := []
  finishReason : String := "stop"
  finalAssistantMessage : Option Message := none
  /-- Something was yielded: the response has begun. -/
  started : Bool := false

/-- Programs over the locals of a turn. -/
abbrev TurnM := ExceptT Err (StateT Turn Session)

/-- Run a program on the database; an exception leaves the locals as they were. -/
def TurnM.lift {α : Type} (m : Session α) : TurnM α := ExceptT.mk fun s =>
  tryCatch (do
    let a ← m
    return (.ok a, s)) fun e => pure (.error e, s)

/-- Run a program and look at how it ended. -/
def TurnM.attempt {α : Type} (m : TurnM α) : TurnM (Except Err α) := ExceptT.mk fun s => do
  let (r, s) ← m s
  return (.ok r, s)

/-- What does not change during a turn. -/
structure TurnContext where
  context : WorkspaceContext
  conversation : Conversation
  traceId : Uuid
  mode : ChatMode
  instructions : String
  maxOutputTokens : ℤ
  totalEstimateCents : ℤ

/-- Yield a chunk; where the client has gone, the generator is closed here. -/
def yieldChunk (chunk : TurnChunk) : TurnM Unit := do
  modify fun s => { s with started := true }
  if ← TurnM.lift (call (Call.send chunk)) then pure () else throw .generatorExit

/-! ## Messages -/

/-- `MAX_PAGE_SIZE`. -/
def maxPageSize : ℕ := 200

/-- Store a message. -/
def addMessage (message : Uuid → Time → Message) : Session Message := do
  let id ← Session.uuid4
  let createdAt ← Session.utcnow .created
  Session.insert (.message id) (message id createdAt)
  return message id createdAt

/-- `list_messages`. -/
def listMessages (db : Db) (conversationId : Uuid) : List Message :=
  ((collect (fun k v => match k, v with
    | .message _, (m : Message) => if m.conversationId = conversationId then some m else none
    | _, _ => none) db).insertionSort (·.createdAt ≤ ·.createdAt)).take maxPageSize

/-- The messages, newest first, that fit into a number of characters; the newest
always does. -/
def takeWithin (maxChars : ℕ) : ℕ → Bool → List Message → List Message
  | _, _, [] => []
  | total, first, m :: ms =>
    let cost := m.content.length + (m.toolArgumentsJson.getD "").length
    if ¬ first ∧ total + cost > maxChars then []
    else m :: takeWithin maxChars (total + cost) false ms

/-- The text, or another where it is missing or empty. -/
def orElseText (s : Option String) (default : String) : String :=
  match s with
  | some s => if s = "" then default else s
  | none => default

/-- The turn of the history a message stands for. -/
def Message.toTurn (m : Message) : ChatTurn :=
  match m.role, m.toolName with
  | .TOOL, _ => { role := .TOOL, content := m.content, toolCallId := m.toolCallId }
  | .ASSISTANT, some name =>
    { role := .ASSISTANT, content := "", toolCalls :=
        [⟨orElseText m.toolCallId m.id.str, name, orElseText m.toolArgumentsJson "\x7b\x7d"⟩] }
  | role, _ => { role, content := m.content }

/-- `_messages_to_history`. -/
def messagesToHistory (messages : List Message) (maxChars : ℕ) : List ChatTurn :=
  (takeWithin maxChars 0 true messages.reverse).reverse.map Message.toTurn

/-- An assistant message of the turn, under the provider and model in use. -/
def addAssistantMessage (e : TurnContext) (content finishReason : String)
    (call : Option ToolCallRequest := none) : TurnM Message := do
  let s ← get
  TurnM.lift <| addMessage fun id createdAt =>
    { id, createdAt, customerId := e.conversation.customerId,
      conversationId := e.conversation.id, role := .ASSISTANT, content,
      toolCallId := call.map (·.callId), toolName := call.map (·.name),
      toolArgumentsJson := call.map (·.argumentsJson), provider := some s.choice.provider,
      model := some s.choice.model, finishReason := some finishReason }

/-- The message a turn ends with. -/
def finish (e : TurnContext) (content finishReason : String) : TurnM Unit := do
  let message ← addAssistantMessage e content finishReason
  modify fun s => { s with finalAssistantMessage := some message }

/-! ## Gateways -/

/-- `_NULL_GATEWAY_REPLY_TEXT`. -/
def nullGatewayReplyText : String :=
  "AI javob provayderi hali tanlanmagan yoki sozlanmagan. Bu xabar " ++
    "saqlandi, lekin hech qanday tashqi modelga yuborilmadi."

/-- What `NullModelGateway` answers. -/
def nullGatewayStream : GatewayStream where
  events := [.textDelta nullGatewayReplyText, .completed ⟨0, 0, 0⟩ "stop"]

/-- `get_gateway(provider).stream_chat(…)`. -/
def streamChat (e : TurnContext) (s : Turn) : Session GatewayStream :=
  if settings.configured s.choice.provider then
    call (Call.streamChat
      { provider := s.choice.provider, model := s.choice.model, mode := e.mode,
        instructions := e.instructions, history := s.history,
        maxOutputTokens := e.maxOutputTokens })
  else pure nullGatewayStream

/-- Token counts of several calls together. -/
def GatewayUsage.add (a b : GatewayUsage) : GatewayUsage :=
  ⟨a.inputTokens + b.inputTokens, a.outputTokens + b.outputTokens,
    a.cachedInputTokens + b.cachedInputTokens⟩

/-- Take the events of a stream, and then its error if it ends in one. -/
def consumeEvents (error : Option Err) : List GatewayEvent → TurnM Unit
  | [] =>
    match error with
    | some e => throw e
    | none => pure ()
  | ev :: evs => do
    match ev with
    | .textDelta text =>
      modify fun s => { s with accumulatedText := s.accumulatedText ++ text }
      yieldChunk (.text text)
    | .toolCallReady call =>
      modify fun s => { s with toolCallsThisRound := s.toolCallsThisRound ++ [call] }
    | .structuredOutputReady data =>
      modify fun s => { s with accumulatedText := data.dumps }
    | .completed usage finishReason =>
      modify fun s =>
        { s with finishReason := finishReason, totalUsage := s.totalUsage.add usage }
    | .gatewayError => pure ()
    consumeEvents error evs

/-! ## Tool calls -/

/-- Store the turn's tool calls, one message for each. -/
def storeToolCalls (e : TurnContext) : List ToolCallRequest → TurnM Unit
  | [] => pure ()
  | call :: calls => do
    let s ← get
    let _ ← addAssistantMessage e s.accumulatedText "tool_calls" (some call)
    storeToolCalls e calls

/-- Answer the read calls; what a tool raises is its answer. -/
def answerReadCalls (e : TurnContext) : List ToolCallRequest → TurnM Unit
  | [] => pure ()
  | call :: calls => do
    let text ← TurnM.lift <|
      tryCatch (dispatchReadTool call.name call.argumentsJson e.context.workspaceId) fun err =>
        if err.isException then pure ("Tool error: " ++ err.text) else throw err
    let _ ← TurnM.lift <| addMessage fun id createdAt =>
      { id, createdAt, customerId := e.conversation.customerId,
        conversationId := e.conversation.id, role := .TOOL, content := text,
        toolCallId := some call.callId }
    modify fun s => { s with
      history := s.history ++ [{ role := .TOOL, content := text, toolCallId := some call.callId }] }
    answerReadCalls e calls

/-- The idempotency key of a write call. -/
def chatIdempotencyKey (conversationId : Uuid) (callId : String) : String :=
  s!"chat:{conversationId.str}:{callId}"

/-- The report of a proposed action. -/
def statusText (call : ToolCallRequest) (action : Action) : String :=
  s!"Men '{call.name}' vositasini taklif qildim — holati: {action.status.value}. " ++
    "Bu amal inson tasdig'isiz bajarilmaydi."

/-- Propose what a write call asks for, and report it. -/
def reportWriteCall (e : TurnContext) (call : ToolCallRequest) : TurnM Unit := do
  let (action, _) ← TurnM.lift <| proposeWriteToolAction call.name call.argumentsJson e.context
    e.traceId (chatIdempotencyKey e.conversation.id call.callId)
  finish e (statusText call action) "tool_calls"
  yieldChunk (.toolStatus (statusText call action) call action)

/-! ## Rounds -/

/-- The rounds that are left. -/
def rounds (e : TurnContext) : ℕ → TurnM Unit
  | 0 => finish e "Juda ko'p vosita chaqiruvidan so'ng yakuniy javob topilmadi." "length"
  | n + 1 => do
    modify fun s => { s with
      roundIndex := settings.maxToolRounds - (n + 1), accumulatedText := "",
      toolCallsThisRound := [], finishReason := "stop" }
    let s ← get
    let stream ← TurnM.lift (streamChat e s)
    consumeEvents stream.error stream.events
    let s ← get
    if s.toolCallsThisRound = [] then finish e s.accumulatedText s.finishReason
    else
      storeToolCalls e s.toolCallsThisRound
      modify fun s => { s with
        history := s.history ++
          [{ role := .ASSISTANT, content := s.accumulatedText, toolCalls := s.toolCallsThisRound }] }
      match s.toolCallsThisRound.filter (isWriteTool ·.name) with
      | call :: _ => reportWriteCall e call
      | [] =>
        answerReadCalls e (s.toolCallsThisRound.filter (isReadTool ·.name))
        rounds e n

/-- `ModelTimeoutError`, `ModelRateLimitedError` and `ModelProviderError`. -/
def Err.mayFallBack : Err → Bool
  | .modelTimeout | .modelRateLimited | .modelProvider => true
  | _ => false

/-- The rounds, and where a provider failed before the first of them produced
anything, the rounds once more with another provider.  A second failure is raised:
at most one fallback is attempted. -/
def withFallback (e : TurnContext) : TurnM Unit := do
  match ← TurnM.attempt (rounds e settings.maxToolRounds) with
  | .ok _ => pure ()
  | .error err =>
    let s ← get
    if ¬ err.mayFallBack ∨ s.roundIndex ≠ 0 ∨ s.accumulatedText ≠ "" ∨
        s.toolCallsThisRound ≠ [] then throw err
    else if ¬ (← TurnM.lift (isFallbackEnabled e.context.customerId)) then throw err
    else
      match ← TurnM.lift (pickFallbackProvider e.context.customerId s.choice.provider) with
      | none => throw err
      | some provider =>
        modify fun s => { s with choice := ⟨provider, defaultModelFor provider⟩ }
        rounds e settings.maxToolRounds

/-- `_reconcile_and_record`. -/
def reconcileAndRecord (e : TurnContext) (status : UsageEventStatus) : TurnM Unit := do
  let s ← get
  TurnM.lift do
    let actualCents ← estimateCostCents s.choice.provider s.choice.model s.totalUsage.inputTokens
      s.totalUsage.outputTokens
    reconcileBudget e.context.customerId e.totalEstimateCents actualCents
    recordUsageEvent e.context.customerId e.context.workspaceId (some e.conversation.id) e.traceId
      (actorOf e.context.userId) s.choice e.mode s.totalUsage e.totalEstimateCents actualCents
      status

/-- The part of a turn before its first gateway call: store the message, choose a
provider, and reserve the budget of the whole turn. -/
def beginTurn (context : WorkspaceContext) (conversation : Conversation) (traceId : Uuid)
    (content : String) (mode : ChatMode) : Session (TurnContext × Turn) := do
  match detectLikelySecret content with
  | some label => throw (.outboundContentBlocked label)
  | none =>
    let _ ← addMessage fun id createdAt =>
      { id, createdAt, customerId := conversation.customerId, conversationId := conversation.id,
        role := .USER, content }
    let language ← resolveEffectiveLanguage conversation content context.workspaceId
    let instructions ← responseLanguageInstruction language
    let choice ← resolveProviderChoice conversation context.customerId context.userId
      context.workspaceId
    assertProviderEnabled context.customerId choice.provider
    let db ← Session.select
    let history := messagesToHistory (listMessages db conversation.id) settings.maxContextChars
    let inputTokens := estimateInputTokensFromChars (history.map (·.content.length)).sum
    let perRoundCents ← estimateCostCents choice.provider choice.model inputTokens
      (maxOutputTokens mode)
    let totalEstimateCents := perRoundCents * settings.maxToolRounds
    if mode = .DEEP ∧ totalEstimateCents > settings.deepCeilingCents then
      throw .deepRequestCostCeilingExceeded
    reserveBudget context.customerId totalEstimateCents
    return ({ context, conversation, traceId, mode, instructions,
              maxOutputTokens := maxOutputTokens mode, totalEstimateCents },
            { choice, history })

/-- The part of a turn from its first gateway call on. -/
def runTurn (e : TurnContext) : TurnM Unit := do
  match ← TurnM.attempt (withFallback e) with
  | .ok _ =>
    reconcileAndRecord e .RECONCILED
    let s ← get
    yieldChunk (.done s.finalAssistantMessage)
  | .error err =>
    reconcileAndRecord e .REFUNDED
    throw err

/-- `stream_message`, as `post_conversation_message` drives it: what it raises
before its first chunk is the request's exception; after that an error chunk is
sent, and nothing where the client has gone. -/
def streamMessage (context : WorkspaceContext) (conversation : Conversation) (traceId : Uuid)
    (content : String) (mode : ChatMode) : Session Unit := do
  let (e, s) ← beginTurn context conversation traceId content mode
  let (r, s) ← runTurn e s
  match r with
  | .ok _ => pure ()
  | .error err =>
    if err.isException then
      if s.started then
        let _ ← call (Call.send .error)
      else throw err

end Doda
