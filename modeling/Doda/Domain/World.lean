import Doda.Domain.Tables
import Doda.Lib.Statements

/-!
# Programs of the application, and the world they call

A function of the application is a program over the database: `Session α`.  What
it takes from outside the database is a call, answered by the world: fresh
identifiers and tokens, clock readings, Redis, the Telegram API, a model
provider, and the HTTP client that reads a streamed reply.

Some calls carry data that the real operation does not, so that a run records
what it was about: a clock reading names its purpose, a POST names the action it
is made for, and a tool-status chunk names the call and the action it reports.

## Main definitions

* `Identity`, `Request` — what a process is started for.
* `Call`, `Answer` — the calls and the types of their answers.
* `Session` — programs.
-/

namespace Doda

/-! ## Model gateways -/

/-- `ToolCallRequest`. -/
structure ToolCallRequest where
  callId : String
  name : String
  argumentsJson : String
  deriving DecidableEq, Repr

/-- `ChatTurn`, one turn of the history handed to a gateway. -/
structure ChatTurn where
  role : MessageRole
  content : String
  toolCallId : Option String := none
  toolCalls : List ToolCallRequest := []
  deriving DecidableEq, Repr

/-- `GatewayEvent`; the error event is one the turn loop does not look at. -/
inductive GatewayEvent where
  | textDelta (text : String)
  | toolCallReady (call : ToolCallRequest)
  | structuredOutputReady (data : Json)
  | completed (usage : GatewayUsage) (finishReason : String)
  | gatewayError

/-- What one `stream_chat` call yields before it ends, and how it ends. -/
structure GatewayStream where
  events : List GatewayEvent
  error : Option Err := none

/-- The arguments of one `stream_chat` call. -/
structure GatewayRequest where
  provider : Provider
  model : String
  mode : ChatMode
  instructions : String
  history : List ChatTurn
  maxOutputTokens : ℤ

/-! ## Telegram -/

/-- How one POST to the Bot API ends. -/
inductive HttpOutcome where
  | connectError | connectTimeout | poolTimeout
  /-- Any other `httpx.HTTPError`. -/
  | httpError (name : String)
  /-- An exception that is not an `httpx.HTTPError`, of the request or of reading its body. -/
  | raised (name : String)
  /-- A response; `none` where the body is not JSON. -/
  | response (status : ℕ) (body : Option Json)

/-- The outcomes after which the message certainly was not delivered. -/
def HttpOutcome.Undelivered : HttpOutcome → Prop
  | .connectError | .connectTimeout | .poolTimeout => True
  | .httpError _ | .raised _ => False
  | .response status _ => status = 429

/-- One entry of the Redis stream: the outbox message it was added for. -/
structure StreamEntry where
  messageId : Uuid
  customerId : Uuid
  aggregateType : String
  aggregateId : Uuid
  eventType : String
  payload : Json

/-- How one `XADD` ends. -/
inductive XaddOutcome where
  | added
  /-- Added, but the call raises. -/
  | unacknowledged
  /-- Not added, and the call raises. -/
  | refused
  deriving DecidableEq

/-- An entry as the consumer group hands it out, with its stream id. -/
structure Delivery where
  entryId : ℕ
  entry : StreamEntry

/-! ## Requests -/

/-- The caller, as its session row resolves. -/
structure Identity where
  userId : Uuid
  authStrength : AuthStrength
  deriving DecidableEq

/-- `f"user:{user_id}"`. -/
def actorOf (userId : Uuid) : String := "user:" ++ userId.str

/-- The body of a propose request. -/
structure ProposeBody where
  toolName : String
  riskLevel : RiskLevel
  payload : Json
  taskId : Option Uuid := none

/-- A key of a table that the rest of the application writes: everything but actions,
approvals, the outbox, the audit log, messages and the AI budget. -/
def Key.housekeeping : Key → Bool
  | .action _ | .actionIdempotency _ _ _ | .approval _ | .outboxMessage _ | .auditEvent _
  | .auditChainTip _ | .message _ | .aiBudgetLedger _ _ | .aiUsageEvent _ => false
  | _ => true

/-- What a process is started for. -/
inductive Request where
  | propose (who : Identity) (workspaceId traceId : Uuid) (body : ProposeBody)
      (idempotencyKey : String)
  | consume (who : Identity) (workspaceId approvalId : Uuid) (nonce : String)
  | cancel (who : Identity) (workspaceId actionId : Uuid)
  | completeCompensation (who : Identity) (workspaceId actionId : Uuid) (outcome : ActionStatus)
  /-- A message posted to a conversation. -/
  | chat (who : Identity) (workspaceId conversationId traceId : Uuid) (content : String)
      (mode : ChatMode)
  /-- One `relay_once` of the outbox relay. -/
  | outboxRelay (batchSize : ℕ)
  /-- One `relay_once` of the Telegram relay. -/
  | telegramRelay (botToken : Option String)
  /-- `process_entry` on an entry delivered again by other means. -/
  | processEntry (entry : StreamEntry) (botToken : Option String)
  /-- Rows of the other tables written by the rest of the application. -/
  | housekeeping (rows : List { v : ReadCommitted.Version Row // v.1.housekeeping = true })

/-- What a process of the session service is started for. -/
inductive SessionRequest where
  | create (userId : Uuid) (authStrength : AuthStrength)
  /-- The check that every authenticated request begins with; `workspaceId` is the workspace the
  request is for, if any. -/
  | resolve (id : Uuid) (workspaceId : Option Uuid)
  | revoke (id : Uuid)

/-! ## Calls -/

/-- What a clock reading is for. -/
inductive Clock where
  /-- The `created_at` default of a row. -/
  | created
  /-- `created_at` of an audit event, read under the customer's chain tip. -/
  | auditCreated (customerId : Uuid)
  | occurred
  /-- The expiry check of an approval. -/
  | expiry (approvalId : Uuid)
  | expiresAt
  /-- `engaged_at` of a kill switch. -/
  | engaged
  | published
  | month
  /-- `now` of a session's creation. -/
  | opened
  /-- `now` of the check of a session. -/
  | seen (sessionId : Uuid)
  /-- `now` of a listing of active sessions. -/
  | listed
  | revoked
  /-- `archived_at` of a workspace. -/
  | archived
  | confirmed
  /-- `now` of the reminder job. -/
  | due
  deriving DecidableEq

/-- What a turn streams to its client. -/
inductive TurnChunk where
  | text (text : String)
  /-- The report of a proposed write call, with the call and the action reported. -/
  | toolStatus (text : String) (call : ToolCallRequest) (action : Action)
  | done (message : Option Message)
  | error

/-- Calls to the world. -/
inductive Call where
  /-- The request this process serves arrives. -/
  | received (r : Request)
  /-- A request of the session service arrives. -/
  | authenticates (r : SessionRequest)
  | uuid4
  | tokenUrlsafe
  | utcnow (c : Clock)
  /-- The order in which the database visits the rows of a scan that asks for none. -/
  | scanOrder (rows : List Uuid)
  | xadd (e : StreamEntry)
  | xreadgroup (count : ℕ)
  | xack (d : Delivery)
  /-- `logger.exception("telegram_relay.entry_failed")`. -/
  | entryFailed (d : Delivery)
  /-- POST to `sendMessage`, made for `actionId`. -/
  | post (actionId : Uuid) (chatId text : String)
  | streamChat (r : GatewayRequest)
  /-- Hand a chunk to the client. -/
  | send (chunk : TurnChunk)

/-- The answers. -/
@[reducible] def Answer : Call → Type
  | .received _ | .authenticates _ | .xack _ | .entryFailed _ => Unit
  | .uuid4 => Uuid
  | .tokenUrlsafe => String
  | .utcnow _ => Time
  | .scanOrder rows => { order : List Uuid // order.Perm rows }
  | .xadd _ => XaddOutcome
  | .xreadgroup _ => List Delivery
  | .post _ _ _ => HttpOutcome
  | .streamChat _ => GatewayStream
  -- `false` where the client has gone
  | .send _ => Bool

/-- The calls that change nothing outside the process. -/
def Call.Minor : Call → Prop
  | .uuid4 | .tokenUrlsafe | .utcnow _ | .scanOrder _ => True
  | _ => False

/-- Programs over the database. -/
abbrev Session := ReadCommitted.Prog Row Answer Err

namespace Session

/-- Read a row. -/
abbrev get (k : Key) : Session (Option (Row k)) := ReadCommitted.run (.get k)

/-- Read a row and lock it to the end of the transaction. -/
abbrev getForUpdate (k : Key) : Session (Option (Row k)) := ReadCommitted.run (.forUpdate k)

/-- Read everything. -/
abbrev select : Session Db := ReadCommitted.run .view

/-- Insert one row. -/
abbrev insert (k : Key) (v : Row k) : Session Unit := ReadCommitted.run (.insert [⟨k, v⟩])

/-- Insert rows under a savepoint, or with `ON CONFLICT DO NOTHING`. -/
abbrev tryInsert (rows : List (ReadCommitted.Entry Row)) : Session Bool :=
  ReadCommitted.run (.tryInsert rows)

/-- Change a row. -/
abbrev update (k : Key) (f : Row k → Row k) : Session Unit := ReadCommitted.run (.update k f)

/-- `uuid.uuid4()`. -/
abbrev uuid4 : Session Uuid := ReadCommitted.call Call.uuid4

/-- `utcnow()`. -/
abbrev utcnow (c : Clock) : Session Time := ReadCommitted.call (Call.utcnow c)

end Session

/-- Histories of the application's runs. -/
abbrev Hist := ReadCommitted.History Row Answer

/-- Open transactions. -/
abbrev DbTx := ReadCommitted.Tx Row

/-- A process went on inside one transaction, making minor calls only. -/
abbrev Onward (p : ℕ) (h : Hist) (t : DbTx) (h' : Hist) (t' : DbTx) : Prop :=
  ReadCommitted.Onward Call.Minor p h t h' t'

/-- A statement has failed. -/
abbrev Broken (p : ℕ) (h : Hist) (t : DbTx) (e : Err) (h' : Hist) (t' : DbTx) : Prop :=
  ReadCommitted.Broken Call.Minor p h t e h' t'

section Minor

variable {C : ReadCommitted.Contract Row Answer} {p : ℕ} {h : Hist} {t : DbTx}

/-- Minor calls are always allowed. -/
def MinorFree (C : ReadCommitted.Contract Row Answer) : Prop :=
  ∀ h p e, Call.Minor e → C.callOk h p e

/-- A minor call answers anything, and breaks nothing. -/
theorem minor_safe (hm : MinorFree C) (hl : ReadCommitted.Live C h t) {e : Call}
    (he : e.Minor) :
    ReadCommitted.Safe C p (fun x h' t' => t' = t ∧ ReadCommitted.Live C h' t ∧
        ∃ h₁, h' = .called p e x :: h₁ ∧ Onward p h t h₁ t ∧ Onward p h t h' t)
      (Broken p h t) (ReadCommitted.call e : Session _) h t :=
  ReadCommitted.Safe.minorCall hl.ok he fun h => hm h p e he

end Minor

end Doda
