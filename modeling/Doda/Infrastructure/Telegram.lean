import Doda.Application.Action

/-!
# The Telegram connector

`processEntry` takes one stream entry: it drives the action to RUNNING in a
transaction of its own, posts to the Bot API with bounded retries, and resolves
the action in another transaction.  `telegramRelayOnce` reads a batch of entries
new to the consumer group and processes each; an entry whose processing raises is
logged and left unacknowledged.

## Main definitions

* `sendMessage` — `telegram_client.send_message`.
* `sendWithRetries` — `_send_with_retries`.
* `driveToRunning`, `resolve` — the two transactions.
* `processEntry`, `telegramRelayOnce` — `process_entry`, `relay_once`.
-/

namespace Doda

open ReadCommitted

variable [Sha256]

/-- The actor the connector's transitions are audited under. -/
def telegramActor : String := "system:telegram_connector"

/-- `TELEGRAM_SEND_ATTEMPTS`. -/
def telegramSendAttempts : ℕ := 3

/-- The batch one `xreadgroup` asks for. -/
def telegramBatchSize : ℕ := 50

/-- Whether a value is a JSON object. -/
def Json.isObj : Json → Bool
  | .obj _ => true
  | _ => false

/-- What `send_message` makes of an outcome: the message id, or the exception. -/
def sendResult : HttpOutcome → Except Err Json
  | .connectError => .error (.telegramSend "ConnectError" true)
  | .connectTimeout => .error (.telegramSend "ConnectTimeout" true)
  | .poolTimeout => .error (.telegramSend "PoolTimeout" true)
  | .httpError name => .error (.telegramSend name false)
  | .raised name => .error (.builtin name)
  | .response status body =>
    if status = 429 then .error (.telegramSend "HTTP 429" true)
    else match body with
    | none => .error (.telegramSend "not valid JSON" false)
    | some body =>
      if ¬ (200 ≤ status ∧ status < 300) then
        -- the message reads `body.get("description")`
        if body.isObj then .error (.telegramSend "rejected" false)
        else .error (.builtin "AttributeError")
      else if ¬ body.isObj then .error (.builtin "AttributeError")
      else if ¬ (body.get? "ok").any Json.truthy then .error (.telegramSend "rejected" false)
      else match body.get? "result" with
      | none => .error (.builtin "KeyError")
      | some result =>
        if ¬ result.isObj then .error (.builtin "TypeError")
        else match result.get? "message_id" with
        | none => .error (.builtin "KeyError")
        | some messageId => .ok messageId

/-- `send_message`, on behalf of an action. -/
def sendMessage (actionId : Uuid) (chatId text : String) : Session Json := do
  let outcome ← call (Call.post actionId chatId text)
  match sendResult outcome with
  | .ok messageId => return messageId
  | .error e => throw e

/-- Whether the retry loop catches the exception. -/
def Err.isTransient : Err → Bool
  | .telegramSend _ transient => transient
  | _ => false

/-- `_send_with_retries`, with `n` attempts left and the last transient exception. -/
def sendAttempts (actionId : Uuid) (chatId text : String) : ℕ → Err → Session Json
  | 0, last => throw last
  | n + 1, _ =>
    tryCatch (sendMessage actionId chatId text) fun e =>
      if e.isTransient then sendAttempts actionId chatId text n e else throw e

/-- `_send_with_retries`. -/
def sendWithRetries (actionId : Uuid) (chatId text : String) : Session Json :=
  sendAttempts actionId chatId text telegramSendAttempts .assertion

/-- `_drive_to_running`. -/
def driveToRunning (customerId actionId : Uuid) : Session (Option Action) := atomically do
  match ← getAction customerId actionId with
  | none => return none
  | some action =>
    if action.toolName ≠ telegramSendMessage then return none
    if action.status ≠ .READY then return none
    let action ← applyTransition action .RUNNING telegramActor
    return some action

/-- `_resolve`. -/
def resolve (customerId actionId : Uuid) (target : ActionStatus) (receipt : Option Json := none) :
    Session Unit := atomically do
  let some action ← getAction customerId actionId | throw .assertion
  let _ ← applyTransition action target telegramActor receipt

/-- The chat and the text of a payload, where both are strings. -/
def telegramPayload (payload : Json) : Option (String × String) := do
  let chatId ← (payload.get? "chat_id").bind Json.asStr?
  let text ← (payload.get? "text").bind Json.asStr?
  return (chatId, text)

/-- `process_entry`. -/
def processEntry (entry : StreamEntry) (botToken : Option String) : Session Unit := do
  let customerId := entry.customerId
  let actionId := entry.aggregateId
  match ← driveToRunning customerId actionId with
  | none => return ()
  | some runningAction =>
    if botToken.isNone then
      resolve customerId actionId .FAILED
    else match telegramPayload runningAction.payload with
    | none => resolve customerId actionId .FAILED
    | some (chatId, text) =>
      let result : Option Json ← tryCatch (some <$> sendWithRetries actionId chatId text) fun e =>
        match e with
        | .telegramSend _ _ => do
          resolve customerId actionId .FAILED
          return none
        | e => throw e
      match result with
      | none => return ()
      | some messageId =>
        resolve customerId actionId .SUCCEEDED (some (.obj [("message_id", messageId)]))

/-- Process a batch; how many entries were acknowledged. -/
def processBatch (botToken : Option String) : List Delivery → Session ℕ
  | [] => pure 0
  | d :: ds => do
    let ok ← tryCatch (do processEntry d.entry botToken; return true) fun _ => do
      let _ ← call (Call.entryFailed d)
      return false
    if ok then
      let _ ← call (Call.xack d)
      let n ← processBatch botToken ds
      return n + 1
    else
      processBatch botToken ds

/-- `relay_once`. -/
def telegramRelayOnce (botToken : Option String) : Session ℕ := do
  let batch ← call (Call.xreadgroup telegramBatchSize)
  processBatch botToken batch

end Doda
