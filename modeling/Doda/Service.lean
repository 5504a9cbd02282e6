import Doda.Api.Conversations
import Doda.Infrastructure.OutboxRelay
import Doda.Infrastructure.Telegram

/-!
# The service

Every process of the system is started for one request and serves it: an HTTP
request, one poll of a relay, an entry delivered again, or the writes of the rest
of the application to its own tables.

## Main definitions

* `serve` — the program of a process.
-/

namespace Doda

open ReadCommitted

/-- Write one version of a row of another table. -/
def keepHouse (v : Version Row) : Session Unit := do
  match v with
  | ⟨k, some row⟩ =>
    if ¬ (← Session.tryInsert [⟨k, row⟩]) then Session.update k fun _ => row
  | ⟨k, none⟩ => run (.delete k)

/-- Write them all. -/
def keepHouseAll : List { v : Version Row // v.1.housekeeping = true } → Session Unit
  | [] => pure ()
  | v :: vs => do
    keepHouse v.1
    keepHouseAll vs

variable [Sha256] [JsonText] [Deployment]

/-- What a request runs, once it has arrived. -/
def handle : Request → Session Reply
  | .propose who workspaceId traceId body idempotencyKey =>
    withRequestContext who workspaceId fun context =>
      proposeAndSubmitAction context traceId body idempotencyKey
  | .consume who workspaceId approvalId nonce =>
    withRequestContext who workspaceId fun context =>
      consumeActionApproval context who.authStrength approvalId nonce
  | .cancel who workspaceId actionId =>
    withRequestContext who workspaceId fun context => cancelAction context actionId
  | .completeCompensation who workspaceId actionId outcome =>
    withRequestContext who workspaceId fun context =>
      completeActionCompensation context actionId outcome
  | .chat who workspaceId conversationId traceId content mode =>
    withRequestContext who workspaceId fun context =>
      postConversationMessage context conversationId traceId content mode
  | .outboxRelay batchSize => .count <$> outboxRelayOnce batchSize
  | .telegramRelay botToken => .count <$> telegramRelayOnce botToken
  | .processEntry entry botToken => do
    processEntry entry botToken
    return .none
  | .housekeeping rows => do
    atomically (keepHouseAll rows)
    return .none

/-- Serve a request. -/
def serve (r : Request) : Session Reply := do
  let _ ← call (Call.received r)
  handle r

end Doda
