import Doda.Application.Action

/-!
# The outbox relay

One poll of the outbox: lock a batch of unpublished messages that no other
worker holds, add each to its Redis stream, mark it published, and commit.

## Main definitions

* `pendingMessages` — the query.
* `publish`, `outboxRelayOnce` — `relay_once`.
-/

namespace Doda

open ReadCommitted

/-- The unpublished messages, oldest first. -/
def pendingMessages (db : Db) : List Key :=
  ((collect (fun k v => match k, v with
    | .outboxMessage _, (m : OutboxMessage) => if m.publishedAt.isNone then some m else none
    | _, _ => none) db).insertionSort (·.createdAt ≤ ·.createdAt)).map (.outboxMessage ·.id)

/-- The stream entry of a message. -/
def OutboxMessage.entry (m : OutboxMessage) : StreamEntry :=
  { messageId := m.id, customerId := m.customerId, aggregateType := m.aggregateType,
    aggregateId := m.aggregateId, eventType := m.eventType, payload := m.payload }

/-- Publish one message. -/
def publish (m : OutboxMessage) : Session Unit := do
  match ← call (Call.xadd m.entry) with
  | .added =>
    let now ← Session.utcnow .published
    Session.update (.outboxMessage m.id) fun m =>
      { m with publishedAt := some now, attempts := m.attempts + 1 }
  | .unacknowledged | .refused => throw .redis

/-- Publish every locked row that is a message; how many there were. -/
def publishAll : List (Entry Row) → Session ℕ
  | [] => pure 0
  | ⟨.outboxMessage _, m⟩ :: rows => do
    publish m
    let n ← publishAll rows
    return n + 1
  | _ :: rows => publishAll rows

/-- `relay_once`. -/
def outboxRelayOnce (batchSize : ℕ) : Session ℕ := atomically do
  let rows ← run (.skipLocked pendingMessages batchSize)
  publishAll rows

end Doda
