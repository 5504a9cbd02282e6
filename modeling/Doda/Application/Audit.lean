import Mathlib.Data.Prod.Lex
import Doda.Domain.World

/-!
# Recording and verifying audit events

Every audit event carries the hash of the one before it in the same customer's
chain.  `recordAuditEvent` locks the customer's chain tip, hashes the event's
content together with the tip, inserts the event and moves the tip.
`verifyAuditChain` walks the stored events in `(created_at, id)` order and
compares each with what its fields and its predecessor's stored hash say.

## Main definitions

* `auditContent` — the eight hashed fields.
* `recordAuditEvent` — `record_audit_event`.
* `AuditEvent.recomputeHash`, `violationsFrom`, `verifyAuditChain` — the check.
-/

namespace Doda

open ReadCommitted

variable [Sha256]

/-- The dictionary whose hash is an event's hash. -/
def auditContent (customerId : Uuid) (workspaceId : Option Uuid) (traceId : Uuid)
    (actorId eventType : String) (occurredAt : Time) (safeMetadata : Json)
    (prevHash : Option String) : Json :=
  .obj [("customer_id", .str customerId.str),
    ("workspace_id", .ofOption (workspaceId.map Uuid.str)),
    ("trace_id", .str traceId.str),
    ("actor_id", .str actorId),
    ("event_type", .str eventType),
    ("occurred_at", .str occurredAt.isoformat),
    ("safe_metadata", .str (canonicalJson safeMetadata)),
    ("prev_hash", .ofOption prevHash)]

/-- `_recompute_event_hash`. -/
def AuditEvent.recomputeHash (e : AuditEvent) : String :=
  hashPayload (auditContent e.customerId e.workspaceId e.traceId e.actorId e.eventType e.occurredAt
    e.safeMetadata e.prevHash)

/-- `record_audit_event`. -/
def recordAuditEvent (customerId : Uuid) (workspaceId : Option Uuid) (traceId : Uuid)
    (actorId eventType : String) (safeMetadata : Json) : Session AuditEvent := do
  let _ ← Session.tryInsert [⟨.auditChainTip customerId, ⟨none⟩⟩]
  let some tip ← Session.getForUpdate (.auditChainTip customerId) | throw .assertion
  let occurredAt ← Session.utcnow .occurred
  let digest := hashPayload (auditContent customerId workspaceId traceId actorId eventType
    occurredAt safeMetadata tip.tipHash)
  let id ← Session.uuid4
  let createdAt ← Session.utcnow (.auditCreated customerId)
  let event : AuditEvent :=
    { id, createdAt, customerId, workspaceId, traceId, actorId, eventType, occurredAt,
      safeMetadata, prevHash := tip.tipHash, hash := digest }
  Session.insert (.auditEvent id) event
  Session.update (.auditChainTip customerId) fun _ => ⟨some digest⟩
  return event

/-! ## Verification -/

/-- `AuditChainViolation`. -/
structure AuditChainViolation where
  eventId : Uuid
  reason : String
  deriving DecidableEq, Repr

/-- `AuditChainVerificationResult`. -/
structure AuditChainVerificationResult where
  checkedCount : ℕ
  violations : List AuditChainViolation
  deriving DecidableEq, Repr

/-- What the walk reports from an event on, given the hash it expects as
`prev_hash`.  It goes on from the *stored* hash. -/
def violationsFrom : Option String → List AuditEvent → List AuditChainViolation
  | _, [] => []
  | expected, e :: es =>
    (if e.prevHash ≠ expected then [⟨e.id, "prev_hash_mismatch"⟩] else []) ++
    (if e.recomputeHash ≠ e.hash then [⟨e.id, "hash_mismatch"⟩] else []) ++
    violationsFrom (some e.hash) es

/-- Where an event stands in `ORDER BY created_at ASC, id ASC`. -/
def AuditEvent.place (e : AuditEvent) : ℕ ×ₗ ℕ := toLex (e.createdAt, e.id.toNat)

/-- `ORDER BY created_at ASC, id ASC`. -/
def AuditEvent.before (a b : AuditEvent) : Prop := a.place ≤ b.place

instance : DecidableRel AuditEvent.before := fun a b =>
  inferInstanceAs (Decidable (a.place ≤ b.place))

/-- A customer's stored events, in no particular order. -/
def storedEvents (customerId : Uuid) (db : Db) : List AuditEvent :=
  collect (fun k v => match k, v with
    | .auditEvent _, (e : AuditEvent) => if e.customerId = customerId then some e else none
    | _, _ => none) db

/-- `verify_audit_chain` over the rows it selects. -/
def verifyEvents (rows : List AuditEvent) : AuditChainVerificationResult :=
  let events := rows.insertionSort AuditEvent.before
  { checkedCount := events.length, violations := violationsFrom none events }

/-- `verify_audit_chain`. -/
def verifyAuditChain (customerId : Uuid) : Session AuditChainVerificationResult := do
  let db ← Session.select
  return verifyEvents (storedEvents customerId db)

end Doda
