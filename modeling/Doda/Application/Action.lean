import Doda.Application.Authz
import Doda.Application.Notification

/-!
# The action lifecycle

Proposing, validating, approving, cancelling and compensating actions.  Every
change of an action's status goes through `applyTransition`, which locks and
re-reads the action, asks the state machine, and audits the outcome either way.

An action held by a caller is a value; `applyTransition` returns the action as
re-read and changed, and its callers go on with that.

## Main definitions

* `proposeAction`, `resolveReplayApproval` — propose, or find the earlier one.
* `applyTransition` — the one place a status changes.
* `validateAction`, `requestApproval`, `submitActionForExecution` — after a
  proposal.
* `consumeApproval` — approve.
* `requestCancellation`, `completeCompensation`.
* `enqueueOutboxMessage` — the announcement of a ready action.
-/

namespace Doda

open ReadCommitted

variable [Sha256]

/-- `DEFAULT_APPROVAL_TTL`. -/
def defaultApprovalTtl : Time := minutes 10

/-- `secrets.compare_digest`, which raises on text that is not ASCII. -/
def compareDigest (a b : String) : Session Bool :=
  if a.toList.all (·.toNat < 128) ∧ b.toList.all (·.toNat < 128) then pure (a = b)
  else throw (.builtin "TypeError")

/-- `assert_not_killed`. -/
def assertNotKilled (customerId workspaceId : Uuid) : Session Unit := do
  if (← Session.get (.customerKillSwitch customerId)).isSome then
    throw (.killSwitchEngaged "customer")
  if (← Session.get (.workspaceKillSwitch workspaceId)).isSome then
    throw (.killSwitchEngaged "workspace")

/-- `enqueue_outbox_message`. -/
def enqueueOutboxMessage (customerId : Uuid) (aggregateType : String) (aggregateId : Uuid)
    (eventType : String) (payload : Json) : Session OutboxMessage := do
  let id ← Session.uuid4
  let createdAt ← Session.utcnow .created
  let message : OutboxMessage :=
    { id, createdAt, customerId, aggregateType, aggregateId, eventType, payload }
  Session.insert (.outboxMessage id) message
  return message

/-- `"action.ready.v1"`. -/
def actionReadyEvent : String := "action.ready.v1"

/-- Announce a ready action, with the approval that released it if one did. -/
def announceReady (action : Action) (approvalId : Option Uuid) : Session OutboxMessage :=
  enqueueOutboxMessage action.customerId "action" action.id actionReadyEvent
    (.obj ([("action_id", .str action.id.str), ("tool_name", .str action.toolName)] ++
      (approvalId.map fun i => ("approval_id", Json.str i.str)).toList))

/-! ## Audit metadata -/

/-- The metadata of `action.proposed.v1`. -/
def proposedMetadata (action : Action) : Json :=
  .obj [("action_id", .str action.id.str), ("tool_name", .str action.toolName),
    ("risk_level", .str action.riskLevel.value)]

/-- The metadata of a transition. -/
def transitionMetadata (action : Action) (source target : ActionStatus) (receipt : Option Json) :
    Json :=
  .obj [("action_id", .str action.id.str), ("from", .str source.value), ("to", .str target.value),
    ("provider_receipt", receipt.getD .null)]

/-- The metadata of a refused transition. -/
def rejectionMetadata (action : Action) (source target : ActionStatus) : Json :=
  .obj [("action_id", .str action.id.str), ("from", .str source.value), ("to", .str target.value)]

/-! ## Proposing -/

/-- `propose_action`: the action, and whether it was created. -/
def proposeAction (customerId workspaceId traceId : Uuid) (actorId : String) (toolName : String)
    (riskLevel : RiskLevel) (payload : Json) (idempotencyKey : String) (taskId : Option Uuid) :
    Session (Action × Bool) := do
  assertNotKilled customerId workspaceId
  let riskLevel := enforceMinimumRiskLevel toolName riskLevel
  let id ← Session.uuid4
  let action : Action :=
    { id, customerId, workspaceId, traceId, taskId, actorId, toolName, riskLevel, payload,
      payloadHash := hashPayload payload, idempotencyKey, status := .DRAFT }
  let inserted ← Session.tryInsert
    [⟨.action id, action⟩, ⟨.actionIdempotency customerId workspaceId idempotencyKey, id⟩]
  if inserted then
    let _ ← recordAuditEvent customerId (some workspaceId) traceId actorId "action.proposed.v1"
      (proposedMetadata action)
    return (action, true)
  else
    let db ← Session.select
    match (row db (.actionIdempotency customerId workspaceId idempotencyKey)).bind
        fun i => row db (.action i) with
    | none => throw .assertion
    | some existing => return (existing, false)

/-- An action's approvals. -/
def approvalsOf (db : Db) (actionId : Uuid) : List Approval :=
  collect (fun k v => match k, v with
    | .approval _, (a : Approval) => if a.actionId = actionId then some a else none
    | _, _ => none) db

/-- `resolve_replay_approval`: the newest approval, for the original actor only. -/
def resolveReplayApproval (action : Action) (actorId : String) : Session (Option Approval) := do
  if action.status ≠ .AWAITING_APPROVAL ∨ action.actorId ≠ actorId then return none
  let db ← Session.select
  return ((approvalsOf db action.id).insertionSort (·.createdAt ≥ ·.createdAt)).head?

/-! ## Transitions -/

/-- The notification some transitions send. -/
def notifyTransition (action : Action) (target : ActionStatus) : Session Unit := do
  match target with
  | .AWAITING_APPROVAL =>
    let _ ← createNotification action.customerId (some action.workspaceId) action.actorId
      .PENDING_APPROVAL "action" action.id
      (.obj [("tool_name", .str action.toolName), ("risk_level", .str action.riskLevel.value)])
  | .FAILED =>
    let _ ← createNotification action.customerId (some action.workspaceId) action.actorId
      .FAILED_ACTION "action" action.id (.obj [("tool_name", .str action.toolName)])
  | _ => pure ()

/-- `apply_transition`. -/
def applyTransition (action : Action) (target : ActionStatus) (actorId : String)
    (receipt : Option Json := none) : Session Action := do
  let actionId := action.id
  if target = .SUCCEEDED ∧ receipt.isNone then throw (.missingProviderReceipt actionId)
  let locked ← Session.getForUpdate (.action actionId)
  let action := locked.getD action
  let previous := action.status
  match transition previous target with
  | none =>
    let _ ← recordAuditEvent action.customerId (some action.workspaceId) action.traceId actorId
      "action.transition_rejected.v1" (rejectionMetadata action previous target)
    throw (.invalidActionTransition previous target)
  | some status =>
    Session.update (.action actionId) (·.setStatus status)
    let action := action.setStatus status
    let _ ← recordAuditEvent action.customerId (some action.workspaceId) action.traceId actorId
      target.eventType (transitionMetadata action previous target receipt)
    notifyTransition action target
    return action

/-- `request_cancellation`. -/
def requestCancellation (action : Action) (actorId : String) : Session Action :=
  match action.status with
  | .READY => applyTransition action .CANCELLED actorId
  | .RUNNING => applyTransition action .COMPENSATING actorId
  | status => throw (.actionNotCancellable action.id status)

/-- `complete_compensation`. -/
def completeCompensation (action : Action) (outcome : ActionStatus) (actorId : String) :
    Session Action :=
  if outcome ∉ [ActionStatus.COMPENSATED, .FAILED] then
    throw (.invalidCompensationOutcome outcome)
  else applyTransition action outcome actorId

/-- `validate_action`. -/
def validateAction (action : Action) (actorId : String) : Session Action := do
  let action ← applyTransition action .VALIDATING actorId
  if action.riskLevel ∈ autoApprovedRiskLevels then
    let action ← applyTransition action .READY actorId
    let _ ← announceReady action none
    return action
  else
    applyTransition action .AWAITING_APPROVAL actorId

/-- `request_approval`. -/
def requestApproval (action : Action) : Session Approval := do
  if action.status ≠ .AWAITING_APPROVAL then
    throw (.approvalInvalid
      s!"cannot request approval for action in status {action.status.value}")
  let nonce ← call .tokenUrlsafe
  let now ← Session.utcnow .expiresAt
  let id ← Session.uuid4
  let createdAt ← Session.utcnow .created
  let approval : Approval :=
    { id, createdAt, customerId := action.customerId, actionId := action.id,
      payloadHash := action.payloadHash, nonce, status := .PENDING,
      expiresAt := now + defaultApprovalTtl }
  Session.insert (.approval id) approval
  return approval

/-- `submit_action_for_execution`. -/
def submitActionForExecution (action : Action) (actorId : String) :
    Session (Action × Option Approval) := do
  let action ← validateAction action actorId
  if action.status = .AWAITING_APPROVAL then
    let approval ← requestApproval action
    return (action, some approval)
  else
    return (action, none)

/-! ## Approving -/

/-- Set an approval's status. -/
def setApprovalStatus (approval : Approval) (status : ApprovalStatus) : Session Unit :=
  Session.update (.approval approval.id) fun a => { a with status := status }

/-- `consume_approval`.  The change to the approval is flushed by the query that
locks the action. -/
def consumeApproval (action : Action) (approval : Approval) (approverId nonce : String) :
    Session Action := do
  if approval.status ≠ .PENDING then
    throw (.approvalInvalid s!"approval already {approval.status.value}")
  if ¬ (← compareDigest approval.nonce nonce) then
    throw (.approvalInvalid "nonce mismatch")
  let now ← Session.utcnow (.expiry approval.id)
  if now > approval.expiresAt then
    setApprovalStatus approval .EXPIRED
    let _ ← applyTransition action .EXPIRED approverId
    throw (.approvalInvalid "approval expired")
  if approval.payloadHash ≠ action.payloadHash then
    setApprovalStatus approval .DENIED
    let _ ← applyTransition action .REJECTED approverId
    throw (.approvalInvalid "action payload changed since approval was requested")
  Session.update (.approval approval.id) fun a =>
    { a with status := .APPROVED, approverId := some approverId }
  let action ← applyTransition action .READY approverId
  let _ ← announceReady action (some approval.id)
  return action

end Doda
