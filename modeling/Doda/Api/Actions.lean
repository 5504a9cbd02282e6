import Doda.Application.Action

/-!
# Action endpoints

The four handlers that change an action, each run by `withRequestContext` in one
transaction of the workspace's customer.

## Main definitions

* `Reply` — what a request is answered with.
* `proposeAndSubmitAction`, `consumeActionApproval`, `cancelAction`,
  `completeActionCompensation` — the handlers.
-/

namespace Doda

variable [Sha256]

/-- What a served request returns. -/
inductive Reply where
  /-- `SubmitActionResponse`: the action, and its approval where the caller may see it. -/
  | submitted (action : Action) (approval : Option Approval)
  /-- `ActionOut`. -/
  | action (action : Action)
  /-- The number of entries or messages a relay handled. -/
  | count (n : ℕ)
  /-- A streamed reply, or nothing. -/
  | none

/-- `_get_workspace_action`. -/
def getWorkspaceAction (context : WorkspaceContext) (actionId : Uuid) : Session Action := do
  match ← getAction context.customerId actionId with
  | some action =>
    if action.workspaceId ≠ context.workspaceId then throw (.notFound "action not found")
    return action
  | none => throw (.notFound "action not found")

/-- `propose_and_submit_action`. -/
def proposeAndSubmitAction (context : WorkspaceContext) (traceId : Uuid) (body : ProposeBody)
    (idempotencyKey : String) : Session Reply := do
  authorizeProposeAction context
  let actorId := actorOf context.userId
  let (action, created) ← proposeAction context.customerId context.workspaceId traceId actorId
    body.toolName body.riskLevel body.payload idempotencyKey body.taskId
  if created then
    let (action, approval) ← submitActionForExecution action actorId
    return .submitted action approval
  else
    let approval ← resolveReplayApproval action actorId
    return .submitted action approval

/-- `consume_action_approval`. -/
def consumeActionApproval (context : WorkspaceContext) (authStrength : AuthStrength)
    (approvalId : Uuid) (nonce : String) : Session Reply := do
  match ← getApproval context.customerId approvalId with
  | none => throw (.notFound "approval not found")
  | some approval =>
    let action ← getWorkspaceAction context approval.actionId
    authorizeConsumeApproval context action authStrength
    let action ← consumeApproval action approval (actorOf context.userId) nonce
    return .action action

/-- `cancel_action`. -/
def cancelAction (context : WorkspaceContext) (actionId : Uuid) : Session Reply := do
  let action ← getWorkspaceAction context actionId
  authorizeCancelAction context action
  let action ← requestCancellation action (actorOf context.userId)
  return .action action

/-- `complete_action_compensation`. -/
def completeActionCompensation (context : WorkspaceContext) (actionId : Uuid)
    (outcome : ActionStatus) : Session Reply := do
  let action ← getWorkspaceAction context actionId
  authorizeCompleteCompensation context
  let action ← completeCompensation action outcome (actorOf context.userId)
  return .action action

end Doda
