import Doda.Domain.World

/-!
# Authorization

A request is served for a user in a workspace.  `withRequestContext` finds the
workspace's customer, opens the customer's transaction and resolves the user's
role there; everything short of an explicit grant raises.  Row-level security
hides the rows of other customers, so a lookup takes the tenant it runs under.

## Main definitions

* `WorkspaceContext`, `getWorkspaceContext` — the resolved role.
* `authorizeProposeAction`, `authorizeConsumeApproval`, `authorizeCancelAction`,
  `authorizeCompleteCompensation`, `authorizeUseChat` — the checks.
* `withRequestContext` — the dependency every workspace endpoint runs under.
-/

namespace Doda

open ReadCommitted

/-- `WorkspaceContext`. -/
structure WorkspaceContext where
  customerId : Uuid
  workspaceId : Uuid
  userId : Uuid
  role : WorkspaceRole
  deriving DecidableEq

/-! ## Lookups under row-level security -/

/-- `session.get(Action, id)` in a transaction of `tenant`. -/
def getAction (tenant id : Uuid) : Session (Option Action) := do
  let action ← Session.get (.action id)
  return action.filter (·.customerId = tenant)

/-- `session.get(Approval, id)` in a transaction of `tenant`. -/
def getApproval (tenant id : Uuid) : Session (Option Approval) := do
  let approval ← Session.get (.approval id)
  return approval.filter (·.customerId = tenant)

/-! ## Roles -/

/-- The user's membership in a customer; one row at most, by a unique constraint. -/
def membershipOf (db : Db) (customerId userId : Uuid) : Option CustomerMembership :=
  (collect (fun k v => match k, v with
    | .customerMembership _, (m : CustomerMembership) =>
      if m.customerId = customerId ∧ m.userId = userId then some m else none
    | _, _ => none) db).head?

/-- `_is_customer_owner` over the rows it selects. -/
def isCustomerOwner (db : Db) (customerId userId : Uuid) : Bool :=
  (membershipOf db customerId userId).any (·.role = .CUSTOMER_OWNER)

/-- The workspace membership of a user, joined with the customer membership it
hangs on. -/
def workspaceMembershipOf (db : Db) (tenant workspaceId userId : Uuid) :
    Option (WorkspaceMembership × CustomerMembership) :=
  (collect (fun k v => match k, v with
    | .workspaceMembership _, (m : WorkspaceMembership) =>
      if m.customerId = tenant ∧ m.workspaceId = workspaceId then
        match row db (.customerMembership m.customerMembershipId) with
        | some c => if c.customerId = tenant ∧ c.userId = userId then some (m, c) else none
        | none => none
      else none
    | _, _ => none) db).head?

/-- `get_workspace_context`, in a transaction of `tenant`. -/
def getWorkspaceContext (tenant userId workspaceId : Uuid) : Session WorkspaceContext := do
  let found ← Session.get (.workspace workspaceId)
  let some workspace := found.filter (·.customerId = tenant)
    | throw (.authorization .DENY "workspace not found or archived")
  if workspace.archivedAt.isSome then
    throw (.authorization .DENY "workspace not found or archived")
  let customerId := workspace.customerId
  let db ← Session.select
  if isCustomerOwner db customerId userId then
    return { customerId, workspaceId, userId, role := .WORKSPACE_ADMIN }
  let db ← Session.select
  match workspaceMembershipOf db tenant workspaceId userId with
  | none => throw (.authorization .DENY "no workspace membership")
  | some (membership, customerMembership) =>
    if customerMembership.role = .AUDITOR then
      throw (.authorization .DENY "auditor holds no workspace role")
    return { customerId, workspaceId, userId, role := membership.role }

/-! ## Checks -/

/-- `ROLES_THAT_MAY_PROPOSE_ACTIONS`. -/
def rolesThatMayProposeActions : List WorkspaceRole := [.MEMBER, .WORKSPACE_ADMIN]

/-- `ROLES_THAT_MAY_APPROVE_ANOTHER_ACTORS_ACTION`. -/
def rolesThatMayApproveAnotherActorsAction : List WorkspaceRole := [.WORKSPACE_ADMIN]

/-- The shape of every role check: raise `DENY`, naming the role, unless allowed. -/
def requireRole (context : WorkspaceContext) (allowed : Bool) (may : String) : Session Unit :=
  if allowed then pure ()
  else throw (.authorization .DENY s!"role {context.role.value} may not {may}")

/-- `authorize_propose_action`. -/
def authorizeProposeAction (context : WorkspaceContext) : Session Unit :=
  requireRole context (context.role ∈ rolesThatMayProposeActions) "propose actions"

/-- `authorize_consume_approval`: the actor or a supervisor, under a fresh second
factor. -/
def authorizeConsumeApproval (context : WorkspaceContext) (action : Action)
    (authStrength : AuthStrength) : Session Unit := do
  let isSelfApproval := action.actorId = actorOf context.userId
  requireRole context
    (isSelfApproval ∨ context.role ∈ rolesThatMayApproveAnotherActorsAction) "approve this action"
  if authStrength ≠ .AAL2 then
    throw (.authorization .STEP_UP_REQUIRED "R3+ approval requires fresh MFA (FR-AUTH-004)")

/-- `authorize_cancel_action`. -/
def authorizeCancelAction (context : WorkspaceContext) (action : Action) : Session Unit :=
  let isOwnAction := action.actorId = actorOf context.userId
  requireRole context
    (isOwnAction ∨ context.role ∈ rolesThatMayApproveAnotherActorsAction) "cancel this action"

/-- `authorize_complete_compensation`. -/
def authorizeCompleteCompensation (context : WorkspaceContext) : Session Unit :=
  requireRole context (context.role = .WORKSPACE_ADMIN) "complete a compensation"

/-- `authorize_use_chat`. -/
def authorizeUseChat (context : WorkspaceContext) : Session Unit :=
  requireRole context (context.role ∈ [.MEMBER, .WORKSPACE_ADMIN]) "use chat"

/-- `get_request_context`: resolve the workspace's customer, then serve the
request inside one transaction of that customer (`tenant_scoped_session`). -/
def withRequestContext {α : Type} (who : Identity) (workspaceId : Uuid)
    (handler : WorkspaceContext → Session α) : Session α := do
  let index ← atomically (Session.get (.workspaceTenantIndex workspaceId))
  match index with
  | none => throw (.authorization .DENY "workspace not found")
  | some tenant => atomically do
    let context ← getWorkspaceContext tenant who.userId workspaceId
    handler context

end Doda
