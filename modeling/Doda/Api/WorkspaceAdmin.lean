import Doda.Api.CustomerAdmin
import Doda.Application.Workspace
import Doda.Service

/-!
# Workspace membership endpoints

The handlers that change the members of a workspace and archive or restore it, the
operator's tools that create customers and workspaces, and the system they make up
with the endpoints for customer members.

## Main definitions

* `WorkspaceAdmin.addMember`, `WorkspaceAdmin.changeMemberRole`,
  `WorkspaceAdmin.removeMember`, `archiveCurrentWorkspace`,
  `restoreCurrentWorkspace` — the handlers.
* `withRequestContextAllowArchived` — `get_request_context_allow_archived`.
* `MembershipRequest`, `serveMemberships` — the requests and the program of a process.
-/

namespace Doda

open ReadCommitted

/-! ## Who asks -/

/-- `get_workspace_context` once the workspace is found: the user's role there. -/
def resolveWorkspaceRole (tenant customerId userId workspaceId : Uuid) :
    Session WorkspaceContext := do
  let db ← Session.select
  if isCustomerOwner db customerId userId then
    return { customerId, workspaceId, userId, role := .WORKSPACE_ADMIN }
  let db ← Session.select
  match workspaceMembershipOf db tenant workspaceId userId with
  | none => throw (.authorization .DENY "no workspace membership")
  | some (membership, customerMembership) =>
    if customerMembership.role = .AUDITOR then
      throw (.authorization .DENY "auditor holds no workspace role")
    return { customerId, workspaceId, userId, role := membership.role }

/-- `get_workspace_context` with `allow_archived`. -/
def getWorkspaceContextAllowArchived (tenant userId workspaceId : Uuid) :
    Session WorkspaceContext := do
  let found ← Session.get (.workspace workspaceId)
  match found.filter (·.customerId = tenant) with
  | none => throw (.authorization .DENY "workspace not found or archived")
  | some workspace => resolveWorkspaceRole tenant workspace.customerId userId workspaceId

/-- `get_request_context_allow_archived`. -/
def withRequestContextAllowArchived {α : Type} (who : Identity) (workspaceId : Uuid)
    (handler : WorkspaceContext → Session α) : Session α := do
  let index ← atomically (Session.get (.workspaceTenantIndex workspaceId))
  match index with
  | none => throw (.authorization .DENY "workspace not found")
  | some tenant => atomically do
    let context ← getWorkspaceContextAllowArchived tenant who.userId workspaceId
    handler context

/-- `authorize_manage_workspace_members`. -/
def authorizeManageWorkspaceMembers (context : WorkspaceContext) : Session Unit :=
  requireRole context (context.role = .WORKSPACE_ADMIN) "manage workspace members"

/-- `authorize_archive_workspace`. -/
def authorizeArchiveWorkspace (context : WorkspaceContext) : Session Unit :=
  requireRole context (context.role = .WORKSPACE_ADMIN) "archive this workspace"

/-- `_get_current_workspace`. -/
def getCurrentWorkspace (context : WorkspaceContext) : Session Workspace := do
  match ← getWorkspace context.customerId context.workspaceId with
  | none => throw .assertion
  | some workspace => return workspace

/-- `_get_workspace_membership`. -/
def getWorkspaceMembership (context : WorkspaceContext) (membershipId : Uuid) :
    Session WorkspaceMembership := do
  let found ← Session.get (.workspaceMembership membershipId)
  match found.filter (·.customerId = context.customerId) with
  | some membership =>
    if membership.workspaceId ≠ context.workspaceId then
      throw (.notFound "workspace membership not found")
    else return membership
  | none => throw (.notFound "workspace membership not found")

/-! ## Handlers -/

/-- What a request changes, as it is answered. -/
inductive MembershipReply where
  | member (id : Uuid) (membership : CustomerMembership)
  | workspaceMember (id : Uuid) (membership : WorkspaceMembership)
  | workspace (id : Uuid) (workspace : Workspace)
  | none

variable [Sha256]

namespace WorkspaceAdmin

/-- `add_member`. -/
def addMember (context : WorkspaceContext) (customerMembershipId : Uuid) (role : WorkspaceRole) :
    Session MembershipReply := do
  authorizeManageWorkspaceMembers context
  let found ← Session.get (.customerMembership customerMembershipId)
  match found.filter (·.customerId = context.customerId) with
  | none => throw (.notFound "customer membership not found")
  | some customerMembership =>
    let workspace ← getCurrentWorkspace context
    let added ← addWorkspaceMember context.workspaceId workspace customerMembershipId
      customerMembership role (actorOf context.userId)
    return .workspaceMember added.1 added.2

/-- `change_member_role`. -/
def changeMemberRole (context : WorkspaceContext) (membershipId : Uuid) (role : WorkspaceRole) :
    Session MembershipReply := do
  authorizeManageWorkspaceMembers context
  let membership ← getWorkspaceMembership context membershipId
  let membership ←
    changeWorkspaceMemberRole membershipId membership role (actorOf context.userId)
  return .workspaceMember membershipId membership

/-- `remove_member`. -/
def removeMember (context : WorkspaceContext) (membershipId : Uuid) : Session MembershipReply := do
  authorizeManageWorkspaceMembers context
  let membership ← getWorkspaceMembership context membershipId
  removeWorkspaceMember membershipId membership (actorOf context.userId)
  return .none

end WorkspaceAdmin

/-- `archive_current_workspace`. -/
def archiveCurrentWorkspace (context : WorkspaceContext) : Session MembershipReply := do
  authorizeArchiveWorkspace context
  let workspace ← getCurrentWorkspace context
  let workspace ← archiveWorkspace context.workspaceId workspace (actorOf context.userId)
  return .workspace context.workspaceId workspace

/-- `restore_current_workspace`. -/
def restoreCurrentWorkspace (context : WorkspaceContext) : Session MembershipReply := do
  authorizeArchiveWorkspace context
  let workspace ← getCurrentWorkspace context
  let workspace ← restoreWorkspace context.workspaceId workspace (actorOf context.userId)
  return .workspace context.workspaceId workspace

/-! ## The system -/

/-- A table that says who belongs where. -/
def Key.belonging : Key → Bool
  | .workspace _ | .workspaceTenantIndex _ | .customer _ | .customerMembership _
  | .customerMember _ _ | .userCustomerIndex _ _ | .workspaceMembership _
  | .workspaceMember _ _ => true
  | _ => false

/-- What a request to a workspace asks for. -/
inductive WorkspaceCommand where
  | addMember (customerMembershipId : Uuid) (role : WorkspaceRole)
  | changeMemberRole (membershipId : Uuid) (role : WorkspaceRole)
  | removeMember (membershipId : Uuid)
  | archive

/-- What a request to a customer asks for. -/
inductive CustomerCommand where
  | invite (userId : Uuid) (role : CustomerRole)
  | changeRole (membershipId : Uuid) (role : CustomerRole)
  | remove (membershipId : Uuid)

/-- What a process is started for. -/
inductive MembershipRequest where
  /-- An operator's `create_customer_with_owner`. -/
  | createCustomer (customerId : Uuid) (name : String) (ownerUserId : Uuid) (actorId : String)
  /-- An operator's `create_workspace`. -/
  | createWorkspace (customerId : Uuid) (name actorId : String)
  | customer (who : Identity) (customerId : Uuid) (command : CustomerCommand)
  | workspace (who : Identity) (workspaceId : Uuid) (command : WorkspaceCommand)
  | restore (who : Identity) (workspaceId : Uuid)
  /-- Rows of other tables. -/
  | housekeeping
      (rows : List { v : Version Row // v.1.housekeeping = true ∧ v.1.belonging = false })

/-- What a request runs in its customer. -/
def handleCustomer (context : CustomerContext) :
    CustomerCommand → Session (Option (Uuid × CustomerMembership))
  | .invite userId role => inviteMember context userId role
  | .changeRole membershipId role => changeMemberRole context membershipId role
  | .remove membershipId => removeMember context membershipId

/-- What a request runs in its workspace. -/
def handleWorkspace (context : WorkspaceContext) : WorkspaceCommand → Session MembershipReply
  | .addMember customerMembershipId role => WorkspaceAdmin.addMember context customerMembershipId role
  | .changeMemberRole membershipId role => WorkspaceAdmin.changeMemberRole context membershipId role
  | .removeMember membershipId => WorkspaceAdmin.removeMember context membershipId
  | .archive => archiveCurrentWorkspace context

/-- The reply with a membership, if there is one. -/
def MembershipReply.ofMember : Option (Uuid × CustomerMembership) → MembershipReply
  | some (id, membership) => .member id membership
  | Option.none => .none

/-- Serve a request. -/
def serveMemberships : MembershipRequest → Session MembershipReply
  | .createCustomer customerId name ownerUserId actorId => atomically do
    let created ← createCustomerWithOwner customerId name ownerUserId actorId
    return .member created.1 created.2
  | .createWorkspace customerId name actorId => atomically do
    let created ← createWorkspace customerId name actorId
    return .workspace created.1 created.2
  | .customer who customerId command => do
    let changed ← withCustomerContext who customerId fun context => handleCustomer context command
    return .ofMember changed
  | .workspace who workspaceId command =>
    withRequestContext who workspaceId fun context => handleWorkspace context command
  | .restore who workspaceId =>
    withRequestContextAllowArchived who workspaceId restoreCurrentWorkspace
  | .housekeeping rows => do
    atomically (keepHouseAll (rows.map fun v => ⟨v.1, v.2.1⟩))
    return .none

end Doda
