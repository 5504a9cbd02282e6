import Doda.Application.Customer

/-!
# Workspaces and their members

Creating, archiving and restoring a workspace, changing who belongs to it, and the two
listings: the workspaces of a user and the roster of a workspace.  A join is computed
over the rows that one query reads, under the row-level security of the customer whose
transaction runs it.

## Main definitions

* `createWorkspace`, `archiveWorkspace`, `restoreWorkspace` — `create_workspace`,
  `archive_workspace`, `restore_workspace`.
* `addWorkspaceMember`, `changeWorkspaceMemberRole`, `removeWorkspaceMember` —
  `add_workspace_member`, `change_workspace_member_role`, `remove_workspace_member`.
* `listMyWorkspaces` — `list_my_workspaces`.
* `listWorkspaceMembers` — `list_workspace_members`.
-/

namespace Doda

open ReadCommitted

/-- `session.get(Workspace, id)` in a transaction of `tenant`. -/
def getWorkspace (tenant id : Uuid) : Session (Option Workspace) := do
  let workspace ← Session.get (.workspace id)
  return workspace.filter (·.customerId = tenant)

/-- `workspace.archived_at = archived_at`. -/
@[simps] def Workspace.setArchivedAt (w : Workspace) (archivedAt : Option Time) : Workspace :=
  { w with archivedAt := archivedAt }

/-- `membership.role = new_role`; the flush writes changed columns only. -/
def flushWorkspaceRole (id : Uuid) (loaded newRole : WorkspaceRole) : Session Unit := do
  if newRole ≠ loaded then
    Session.update (.workspaceMembership id) fun m => { m with role := newRole }

/-- `workspace.archived_at = archived_at`; the flush writes changed columns only. -/
def flushArchivedAt (id : Uuid) (loaded archivedAt : Option Time) : Session Unit := do
  if archivedAt ≠ loaded then
    Session.update (.workspace id) (·.setArchivedAt archivedAt)

section Service

variable [Sha256]

/-- `create_workspace`: the new workspace and its id. -/
def createWorkspace (customerId : Uuid) (name actorId : String) : Session (Uuid × Workspace) := do
  let id ← Session.uuid4
  Session.insert (.workspace id) { customerId, name }
  let traceId ← Session.uuid4
  -- flushed by the first query of `record_audit_event`
  Session.insert (.workspaceTenantIndex id) customerId
  let _ ← recordAuditEvent customerId (some id) traceId actorId "workspace.created.v1"
    (.obj [("workspace_id", .str id.str), ("name", .str name)])
  return (id, { customerId, name })

/-- `add_workspace_member`: the new membership and its id. -/
def addWorkspaceMember (workspaceId : Uuid) (workspace : Workspace) (customerMembershipId : Uuid)
    (customerMembership : CustomerMembership) (role : WorkspaceRole) (actorId : String) :
    Session (Uuid × WorkspaceMembership) := do
  if customerMembership.customerId ≠ workspace.customerId then
    throw (.workspaceMembership
      "customer_membership belongs to a different customer than this workspace")
  else if customerMembership.role = .AUDITOR then
    throw (.workspaceMembership "an auditor cannot hold a workspace role")
  else
    let id ← Session.uuid4
    let membership : WorkspaceMembership :=
      { customerId := workspace.customerId, customerMembershipId, workspaceId, role }
    let inserted ← Session.tryInsert [⟨.workspaceMembership id, membership⟩,
      ⟨.workspaceMember customerMembershipId workspaceId, id⟩]
    if ¬ inserted then
      throw (.duplicateWorkspaceMembership
        "this customer membership already has a role in this workspace")
    else
      let traceId ← Session.uuid4
      let _ ← recordAuditEvent workspace.customerId (some workspaceId) traceId actorId
        "workspace.member_added.v1" (.obj [("workspace_id", .str workspaceId.str),
          ("workspace_membership_id", .str id.str), ("role", .str role.value)])
      return (id, membership)

/-- `change_workspace_member_role`. -/
def changeWorkspaceMemberRole (id : Uuid) (membership : WorkspaceMembership)
    (newRole : WorkspaceRole) (actorId : String) : Session WorkspaceMembership := do
  flushWorkspaceRole id membership.role newRole
  let traceId ← Session.uuid4
  let _ ← recordAuditEvent membership.customerId (some membership.workspaceId) traceId actorId
    "workspace.member_role_changed.v1" (.obj [("workspace_membership_id", .str id.str),
      ("from_role", .str membership.role.value), ("to_role", .str newRole.value)])
  return { membership with role := newRole }

/-- `remove_workspace_member`. -/
def removeWorkspaceMember (id : Uuid) (membership : WorkspaceMembership) (actorId : String) :
    Session Unit := do
  let traceId ← Session.uuid4
  let _ ← recordAuditEvent membership.customerId (some membership.workspaceId) traceId actorId
    "workspace.member_removed.v1" (.obj [("workspace_membership_id", .str id.str),
      ("role", .str membership.role.value)])
  deleteWorkspaceMembership id

/-- `archive_workspace`. -/
def archiveWorkspace (id : Uuid) (workspace : Workspace) (actorId : String) :
    Session Workspace := do
  let now ← Session.utcnow .archived
  flushArchivedAt id workspace.archivedAt (some now)
  let traceId ← Session.uuid4
  let _ ← recordAuditEvent workspace.customerId (some id) traceId actorId "workspace.archived.v1"
    (.obj [("workspace_id", .str id.str)])
  return workspace.setArchivedAt (some now)

/-- `restore_workspace`. -/
def restoreWorkspace (id : Uuid) (workspace : Workspace) (actorId : String) :
    Session Workspace := do
  flushArchivedAt id workspace.archivedAt none
  let traceId ← Session.uuid4
  let _ ← recordAuditEvent workspace.customerId (some id) traceId actorId "workspace.restored.v1"
    (.obj [("workspace_id", .str id.str)])
  return workspace.setArchivedAt none

end Service

/-! ## A user's workspaces -/

/-- `MyWorkspaceEntry`. -/
structure MyWorkspaceEntry where
  customerId : Uuid
  customerName : String
  workspaceId : Uuid
  workspaceName : String
  role : WorkspaceRole

/-- The user's role in a customer. -/
def customerRoleOf (db : Db) (customerId userId : Uuid) : Option CustomerRole :=
  (membershipOf db customerId userId).map CustomerMembership.role

/-- The workspaces of a customer that are not archived. -/
def openWorkspaces (db : Db) (customerId : Uuid) : List Uuid :=
  collect (fun k v => match k, v with
    | .workspace id, (w : Workspace) =>
      if w.customerId = customerId ∧ w.archivedAt = none then some id else none
    | _, _ => none) db

/-- The entry of an owner's workspace. -/
def ownedEntry (db : Db) (customerId : Uuid) (customer : Customer) (id : Uuid) :
    Option MyWorkspaceEntry :=
  (row db (.workspace id)).map fun w =>
    { customerId, customerName := customer.name, workspaceId := id, workspaceName := w.name,
      role := .WORKSPACE_ADMIN }

/-- The user of a customer membership, under row-level security. -/
def memberOf (db : Db) (tenant customerMembershipId : Uuid) : Option CustomerMembership :=
  (row db (.customerMembership customerMembershipId)).filter (·.customerId = tenant)

/-- The workspace of a workspace membership, if it is not archived. -/
def openWorkspaceOf (db : Db) (tenant : Uuid) (m : WorkspaceMembership) : Option Workspace :=
  (row db (.workspace m.workspaceId)).filter fun w => w.customerId = tenant ∧ w.archivedAt = none

/-- The rows of the join of `Workspace`, `WorkspaceMembership` and `CustomerMembership` that
a user has in a customer. -/
def joinedMemberships (db : Db) (customerId userId : Uuid) : List Uuid :=
  collect (fun k v => match k, v with
    | .workspaceMembership id, (m : WorkspaceMembership) =>
      if m.customerId = customerId ∧ (openWorkspaceOf db customerId m).isSome ∧
          ∃ c ∈ memberOf db customerId m.customerMembershipId, c.userId = userId then some id
      else none
    | _, _ => none) db

/-- The entry of a row of that join. -/
def joinedEntry (db : Db) (customerId : Uuid) (customer : Customer) (id : Uuid) :
    Option MyWorkspaceEntry :=
  (row db (.workspaceMembership id)).bind fun m =>
    (openWorkspaceOf db customerId m).map fun w =>
      { customerId, customerName := customer.name, workspaceId := m.workspaceId,
        workspaceName := w.name, role := m.role }

/-- The entries of one customer, in its own transaction. -/
def listWorkspacesOf (userId customerId : Uuid) : Session (List MyWorkspaceEntry) := atomically do
  let found ← Session.get (.customer customerId)
  let some customer := found | throw .assertion
  let db ← Session.select
  match customerRoleOf db customerId userId with
  | some .AUDITOR => return []
  | some .CUSTOMER_OWNER =>
    let db ← Session.select
    let order ← call (Call.scanOrder (openWorkspaces db customerId))
    return order.1.filterMap (ownedEntry db customerId customer)
  | some .MEMBER | none =>
    let db ← Session.select
    let order ← call (Call.scanOrder (joinedMemberships db customerId userId))
    return order.1.filterMap (joinedEntry db customerId customer)

/-- The loop over a user's customers. -/
def listWorkspacesOfEach (userId : Uuid) : List Uuid → Session (List MyWorkspaceEntry)
  | [] => pure []
  | customerId :: customerIds => do
    let entries ← listWorkspacesOf userId customerId
    let rest ← listWorkspacesOfEach userId customerIds
    return entries ++ rest

/-- `list_my_workspaces`. -/
def listMyWorkspaces (userId : Uuid) : Session (List MyWorkspaceEntry) := do
  let customerIds ← customerIdsForUser userId
  listWorkspacesOfEach userId customerIds

/-! ## A workspace's roster -/

/-- `WorkspaceMemberEntry`. -/
structure WorkspaceMemberEntry where
  membershipId : Option Uuid
  userId : Uuid
  displayName : String
  role : WorkspaceRole

/-- The member and the user of a workspace membership. -/
def rosterMember (db : Db) (tenant workspaceId : Uuid) (m : WorkspaceMembership) :
    Option (CustomerMembership × User) :=
  if m.customerId = tenant ∧ m.workspaceId = workspaceId then
    (memberOf db tenant m.customerMembershipId).bind fun c =>
      (row db (.user c.userId)).map fun user => (c, user)
  else none

/-- The rows of the join of `WorkspaceMembership`, `CustomerMembership` and `User`. -/
def rosterMemberships (db : Db) (tenant workspaceId : Uuid) : List Uuid :=
  collect (fun k v => match k, v with
    | .workspaceMembership id, (m : WorkspaceMembership) =>
      if (rosterMember db tenant workspaceId m).isSome then some id else none
    | _, _ => none) db

/-- The entry of a row of that join. -/
def memberEntry (db : Db) (tenant workspaceId id : Uuid) : Option WorkspaceMemberEntry :=
  (row db (.workspaceMembership id)).bind fun m =>
    (rosterMember db tenant workspaceId m).map fun (c, user) =>
      { membershipId := some id, userId := c.userId, displayName := user.displayName,
        role := m.role }

/-- The user of an owner's membership. -/
def ownerUser (db : Db) (tenant customerId : Uuid) (c : CustomerMembership) : Option User :=
  if c.customerId = tenant ∧ c.OwnerOf customerId then row db (.user c.userId) else none

/-- The rows of the join of the owners' memberships and `User`. -/
def rosterOwners (db : Db) (tenant customerId : Uuid) : List Uuid :=
  collect (fun k v => match k, v with
    | .customerMembership id, (c : CustomerMembership) =>
      if (ownerUser db tenant customerId c).isSome then some id else none
    | _, _ => none) db

/-- The entry of an owner who is not listed yet. -/
def ownerEntry (db : Db) (tenant customerId : Uuid) (explicitUserIds : List Uuid) (id : Uuid) :
    Option WorkspaceMemberEntry :=
  (row db (.customerMembership id)).bind fun c =>
    (ownerUser db tenant customerId c).bind fun user =>
      if c.userId ∈ explicitUserIds then none
      else some { membershipId := none, userId := c.userId, displayName := user.displayName,
                  role := .WORKSPACE_ADMIN }

/-- `list_workspace_members`, in a transaction of `tenant`. -/
def listWorkspaceMembers (tenant workspaceId : Uuid) : Session (List WorkspaceMemberEntry) := do
  let db ← Session.select
  let order ← call (Call.scanOrder (rosterMemberships db tenant workspaceId))
  let entries := order.1.filterMap (memberEntry db tenant workspaceId)
  let found ← getWorkspace tenant workspaceId
  let some workspace := found | throw .assertion
  let db ← Session.select
  let order ← call (Call.scanOrder (rosterOwners db tenant workspace.customerId))
  return entries ++ order.1.filterMap
    (ownerEntry db tenant workspace.customerId (entries.map (·.userId)))

end Doda
