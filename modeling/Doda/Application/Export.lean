import Doda.Application.Workspace

/-!
# The export of a user's own data

The tasks a user owns in the workspaces of `list_my_workspaces`, the notifications
addressed to the user and the audit events of the user's actions in each customer of
`customer_ids_for_user`.  Each comes from a listing that is cut off after a page.

A listing that is ordered by time alone leaves the order of rows of one time to the
database.

## Main definitions

* `listTasksForWorkspace`, `listNotificationsForUser`, `listAuditEvents` — the listings.
* `exportMyData` — `export_my_data`.
-/

namespace Doda

open ReadCommitted

/-! ## Listings -/

/-- `min(limit, MAX_PAGE_SIZE)`. -/
def pageSize (limit : ℕ) : ℕ := min limit 200

/-- `ORDER BY created_at DESC`; rows of one time stay in the order given. -/
def newestFirst {α : Type} (createdAt : α → Time) (rows : List α) : List α :=
  rows.insertionSort fun a b => createdAt b ≤ createdAt a

theorem newestFirst_perm {α : Type} (createdAt : α → Time) (rows : List α) :
    (newestFirst createdAt rows).Perm rows := List.perm_insertionSort _ _

theorem newestFirst_pairwise {α : Type} (createdAt : α → Time) (rows : List α) :
    (newestFirst createdAt rows).Pairwise fun a b => createdAt b ≤ createdAt a := by
  have htotal : Std.Total fun a b : α => createdAt b ≤ createdAt a :=
    ⟨fun a b => Nat.le_total (createdAt b) (createdAt a)⟩
  have htrans : IsTrans α fun a b => createdAt b ≤ createdAt a :=
    ⟨fun a b c hab hbc => Nat.le_trans hbc hab⟩
  exact List.pairwise_insertionSort _ _

/-- The tasks of a workspace, under the customer's row-level security. -/
def tasksIn (db : Db) (tenant workspaceId : Uuid) (status : Option TaskStatus) : List Uuid :=
  collect (fun k v => match k, v with
    | .task id, (t : Task) =>
      if t.customerId = tenant ∧ t.workspaceId = workspaceId ∧ status.all (t.status = ·) then
        some id
      else none
    | _, _ => none) db

/-- `list_tasks_for_workspace`, in a transaction of `tenant`. -/
def listTasksForWorkspace (tenant workspaceId : Uuid) (status : Option TaskStatus) (limit : ℕ) :
    Session (List Task) := do
  let db ← Session.select
  let order ← call (Call.scanOrder (tasksIn db tenant workspaceId status))
  let rows := order.1.filterMap fun id => row db (.task id)
  return (newestFirst (·.createdAt) rows).take (pageSize limit)

/-- The notifications of a recipient. -/
def notificationsFor (db : Db) (customerId : Uuid) (recipientId : String)
    (workspaceId : Option Uuid) : List Uuid :=
  collect (fun k v => match k, v with
    | .notification id, (n : Notification) =>
      if n.customerId = customerId ∧ n.recipientId = recipientId ∧
          workspaceId.all (fun w => n.workspaceId = some w ∨ n.workspaceId = none) then some id
      else none
    | _, _ => none) db

/-- `list_notifications_for_user`, with `unread_only` left at its default. -/
def listNotificationsForUser (customerId : Uuid) (recipientId : String)
    (workspaceId : Option Uuid) (limit : ℕ) : Session (List Notification) := do
  let db ← Session.select
  let order ← call (Call.scanOrder (notificationsFor db customerId recipientId workspaceId))
  let rows := order.1.filterMap fun id => row db (.notification id)
  return (newestFirst (·.createdAt) rows).take (pageSize limit)

/-- What a listing of audit events is filtered by. -/
structure AuditFilter where
  workspaceId : Option Uuid := none
  actorId : Option String := none
  eventType : Option String := none
  traceId : Option Uuid := none

/-- The filter lets the event through. -/
def AuditFilter.Admits (filter : AuditFilter) (e : AuditEvent) : Prop :=
  filter.workspaceId.all (e.workspaceId = some ·) ∧ filter.actorId.all (e.actorId = ·) ∧
    filter.eventType.all (e.eventType = ·) ∧ filter.traceId.all (e.traceId = ·)

instance (filter : AuditFilter) (e : AuditEvent) : Decidable (filter.Admits e) :=
  inferInstanceAs (Decidable (_ ∧ _))

/-- The events of a customer that the filter lets through, newest first. -/
def auditEventsOf (db : Db) (customerId : Uuid) (filter : AuditFilter) : List AuditEvent :=
  ((storedEvents customerId db).filter (filter.Admits ·)).insertionSort fun a b => b.before a

/-- `list_audit_events`. -/
def listAuditEvents (customerId : Uuid) (filter : AuditFilter) (limit : ℕ)
    (beforeId : Option Uuid := none) : Session (List AuditEvent) := do
  let cursor ← match beforeId with
    | none => pure none
    | some id => Session.get (.auditEvent id)
  let db ← Session.select
  let older := (auditEventsOf db customerId filter).filter fun e =>
    cursor.all (e.place < ·.place)
  return older.take (pageSize limit)

/-! ## The export -/

/-- `EXPORT_PAGE_SIZE`. -/
def exportPageSize : ℕ := 200

/-- `MyDataExport`. -/
structure MyDataExport where
  userId : Uuid
  displayName : String
  memberships : List MyWorkspaceEntry
  tasks : List Task
  notifications : List Notification
  auditEvents : List AuditEvent

/-- The loop over the user's workspaces; those in `seen` have been visited. -/
def exportTasks (actorId : String) : List Uuid → List MyWorkspaceEntry → Session (List Task)
  | _, [] => pure []
  | seen, membership :: memberships =>
    if membership.workspaceId ∈ seen then exportTasks actorId seen memberships
    else do
      let tasks ← atomically
        (listTasksForWorkspace membership.customerId membership.workspaceId none exportPageSize)
      let rest ← exportTasks actorId (membership.workspaceId :: seen) memberships
      return tasks.filter (·.ownerId = actorId) ++ rest

section Export

variable [Sha256]

/-- What one customer contributes; the export is itself an event. -/
def exportCustomer (actorId : String) (traceId customerId : Uuid) :
    Session (List Notification × List AuditEvent) := atomically do
  let notifications ← listNotificationsForUser customerId actorId none exportPageSize
  let auditEvents ← listAuditEvents customerId { actorId := some actorId } exportPageSize
  let _ ← recordAuditEvent customerId none traceId actorId "user.data_exported.v1"
    (.obj [("scope", .str "customer")])
  return (notifications, auditEvents)

/-- The loop over the user's customers. -/
def exportCustomers (actorId : String) (traceId : Uuid) :
    List Uuid → Session (List Notification × List AuditEvent)
  | [] => pure ([], [])
  | customerId :: customerIds => do
    let (notifications, auditEvents) ← exportCustomer actorId traceId customerId
    let (notifications', auditEvents') ← exportCustomers actorId traceId customerIds
    return (notifications ++ notifications', auditEvents ++ auditEvents')

/-- `export_my_data`. -/
def exportMyData (userId traceId : Uuid) : Session MyDataExport := do
  let memberships ← listMyWorkspaces userId
  let found ← atomically (Session.get (.user userId))
  let some user := found | throw .assertion
  let customerIds ← customerIdsForUser userId
  let tasks ← exportTasks (actorOf userId) [] memberships
  let (notifications, auditEvents) ← exportCustomers (actorOf userId) traceId customerIds
  return { userId, displayName := user.displayName, memberships, tasks, notifications,
           auditEvents }

end Export

end Doda
