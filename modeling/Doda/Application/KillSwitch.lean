import Doda.Application.Action
import Doda.Application.Customer

/-!
# The kill switch

A row's existence means that the switch is engaged, at workspace or at customer
scope; `assertNotKilled` looks for it when an action is proposed.  Engaging
inserts the row, unless it is there, and alerts the members; disengaging deletes
it.

## Main definitions

* `engageWorkspaceKillSwitch`, `disengageWorkspaceKillSwitch` —
  `engage_workspace_kill_switch`, `disengage_workspace_kill_switch`.
* `engageCustomerKillSwitch`, `disengageCustomerKillSwitch` —
  `engage_customer_kill_switch`, `disengage_customer_kill_switch`.
-/

namespace Doda

open ReadCommitted

/-- Insert the switch's row where it is not there; whether this was the request that did. -/
def raiseSwitch (k : Key) (switch : Session (Row k)) : Session Bool := do
  match ← Session.get k with
  | some _ => return false
  | none =>
    let v ← switch
    if ← Session.tryInsert [⟨k, v⟩] then return true
    else
      -- another request engaged it in the meantime
      match ← Session.get k with
      | none => throw .assertion
      | some _ => return false

/-- Delete the switch's row where it is there; whether it was. -/
def lowerSwitch (k : Key) : Session Bool := do
  match ← Session.get k with
  | none => return false
  | some _ =>
    let _ ← deleteRow k
    return true

/-- A new row. -/
def engagedSwitch (actorId reason : String) : Session KillSwitch := do
  let engagedAt ← Session.utcnow .engaged
  return { engagedAt, engagedBy := actorId, reason }

/-- The users who are members of a workspace. -/
def workspaceUserIds (db : Db) (tenant workspaceId : Uuid) : List Uuid :=
  collect (fun k v => match k, v with
    | .workspaceMembership _, (m : WorkspaceMembership) =>
      if m.customerId = tenant ∧ m.workspaceId = workspaceId then
        ((row db (.customerMembership m.customerMembershipId)).filter
          (·.customerId = tenant)).map (·.userId)
      else none
    | _, _ => none) db

/-- The users who are members of a customer. -/
def customerUserIds (db : Db) (customerId : Uuid) : List Uuid :=
  collect (fun k v => match k, v with
    | .customerMembership _, (m : CustomerMembership) =>
      if m.customerId = customerId then some m.userId else none
    | _, _ => none) db

variable [Sha256]

/-- A security alert for each of some users. -/
def alertAll (customerId : Uuid) (workspaceId : Option Uuid) (referenceType : String)
    (referenceId : Uuid) (safeMetadata : Json) : List Uuid → Session Unit
  | [] => pure ()
  | userId :: userIds => do
    let _ ← createNotification customerId workspaceId (actorOf userId) .SECURITY_ALERT
      referenceType referenceId safeMetadata
    alertAll customerId workspaceId referenceType referenceId safeMetadata userIds

/-- `engage_workspace_kill_switch`. -/
def engageWorkspaceKillSwitch (workspaceId customerId : Uuid) (actorId reason : String) :
    Session Unit := do
  if ← raiseSwitch (.workspaceKillSwitch workspaceId) (engagedSwitch actorId reason) then
    let traceId ← Session.uuid4
    let _ ← recordAuditEvent customerId (some workspaceId) traceId actorId
      "killswitch.workspace.engaged.v1"
      (.obj [("workspace_id", .str workspaceId.str), ("reason", .str reason)])
    let db ← Session.select
    alertAll customerId (some workspaceId) "workspace_kill_switch" workspaceId
      (.obj [("scope", .str "workspace"), ("reason", .str reason)])
      (workspaceUserIds db customerId workspaceId)

/-- `disengage_workspace_kill_switch`. -/
def disengageWorkspaceKillSwitch (workspaceId customerId : Uuid) (actorId : String) :
    Session Unit := do
  if ← lowerSwitch (.workspaceKillSwitch workspaceId) then
    let traceId ← Session.uuid4
    let _ ← recordAuditEvent customerId (some workspaceId) traceId actorId
      "killswitch.workspace.disengaged.v1" (.obj [("workspace_id", .str workspaceId.str)])

/-- `engage_customer_kill_switch`. -/
def engageCustomerKillSwitch (customerId : Uuid) (actorId reason : String) : Session Unit := do
  if ← raiseSwitch (.customerKillSwitch customerId) (engagedSwitch actorId reason) then
    let traceId ← Session.uuid4
    let _ ← recordAuditEvent customerId none traceId actorId "killswitch.customer.engaged.v1"
      (.obj [("reason", .str reason)])
    let db ← Session.select
    alertAll customerId none "customer_kill_switch" customerId
      (.obj [("scope", .str "customer"), ("reason", .str reason)]) (customerUserIds db customerId)

/-- `disengage_customer_kill_switch`. -/
def disengageCustomerKillSwitch (customerId : Uuid) (actorId : String) : Session Unit := do
  if ← lowerSwitch (.customerKillSwitch customerId) then
    let traceId ← Session.uuid4
    let _ ← recordAuditEvent customerId none traceId actorId "killswitch.customer.disengaged.v1"
      (.obj [])

end Doda
