import Mathlib.Data.List.Sort
import Doda.Application.Audit
import Doda.Application.Authz

/-!
# Customer members

Inviting a user to a customer, changing a member's role and removing a member.
A membership is loaded by the caller and handed on as a value; only what the
guard against losing the last owner counts is read under lock.

## Main definitions

* `countCustomerOwners` — `_count_customer_owners`.
* `createCustomerWithOwner` — `create_customer_with_owner`.
* `inviteCustomerMember`, `changeCustomerMemberRole`, `removeCustomerMember` —
  `invite_customer_member`, `change_customer_member_role`,
  `remove_customer_member`.
* `customerIdsForUser` — `customer_ids_for_user`.
-/

namespace Doda

open ReadCommitted

/-- The member owns the customer. -/
def CustomerMembership.OwnerOf (m : CustomerMembership) (customerId : Uuid) : Prop :=
  m.customerId = customerId ∧ m.role = .CUSTOMER_OWNER

instance (m : CustomerMembership) (customerId : Uuid) : Decidable (m.OwnerOf customerId) :=
  inferInstanceAs (Decidable (_ ∧ _))

/-! ## Deleting rows -/

/-- `DELETE` by primary key: the row that was there, locked first; a row that is not there is
not deleted. -/
def deleteRow (k : Key) : Session (Option (Row k)) := do
  let found ← Session.getForUpdate k
  if found.isSome then run (.delete k)
  return found

/-- `session.delete(membership)`: the row goes with what its unique constraint holds. -/
def deleteCustomerMembership (id : Uuid) : Session Unit := do
  match ← deleteRow (.customerMembership id) with
  | none => pure ()
  | some m => run (.delete (.customerMember m.customerId m.userId))

/-- `session.delete(workspace_membership)`. -/
def deleteWorkspaceMembership (id : Uuid) : Session Unit := do
  match ← deleteRow (.workspaceMembership id) with
  | none => pure ()
  | some m => run (.delete (.workspaceMember m.customerMembershipId m.workspaceId))

/-- Delete several; one flush deletes in the order of the primary keys. -/
def deleteWorkspaceMemberships : List Uuid → Session Unit
  | [] => pure ()
  | id :: ids => do
    deleteWorkspaceMembership id
    deleteWorkspaceMemberships ids

/-! ## Owners -/

/-- The memberships of a customer's owners. -/
def ownersOf (db : Db) (customerId : Uuid) : List Uuid :=
  collect (fun k v => match k, v with
    | .customerMembership id, (m : CustomerMembership) =>
      if m.OwnerOf customerId then some id else none
    | _, _ => none) db

/-- Lock rows one by one; how many still are what the scan looks for. -/
def countLocked (customerId : Uuid) : List Uuid → Session ℕ
  | [] => pure 0
  | id :: ids => do
    let found ← Session.getForUpdate (.customerMembership id)
    let n ← countLocked customerId ids
    return if ∃ m ∈ found, m.OwnerOf customerId then n + 1 else n

/-- `_count_customer_owners`: the rows are those the statement's snapshot holds, in the order
the scan meets them; each is locked and then looked at again. -/
def countCustomerOwners (customerId : Uuid) : Session ℕ := do
  let db ← Session.select
  let order ← call (Call.scanOrder (ownersOf db customerId))
  countLocked customerId order.1

/-- The guard of the two functions that can take an owner away, where `asked`. -/
def assertNotLastOwner (asked : Prop) [Decidable asked] (customerId : Uuid) (reason : String) :
    Session Unit := do
  if asked then
    if (← countCustomerOwners customerId) ≤ 1 then throw (.customerMembership reason)

/-- The workspace memberships that hang on a customer membership, under the customer's row-level
security. -/
def orphanedBy (db : Db) (tenant membershipId : Uuid) : List Uuid :=
  (collect (fun k v => match k, v with
    | .workspaceMembership id, (m : WorkspaceMembership) =>
      if m.customerId = tenant ∧ m.customerMembershipId = membershipId then some id else none
    | _, _ => none) db).insertionSort (·.toNat ≤ ·.toNat)

/-- Whether a `UserCustomerIndex` row is there, and one where it is not. -/
def indexCustomer (userId customerId : Uuid) : Session Unit := do
  let index ← Session.get (.userCustomerIndex userId customerId)
  if index.isNone then Session.insert (.userCustomerIndex userId customerId) ()

/-- Drop the `UserCustomerIndex` row of a user who has no membership left. -/
def unindexCustomer (userId customerId : Uuid) : Session Unit := do
  let db ← Session.select
  if (membershipOf db customerId userId).isNone then
    let index ← Session.get (.userCustomerIndex userId customerId)
    if index.isSome then
      let _ ← deleteRow (.userCustomerIndex userId customerId)

/-- `membership.role = new_role`; the flush writes changed columns only. -/
def flushRole (id : Uuid) (loaded newRole : CustomerRole) : Session Unit := do
  if newRole ≠ loaded then
    Session.update (.customerMembership id) fun m => { m with role := newRole }

/-! ## The service -/

section Service

variable [Sha256]

/-- `create_customer_with_owner`: the owner's membership and its id. -/
def createCustomerWithOwner (customerId : Uuid) (name : String) (ownerUserId : Uuid)
    (actorId : String) : Session (Uuid × CustomerMembership) := do
  Session.insert (.customer customerId) { name }
  let id ← Session.uuid4
  let membership : CustomerMembership :=
    { customerId, userId := ownerUserId, role := .CUSTOMER_OWNER }
  run (.insert [⟨.customerMembership id, membership⟩, ⟨.customerMember customerId ownerUserId, id⟩])
  Session.insert (.userCustomerIndex ownerUserId customerId) ()
  let traceId ← Session.uuid4
  let _ ← recordAuditEvent customerId none traceId actorId "customer.created.v1"
    (.obj [("customer_id", .str customerId.str), ("name", .str name)])
  return (id, membership)

/-- `invite_customer_member`: the new membership and its id. -/
def inviteCustomerMember (customerId userId : Uuid) (role : CustomerRole) (actorId : String) :
    Session (Uuid × CustomerMembership) := do
  let id ← Session.uuid4
  let membership : CustomerMembership := { customerId, userId, role }
  let inserted ← Session.tryInsert
    [⟨.customerMembership id, membership⟩, ⟨.customerMember customerId userId, id⟩]
  if ¬ inserted then throw (.duplicateMembership "user is already a member of this customer")
  indexCustomer userId customerId
  let traceId ← Session.uuid4
  let _ ← recordAuditEvent customerId none traceId actorId "customer.member_invited.v1"
    (.obj [("customer_membership_id", .str id.str), ("role", .str role.value)])
  return (id, membership)

/-- `change_customer_member_role`. -/
def changeCustomerMemberRole (id : Uuid) (membership : CustomerMembership) (newRole : CustomerRole)
    (actorId : String) : Session CustomerMembership := do
  assertNotLastOwner (membership.role = .CUSTOMER_OWNER ∧ newRole ≠ .CUSTOMER_OWNER)
    membership.customerId "cannot demote the last customer_owner"
  flushRole id membership.role newRole
  let traceId ← Session.uuid4
  let _ ← recordAuditEvent membership.customerId none traceId actorId
    "customer.member_role_changed.v1"
    (.obj [("customer_membership_id", .str id.str), ("from_role", .str membership.role.value),
      ("to_role", .str newRole.value)])
  return { membership with role := newRole }

/-- `remove_customer_member`. -/
def removeCustomerMember (id : Uuid) (membership : CustomerMembership) (actorId : String) :
    Session Unit := do
  assertNotLastOwner (membership.role = .CUSTOMER_OWNER)
    membership.customerId "cannot remove the last customer_owner"
  let db ← Session.select
  -- flushed by the first query of `record_audit_event`
  deleteWorkspaceMemberships (orphanedBy db membership.customerId id)
  let traceId ← Session.uuid4
  let _ ← recordAuditEvent membership.customerId none traceId actorId "customer.member_removed.v1"
    (.obj [("customer_membership_id", .str id.str), ("role", .str membership.role.value)])
  deleteCustomerMembership id
  unindexCustomer membership.userId membership.customerId

end Service

/-! ## The index -/

/-- The customers that a store's `UserCustomerIndex` has for a user. -/
def customersIndexedFor (db : Db) (userId : Uuid) : List Uuid :=
  collect (fun k v => match k, v with
    | .userCustomerIndex user customerId, () => if user = userId then some customerId else none
    | _, _ => none) db

theorem customersIndexedFor_nodup (db : Db) (userId : Uuid) :
    (customersIndexedFor db userId).Nodup := by
  refine List.Nodup.of_map (fun customerId => Key.userCustomerIndex userId customerId)
    (nodup_collect_map fun k v a _ ha => ?_)
  cases k with
  | userCustomerIndex user customerId =>
    dsimp only at ha
    split at ha
    · rename_i heq
      rw [← Option.some.inj ha, heq]
    · cases ha
  | _ => cases ha

/-- `customer_ids_for_user`. -/
def customerIdsForUser (userId : Uuid) : Session (List Uuid) := atomically do
  let db ← Session.select
  let order ← call (Call.scanOrder (customersIndexedFor db userId))
  return order.1

end Doda
