import Doda.Application.Customer

/-!
# Customer membership endpoints

The three handlers that change who belongs to a customer, each run in one
transaction of the customer, and the system they make up.

## Main definitions

* `getCustomerContext`, `withCustomerContext` — who asks.
* `inviteMember`, `changeMemberRole`, `removeMember` — the handlers.
* `MemberRequest`, `serveMembers` — the requests and what each runs.
-/

namespace Doda

open ReadCommitted

/-- `CustomerContext`. -/
structure CustomerContext where
  customerId : Uuid
  userId : Uuid
  role : CustomerRole

/-- `get_customer_context`. -/
def getCustomerContext (userId customerId : Uuid) : Session CustomerContext := do
  let customer ← Session.get (.customer customerId)
  if customer.isNone then throw (.authorization .DENY "customer not found")
  let db ← Session.select
  match membershipOf db customerId userId with
  | none => throw (.authorization .DENY "no customer membership")
  | some membership => return { customerId, userId, role := membership.role }

/-- `authorize_manage_customer_members`. -/
def authorizeManageCustomerMembers (context : CustomerContext) : Session Unit :=
  if context.role = .CUSTOMER_OWNER then pure ()
  else throw (.authorization .DENY s!"role {context.role.value} may not manage customer members")

/-- `get_customer_request_context`: serve the request inside one transaction of the customer. -/
def withCustomerContext {α : Type} (who : Identity) (customerId : Uuid)
    (handler : CustomerContext → Session α) : Session α := atomically do
  let context ← getCustomerContext who.userId customerId
  handler context

/-- `_get_customer_membership`. -/
def getCustomerMembership (context : CustomerContext) (membershipId : Uuid) :
    Session CustomerMembership := do
  let found ← Session.get (.customerMembership membershipId)
  match found.filter (·.customerId = context.customerId) with
  | none => throw (.notFound "customer membership not found")
  | some membership => return membership

variable [Sha256]

/-- `invite_member`. -/
def inviteMember (context : CustomerContext) (userId : Uuid) (role : CustomerRole) :
    Session (Option (Uuid × CustomerMembership)) := do
  authorizeManageCustomerMembers context
  let invitee ← Session.get (.user userId)
  if invitee.isNone then throw (.notFound "user not found")
  some <$> inviteCustomerMember context.customerId userId role (actorOf context.userId)

/-- `change_member_role`. -/
def changeMemberRole (context : CustomerContext) (membershipId : Uuid) (role : CustomerRole) :
    Session (Option (Uuid × CustomerMembership)) := do
  authorizeManageCustomerMembers context
  let membership ← getCustomerMembership context membershipId
  let membership ← changeCustomerMemberRole membershipId membership role (actorOf context.userId)
  return some (membershipId, membership)

/-- `remove_member`. -/
def removeMember (context : CustomerContext) (membershipId : Uuid) :
    Session (Option (Uuid × CustomerMembership)) := do
  authorizeManageCustomerMembers context
  let membership ← getCustomerMembership context membershipId
  removeCustomerMember membershipId membership (actorOf context.userId)
  return none

/-- What a process of the system is started for. -/
inductive MemberRequest where
  | invite (who : Identity) (customerId userId : Uuid) (role : CustomerRole)
  | changeRole (who : Identity) (customerId membershipId : Uuid) (role : CustomerRole)
  | remove (who : Identity) (customerId membershipId : Uuid)
  /-- New rows of any tables: users, customers with their first owners, and so on. -/
  | provision (rows : List (Entry Row))

/-- Serve a request; the reply is the membership, where there is one. -/
def serveMembers : MemberRequest → Session (Option (Uuid × CustomerMembership))
  | .invite who customerId userId role =>
    withCustomerContext who customerId fun context => inviteMember context userId role
  | .changeRole who customerId membershipId role =>
    withCustomerContext who customerId fun context => changeMemberRole context membershipId role
  | .remove who customerId membershipId =>
    withCustomerContext who customerId fun context => removeMember context membershipId
  | .provision rows => do
    atomically (run (.insert rows))
    return none

end Doda
