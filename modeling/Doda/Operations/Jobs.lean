import Doda.Api.Tasks
import Doda.Lifecycle.Core
import Doda.Service

/-!
# The monitoring jobs

Four scripts look at every customer in turn and raise an alarm by their exit status: two
verify the audit log, by its hashes and by its trace ids; two look for actions that have been
running, or compensating, for too long.  They run beside the service, each customer in a
transaction of its own.

## Main definitions

* `traceViolation`, `checkCustomerTraceCompleteness` — the comparison of trace ids.
* `findActionsStuckInStatus`, `stuckActions` — the actions of a status, each with the time of
  the event that recorded it.
* `verifyAuditChainJob`, `verifyTraceCompletenessJob`, `findStuckActions` — the scripts.
* `serveOps` — the service and its scripts.
-/

namespace Doda

open ReadCommitted

/-! ## Reading a customer -/

/-- A customer's actions, as `select(Action)` finds them. -/
def storedActions (customerId : Uuid) (db : Db) : List Action :=
  collect (fun k v => match k, v with
    | .action _, (a : Action) => if a.customerId = customerId then some a else none
    | _, _ => none) db

theorem mem_storedActions {c : Uuid} {a : Action} {db : Db} :
    a ∈ storedActions c db ↔ a.customerId = c ∧ ∃ i, row db (.action i) = some a := by
  rw [storedActions, mem_collect]
  constructor
  · rintro ⟨k, v, hrow, hv⟩
    cases k with
    | action i =>
      simp only [Option.ite_none_right_eq_some, Option.some.injEq] at hv
      obtain ⟨hc, rfl⟩ := hv
      exact ⟨hc, i, hrow⟩
    | _ => cases hv
  · rintro ⟨hc, i, hrow⟩
    exact ⟨.action i, a, hrow, if_pos hc⟩

/-! ## Trace ids -/

/-- What `check_customer_trace_completeness` reports of one event. -/
def traceViolation (customerId : Uuid) (actions : List Action) (event : AuditEvent) :
    Option String := do
  let actionId ← event.actionId
  let action ← actions.find? fun a => a.id.str = actionId
  if event.traceId = action.traceId then none
  else some ("customer=" ++ customerId.str ++ " action=" ++ actionId ++ " action.trace_id=" ++
    action.traceId.str ++ " but audit event " ++ event.id.str ++ " (" ++ event.eventType ++
    ") carries trace_id=" ++ event.traceId.str)

/-- `check_customer_trace_completeness`. -/
def checkCustomerTraceCompleteness (customerId : Uuid) : Session (List String) := do
  let db ← Session.select
  let actions := storedActions customerId db
  if actions = [] then return []
  let db ← Session.select
  return (storedEvents customerId db).filterMap (traceViolation customerId actions)

/-! ## Stuck actions -/

/-- `since_by_action_id.get(str(action.id))`: of events about one action the last counts. -/
def sinceOf (events : List AuditEvent) (action : Action) : Option Time :=
  (events.filter fun e => e.actionId = some action.id.str).getLast?.map AuditEvent.occurredAt

/-- `find_actions_stuck_in_status`. -/
def findActionsStuckInStatus (customerId : Uuid) (status : ActionStatus) (eventType : String) :
    Session (List (Action × Option Time)) := do
  let db ← Session.select
  let actions := (storedActions customerId db).filter (·.status = status)
  if actions = [] then return []
  let db ← Session.select
  let events := (storedEvents customerId db).filter (·.eventType = eventType)
  return actions.map fun action => (action, sinceOf events action)

/-- `report_stuck_actions`: the pairs it reports as stuck, those without an event among them. -/
def stuckActions (pairs : List (Action × Option Time)) (cutoff : Time) :
    List (Action × Option Time) :=
  pairs.filter fun pair => pair.2.all (· < cutoff)

/-! ## The scripts -/

/-- The loop of a script: what it finds of each customer, in a transaction of its own. -/
def forEachCustomer {α : Type} (check : Uuid → Session (List α)) :
    List Uuid → Session (List α)
  | [] => pure []
  | customerId :: customerIds => do
    let found ← atomically (check customerId)
    let rest ← forEachCustomer check customerIds
    return found ++ rest

/-- A script's findings: its exit status is 1 exactly if there are any. -/
def overCustomers {α : Type} (check : Uuid → Session (List α)) : Session (List α) := do
  let customerIds ← listAllCustomerIds
  forEachCustomer check customerIds

/-- `main` of `verify_audit_chain_job`. -/
def verifyAuditChainJob [Sha256] : Session (List AuditChainViolation) :=
  overCustomers fun customerId => do
    let result ← verifyAuditChain customerId
    return result.violations

/-- `main` of `verify_trace_completeness_job`. -/
def verifyTraceCompletenessJob : Session (List String) :=
  overCustomers checkCustomerTraceCompleteness

/-- `main` of the two scripts that look for stuck actions; they read the clock for `cutoff` when
they have listed the customers. -/
def findStuckActions (status : ActionStatus) (eventType : String) (cutoff : Time) :
    Session (List (Action × Option Time)) :=
  overCustomers fun customerId => do
    let pairs ← findActionsStuckInStatus customerId status eventType
    return stuckActions pairs cutoff

/-- `main` of `find_stuck_running_actions`. -/
def findStuckRunningActions (cutoff : Time) : Session (List (Action × Option Time)) :=
  findStuckActions .RUNNING "action.running.v1" cutoff

/-- `main` of `find_stuck_compensating_actions`. -/
def findStuckCompensatingActions (cutoff : Time) : Session (List (Action × Option Time)) :=
  findStuckActions .COMPENSATING "action.compensating.v1" cutoff

/-! ## The system -/

/-- The service's requests, and its scripts'. -/
inductive OpsRequest where
  | service (r : Request)
  | verifyAuditChain
  | verifyTraceCompleteness
  | findStuckRunning (cutoff : Time)
  | findStuckCompensating (cutoff : Time)

/-- The service's replies, and what a script finds. -/
inductive OpsReply where
  | service (r : Reply)
  | broken (violations : List AuditChainViolation)
  | mismatched (violations : List String)
  | stuck (found : List (Action × Option Time))

/-- Serve a request, or run a script. -/
def serveOps [Sha256] [JsonText] [Deployment] : OpsRequest → Session OpsReply
  | .service r => do
    let reply ← serve r
    return .service reply
  | .verifyAuditChain => do
    let violations ← verifyAuditChainJob
    return .broken violations
  | .verifyTraceCompleteness => do
    let violations ← verifyTraceCompletenessJob
    return .mismatched violations
  | .findStuckRunning cutoff => do
    let found ← findStuckRunningActions cutoff
    return .stuck found
  | .findStuckCompensating cutoff => do
    let found ← findStuckCompensatingActions cutoff
    return .stuck found

end Doda
