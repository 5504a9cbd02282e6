import Doda.Api.CustomerAdmin
import Doda.Application.KillSwitch
import Doda.Service

/-!
# Kill switch endpoints

The four handlers that engage and disengage a switch, and the service together
with them.

## Main definitions

* `ControlRequest`, `serveControls` — the requests, and what each runs.
-/

namespace Doda

/-- `authorize_engage_workspace_kill_switch`. -/
def authorizeEngageWorkspaceKillSwitch (context : WorkspaceContext) : Session Unit :=
  requireRole context (context.role = .WORKSPACE_ADMIN) "operate the workspace kill switch"

/-- `authorize_engage_customer_kill_switch`. -/
def authorizeEngageCustomerKillSwitch (context : CustomerContext) : Session Unit :=
  if context.role = .CUSTOMER_OWNER then pure ()
  else throw (.authorization .DENY
    s!"role {context.role.value} may not operate the customer kill switch")

/-- What a process of the system is started for. -/
inductive ControlRequest where
  | engageWorkspace (who : Identity) (workspaceId : Uuid) (reason : String)
  | disengageWorkspace (who : Identity) (workspaceId : Uuid)
  | engageCustomer (who : Identity) (customerId : Uuid) (reason : String)
  | disengageCustomer (who : Identity) (customerId : Uuid)
  /-- Any request of the service. -/
  | service (r : Request)

variable [Sha256]

/-- Operate a workspace's switch. -/
def operateWorkspaceSwitch (who : Identity) (workspaceId : Uuid)
    (operate : WorkspaceContext → Session Unit) : Session Reply :=
  withRequestContext who workspaceId fun context => do
    authorizeEngageWorkspaceKillSwitch context
    operate context
    return .none

/-- Operate a customer's switch. -/
def operateCustomerSwitch (who : Identity) (customerId : Uuid)
    (operate : CustomerContext → Session Unit) : Session Reply :=
  withCustomerContext who customerId fun context => do
    authorizeEngageCustomerKillSwitch context
    operate context
    return .none

/-- Serve a request. -/
def serveControls [JsonText] [Deployment] : ControlRequest → Session Reply
  | .engageWorkspace who workspaceId reason =>
    operateWorkspaceSwitch who workspaceId fun context =>
      engageWorkspaceKillSwitch context.workspaceId context.customerId (actorOf context.userId)
        reason
  | .disengageWorkspace who workspaceId =>
    operateWorkspaceSwitch who workspaceId fun context =>
      disengageWorkspaceKillSwitch context.workspaceId context.customerId (actorOf context.userId)
  | .engageCustomer who customerId reason =>
    operateCustomerSwitch who customerId fun context =>
      engageCustomerKillSwitch context.customerId (actorOf context.userId) reason
  | .disengageCustomer who customerId =>
    operateCustomerSwitch who customerId fun context =>
      disengageCustomerKillSwitch context.customerId (actorOf context.userId)
  | .service r => serve r

end Doda
