import Doda.Domain.Errors
import Doda.Domain.Json
import Doda.Lib.RowStore
import Mathlib.Tactic.Simps.Basic

/-!
# Tables

The rows the modelled code reads and writes, and the store they make up.  Each
row type has the columns some modelled function uses.  A row is filed under its
primary key; a unique constraint is a row of its own, such as
`Key.actionIdempotency`, that says which row holds the constrained values.

## Main definitions

* `Action`, `Approval`, `OutboxMessage`, `AuditEvent`, … — the rows.
* `Key`, `Row` — primary keys and the row type of each.
* `Db` — the store of versions of these rows.
-/

namespace Doda

/-! ## Tenancy -/

inductive CustomerRole where
  | CUSTOMER_OWNER | MEMBER | AUDITOR
  deriving DecidableEq, Repr

inductive WorkspaceRole where
  | WORKSPACE_ADMIN | MEMBER
  deriving DecidableEq, Repr

def CustomerRole.value : CustomerRole → String
  | CUSTOMER_OWNER => "customer_owner"
  | MEMBER => "member"
  | AUDITOR => "auditor"

def WorkspaceRole.value : WorkspaceRole → String
  | WORKSPACE_ADMIN => "workspace_admin"
  | MEMBER => "member"

inductive AuthStrength where
  | AAL1 | AAL2
  deriving DecidableEq, Repr

structure Workspace where
  customerId : Uuid
  name : String
  archivedAt : Option Time := none
  deriving DecidableEq

structure Customer where
  name : String

structure User where
  displayName : String

structure CustomerMembership where
  customerId : Uuid
  userId : Uuid
  role : CustomerRole
  deriving DecidableEq

structure WorkspaceMembership where
  customerId : Uuid
  customerMembershipId : Uuid
  workspaceId : Uuid
  role : WorkspaceRole
  deriving DecidableEq

/-- A kill switch row; its presence is what counts. -/
structure KillSwitch where
  engagedAt : Time
  engagedBy : String
  reason : String

/-! ## Actions -/

structure Action where
  id : Uuid
  customerId : Uuid
  workspaceId : Uuid
  traceId : Uuid
  taskId : Option Uuid := none
  actorId : String
  toolName : String
  riskLevel : RiskLevel
  payload : Json
  payloadHash : String
  idempotencyKey : String
  status : ActionStatus

/-- `action.status = status`. -/
@[simps] def Action.setStatus (a : Action) (status : ActionStatus) : Action :=
  { a with status := status }

@[simp] theorem Action.setStatus_setStatus (a : Action) (s s' : ActionStatus) :
    (a.setStatus s).setStatus s' = a.setStatus s' := rfl

structure Approval where
  id : Uuid
  createdAt : Time
  customerId : Uuid
  actionId : Uuid
  payloadHash : String
  approverId : Option String := none
  nonce : String
  status : ApprovalStatus
  expiresAt : Time

structure OutboxMessage where
  id : Uuid
  createdAt : Time
  customerId : Uuid
  aggregateType : String
  aggregateId : Uuid
  eventType : String
  payload : Json
  attempts : ℕ := 0
  publishedAt : Option Time := none

/-! ## Audit -/

structure AuditEvent where
  id : Uuid
  createdAt : Time
  customerId : Uuid
  workspaceId : Option Uuid
  traceId : Uuid
  actorId : String
  eventType : String
  occurredAt : Time
  safeMetadata : Json
  prevHash : Option String
  hash : String

structure AuditChainTip where
  tipHash : Option String
  deriving DecidableEq

/-! ## Notifications -/

inductive NotificationType where
  | PENDING_APPROVAL | FAILED_ACTION | COMPLETED_TASK | SECURITY_ALERT | REMINDER_DUE
  deriving DecidableEq, Repr

def NotificationType.value : NotificationType → String
  | PENDING_APPROVAL => "PENDING_APPROVAL"
  | FAILED_ACTION => "FAILED_ACTION"
  | COMPLETED_TASK => "COMPLETED_TASK"
  | SECURITY_ALERT => "SECURITY_ALERT"
  | REMINDER_DUE => "REMINDER_DUE"

structure Notification where
  id : Uuid
  createdAt : Time
  customerId : Uuid
  workspaceId : Option Uuid
  recipientId : String
  notificationType : NotificationType
  referenceType : String
  referenceId : Uuid
  safeMetadata : Json

/-! ## Conversations and AI settings -/

inductive MessageRole where
  | USER | ASSISTANT | TOOL
  deriving DecidableEq, Repr

structure Conversation where
  id : Uuid
  customerId : Uuid
  workspaceId : Uuid
  pinnedProvider : Option Provider := none
  pinnedModel : Option String := none
  pinnedLanguage : Option String := none
  deriving DecidableEq

structure Message where
  id : Uuid
  createdAt : Time
  customerId : Uuid
  conversationId : Uuid
  role : MessageRole
  content : String
  toolCallId : Option String := none
  toolName : Option String := none
  toolArgumentsJson : Option String := none
  provider : Option Provider := none
  model : Option String := none
  finishReason : Option String := none
  deriving DecidableEq

/-- A saved provider choice, of a user or of a workspace. -/
structure AIPreference where
  provider : Provider
  model : Option String
  deriving DecidableEq

structure AIBudgetLedger where
  reservedCents : ℤ := 0
  actualCents : ℤ := 0
  deriving DecidableEq

inductive ChatMode where
  | FAST | STANDARD | DEEP
  deriving DecidableEq, Repr

inductive UsageEventStatus where
  | RESERVED | RECONCILED | REFUNDED
  deriving DecidableEq, Repr

/-- `GatewayUsage`: token counts of one or more gateway calls. -/
structure GatewayUsage where
  inputTokens : ℤ
  outputTokens : ℤ
  cachedInputTokens : ℤ := 0

structure AIUsageEvent where
  id : Uuid
  createdAt : Time
  customerId : Uuid
  workspaceId : Uuid
  conversationId : Option Uuid
  traceId : Uuid
  actorId : String
  provider : Provider
  model : String
  mode : ChatMode
  usage : GatewayUsage
  estimatedCostCents : ℤ
  actualCostCents : ℤ
  status : UsageEventStatus

inductive TaskStatus where
  | TODO | IN_PROGRESS | DONE | CANCELLED
  deriving DecidableEq, Repr

def TaskStatus.value : TaskStatus → String
  | TODO => "TODO"
  | IN_PROGRESS => "IN_PROGRESS"
  | DONE => "DONE"
  | CANCELLED => "CANCELLED"

structure Task where
  id : Uuid
  createdAt : Time
  customerId : Uuid
  workspaceId : Uuid
  ownerId : String
  title : String
  parentTaskId : Option Uuid := none
  status : TaskStatus
  dueDate : Option Time := none

/-- One status that a task has taken; `None` before its birth. -/
structure TaskHistory where
  id : Uuid
  createdAt : Time
  customerId : Uuid
  taskId : Uuid
  actorId : String
  fromStatus : Option TaskStatus
  toStatus : TaskStatus

inductive ReminderStatus where
  | PENDING_CONFIRMATION | CONFIRMED | CANCELLED | FIRED
  deriving DecidableEq, Repr

def ReminderStatus.value : ReminderStatus → String
  | PENDING_CONFIRMATION => "PENDING_CONFIRMATION"
  | CONFIRMED => "CONFIRMED"
  | CANCELLED => "CANCELLED"
  | FIRED => "FIRED"

structure Reminder where
  id : Uuid
  createdAt : Time
  customerId : Uuid
  workspaceId : Uuid
  taskId : Uuid
  actorId : String
  remindAt : Time
  status : ReminderStatus
  confirmedAt : Option Time := none
  firedAt : Option Time := none

structure TaskDecision where
  id : Uuid
  createdAt : Time
  customerId : Uuid
  taskId : Uuid
  actorId : String
  variant : String
  tradeoff : String
  decision : String
  reason : String

/-! ## Sessions -/

/-- A row of `identity_sessions`. -/
structure IdentitySession where
  userId : Uuid
  authStrength : AuthStrength
  lastSeenAt : Time
  expiresAt : Time
  revokedAt : Option Time := none

/-! ## The store -/

/-- Primary keys, by table. -/
inductive Key where
  | workspace (id : Uuid)
  /-- `WorkspaceTenantIndex`: which customer a workspace belongs to. -/
  | workspaceTenantIndex (workspaceId : Uuid)
  | customer (id : Uuid)
  | user (id : Uuid)
  | customerMembership (id : Uuid)
  /-- `uq_customer_membership_customer_user`. -/
  | customerMember (customerId userId : Uuid)
  | userCustomerIndex (userId customerId : Uuid)
  | workspaceMembership (id : Uuid)
  /-- `uq_workspace_membership_customer_membership_workspace`. -/
  | workspaceMember (customerMembershipId workspaceId : Uuid)
  | customerKillSwitch (customerId : Uuid)
  | workspaceKillSwitch (workspaceId : Uuid)
  | workspaceLanguage (workspaceId : Uuid)
  | action (id : Uuid)
  /-- `uq_action_workspace_idempotency_key`. -/
  | actionIdempotency (customerId workspaceId : Uuid) (key : String)
  | approval (id : Uuid)
  | outboxMessage (id : Uuid)
  | auditEvent (id : Uuid)
  | auditChainTip (customerId : Uuid)
  | notification (id : Uuid)
  | notificationPreference (customerId : Uuid) (recipientId : String) (type : NotificationType)
  | conversation (id : Uuid)
  | message (id : Uuid)
  | task (id : Uuid)
  | taskHistory (id : Uuid)
  | reminder (id : Uuid)
  | taskDecision (id : Uuid)
  | session (id : Uuid)
  | userAIPreference (customerId userId : Uuid)
  | workspaceAIPreference (workspaceId : Uuid)
  | customerAIProviderSetting (customerId : Uuid) (provider : Provider)
  | customerAIFallbackSetting (customerId : Uuid)
  | aiBudgetLedger (customerId : Uuid) (yearMonth : String)
  | aiUsageEvent (id : Uuid)
  deriving DecidableEq

/-- The row under each key. -/
@[reducible] def Row : Key → Type
  | .workspace _ => Workspace
  | .workspaceTenantIndex _ => Uuid
  | .customer _ => Customer
  | .user _ => User
  | .customerMembership _ => CustomerMembership
  | .customerMember _ _ | .workspaceMember _ _ => Uuid
  | .userCustomerIndex _ _ => Unit
  | .workspaceMembership _ => WorkspaceMembership
  | .customerKillSwitch _ | .workspaceKillSwitch _ => KillSwitch
  | .workspaceLanguage _ => Option String
  | .action _ => Action
  | .actionIdempotency _ _ _ => Uuid
  | .approval _ => Approval
  | .outboxMessage _ => OutboxMessage
  | .auditEvent _ => AuditEvent
  | .auditChainTip _ => AuditChainTip
  | .notification _ => Notification
  | .notificationPreference _ _ _ => Bool
  | .conversation _ => Conversation
  | .message _ => Message
  | .task _ => Task
  | .taskHistory _ => TaskHistory
  | .reminder _ => Reminder
  | .taskDecision _ => TaskDecision
  | .session _ => IdentitySession
  | .userAIPreference _ _ | .workspaceAIPreference _ => AIPreference
  | .customerAIProviderSetting _ _ | .customerAIFallbackSetting _ => Bool
  | .aiBudgetLedger _ _ => AIBudgetLedger
  | .aiUsageEvent _ => AIUsageEvent

/-- The database: every version of every row, newest first. -/
abbrev Db := ReadCommitted.Store Row

end Doda
