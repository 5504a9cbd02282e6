import Doda.Domain.Action
import Doda.Domain.Base
import Doda.Lib.Program

/-!
# Exceptions

One constructor for each exception class the modelled code raises or handles,
with the data its handlers or its message use.  `database` is every error of the
database driver.
-/

namespace Doda

/-- `Decision`, the vocabulary of authorization. -/
inductive Decision where
  | ALLOW | DENY | STEP_UP_REQUIRED | APPROVAL_REQUIRED
  deriving DecidableEq, Repr

/-- The three model providers. -/
inductive Provider where
  | OPENAI | GEMINI | CLAUDE
  deriving DecidableEq, Repr

def Provider.value : Provider → String
  | OPENAI => "OPENAI"
  | GEMINI => "GEMINI"
  | CLAUDE => "CLAUDE"

/-- Exceptions. -/
inductive Err where
  | database
  | assertion
  /-- A built-in exception, by its class name. -/
  | builtin (name : String)
  | authorization (decision : Decision) (reason : String)
  /-- `HTTPException(status_code=404)`. -/
  | notFound (detail : String)
  | killSwitchEngaged (scope : String)
  | invalidActionTransition (current target : ActionStatus)
  | approvalInvalid (reason : String)
  /-- `redis.RedisError`. -/
  | redis
  | missingProviderReceipt (actionId : Uuid)
  | invalidCompensationOutcome (outcome : ActionStatus)
  | actionNotCancellable (actionId : Uuid) (status : ActionStatus)
  /-- `TelegramSendError`; its subclass `TelegramTransientError` where `transient`. -/
  | telegramSend (reason : String) (transient : Bool)
  | outboundContentBlocked (label : String)
  | budgetExceeded
  | deepRequestCostCeilingExceeded
  | providerDisabled (provider : Provider)
  | unsupportedModelCapability
  | modelNotConfigured
  | modelTimeout
  | modelRateLimited
  | modelProvider
  | modelAuthentication
  | toolArgumentsInvalid (toolName reason : String)
  | toolNotFound (toolName : String)
  /-- `CustomerMembershipError`. -/
  | customerMembership (reason : String)
  /-- `DuplicateMembershipError`. -/
  | duplicateMembership (reason : String)
  /-- `WorkspaceMembershipError`. -/
  | workspaceMembership (reason : String)
  /-- `DuplicateWorkspaceMembershipError`. -/
  | duplicateWorkspaceMembership (reason : String)
  /-- `SessionInvalidError`. -/
  | sessionInvalid (reason : String)
  /-- `InvalidTaskTransition`. -/
  | invalidTaskTransition (reason : String)
  /-- `TaskParentNotFoundError`. -/
  | taskParentNotFound (reason : String)
  /-- `NotificationPreferenceError`. -/
  | notificationPreference (reason : String)
  /-- `ReminderNotPendingError`. -/
  | reminderNotPending (reason : String)
  /-- `ReminderConfirmationMismatchError`. -/
  | reminderConfirmationMismatch (reason : String)
  /-- Thrown into a suspended generator by `aclose()`. -/
  | generatorExit
  deriving DecidableEq, Repr

instance : ReadCommitted.DatabaseError Err := ⟨.database⟩

/-- The exception class is the application's own, or an HTTP response. -/
def Err.typed : Err → Prop
  | .database | .assertion | .builtin _ | .redis | .generatorExit => False
  | _ => True

end Doda
