import Doda.Application.Task
import Doda.Service

/-!
# Task endpoints

The handlers that write tasks and reminders, and the job that fires due reminders.
A process of this system serves one request for a task or a reminder, runs the
job, or does the other tables' housekeeping.

## Main definitions

* `createWorkspaceTask`, `changeWorkspaceTaskStatus`, `recordWorkspaceTaskDecision`,
  `requestTaskReminder`, `confirmTaskReminder`, `cancelTaskReminder` — the handlers.
* `fireDueRemindersJob` — the job's `main`.
* `TaskCommand`, `handleTask` — the requests to a workspace and what they run.
* `TaskRequest`, `serveTasks` — the requests and the program of a process.
-/

namespace Doda

open ReadCommitted

/-- A table of tasks or of what comes of them. -/
def Key.tasking : Key → Bool
  | .task _ | .taskHistory _ | .reminder _ | .taskDecision _ | .notification _ => true
  | _ => false

/-- What a request to a workspace asks for. -/
inductive TaskCommand where
  | create (title : String) (dueDate : Option Time) (parentTaskId : Option Uuid)
  | changeStatus (taskId : Uuid) (target : TaskStatus)
  | decide (taskId : Uuid) (variant tradeoff decision reason : String)
  | remind (taskId : Uuid) (remindAt : Time)
  | confirm (taskId reminderId : Uuid) (remindAt : Time)
  | cancel (taskId reminderId : Uuid)

/-- What a process is started for. -/
inductive TaskRequest where
  | workspace (who : Identity) (workspaceId : Uuid) (command : TaskCommand)
  /-- A run of the reminder job. -/
  | fireDueReminders
  /-- Rows of other tables. -/
  | housekeeping
      (rows : List { v : Version Row // v.1.housekeeping = true ∧ v.1.tasking = false })

/-- What a request is answered with. -/
inductive TaskReply where
  | task (task : Task)
  | decision (record : TaskDecision)
  | reminder (reminder : Reminder)
  /-- The number of reminders the job fired. -/
  | fired (n : ℕ)
  | none

variable [Sha256]

/-- `_get_owned_task`. -/
def getOwnedTask (context : WorkspaceContext) (taskId : Uuid) : Session Task := do
  match ← getTask context.customerId taskId with
  | some task =>
    if task.workspaceId ≠ context.workspaceId then throw (.notFound "task not found")
    else return task
  | none => throw (.notFound "task not found")

/-- `_get_owned_reminder`. -/
def getOwnedReminder (context : WorkspaceContext) (taskId reminderId : Uuid) :
    Session Reminder := do
  match ← getReminder context.customerId reminderId with
  | some reminder =>
    if reminder.taskId ≠ taskId ∨ reminder.workspaceId ≠ context.workspaceId then
      throw (.notFound "reminder not found")
    else return reminder
  | none => throw (.notFound "reminder not found")

/-- `create_workspace_task`. -/
def createWorkspaceTask (context : WorkspaceContext) (title : String) (dueDate : Option Time)
    (parentTaskId : Option Uuid) : Session TaskReply := do
  authorizeCreateTask context
  let task ← createTask context.customerId context.workspaceId (actorOf context.userId) title
    dueDate parentTaskId
  return .task task

/-- The task, for a caller who may change it. -/
def getTaskToChange (context : WorkspaceContext) (taskId : Uuid) : Session Task := do
  let task ← getOwnedTask context taskId
  authorizeTaskMutation context task
  return task

/-- `change_workspace_task_status`. -/
def changeWorkspaceTaskStatus (context : WorkspaceContext) (taskId : Uuid) (target : TaskStatus) :
    Session TaskReply := do
  let task ← getTaskToChange context taskId
  let task ← changeTaskStatus task target (actorOf context.userId)
  return .task task

/-- `record_workspace_task_decision`. -/
def recordWorkspaceTaskDecision (context : WorkspaceContext) (taskId : Uuid)
    (variant tradeoff decision reason : String) : Session TaskReply := do
  let task ← getTaskToChange context taskId
  let record ← recordTaskDecision task (actorOf context.userId) variant tradeoff decision reason
  return .decision record

/-- `request_task_reminder`. -/
def requestTaskReminder (context : WorkspaceContext) (taskId : Uuid) (remindAt : Time) :
    Session TaskReply := do
  let task ← getTaskToChange context taskId
  let reminder ← requestReminder task (actorOf context.userId) remindAt
  return .reminder reminder

/-- `confirm_task_reminder`. -/
def confirmTaskReminder (context : WorkspaceContext) (taskId reminderId : Uuid)
    (remindAt : Time) : Session TaskReply := do
  let _ ← getTaskToChange context taskId
  let reminder ← getOwnedReminder context taskId reminderId
  let reminder ← confirmReminder reminder remindAt
  return .reminder reminder

/-- `cancel_task_reminder`. -/
def cancelTaskReminder (context : WorkspaceContext) (taskId reminderId : Uuid) :
    Session TaskReply := do
  let _ ← getTaskToChange context taskId
  let reminder ← getOwnedReminder context taskId reminderId
  let reminder ← cancelReminder reminder
  return .reminder reminder

/-! ## The job -/

/-- The customers of a store's `UserCustomerIndex`. -/
def indexedCustomers (db : Db) : List Uuid :=
  (collect (fun k v => match k, v with
    | .userCustomerIndex _ customerId, () => some customerId
    | _, _ => none) db).dedup

/-- `list_all_customer_ids`. -/
def listAllCustomerIds : Session (List Uuid) := atomically do
  let db ← Session.select
  let order ← call (Call.scanOrder (indexedCustomers db))
  return order.1

/-- The loop of the job, one transaction for each customer. -/
def fireForEach : List Uuid → Session ℕ
  | [] => pure 0
  | customerId :: customerIds => do
    let fired ← atomically (fireDueReminders customerId)
    let total ← fireForEach customerIds
    return fired.length + total

/-- `main` of `fire_due_reminders_job`. -/
def fireDueRemindersJob : Session ℕ := do
  let customerIds ← listAllCustomerIds
  fireForEach customerIds

/-! ## The system -/

/-- What a request runs in its workspace. -/
def handleTask (context : WorkspaceContext) : TaskCommand → Session TaskReply
  | .create title dueDate parentTaskId => createWorkspaceTask context title dueDate parentTaskId
  | .changeStatus taskId target => changeWorkspaceTaskStatus context taskId target
  | .decide taskId variant tradeoff decision reason =>
    recordWorkspaceTaskDecision context taskId variant tradeoff decision reason
  | .remind taskId remindAt => requestTaskReminder context taskId remindAt
  | .confirm taskId reminderId remindAt => confirmTaskReminder context taskId reminderId remindAt
  | .cancel taskId reminderId => cancelTaskReminder context taskId reminderId

/-- Serve a request. -/
def serveTasks : TaskRequest → Session TaskReply
  | .workspace who workspaceId command =>
    withRequestContext who workspaceId fun context => handleTask context command
  | .fireDueReminders => do
    let total ← fireDueRemindersJob
    return .fired total
  | .housekeeping rows => do
    atomically (keepHouseAll (rows.map fun v => ⟨v.1, v.2.1⟩))
    return .none

end Doda
