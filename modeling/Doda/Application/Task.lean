import Doda.Application.Authz
import Doda.Application.Notification

/-!
# Tasks and reminders

A task's status goes forward or is cancelled; each status it takes leaves a row in
its history.  `changeTaskStatus` locks and re-reads the task that its caller loaded.

A reminder is requested, confirmed, and fired by a job when it is due; it can be
cancelled until it has fired.  None of these locks the reminder: each checks the
status that was loaded and writes the new one by primary key.

## Main definitions

* `allowedTaskTransitions` — `ALLOWED_TASK_TRANSITIONS`.
* `createTask`, `changeTaskStatus` — `create_task`, `change_task_status`.
* `requestReminder`, `confirmReminder`, `cancelReminder` — `request_reminder`,
  `confirm_reminder`, `cancel_reminder`.
* `fireDueReminders` — `fire_due_reminders`.
-/

namespace Doda

open ReadCommitted

variable [Sha256]

/-! ## Tasks -/

/-- `ALLOWED_TASK_TRANSITIONS`. -/
def allowedTaskTransitions : TaskStatus → List TaskStatus
  | .TODO => [.IN_PROGRESS, .CANCELLED]
  | .IN_PROGRESS => [.DONE, .CANCELLED]
  | .DONE => []
  | .CANCELLED => []

/-- `session.get(Task, id)` in a transaction of `tenant`. -/
def getTask (tenant id : Uuid) : Session (Option Task) := do
  let task ← Session.get (.task id)
  return task.filter (·.customerId = tenant)

/-- `authorize_create_task`. -/
def authorizeCreateTask (context : WorkspaceContext) : Session Unit :=
  requireRole context (context.role ∈ [.MEMBER, .WORKSPACE_ADMIN]) "create tasks"

/-- `authorize_task_mutation`. -/
def authorizeTaskMutation (context : WorkspaceContext) (task : Task) : Session Unit :=
  let isOwner := task.ownerId = actorOf context.userId
  if ¬ isOwner ∧ context.role ≠ .WORKSPACE_ADMIN then
    throw (.authorization .DENY "only the task owner or a workspace admin may change this task")
  else pure ()

/-- The check of a parent task. -/
def assertParent (customerId workspaceId : Uuid) : Option Uuid → Session Unit
  | none => pure ()
  | some parentTaskId => do
    let parent ← getTask customerId parentTaskId
    if parent.all (·.workspaceId ≠ workspaceId) then
      throw (.taskParentNotFound s!"parent task {parentTaskId.str} not found in this workspace")

/-- `session.add(TaskHistory(...))`. -/
def addTaskHistory (customerId taskId : Uuid) (actorId : String) (fromStatus : Option TaskStatus)
    (toStatus : TaskStatus) : Session Unit := do
  let id ← Session.uuid4
  let createdAt ← Session.utcnow .created
  Session.insert (.taskHistory id)
    { id, createdAt, customerId, taskId, actorId, fromStatus, toStatus }

/-- `create_task`. -/
def createTask (customerId workspaceId : Uuid) (ownerId title : String) (dueDate : Option Time)
    (parentTaskId : Option Uuid) : Session Task := do
  assertParent customerId workspaceId parentTaskId
  let id ← Session.uuid4
  let createdAt ← Session.utcnow .created
  let task : Task :=
    { id, createdAt, customerId, workspaceId, ownerId, title, parentTaskId, status := .TODO,
      dueDate }
  Session.insert (.task id) task
  addTaskHistory customerId id ownerId none .TODO
  return task

/-- `task.status = target`. -/
@[simps] def Task.setStatus (task : Task) (target : TaskStatus) : Task :=
  { task with status := target }

/-- Notify the owner of a closed task. -/
def notifyDone (task : Task) (target : TaskStatus) : Session Unit := do
  match target with
  | .DONE =>
    let _ ← createNotification task.customerId (some task.workspaceId) task.ownerId
      .COMPLETED_TASK "task" task.id (.obj [("title", .str task.title)])
  | _ => pure ()

/-- `change_task_status`; the task is refreshed by the query that locks it. -/
def changeTaskStatus (task : Task) (target : TaskStatus) (actorId : String) : Session Task := do
  let taskId := task.id
  let locked ← Session.getForUpdate (.task taskId)
  let task := locked.getD task
  if target ∉ allowedTaskTransitions task.status then
    throw (.invalidTaskTransition
      s!"{task.status.value} -> {target.value} is not an allowed task transition")
  else
    let previous := task.status
    Session.update (.task taskId) (·.setStatus target)
    addTaskHistory task.customerId taskId actorId (some previous) target
    notifyDone task target
    return task.setStatus target

/-- `record_task_decision`. -/
def recordTaskDecision (task : Task) (actorId variant tradeoff decision reason : String) :
    Session TaskDecision := do
  let id ← Session.uuid4
  let createdAt ← Session.utcnow .created
  let record : TaskDecision :=
    { id, createdAt, customerId := task.customerId, taskId := task.id, actorId, variant, tradeoff,
      decision, reason }
  Session.insert (.taskDecision id) record
  return record

/-! ## Reminders -/

/-- `session.get(Reminder, id)` in a transaction of `tenant`. -/
def getReminder (tenant id : Uuid) : Session (Option Reminder) := do
  let reminder ← Session.get (.reminder id)
  return reminder.filter (·.customerId = tenant)

/-- `request_reminder`. -/
def requestReminder (task : Task) (actorId : String) (remindAt : Time) : Session Reminder := do
  let id ← Session.uuid4
  let createdAt ← Session.utcnow .created
  let reminder : Reminder :=
    { id, createdAt, customerId := task.customerId, workspaceId := task.workspaceId,
      taskId := task.id, actorId, remindAt, status := .PENDING_CONFIRMATION }
  Session.insert (.reminder id) reminder
  return reminder

/-- `reminder.status = CONFIRMED; reminder.confirmed_at = now`. -/
@[simps] def Reminder.confirm (reminder : Reminder) (now : Time) : Reminder :=
  { reminder with status := .CONFIRMED, confirmedAt := some now }

/-- `reminder.status = CANCELLED`. -/
@[simps] def Reminder.cancel (reminder : Reminder) : Reminder :=
  { reminder with status := .CANCELLED }

/-- `reminder.status = FIRED; reminder.fired_at = now`. -/
@[simps] def Reminder.fire (reminder : Reminder) (now : Time) : Reminder :=
  { reminder with status := .FIRED, firedAt := some now }

/-- `confirm_reminder`. -/
def confirmReminder (reminder : Reminder) (remindAt : Time) : Session Reminder := do
  if reminder.status ≠ .PENDING_CONFIRMATION then
    throw (.reminderNotPending
      s!"reminder {reminder.id.str} is {reminder.status.value}, not pending")
  else if reminder.remindAt ≠ remindAt then
    throw (.reminderConfirmationMismatch ("reminder " ++ reminder.id.str ++
      "'s current remind_at does not match what was confirmed"))
  else
    let now ← Session.utcnow .confirmed
    Session.update (.reminder reminder.id) (·.confirm now)
    return reminder.confirm now

/-- `cancel_reminder`. -/
def cancelReminder (reminder : Reminder) : Session Reminder := do
  if reminder.status ∉ [ReminderStatus.PENDING_CONFIRMATION, .CONFIRMED] then
    throw (.reminderNotPending
      s!"reminder {reminder.id.str} is {reminder.status.value}, cannot be cancelled")
  else
    Session.update (.reminder reminder.id) Reminder.cancel
    return reminder.cancel

/-- The confirmed reminders of a customer that are due. -/
def dueReminders (db : Db) (customerId : Uuid) (now : Time) : List Uuid :=
  collect (fun k v => match k, v with
    | .reminder id, (r : Reminder) =>
      if r.customerId = customerId ∧ r.status = .CONFIRMED ∧ r.remindAt ≤ now then some id
      else none
    | _, _ => none) db

/-- Fire one reminder; its change is flushed by the next statement. -/
def fireReminder (customerId : Uuid) (tasks : Db) (now : Time) (reminder : Reminder) :
    Session Reminder := do
  match (row tasks (.task reminder.taskId)).filter (·.customerId = customerId) with
  | none => throw (.builtin "KeyError")
  | some task =>
    let _ ← createNotification reminder.customerId (some reminder.workspaceId) reminder.actorId
      .REMINDER_DUE "task" task.id (.obj [("title", .str task.title)])
    Session.update (.reminder reminder.id) (·.fire now)
    return reminder.fire now

/-- Fire them all. -/
def fireReminders (customerId : Uuid) (tasks : Db) (now : Time) :
    List Reminder → Session (List Reminder)
  | [] => pure []
  | reminder :: reminders => do
    let fired ← fireReminder customerId tasks now reminder
    let rest ← fireReminders customerId tasks now reminders
    return fired :: rest

/-- `fire_due_reminders`, in a transaction of the customer. -/
def fireDueReminders (customerId : Uuid) : Session (List Reminder) := do
  let now ← Session.utcnow .due
  let db ← Session.select
  let order ← call (Call.scanOrder (dueReminders db customerId now))
  match order.1.filterMap fun id => row db (.reminder id) with
  | [] => return []
  | reminder :: reminders =>
    let tasks ← Session.select
    fireReminders customerId tasks now (reminder :: reminders)

end Doda
