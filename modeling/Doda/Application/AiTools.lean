import Doda.Application.Action
import Doda.Application.AiSupport

/-!
# The tool registry

What a model may call.  A read tool runs at once and answers text; a write tool
never runs here: it proposes an action through the same functions as a request.

## Main definitions

* `isReadTool`, `isWriteTool`, `writeToolActionName` — the registry.
* `dispatchReadTool` — run a read tool.
* `proposeWriteToolAction` — propose what a write call asks for.
-/

namespace Doda

open ReadCommitted

variable [Sha256] [JsonText] [Deployment]

/-- The keys of `_READ_TOOL_ARGS`. -/
def readTools : List String := ["list_my_open_tasks"]

/-- `_WRITE_TOOL_ACTION_NAME`. -/
def writeToolActionName : List (String × String) :=
  [("telegram_send_message", telegramSendMessage)]

/-- The keys of `_WRITE_TOOL_ARGS`. -/
def writeTools : List String := ["telegram_send_message"]

/-- `is_read_tool`. -/
def isReadTool (toolName : String) : Bool := toolName ∈ readTools

/-- `is_write_tool`. -/
def isWriteTool (toolName : String) : Bool := toolName ∈ writeTools

/-- `list_tasks_for_workspace`. -/
def listTasks (db : Db) (workspaceId : Uuid) (status : TaskStatus) (limit : ℕ) : List Task :=
  ((collect (fun k v => match k, v with
    | .task _, (t : Task) => if t.workspaceId = workspaceId ∧ t.status = status then some t else none
    | _, _ => none) db).insertionSort (·.createdAt ≥ ·.createdAt)).take (min limit 200)

/-- One line of the answer. -/
def taskLine (t : Task) : String := s!"- [{t.status.value}] {t.title} (id={t.id.str})"

/-- `dispatch_read_tool`. -/
def dispatchReadTool (toolName argumentsJson : String) (workspaceId : Uuid) : Session String :=
  if ¬ isReadTool toolName then throw (.toolNotFound toolName)
  else match Deployment.listMyOpenTasksArgs argumentsJson with
  | .error reason => throw (.toolArgumentsInvalid toolName reason)
  | .ok limit => do
    let db ← Session.select
    let todo := listTasks db workspaceId .TODO limit
    let db ← Session.select
    let inProgress := listTasks db workspaceId .IN_PROGRESS limit
    let tasks := (todo ++ inProgress).take limit
    if tasks = [] then return "No open tasks."
    else return "\n".intercalate (tasks.map taskLine)

/-- `propose_write_tool_action`: validate the arguments, and go through the
proposal that a request goes through.  The risk level asked for is R0; the floor of
the tool raises it. -/
def proposeWriteToolAction (toolName argumentsJson : String) (context : WorkspaceContext)
    (traceId : Uuid) (idempotencyKey : String) : Session (Action × Option Approval) := do
  if ¬ isWriteTool toolName then throw (.toolNotFound toolName)
  match Deployment.telegramSendMessageArgs argumentsJson with
  | .error reason => throw (.toolArgumentsInvalid toolName reason)
  | .ok _ =>
    match writeToolActionName.lookup toolName with
    | none => throw (.builtin "KeyError")
    | some actionToolName =>
      let actorId := actorOf context.userId
      match loads argumentsJson with
      | .error exception => throw (.builtin exception)
      | .ok payload =>
        let (action, created) ← proposeAction context.customerId context.workspaceId traceId
          actorId actionToolName .R0 payload idempotencyKey none
        if created then submitActionForExecution action actorId
        else
          let approval ← resolveReplayApproval action actorId
          return (action, approval)

/-- `str(exc)` of the exceptions a read tool answers with. -/
def Err.text : Err → String
  | .toolArgumentsInvalid toolName reason => s!"{toolName}: {reason}"
  | .toolNotFound toolName => toolName
  -- the driver's message is not modelled
  | _ => ""

/-- `Exception`, which is everything but the closing of a generator. -/
def Err.isException : Err → Bool
  | .generatorExit => false
  | _ => true

end Doda
