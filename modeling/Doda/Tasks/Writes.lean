import Doda.Api.Tasks
import Doda.Application.Writes

/-!
# What task requests write

The tables that each handler of a task request writes, whatever it is answered.

## Main definitions

* `getTaskToChange_inside` — what loading a task leaves behind.
* `recordWorkspaceTaskDecision_tidy`, `requestTaskReminder_tidy`,
  `confirmTaskReminder_tidy`, `cancelTaskReminder_tidy`, `fireDueReminders_tidy` —
  the tables of the handlers.

## Main results

* `serveTasks_commits` — what holds of every transaction of the system.
-/

namespace Doda

open ReadCommitted

variable [Sha256] {p : ℕ}

omit [Sha256] in
theorem getOwnedTask_inside (context : WorkspaceContext) (taskId : Uuid) (evs : Hist) :
    Inside p (fun task evs' => evs' = .ran p (.get (.task taskId)) (some task) :: evs)
      (getOwnedTask context taskId) evs := by
  refine Inside.run_bind fun found => ?_
  cases found with
  | none => trivial
  | some task =>
    by_cases hc : task.customerId = context.customerId
    · simp only [Option.filter, hc, decide_true, if_true]
      split
      · trivial
      · rfl
    · simp only [Option.filter, hc, decide_false]
      trivial

omit [Sha256] in
theorem getTaskToChange_inside (context : WorkspaceContext) (taskId : Uuid) (evs : Hist) :
    Inside p (fun task evs' => evs' = .ran p (.get (.task taskId)) (some task) :: evs)
      (getTaskToChange context taskId) evs := by
  refine Inside.bind (getOwnedTask_inside context taskId evs) fun task evs' hevs => ?_
  unfold authorizeTaskMutation
  dsimp only
  split
  · trivial
  · exact hevs

theorem notifyDone_tidy (task : Task) (target : TaskStatus) :
    Tidy (fun k => k.auditing = true ∨ ∃ id, k = .notification id) (notifyDone task target) := by
  unfold notifyDone
  split
  · exact Neat.bind (createNotification_tidy ..) fun _ => Neat.pure _
  · exact Neat.pure _

omit [Sha256] in
theorem addTaskHistory_tidy (customerId taskId : Uuid) (actorId : String)
    (source : Option TaskStatus) (target : TaskStatus) :
    Tidy (∃ id, · = .taskHistory id) (addTaskHistory customerId taskId actorId source target) :=
  Neat.bind Tidy.uuid4 fun id => Neat.bind (Tidy.utcnow _) fun _ => Tidy.insert ⟨id, rfl⟩

omit [Sha256] in
theorem assertParent_tidy (customerId workspaceId : Uuid) (parentTaskId : Option Uuid) :
    Tidy (fun _ => False) (assertParent customerId workspaceId parentTaskId) := by
  cases parentTaskId with
  | none => exact Neat.pure _
  | some parentTaskId =>
    refine Neat.bind (Neat.bind (Tidy.get _) fun _ => Neat.pure _) fun parent => ?_
    split
    · exact Neat.throw _
    · exact Neat.pure _

omit [Sha256] in
theorem getTaskToChange_tidy {P : Key → Prop} (context : WorkspaceContext) (taskId : Uuid) :
    Tidy P (getTaskToChange context taskId) := by
  refine Neat.bind (Neat.bind (Neat.bind (Tidy.get _) fun _ => Neat.pure _) fun found => ?_)
    fun task => Neat.bind ?_ fun _ => Neat.pure _
  · split
    · split
      · exact Neat.throw _
      · exact Neat.pure _
    · exact Neat.throw _
  · unfold authorizeTaskMutation
    dsimp only
    split
    · exact Neat.throw _
    · exact Neat.pure _

omit [Sha256] in
theorem getOwnedReminder_tidy {P : Key → Prop} (context : WorkspaceContext)
    (taskId reminderId : Uuid) : Tidy P (getOwnedReminder context taskId reminderId) := by
  refine Neat.bind (Neat.bind (Tidy.get _) fun _ => Neat.pure _) fun found => ?_
  split
  · split
    · exact Neat.throw _
    · exact Neat.pure _
  · exact Neat.throw _

omit [Sha256] in
theorem recordWorkspaceTaskDecision_tidy (context : WorkspaceContext) (taskId : Uuid)
    (variant tradeoff decision reason : String) :
    Tidy (∃ id, · = .taskDecision id)
      (recordWorkspaceTaskDecision context taskId variant tradeoff decision reason) := by
  refine Neat.bind (getTaskToChange_tidy ..) fun task => Neat.bind ?_ fun _ => Neat.pure _
  refine Neat.bind Tidy.uuid4 fun id => Neat.bind (Tidy.utcnow _) fun _ => ?_
  exact Neat.bind (Tidy.insert ⟨id, rfl⟩) fun _ => Neat.pure _

omit [Sha256] in
theorem requestTaskReminder_tidy (context : WorkspaceContext) (taskId : Uuid) (remindAt : Time) :
    Tidy (∃ id, · = .reminder id) (requestTaskReminder context taskId remindAt) := by
  refine Neat.bind (getTaskToChange_tidy ..) fun task => Neat.bind ?_ fun _ => Neat.pure _
  refine Neat.bind Tidy.uuid4 fun id => Neat.bind (Tidy.utcnow _) fun _ => ?_
  exact Neat.bind (Tidy.insert ⟨id, rfl⟩) fun _ => Neat.pure _

omit [Sha256] in
theorem confirmTaskReminder_tidy (context : WorkspaceContext) (taskId reminderId : Uuid)
    (remindAt : Time) :
    Tidy (∃ id, · = .reminder id) (confirmTaskReminder context taskId reminderId remindAt) := by
  refine Neat.bind (getTaskToChange_tidy ..) fun _ => ?_
  refine Neat.bind (getOwnedReminder_tidy ..) fun reminder => Neat.bind ?_ fun _ => Neat.pure _
  unfold confirmReminder
  split
  · exact Neat.throw _
  split
  · exact Neat.throw _
  · refine Neat.bind (Tidy.utcnow _) fun _ => ?_
    exact Neat.bind (Tidy.update ⟨_, rfl⟩) fun _ => Neat.pure _

omit [Sha256] in
theorem cancelTaskReminder_tidy (context : WorkspaceContext) (taskId reminderId : Uuid) :
    Tidy (∃ id, · = .reminder id) (cancelTaskReminder context taskId reminderId) := by
  refine Neat.bind (getTaskToChange_tidy ..) fun _ => ?_
  refine Neat.bind (getOwnedReminder_tidy ..) fun reminder => Neat.bind ?_ fun _ => Neat.pure _
  unfold cancelReminder
  split
  · exact Neat.throw _
  · exact Neat.bind (Tidy.update ⟨_, rfl⟩) fun _ => Neat.pure _

/-- What the reminder job writes. -/
def Key.fired : Key → Prop
  | .reminder _ | .notification _ => True
  | k => k.auditing = true

theorem fireReminders_tidy (customerId : Uuid) (tasks : Db) (now : Time)
    (reminders : List Reminder) :
    Tidy Key.fired (fireReminders customerId tasks now reminders) := by
  induction reminders with
  | nil => exact Neat.pure _
  | cons reminder reminders ih =>
    refine Neat.bind ?_ fun _ => Neat.bind ih fun _ => Neat.pure _
    unfold fireReminder
    split
    · exact Neat.throw _
    · refine Neat.bind ((createNotification_tidy ..).weaken ?_) fun _ => ?_
      · rintro k (hk | ⟨id, rfl⟩)
        · cases k <;> first | exact hk | trivial
        · trivial
      · exact Neat.bind (Tidy.update trivial) fun _ => Neat.pure _

theorem fireDueReminders_tidy (customerId : Uuid) :
    Tidy Key.fired (fireDueReminders customerId) := by
  refine Neat.bind (Tidy.utcnow _) fun now => Neat.bind Tidy.select fun db => ?_
  refine Neat.bind (Tidy.scanOrder _) fun order => ?_
  split
  · exact Neat.pure _
  · exact Neat.bind Tidy.select fun tasks => fireReminders_tidy ..

/-- **What every transaction of the system has done when it commits.** -/
theorem serveTasks_commits {D : Hist → Prop}
    (hread : ∀ evs, Moved (fun _ => False) p [] evs → D evs)
    (hhandle : ∀ context command evs, Moved (fun _ => False) p [] (openOf evs) →
      Inside p (fun _ evs' => D (openOf evs')) (handleTask context command) evs)
    (hfire : ∀ customerId evs, openOf evs = [] →
      Inside p (fun _ evs' => D (openOf evs')) (fireDueReminders customerId) evs)
    (hkeep : ∀ rows evs, openOf evs = [] → (∀ v ∈ rows, v.1.1.tasking = false) →
      Inside p (fun _ evs' => D (openOf evs')) (keepHouseAll rows) evs)
    (r : TaskRequest) :
    AtCommits p (fun evs => D (openOf evs)) (fun _ _ => True) (serveTasks r) [] := by
  cases r with
  | workspace who workspaceId command =>
    exact withRequestContext_commits hread fun context evs => hhandle context command evs
  | fireDueReminders =>
    refine AtCommits.bind (B := fun _ _ => True) ?_ fun _ _ _ => trivial
    refine AtCommits.atomically_bind ?_ fun customerIds w evs => ?_
    · refine Inside.run_bind fun db => Inside.call_bind fun order => hread _ ?_
      exact ((Went.refl []).ran trivial).called trivial
    · suffices ∀ evs, openOf evs = [] → AtCommits p (fun evs => D (openOf evs)) (fun _ _ => True)
          (fireForEach customerIds) evs from this _ rfl
      induction customerIds with
      | nil => exact fun _ _ => trivial
      | cons customerId customerIds ih =>
        intro evs hevs
        refine AtCommits.atomically_bind (hfire customerId evs hevs) fun fired w evs => ?_
        exact (ih _ rfl).bind fun _ _ _ => trivial
  | housekeeping rows =>
    refine AtCommits.atomically_bind (hkeep _ [] rfl ?_) fun _ _ _ => trivial
    intro v hv
    obtain ⟨v, -, rfl⟩ := List.mem_map.1 hv
    exact v.2.2

end Doda
