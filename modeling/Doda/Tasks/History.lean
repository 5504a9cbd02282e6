import Doda.AuditChain.Interleaving
import Doda.Tasks.Writes

/-!
# The history of a task

`changeTaskStatus` checks the transition and writes the history row on the task as it
is under lock, whatever status its caller had loaded.  So what a commit does to the
two tables is read off its own events (`HistoryDeed`), and the history rows of a task
are the statuses its commits have given it.

## Main definitions

* `taskHistoryOf`, `statusesOf` — the history rows of a task and the statuses of its
  versions, in the order of the commits.
* `TaskPath` — rows that lead from status to status.
* `HistoryDeed` — the events of a transaction that commits.
* `TaskStep` — what a commit writes to the two tables.
* `Replays` — the history agrees with the task.

## Main results

* `taskStep_of_commits` — each commit takes one of these steps.
* `task_history_replays` — every reachable state.
-/

namespace Doda

open ReadCommitted

/-! ## The history of a store -/

/-- A row of the task's history. -/
def historyRow (taskId : Uuid) (k : Key) (v : Row k) : Option TaskHistory :=
  match k, v with
  | .taskHistory _, (e : TaskHistory) => if e.taskId = taskId then some e else none
  | _, _ => none

/-- The status of a version of the task. -/
def statusRow (taskId : Uuid) (k : Key) (v : Row k) : Option TaskStatus :=
  match k, v with
  | .task id, (t : Task) => if id = taskId then some t.status else none
  | _, _ => none

/-- The history rows of a task, in the order in which they were committed. -/
def taskHistoryOf (taskId : Uuid) (db : Db) : List TaskHistory := logged (historyRow taskId) db

/-- The statuses that commits have given a task, in their order. -/
def statusesOf (taskId : Uuid) (db : Db) : List TaskStatus := logged (statusRow taskId) db

/-- The rows that `list_task_history` selects, in no particular order. -/
def storedHistory (taskId : Uuid) (db : Db) : List TaskHistory := collect (historyRow taskId) db

/-- A task may come to have the status `target`; from `none` where it is born. -/
def MayBecome : Option TaskStatus → TaskStatus → Prop
  | none, target => target = .TODO
  | some source, target => target ∈ allowedTaskTransitions source

/-- Rows that lead on from a status, each from the status before. -/
def TaskPath : Option TaskStatus → List TaskHistory → Prop
  | _, [] => True
  | source, e :: es =>
    e.fromStatus = source ∧ MayBecome source e.toStatus ∧ TaskPath (some e.toStatus) es

/-- The status that a path ends in. -/
def endOf : Option TaskStatus → List TaskHistory → Option TaskStatus
  | source, [] => source
  | _, e :: es => endOf (some e.toStatus) es

theorem endOf_append (source : Option TaskStatus) (es es' : List TaskHistory) :
    endOf source (es ++ es') = endOf (endOf source es) es' := by
  induction es generalizing source with
  | nil => rfl
  | cons e es ih => exact ih _

theorem TaskPath.append {source : Option TaskStatus} {es es' : List TaskHistory}
    (h : TaskPath source es) (h' : TaskPath (endOf source es) es') :
    TaskPath source (es ++ es') := by
  induction es generalizing source with
  | nil => exact h'
  | cons e es ih => exact ⟨h.1, h.2.1, ih h.2.2 h'⟩

theorem TaskPath.of_append {source : Option TaskStatus} {es es' : List TaskHistory}
    (h : TaskPath source (es ++ es')) : TaskPath (endOf source es) es' := by
  induction es generalizing source with
  | nil => exact h
  | cons e es ih => exact ih h.2.2

/-- Nothing leads on from a closed task. -/
theorem TaskPath.eq_nil {status : TaskStatus} (hs : status = .DONE ∨ status = .CANCELLED)
    {es : List TaskHistory} (h : TaskPath (some status) es) : es = [] := by
  cases es with
  | nil => rfl
  | cons e es =>
    obtain ⟨-, hmay, -⟩ := h
    obtain rfl | rfl := hs <;> simp [MayBecome, allowedTaskTransitions] at hmay

/-- A path ends where its last row leads. -/
theorem getLast?_eq_endOf (es : List TaskHistory) :
    es.getLast?.map (·.toStatus) = endOf none es := by
  induction es using List.reverseRecOn with
  | nil => rfl
  | append_singleton es e _ => simp [endOf_append, endOf]

/-! ## What a transaction has done when it commits -/

/-- The tables of tasks and their history. -/
def Key.chronicled : Key → Bool
  | .task _ | .taskHistory _ => true
  | _ => false

/-- The process went on and wrote to other tables only. -/
abbrev Aside (p : ℕ) (evs evs' : Hist) : Prop := Moved (·.chronicled = false) p evs evs'

/-- It added a row to the history of a task. -/
structure Entered (p : ℕ) (taskId : Uuid) (source : Option TaskStatus) (target : TaskStatus)
    (id : Uuid) (entry : TaskHistory) (evs evs' : Hist) : Prop where
  aside : ∃ evs₁, Aside p evs evs₁ ∧ evs' = .ran p (.insert [⟨.taskHistory id, entry⟩]) () :: evs₁
  taskId_eq : entry.taskId = taskId
  from_eq : entry.fromStatus = source
  to_eq : entry.toStatus = target

/-- The events of a transaction that commits. -/
inductive HistoryDeed (p : ℕ) : Hist → Prop
  | aside {evs : Hist} (h : Aside p [] evs) : HistoryDeed p evs
  | created {id entryId : Uuid} {task : Task} {entry : TaskHistory} {evs₁ evs : Hist}
      (h₁ : Aside p [] evs₁) (hid : task.id = id) (hstatus : task.status = .TODO)
      (h₂ : Entered p id none .TODO entryId entry
        (.ran p (.insert [⟨.task id, task⟩]) () :: evs₁) evs) :
    HistoryDeed p evs
  | changed {id entryId : Uuid} {loaded : Task} {locked : Option Task} {target : TaskStatus}
      {entry : TaskHistory} {evs₁ evs₂ evs : Hist} (h₁ : Aside p [] evs₁)
      (hallowed : target ∈ allowedTaskTransitions (locked.getD loaded).status)
      (h₂ : Entered p loaded.id (some (locked.getD loaded).status) target entryId entry
        (.ran p (.update (.task loaded.id) (·.setStatus target)) () ::
          .ran p (.forUpdate (.task loaded.id)) locked ::
          .ran p (.get (.task id)) (some loaded) :: evs₁) evs₂)
      (h₃ : Aside p evs₂ evs) :
    HistoryDeed p evs

section Deeds

variable [Sha256] {p : ℕ}

omit [Sha256] in
theorem Moved.aside {P : Key → Prop} {evs evs' : Hist} (h : Moved P p evs evs')
    (hP : ∀ k, P k → k.chronicled = false) : Aside p evs evs' :=
  Went.mono h (fun _ hq => hq.mono hP) fun _ he => he

omit [Sha256] in
theorem addTaskHistory_inside (customerId taskId : Uuid) (actorId : String)
    (source : Option TaskStatus) (target : TaskStatus) (evs : Hist) :
    Inside p (fun _ evs' => ∃ id entry,
        Entered p taskId source target id entry (openOf evs) (openOf evs'))
      (addTaskHistory customerId taskId actorId source target) evs := by
  refine Inside.call_bind fun id => Inside.call_bind fun createdAt => Inside.run fun _ => ?_
  refine ⟨id, _, ⟨_, ?_, rfl⟩, rfl, rfl, rfl⟩
  exact ((Went.refl _).called trivial).called trivial

omit [Sha256] in
/-- Notifications and their audit events are other tables. -/
theorem Key.not_chronicled_of_notified {k : Key}
    (hk : k.auditing = true ∨ ∃ id, k = .notification id) : k.chronicled = false := by
  obtain hk | ⟨id, rfl⟩ := hk
  · cases k <;> first | rfl | cases hk
  · rfl

omit [Sha256] in
/-- Work on other tables. -/
theorem Tidy.deed {α : Type} {m : Session α} {evs : Hist} (hm : Tidy (·.chronicled = false) m)
    (hevs : Aside p [] (openOf evs)) :
    Inside p (fun _ evs' => HistoryDeed p (openOf evs')) m evs :=
  (hm.inside p evs).mono fun _ _ h => .aside (hevs.trans h.openOf)

omit [Sha256] in
theorem createWorkspaceTask_inside (context : WorkspaceContext) (title : String)
    (dueDate : Option Time) (parentTaskId : Option Uuid) {evs : Hist}
    (hevs : Aside p [] (openOf evs)) :
    Inside p (fun _ evs' => HistoryDeed p (openOf evs'))
      (createWorkspaceTask context title dueDate parentTaskId) evs := by
  have hrole := requireRole_tidy (P := (·.chronicled = false)) context
    (context.role ∈ [.MEMBER, .WORKSPACE_ADMIN]) "create tasks"
  refine hrole.inside_bind fun _ evs₁ h₁ => ?_
  refine Inside.bind (B := fun _ evs' => HistoryDeed p (openOf evs')) ?_ fun _ _ h => h
  have hparent : Tidy (·.chronicled = false)
      (assertParent context.customerId context.workspaceId parentTaskId) :=
    (assertParent_tidy ..).weaken fun _ hk => hk.elim
  refine hparent.inside_bind fun _ evs₂ h₂ => ?_
  refine Inside.call_bind fun id => Inside.call_bind fun createdAt => Inside.run_bind fun _ => ?_
  refine Inside.bind (addTaskHistory_inside _ _ _ _ _ _) fun _ evs₃ h₃ => ?_
  obtain ⟨entryId, entry, h₃⟩ := h₃
  have hbefore : Aside p [] (openOf evs₂) := (hevs.trans h₁.openOf).trans h₂.openOf
  have hbefore := hbefore.called (x := id) (show Call.Minor .uuid4 from trivial)
  have hbefore := hbefore.called (x := createdAt) (show Call.Minor (.utcnow .created) from trivial)
  refine .created hbefore ?_ ?_ h₃
  · rfl
  · rfl

theorem changeWorkspaceTaskStatus_inside (context : WorkspaceContext) (taskId : Uuid)
    (target : TaskStatus) {evs : Hist} (hevs : Aside p [] (openOf evs)) :
    Inside p (fun _ evs' => HistoryDeed p (openOf evs'))
      (changeWorkspaceTaskStatus context taskId target) evs := by
  refine Inside.bind (getTaskToChange_inside _ _ _) fun loaded evs₁ hevs₁ => ?_
  subst hevs₁
  refine Inside.bind (B := fun _ evs' => HistoryDeed p (openOf evs')) ?_ fun _ _ h => h
  refine Inside.run_bind fun locked => ?_
  dsimp only
  split
  · trivial
  rename_i hallowed
  refine Inside.run_bind fun _ => ?_
  refine Inside.bind (addTaskHistory_inside _ _ _ _ _ _) fun _ evs₂ h₂ => ?_
  obtain ⟨entryId, entry, h₂⟩ := h₂
  have hnotify := (notifyDone_tidy (locked.getD loaded) target).weaken fun _ =>
    Key.not_chronicled_of_notified
  refine hnotify.inside_bind fun _ evs₃ h₃ => ?_
  exact .changed hevs (not_not.1 hallowed) h₂ h₃.openOf

omit [Sha256] in
/-- The tables that the reminder job writes are others. -/
theorem Key.not_chronicled_of_fired {k : Key} (hk : k.fired) : k.chronicled = false := by
  cases k <;> first | rfl | cases hk

omit [Sha256] in
theorem Key.not_chronicled_of_not_tasking {k : Key} (hk : k.tasking = false) :
    k.chronicled = false := by
  cases k <;> first | rfl | cases hk

/-- **What each transaction has done when it commits.** -/
theorem serveTasks_historyDeed (r : TaskRequest) :
    AtCommits p (fun evs => HistoryDeed p (openOf evs)) (fun _ _ => True) (serveTasks r) [] := by
  refine serveTasks_commits (fun evs hevs => .aside (hevs.aside fun _ hk => hk.elim)) ?_ ?_ ?_ r
  · intro context command evs hevs
    have hevs : Aside p [] (openOf evs) := hevs.aside fun _ hk => hk.elim
    cases command with
    | create title dueDate parentTaskId => exact createWorkspaceTask_inside _ _ _ _ hevs
    | changeStatus taskId target => exact changeWorkspaceTaskStatus_inside _ _ _ hevs
    | decide taskId variant tradeoff decision reason =>
      refine ((recordWorkspaceTaskDecision_tidy ..).weaken ?_).deed hevs
      rintro _ ⟨id, rfl⟩
      rfl
    | remind taskId remindAt =>
      refine ((requestTaskReminder_tidy ..).weaken ?_).deed hevs
      rintro _ ⟨id, rfl⟩
      rfl
    | confirm taskId reminderId remindAt =>
      refine ((confirmTaskReminder_tidy ..).weaken ?_).deed hevs
      rintro _ ⟨id, rfl⟩
      rfl
    | cancel taskId reminderId =>
      refine ((cancelTaskReminder_tidy ..).weaken ?_).deed hevs
      rintro _ ⟨id, rfl⟩
      rfl
  · intro customerId evs hevs
    refine ((fireDueReminders_tidy customerId).weaken fun _ => Key.not_chronicled_of_fired).deed ?_
    rw [hevs]
    exact .refl []
  · intro rows evs hevs hrows
    refine (keepHouseAll_tidy rows fun v hv => ?_).deed ?_
    · exact Key.not_chronicled_of_not_tasking (hrows v hv)
    · rw [hevs]
      exact .refl []

end Deeds

/-! ## What a commit writes -/

/-- The versions of the two tables. -/
def chronicle (w : Db) : Db := w.filter (·.1.chronicled)

/-- A task that was loaded was gone when it was locked. -/
def Vanished (h : Hist) (loaded : Task) : Prop :=
  ∃ id h₀ h₁, h₀ <:+ h₁ ∧ h₁ <:+ h ∧ row (committed h₀) (.task id) = some loaded ∧
    row (committed h₁) (.task loaded.id) = none

/-- What a commit after the history `h` writes to the two tables, newest first. -/
inductive TaskStep (h : Hist) : Db → Prop
  | idle : TaskStep h []
  | created {id entryId : Uuid} {task : Task} {entry : TaskHistory}
      (hnew : row (committed h) (.task id) = none)
      (hfresh : row (committed h) (.taskHistory entryId) = none)
      (hid : task.id = id) (hstatus : task.status = .TODO) (htask : entry.taskId = id)
      (hfrom : entry.fromStatus = none) (hto : entry.toStatus = .TODO) :
    TaskStep h [⟨.taskHistory entryId, some entry⟩, ⟨.task id, some task⟩]
  | changed {id entryId : Uuid} {loaded task : Task} {locked : Option Task} {target : TaskStatus}
      {entry : TaskHistory} (hrow : row (committed h) (.task id) = some task)
      (hfresh : row (committed h) (.taskHistory entryId) = none)
      (hlocked : locked = some task ∨ loaded.id = id ∧ Vanished h loaded)
      (hallowed : target ∈ allowedTaskTransitions (locked.getD loaded).status)
      (htask : entry.taskId = id) (hfrom : entry.fromStatus = some (locked.getD loaded).status)
      (hto : entry.toStatus = target) :
    TaskStep h [⟨.taskHistory entryId, some entry⟩, ⟨.task id, some (task.setStatus target)⟩]

/-- The history of a task agrees with the task: it holds the rows `es`, in the order in which they
were committed. -/
structure Replays (db : Db) (id : Uuid) (es : List TaskHistory) : Prop where
  stored : (storedHistory id db).Perm es
  path : TaskPath none es
  status : es.getLast?.map (·.toStatus) = (row db (.task id)).map (·.status)
  changes : es.map (·.toStatus) = statusesOf id db
  final : ∀ before e after, es = before ++ e :: after →
    e.toStatus = .DONE ∨ e.toStatus = .CANCELLED → after = []

section Steps

variable {h : Hist} {p : ℕ} {w : Db}

theorem Aside.row_eq {evs : Hist} (ha : Aside p [] evs) {k : Key} (hk : k.chronicled = true)
    (c : Db) : replay c evs k = row c k :=
  ha.replay_eq (by simp [hk]) c

theorem Entered.suffix {taskId entryId : Uuid} {source : Option TaskStatus}
    {target : TaskStatus} {entry : TaskHistory} {evs evs' : Hist}
    (he : Entered p taskId source target entryId entry evs evs') : evs <:+ evs' := by
  obtain ⟨evs₁, ha, rfl⟩ := he.aside
  exact ha.suffix.trans (List.suffix_cons ..)

theorem Entered.chronicle_written {taskId entryId : Uuid} {source : Option TaskStatus}
    {target : TaskStatus} {entry : TaskHistory} {evs evs' : Hist} {c : Db}
    (he : Entered p taskId source target entryId entry evs evs') :
    chronicle (written c evs') =
      ⟨.taskHistory entryId, some entry⟩ :: chronicle (written c evs) := by
  obtain ⟨evs₁, ha, rfl⟩ := he.aside
  rw [written]
  have : (Stmt.insert [⟨.taskHistory entryId, entry⟩] : Stmt Row).wrote (replay c evs₁) () =
      [⟨.taskHistory entryId, some entry⟩] := rfl
  rw [this, List.singleton_append, chronicle, List.filter_cons_of_pos rfl, ha.filter_written]
  rfl

/-- A history row that is added is new. -/
theorem Entered.fresh {taskId entryId : Uuid} {source : Option TaskStatus}
    {target : TaskStatus} {entry : TaskHistory} {evs evs' : Hist} {c : Db}
    (he : Entered p taskId source target entryId entry evs evs') (ht : Told c evs') :
    replay c evs (.taskHistory entryId) = none ∧ Told c evs := by
  obtain ⟨evs₁, ha, rfl⟩ := he.aside
  refine ⟨?_, ha.told ht.2⟩
  rw [← ha.replay_eq (by simp [Key.chronicled])]
  exact ht.1 _ (List.mem_singleton_self _)

variable [Sha256]

/-- **Each commit takes one of these steps.** -/
theorem taskStep_of_commits (hc : Commits serveTasks h p w) : TaskStep h (chronicle w) := by
  obtain ⟨r, hd⟩ := hc.ran serveTasks_historyDeed
  have htold := hc.told
  have hanswered := hc.answered
  rw [hc.writes]
  rw [← opened_eq] at hd
  generalize opened p h = evs at hd htold hanswered
  cases hd with
  | aside ha =>
    have : chronicle (written (committed h) evs) = [] := ha.filter_written _
    rw [this]
    exact .idle
  | @created id entryId task entry evs₁ _ h₁ hid hstatus h₂ =>
    obtain ⟨hfresh, htold⟩ := h₂.fresh htold
    have hnone : chronicle (written (committed h) evs₁) = [] := h₁.filter_written _
    have hinsert : chronicle (written (committed h)
        (.ran p (.insert [⟨.task id, task⟩]) () :: evs₁)) = [⟨.task id, some task⟩] := by
      rw [written]
      exact congrArg (⟨.task id, some task⟩ :: ·) hnone
    rw [h₂.chronicle_written, hinsert]
    refine .created ?_ ?_ hid hstatus h₂.taskId_eq h₂.from_eq h₂.to_eq
    · rw [← h₁.row_eq rfl]
      exact htold.1 _ (List.mem_singleton_self _)
    · rw [← h₁.row_eq rfl]
      rw [replay, Stmt.effect_insert_ne (by simp)] at hfresh
      exact hfresh
  | @changed id entryId loaded locked target entry evs₁ evs₂ _ h₁ hallowed h₂ h₃ =>
    obtain ⟨hfresh, hupdated, hforced, -⟩ := h₂.fresh (h₃.told htold)
    have hrow : replay (committed h) evs₁ (.task loaded.id) =
      row (committed h) (.task loaded.id) := h₁.row_eq rfl _
    have hupdated : (replay (committed h) evs₁ (.task loaded.id)).isSome := hupdated
    have hforced : locked.isSome → replay (committed h) evs₁ (.task loaded.id) = locked := hforced
    rw [hrow] at hupdated hforced
    obtain ⟨task, htask⟩ := Option.isSome_iff_exists.1 hupdated
    have hwritten : chronicle (written (committed h)
        (.ran p (.update (.task loaded.id) (·.setStatus target)) () ::
          .ran p (.forUpdate (.task loaded.id)) locked ::
          .ran p (.get (.task id)) (some loaded) :: evs₁)) =
        [⟨.task loaded.id, some (task.setStatus target)⟩] := by
      have hvalue : replay (committed h) (.ran p (.forUpdate (.task loaded.id)) locked ::
          .ran p (.get (.task id)) (some loaded) :: evs₁) (.task loaded.id) = some task :=
        hrow.trans htask
      rw [written, Stmt.wrote, hvalue]
      exact congrArg (⟨.task loaded.id, some (task.setStatus target)⟩ :: ·) (h₁.filter_written _)
    have hchronicle : chronicle (written (committed h) evs) =
        chronicle (written (committed h) evs₂) :=
      h₃.filter_written _
    rw [hchronicle, h₂.chronicle_written, hwritten]
    refine .changed htask ?_ ?_ hallowed h₂.taskId_eq h₂.from_eq h₂.to_eq
    · rw [← h₁.row_eq rfl]
      rw [replay, Stmt.effect_update_ne (by simp)] at hfresh
      exact hfresh
    · cases hlocked : locked with
      | some found => exact .inl (by rw [← hlocked, ← hforced (by simp [hlocked]), htask])
      | none =>
        refine .inr ⟨rfl, ?_⟩
        subst hlocked
        have hs := ((List.suffix_cons ..).trans h₂.suffix).trans h₃.suffix
        obtain ⟨h₄, hs₄, h₅, hs₅, -, -, hgone, h₆, hs₆, -, -, hloaded, -⟩ := hanswered.of_suffix hs
        refine ⟨id, h₆, h₅, (List.suffix_cons ..).trans hs₆,
          ((List.suffix_cons ..).trans hs₅).trans hs₄, ?_, ?_⟩
        · rw [← h₁.row_eq rfl]
          exact hloaded.symm
        · rw [← h₁.row_eq rfl]
          exact hgone.symm

/-! ## Every history -/

/-- No commit deletes a row of the two tables. -/
theorem keeps_chronicled {k : Key} (hk : k.chronicled = true) : (faithful serveTasks).Keeps k := by
  intro h p w hc hmem
  have hmem : ⟨k, none⟩ ∈ chronicle w := List.mem_filter.2 ⟨hmem, hk⟩
  have hstep := taskStep_of_commits hc
  generalize chronicle w = ws at hmem hstep
  cases hstep with
  | idle => cases hmem
  | created | changed =>
    rcases List.mem_cons.1 hmem with heq | hmem
    · cases heq
    · cases List.mem_singleton.1 hmem

omit [Sha256] in
theorem row_chronicle {k : Key} (hk : k.chronicled = true) (w db : Db) :
    row (chronicle w ++ db) k = row (w ++ db) k :=
  row_filter_append (fun _ => hk) w db

/-- A task is filed under its id. -/
theorem task_filed (hv : (faithful serveTasks).Valid h) {id : Uuid} {task : Task}
    (hrow : row (committed h) (.task id) = some task) : task.id = id := by
  induction h generalizing task with
  | nil => cases hrow
  | cons ev h ih =>
    cases ev with
    | committed p w =>
      have hrow : row (w ++ committed h) (.task id) = some task := hrow
      rw [← row_chronicle rfl] at hrow
      have hstep := taskStep_of_commits hv.1
      generalize chronicle w = ws at hrow hstep
      cases hstep with
      | idle => exact ih hv.2 hrow
      | @created id' _ _ _ _ _ hid =>
        rw [List.cons_append, row_cons_ne _ _ (by simp), List.singleton_append] at hrow
        by_cases hk : id' = id
        · subst hk
          rw [row_cons_self] at hrow
          obtain rfl := Option.some.inj hrow
          exact hid
        · rw [row_cons_ne _ _ (by simpa using hk)] at hrow
          exact ih hv.2 hrow
      | @changed id' _ _ before _ _ _ hbefore =>
        rw [List.cons_append, row_cons_ne _ _ (by simp), List.singleton_append] at hrow
        by_cases hk : id' = id
        · subst hk
          rw [row_cons_self] at hrow
          obtain rfl := Option.some.inj hrow
          have hfiled := ih hv.2 hbefore
          exact hfiled
        · rw [row_cons_ne _ _ (by simpa using hk)] at hrow
          exact ih hv.2 hrow
    | ran | called | failed | rolledBack | crashed => exact ih hv.2 hrow

/-- A task that has been loaded is there to be locked. -/
theorem not_vanished (hv : (faithful serveTasks).Valid h) (loaded : Task) :
    ¬ Vanished h loaded := by
  rintro ⟨id, h₀, h₁, hs₀, hs₁, hloaded, hgone⟩
  have hv₁ := hv.suffix hs₁
  obtain rfl := task_filed (hv₁.suffix hs₀) hloaded
  have hthere := (keeps_chronicled (k := .task loaded.id) rfl).isSome_row hs₀ hv₁
    (by rw [hloaded]; rfl)
  rw [hgone] at hthere
  cases hthere

/-- The history of a task, as far as a store tells. -/
structure Chronicled (db : Db) (id : Uuid) : Prop where
  path : TaskPath none (taskHistoryOf id db)
  changes : (taskHistoryOf id db).map (·.toStatus) = statusesOf id db
  status : endOf none (taskHistoryOf id db) = (row db (.task id)).map (·.status)

omit [Sha256] in
theorem taskHistoryOf_append (id : Uuid) (w db : Db) :
    taskHistoryOf id (w ++ db) = taskHistoryOf id db ++ logged (historyRow id) (chronicle w) := by
  rw [taskHistoryOf, logged_append, chronicle, logged_filter]
  · rfl
  · intro k v hk
    cases k <;> first | rfl | cases hk

omit [Sha256] in
theorem statusesOf_append (id : Uuid) (w db : Db) :
    statusesOf id (w ++ db) = statusesOf id db ++ logged (statusRow id) (chronicle w) := by
  rw [statusesOf, logged_append, chronicle, logged_filter]
  · rfl
  · intro k v hk
    cases k <;> first | rfl | cases hk

omit [Sha256] in
/-- A step that adds a row to the history and gives the task the status it leads to. -/
theorem Chronicled.step {db w : Db} {id id' entryId : Uuid} {task : Task} {entry : TaskHistory}
    (H : Chronicled db id)
    (hw : chronicle w = [⟨.taskHistory entryId, some entry⟩, ⟨.task id', some task⟩])
    (htask : entry.taskId = id') (hto : entry.toStatus = task.status)
    (hfrom : entry.fromStatus = (row db (.task id')).map (·.status))
    (hmay : MayBecome entry.fromStatus entry.toStatus) : Chronicled (w ++ db) id := by
  have hrow : row (w ++ db) (.task id) = row (⟨.task id', some task⟩ :: db) (.task id) := by
    rw [← row_chronicle rfl, hw]
    exact row_cons_ne _ _ (by simp)
  by_cases hid : id' = id
  · subst hid
    have hhistory : taskHistoryOf id' (w ++ db) = taskHistoryOf id' db ++ [entry] := by
      rw [taskHistoryOf_append, hw]
      simp [historyRow, htask]
    have hstatuses : statusesOf id' (w ++ db) = statusesOf id' db ++ [task.status] := by
      rw [statusesOf_append, hw]
      simp [statusRow]
    rw [← H.status] at hfrom
    refine ⟨?_, ?_, ?_⟩
    · rw [hhistory]
      exact H.path.append ⟨hfrom, hfrom ▸ hmay, trivial⟩
    · rw [hhistory, hstatuses, List.map_append, H.changes, List.map_singleton, hto]
    · rw [hhistory, endOf_append, hrow, row_cons_self, endOf, endOf, hto]
      rfl
  · have hhistory : taskHistoryOf id (w ++ db) = taskHistoryOf id db := by
      rw [taskHistoryOf_append, hw]
      simp [historyRow, htask, hid]
    have hstatuses : statusesOf id (w ++ db) = statusesOf id db := by
      rw [statusesOf_append, hw]
      simp [statusRow, hid]
    have hsame : row (w ++ db) (.task id) = row db (.task id) :=
      hrow.trans (row_cons_ne _ _ (by simpa using hid))
    exact ⟨hhistory ▸ H.path, by rw [hhistory, hstatuses, H.changes],
      by rw [hhistory, hsame, H.status]⟩

/-- **Every history keeps the chronicle of every task.** -/
theorem chronicled_of_valid (hv : (faithful serveTasks).Valid h) (id : Uuid) :
    Chronicled (committed h) id := by
  induction h with
  | nil => exact ⟨trivial, rfl, rfl⟩
  | cons ev h ih =>
    have hold := ih hv.2
    cases ev with
    | committed p w =>
      change Chronicled (w ++ committed h) id
      have hstep := taskStep_of_commits hv.1
      generalize hw : chronicle w = ws at hstep
      cases hstep with
      | idle =>
        have hrow : row (w ++ committed h) (.task id) = row (committed h) (.task id) := by
          rw [← row_chronicle rfl, hw]
          rfl
        have hhistory : taskHistoryOf id (w ++ committed h) = taskHistoryOf id (committed h) := by
          rw [taskHistoryOf_append, hw, logged_nil, List.append_nil]
        have hstatuses : statusesOf id (w ++ committed h) = statusesOf id (committed h) := by
          rw [statusesOf_append, hw, logged_nil, List.append_nil]
        exact ⟨hhistory ▸ hold.path, by rw [hhistory, hstatuses, hold.changes],
          by rw [hhistory, hrow, hold.status]⟩
      | created hnew hfresh hid hstatus htask hfrom hto =>
        refine hold.step hw htask (hto.trans hstatus.symm) ?_ ?_
        · rw [hfrom, hnew]
          rfl
        · rw [hfrom, hto]
          rfl
      | changed hrow hfresh hlocked hallowed htask hfrom hto =>
        obtain rfl | ⟨-, hgone⟩ := hlocked
        · refine hold.step hw htask hto ?_ ?_
          · rw [hfrom, hrow]
            rfl
          · rw [hfrom, hto]
            exact hallowed
        · exact absurd hgone (not_vanished hv.2 _)
    | ran | called | failed | rolledBack | crashed => exact hold

/-- A key of the history table. -/
def Key.ofHistory : Key → Bool
  | .taskHistory _ => true
  | _ => false

omit [Sha256] in
theorem filter_keys_chronicle (w : Db) :
    (keys (chronicle w)).filter Key.ofHistory = (keys w).filter Key.ofHistory := by
  have hkeys : keys (chronicle w) = (keys w).filter Key.chronicled := by
    rw [keys, chronicle, keys, List.filter_map]
    rfl
  rw [hkeys, List.filter_filter]
  refine List.filter_congr fun k _ => ?_
  cases k <;> rfl

/-- A history row is written once. -/
theorem nodup_historyKeys (hv : (faithful serveTasks).Valid h) :
    ((keys (committed h)).filter Key.ofHistory).Nodup := by
  induction h with
  | nil => exact List.nodup_nil
  | cons ev h ih =>
    have hold := ih hv.2
    cases ev with
    | committed p w =>
      change ((keys (w ++ committed h)).filter Key.ofHistory).Nodup
      rw [keys_append, List.filter_append, ← filter_keys_chronicle]
      have hstep := taskStep_of_commits hv.1
      have hnew : ∀ {id : Uuid}, row (committed h) (.taskHistory id) = none →
          ([Key.taskHistory id] ++ (keys (committed h)).filter Key.ofHistory).Nodup := by
        intro id hfresh
        refine List.nodup_cons.2 ⟨fun hmem => ?_, hold⟩
        have hthere := isSome_row_of_mem (List.mem_filter.1 hmem).1
          ((keeps_chronicled (k := .taskHistory id) rfl).notMem_committed hv.2)
        rw [hfresh] at hthere
        cases hthere
      generalize chronicle w = ws at hstep
      cases hstep with
      | idle => exact hold
      | created _ hfresh | changed _ hfresh => exact hnew hfresh
    | ran | called | failed | rolledBack | crashed => exact hold

/-- **Task history replays to the task's status.**  In every reachable state the history rows of a
task, in the order of their commits, lead from its birth to its status, one row for each
committed change, and nothing follows a closed task. -/
theorem task_history_replays {s : Sys Row Answer Err TaskReply TaskRequest}
    (hs : Reachable serveTasks s) (id : Uuid) :
    Replays (committed s.hist) id (taskHistoryOf id (committed s.hist)) := by
  have hv := hs.faithful
  have H := chronicled_of_valid hv id
  refine ⟨collect_perm_logged (P := Key.ofHistory) ?_ (nodup_historyKeys hv), H.path, ?_, H.changes,
    fun before e after heq hclosed => ?_⟩
  · intro k v e he
    cases k <;> first | rfl | cases he
  · rw [getLast?_eq_endOf, H.status]
  · have hpath := H.path
    rw [heq] at hpath
    exact hpath.of_append.2.2.eq_nil hclosed

end Steps

/-! ## A sample run -/

section Sample

attribute [local instance] sampleSha

/-- Workspace 2 of customer 7, whose owner is user 3. -/
def ownedRows : List { v : Version Row // v.1.housekeeping = true ∧ v.1.tasking = false } :=
  [⟨⟨.workspaceTenantIndex 2, some (7 : Uuid)⟩, rfl, rfl⟩,
    ⟨⟨.workspace 2, some { customerId := 7, name := "main" }⟩, rfl, rfl⟩,
    ⟨⟨.customerMembership 11, some ⟨7, 3, .CUSTOMER_OWNER⟩⟩, rfl, rfl⟩]

/-- User 3 asks for something in workspace 2. -/
def sampleCommand (command : TaskCommand) : Act Answer TaskRequest :=
  .start (.workspace ⟨3, .AAL1⟩ 2 command)

/-- Two requests load the same new task and both start it. -/
def racingChanges : Option (Sys Row Answer Err TaskReply TaskRequest) :=
  runAll serveTasks {}
    (.start (.housekeeping ownedRows) :: Act.runs 0 sampleAnswer 100 4 ++
      sampleCommand (.create "report" none none) :: Act.runs 1 sampleAnswer 200 11 ++
      sampleCommand (.changeStatus 204 .IN_PROGRESS) :: Act.runs 2 sampleAnswer 300 5 ++
      sampleCommand (.changeStatus 204 .IN_PROGRESS) :: Act.runs 3 sampleAnswer 400 5 ++
      Act.runs 2 sampleAnswer 310 6 ++ Act.runs 3 sampleAnswer 410 2)

/-- Only one of them did. -/
theorem task_history_replays_sample : ∃ s es, racingChanges = some s ∧
    Replays (committed s.hist) 204 es ∧ es.map (·.toStatus) = [.TODO, .IN_PROGRESS] := by
  have hrun : (racingChanges.any fun s =>
      statusesOf 204 (committed s.hist) = [.TODO, .IN_PROGRESS]) = true := by decide +kernel
  obtain ⟨s, hst, hs⟩ := (Option.any_eq_true _ _).1 hrun
  have H := task_history_replays (Reachable.init.runAll hst) 204
  exact ⟨s, _, hst, H, H.changes.trans (of_decide_eq_true hs)⟩

end Sample

end Doda
