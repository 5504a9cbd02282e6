import Doda.Lib.Locks
import Doda.Tasks.History

/-!
# Reminders

Confirming, cancelling and firing a reminder each check the status that was read and
write the new one whatever the row holds by then.  In a run in which no transaction
confirms or fires a reminder that has been cancelled or fired since it was read, a
reminder fires once, only when confirmed, and never once it is cancelled.

## Main definitions

* `Gives` — what a commit makes of a reminder.
* `firings`, `noticesOf` — the commits that fired a reminder and the notifications
  committed for it.
* `ReminderKept` — the reminder fires once and stays cancelled.
* `Overtaken`, `Timely` — the commits that come too late, and the runs without.
* `ReminderDeed` — the events of a transaction that commits.
* `ReminderMove` — what a commit does to one reminder.

## Main results

* `reminder_kept` — every state of a timely run.
* `reminder_not_kept` — a run that confirms a cancelled reminder.
-/

namespace Doda

open ReadCommitted

/-! ## What a history says of a reminder -/

/-- The commit gave the reminder this status. -/
def Gives (w : Db) (id : Uuid) (status : ReminderStatus) : Prop :=
  ∃ r ∈ row w (.reminder id), r.status = status

instance (w : Db) (id : Uuid) (status : ReminderStatus) : Decidable (Gives w id status) :=
  inferInstanceAs (Decidable (∃ r ∈ row w (.reminder id), r.status = status))

/-- The number of commits that fired the reminder. -/
def firings (id : Uuid) : Hist → ℕ
  | [] => 0
  | .committed _ w :: h => (if Gives w id .FIRED then 1 else 0) + firings id h
  | _ :: h => firings id h

/-- The `REMINDER_DUE` notifications among inserted rows. -/
def dueNotices (rows : List (Entry Row)) : List Notification :=
  rows.filterMap fun
    | ⟨.notification _, (n : Notification)⟩ =>
      if n.notificationType = .REMINDER_DUE then some n else none
    | _ => none

/-- The notifications that a transaction inserts for the reminder: those it inserts before it
changes that reminder, and after it has changed the one before. -/
def announced (id : Uuid) : Option Uuid → Hist → List Notification
  | _, [] => []
  | _, .ran _ (.update (.reminder id') _) _ :: evs => announced id (some id') evs
  | current, .ran _ (.insert rows) _ :: evs =>
    (if current = some id then dueNotices rows else []) ++ announced id current evs
  | current, _ :: evs => announced id current evs

/-- The notifications that have been committed for the reminder. -/
def noticesOf (id : Uuid) : Hist → List Notification
  | [] => []
  | .committed p _ :: h => announced id none (opened p h) ++ noticesOf id h
  | _ :: h => noticesOf id h

/-- The request asks to cancel the reminder. -/
def TaskRequest.Cancels (id : Uuid) : TaskRequest → Prop
  | .workspace _ _ (.cancel _ reminderId) => reminderId = id
  | _ => False

/-- Process `p` commits the transaction of its workspace request, which follows that of the
lookup of the tenant. -/
def CommitsRequest (p : ℕ) (w : Db) (h h' : Hist) : Prop :=
  .committed p w :: h <:+ h' ∧ ∃ w₀, Event.committed p w₀ ∈ h

/-- The reminder fires once and only when confirmed, and stays cancelled once it is: by a request
to cancel it, when that has committed, as it has if it returns. -/
structure ReminderKept (s : Sys Row Answer Err TaskReply TaskRequest) (id : Uuid) : Prop where
  firedOnce : firings id s.hist ≤ 1
  noticedOnce : (noticesOf id s.hist).length ≤ 1
  confirmed : Always (fun _ w h => Gives w id .FIRED → Once (fun _ w _ => Gives w id .CONFIRMED) h)
    s.hist
  cancelled : Once (fun _ w _ => Gives w id .CANCELLED) s.hist →
    ∃ r ∈ row (committed s.hist) (.reminder id), r.status = .CANCELLED
  unfired : Always (fun _ w h => Gives w id .FIRED → ¬ Once (fun _ w _ => Gives w id .CANCELLED) h)
    s.hist
  cancels : ∀ p r, s.procs[p]? = some (some r) → r.req.Cancels id → ∀ w h,
    CommitsRequest p w h s.hist → Gives w id .CANCELLED
  concludes : ∀ p r, s.procs[p]? = some (some r) → r.req.Cancels id → ∀ reply,
    r.prog = pure reply → ∃ w h, CommitsRequest p w h s.hist

/-! ## Commits that come too late -/

/-- The reminder of a key. -/
def Key.reminderId : Key → Option Uuid
  | .reminder id => some id
  | _ => none

/-- A reminder has been cancelled or fired. -/
def ReminderStatus.Closed (status : ReminderStatus) : Prop :=
  status = .CANCELLED ∨ status = .FIRED

instance (status : ReminderStatus) : Decidable status.Closed :=
  inferInstanceAs (Decidable (_ ∨ _))

/-- The event has read the reminder, when it had neither been cancelled nor fired. -/
def readsOpen (id : Uuid) : Event Row Answer → Bool
  | .ran _ (.get (.reminder id')) x =>
    id' = id ∧ (x : Option Reminder).any (¬ ·.status.Closed)
  | .ran _ .view db => (row db (.reminder id)).any fun r : Reminder => ¬ r.status.Closed
  | _ => false

/-- Process `p` confirms or fires a reminder that its transaction has read open, and that has been
cancelled or fired since. -/
def Overtaken (p : ℕ) (w : Db) (h : Hist) : Prop :=
  ∃ id ∈ (keys w).filterMap Key.reminderId, (Gives w id .CONFIRMED ∨ Gives w id .FIRED) ∧
    (opened p h).any (readsOpen id) = true ∧
    ∃ r ∈ row (committed h) (.reminder id), r.status.Closed

instance (p : ℕ) (w : Db) (h : Hist) : Decidable (Overtaken p w h) := List.decidableBEx _ _

/-- No commit of the history does. -/
def Timely (h : Hist) : Prop := Always (fun p w h => ¬ Overtaken p w h) h

instance (h : Hist) : Decidable (Timely h) := inferInstanceAs (Decidable (Always _ h))

theorem overtaken_of_gives {p : ℕ} {w : Db} {h : Hist} {id : Uuid} {status : ReminderStatus}
    {r : Reminder} (hg : Gives w id status) (hs : status = .CONFIRMED ∨ status = .FIRED)
    (hread : (opened p h).any (readsOpen id) = true)
    (hrow : row (committed h) (.reminder id) = some r) (hc : r.status.Closed) :
    Overtaken p w h := by
  obtain ⟨r', hr', hstatus⟩ := hg
  refine ⟨id, List.mem_filterMap.2 ⟨_, mem_keys_of_row hr', rfl⟩, ?_, hread, r, hrow, hc⟩
  obtain rfl | rfl := hs
  · exact .inl ⟨r', hr', hstatus⟩
  · exact .inr ⟨r', hr', hstatus⟩

/-! ## What a transaction has done when it commits -/

/-- Not a reminder. -/
def Key.notReminder : Key → Prop
  | .reminder _ => False
  | _ => True

theorem Key.not_notReminder (id : Uuid) : ¬ (Key.reminder id).notReminder := fun h => h

/-- The `REMINDER_DUE` notifications that events insert. -/
def noticesIn : Hist → List Notification
  | [] => []
  | .ran _ (.insert rows) _ :: evs => dueNotices rows ++ noticesIn evs
  | _ :: evs => noticesIn evs

/-- The process went on, wrote no reminder, and inserted one notification at most. -/
structure Notified (p : ℕ) (evs evs' : Hist) : Prop where
  exists_new : ∃ new, evs' = new ++ evs ∧
    (∀ ev ∈ new, ev.Of p (·.WritesOnly Key.notReminder) Call.Minor) ∧ (noticesIn new).length ≤ 1

/-- It fired these reminders, the first one first. -/
inductive Fires (p : ℕ) (now : Time) : List Reminder → Hist → Hist → Prop
  | nil (evs : Hist) : Fires p now [] evs evs
  | cons {reminder : Reminder} {reminders : List Reminder} {evs evs₁ evs₂ : Hist}
      (hnotify : Notified p evs evs₁)
      (hrest : Fires p now reminders
        (.ran p (.update (.reminder reminder.id) (·.fire now)) () :: evs₁) evs₂) :
    Fires p now (reminder :: reminders) evs evs₂

/-- The reminders that a run of the job reads, in the order of its scan. -/
def loadedReminders (db : Db) (order : List Uuid) : List Reminder :=
  order.filterMap fun id => row db (.reminder id)

/-- The events of a transaction that commits. -/
inductive ReminderDeed (p : ℕ) : Hist → Prop
  | aside {evs : Hist} (h : Moved Key.notReminder p [] evs) : ReminderDeed p evs
  | requested {id : Uuid} {reminder : Reminder} {evs : Hist}
      (h : Moved (fun _ => False) p [] evs) (hid : reminder.id = id)
      (hstatus : reminder.status = .PENDING_CONFIRMATION) :
    ReminderDeed p (.ran p (.insert [⟨.reminder id, reminder⟩]) () :: evs)
  | confirmed {id : Uuid} {reminder : Reminder} (now : Time) {evs : Hist}
      (h : Moved (fun _ => False) p [] evs) (hstatus : reminder.status = .PENDING_CONFIRMATION) :
    ReminderDeed p (.ran p (.update (.reminder reminder.id) (·.confirm now)) () ::
      .called p (.utcnow .confirmed) now :: .ran p (.get (.reminder id)) (some reminder) :: evs)
  | cancelled (id : Uuid) {evs : Hist} (h : Moved (fun _ => False) p [] evs) :
    ReminderDeed p (.ran p (.update (.reminder id) Reminder.cancel) () :: evs)
  | fired {customerId : Uuid} {now : Time} {db tasks : Db}
      {order : { order : List Uuid // order.Perm (dueReminders db customerId now) }} {evs : Hist}
      (h : Fires p now (loadedReminders db order.1) [.ran p .view tasks,
        .called p (.scanOrder (dueReminders db customerId now)) order, .ran p .view db,
        .called p (.utcnow .due) now] evs) :
    ReminderDeed p evs

section Deeds

variable {p : ℕ}

theorem noticesIn_append (evs evs' : Hist) :
    noticesIn (evs ++ evs') = noticesIn evs ++ noticesIn evs' := by
  induction evs with
  | nil => rfl
  | cons ev evs ih =>
    rw [List.cons_append]
    cases ev with
    | ran q s x =>
      cases s with
      | insert rows => rw [noticesIn, noticesIn, ih, List.append_assoc]
      | get | view | forUpdate | skipLocked | tryInsert | update | delete => exact ih
    | called | failed | committed | rolledBack | crashed => exact ih

/-- Tables that hold no notification. -/
theorem noticesIn_eq_nil {P : Key → Prop} (hP : ∀ id, ¬ P (.notification id)) {new : Hist}
    (hnew : ∀ ev ∈ new, ev.Of p (·.WritesOnly P) Call.Minor) : noticesIn new = [] := by
  induction new with
  | nil => rfl
  | cons ev new ih =>
    rw [List.forall_mem_cons] at hnew
    cases ev with
    | ran q s x =>
      cases s with
      | insert rows =>
        rw [noticesIn, ih hnew.2, List.append_nil, dueNotices, List.filterMap_eq_nil_iff]
        rintro ⟨k, v⟩ he
        have hk : P k := hnew.1.2 ⟨k, v⟩ he
        cases k with
        | notification id => exact absurd hk (hP id)
        | _ => rfl
      | get | view | forUpdate | skipLocked | tryInsert | update | delete => exact ih hnew.2
    | called | failed | committed | rolledBack | crashed => exact ih hnew.2

/-- A notification that is inserted and audited. -/
theorem Notified.of_inserted {id : Uuid} {n : Notification} {evs evs₁ evs₂ : Hist}
    (h₁ : Moved (fun _ => False) p evs evs₁)
    (h₂ : Moved (·.auditing = true) p
      (.ran p (.insert [⟨.notification id, n⟩]) () :: evs₁) evs₂) : Notified p evs evs₂ := by
  obtain ⟨new₁, rfl, H₁⟩ := h₁
  obtain ⟨new₂, rfl, H₂⟩ := h₂
  refine ⟨new₂ ++ .ran p (.insert [⟨.notification id, n⟩]) () :: new₁, by simp, ?_, ?_⟩
  · refine List.forall_mem_append.2 ⟨fun ev hev => ?_, List.forall_mem_cons.2 ⟨⟨rfl, ?_⟩, ?_⟩⟩
    · refine (H₂ ev hev).mono (fun q hq => hq.mono fun k hk => ?_) fun _ he => he
      cases k <;> trivial
    · intro e he
      obtain rfl := List.mem_singleton.1 he
      trivial
    · exact fun ev hev => (H₁ ev hev).mono (fun q hq => hq.mono fun k hk => hk.elim) fun _ he => he
  · have h₂ : noticesIn new₂ = [] := noticesIn_eq_nil (fun id hk => by cases hk) H₂
    have h₁ : noticesIn new₁ = [] := noticesIn_eq_nil (fun id hk => hk) H₁
    rw [noticesIn_append, h₂, noticesIn, h₁, List.nil_append, List.append_nil]
    exact List.length_filterMap_le ..

theorem Notified.of_moved {evs evs' : Hist} (h : Moved (fun _ => False) p evs evs') :
    Notified p evs evs' := by
  obtain ⟨new, rfl, H⟩ := h
  refine ⟨new, rfl, fun ev hev => ?_, ?_⟩
  · exact (H ev hev).mono (fun q hq => hq.mono fun k hk => hk.elim) fun _ he => he
  · rw [noticesIn_eq_nil (fun _ hk => hk) H]
    exact Nat.zero_le _

variable [Sha256]

theorem createNotification_notified (customerId : Uuid) (workspaceId : Option Uuid)
    (recipientId : String) (type : NotificationType) (referenceType : String) (referenceId : Uuid)
    (safeMetadata : Json) (evs : Hist) :
    Inside p (fun _ evs' => Notified p (openOf evs) (openOf evs'))
      (createNotification customerId workspaceId recipientId type referenceType referenceId
        safeMetadata) evs := by
  have henabled :
      Tidy (fun _ => False) (isNotificationTypeEnabled customerId recipientId type) := by
    unfold isNotificationTypeEnabled
    split
    · exact Neat.pure _
    · exact Neat.bind (Tidy.get _) fun _ => Neat.pure _
  refine henabled.inside_bind fun enabled evs₁ h₁ => ?_
  cases enabled with
  | false => exact .of_moved h₁.openOf
  | true =>
    refine Inside.call_bind fun id => Inside.call_bind fun createdAt => Inside.run_bind fun _ => ?_
    refine Inside.call_bind fun traceId => ?_
    refine (recordAuditEvent_tidy ..).inside_bind fun _ evs₂ h₂ => ?_
    have h₁ := h₁.openOf.called (x := id) (show Call.Minor .uuid4 from trivial)
    have h₁ := h₁.called (x := createdAt) (show Call.Minor (.utcnow .created) from trivial)
    have h₂ : Moved (·.auditing = true) p (.called p .uuid4 traceId ::
      .ran p (.insert [⟨.notification id, _⟩]) () :: openOf _) _ := h₂.openOf
    exact .of_inserted h₁ (h₂.of_called trivial)

theorem fireReminders_inside (customerId : Uuid) (tasks : Db) (now : Time)
    (reminders : List Reminder) (evs : Hist) :
    Inside p (fun _ evs' => Fires p now reminders (openOf evs) (openOf evs'))
      (fireReminders customerId tasks now reminders) evs := by
  induction reminders generalizing evs with
  | nil => exact .nil _
  | cons reminder reminders ih =>
    refine Inside.bind (B := fun _ evs' => ∃ evs₁, Notified p (openOf evs) evs₁ ∧
      openOf evs' = .ran p (.update (.reminder reminder.id) (·.fire now)) () :: evs₁) ?_ ?_
    · unfold fireReminder
      split
      · trivial
      · refine Inside.bind (createNotification_notified _ _ _ _ _ _ _ _) fun _ evs₁ h₁ => ?_
        exact Inside.run_bind fun _ => ⟨_, h₁, rfl⟩
    · rintro _ evs' ⟨evs₁, h₁, hevs'⟩
      refine Inside.bind (ih evs') fun _ evs₂ h₂ => ?_
      exact .cons h₁ (hevs' ▸ h₂)

theorem fireDueReminders_inside (customerId : Uuid) {evs : Hist} (hevs : openOf evs = []) :
    Inside p (fun _ evs' => ReminderDeed p (openOf evs')) (fireDueReminders customerId) evs := by
  refine Inside.call_bind fun now => Inside.run_bind fun db => Inside.call_bind fun order => ?_
  split
  · refine .aside ?_
    rw [openOf_called, openOf_ran, openOf_called, hevs]
    exact (((Went.refl []).called trivial).ran trivial).called trivial
  · rename_i reminder reminders hread
    refine Inside.run_bind fun tasks => ?_
    rw [← hread]
    refine (fireReminders_inside _ _ _ _ _).mono fun _ evs' h => ?_
    rw [openOf_ran, openOf_called, openOf_ran, openOf_called, hevs] at h
    exact .fired h

omit [Sha256] in
/-- Work on other tables. -/
theorem Tidy.reminderDeed {α : Type} {m : Session α} {evs : Hist} (hm : Tidy Key.notReminder m)
    (hevs : Moved (fun _ => False) p [] (openOf evs)) :
    Inside p (fun _ evs' => ReminderDeed p (openOf evs')) m evs :=
  (hm.inside p evs).mono fun _ _ h =>
    .aside ((hevs.mono (fun _ hq => hq.mono fun _ hk => hk.elim) fun _ he => he).trans h.openOf)

omit [Sha256] in
theorem createWorkspaceTask_tidy (context : WorkspaceContext) (title : String)
    (dueDate : Option Time) (parentTaskId : Option Uuid) :
    Tidy Key.notReminder (createWorkspaceTask context title dueDate parentTaskId) := by
  refine Neat.bind (requireRole_tidy ..) fun _ => Neat.bind ?_ fun _ => Neat.pure _
  refine Neat.bind ((assertParent_tidy ..).weaken fun _ hk => hk.elim) fun _ => ?_
  refine Neat.bind Tidy.uuid4 fun id => Neat.bind (Tidy.utcnow _) fun createdAt => ?_
  refine Neat.bind (Tidy.insert trivial) fun _ => Neat.bind ?_ fun _ => Neat.pure _
  refine (addTaskHistory_tidy ..).weaken ?_
  rintro _ ⟨id, rfl⟩
  trivial

theorem changeWorkspaceTaskStatus_tidy (context : WorkspaceContext) (taskId : Uuid)
    (target : TaskStatus) :
    Tidy Key.notReminder (changeWorkspaceTaskStatus context taskId target) := by
  refine Neat.bind (getTaskToChange_tidy ..) fun task => Neat.bind ?_ fun _ => Neat.pure _
  refine Neat.bind (Tidy.getForUpdate _) fun locked => ?_
  dsimp only
  split
  · exact Neat.throw _
  refine Neat.bind (Tidy.update trivial) fun _ => Neat.bind ?_ fun _ => Neat.bind ?_ fun _ =>
    Neat.pure _
  · refine (addTaskHistory_tidy ..).weaken ?_
    rintro _ ⟨id, rfl⟩
    trivial
  · refine (notifyDone_tidy ..).weaken ?_
    rintro k (hk | ⟨id, rfl⟩)
    · cases k <;> trivial
    · trivial

variable {evs : Hist}

omit [Sha256] in
theorem requestTaskReminder_inside (context : WorkspaceContext) (taskId : Uuid) (remindAt : Time)
    (hevs : Moved (fun _ => False) p [] (openOf evs)) :
    Inside p (fun _ evs' => ReminderDeed p (openOf evs'))
      (requestTaskReminder context taskId remindAt) evs := by
  refine (getTaskToChange_tidy (P := fun _ => False) _ _).inside_bind fun task evs₁ h₁ => ?_
  refine Inside.call_bind fun id => Inside.call_bind fun createdAt => Inside.run_bind fun _ => ?_
  have h := (hevs.trans h₁.openOf).called (x := id) (show Call.Minor .uuid4 from trivial)
  have h := h.called (x := createdAt) (show Call.Minor (.utcnow .created) from trivial)
  refine .requested h ?_ ?_
  · rfl
  · rfl

omit [Sha256] in
/-- The reminder that is read last. -/
theorem getOwnedReminder_inside (context : WorkspaceContext) (taskId reminderId : Uuid) :
    Inside p (fun reminder evs' =>
        evs' = .ran p (.get (.reminder reminderId)) (some reminder) :: evs)
      (getOwnedReminder context taskId reminderId) evs := by
  refine Inside.run_bind fun found => ?_
  dsimp only
  cases found with
  | none => trivial
  | some found =>
    by_cases hc : found.customerId = context.customerId
    · rw [Option.filter_some_pos (by simpa using hc)]
      dsimp only
      split
      · trivial
      · rfl
    · rw [Option.filter_some_neg (by simpa using hc)]
      trivial

omit [Sha256] in
theorem confirmTaskReminder_inside (context : WorkspaceContext) (taskId reminderId : Uuid)
    (remindAt : Time) (hevs : Moved (fun _ => False) p [] (openOf evs)) :
    Inside p (fun _ evs' => ReminderDeed p (openOf evs'))
      (confirmTaskReminder context taskId reminderId remindAt) evs := by
  refine (getTaskToChange_tidy (P := fun _ => False) _ _).inside_bind fun task evs₁ h₁ => ?_
  refine Inside.bind (getOwnedReminder_inside context taskId reminderId) ?_
  rintro reminder _ rfl
  unfold confirmReminder
  split
  · trivial
  rename_i hstatus
  split
  · trivial
  · refine Inside.call_bind fun now => Inside.run_bind fun _ => ?_
    exact .confirmed now (hevs.trans h₁.openOf) (not_not.1 hstatus)

omit [Sha256] in
theorem cancelTaskReminder_inside (context : WorkspaceContext) (taskId reminderId : Uuid)
    (hevs : Moved (fun _ => False) p [] (openOf evs)) :
    Inside p (fun _ evs' => ReminderDeed p (openOf evs'))
      (cancelTaskReminder context taskId reminderId) evs := by
  refine (getTaskToChange_tidy (P := fun _ => False) _ _).inside_bind fun task evs₁ h₁ => ?_
  refine (getOwnedReminder_tidy (P := fun _ => False) _ _ _).inside_bind fun reminder evs₂ h₂ => ?_
  unfold cancelReminder
  split
  · trivial
  · exact Inside.run_bind fun _ => .cancelled _ ((hevs.trans h₁.openOf).trans h₂.openOf)

/-- **What each transaction has done when it commits.** -/
theorem serveTasks_reminderDeed (r : TaskRequest) :
    AtCommits p (fun evs => ReminderDeed p (openOf evs)) (fun _ _ => True) (serveTasks r) [] := by
  refine serveTasks_commits (fun evs hevs => ?_) ?_ (fun _ _ => fireDueReminders_inside _) ?_ r
  · exact .aside (hevs.mono (fun _ hq => hq.mono fun _ hk => hk.elim) fun _ he => he)
  · intro context command evs hevs
    cases command with
    | create title dueDate parentTaskId =>
      exact (createWorkspaceTask_tidy ..).reminderDeed hevs
    | changeStatus taskId target => exact (changeWorkspaceTaskStatus_tidy ..).reminderDeed hevs
    | decide taskId variant tradeoff decision reason =>
      refine ((recordWorkspaceTaskDecision_tidy ..).weaken ?_).reminderDeed hevs
      rintro _ ⟨id, rfl⟩
      trivial
    | remind taskId remindAt => exact requestTaskReminder_inside _ _ _ hevs
    | confirm taskId reminderId remindAt => exact confirmTaskReminder_inside _ _ _ _ hevs
    | cancel taskId reminderId => exact cancelTaskReminder_inside _ _ _ hevs
  · intro rows evs hevs hrows
    refine (keepHouseAll_tidy rows fun v hv => ?_).reminderDeed ?_
    · have := hrows v hv
      cases hk : v.1.1 <;> first | trivial | simp [hk, Key.tasking] at this
    · rw [hevs]
      exact .refl []

end Deeds

/-! ## What a commit does to a reminder -/

/-- What a commit of process `p` after the history `h` writes to the reminder. -/
inductive ReminderMove (p : ℕ) (h : Hist) (w : Db) (id : Uuid) : Prop
  | kept (hrow : row w (.reminder id) = none)
      (hsame : row (w ++ committed h) (.reminder id) = row (committed h) (.reminder id))
  | requested (r : Reminder) (hnew : row (committed h) (.reminder id) = none)
      (hrow : row w (.reminder id) = some r) (hstatus : r.status = .PENDING_CONFIRMATION)
  | confirmed (r : Reminder) (now : Time) (hold : row (committed h) (.reminder id) = some r)
      (hrow : row w (.reminder id) = some (r.confirm now))
      (hseen : (opened p h).any (readsOpen id) = true)
  | cancelled (r : Reminder) (hold : row (committed h) (.reminder id) = some r)
      (hrow : row w (.reminder id) = some r.cancel)
  | fired (r : Reminder) (now : Time) (hold : row (committed h) (.reminder id) = some r)
      (hrow : row w (.reminder id) = some (r.fire now))
      (hseen : (opened p h).any (readsOpen id) = true)
      (hread : ∃ h₀ r₀, h₀ <:+ h ∧ row (committed h₀) (.reminder id) = some r₀ ∧
        r₀.status = .CONFIRMED)

section Moves

variable {h : Hist} {p : ℕ} {w c : Db} {id : Uuid} {evs : Hist}

theorem Moved.written_eq_nil (hm : Moved (fun _ => False) p [] evs) (c : Db) :
    written c evs = [] := by
  obtain ⟨ws, hws, hP⟩ := Went.written_eq hm c
  rw [hws]
  cases ws with
  | nil => rfl
  | cons v ws => exact (hP v.1 (List.mem_cons_self ..)).elim

theorem Moved.replay_eq_row (hm : Moved (fun _ => False) p [] evs) (c : Db) (k : Key) :
    replay c evs k = row c k :=
  Went.replay_eq hm (fun h => h) c

/-- What firing reminders makes of a reminder. -/
theorem Fires.replay_eq {now : Time} {reminders : List Reminder} {evs' : Hist}
    (hf : Fires p now reminders evs evs') (c : Db) (id : Uuid) :
    replay c evs' (.reminder id) = if id ∈ reminders.map (·.id) then
      (replay c evs (.reminder id)).map (·.fire now) else replay c evs (.reminder id) := by
  induction hf with
  | nil evs => simp
  | @cons reminder reminders evs evs₁ evs₂ hnotify hrest ih =>
    obtain ⟨new, rfl, hnew, -⟩ := hnotify.exists_new
    have hsame : replay c (new ++ evs) (.reminder id) = replay c evs (.reminder id) :=
      Went.replay_eq ⟨new, rfl, hnew⟩ (Key.not_notReminder id) c
    rw [ih, replay]
    by_cases hid : reminder.id = id
    · subst hid
      rw [Stmt.effect_update_self, hsame, List.map_cons, if_pos (List.mem_cons_self ..)]
      split
      · cases replay c evs (.reminder reminder.id) <;> rfl
      · rfl
    · rw [Stmt.effect_update_ne (by simpa using hid), hsame, List.map_cons]
      simp [Ne.symm hid]

/-- Each of them was there. -/
theorem Fires.told {now : Time} {reminders : List Reminder} {evs' : Hist}
    (hf : Fires p now reminders evs evs') (ht : Told c evs') : Told c evs ∧
      ∀ id ∈ reminders.map (·.id), (replay c evs (.reminder id)).isSome := by
  induction hf with
  | nil evs => exact ⟨ht, by simp⟩
  | @cons reminder reminders evs evs₁ evs₂ hnotify hrest ih =>
    obtain ⟨new, rfl, hnew, -⟩ := hnotify.exists_new
    have hmoved : Moved Key.notReminder p evs (new ++ evs) := ⟨new, rfl, hnew⟩
    have hsame := fun id => Went.replay_eq hmoved (Key.not_notReminder id) c
    obtain ⟨⟨hupdated, htold⟩, hthere⟩ := ih ht
    refine ⟨hmoved.told htold, ?_⟩
    rw [List.map_cons, List.forall_mem_cons]
    have hfirst : (replay c evs (.reminder reminder.id)).isSome := hsame _ ▸ hupdated
    refine ⟨hfirst, fun id hid => ?_⟩
    have hthere := hthere id hid
    rw [replay] at hthere
    by_cases heq : reminder.id = id
    · exact heq ▸ hfirst
    · rwa [Stmt.effect_update_ne (by simpa using heq), hsame] at hthere

/-- The versions it writes. -/
theorem Fires.row_written {now : Time} {reminders : List Reminder} {evs' : Hist}
    (hf : Fires p now reminders evs evs') (ht : Told c evs') (id : Uuid) :
    row (written c evs') (.reminder id) = if id ∈ reminders.map (·.id) then
      (replay c evs (.reminder id)).map (·.fire now) else row (written c evs) (.reminder id) := by
  induction hf with
  | nil evs => simp
  | @cons reminder reminders evs evs₁ evs₂ hnotify hrest ih =>
    obtain ⟨new, rfl, hnew, -⟩ := hnotify.exists_new
    have hmoved : Moved Key.notReminder p evs (new ++ evs) := ⟨new, rfl, hnew⟩
    have hsame := fun id => Went.replay_eq hmoved (Key.not_notReminder id) c
    obtain ⟨⟨hupdated, -⟩, -⟩ := hrest.told ht
    obtain ⟨v, hv⟩ := Option.isSome_iff_exists.1 hupdated
    obtain ⟨ws, hws, hP⟩ := Went.written_eq hmoved c
    have hwritten : row (written c (new ++ evs)) (.reminder id) =
        row (written c evs) (.reminder id) := by
      rw [hws]
      exact row_append_of_notMem _ fun hmem => Key.not_notReminder id (hP _ hmem)
    rw [ih ht, written_update hv, replay]
    by_cases hid : reminder.id = id
    · subst hid
      rw [Stmt.effect_update_self, row_cons_self, List.map_cons, if_pos (List.mem_cons_self ..),
        ← hsame, hv]
      split <;> rfl
    · have hne : Key.reminder reminder.id ≠ .reminder id := by simpa using hid
      rw [Stmt.effect_update_ne hne, row_cons_ne _ _ hne, hsame, hwritten, List.map_cons]
      simp [Ne.symm hid]

theorem Fires.suffix {now : Time} {reminders : List Reminder} {evs' : Hist}
    (hf : Fires p now reminders evs evs') : evs <:+ evs' := by
  induction hf with
  | nil evs => exact List.suffix_refl _
  | cons hnotify hrest ih =>
    obtain ⟨new, rfl, -, -⟩ := hnotify.exists_new
    exact ((List.suffix_append ..).trans (List.suffix_cons ..)).trans ih

/-- A reminder that the job reads is confirmed and due. -/
theorem mem_dueReminders {db : Db} {customerId : Uuid} {now : Time} :
    id ∈ dueReminders db customerId now ↔ ∃ r, row db (.reminder id) = some r ∧
      r.customerId = customerId ∧ r.status = .CONFIRMED ∧ r.remindAt ≤ now := by
  rw [dueReminders, mem_collect]
  constructor
  · rintro ⟨k, v, hv, hk⟩
    cases k with
    | reminder i =>
      dsimp only at hk
      split at hk
      · rename_i hr
        obtain rfl := Option.some.inj hk
        exact ⟨v, hv, hr⟩
      · cases hk
    | _ => cases hk
  · rintro ⟨r, hr, hdue⟩
    exact ⟨.reminder id, r, hr, if_pos hdue⟩

/-- A scan meets a row once. -/
theorem nodup_dueReminders (db : Db) (customerId : Uuid) (now : Time) :
    (dueReminders db customerId now).Nodup := by
  refine List.Nodup.of_map Key.reminder (nodup_collect_map fun k v a hv ha => ?_)
  cases k with
  | reminder i =>
    dsimp only at ha
    split at ha
    · rw [Option.some.inj ha]
    · cases ha
  | _ => cases ha

/-- What a confirmation has read besides. -/
theorem Moved.confirming (h : Moved (fun _ => False) p [] evs) (i : Uuid) (reminder : Reminder)
    (now : Time) : Moved (fun _ => False) p []
      (.called p (.utcnow .confirmed) now :: .ran p (.get (.reminder i)) (some reminder) :: evs) :=
  (Went.ran (q := .get (.reminder i)) h trivial).called
    (show Call.Minor (.utcnow .confirmed) from trivial)

/-- A reminder that is changed keeps its id. -/
theorem filed_of_update {id' : Uuid} {f : Reminder → Reminder} (hf : ∀ r, (f r).id = r.id)
    (h : Moved (fun _ => False) p [] evs)
    (hc : ∀ id r, row c (.reminder id) = some r → r.id = id) {r : Reminder}
    (hr : replay c (.ran p (.update (.reminder id') f) () :: evs) (.reminder id) = some r) :
    r.id = id := by
  rw [replay, h.replay_eq_row] at hr
  by_cases hk : id' = id
  · subst hk
    rw [Stmt.effect_update_self, Option.map_eq_some_iff] at hr
    obtain ⟨r, hr, rfl⟩ := hr
    exact (hf r).trans (hc id' r hr)
  · rw [Stmt.effect_update_ne (by simpa using hk)] at hr
    exact hc id r hr

/-- Each reminder keeps its id. -/
theorem ReminderDeed.filed (hd : ReminderDeed p evs)
    (hc : ∀ id r, row c (.reminder id) = some r → r.id = id) {r : Reminder}
    (hr : replay c evs (.reminder id) = some r) : r.id = id := by
  cases hd with
  | aside h =>
    rw [Went.replay_eq h (Key.not_notReminder id)] at hr
    exact hc id r hr
  | @requested id' reminder evs h hid =>
    rw [replay, h.replay_eq_row] at hr
    by_cases hk : id' = id
    · subst hk
      rw [Stmt.effect_insert_self] at hr
      exact Option.some.inj hr ▸ hid
    · rw [Stmt.effect_insert_ne (by simpa using hk)] at hr
      exact hc id r hr
  | confirmed now h =>
    exact filed_of_update (f := (·.confirm now)) (fun _ => rfl) (h.confirming ..) hc hr
  | cancelled id' h => exact filed_of_update (f := Reminder.cancel) (fun _ => rfl) h hc hr
  | fired h =>
    rw [h.replay_eq] at hr
    split at hr
    · obtain ⟨r', hr', rfl⟩ := Option.map_eq_some_iff.1 hr
      exact hc id r' hr'
    · exact hc id r hr

variable [Sha256]

omit [Sha256] in
theorem ReminderMove.of_notMem (hid : .reminder id ∉ keys w) : ReminderMove p h w id :=
  .kept (row_eq_none_of_notMem hid) (row_append_of_notMem _ hid)

/-- What the transaction that commits has done. -/
theorem Commits.reminderDeed (hc : Commits serveTasks h p w) : ReminderDeed p (opened p h) := by
  obtain ⟨r, hd⟩ := hc.ran serveTasks_reminderDeed
  exact hd

/-- A reminder is filed under its id. -/
theorem reminder_filed (hv : (faithful serveTasks).Valid h) {r : Reminder}
    (hrow : row (committed h) (.reminder id) = some r) : r.id = id := by
  induction h generalizing id r with
  | nil => cases hrow
  | cons ev h ih =>
    cases ev with
    | committed p w =>
      have hc : Commits serveTasks h p w := hv.1
      have hrow : row (w ++ committed h) (.reminder id) = some r := hrow
      rw [hc.rows] at hrow
      exact (Commits.reminderDeed hc).filed (fun id r => ih hv.2) hrow
    | ran | called | failed | rolledBack | crashed => exact ih hv.2 hrow

/-- The reminder that a transaction has read first. -/
theorem filed_of_answered (hv : (faithful serveTasks).Valid h) {reminder : Reminder}
    (hm : Moved (fun _ => False) p [] evs)
    (ha : Answered h (.ran p (.get (.reminder id)) (some reminder) :: evs)) : reminder.id = id := by
  obtain ⟨h₁, hs₁, -, -, hright, -⟩ := ha
  have hright : some reminder = replay (committed h₁) evs (.reminder id) := hright
  rw [hm.replay_eq_row] at hright
  exact reminder_filed (hv.suffix ((List.suffix_cons ..).trans hs₁)) hright.symm

/-- The reminders that a run of the job has read. -/
theorem confirmed_of_loaded (hv : (faithful serveTasks).Valid h) {customerId : Uuid} {now : Time}
    {db tasks : Db} {order : { order : List Uuid // order.Perm (dueReminders db customerId now) }}
    (ha : Answered h [.ran p .view tasks,
      .called p (.scanOrder (dueReminders db customerId now)) order, .ran p .view db,
      .called p (.utcnow .due) now]) :
    ((loadedReminders db order.1).map (·.id)).Nodup ∧
    ∀ id ∈ (loadedReminders db order.1).map (·.id), ∃ h₀ r₀, h₀ <:+ h ∧
      row (committed h₀) (.reminder id) = some r₀ ∧ row db (.reminder id) = some r₀ ∧
      r₀.status = .CONFIRMED := by
  obtain ⟨h₁, hs₁, -, -, -, h₂, hs₂, -, -, hview, -⟩ := ha
  have hs : h₂ <:+ h := ((List.suffix_cons ..).trans hs₂).trans ((List.suffix_cons ..).trans hs₁)
  have hfiled : ∀ {id r}, row db (.reminder id) = some r → r.id = id := fun hr =>
    reminder_filed (hv.suffix hs) ((hview _).symm.trans hr)
  have hids : ∀ ids : List Uuid, (∀ id ∈ ids, (row db (.reminder id)).isSome) →
      (loadedReminders db ids).map (·.id) = ids := by
    intro ids hids
    induction ids with
    | nil => rfl
    | cons id ids ih =>
      rw [List.forall_mem_cons] at hids
      obtain ⟨r, hr⟩ := Option.isSome_iff_exists.1 hids.1
      rw [loadedReminders, List.filterMap_cons, hr, List.map_cons, hfiled hr]
      exact congrArg (id :: ·) (ih hids.2)
  rw [hids]
  · refine ⟨order.2.nodup_iff.2 (nodup_dueReminders ..), fun id hid => ?_⟩
    obtain ⟨r, hr, -, hstatus, -⟩ := mem_dueReminders.1 (order.2.mem_iff.1 hid)
    exact ⟨h₂, r, hs, (hview _).symm.trans hr, hr, hstatus⟩
  · intro id hid
    obtain ⟨r, hr, -⟩ := mem_dueReminders.1 (order.2.mem_iff.1 hid)
    rw [hr]
    rfl

/-- **Each commit does one of these to a reminder.** -/
theorem reminderMove_of_commits (hv : (faithful serveTasks).Valid h)
    (hc : Commits serveTasks h p w) (id : Uuid) : ReminderMove p h w id := by
  have hd := Commits.reminderDeed hc
  have hwrites := hc.writes
  have htold := hc.told
  have hanswered := hc.answered
  have hrows := hc.rows (.reminder id)
  subst hwrites
  generalize hevs : opened p h = evs at hd htold hanswered hrows
  cases hd with
  | aside hm =>
    obtain ⟨ws, hws, hP⟩ := Went.written_eq hm (committed h)
    rw [hws]
    refine .of_notMem fun hmem => Key.not_notReminder id (hP _ ?_)
    simpa [written] using hmem
  | @requested id' reminder evs hm hid hstatus =>
    have hwritten : written (committed h) (.ran p (.insert [⟨.reminder id', reminder⟩]) () :: evs) =
        [⟨.reminder id', some reminder⟩] := by
      rw [written, hm.written_eq_nil]
      rfl
    rw [hwritten]
    by_cases hk : id' = id
    · subst hk
      refine .requested reminder ?_ (row_cons_self ..) hstatus
      rw [← hm.replay_eq_row]
      exact htold.1 _ (List.mem_singleton_self _)
    · exact .of_notMem (by simpa using Ne.symm hk)
  | @confirmed i reminder now evs hm hstatus =>
    obtain ⟨r, hr⟩ := Option.isSome_iff_exists.1 htold.1
    rw [written_update hr, (hm.confirming ..).written_eq_nil]
    by_cases hk : reminder.id = id
    · obtain ⟨h₁, hs₁, ha⟩ := hanswered.of_suffix
        ((List.suffix_cons (.called p (.utcnow .confirmed) now) _).trans (List.suffix_cons ..))
      obtain rfl : reminder.id = i := filed_of_answered (hv.suffix hs₁) hm ha
      subst hk
      refine .confirmed r now ((hm.confirming ..).replay_eq_row .. ▸ hr) (row_cons_self ..)
        ?_
      simp [hevs, readsOpen, hstatus, ReminderStatus.Closed]
    · exact .of_notMem (by simpa using Ne.symm hk)
  | @cancelled id' evs hm =>
    obtain ⟨r, hr⟩ := Option.isSome_iff_exists.1 htold.1
    rw [written_update hr, hm.written_eq_nil]
    by_cases hk : id' = id
    · subst hk
      exact .cancelled r (hm.replay_eq_row .. ▸ hr) (row_cons_self ..)
    · exact .of_notMem (by simpa using Ne.symm hk)
  | @fired _ now _ _ _ _ hf =>
    obtain ⟨h₁, hs₁, ha⟩ := hanswered.of_suffix hf.suffix
    have hrow := hf.row_written htold id
    obtain ⟨-, hread⟩ := confirmed_of_loaded (hv.suffix hs₁) ha
    split at hrow
    · rename_i hid
      obtain ⟨r, hr⟩ := Option.isSome_iff_exists.1 ((hf.told htold).2 id hid)
      obtain ⟨h₀, r₀, hs₀, hread, hview, hstatus⟩ := hread id hid
      refine .fired r now hr (hrow.trans (congrArg _ hr)) ?_
        ⟨h₀, r₀, hs₀.trans hs₁, hread, hstatus⟩
      obtain ⟨new, hnew⟩ := hf.suffix
      rw [hevs, ← hnew]
      simp [readsOpen, hview, hstatus, ReminderStatus.Closed]
    · rename_i hid
      refine .kept hrow ?_
      rw [hrows, hf.replay_eq, if_neg hid]
      rfl

/-! ### Notifications -/

omit [Sha256] in
/-- What is inserted after a change belongs to the next one. -/
theorem announced_append {new : Hist}
    (hnew : ∀ ev ∈ new, ev.Of p (·.WritesOnly Key.notReminder) Call.Minor) (id : Uuid)
    (current : Option Uuid) (evs : Hist) : announced id current (new ++ evs) =
      (if current = some id then noticesIn new else []) ++ announced id current evs := by
  induction new with
  | nil => simp [noticesIn]
  | cons ev new ih =>
    rw [List.forall_mem_cons] at hnew
    have ih := ih hnew.2
    rw [List.cons_append]
    cases ev with
    | ran q st x =>
      cases st with
      | insert rows =>
        rw [announced, ih, noticesIn]
        split <;> simp
      | update k f =>
        cases k with
        | reminder i => exact (hnew.1.2 : False).elim
        | _ => exact ih
      | get | view | forUpdate | skipLocked | tryInsert | delete => exact ih
    | called | failed | committed | rolledBack | crashed => exact ih

omit [Sha256] in
theorem announced_of_read (hm : Moved (fun _ => False) p [] evs) (id : Uuid)
    (current : Option Uuid) : announced id current evs = [] := by
  obtain ⟨new, rfl, hnew⟩ := hm
  rw [announced_append (p := p) fun ev hev => (hnew ev hev).mono
    (fun _ hq => hq.mono fun _ hk => hk.elim) fun _ he => he]
  rw [noticesIn_eq_nil (fun _ hk => hk) hnew]
  split <;> rfl

omit [Sha256] in
/-- At most one for each time a reminder is fired. -/
theorem Fires.length_announced {now : Time} {reminders : List Reminder} {evs' : Hist}
    (hf : Fires p now reminders evs evs') {id : Uuid} {n : ℕ}
    (hn : ∀ current, (announced id current evs).length ≤ n) (current : Option Uuid) :
    (announced id current evs').length ≤ (reminders.map (·.id)).count id + n := by
  induction hf generalizing n with
  | nil evs => simpa using hn current
  | @cons reminder reminders evs evs₁ evs₂ hnotify hrest ih =>
    obtain ⟨new, rfl, hnew, hone⟩ := hnotify.exists_new
    have hbase : ∀ current, (announced id current
        (.ran p (.update (.reminder reminder.id) (·.fire now)) () :: (new ++ evs))).length ≤
          (if reminder.id = id then 1 else 0) + n := by
      intro current
      rw [announced, announced_append hnew, List.length_append]
      refine Nat.add_le_add ?_ (hn _)
      by_cases hid : reminder.id = id
      · simpa [hid] using hone
      · simp [hid]
    have hall := ih hbase
    rw [List.map_cons, List.count_cons]
    simp only [beq_iff_eq]
    omega

/-- **A commit notifies of a reminder once, and only if it fires it.** -/
theorem length_announced_le (hv : (faithful serveTasks).Valid h) (hc : Commits serveTasks h p w)
    (id : Uuid) :
    (announced id none (opened p h)).length ≤ if Gives w id .FIRED then 1 else 0 := by
  have hd := Commits.reminderDeed hc
  have hwrites := hc.writes
  have htold := hc.told
  have hanswered := hc.answered
  subst hwrites
  generalize opened p h = evs at hd htold hanswered
  have hzero : ∀ {l : List Notification} {n : ℕ}, l = [] → l.length ≤ n := fun h => by simp [h]
  cases hd with
  | aside hm =>
    obtain ⟨new, rfl, hnew⟩ := hm
    refine hzero ?_
    rw [announced_append hnew]
    rfl
  | requested hm => exact hzero (announced_of_read hm id none)
  | @confirmed i reminder now evs hm =>
    exact hzero (announced_of_read (hm.confirming i reminder now) id (some reminder.id))
  | cancelled id' hm => exact hzero (announced_of_read hm id (some id'))
  | @fired _ now _ _ _ _ hf =>
    obtain ⟨h₁, hs₁, ha⟩ := hanswered.of_suffix hf.suffix
    obtain ⟨hnodup, -⟩ := confirmed_of_loaded (hv.suffix hs₁) ha
    have hcount : (announced id none _).length ≤ _ :=
      hf.length_announced (fun _ => Nat.le_refl 0) none
    have hrow := hf.row_written htold id
    split at hrow
    · rename_i hid
      obtain ⟨r, hr⟩ := Option.isSome_iff_exists.1 ((hf.told htold).2 id hid)
      rw [if_pos ⟨r.fire now, hrow.trans (congrArg _ hr), rfl⟩]
      exact hcount.trans (List.nodup_iff_count_le_one.1 hnodup id)
    · rename_i hid
      rw [List.count_eq_zero.2 hid] at hcount
      exact hcount.trans (Nat.zero_le _)

/-! ### Timely runs -/

omit [Sha256] in
theorem gives_iff {r : Reminder} (hrow : row w (.reminder id) = some r) (status : ReminderStatus) :
    Gives w id status ↔ r.status = status := by
  simp [Gives, hrow]

omit [Sha256] in
theorem not_gives (hrow : row w (.reminder id) = none) (status : ReminderStatus) :
    ¬ Gives w id status := by
  simp [Gives, hrow]

omit [Sha256] in
theorem row_append_of_row {r : Reminder} (hrow : row w (.reminder id) = some r) (db : Db) :
    row (w ++ db) (.reminder id) = some r :=
  (row_append_of_mem _ (mem_keys_of_row hrow)).trans hrow

/-- A confirmed reminder has been confirmed. -/
theorem confirmed_of_row (hv : (faithful serveTasks).Valid h)
    (hrow : ∃ r ∈ row (committed h) (.reminder id), r.status = .CONFIRMED) :
    Once (fun _ w _ => Gives w id .CONFIRMED) h := by
  induction h with
  | nil =>
    obtain ⟨r, hr, -⟩ := hrow
    cases hr
  | cons ev h ih =>
    have ih := ih hv.2
    cases ev with
    | committed p w =>
      obtain ⟨r, hr, hstatus⟩ := hrow
      have hr : row (w ++ committed h) (.reminder id) = some r := hr
      have hmove := reminderMove_of_commits hv.2 hv.1 id
      by_cases hw : row w (.reminder id) = none
      · cases hmove with
        | kept _ hsame => exact .inr (ih ⟨r, hsame ▸ hr, hstatus⟩)
        | requested _ _ hrow | confirmed _ _ _ hrow | cancelled _ _ hrow | fired _ _ _ hrow =>
          rw [hw] at hrow
          cases hrow
      · obtain ⟨r', hr'⟩ := Option.ne_none_iff_exists'.1 hw
        rw [row_append_of_row hr'] at hr
        obtain rfl := Option.some.inj hr
        exact .inl ((gives_iff hr' _).2 hstatus)
    | ran | called | failed | rolledBack | crashed => exact ih hrow

/-- Notifications are committed with firings. -/
theorem length_noticesOf_le (hv : (faithful serveTasks).Valid h) (id : Uuid) :
    (noticesOf id h).length ≤ firings id h := by
  induction h with
  | nil => exact Nat.le_refl 0
  | cons ev h ih =>
    cases ev with
    | committed p w =>
      rw [noticesOf, List.length_append, firings]
      exact Nat.add_le_add (length_announced_le hv.2 hv.1 id) (ih hv.2)
    | ran | called | failed | rolledBack | crashed => exact ih hv.2

/-- What a reminder's row owes its history, in a timely run. -/
structure Settled (h : Hist) (id : Uuid) : Prop where
  once : firings id h ≤ 1
  closed : firings id h ≠ 0 → ∃ r ∈ row (committed h) (.reminder id), r.status.Closed
  cancelled : Once (fun _ w _ => Gives w id .CANCELLED) h →
    ∃ r ∈ row (committed h) (.reminder id), r.status = .CANCELLED
  confirmed :
    Always (fun _ w h => Gives w id .FIRED → Once (fun _ w _ => Gives w id .CONFIRMED) h) h
  unfired :
    Always (fun _ w h => Gives w id .FIRED → ¬ Once (fun _ w _ => Gives w id .CANCELLED) h) h

omit [Sha256] in
/-- An open reminder has neither fired nor been cancelled. -/
theorem Settled.of_open (H : Settled h id) {r : Reminder}
    (hrow : row (committed h) (.reminder id) = some r) (hr : ¬ r.status.Closed) :
    firings id h = 0 ∧ ¬ Once (fun _ w _ => Gives w id .CANCELLED) h := by
  constructor
  · by_contra hfired
    obtain ⟨r', hr', hclosed⟩ := H.closed hfired
    rw [hrow] at hr'
    cases hr'
    exact hr hclosed
  · intro hcancelled
    obtain ⟨r', hr', hstatus⟩ := H.cancelled hcancelled
    rw [hrow] at hr'
    cases hr'
    exact hr (.inl hstatus)

/-- **A timely commit leaves every reminder settled.** -/
theorem Settled.commit (H : Settled h id) (hv : (faithful serveTasks).Valid h)
    (hc : Commits serveTasks h p w) (ht : ¬ Overtaken p w h) :
    Settled (.committed p w :: h) id := by
  have hmove := reminderMove_of_commits hv hc id
  cases hmove with
  | kept hw hsame =>
    have hnot := not_gives hw
    refine ⟨?_, fun hfired => ?_, fun hcancelled => ?_, ⟨fun hg => absurd hg (hnot _), H.confirmed⟩,
      ⟨fun hg => absurd hg (hnot _), H.unfired⟩⟩
    · rw [firings, if_neg (hnot _), Nat.zero_add]
      exact H.once
    · rw [firings, if_neg (hnot _), Nat.zero_add] at hfired
      exact hsame ▸ H.closed hfired
    · exact hsame ▸ H.cancelled (hcancelled.resolve_left (hnot _))
  | requested r hnew hrow hstatus =>
    have hgives := gives_iff hrow
    have hzero : firings id h = 0 := by
      by_contra hfired
      obtain ⟨r', hr', -⟩ := H.closed hfired
      rw [hnew] at hr'
      cases hr'
    have hopen : ¬ Once (fun _ w _ => Gives w id .CANCELLED) h := by
      intro hcancelled
      obtain ⟨r', hr', -⟩ := H.cancelled hcancelled
      rw [hnew] at hr'
      cases hr'
    have hnot : ∀ {status}, status ≠ .PENDING_CONFIRMATION → ¬ Gives w id status := fun hne hg =>
      hne (((hgives _).1 hg).symm.trans hstatus)
    have hfired : ¬ Gives w id .FIRED := hnot (by decide)
    refine ⟨?_, fun hf => ?_, fun hcancelled => ?_, ⟨fun hg => absurd hg hfired, H.confirmed⟩,
      ⟨fun hg => absurd hg hfired, H.unfired⟩⟩
    · rw [firings, if_neg hfired, hzero]
      exact Nat.zero_le 1
    · rw [firings, if_neg hfired, hzero] at hf
      exact absurd rfl hf
    · exact absurd hcancelled (not_or.2 ⟨hnot (by decide), hopen⟩)
  | confirmed r now hold hrow hseen =>
    have hgives := gives_iff hrow
    have hclosed : ¬ r.status.Closed := fun hc =>
      ht (overtaken_of_gives ((hgives _).2 rfl) (.inl rfl) hseen hold hc)
    obtain ⟨hzero, hopen⟩ := H.of_open hold hclosed
    have hnot : ∀ {status}, status ≠ .CONFIRMED → ¬ Gives w id status := fun hne hg =>
      hne ((hgives _).1 hg).symm
    have hfired : ¬ Gives w id .FIRED := hnot (by decide)
    refine ⟨?_, fun hf => ?_, fun hcancelled => ?_, ⟨fun hg => absurd hg hfired, H.confirmed⟩,
      ⟨fun hg => absurd hg hfired, H.unfired⟩⟩
    · rw [firings, if_neg hfired, hzero]
      exact Nat.zero_le 1
    · rw [firings, if_neg hfired, hzero] at hf
      exact absurd rfl hf
    · exact absurd hcancelled (not_or.2 ⟨hnot (by decide), hopen⟩)
  | cancelled r hold hrow =>
    have hgives := gives_iff hrow
    have hfired : ¬ Gives w id .FIRED := fun hg => by cases (hgives _).1 hg
    have hrow : row (committed (.committed p w :: h)) (.reminder id) = some r.cancel :=
      row_append_of_row hrow _
    refine ⟨?_, fun _ => ⟨_, hrow, .inl rfl⟩, fun _ => ⟨_, hrow, rfl⟩,
      ⟨fun hg => absurd hg hfired, H.confirmed⟩, ⟨fun hg => absurd hg hfired, H.unfired⟩⟩
    rw [firings, if_neg hfired, Nat.zero_add]
    exact H.once
  | fired r now hold hrow hseen hread =>
    have hgives := gives_iff hrow
    have hclosed : ¬ r.status.Closed := fun hc =>
      ht (overtaken_of_gives ((hgives _).2 rfl) (.inr rfl) hseen hold hc)
    obtain ⟨hzero, hopen⟩ := H.of_open hold hclosed
    have hcancelled : ¬ Gives w id .CANCELLED := fun hg => by cases (hgives _).1 hg
    obtain ⟨h₀, r₀, hs₀, hr₀, hstatus⟩ := hread
    have hconfirmed := (confirmed_of_row (hv.suffix hs₀) ⟨r₀, hr₀, hstatus⟩).of_suffix hs₀
    refine ⟨?_, fun _ => ⟨_, row_append_of_row hrow _, .inr rfl⟩, fun hc => ?_,
      ⟨fun _ => hconfirmed, H.confirmed⟩, ⟨fun _ => hopen, H.unfired⟩⟩
    · rw [firings, hzero]
      split <;> decide
    · exact absurd hc (not_or.2 ⟨hcancelled, hopen⟩)

/-- In a timely run every reminder is settled. -/
theorem settled_of_valid (hv : (faithful serveTasks).Valid h) (ht : Timely h) (id : Uuid) :
    Settled h id := by
  induction h with
  | nil =>
    exact ⟨Nat.zero_le 1, fun hf => absurd rfl hf, fun hc => hc.elim, trivial, trivial⟩
  | cons ev h ih =>
    cases ev with
    | committed p w => exact (ih hv.2 ht.2).commit hv.2 hv.1 ht.1
    | ran | called | failed | rolledBack | crashed =>
      have H := ih hv.2 ht
      exact ⟨H.once, H.closed, H.cancelled, H.confirmed, H.unfired⟩

/-! ### Requests to cancel -/

/-- The transaction that cancels the reminder, as it has read it. -/
def CancelDeed (p : ℕ) (id : Uuid) (evs : Hist) : Prop :=
  ∃ reminder evs₁, Moved (fun _ => False) p [] evs₁ ∧
    evs = .ran p (.update (.reminder reminder.id) Reminder.cancel) () ::
      .ran p (.get (.reminder id)) (some reminder) :: evs₁

/-- **A request to cancel** commits nothing else, once it has looked up the tenant, and returns
when it has committed. -/
theorem serveTasks_cancels (who : Identity) (workspaceId taskId id : Uuid) :
    AtCommits p (fun evs => (∃ w₀, .committed p w₀ ∈ evs) → CancelDeed p id (openOf evs))
      (fun _ evs => ∃ w evs', evs = .committed p w :: evs' ∧ ∃ w₀, .committed p w₀ ∈ evs')
      (serveTasks (.workspace who workspaceId (.cancel taskId id))) [] := by
  refine AtCommits.atomically_bind (Inside.run fun x => ?_) fun index w evs => ?_
  · rintro ⟨w₀, hw₀⟩
    simp at hw₀
  cases index with
  | none => trivial
  | some tenant =>
    refine AtCommits.atomically_of
      (B := fun _ evs' => CancelDeed p id (openOf evs') ∧ .committed p w ∈ evs') ?_
      (fun _ _ hb _ => hb.1) fun _ w' evs' hb => ⟨w', evs', rfl, w, hb.2⟩
    have hcontext := getWorkspaceContext_tidy (P := fun _ => False) tenant who.userId workspaceId
    refine Inside.bind (hcontext.inside p _) fun context evs₁ h₁ => ?_
    refine (getTaskToChange_tidy (P := fun _ => False) _ _).inside_bind fun task evs₂ h₂ => ?_
    refine Inside.bind (getOwnedReminder_inside context taskId id) ?_
    rintro reminder _ rfl
    unfold cancelReminder
    split
    · trivial
    · have h := h₁.openOf.trans h₂.openOf
      have hmem : .committed p w ∈ evs₂ := h₂.suffix.subset (h₁.suffix.subset List.mem_cons_self)
      exact Inside.run_bind fun _ => ⟨⟨reminder, _, h, rfl⟩,
        List.mem_cons_of_mem _ (List.mem_cons_of_mem _ hmem)⟩

omit [Sha256] in
theorem TaskRequest.Cancels.eq {r : TaskRequest} (hr : r.Cancels id) :
    ∃ who workspaceId taskId, r = .workspace who workspaceId (.cancel taskId id) := by
  cases r with
  | workspace who workspaceId command =>
    cases command with
    | cancel taskId reminderId =>
      obtain rfl : reminderId = id := hr
      exact ⟨who, workspaceId, taskId, rfl⟩
    | _ => exact hr.elim
  | _ => exact hr.elim

section Requests

variable {s : Sys Row Answer Err TaskReply TaskRequest} (hs : Reachable serveTasks s)
  {r : Proc Row Answer Err TaskReply TaskRequest} (hp : s.procs[p]? = some (some r))
  (hr : r.req.Cancels id)

include hs hp hr

/-- Its commit cancels the reminder. -/
theorem gives_of_concludes (hw : CommitsRequest p w h s.hist) : Gives w id .CANCELLED := by
  obtain ⟨hle, w₀, hw₀⟩ := hw
  obtain ⟨who, workspaceId, taskId, hreq⟩ := hr.eq
  obtain ⟨k, hrun⟩ := hs.committing hp hle
  rw [hreq] at hrun
  have hv := hs.faithful.suffix hle
  have hc : Commits serveTasks h p w := hv.1
  obtain ⟨reminder, evs, hm, hevs⟩ := ((serveTasks_cancels ..).runs hrun).1 hc.unfailed
    ⟨w₀, mem_own.2 ⟨hw₀, rfl⟩⟩
  have hwrites := hc.writes
  have htold := hc.told
  have hanswered := hc.answered
  rw [opened_eq, hevs] at hwrites htold hanswered
  obtain ⟨h₁, hs₁, ha⟩ := hanswered.of_suffix (List.suffix_cons ..)
  have hid : reminder.id = id := filed_of_answered (hv.2.suffix hs₁) hm ha
  obtain ⟨stored, hstored⟩ := Option.isSome_iff_exists.1 htold.1
  rw [hwrites, written_update hstored, ← hid]
  exact ⟨_, row_cons_self .., rfl⟩

/-- One that has returned has committed. -/
theorem concludes_of_returned {reply : TaskReply} (hend : r.prog = pure reply) :
    ∃ w h, CommitsRequest p w h s.hist := by
  obtain ⟨who, workspaceId, taskId, hreq⟩ := hr.eq
  have hrun := hs.runs.2.1 p r hp
  rw [hreq, hend] at hrun
  obtain ⟨w, evs, hown, w₀, hw₀⟩ := (serveTasks_cancels ..).runs hrun
  obtain ⟨h, hle, heq⟩ := suffix_of_own (l := []) hown
  rw [← heq] at hw₀
  exact ⟨w, h, hle, w₀, (mem_own.1 hw₀).1⟩

end Requests

end Moves

/-! ## Sample runs -/

section Sample

attribute [local instance] sampleSha

/-- Workspace 2 of customer 7, with its entry in the index. -/
def indexedRows : List { v : Version Row // v.1.housekeeping = true ∧ v.1.tasking = false } :=
  ownedRows ++ [⟨⟨.userCustomerIndex 3 7, some ()⟩, rfl, rfl⟩]

/-- Task 204 has reminder 305, due at 500, which is to be confirmed. -/
def reminded : List (Act Answer TaskRequest) :=
  .start (.housekeeping indexedRows) :: Act.runs 0 sampleAnswer 100 5 ++
    sampleCommand (.create "report" none none) :: Act.runs 1 sampleAnswer 200 11 ++
    sampleCommand (.remind 204 500) :: Act.runs 2 sampleAnswer 300 9

/-- It is confirmed and the job fires it. -/
def firedInTime : Option (Sys Row Answer Err TaskReply TaskRequest) :=
  runAll serveTasks {}
    (reminded ++ sampleCommand (.confirm 204 305 500) :: Act.runs 3 sampleAnswer 400 9 ++
      .start .fireDueReminders :: Act.runs 4 sampleAnswer 600 21)

/-- It is cancelled, and the job runs when it would be due. -/
def cancelledInTime : Option (Sys Row Answer Err TaskReply TaskRequest) :=
  runAll serveTasks {}
    (reminded ++ sampleCommand (.cancel 204 305) :: Act.runs 3 sampleAnswer 400 8 ++
      .start .fireDueReminders :: Act.runs 4 sampleAnswer 600 7)

/-- It is cancelled while another request confirms it. -/
def confirmedTooLate : Option (Sys Row Answer Err TaskReply TaskRequest) :=
  runAll serveTasks {}
    (reminded ++ sampleCommand (.confirm 204 305 500) :: Act.runs 3 sampleAnswer 400 7 ++
      sampleCommand (.cancel 204 305) :: Act.runs 4 sampleAnswer 600 8 ++
      Act.runs 3 sampleAnswer 410 2)

/-- The process has returned. -/
def returns (r : Proc Row Answer Err TaskReply TaskRequest) : Bool :=
  match r.prog with
  | .pure _ => true
  | _ => false

end Sample

end Doda
