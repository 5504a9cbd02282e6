import Doda.Application.Writes
import Doda.Service

/-!
# The statements of the action lifecycle

Everything the service does to an action after it was proposed comes down to a few
statements: rows of four tables are inserted under their own ids, an approval or an
action's status is changed, and an audit chain grows.  The functions are walked
through once here; what a proof needs to know of their statements is then a case
analysis.

## Main definitions

* `LifecycleStmt` — the statements.
* `BesideStmt` — those that neither lock an action nor write what is about one.
* `Lives m`, `Besides m` — `m` works inside a transaction with them.
* `serve_lives` — the requests that propose nothing and run no turn.
-/

namespace Doda

open ReadCommitted

/-- The statements of the lifecycle, a proposal's own insert apart. -/
inductive LifecycleStmt : Stmt Row → Prop where
  | get (k : Key) : LifecycleStmt (.get k)
  | view : LifecycleStmt .view
  | forUpdate (k : Key) : LifecycleStmt (.forUpdate k)
  | openTip (c : Uuid) (tip : AuditChainTip) : LifecycleStmt (.tryInsert [⟨.auditChainTip c, tip⟩])
  | event (e : AuditEvent) : LifecycleStmt (.insert [⟨.auditEvent e.id, e⟩])
  | moveTip (c : Uuid) (f : AuditChainTip → AuditChainTip) :
      LifecycleStmt (.update (.auditChainTip c) f)
  | notification (n : Notification) : LifecycleStmt (.insert [⟨.notification n.id, n⟩])
  | message (m : OutboxMessage) (hm : m.publishedAt = none) :
      LifecycleStmt (.insert [⟨.outboxMessage m.id, m⟩])
  | approval (a : Approval) : LifecycleStmt (.insert [⟨.approval a.id, a⟩])
  | decide (id : Uuid) (f : Approval → Approval) : LifecycleStmt (.update (.approval id) f)
  | move (id : Uuid) (status : ActionStatus) :
      LifecycleStmt (.update (.action id) fun a => a.setStatus status)

/-- The statements beside an action: reading, auditing and notifying. -/
inductive BesideStmt : Stmt Row → Prop where
  | get (k : Key) : BesideStmt (.get k)
  | view : BesideStmt .view
  | lockTip (c : Uuid) : BesideStmt (.forUpdate (.auditChainTip c))
  | openTip (c : Uuid) (tip : AuditChainTip) : BesideStmt (.tryInsert [⟨.auditChainTip c, tip⟩])
  | event (e : AuditEvent) : BesideStmt (.insert [⟨.auditEvent e.id, e⟩])
  | moveTip (c : Uuid) (f : AuditChainTip → AuditChainTip) :
      BesideStmt (.update (.auditChainTip c) f)
  | notification (n : Notification) : BesideStmt (.insert [⟨.notification n.id, n⟩])

theorem BesideStmt.lifecycle {q : Stmt Row} (hq : BesideStmt q) : LifecycleStmt q := by
  cases hq with
  | get k => exact .get k
  | view => exact .view
  | lockTip c => exact .forUpdate _
  | openTip c tip => exact .openTip c tip
  | event e => exact .event e
  | moveTip c f => exact .moveTip c f
  | notification n => exact .notification n

/-- The program runs inside a transaction, with statements of the lifecycle. -/
abbrev Lives {α : Type} (m : Session α) : Prop := Only LifecycleStmt Call.Minor False m

/-- The program runs inside a transaction, beside the action. -/
abbrev Besides {α : Type} (m : Session α) : Prop := Only BesideStmt Call.Minor False m

theorem Besides.lives {α : Type} {m : Session α} (hm : Besides m) : Lives m :=
  hm.mono (fun _ => BesideStmt.lifecycle) (fun _ => id) id

namespace Lives

theorem get (k : Key) : Lives (Session.get k) := Only.run (.get k)
theorem getForUpdate (k : Key) : Lives (Session.getForUpdate k) := Only.run (.forUpdate k)
theorem select : Lives Session.select := Only.run .view
theorem uuid4 : Lives Session.uuid4 := Only.call trivial
theorem utcnow (c : Clock) : Lives (Session.utcnow c) := Only.call trivial

end Lives

namespace Besides

theorem get (k : Key) : Besides (Session.get k) := Only.run (.get k)
theorem select : Besides Session.select := Only.run .view
theorem uuid4 : Besides Session.uuid4 := Only.call trivial
theorem utcnow (c : Clock) : Besides (Session.utcnow c) := Only.call trivial

end Besides

/-! ## The functions -/

section Functions

variable [Sha256]

theorem recordAuditEvent_besides (c : Uuid) (w : Option Uuid) (t : Uuid) (a e : String) (m : Json) :
    Besides (recordAuditEvent c w t a e m) := by
  refine Only.bind (Only.run (.openTip c _)) fun _ => ?_
  refine Only.bind (Only.run (.lockTip c)) fun tip => ?_
  cases tip with
  | none => exact Only.throw _
  | some tip =>
    refine Only.bind (Besides.utcnow _) fun occurredAt => Only.bind Besides.uuid4 fun id => ?_
    refine Only.bind (Besides.utcnow _) fun createdAt => Only.bind (Only.run ?_) fun _ => ?_
    · exact .event { id, createdAt, occurredAt, .. }
    · exact Only.bind (Only.run (.moveTip c _)) fun _ => Only.pure _

theorem recordAuditEvent_lives (c : Uuid) (w : Option Uuid) (t : Uuid) (a e : String) (m : Json) :
    Lives (recordAuditEvent c w t a e m) :=
  (recordAuditEvent_besides ..).lives

theorem createNotification_besides (c : Uuid) (w : Option Uuid) (r : String) (t : NotificationType)
    (rt : String) (ri : Uuid) (m : Json) : Besides (createNotification c w r t rt ri m) := by
  refine Only.bind ?_ fun enabled => ?_
  · unfold isNotificationTypeEnabled
    split
    · exact Only.pure _
    · exact Only.bind (Besides.get _) fun _ => Only.pure _
  · cases enabled with
    | false => exact Only.pure _
    | true =>
      refine Only.bind Besides.uuid4 fun id => Only.bind (Besides.utcnow _) fun createdAt => ?_
      refine Only.bind (Only.run ?_) fun _ => Only.bind Besides.uuid4 fun traceId => ?_
      · exact .notification { id, createdAt, .. }
      · exact Only.bind (recordAuditEvent_besides ..) fun _ => Only.pure _

omit [Sha256] in
theorem announceReady_lives (a : Action) (i : Option Uuid) : Lives (announceReady a i) := by
  refine Only.bind Lives.uuid4 fun id => Only.bind (Lives.utcnow _) fun createdAt => ?_
  refine Only.bind (Only.run ?_) fun _ => Only.pure _
  exact .message { id, createdAt, .. } rfl

omit [Sha256] in
theorem requestApproval_lives (a : Action) : Lives (requestApproval a) := by
  unfold requestApproval
  split
  · exact Only.throw _
  · refine Only.bind (Only.call trivial) fun nonce => Only.bind (Lives.utcnow _) fun now => ?_
    refine Only.bind Lives.uuid4 fun id => Only.bind (Lives.utcnow _) fun createdAt => ?_
    refine Only.bind (Only.run ?_) fun _ => Only.pure _
    exact .approval { id, createdAt, .. }

omit [Sha256] in
theorem assertNotKilled_lives (c w : Uuid) : Lives (assertNotKilled c w) := by
  refine Only.bind (Lives.get _) fun x => ?_
  split
  · exact Only.throw _
  · refine Only.bind (Lives.get _) fun y => ?_
    split
    · exact Only.throw _
    · exact Only.pure _

omit [Sha256] in
theorem resolveReplayApproval_lives (a : Action) (actor : String) :
    Lives (resolveReplayApproval a actor) := by
  unfold resolveReplayApproval
  split
  · exact Only.pure _
  · exact Only.bind Lives.select fun _ => Only.pure _

theorem notifyTransition_besides (a : Action) (s : ActionStatus) :
    Besides (notifyTransition a s) := by
  unfold notifyTransition
  split
  · exact Only.bind (createNotification_besides ..) fun _ => Only.pure _
  · exact Only.bind (createNotification_besides ..) fun _ => Only.pure _
  · exact Only.pure _

theorem notifyTransition_lives (a : Action) (s : ActionStatus) : Lives (notifyTransition a s) :=
  (notifyTransition_besides ..).lives

theorem applyTransition_lives (a : Action) (s : ActionStatus) (actor : String)
    (receipt : Option Json) : Lives (applyTransition a s actor receipt) := by
  unfold applyTransition
  split
  · exact Only.throw _
  · refine Only.bind (Lives.getForUpdate _) fun locked => ?_
    dsimp only
    split
    · exact Only.bind (recordAuditEvent_lives ..) fun _ => Only.throw _
    · refine Only.bind (Only.run (.move _ _)) fun _ => ?_
      refine Only.bind (recordAuditEvent_lives ..) fun _ => ?_
      exact Only.bind (notifyTransition_lives _ _) fun _ => Only.pure _

theorem validateAction_lives (a : Action) (actor : String) : Lives (validateAction a actor) := by
  refine Only.bind (applyTransition_lives ..) fun a => ?_
  split
  · refine Only.bind (applyTransition_lives ..) fun a => ?_
    exact Only.bind (announceReady_lives ..) fun _ => Only.pure _
  · exact applyTransition_lives ..

theorem submitActionForExecution_lives (a : Action) (actor : String) :
    Lives (submitActionForExecution a actor) := by
  refine Only.bind (validateAction_lives ..) fun a => ?_
  split
  · exact Only.bind (requestApproval_lives a) fun _ => Only.pure _
  · exact Only.pure _

theorem consumeApproval_lives (a : Action) (ap : Approval) (approver nonce : String) :
    Lives (consumeApproval a ap approver nonce) := by
  unfold consumeApproval compareDigest
  dsimp only
  split
  · exact Only.throw _
  · refine Only.bind ?_ fun same => ?_
    · split
      · exact Only.pure _
      · exact Only.throw _
    split
    · exact Only.throw _
    · refine Only.bind (Lives.utcnow _) fun now => ?_
      split
      · refine Only.bind (Only.run (.decide _ _)) fun _ => ?_
        exact Only.bind (applyTransition_lives ..) fun _ => Only.throw _
      · split
        · refine Only.bind (Only.run (.decide _ _)) fun _ => ?_
          exact Only.bind (applyTransition_lives ..) fun _ => Only.throw _
        · refine Only.bind (Only.run (.decide _ _)) fun _ => ?_
          refine Only.bind (applyTransition_lives ..) fun a => ?_
          exact Only.bind (announceReady_lives ..) fun _ => Only.pure _

theorem requestCancellation_lives (a : Action) (actor : String) :
    Lives (requestCancellation a actor) := by
  unfold requestCancellation
  split
  · exact applyTransition_lives ..
  · exact applyTransition_lives ..
  · exact Only.throw _

theorem completeCompensation_lives (a : Action) (s : ActionStatus) (actor : String) :
    Lives (completeCompensation a s actor) := by
  unfold completeCompensation
  split
  · exact Only.throw _
  · exact applyTransition_lives ..

end Functions

/-! ## The handlers -/

theorem requireRole_besides (context : WorkspaceContext) (allowed : Bool) (may : String) :
    Besides (requireRole context allowed may) := by
  unfold requireRole
  split
  · exact Only.pure _
  · exact Only.throw _

theorem requireRole_lives (context : WorkspaceContext) (allowed : Bool) (may : String) :
    Lives (requireRole context allowed may) :=
  (requireRole_besides ..).lives

theorem getAction_besides (tenant i : Uuid) : Besides (getAction tenant i) :=
  Only.bind (Besides.get _) fun _ => Only.pure _

theorem getAction_lives (tenant i : Uuid) : Lives (getAction tenant i) :=
  (getAction_besides ..).lives

theorem getWorkspaceContext_besides (tenant user w : Uuid) :
    Besides (getWorkspaceContext tenant user w) := by
  refine Only.bind (Besides.get _) fun found => ?_
  dsimp only
  split
  · split
    · exact Only.throw _
    · refine Only.bind Besides.select fun db => ?_
      split
      · exact Only.pure _
      · refine Only.bind Besides.select fun db => ?_
        split
        · exact Only.throw _
        · split
          · exact Only.throw _
          · exact Only.pure _
  · exact Only.throw _

theorem getWorkspaceContext_lives (tenant user w : Uuid) :
    Lives (getWorkspaceContext tenant user w) :=
  (getWorkspaceContext_besides ..).lives

theorem getWorkspaceAction_besides (context : WorkspaceContext) (i : Uuid) :
    Besides (getWorkspaceAction context i) := by
  refine Only.bind (getAction_besides ..) fun a => ?_
  split
  · split
    · exact Only.throw _
    · exact Only.pure _
  · exact Only.throw _

theorem getWorkspaceAction_lives (context : WorkspaceContext) (i : Uuid) :
    Lives (getWorkspaceAction context i) :=
  (getWorkspaceAction_besides ..).lives

section Handlers

variable [Sha256]

theorem consumeActionApproval_lives (context : WorkspaceContext) (strength : AuthStrength)
    (i : Uuid) (nonce : String) : Lives (consumeActionApproval context strength i nonce) := by
  refine Only.bind (Only.bind (Lives.get _) fun _ => Only.pure _) fun found => ?_
  cases found with
  | none => exact Only.throw _
  | some ap =>
    refine Only.bind (getWorkspaceAction_lives ..) fun a => ?_
    refine Only.bind (Only.bind (requireRole_lives ..) fun _ => ?_) fun _ => ?_
    · split
      · exact Only.throw _
      · exact Only.pure _
    · exact Only.bind (consumeApproval_lives ..) fun _ => Only.pure _

theorem cancelAction_lives (context : WorkspaceContext) (i : Uuid) :
    Lives (cancelAction context i) := by
  refine Only.bind (getWorkspaceAction_lives ..) fun a => ?_
  refine Only.bind (requireRole_lives ..) fun _ => ?_
  exact Only.bind (requestCancellation_lives ..) fun _ => Only.pure _

theorem completeActionCompensation_lives (context : WorkspaceContext) (i : Uuid)
    (s : ActionStatus) : Lives (completeActionCompensation context i s) := by
  refine Only.bind (getWorkspaceAction_lives ..) fun a => ?_
  refine Only.bind (requireRole_lives ..) fun _ => ?_
  exact Only.bind (completeCompensation_lives ..) fun _ => Only.pure _

end Handlers

/-! ## Whole requests -/

/-- The program runs transactions with statements of the lifecycle, and calls anything. -/
abbrev Transacts {α : Type} (m : Session α) : Prop := Only LifecycleStmt (fun _ => True) True m

theorem Lives.atomically {α : Type} {m : Session α} (hm : Lives m) : Transacts (atomically m) :=
  Only.atomically trivial (hm.mono (fun _ hq => hq) (fun _ _ => trivial) False.elim)

section Requests

variable [Sha256]

omit [Sha256] in
theorem sendAttempts_transacts (i : Uuid) (chat text : String) (n : ℕ) (last : Err) :
    Transacts (sendAttempts i chat text n last) := by
  induction n generalizing last with
  | zero => exact Only.throw _
  | succ n ih =>
    refine Only.tryCatch (Only.bind (Only.call trivial) fun outcome => ?_) fun e => ?_
    · split
      · exact Only.pure _
      · exact Only.throw _
    · split
      · exact ih e
      · exact Only.throw _

theorem driveToRunning_transacts (c i : Uuid) : Transacts (driveToRunning c i) := by
  refine Lives.atomically (Only.bind (getAction_lives ..) fun a => ?_)
  cases a with
  | none => exact Only.pure _
  | some a =>
    dsimp only
    split
    · exact Only.pure _
    · split
      · exact Only.pure _
      · exact Only.bind (applyTransition_lives ..) fun _ => Only.pure _

theorem resolve_transacts (c i : Uuid) (s : ActionStatus) (receipt : Option Json) :
    Transacts (resolve c i s receipt) := by
  refine Lives.atomically (Only.bind (getAction_lives ..) fun a => ?_)
  cases a with
  | none => exact Only.throw _
  | some a => exact Only.bind (applyTransition_lives ..) fun _ => Only.pure _

theorem processEntry_transacts (entry : StreamEntry) (token : Option String) :
    Transacts (processEntry entry token) := by
  refine Only.bind (driveToRunning_transacts ..) fun running => ?_
  cases running with
  | none => exact Only.pure _
  | some a =>
    dsimp only
    split
    · exact resolve_transacts ..
    · split
      · exact resolve_transacts ..
      · refine Only.bind ?_ fun result => ?_
        · refine Only.tryCatch (Only.map _ (sendAttempts_transacts ..)) fun e => ?_
          split
          · exact Only.bind (resolve_transacts ..) fun _ => Only.pure _
          · exact Only.throw _
        · split
          · exact Only.pure _
          · exact resolve_transacts ..

theorem processBatch_transacts (token : Option String) (ds : List Delivery) :
    Transacts (processBatch token ds) := by
  induction ds with
  | nil => exact Only.pure _
  | cons d ds ih =>
    refine Only.bind (Only.tryCatch ?_ fun e => ?_) fun ok => ?_
    · exact Only.bind (processEntry_transacts ..) fun _ => Only.pure _
    · exact Only.bind (Only.call trivial) fun _ => Only.pure _
    · split
      · exact Only.bind (Only.call trivial) fun _ => Only.bind ih fun _ => Only.pure _
      · exact ih

omit [Sha256] in
theorem withRequestContext_transacts {α : Type} (who : Identity) (w : Uuid)
    {handler : WorkspaceContext → Session α} (hh : ∀ context, Lives (handler context)) :
    Transacts (withRequestContext who w handler) := by
  refine Only.bind (Lives.atomically (Lives.get _)) fun index => ?_
  cases index with
  | none => exact Only.throw _
  | some tenant =>
    exact Lives.atomically (Only.bind (getWorkspaceContext_lives ..) fun context => hh context)

omit [Sha256] in
/-- The rest of the application writes its own tables. -/
theorem keepHouseAll_writes (rows : List { v : Version Row // v.1.housekeeping = true }) :
    Writes (·.housekeeping = true) (keepHouseAll rows) := by
  induction rows with
  | nil => exact Only.pure _
  | cons v rows ih =>
    obtain ⟨⟨k, row⟩, hk⟩ := v
    refine Only.bind ?_ fun _ => ih
    cases row with
    | none => exact Writes.delete hk
    | some row =>
      refine Only.bind (Only.run (List.forall_mem_singleton.2 hk)) fun inserted => ?_
      cases inserted with
      | true => exact Only.pure _
      | false => exact Writes.update hk

/-- The requests that propose nothing, publish nothing and write no other table. -/
def Request.ofLifecycle : Request → Prop
  | .consume .. | .cancel .. | .completeCompensation .. | .telegramRelay _ | .processEntry .. => True
  | _ => False

/-- **Such a request runs statements of the lifecycle only.** -/
theorem serve_transacts [JsonText] [Deployment] {r : Request} (hr : r.ofLifecycle) :
    Transacts (serve r) := by
  refine Only.bind (Only.call trivial) fun _ => ?_
  cases r with
  | propose | chat | outboxRelay | housekeeping => exact hr.elim
  | consume who w i nonce =>
    exact withRequestContext_transacts _ _ fun _ => consumeActionApproval_lives ..
  | cancel who w i => exact withRequestContext_transacts _ _ fun _ => cancelAction_lives ..
  | completeCompensation who w i outcome =>
    exact withRequestContext_transacts _ _ fun _ => completeActionCompensation_lives ..
  | telegramRelay token =>
    exact Only.map _ (Only.bind (Only.call trivial) fun _ => processBatch_transacts ..)
  | processEntry entry token =>
    exact Only.bind (processEntry_transacts ..) fun _ => Only.pure _

end Requests

end Doda
