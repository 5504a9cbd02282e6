import Doda.Turn.Marks

/-!
# The quiet part of the service

Everything but the turn itself shows no mark while it succeeds: the functions that
propose, move and approve actions, the relays, authorization, and the tools.

## Main results

* `proposeWriteToolAction_quiet` — the write tool of a turn.
* `handle_quiet` — a request that runs no turn.
-/

namespace Doda

open ReadCommitted

theorem isNotificationTypeEnabled_quiet (c : Uuid) (r : String) (t : NotificationType) :
    Quiet (isNotificationTypeEnabled c r t) := by
  unfold isNotificationTypeEnabled
  split
  · exact Only.pure _
  · exact Only.bind (Quiet.run fun _ _ => rfl) fun _ => Only.pure _

theorem announceReady_quiet (a : Action) (i : Option Uuid) : Quiet (announceReady a i) := by
  refine Only.bind Quiet.uuid4 fun _ => ?_
  refine Only.bind (Quiet.call fun _ _ => rfl) fun _ => ?_
  exact Only.bind (Quiet.run fun _ _ => rfl) fun _ => Only.pure _

theorem requestApproval_quiet (a : Action) : Quiet (requestApproval a) := by
  unfold requestApproval
  split
  · exact Only.throw _
  · refine Only.bind (Quiet.call fun _ _ => rfl) fun _ => ?_
    refine Only.bind (Quiet.call fun _ _ => rfl) fun _ => ?_
    refine Only.bind Quiet.uuid4 fun _ => ?_
    refine Only.bind (Quiet.call fun _ _ => rfl) fun _ => ?_
    exact Only.bind (Quiet.run fun _ _ => rfl) fun _ => Only.pure _

theorem assertNotKilled_quiet (c w : Uuid) : Quiet (assertNotKilled c w) := by
  refine Only.bind (Quiet.run fun _ _ => rfl) fun x => ?_
  split
  · exact Only.throw _
  · refine Only.bind (Quiet.run fun _ _ => rfl) fun y => ?_
    split
    · exact Only.throw _
    · exact Only.pure _

theorem resolveReplayApproval_quiet (a : Action) (actor : String) :
    Quiet (resolveReplayApproval a actor) := by
  unfold resolveReplayApproval
  split
  · exact Only.pure _
  · exact Only.bind Quiet.select fun _ => Only.pure _

theorem compareDigest_quiet (a b : String) : Quiet (compareDigest a b) := by
  unfold compareDigest
  split
  · exact Only.pure _
  · exact Only.throw _

section Actions

variable [Sha256]

theorem recordAuditEvent_quiet (c : Uuid) (w : Option Uuid) (t : Uuid) (a e : String) (m : Json) :
    Quiet (recordAuditEvent c w t a e m) := by
  refine Only.bind (Quiet.run fun _ _ => rfl) fun _ => ?_
  refine Only.bind (Quiet.run fun _ _ => rfl) fun tip => ?_
  cases tip with
  | none => exact Only.throw _
  | some tip =>
    refine Only.bind (Quiet.call fun _ _ => rfl) fun _ => ?_
    refine Only.bind Quiet.uuid4 fun _ => ?_
    refine Only.bind (Quiet.call fun _ _ => rfl) fun _ => ?_
    refine Only.bind (Quiet.run fun _ _ => rfl) fun _ => ?_
    exact Only.bind (Quiet.run fun _ _ => rfl) fun _ => Only.pure _

theorem createNotification_quiet (c : Uuid) (w : Option Uuid) (r : String) (t : NotificationType)
    (rt : String) (ri : Uuid) (m : Json) : Quiet (createNotification c w r t rt ri m) := by
  refine Only.bind (isNotificationTypeEnabled_quiet c r t) fun enabled => ?_
  cases enabled with
  | false => exact Only.pure _
  | true =>
    refine Only.bind Quiet.uuid4 fun _ => ?_
    refine Only.bind (Quiet.call fun _ _ => rfl) fun _ => ?_
    refine Only.bind (Quiet.run fun _ _ => rfl) fun _ => ?_
    refine Only.bind Quiet.uuid4 fun _ => ?_
    exact Only.bind (recordAuditEvent_quiet ..) fun _ => Only.pure _

theorem notifyTransition_quiet (a : Action) (s : ActionStatus) : Quiet (notifyTransition a s) := by
  unfold notifyTransition
  split
  · exact Only.bind (createNotification_quiet ..) fun _ => Only.pure _
  · exact Only.bind (createNotification_quiet ..) fun _ => Only.pure _
  · exact Only.pure _

theorem applyTransition_quiet (a : Action) (s : ActionStatus) (actor : String)
    (receipt : Option Json) : Quiet (applyTransition a s actor receipt) := by
  unfold applyTransition
  split
  · exact Only.throw _
  · refine Only.bind (Quiet.run fun _ _ => rfl) fun locked => ?_
    dsimp only
    split
    · exact Only.bind (recordAuditEvent_quiet ..) fun _ => Only.throw _
    · refine Only.bind (Quiet.run fun _ _ => rfl) fun _ => ?_
      refine Only.bind (recordAuditEvent_quiet ..) fun _ => ?_
      exact Only.bind (notifyTransition_quiet _ _) fun _ => Only.pure _

theorem validateAction_quiet (a : Action) (actor : String) : Quiet (validateAction a actor) := by
  refine Only.bind (applyTransition_quiet ..) fun a => ?_
  split
  · refine Only.bind (applyTransition_quiet ..) fun a => ?_
    exact Only.bind (announceReady_quiet ..) fun _ => Only.pure _
  · exact applyTransition_quiet ..

theorem submitActionForExecution_quiet (a : Action) (actor : String) :
    Quiet (submitActionForExecution a actor) := by
  refine Only.bind (validateAction_quiet ..) fun a => ?_
  split
  · exact Only.bind (requestApproval_quiet a) fun _ => Only.pure _
  · exact Only.pure _

theorem proposeAction_quiet (c w t : Uuid) (actor tool : String) (risk : RiskLevel)
    (payload : Json) (key : String) (task : Option Uuid) :
    Quiet (proposeAction c w t actor tool risk payload key task) := by
  refine Only.bind (assertNotKilled_quiet ..) fun _ => ?_
  refine Only.bind Quiet.uuid4 fun _ => ?_
  refine Only.bind (Quiet.run fun _ _ => rfl) fun inserted => ?_
  cases inserted with
  | true => exact Only.bind (recordAuditEvent_quiet ..) fun _ => Only.pure _
  | false =>
    refine Only.bind Quiet.select fun db => ?_
    split
    · exact Only.throw _
    · exact Only.pure _

theorem consumeApproval_quiet (a : Action) (ap : Approval) (approver nonce : String) :
    Quiet (consumeApproval a ap approver nonce) := by
  unfold consumeApproval
  dsimp only
  split
  · exact Only.throw _
  · refine Only.bind (compareDigest_quiet ..) fun same => ?_
    split
    · exact Only.throw _
    · refine Only.bind (Quiet.call fun _ _ => rfl) fun now => ?_
      split
      · refine Only.bind (Quiet.run fun _ _ => rfl) fun _ => ?_
        exact Only.bind (applyTransition_quiet ..) fun _ => Only.throw _
      · split
        · refine Only.bind (Quiet.run fun _ _ => rfl) fun _ => ?_
          exact Only.bind (applyTransition_quiet ..) fun _ => Only.throw _
        · refine Only.bind (Quiet.run fun _ _ => rfl) fun _ => ?_
          refine Only.bind (applyTransition_quiet ..) fun a => ?_
          exact Only.bind (announceReady_quiet ..) fun _ => Only.pure _

theorem requestCancellation_quiet (a : Action) (actor : String) :
    Quiet (requestCancellation a actor) := by
  unfold requestCancellation
  split
  · exact applyTransition_quiet ..
  · exact applyTransition_quiet ..
  · exact Only.throw _

theorem completeCompensation_quiet (a : Action) (s : ActionStatus) (actor : String) :
    Quiet (completeCompensation a s actor) := by
  unfold completeCompensation
  split
  · exact Only.throw _
  · exact applyTransition_quiet ..

end Actions

/-! ## Requests -/

theorem requireRole_quiet (context : WorkspaceContext) (allowed : Bool) (may : String) :
    Quiet (requireRole context allowed may) := by
  unfold requireRole
  split
  · exact Only.pure _
  · exact Only.throw _

theorem getAction_quiet (tenant i : Uuid) : Quiet (getAction tenant i) :=
  Only.bind (Quiet.run fun _ _ => rfl) fun _ => Only.pure _

theorem getWorkspaceContext_quiet (tenant user w : Uuid) :
    Quiet (getWorkspaceContext tenant user w) := by
  refine Only.bind (Quiet.run fun _ _ => rfl) fun found => ?_
  dsimp only
  split
  · split
    · exact Only.throw _
    · refine Only.bind Quiet.select fun db => ?_
      split
      · exact Only.pure _
      · refine Only.bind Quiet.select fun db => ?_
        split
        · exact Only.throw _
        · split
          · exact Only.throw _
          · exact Only.pure _
  · exact Only.throw _

theorem getWorkspaceAction_quiet (context : WorkspaceContext) (i : Uuid) :
    Quiet (getWorkspaceAction context i) := by
  refine Only.bind (getAction_quiet ..) fun a => ?_
  split
  · split
    · exact Only.throw _
    · exact Only.pure _
  · exact Only.throw _

theorem getOwnedConversation_quiet (context : WorkspaceContext) (i : Uuid) :
    Quiet (getOwnedConversation context i) := by
  refine Only.bind (Quiet.run fun _ _ => rfl) fun found => ?_
  dsimp only
  split
  · split
    · exact Only.throw _
    · exact Only.pure _
  · exact Only.throw _

section Requests

variable [Sha256]

theorem proposeAndSubmitAction_quiet (context : WorkspaceContext) (t : Uuid) (body : ProposeBody)
    (key : String) : Quiet (proposeAndSubmitAction context t body key) := by
  refine Only.bind (requireRole_quiet ..) fun _ => ?_
  refine Only.bind (proposeAction_quiet ..) fun r => ?_
  obtain ⟨a, created⟩ := r
  cases created with
  | true => exact Only.bind (submitActionForExecution_quiet ..) fun _ => Only.pure _
  | false => exact Only.bind (resolveReplayApproval_quiet ..) fun _ => Only.pure _

theorem consumeActionApproval_quiet (context : WorkspaceContext) (strength : AuthStrength)
    (i : Uuid) (nonce : String) : Quiet (consumeActionApproval context strength i nonce) := by
  refine Only.bind (Only.bind (Quiet.run fun _ _ => rfl) fun _ => Only.pure _) fun found => ?_
  cases found with
  | none => exact Only.throw _
  | some ap =>
    refine Only.bind (getWorkspaceAction_quiet ..) fun a => ?_
    refine Only.bind (Only.bind (requireRole_quiet ..) fun _ => ?_) fun _ => ?_
    · split
      · exact Only.throw _
      · exact Only.pure _
    · exact Only.bind (consumeApproval_quiet ..) fun _ => Only.pure _

theorem cancelAction_quiet (context : WorkspaceContext) (i : Uuid) :
    Quiet (cancelAction context i) := by
  refine Only.bind (getWorkspaceAction_quiet ..) fun a => ?_
  refine Only.bind (requireRole_quiet ..) fun _ => ?_
  exact Only.bind (requestCancellation_quiet ..) fun _ => Only.pure _

theorem completeActionCompensation_quiet (context : WorkspaceContext) (i : Uuid)
    (s : ActionStatus) : Quiet (completeActionCompensation context i s) := by
  refine Only.bind (getWorkspaceAction_quiet ..) fun a => ?_
  refine Only.bind (requireRole_quiet ..) fun _ => ?_
  exact Only.bind (completeCompensation_quiet ..) fun _ => Only.pure _

/-! ## Relays -/

omit [Sha256] in
theorem publishAll_quiet (rows : List (Entry Row)) : Quiet (publishAll rows) := by
  induction rows with
  | nil => exact Only.pure _
  | cons e rows ih =>
    obtain ⟨k, v⟩ := e
    cases k with
    | outboxMessage i =>
      refine Only.bind ?_ fun _ => Only.bind ih fun _ => Only.pure _
      refine Only.bind (Quiet.call fun _ _ => rfl) fun outcome => ?_
      cases outcome with
      | added => exact Only.bind (Quiet.call fun _ _ => rfl) fun _ => Quiet.run fun _ _ => rfl
      | unacknowledged | refused => exact Only.throw _
    | _ => exact ih

omit [Sha256] in
theorem outboxRelayOnce_distant (n : ℕ) : Distant (outboxRelayOnce n) := by
  refine Only.atomically trivial (Quiet.distant ?_)
  exact Only.bind (Quiet.run fun _ _ => rfl) fun rows => publishAll_quiet rows

omit [Sha256] in
theorem sendAttempts_distant (i : Uuid) (chat text : String) (n : ℕ) (last : Err) :
    Distant (sendAttempts i chat text n last) := by
  induction n generalizing last with
  | zero => exact Only.throw _
  | succ n ih =>
    refine Only.tryCatch (Only.bind (Only.call fun _ _ => rfl) fun outcome => ?_) fun e => ?_
    · split
      · exact Only.pure _
      · exact Only.throw _
    · split
      · exact ih e
      · exact Only.throw _

theorem driveToRunning_distant (c i : Uuid) : Distant (driveToRunning c i) := by
  refine Only.atomically trivial (Quiet.distant ?_)
  refine Only.bind (getAction_quiet ..) fun a => ?_
  cases a with
  | none => exact Only.pure _
  | some a =>
    dsimp only
    split
    · exact Only.pure _
    · split
      · exact Only.pure _
      · exact Only.bind (applyTransition_quiet ..) fun _ => Only.pure _

theorem resolve_distant (c i : Uuid) (s : ActionStatus) (receipt : Option Json) :
    Distant (resolve c i s receipt) := by
  refine Only.atomically trivial (Quiet.distant ?_)
  refine Only.bind (getAction_quiet ..) fun a => ?_
  cases a with
  | none => exact Only.throw _
  | some a => exact Only.bind (applyTransition_quiet ..) fun _ => Only.pure _

theorem processEntry_distant (entry : StreamEntry) (token : Option String) :
    Distant (processEntry entry token) := by
  refine Only.bind (driveToRunning_distant ..) fun running => ?_
  cases running with
  | none => exact Only.pure _
  | some a =>
    dsimp only
    split
    · exact resolve_distant ..
    · split
      · exact resolve_distant ..
      · refine Only.bind ?_ fun result => ?_
        · refine Only.tryCatch (Only.map _ (sendAttempts_distant ..)) fun e => ?_
          split
          · exact Only.bind (resolve_distant ..) fun _ => Only.pure _
          · exact Only.throw _
        · split
          · exact Only.pure _
          · exact resolve_distant ..

theorem processBatch_distant (token : Option String) (ds : List Delivery) :
    Distant (processBatch token ds) := by
  induction ds with
  | nil => exact Only.pure _
  | cons d ds ih =>
    refine Only.bind (Only.tryCatch ?_ fun e => ?_) fun ok => ?_
    · exact Only.bind (processEntry_distant ..) fun _ => Only.pure _
    · exact Only.bind (Only.call fun _ _ => rfl) fun _ => Only.pure _
    · split
      · exact Only.bind (Only.call fun _ _ => rfl) fun _ => Only.bind ih fun _ => Only.pure _
      · exact ih

omit [Sha256] in
theorem keepHouseAll_distant (rows : List { v : Version Row // v.1.housekeeping = true }) :
    Distant (keepHouseAll rows) := by
  induction rows with
  | nil => exact Only.pure _
  | cons v vs ih =>
    refine Only.bind ?_ fun _ => ih
    obtain ⟨⟨k, row⟩, hk⟩ := v
    have hinsert : ∀ r : Row k, Distant (Session.tryInsert [⟨k, r⟩]) := fun r =>
      Only.run fun p x => by
        cases k <;> simp [Key.housekeeping] at hk <;> simp [stmtMark, Stmt.touches, Key.ofTurns,
          Key.ofChoice, Mark.Distant]
    have hupdate : ∀ f, Distant (Session.update k f) := fun f =>
      Only.run fun p x => by
        cases k <;> simp [Key.housekeeping] at hk <;> simp [stmtMark, Stmt.touches, Key.ofTurns,
          Key.ofChoice, Mark.Distant]
    have hdelete : Distant (ReadCommitted.run (.delete k)) :=
      Only.run fun p x => by
        cases k <;> simp [Key.housekeeping] at hk <;> simp [stmtMark, Stmt.touches, Key.ofTurns,
          Key.ofChoice, Mark.Distant]
    cases row with
    | none => exact hdelete
    | some r =>
      refine Only.bind (hinsert r) fun inserted => ?_
      split
      · exact hupdate _
      · exact Only.pure _

omit [Sha256] in
theorem withRequestContext_distant {α : Type} (who : Identity) (w : Uuid)
    {handler : WorkspaceContext → Session α} (hh : ∀ context, Quiet (handler context)) :
    Distant (withRequestContext who w handler) := by
  refine Only.bind (Only.atomically trivial (Quiet.distant (Quiet.run fun _ _ => rfl)))
    fun index => ?_
  cases index with
  | none => exact Only.throw _
  | some tenant =>
    refine Only.atomically trivial (Quiet.distant ?_)
    exact Only.bind (getWorkspaceContext_quiet ..) fun context => hh context

/-- Requests that run a turn. -/
def Request.isChat : Request → Bool
  | .chat _ _ _ _ _ _ => true
  | _ => false

/-- **A request that runs no turn shows none.** -/
theorem serve_distant [JsonText] [Deployment] {r : Request} (hr : r.isChat = false) :
    Distant (serve r) := by
  refine Only.bind (Only.call fun _ _ => rfl) fun _ => ?_
  cases r with
  | chat => simp [Request.isChat] at hr
  | propose who w t body key =>
    exact withRequestContext_distant _ _ fun _ => proposeAndSubmitAction_quiet ..
  | consume who w i nonce =>
    exact withRequestContext_distant _ _ fun _ => consumeActionApproval_quiet ..
  | cancel who w i => exact withRequestContext_distant _ _ fun _ => cancelAction_quiet ..
  | completeCompensation who w i outcome =>
    exact withRequestContext_distant _ _ fun _ => completeActionCompensation_quiet ..
  | outboxRelay n => exact Only.map _ (outboxRelayOnce_distant n)
  | telegramRelay token =>
    exact Only.map _ (Only.bind (Only.call fun _ _ => rfl) fun _ => processBatch_distant ..)
  | processEntry entry token =>
    exact Only.bind (processEntry_distant ..) fun _ => Only.pure _
  | housekeeping rows =>
    refine Only.bind (Only.atomically trivial (keepHouseAll_distant rows)) fun _ => ?_
    exact Only.pure _

end Requests

/-! ## Tools -/

section Tools

variable [Sha256] [JsonText] [Deployment]

theorem proposeWriteToolAction_quiet (tool args : String) (context : WorkspaceContext) (t : Uuid)
    (key : String) : Quiet (proposeWriteToolAction tool args context t key) := by
  unfold proposeWriteToolAction
  dsimp only
  split
  · exact Only.throw _
  · split
    · exact Only.throw _
    · split
      · exact Only.throw _
      · split
        · exact Only.throw _
        · refine Only.bind (proposeAction_quiet ..) fun r => ?_
          obtain ⟨a, created⟩ := r
          cases created with
          | true => exact submitActionForExecution_quiet ..
          | false => exact Only.bind (resolveReplayApproval_quiet ..) fun _ => Only.pure _

end Tools

end Doda
