import Doda.Lifecycle.Specs
import Doda.Service

/-!
# What a commit does to actions

The core of a transaction is a list of deeds: an action is proposed and submitted,
an approval is consumed, an action is moved, a message is marked as published.
Each deed fits the store before it, and whoever does it had cause to.  The contract
of the service asks this of every commit; what holds of actions in every run then
follows by induction on the commits of a history.

## Main definitions

* `Admitted`, `Proposer` — a process serves a user's request in a workspace, and proposes for it.
* `Deed`, `Deed.versions`, `Deed.Fits` — the deeds, their rows, what they ask for.
* `Fit p h s ds` — deeds done one after another by process `p` on top of `s`.
* `lifecycle` — the contract.

## Main results

* `Fit.congr` — deeds fit as long as their rows are locked.
* `Kept.of_valid` — an action never loses its row, and keeps all but its status.
-/

namespace Doda

open ReadCommitted

/-! ## Who acts -/

/-- The user may do what an admin of the workspace may: as an owner of its customer, or by role. -/
def IsWorkspaceAdmin (db : Db) (customerId userId workspaceId : Uuid) : Prop :=
  isCustomerOwner db customerId userId = true ∨
    ∃ m c, workspaceMembershipOf db customerId workspaceId userId = some (m, c) ∧
      c.role ≠ .AUDITOR ∧ m.role = .WORKSPACE_ADMIN

/-- The user has the role in the workspace, where an owner of its customer is an admin. -/
def HoldsRole (db : Db) (customerId userId workspaceId : Uuid) (role : WorkspaceRole) : Prop :=
  (isCustomerOwner db customerId userId = true ∧ role = .WORKSPACE_ADMIN) ∨
    ∃ m c, workspaceMembershipOf db customerId workspaceId userId = some (m, c) ∧
      c.role ≠ .AUDITOR ∧ m.role = role

theorem HoldsRole.admin {db : Db} {customerId userId workspaceId : Uuid}
    (H : HoldsRole db customerId userId workspaceId .WORKSPACE_ADMIN) :
    IsWorkspaceAdmin db customerId userId workspaceId :=
  H.imp_left And.left

/-- The user who makes the request, and the workspace it is made in. -/
def Request.caller : Request → Option (Identity × Uuid)
  | .propose who w _ _ _ | .consume who w _ _ | .cancel who w _ | .completeCompensation who w _ _
  | .chat who w _ _ _ _ => some (who, w)
  | .outboxRelay _ | .telegramRelay _ | .processEntry _ _ | .housekeeping _ => none

/-- Process `p` serves the request in the context, whose role it has looked up since. -/
structure Admitted (p : ℕ) (h : Hist) (r : Request) (strength : AuthStrength)
    (context : WorkspaceContext) : Prop where
  received : Event.called p (.received r) () ∈ h
  caller : r.caller = some (⟨context.userId, strength⟩, context.workspaceId)
  role : ∃ h₁, h₁ <:+ h ∧ Event.called p (.received r) () ∈ h₁ ∧
    HoldsRole (committed h₁) context.customerId context.userId context.workspaceId context.role

theorem Admitted.mono {p : ℕ} {h h' : Hist} {r : Request} {strength : AuthStrength}
    {context : WorkspaceContext} (H : Admitted p h r strength context) (hh : h <:+ h') :
    Admitted p h' r strength context where
  received := hh.subset H.received
  caller := H.caller
  role := by
    obtain ⟨h₁, hs, hr⟩ := H.role
    exact ⟨h₁, hs.trans hh, hr⟩

theorem Admitted.admin {p : ℕ} {h : Hist} {r : Request} {strength : AuthStrength}
    {context : WorkspaceContext} (H : Admitted p h r strength context)
    (hrole : context.role = .WORKSPACE_ADMIN) : ∃ h₁, h₁ <:+ h ∧
      Event.called p (.received r) () ∈ h₁ ∧
      IsWorkspaceAdmin (committed h₁) context.customerId context.userId context.workspaceId := by
  obtain ⟨h₁, hs, hreceived, hholds⟩ := H.role
  rw [hrole] at hholds
  exact ⟨h₁, hs, hreceived, hholds.admin⟩

/-- What a request to propose asks for; a chat turn proposes what its model asks for. -/
def Request.AsksFor : Request → Action → Prop
  | .propose _ _ traceId body key, a => a.traceId = traceId ∧ a.toolName = body.toolName ∧
    a.payload = body.payload ∧ a.taskId = body.taskId ∧ a.idempotencyKey = key
  | .chat _ _ _ traceId _ _, a => a.traceId = traceId
  | _, _ => False

/-- Process `p` proposes the action for the user of a request, who may propose actions in the
workspace. -/
structure Proposer (p : ℕ) (h : Hist) (r : Request) (strength : AuthStrength)
    (context : WorkspaceContext) (a : Action) : Prop where
  asks : r.AsksFor a
  admitted : Admitted p h r strength context
  may : context.role ∈ rolesThatMayProposeActions
  actor : a.actorId = actorOf context.userId
  place : a.customerId = context.customerId ∧ a.workspaceId = context.workspaceId

theorem Proposer.mono {p : ℕ} {h h' : Hist} {r : Request} {strength : AuthStrength}
    {context : WorkspaceContext} {a : Action} (H : Proposer p h r strength context a)
    (hh : h <:+ h') : Proposer p h' r strength context a :=
  { H with admitted := H.admitted.mono hh }

theorem Proposer.setStatus {p : ℕ} {h : Hist} {r : Request} {strength : AuthStrength}
    {context : WorkspaceContext} {a : Action} (H : Proposer p h r strength context a)
    (s : ActionStatus) : Proposer p h r strength context (a.setStatus s) := by
  refine { H with asks := ?_ }
  have hasks := H.asks
  cases r with
  | propose | chat => exact hasks
  | _ => exact hasks.elim

/-- The request is one poll or one entry of the Telegram relay. -/
def Request.ofTelegram : Request → Prop
  | .telegramRelay _ | .processEntry _ _ => True
  | _ => False

/-- Process `p` is a Telegram relay. -/
def Relays (p : ℕ) (h : Hist) : Prop :=
  ∃ r : Request, r.ofTelegram ∧ Event.called p (.received r) () ∈ h

/-- Why an action is moved to a status: who does it, and what they have to show. -/
inductive Cause (p : ℕ) (h : Hist) (id : Uuid) (source : Action) :
    ActionStatus → String → Option Json → Prop where
  | cancelled (strength : AuthStrength) (context : WorkspaceContext) (target : ActionStatus)
      (hadmitted : Admitted p h (.cancel ⟨context.userId, strength⟩ context.workspaceId id)
        strength context)
      (htarget : target = .CANCELLED ∨ target = .COMPENSATING)
      (hmay : source.actorId = actorOf context.userId ∨ context.role = .WORKSPACE_ADMIN)
      (hplace : source.customerId = context.customerId ∧ source.workspaceId = context.workspaceId) :
      Cause p h id source target (actorOf context.userId) none
  | completed (strength : AuthStrength) (context : WorkspaceContext) (outcome : ActionStatus)
      (hadmitted : Admitted p h
        (.completeCompensation ⟨context.userId, strength⟩ context.workspaceId id outcome)
        strength context)
      (hout : outcome = .COMPENSATED ∨ outcome = .FAILED)
      (hrole : context.role = .WORKSPACE_ADMIN)
      (hplace : source.customerId = context.customerId ∧ source.workspaceId = context.workspaceId) :
      Cause p h id source outcome (actorOf context.userId) none
  | started (hrelay : Relays p h) (htool : source.toolName = telegramSendMessage) :
      Cause p h id source .RUNNING telegramActor none
  | succeeded (hrelay : Relays p h) (receipt : Json) :
      Cause p h id source .SUCCEEDED telegramActor (some receipt)
  | failed (hrelay : Relays p h)
      (hread : Event.ran p (.forUpdate (.action id)) (some source) ∈ h) :
      Cause p h id source .FAILED telegramActor none

theorem Relays.mono {p : ℕ} {h h' : Hist} (H : Relays p h) (hh : h <:+ h') : Relays p h' := by
  obtain ⟨r, hr, hmem⟩ := H
  exact ⟨r, hr, hh.subset hmem⟩

theorem Cause.mono {p : ℕ} {h h' : Hist} {id : Uuid} {source : Action} {target : ActionStatus}
    {actor : String} {receipt : Option Json} (H : Cause p h id source target actor receipt)
    (hh : h <:+ h') : Cause p h' id source target actor receipt := by
  cases H with
  | cancelled strength context _ hadmitted htarget hmay hplace =>
    exact .cancelled strength context _ (hadmitted.mono hh) htarget hmay hplace
  | completed strength context _ hadmitted hout hrole hplace =>
    exact .completed strength context _ (hadmitted.mono hh) hout hrole hplace
  | started hrelay htool => exact .started (hrelay.mono hh) htool
  | succeeded hrelay receipt => exact .succeeded (hrelay.mono hh) receipt
  | failed hrelay hread => exact .failed (hrelay.mono hh) (hh.subset hread)

/-- A user decided on an approval as they had loaded it. -/
structure Decided (p : ℕ) (h : Hist) (id approvalId : Uuid) (source : Action) (actor : String)
    (context : WorkspaceContext) (loaded : Approval) (nonce : String) (now : Time) : Prop where
  admitted : Admitted p h
    (.consume ⟨context.userId, .AAL2⟩ context.workspaceId approvalId nonce) .AAL2 context
  approver : actor = actorOf context.userId
  may : source.actorId = actor ∨ context.role = .WORKSPACE_ADMIN
  place : source.customerId = context.customerId ∧ source.workspaceId = context.workspaceId
  read : ∃ h₁, h₁ <:+ h ∧ row (committed h₁) (.approval approvalId) = some loaded
  about : loaded.actionId = id
  pending : loaded.status = .PENDING
  nonce : digestsMatch loaded.nonce nonce
  reading : Event.called p (.utcnow (.expiry approvalId)) now ∈ h
  inTime : now ≤ loaded.expiresAt
  payload : loaded.payloadHash = source.payloadHash

theorem Decided.mono {p : ℕ} {h h' : Hist} {id approvalId : Uuid} {source : Action}
    {actor : String} {context : WorkspaceContext} {loaded : Approval} {nonce : String} {now : Time}
    (H : Decided p h id approvalId source actor context loaded nonce now) (hh : h <:+ h') :
    Decided p h' id approvalId source actor context loaded nonce now := by
  obtain ⟨h₁, hs, hrow⟩ := H.read
  exact { H with
    admitted := H.admitted.mono hh
    read := ⟨h₁, hs.trans hh, hrow⟩
    reading := hh.subset H.reading }

/-! ## Deeds -/

/-- What a transaction does to actions. -/
inductive Deed where
  /-- An action is proposed, validated and routed. -/
  | proposed (a : Action) (target : ActionStatus) (e e₁ e₂ : AuditEvent) (beside : Db)
  /-- An approval is consumed. -/
  | consumed (id approvalId : Uuid) (source : Action) (before : Approval) (actor : String)
      (e : AuditEvent) (m : OutboxMessage)
  /-- An action's status is changed. -/
  | moved (id : Uuid) (source : Action) (target : ActionStatus) (actor : String)
      (receipt : Option Json) (e : AuditEvent)
  /-- A message is marked as published. -/
  | published (id : Uuid) (m : OutboxMessage) (now : Time)

/-- The approval, approved. -/
def Approval.approve (a : Approval) (actor : String) : Approval :=
  { a with status := .APPROVED, approverId := some actor }

/-- The message, published. -/
def OutboxMessage.publish (m : OutboxMessage) (now : Time) : OutboxMessage :=
  { m with publishedAt := some now, attempts := m.attempts + 1 }

namespace Deed

/-- The rows a deed writes, newest first. -/
def versions : Deed → Db
  | proposed a target e e₁ e₂ beside =>
    submissionVersions a target e₁ e₂ beside ++ proposalVersions a e
  | consumed id approvalId source before actor e m =>
    [⟨.outboxMessage m.id, some m⟩, ⟨.auditEvent e.id, some e⟩,
      ⟨.action id, some (source.setStatus .READY)⟩,
      ⟨.approval approvalId, some (before.approve actor)⟩]
  | moved id source target _ _ e =>
    [⟨.auditEvent e.id, some e⟩, ⟨.action id, some (source.setStatus target)⟩]
  | published id m now => [⟨.outboxMessage id, some (m.publish now)⟩]

/-- A proposal: the action is new, and so is its idempotency key. -/
structure FitsProposed [Sha256] (p : ℕ) (h : Hist) (s : Db) (a : Action) (target : ActionStatus)
    (e e₁ e₂ : AuditEvent) (beside : Db) : Prop where
  freshAction : row s (.action a.id) = none
  freshKey : row s a.idempotency = none
  draft : a.status = .DRAFT
  floor : ∃ risk, a.riskLevel = enforceMinimumRiskLevel a.toolName risk
  hash : a.payloadHash = hashPayload a.payload
  proposes : e.Proposes a a.actorId
  validates : e₁.Moves a .VALIDATING a.actorId none
  routes : e₂.Moves (a.setStatus .VALIDATING) target a.actorId none
  route : Routed a target beside
  freshBeside : ∀ k ∈ keys beside, row s k = none
  proposer : ∃ r strength context, Proposer p h r strength context a

/-- A decision: the action was waiting for it. -/
structure FitsConsumed (p : ℕ) (h : Hist) (s : Db) (id approvalId : Uuid) (source : Action)
    (before : Approval) (actor : String) (e : AuditEvent) (m : OutboxMessage) : Prop where
  found : row s (.action id) = some source
  allowed : ActionStatus.READY ∈ allowedTransitions source.status
  foundApproval : row s (.approval approvalId) = some before
  event : e.Moves source .READY actor none
  message : m.Announces source
  fresh : row s (.outboxMessage m.id) = none
  decided : ∃ context loaded nonce now,
    Decided p h id approvalId source actor context loaded nonce now

/-- A move: the state machine allows it, and there is a cause. -/
structure FitsMoved (p : ℕ) (h : Hist) (s : Db) (id : Uuid) (source : Action)
    (target : ActionStatus) (actor : String) (receipt : Option Json) (e : AuditEvent) : Prop where
  found : row s (.action id) = some source
  allowed : target ∈ allowedTransitions source.status
  event : e.Moves source target actor receipt
  cause : Cause p h id source target actor receipt

/-- A publication: the message's entry has been added to its stream. -/
structure FitsPublished (p : ℕ) (h : Hist) (s : Db) (id : Uuid) (m : OutboxMessage) : Prop where
  found : row s (.outboxMessage id) = some m
  pending : m.publishedAt = none
  added : Event.called p (.xadd m.entry) .added ∈ h

/-- What a deed asks of the store before it, and of its process. -/
def Fits [Sha256] (p : ℕ) (h : Hist) (s : Db) : Deed → Prop
  | proposed a target e e₁ e₂ beside => FitsProposed p h s a target e e₁ e₂ beside
  | consumed id approvalId source before actor e m =>
    FitsConsumed p h s id approvalId source before actor e m
  | moved id source target actor receipt e => FitsMoved p h s id source target actor receipt e
  | published id m _ => FitsPublished p h s id m

/-- **A deed fits** as long as the rows it writes stay as they were. -/
theorem Fits.congr [Sha256] {p : ℕ} {h h' : Hist} {s s' : Db} {d : Deed} (H : d.Fits p h s)
    (hh : h <:+ h') (hs : ∀ k ∈ keys d.versions, row s' k = row s k) : d.Fits p h' s' := by
  cases d with
  | proposed a target e e₁ e₂ beside =>
    have hkey : ∀ k ∈ keys (versions (.proposed a target e e₁ e₂ beside)),
        row s k = none → row s' k = none := fun k hk hrow => by rw [hs k hk, hrow]
    exact { H with
      freshAction := hkey _ (by simp [versions, proposalVersions]) H.freshAction
      freshKey := hkey _ (by simp [versions, proposalVersions, Action.idempotency]) H.freshKey
      freshBeside := fun k hk => hkey k
        (by simp [versions, submissionVersions, hk]) (H.freshBeside k hk)
      proposer := by
        obtain ⟨r, strength, context, hp⟩ := H.proposer
        exact ⟨r, strength, context, hp.mono hh⟩ }
  | consumed id approvalId source before actor e m =>
    obtain ⟨context, loaded, nonce, now, hd⟩ := H.decided
    exact { H with
      found := by rw [hs _ (by simp [versions]), H.found]
      foundApproval := by rw [hs _ (by simp [versions]), H.foundApproval]
      fresh := by rw [hs _ (by simp [versions]), H.fresh]
      decided := ⟨context, loaded, nonce, now, hd.mono hh⟩ }
  | moved id source target actor receipt e =>
    exact { H with
      found := by rw [hs _ (by simp [versions]), H.found]
      cause := H.cause.mono hh }
  | published id m now =>
    exact ⟨by rw [hs _ (by simp [versions]), H.found], H.pending, hh.subset H.added⟩

end Deed

/-- The rows of several deeds, the newest deed first. -/
def versionsOf (ds : List Deed) : Db := ds.flatMap Deed.versions

@[simp] theorem versionsOf_nil : versionsOf [] = [] := rfl
@[simp] theorem versionsOf_cons (d : Deed) (ds : List Deed) :
    versionsOf (d :: ds) = d.versions ++ versionsOf ds := rfl

/-- Deeds done one after another by process `p`, on top of `s`. -/
def Fit [Sha256] (p : ℕ) (h : Hist) (s : Db) : List Deed → Prop
  | [] => True
  | d :: ds => d.Fits p h (versionsOf ds ++ s) ∧ Fit p h s ds

theorem Fit.congr [Sha256] {p : ℕ} {h h' : Hist} {s s' : Db} {ds : List Deed} (H : Fit p h s ds)
    (hh : h <:+ h') (hs : ∀ k ∈ keys (versionsOf ds), row s' k = row s k) : Fit p h' s' ds := by
  induction ds with
  | nil => trivial
  | cons d ds ih =>
    rw [versionsOf_cons, keys_append, List.forall_mem_append] at hs
    refine ⟨H.1.congr hh fun k hk => row_append_congr _ (hs.1 k hk), ih H.2 hs.2⟩

/-! ## What deeds leave -/

/-- The row a deed leaves of an action, if it touches it. -/
def Deed.leaves : Deed → Uuid → Option Action
  | proposed a target _ _ _ _, i => if a.id = i then some (a.setStatus target) else none
  | consumed id _ source _ _ _ _, i => if id = i then some (source.setStatus .READY) else none
  | moved id source target _ _ _, i => if id = i then some (source.setStatus target) else none
  | published _ _ _, _ => none

theorem Routed.action_notMem {a : Action} {target : ActionStatus} {beside : Db}
    (H : Routed a target beside) (i : Uuid) : Key.action i ∉ keys beside := by
  cases H <;> simp

theorem Deed.Fits.row_action [Sha256] {p : ℕ} {h : Hist} {s : Db} {d : Deed} (H : d.Fits p h s)
    (i : Uuid) (s' : Db) :
    row (d.versions ++ s') (.action i) = (d.leaves i).or (row s' (.action i)) := by
  cases d with
  | proposed a target e e₁ e₂ beside =>
    simp only [versions, leaves, submissionVersions, transitionVersions, proposalVersions,
      List.append_assoc]
    rw [row_append_of_notMem _ (H.route.action_notMem i)]
    by_cases hi : a.id = i
    · subst hi
      simp [row]
    · simp [row, hi]
  | consumed id approvalId source before actor e m =>
    by_cases hi : id = i
    · subst hi
      simp [versions, leaves, row]
    · simp [versions, leaves, row, hi]
  | moved id source target actor receipt e =>
    by_cases hi : id = i
    · subst hi
      simp [versions, leaves, row]
    · simp [versions, leaves, row, hi]
  | published id m now => simp [versions, leaves, row]

/-- An action that was there is the action before, with a status the state machine allows. -/
theorem Deed.Fits.leaves_eq [Sha256] {p : ℕ} {h : Hist} {s : Db} {d : Deed} (H : d.Fits p h s)
    {i : Uuid} {a b : Action} (ha : row s (.action i) = some a) (hb : d.leaves i = some b) :
    b = a.setStatus b.status ∧ b.status ∈ allowedTransitions a.status := by
  cases d with
  | proposed a' =>
    simp only [leaves, Option.ite_none_right_eq_some, Option.some.injEq] at hb
    obtain ⟨rfl, -⟩ := hb
    rw [H.freshAction] at ha
    cases ha
  | consumed id approvalId source =>
    simp only [leaves, Option.ite_none_right_eq_some, Option.some.injEq] at hb
    obtain ⟨rfl, rfl⟩ := hb
    obtain rfl := Option.some.inj (H.found.symm.trans ha)
    exact ⟨rfl, H.allowed⟩
  | moved id source target =>
    simp only [leaves, Option.ite_none_right_eq_some, Option.some.injEq] at hb
    obtain ⟨rfl, rfl⟩ := hb
    obtain rfl := Option.some.inj (H.found.symm.trans ha)
    exact ⟨rfl, H.allowed⟩
  | published => simp [leaves] at hb

/-- Deeds keep an action, and all of it but its status. -/
theorem Fit.keeps [Sha256] {p : ℕ} {h : Hist} {s : Db} {ds : List Deed} (H : Fit p h s ds)
    {i : Uuid} {a : Action} (ha : row s (.action i) = some a) :
    ∃ b, row (versionsOf ds ++ s) (.action i) = some b ∧ b = a.setStatus b.status := by
  induction ds with
  | nil => exact ⟨a, ha, rfl⟩
  | cons d ds ih =>
    obtain ⟨b, hb, hsame⟩ := ih H.2
    rw [versionsOf_cons, List.append_assoc, H.1.row_action]
    cases hd : d.leaves i with
    | none => exact ⟨b, hb, hsame⟩
    | some c =>
      refine ⟨c, rfl, ?_⟩
      rw [(H.1.leaves_eq hb hd).1, hsame]
      rfl

/-- No deed deletes a row. -/
theorem Deed.Fits.some_of_mem [Sha256] {p : ℕ} {h : Hist} {s : Db} {d : Deed} (H : d.Fits p h s)
    {v : Version Row} (hv : v ∈ d.versions) : v.2 ≠ none := by
  cases d with
  | proposed a target e e₁ e₂ beside =>
    simp only [versions, submissionVersions, transitionVersions, proposalVersions, List.mem_append,
      List.mem_cons, List.not_mem_nil, or_false] at hv
    obtain ((hv | rfl | rfl) | rfl | rfl) | rfl | rfl | rfl := hv <;> try simp
    have hroute := H.route
    cases hroute <;> (rw [List.mem_singleton.1 hv]; simp)
  | consumed | moved | published =>
    simp only [versions, List.mem_cons, List.not_mem_nil, or_false] at hv
    rcases hv with rfl | rfl | rfl | rfl <;> simp

theorem Fit.some_of_mem [Sha256] {p : ℕ} {h : Hist} {s : Db} {ds : List Deed} (H : Fit p h s ds)
    {v : Version Row} (hv : v ∈ versionsOf ds) : v.2 ≠ none := by
  induction ds with
  | nil => cases hv
  | cons d ds ih =>
    rcases List.mem_append.1 hv with hv | hv
    · exact H.1.some_of_mem hv
    · exact ih H.2 hv

/-! ## The contract -/

/-- The event is a POST that process `p` makes for the action, and it may have been delivered. -/
def MayDeliver (p : ℕ) (id : Uuid) : Event Row Answer → Prop
  | .called q (.post i _ _) outcome => q = p ∧ i = id ∧ ¬ HttpOutcome.Undelivered outcome
  | _ => False

/-- The commit takes the action from READY to RUNNING. -/
def Starts (h : Hist) (w : Db) (id : Uuid) : Prop :=
  (∃ a ∈ row (committed h) (.action id), a.status = .READY) ∧
    ∃ a ∈ row w (.action id), a.status = .RUNNING

/-- Process `p` has committed the action's start, and has delivered nothing since. -/
def Posting (p : ℕ) (h : Hist) (id : Uuid) : Prop :=
  ∃ evs w h₁, h = evs ++ .committed p w :: h₁ ∧ Starts h₁ w id ∧ ∀ ev ∈ evs, ¬ MayDeliver p id ev

variable [Sha256]

/-- **The contract of the service**: commits extend the audit log and do deeds that fit; a POST is
made only for an action the process has started, and only until one may have been delivered. -/
def lifecycle : Contract Row Answer where
  commitOk h p w := Audited h w ∧ ∃ ds, core w = versionsOf ds ∧ Fit p h (committed h) ds
  callOk h p e := match e with
    | .post id _ _ => Posting p h id
    | _ => True

theorem lifecycle_audits : AuditContract lifecycle := fun _ _ _ hw => hw.1

theorem lifecycle_minor : MinorFree lifecycle := by
  intro h p e he
  cases e <;> trivial

theorem lifecycle_keeps (i : Uuid) : lifecycle.Keeps (.action i) := by
  intro h p w hw hmem
  obtain ⟨-, ds, hcore, hfit⟩ := hw
  rw [← mem_core rfl, hcore] at hmem
  exact hfit.some_of_mem hmem rfl

omit [Sha256] in
/-- A row about an action, after a commit. -/
theorem row_of_core_eq {w s : Db} {ds : List Deed} (hcore : core w = versionsOf ds) {k : Key}
    (hk : k.tracked = true) : row (w ++ s) k = row (versionsOf ds ++ s) k := by
  rw [← row_core_append hk, hcore]

/-- **An action is never lost**, and nothing of it changes but its status. -/
theorem keeps_of_valid {evs h : Hist} (hv : lifecycle.Valid (evs ++ h)) {i : Uuid} {a : Action}
    (ha : row (committed h) (.action i) = some a) :
    ∃ b, row (committed (evs ++ h)) (.action i) = some b ∧ b = a.setStatus b.status := by
  induction evs with
  | nil => exact ⟨a, ha, rfl⟩
  | cons ev evs ih =>
    obtain ⟨b, hb, hsame⟩ := ih hv.2
    cases ev with
    | committed p w =>
      obtain ⟨-, ds, hcore, hfit⟩ := hv.1
      obtain ⟨c, hc, hsame'⟩ := hfit.keeps hb
      refine ⟨c, (row_of_core_eq hcore rfl).trans hc, ?_⟩
      rw [hsame', hsame]
      rfl
    | ran | called | rolledBack | failed | crashed => exact ⟨b, hb, hsame⟩

/-- The version is filed under its own id. -/
def Filed : Version Row → Prop
  | ⟨.action i, v⟩ => ∀ a ∈ v, Action.id a = i
  | ⟨.approval i, v⟩ => ∀ a ∈ v, Approval.id a = i
  | ⟨.outboxMessage i, v⟩ => ∀ m ∈ v, OutboxMessage.id m = i
  | _ => True

/-- Rows are filed under their own ids. -/
def Keyed (s : Db) : Prop := ∀ k r, row s k = some r → Filed ⟨k, some r⟩

omit [Sha256] in
theorem Keyed.append {w s : Db} (hs : Keyed s) (hw : ∀ v ∈ w, Filed v) : Keyed (w ++ s) := by
  intro k r hrow
  by_cases hk : k ∈ keys w
  · rw [row_append_of_mem _ hk] at hrow
    exact hw _ (mem_of_row hrow)
  · rw [row_append_of_notMem _ hk] at hrow
    exact hs k r hrow

theorem Deed.Fits.filed {p : ℕ} {h : Hist} {s : Db} {d : Deed} (H : d.Fits p h s) (hs : Keyed s)
    {v : Version Row} (hv : v ∈ d.versions) : Filed v := by
  cases d with
  | proposed a target e e₁ e₂ beside =>
    simp only [versions, submissionVersions, transitionVersions, proposalVersions, List.mem_append,
      List.mem_cons, List.not_mem_nil, or_false] at hv
    obtain ((hv | rfl | rfl) | rfl | rfl) | rfl | rfl | rfl := hv <;> try simp [Filed]
    have hroute := H.route
    cases hroute <;> (rw [List.mem_singleton.1 hv]; simp)
  | consumed id approvalId source before actor e m =>
    simp only [versions, List.mem_cons, List.not_mem_nil, or_false] at hv
    rcases hv with rfl | rfl | rfl | rfl
    · simp [Filed]
    · trivial
    · simpa [Filed] using hs _ _ H.found
    · simpa [Filed, Approval.approve] using hs _ _ H.foundApproval
  | moved id source target actor receipt e =>
    simp only [versions, List.mem_cons, List.not_mem_nil, or_false] at hv
    rcases hv with rfl | rfl
    · trivial
    · simpa [Filed] using hs _ _ H.found
  | published id m now =>
    rw [versions, List.mem_singleton] at hv
    subst hv
    simpa [Filed, OutboxMessage.publish] using hs _ _ H.found

theorem Fit.keyed {p : ℕ} {h : Hist} {s : Db} {ds : List Deed} (H : Fit p h s ds)
    (hs : Keyed s) : Keyed (versionsOf ds ++ s) := by
  induction ds with
  | nil => exact hs
  | cons d ds ih =>
    rw [versionsOf_cons, List.append_assoc]
    exact (ih H.2).append fun v hv => H.1.filed (ih H.2) hv

/-- **Rows are filed under their own ids** in every history of the service. -/
theorem keyed_of_valid {h : Hist} (hv : lifecycle.Valid h) : Keyed (committed h) := by
  induction h with
  | nil => exact fun k r hrow => by simp at hrow
  | cons ev h ih =>
    cases ev with
    | committed p w =>
      obtain ⟨-, ds, hcore, hfit⟩ := hv.1
      have hkeyed := hfit.keyed (ih hv.2)
      intro k r hrow
      by_cases hk : k.tracked = true
      · exact hkeyed k r ((row_of_core_eq hcore hk).symm.trans hrow)
      · cases k <;> simp [Key.tracked] at hk <;> trivial
    | ran | called | rolledBack | failed | crashed => exact ih hv.2

end Doda
