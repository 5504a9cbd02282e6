import Doda.Lifecycle.Core

/-!
# What the functions of the action lifecycle do

One specification for each function, under any contract whose commits are
audited: what it adds to the core of its transaction, which rows it has locked,
and what it may raise.

## Main definitions

* `createNotification_safe`, `announceReady_safe`, `requestApproval_safe` — what is
  written beside the action.
* `applyTransition_safe` — the one place a status changes.
-/

namespace Doda

open ReadCommitted

variable [Sha256] {C : Contract Row Answer} {p : ℕ} {h : Hist} {t : DbTx}

/-! ## Beside the action -/

theorem isNotificationTypeEnabled_safe (hC : AuditContract C) (hr : Ready C p h t)
    (customerId : Uuid) (recipientId : String) (type : NotificationType) :
    Safe C p (fun _ h' t' => Onward p h t h' t' ∧ Ready C p h' t' ∧ t' = t) (Broken p h t)
      (isNotificationTypeEnabled customerId recipientId type) h t := by
  unfold isNotificationTypeEnabled
  split
  · exact ⟨.refl h t, hr, rfl⟩
  · refine Safe.step (Safe.get _) (.refl h t) (fun _ _ _ => id) ?_
    rintro x h' t' ⟨rfl, hl, ho, -, -⟩
    exact ⟨ho, hr.read hC ho hl, rfl⟩

/-- A notification leaves the core alone. -/
theorem createNotification_safe (hC : AuditContract C) (hm : MinorFree C) (hr : Ready C p h t)
    (customerId : Uuid) (workspaceId : Option Uuid) (recipientId : String)
    (type : NotificationType) (referenceType : String) (referenceId : Uuid)
    (safeMetadata : Json) :
    Safe C p (fun _ h' t' => Onward p h t h' t' ∧ Ready C p h' t' ∧
        core t'.writes = core t.writes) (Broken p h t)
      (createNotification customerId workspaceId recipientId type referenceType referenceId
        safeMetadata) h t := by
  unfold createNotification
  refine Safe.step (isNotificationTypeEnabled_safe hC hr _ _ _) (.refl h t) (fun _ _ _ => id) ?_
  rintro enabled h₁ t₁ ⟨ho₁, hr₁, rfl⟩
  split
  · refine Safe.step (minor_safe hm hr₁.toLive trivial) ho₁ (fun _ _ _ => id) ?_
    rintro nid h₂ t₂ ⟨rfl, hl₂, -, -, -, ho₂⟩
    refine Safe.step (minor_safe hm hl₂ trivial) (ho₁.trans ho₂) (fun _ _ _ => id) ?_
    rintro createdAt h₃ t₃ ⟨rfl, hl₃, -, -, -, ho₃⟩
    have ho₁₃ := ho₂.trans ho₃
    extract_lets notification
    refine Safe.step (insert_safe hC (hr₁.read hC ho₁₃ hl₃) _ rfl) (ho₁.trans ho₁₃)
      (fun _ _ _ => id) ?_
    rintro - h₄ t₄ ⟨ho₄, hr₄, rfl, -⟩
    have ho₀₄ := (ho₁.trans ho₁₃).trans ho₄
    refine Safe.step (minor_safe hm hr₄.toLive trivial) ho₀₄ (fun _ _ _ => id) ?_
    rintro traceId h₅ t₅ ⟨rfl, hl₅, -, -, -, ho₅⟩
    refine Safe.step (recordAuditEvent_safe hC hm (hr₄.read hC ho₅ hl₅) _ _ _ _ _ _)
      (ho₀₄.trans ho₅) (fun _ _ _ => id) ?_
    rintro e h₆ t₆ ⟨he, hrec, ho₆, hr₆⟩
    refine ⟨(ho₀₄.trans ho₅).trans ho₆, hr₆, ?_⟩
    have hnone : e.actionId = none := by
      rw [AuditEvent.actionId, he.safeMetadata]
      rfl
    rw [hrec.core_eq, hnone]
    rfl
  · exact ⟨ho₁, hr₁, rfl⟩

/-- The message announces that the action is ready. -/
structure OutboxMessage.Announces (m : OutboxMessage) (action : Action) : Prop where
  customerId : m.customerId = action.customerId
  aggregateType : m.aggregateType = "action"
  aggregateId : m.aggregateId = action.id
  eventType : m.eventType = actionReadyEvent
  publishedAt : m.publishedAt = none

/-- A new row `k`, under a lock. -/
structure Inserted (h' : Hist) (t t' : DbTx) (k : Key) (v : Row k) : Prop where
  writes : t'.writes = ⟨k, some v⟩ :: t.writes
  locked : k ∈ t'.locks
  fresh : row (t.view (committed h')) k = none

theorem announceReady_safe (hC : AuditContract C) (hm : MinorFree C) (hr : Ready C p h t)
    (action : Action) (approvalId : Option Uuid) :
    Safe C p (fun m h' t' => Onward p h t h' t' ∧ Ready C p h' t' ∧ m.Announces action ∧
        Inserted h' t t' (.outboxMessage m.id) m) (Broken p h t)
      (announceReady action approvalId) h t := by
  unfold announceReady enqueueOutboxMessage
  refine Safe.step (minor_safe hm hr.toLive trivial) (.refl h t) (fun _ _ _ => id) ?_
  rintro mid h₁ t₁ ⟨rfl, hl₁, -, -, -, ho₁⟩
  refine Safe.step (minor_safe hm hl₁ trivial) ho₁ (fun _ _ _ => id) ?_
  rintro createdAt h₂ t₂ ⟨rfl, hl₂, -, -, -, ho₂⟩
  have ho₀₂ := ho₁.trans ho₂
  extract_lets message
  refine Safe.step (insert_safe hC (hr.read hC ho₀₂ hl₂) _ rfl) ho₀₂ (fun _ _ _ => id) ?_
  rintro - h₃ t₃ ⟨ho₃, hr₃, rfl, hrow⟩
  exact ⟨ho₀₂.trans ho₃, hr₃, ⟨rfl, rfl, rfl, rfl, rfl⟩, ⟨rfl, by simp [message], hrow⟩⟩

/-- The approval waits for a decision on the action's payload. -/
structure Approval.Awaits (a : Approval) (action : Action) : Prop where
  customerId : a.customerId = action.customerId
  actionId : a.actionId = action.id
  payloadHash : a.payloadHash = action.payloadHash
  status : a.status = .PENDING

theorem requestApproval_safe (hC : AuditContract C) (hm : MinorFree C) (hr : Ready C p h t)
    {action : Action} (hs : action.status = .AWAITING_APPROVAL) :
    Safe C p (fun a h' t' => Onward p h t h' t' ∧ Ready C p h' t' ∧ a.Awaits action ∧
        Inserted h' t t' (.approval a.id) a) (Broken p h t)
      (requestApproval action) h t := by
  unfold requestApproval
  rw [if_neg (by simpa using hs)]
  refine Safe.step (minor_safe hm hr.toLive trivial) (.refl h t) (fun _ _ _ => id) ?_
  rintro nonce h₁ t₁ ⟨rfl, hl₁, -, -, -, ho₁⟩
  refine Safe.step (minor_safe hm hl₁ trivial) ho₁ (fun _ _ _ => id) ?_
  rintro now h₂ t₂ ⟨rfl, hl₂, -, -, -, ho₂⟩
  refine Safe.step (minor_safe hm hl₂ trivial) (ho₁.trans ho₂) (fun _ _ _ => id) ?_
  rintro aid h₃ t₃ ⟨rfl, hl₃, -, -, -, ho₃⟩
  refine Safe.step (minor_safe hm hl₃ trivial) ((ho₁.trans ho₂).trans ho₃) (fun _ _ _ => id) ?_
  rintro createdAt h₄ t₄ ⟨rfl, hl₄, -, -, -, ho₄⟩
  have ho₀₄ := ((ho₁.trans ho₂).trans ho₃).trans ho₄
  extract_lets approval
  refine Safe.step (insert_safe hC (hr.read hC ho₀₄ hl₄) _ rfl) ho₀₄ (fun _ _ _ => id) ?_
  rintro - h₅ t₅ ⟨ho₅, hr₅, rfl, hrow⟩
  exact ⟨ho₀₄.trans ho₅, hr₅, ⟨rfl, rfl, rfl, rfl⟩, ⟨rfl, by simp [approval], hrow⟩⟩

/-! ## Transitions -/

/-- What an audit event says of a transition of `action`, whose status is the source. -/
def AuditEvent.Moves (e : AuditEvent) (action : Action) (target : ActionStatus)
    (actorId : String) (receipt : Option Json) : Prop :=
  e.Says action.customerId (some action.workspaceId) action.traceId actorId target.eventType
    (transitionMetadata action action.status target receipt)

/-- What an audit event says of a refused transition. -/
def AuditEvent.Refuses (e : AuditEvent) (action : Action) (target : ActionStatus)
    (actorId : String) : Prop :=
  e.Says action.customerId (some action.workspaceId) action.traceId actorId
    "action.transition_rejected.v1" (rejectionMetadata action action.status target)

/-- A transition was made, and is not committed yet: the action was `source` under
its lock. -/
structure Transitioned (p : ℕ) (h' : Hist) (t t' : DbTx) (source : Action) (id : Uuid)
    (target : ActionStatus) (actorId : String) (receipt : Option Json) (e : AuditEvent) :
    Prop where
  read : Event.ran p (.forUpdate (.action id)) (some source) ∈ h'
  found : row (t.view (committed h')) (.action id) = some source
  allowed : target ∈ allowedTransitions source.status
  locked : Key.action id ∈ t'.locks
  event : e.Moves source target actorId receipt
  wrote : core t'.writes = ⟨.auditEvent e.id, some e⟩ ::
    ⟨.action id, some (source.setStatus target)⟩ :: core t.writes

/-- A transition was refused, which is recorded and not committed. -/
structure Refused (p : ℕ) (h' : Hist) (t t' : DbTx) (source : Action) (id : Uuid)
    (target : ActionStatus) (actorId : String) (e : AuditEvent) : Prop where
  read : Event.ran p (.forUpdate (.action id)) (some source) ∈ h'
  found : row (t.view (committed h')) (.action id) = some source
  refused : target ∉ allowedTransitions source.status
  locked : Key.action id ∈ t'.locks
  event : e.Refuses source target actorId
  wrote : core t'.writes = ⟨.auditEvent e.id, some e⟩ :: core t.writes

/-- What a transition may raise. -/
inductive TransitionFailed (C : Contract Row Answer) (p : ℕ) (h : Hist) (t : DbTx)
    (id : Uuid) (target : ActionStatus) (actorId : String) (err : Err) (h' : Hist)
    (t' : DbTx) : Prop where
  | broken (hb : Broken p h t err h' t')
  | noReceipt (hs : target = .SUCCEEDED) (he : err = .missingProviderReceipt id) (hh : h' = h)
      (ht : t' = t)
  | refused (source : Action) (e : AuditEvent)
      (he : err = .invalidActionTransition source.status target)
      (hr : Refused p h' t t' source id target actorId e) (ho : Onward p h t h' t')
      (hready : Ready C p h' t')

theorem notifyTransition_safe (hC : AuditContract C) (hm : MinorFree C) (hr : Ready C p h t)
    (action : Action) (target : ActionStatus) :
    Safe C p (fun _ h' t' => Onward p h t h' t' ∧ Ready C p h' t' ∧
        core t'.writes = core t.writes) (Broken p h t)
      (notifyTransition action target) h t := by
  unfold notifyTransition
  split
  · exact Safe.step (createNotification_safe hC hm hr _ _ _ _ _ _ _) (.refl h t)
      (fun _ _ _ => id) fun _ _ _ => id
  · exact Safe.step (createNotification_safe hC hm hr _ _ _ _ _ _ _) (.refl h t)
      (fun _ _ _ => id) fun _ _ _ => id
  · exact ⟨.refl h t, hr, rfl⟩

/-- **`applyTransition` makes one allowed transition** of the action as it is under
its lock, and records it; or the state machine refuses. -/
theorem applyTransition_safe (hC : AuditContract C) (hm : MinorFree C) (hr : Ready C p h t)
    {action : Action} (hk : C.Keeps (.action action.id))
    (hrow : (row (t.view (committed h)) (.action action.id)).isSome) (target : ActionStatus)
    (actorId : String) (receipt : Option Json) :
    Safe C p (fun a h' t' => Onward p h t h' t' ∧ Ready C p h' t' ∧ ∃ source e,
        a = source.setStatus target ∧
        Transitioned p h' t t' source action.id target actorId receipt e)
      (TransitionFailed C p h t action.id target actorId)
      (applyTransition action target actorId receipt) h t := by
  unfold applyTransition
  extract_lets actionId
  split
  · rename_i hs
    exact .noReceipt hs.1 rfl rfl rfl
  -- lock the row, which is there
  refine Safe.step (Safe.forUpdate _) (.refl h t) (fun _ _ _ => .broken) ?_
  rintro x h₁ t₁ ⟨hl₁, ho₁, hx, ht₁, hread⟩
  obtain ⟨source, hsource⟩ := Option.isSome_iff_exists.1 (hk.isSome_view ho₁.suffix hl₁.valid hrow)
  obtain rfl : x = some source := hx.trans hsource
  simp only [Option.isSome_some, if_true] at ht₁
  have hw₁ : t₁.writes = t.writes := by rw [ht₁, Tx.lock_writes]
  have hlock : Key.action action.id ∈ t₁.locks := by simp [ht₁, actionId]
  have hr₁ : Ready C p h₁ t₁ := hr.onward hC ho₁ hl₁ [] hw₁ (by simp)
  have hstays : ∀ h' t', Onward p h₁ t₁ h' t' →
      row (t.view (committed h')) (.action action.id) = some source := fun h' t' ho => by
    rw [Tx.view, row_append_congr _ (ho.row_eq hlock), ← Tx.view, hsource]
  simp only [Option.getD_some]
  cases htr : transition source.status target with
  | none =>
    refine Safe.step (recordAuditEvent_safe hC hm hr₁ _ _ _ _ _ _) ho₁ (fun _ _ _ => .broken) ?_
    rintro e h₂ t₂ ⟨he, hrec, ho₂, hr₂⟩
    have hid : e.actionId.isSome := by
      rw [AuditEvent.actionId, he.safeMetadata]
      rfl
    refine .refused source e rfl ⟨ho₂.suffix.subset hread, hstays h₂ t₂ ho₂,
      transition_eq_none.1 htr, ho₂.locks _ hlock, he, ?_⟩ (ho₁.trans ho₂) hr₂
    rw [hrec.core_eq, hw₁, if_pos hid]
    rfl
  | some status =>
    obtain ⟨hallowed, rfl⟩ := transition_eq_some.1 htr
    refine Safe.step (Safe.update _ _) ho₁ (fun _ _ _ => .broken) ?_
    rintro - h₂ t₂ ⟨hl₂, ho₂, v, hv, rfl⟩
    obtain rfl : v = source := by
      have := hstays h₂ _ ho₂
      rw [Tx.view, hw₁, ← Tx.view] at hv
      exact Option.some.inj (hv.symm.trans this)
    have hr₂ := hr₁.onward hC ho₂ hl₂ [⟨.action actionId, some (v.setStatus status)⟩] rfl
      (by simp [Key.auditing])
    refine Safe.step (recordAuditEvent_safe hC hm hr₂ _ _ _ _ _ _) (ho₁.trans ho₂)
      (fun _ _ _ => .broken) ?_
    rintro e h₃ t₃ ⟨he, hrec, ho₃, hr₃⟩
    refine Safe.step (notifyTransition_safe hC hm hr₃ _ _) ((ho₁.trans ho₂).trans ho₃)
      (fun _ _ _ => .broken) ?_
    rintro - h₄ t₄ ⟨ho₄, hr₄, hcore⟩
    have ho₁₄ := (ho₂.trans ho₃).trans ho₄
    have hid : e.actionId.isSome := by
      rw [AuditEvent.actionId, he.safeMetadata]
      rfl
    refine ⟨ho₁.trans ho₁₄, hr₄, v, e, rfl, ho₁₄.suffix.subset hread, hstays h₄ t₄ ho₁₄, hallowed,
      ho₁₄.locks _ hlock, he, ?_⟩
    rw [hcore, hrec.core_eq, if_pos hid, Tx.write_writes, hw₁]
    rfl

/-! ## Proposing -/

/-- An exception that left the transaction's writes as they were. -/
inductive Raised (C : Contract Row Answer) (p : ℕ) (h : Hist) (t : DbTx) (err : Err) (h' : Hist)
    (t' : DbTx) : Prop where
  | broken (hb : Broken p h t err h' t')
  | untouched (ho : Onward p h t h' t') (hr : Ready C p h' t') (hw : t'.writes = t.writes)

theorem assertNotKilled_safe (hC : AuditContract C) (hr : Ready C p h t)
    (customerId workspaceId : Uuid) :
    Safe C p (fun _ h' t' => Onward p h t h' t' ∧ Ready C p h' t' ∧ t' = t) (Raised C p h t)
      (assertNotKilled customerId workspaceId) h t := by
  unfold assertNotKilled
  refine Safe.step (Safe.get _) (.refl h t) (fun _ _ _ => .broken) ?_
  rintro x h₁ t₁ ⟨rfl, hl₁, ho₁, -, -⟩
  split
  · exact .untouched ho₁ (hr.read hC ho₁ hl₁) rfl
  refine Safe.step (Safe.get _) ho₁ (fun _ _ _ => .broken) ?_
  rintro x h₂ t₂ ⟨rfl, hl₂, ho₂, -, -⟩
  have ho₀₂ := ho₁.trans ho₂
  split
  · exact .untouched ho₀₂ (hr.read hC ho₀₂ hl₂) rfl
  · exact ⟨ho₀₂, hr.read hC ho₀₂ hl₂, rfl⟩

/-- What an audit event says of a proposal. -/
def AuditEvent.Proposes (e : AuditEvent) (action : Action) (actorId : String) : Prop :=
  e.Says action.customerId (some action.workspaceId) action.traceId actorId "action.proposed.v1"
    (proposedMetadata action)

/-- The key under which an action's idempotency key is unique. -/
def Action.idempotency (a : Action) : Key :=
  .actionIdempotency a.customerId a.workspaceId a.idempotencyKey

/-- The versions of a proposal, newest first. -/
def proposalVersions (a : Action) (e : AuditEvent) : Db :=
  [⟨.auditEvent e.id, some e⟩,
    ⟨.actionIdempotency a.customerId a.workspaceId a.idempotencyKey, some a.id⟩,
    ⟨.action a.id, some a⟩]

/-- The action that a proposal with these arguments creates. -/
def newAction (id customerId workspaceId traceId : Uuid) (actorId toolName : String)
    (riskLevel : RiskLevel) (payload : Json) (idempotencyKey : String) (taskId : Option Uuid) :
    Action :=
  { id, customerId, workspaceId, traceId, taskId, actorId, toolName,
    riskLevel := enforceMinimumRiskLevel toolName riskLevel, payload,
    payloadHash := hashPayload payload, idempotencyKey, status := .DRAFT }

/-- A new action was proposed, and is not committed yet. -/
structure Proposed (h' : Hist) (t t' : DbTx) (a : Action) (actorId : String) (e : AuditEvent) :
    Prop where
  locked : Key.action a.id ∈ t'.locks ∧ a.idempotency ∈ t'.locks
  fresh : row (t.view (committed h')) (.action a.id) = none ∧
    row (t.view (committed h')) a.idempotency = none
  event : e.Proposes a actorId
  wrote : core t'.writes = proposalVersions a e ++ core t.writes

/-- **`proposeAction` creates the action, or finds the one that holds the key.** -/
theorem proposeAction_safe (hC : AuditContract C) (hm : MinorFree C) (hr : Ready C p h t)
    (customerId workspaceId traceId : Uuid) (actorId toolName : String) (riskLevel : RiskLevel)
    (payload : Json) (idempotencyKey : String) (taskId : Option Uuid) :
    Safe C p (fun x h' t' => Onward p h t h' t' ∧ Ready C p h' t' ∧
        ((x.2 = true ∧ ∃ id e, x.1 = newAction id customerId workspaceId traceId actorId toolName
              riskLevel payload idempotencyKey taskId ∧ Proposed h' t t' x.1 actorId e) ∨
          (x.2 = false ∧ t'.writes = t.writes ∧ ∃ i,
            row (t.view (committed h')) (.actionIdempotency customerId workspaceId idempotencyKey) =
              some i ∧
            row (t.view (committed h')) (.action i) = some x.1)))
      (Raised C p h t)
      (proposeAction customerId workspaceId traceId actorId toolName riskLevel payload
        idempotencyKey taskId) h t := by
  unfold proposeAction
  refine Safe.bind (assertNotKilled_safe hC hr _ _) ?_
  rintro - h₁ t₁ ⟨ho₁, hr₁, rfl⟩
  extract_lets riskLevel'
  refine Safe.step (minor_safe hm hr₁.toLive trivial) ho₁ (fun _ _ _ => .broken) ?_
  rintro aid h₂ t₂ ⟨rfl, hl₂, -, -, -, ho₂⟩
  have ho₀₂ := ho₁.trans ho₂
  have hr₂ := hr.read hC ho₀₂ hl₂
  extract_lets action
  refine Safe.step (Safe.tryInsert _) ho₀₂ (fun _ _ _ => .broken) ?_
  rintro inserted h₃ t₃ ⟨hl₃, ho₃, ⟨rfl, rfl, hnone⟩ | ⟨rfl, rfl, -⟩⟩
  · -- the key was free
    have hr₃ := hr₂.onward hC ho₃ hl₃
      [⟨.actionIdempotency customerId workspaceId idempotencyKey, some aid⟩,
        ⟨.action aid, some action⟩] rfl (by simp [Key.auditing])
    rw [if_pos rfl]
    refine Safe.step (recordAuditEvent_safe hC hm hr₃ _ _ _ _ _ _) (ho₀₂.trans ho₃)
      (fun _ _ _ => .broken) ?_
    rintro e h₄ t₄ ⟨he, hrec, ho₄, hr₄⟩
    have hid : e.actionId.isSome := by
      rw [AuditEvent.actionId, he.safeMetadata]
      rfl
    have hlock : Key.action aid ∈ t₄.locks ∧
        Key.actionIdempotency customerId workspaceId idempotencyKey ∈ t₄.locks :=
      ⟨ho₄.locks _ (by simp [Entry.version]), ho₄.locks _ (by simp [Entry.version])⟩
    have hfresh : ∀ k ∈ [Key.action aid,
        .actionIdempotency customerId workspaceId idempotencyKey],
        row (t₂.view (committed h₄)) k = none := fun k hk => by
      have hheld : k ∈ (t₂.write (List.map Entry.version [⟨.action aid, action⟩,
          ⟨.actionIdempotency customerId workspaceId idempotencyKey, aid⟩])).locks := by
        rcases List.mem_pair.1 hk with rfl | rfl <;> simp [Entry.version]
      rw [Tx.view, row_append_congr _ (ho₄.row_eq hheld), ← Tx.view]
      rcases List.mem_pair.1 hk with rfl | rfl
      · exact hnone _ (List.mem_cons_self ..)
      · exact hnone _ (List.mem_cons_of_mem _ (List.mem_cons_self ..))
    refine ⟨(ho₀₂.trans ho₃).trans ho₄, hr₄, .inl ⟨rfl, aid, e, rfl, hlock,
      ⟨hfresh (.action aid) (by simp),
        hfresh (.actionIdempotency customerId workspaceId idempotencyKey) (by simp)⟩, he, ?_⟩⟩
    rw [hrec.core_eq, if_pos hid]
    rfl
  · -- it was not: read the action that holds it
    rw [if_neg (by simp)]
    refine Safe.step Safe.view (ho₀₂.trans ho₃) (fun _ _ _ => .broken) ?_
    rintro db h₄ t₄ ⟨rfl, hl₄, ho₄, rfl, -⟩
    have ho₀₄ := (ho₀₂.trans ho₃).trans ho₄
    split
    · exact .untouched ho₀₄ (hr.read hC ho₀₄ hl₄) rfl
    · rename_i existing hex
      obtain ⟨i, hi, hrow⟩ := Option.bind_eq_some_iff.1 hex
      exact ⟨ho₀₄, hr.read hC ho₀₄ hl₄, .inr ⟨rfl, rfl, i, hi, hrow⟩⟩

/-! ## Submitting -/

omit [Sha256] in
/-- A row as the transaction wrote it. -/
theorem row_view_of_writes {k : Key} {v : Row k} (hw : row t.writes k = some v) (c : Db) :
    row (t.view c) k = some v := by
  rw [Tx.view, row_append_of_mem _ (mem_keys_of_row hw), hw]

omit [Sha256] in
theorem Transitioned.row_writes {t t' : DbTx} {source : Action} {id : Uuid}
    {target : ActionStatus} {actorId : String} {receipt : Option Json} {e : AuditEvent}
    (H : Transitioned p h t t' source id target actorId receipt e) :
    row t'.writes (.action id) = some (source.setStatus target) := by
  have := row_core_append (k := .action id) rfl t'.writes []
  rw [List.append_nil, List.append_nil] at this
  rw [← this, H.wrote, row_cons_ne _ _ (by simp), row_cons_self]

/-- The versions of a transition, newest first. -/
def transitionVersions (a : Action) (target : ActionStatus) (e : AuditEvent) : Db :=
  [⟨.auditEvent e.id, some e⟩, ⟨.action a.id, some (a.setStatus target)⟩]

/-- A transition of an action that this transaction wrote. -/
theorem applyTransition_own_safe (hC : AuditContract C) (hm : MinorFree C)
    (hk : ∀ i, C.Keeps (.action i)) (hr : Ready C p h t) {action : Action}
    (hown : row t.writes (.action action.id) = some action) (target : ActionStatus)
    (htarget : target ∈ allowedTransitions action.status) (hs : target ≠ .SUCCEEDED)
    (actorId : String) :
    Safe C p (fun a h' t' => Onward p h t h' t' ∧ Ready C p h' t' ∧
        a = action.setStatus target ∧ row t'.writes (.action action.id) = some a ∧
        ∃ e, e.Moves action target actorId none ∧
          core t'.writes = transitionVersions action target e ++ core t.writes)
      (Broken p h t) (applyTransition action target actorId) h t := by
  have hview : ∀ c, row (t.view c) (.action action.id) = some action := row_view_of_writes hown
  refine (applyTransition_safe hC hm hr (hk _) (by rw [hview]; rfl) target actorId none).mono ?_ ?_
  · rintro a h' t' ⟨ho, hr', source, e, rfl, H⟩
    obtain rfl : action = source := Option.some.inj ((hview _).symm.trans H.found)
    exact ⟨ho, hr', rfl, H.row_writes, e, H.event, H.wrote⟩
  · rintro err h' t' (hb | ⟨hs', -, -, -⟩ | ⟨source, e, -, H, -, -⟩)
    · exact hb
    · exact absurd hs' hs
    · obtain rfl : action = source := Option.some.inj ((hview _).symm.trans H.found)
      exact absurd htarget H.refused

/-- How validation routes an action, by its risk level alone, and what it leaves beside
the transition: the announcement of a ready action, or an approval to decide. -/
inductive Routed (a : Action) : ActionStatus → Db → Prop where
  | ready (m : OutboxMessage) (hr : a.riskLevel ∈ autoApprovedRiskLevels) (hm : m.Announces a) :
      Routed a .READY [⟨.outboxMessage m.id, some m⟩]
  | approval (ap : Approval) (hr : a.riskLevel ∉ autoApprovedRiskLevels) (ha : ap.Awaits a) :
      Routed a .AWAITING_APPROVAL [⟨.approval ap.id, some ap⟩]

/-- The versions that submitting writes, newest first. -/
def submissionVersions (a : Action) (target : ActionStatus) (e₁ e₂ : AuditEvent) (rest : Db) : Db :=
  rest ++ transitionVersions (a.setStatus .VALIDATING) target e₂ ++
    transitionVersions a .VALIDATING e₁

/-- An action was submitted, and is not committed yet. -/
structure Submitted (h' : Hist) (t t' : DbTx) (a : Action) (actorId : String)
    (target : ActionStatus) (e₁ e₂ : AuditEvent) (rest : Db) : Prop where
  validating : e₁.Moves a .VALIDATING actorId none
  routed : e₂.Moves (a.setStatus .VALIDATING) target actorId none
  route : Routed a target rest
  locked : ∀ k ∈ keys rest, k ∈ t'.locks
  fresh : ∀ k ∈ keys rest, row (t.view (committed h')) k = none
  wrote : core t'.writes = submissionVersions a target e₁ e₂ rest ++ core t.writes

omit [Sha256] in
theorem row_view_of_submission {t t' : DbTx} {a : Action} {target : ActionStatus}
    {e₁ e₂ : AuditEvent}
    (hcore : core t'.writes = submissionVersions a target e₁ e₂ [] ++ core t.writes) {k : Key}
    (hk : k.tracked = true) (ha : k ≠ .action a.id) (c : Db) :
    row (t'.view c) k = row (t.view c) k := by
  refine row_view_of_core_eq hcore hk ?_ c
  cases k <;> simp_all [Key.tracked, submissionVersions, transitionVersions]

theorem validateAction_safe (hC : AuditContract C) (hm : MinorFree C)
    (hk : ∀ i, C.Keeps (.action i)) (hr : Ready C p h t) {action : Action}
    (hown : row t.writes (.action action.id) = some action) (hdraft : action.status = .DRAFT)
    (actorId : String) :
    Safe C p (fun a h' t' => Onward p h t h' t' ∧ Ready C p h' t' ∧ ∃ target e₁ e₂,
        a = action.setStatus target ∧
        ((target = .READY ∧ ∃ m, Submitted h' t t' action actorId target e₁ e₂
            [⟨.outboxMessage m.id, some m⟩]) ∨
          (target = .AWAITING_APPROVAL ∧ action.riskLevel ∉ autoApprovedRiskLevels ∧
            e₁.Moves action .VALIDATING actorId none ∧
            e₂.Moves (action.setStatus .VALIDATING) target actorId none ∧
            core t'.writes = submissionVersions action target e₁ e₂ [] ++ core t.writes)))
      (Broken p h t) (validateAction action actorId) h t := by
  unfold validateAction
  refine Safe.step (applyTransition_own_safe hC hm hk hr hown .VALIDATING
    (by simp [hdraft, allowedTransitions]) (by simp) actorId) (.refl h t) (fun _ _ _ => id) ?_
  rintro _ h₁ t₁ ⟨ho₁, hr₁, rfl, hown₁, e₁, he₁, hcore₁⟩
  split
  · rename_i hrisk
    refine Safe.step (applyTransition_own_safe hC hm hk hr₁ hown₁ .READY
      (by simp [allowedTransitions]) (by simp) actorId) ho₁ (fun _ _ _ => id) ?_
    rintro _ h₂ t₂ ⟨ho₂, hr₂, rfl, hown₂, e₂, he₂, hcore₂⟩
    rw [hcore₁, ← List.append_assoc] at hcore₂
    refine Safe.step (announceReady_safe hC hm hr₂ _ _) (ho₁.trans ho₂) (fun _ _ _ => id) ?_
    rintro m h₃ t₃ ⟨ho₃, hr₃, hann, hins⟩
    have hann' : m.Announces action := ⟨hann.1, hann.2, hann.3, hann.4, hann.5⟩
    refine ⟨(ho₁.trans ho₂).trans ho₃, hr₃, .READY, e₁, e₂, rfl, .inl ⟨rfl, m, he₁, he₂,
      .ready m hrisk hann', by simpa using hins.locked, ?_, ?_⟩⟩
    · simp only [keys_cons, keys_nil, List.mem_singleton, forall_eq]
      rw [← row_view_of_submission hcore₂ rfl (by simp)]
      exact hins.fresh
    · rw [hins.writes, core_cons_tracked rfl, hcore₂]
      rfl
  · rename_i hrisk
    refine (applyTransition_own_safe hC hm hk hr₁ hown₁ .AWAITING_APPROVAL
      (by simp [allowedTransitions]) (by simp) actorId).mono ?_ fun _ _ _ hb => hb.of_onward ho₁
    rintro _ h₂ t₂ ⟨ho₂, hr₂, rfl, hown₂, e₂, he₂, hcore₂⟩
    rw [hcore₁, ← List.append_assoc] at hcore₂
    exact ⟨ho₁.trans ho₂, hr₂, .AWAITING_APPROVAL, e₁, e₂, rfl, .inr ⟨rfl, hrisk, he₁, he₂, hcore₂⟩⟩

/-- **Submitting a new action** validates it and routes it. -/
theorem submitActionForExecution_safe (hC : AuditContract C) (hm : MinorFree C)
    (hk : ∀ i, C.Keeps (.action i)) (hr : Ready C p h t) {action : Action}
    (hown : row t.writes (.action action.id) = some action) (hdraft : action.status = .DRAFT)
    (actorId : String) :
    Safe C p (fun x h' t' => Onward p h t h' t' ∧ Ready C p h' t' ∧ ∃ target e₁ e₂ rest,
        x.1 = action.setStatus target ∧
        Submitted h' t t' action actorId target e₁ e₂ rest)
      (Broken p h t) (submitActionForExecution action actorId) h t := by
  unfold submitActionForExecution
  refine Safe.step (validateAction_safe hC hm hk hr hown hdraft actorId) (.refl h t)
    (fun _ _ _ => id) ?_
  rintro _ h₁ t₁ ⟨ho₁, hr₁, target, e₁, e₂, rfl, ⟨rfl, m, H⟩ | ⟨rfl, hrisk, he₁, he₂, hcore⟩⟩
  · rw [if_neg (by simp)]
    exact ⟨ho₁, hr₁, _, e₁, e₂, _, rfl, H⟩
  · rw [if_pos (Action.setStatus_status ..)]
    refine Safe.step (requestApproval_safe hC hm hr₁ rfl) ho₁ (fun _ _ _ => id) ?_
    rintro a h₂ t₂ ⟨ho₂, hr₂, hawaits, hins⟩
    have hawaits' : a.Awaits action := ⟨hawaits.1, hawaits.2, hawaits.3, hawaits.4⟩
    refine ⟨ho₁.trans ho₂, hr₂, _, e₁, e₂, _, rfl, he₁, he₂, .approval a hrisk hawaits',
      by simpa using hins.locked, ?_, ?_⟩
    · simp only [keys_cons, keys_nil, List.mem_singleton, forall_eq]
      rw [← row_view_of_submission hcore rfl (by simp)]
      exact hins.fresh
    · rw [hins.writes, core_cons_tracked rfl, hcore]
      rfl

/-! ## Approving -/

/-- `compare_digest` is true: both texts are ASCII, and equal. -/
def digestsMatch (a b : String) : Prop :=
  (a.toList.all (·.toNat < 128) ∧ b.toList.all (·.toNat < 128)) ∧ a = b

omit [Sha256] in
theorem compareDigest_safe {a b : String} {Q : Bool → Hist → DbTx → Prop}
    {X : Err → Hist → DbTx → Prop} (hQ : ∀ x, (x = true ↔ digestsMatch a b) → Q x h t)
    (hX : ¬ digestsMatch a b → ∀ e, X e h t) : Safe C p Q X (compareDigest a b) h t := by
  unfold compareDigest
  split
  · rename_i hab
    exact hQ _ (by simp [digestsMatch, hab])
  · rename_i hab
    exact hX (fun hd => hab hd.1) _

/-- What consuming an approval may raise, and why. -/
inductive ConsumeFailed (p : ℕ) (h : Hist) (t : DbTx) (action : Action) (approval : Approval)
    (nonce : String) (err : Err) (h' : Hist) (t' : DbTx) : Prop where
  | broken (hb : Broken p h t err h' t')
  /-- It is decided already, or the nonce is wrong. -/
  | unfit (hu : approval.status ≠ .PENDING ∨ ¬ digestsMatch approval.nonce nonce)
      (ho : Onward p h t h' t')
  /-- It has expired, or the payload has changed. -/
  | denied (hs : approval.status = .PENDING) (hn : digestsMatch approval.nonce nonce) (now : Time)
      (hnow : Event.called p (.utcnow (.expiry approval.id)) now ∈ h')
      (hd : approval.expiresAt < now ∨ approval.payloadHash ≠ action.payloadHash)
      (ho : Onward p h t h' t')
  /-- The state machine refused. -/
  | refused (hs : approval.status = .PENDING) (hn : digestsMatch approval.nonce nonce) (now : Time)
      (hnow : Event.called p (.utcnow (.expiry approval.id)) now ∈ h')
      (hd : now ≤ approval.expiresAt ∧ approval.payloadHash = action.payloadHash)
      (source : Action) (hread : Event.ran p (.forUpdate (.action action.id)) (some source) ∈ h')
      (hsource : ActionStatus.READY ∉ allowedTransitions source.status) (ho : Onward p h t h' t')

/-- An approval was consumed, and is not committed yet. -/
structure Consumed (p : ℕ) (h' : Hist) (t t' : DbTx) (action : Action) (approval : Approval)
    (approverId nonce : String) (now : Time) (source : Action) (e : AuditEvent)
    (m : OutboxMessage) (before : Approval) : Prop where
  pending : approval.status = .PENDING
  nonce : digestsMatch approval.nonce nonce
  reading : Event.called p (.utcnow (.expiry approval.id)) now ∈ h'
  inTime : now ≤ approval.expiresAt
  payload : approval.payloadHash = action.payloadHash
  readSource : Event.ran p (.forUpdate (.action action.id)) (some source) ∈ h'
  foundSource : row (t.view (committed h')) (.action action.id) = some source
  allowed : ActionStatus.READY ∈ allowedTransitions source.status
  found : row (t.view (committed h')) (.approval approval.id) = some before
  event : e.Moves source .READY approverId none
  message : m.Announces source
  fresh : row (t.view (committed h')) (.outboxMessage m.id) = none
  locked : ∀ k ∈ [Key.action action.id, .approval approval.id, .outboxMessage m.id], k ∈ t'.locks
  wrote : core t'.writes = ⟨.outboxMessage m.id, some m⟩ :: ⟨.auditEvent e.id, some e⟩ ::
    ⟨.action action.id, some (source.setStatus .READY)⟩ ::
    ⟨.approval approval.id, some { before with status := .APPROVED, approverId := some approverId }⟩
    :: core t.writes

omit [Sha256] in
/-- A row of another key is there after an update as before it. -/
theorem isSome_view_update (hk : ∀ i, C.Keeps (.action i)) {h' : Hist} {i j : Uuid}
    {v : Option Approval} (ho : Onward p h t h' (t.write [⟨.approval j, v⟩])) (hv : C.Valid h')
    (hrow : (row (t.view (committed h)) (.action i)).isSome) :
    (row ((t.write [⟨.approval j, v⟩]).view (committed h')) (.action i)).isSome := by
  rw [Tx.view, Tx.write_writes, List.reverse_singleton, List.singleton_append, List.cons_append,
    row_cons_ne _ _ (by simp), ← Tx.view]
  exact (hk i).isSome_view ho.suffix hv hrow

/-- Denying: the approval and the action are changed, and then an exception is raised. -/
theorem denyApproval_safe (hC : AuditContract C) (hm : MinorFree C)
    (hk : ∀ i, C.Keeps (.action i)) (hr : Ready C p h t) {action : Action}
    (hrow : (row (t.view (committed h)) (.action action.id)).isSome) (approval : Approval)
    (status : ApprovalStatus) (target : ActionStatus) (approverId : String) (err : Err)
    (Q : Action → Hist → DbTx → Prop) :
    Safe C p Q (fun e h' t' => Broken p h t e h' t' ∨ Onward p h t h' t')
      (do
        setApprovalStatus approval status
        let _ ← applyTransition action target approverId
        throw err) h t := by
  refine Safe.step (Safe.update _ _) (.refl h t) (fun _ _ _ => .inl) ?_
  rintro - h₁ t₁ ⟨hl₁, ho₁, v, -, rfl⟩
  have hr₁ := hr.onward hC ho₁ hl₁ [⟨.approval approval.id, some { v with status := status }⟩] rfl
    (by simp [Key.auditing])
  refine Safe.bind ((applyTransition_safe hC hm hr₁ (hk _)
    (isSome_view_update hk ho₁ hl₁.valid hrow) target approverId none).mono
    (Q := fun _ h' t' => Onward p h t h' t') ?_ ?_) ?_
  · rintro a h₂ t₂ ⟨ho₂, -⟩
    exact ho₁.trans ho₂
  · rintro e h₂ t₂ (hb | ⟨-, -, rfl, rfl⟩ | ⟨-, -, -, -, ho₂, -⟩)
    · exact .inl (hb.of_onward ho₁)
    · exact .inr ho₁
    · exact .inr (ho₁.trans ho₂)
  · intro a h₂ t₂ ho₂
    exact .inr ho₂

/-- **Consuming an approval** makes the action ready, once. -/
theorem consumeApproval_safe (hC : AuditContract C) (hm : MinorFree C)
    (hk : ∀ i, C.Keeps (.action i)) (hr : Ready C p h t) {action : Action}
    (hrow : (row (t.view (committed h)) (.action action.id)).isSome) (approval : Approval)
    (approverId nonce : String) :
    Safe C p (fun a h' t' => Onward p h t h' t' ∧ Ready C p h' t' ∧ ∃ now source e m before,
        a = source.setStatus .READY ∧
        Consumed p h' t t' action approval approverId nonce now source e m before)
      (ConsumeFailed p h t action approval nonce)
      (consumeApproval action approval approverId nonce) h t := by
  unfold consumeApproval
  extract_lets approve checkPayload checkExpiry checkNonce
  by_cases hs : approval.status = .PENDING
  swap
  · rw [if_pos hs]
    exact .unfit (.inl hs) (.refl h t)
  rw [if_neg (not_not.2 hs)]
  refine Safe.bind (compareDigest_safe
    (Q := fun x h' t' => h' = h ∧ t' = t ∧ (x = true ↔ digestsMatch approval.nonce nonce))
    (fun _ hx => ⟨rfl, rfl, hx⟩) fun hn _ => .unfit (.inr hn) (.refl h t)) ?_
  rintro x h t ⟨rfl, rfl, hx⟩
  by_cases hn : digestsMatch approval.nonce nonce
  swap
  · rw [if_pos (mt hx.1 hn)]
    exact .unfit (.inr hn) (.refl h t)
  rw [if_neg (not_not.2 (hx.2 hn))]
  refine Safe.step (minor_safe hm hr.toLive trivial) (.refl h t) (fun _ _ _ => .broken) ?_
  rintro now _ t₁ ⟨rfl, hl₁, h₁, rfl, -, ho₁⟩
  have hr₁ := hr.read hC ho₁ hl₁
  have hrow₁ := (hk action.id).isSome_view ho₁.suffix hl₁.valid hrow
  have hnow : Event.called p (.utcnow (.expiry approval.id)) now ∈
      Event.called p (.utcnow (.expiry approval.id)) now :: h₁ := List.mem_cons_self ..
  split
  · rename_i hexp
    refine (denyApproval_safe hC hm hk hr₁ hrow₁ approval _ _ _ _ _).mono (fun _ _ _ => id) ?_
    rintro err h' t' (hb | ho)
    · exact .broken (hb.of_onward ho₁)
    · exact .denied hs hn now (ho.suffix.subset hnow) (.inl hexp) (ho₁.trans ho)
  rename_i hexp
  simp only [checkPayload]
  split
  · rename_i hpay
    refine (denyApproval_safe hC hm hk hr₁ hrow₁ approval _ _ _ _ _).mono (fun _ _ _ => id) ?_
    rintro err h' t' (hb | ho)
    · exact .broken (hb.of_onward ho₁)
    · exact .denied hs hn now (ho.suffix.subset hnow) (.inr hpay) (ho₁.trans ho)
  rename_i hpay
  have hd : now ≤ approval.expiresAt ∧ approval.payloadHash = action.payloadHash :=
    ⟨Nat.not_lt.1 hexp, not_not.1 hpay⟩
  simp only [approve]
  refine Safe.step (Safe.update _ _) ho₁ (fun _ _ _ => .broken) ?_
  rintro - h₂ t₂ ⟨hl₂, ho₂, before, hbefore, rfl⟩
  set after : Approval := { before with status := .APPROVED, approverId := some approverId }
  have hr₂ := hr₁.onward hC ho₂ hl₂ [⟨.approval approval.id, some after⟩] rfl
    (by simp [Key.auditing])
  refine Safe.bind ((applyTransition_safe hC hm hr₂ (hk _)
    (isSome_view_update hk ho₂ hl₂.valid hrow₁) .READY approverId none).mono
    (fun _ _ _ => id) ?_) ?_
  · rintro err h' t' (hb | ⟨hs, -, -, -⟩ | ⟨source, e, -, H, ho₃, -⟩)
    · exact .broken (hb.of_onward (ho₁.trans ho₂))
    · simp at hs
    · have ho₁₃ := ho₂.trans ho₃
      exact .refused hs hn now (ho₁₃.suffix.subset hnow) hd source H.read H.refused
        (ho₁.trans ho₁₃)
  rintro _ h₃ t₃ ⟨ho₃, hr₃, source, e, rfl, H⟩
  refine Safe.step (announceReady_safe hC hm hr₃ _ _) ((ho₁.trans ho₂).trans ho₃)
    (fun _ _ _ => .broken) ?_
  rintro m h₄ t₄ ⟨ho₄, hr₄, hann, hins⟩
  have ho₂₄ := ho₃.trans ho₄
  have ho₁₄ := ho₂.trans ho₂₄
  have hcore : core t₃.writes = [⟨.auditEvent e.id, some e⟩,
      ⟨.action action.id, some (source.setStatus .READY)⟩,
      ⟨.approval approval.id, some after⟩] ++ core t₁.writes := by
    rw [H.wrote]
    rfl
  have hview : ∀ c, row ((t₁.write [⟨.approval approval.id, some after⟩]).view c)
      (.action action.id) = row (t₁.view c) (.action action.id) := fun c =>
    row_view_of_core_eq (w := [⟨.approval approval.id, some after⟩]) rfl rfl (by simp) c
  refine ⟨ho₁.trans ho₁₄, hr₄, now, source, e, m, before, rfl, ?_⟩
  exact {
    pending := hs
    nonce := hn
    reading := ho₁₄.suffix.subset hnow
    inTime := hd.1
    payload := hd.2
    readSource := ho₄.suffix.subset H.read
    foundSource := by
      have := H.found
      rw [hview] at this
      rw [Tx.view, row_append_congr _ (ho₄.row_eq H.locked), ← Tx.view, this]
    allowed := H.allowed
    found := by
      rw [Tx.view, row_append_congr _ (ho₂₄.row_eq (by simp)), ← Tx.view, hbefore]
    event := H.event
    message := ⟨hann.1, hann.2, hann.3, hann.4, hann.5⟩
    fresh := by
      rw [← row_view_of_core_eq hcore rfl (by simp)]
      exact hins.fresh
    locked := by
      simp only [List.mem_cons, List.not_mem_nil, or_false, forall_eq_or_imp, forall_eq]
      exact ⟨ho₄.locks _ H.locked, ho₂₄.locks _ (by simp), hins.locked⟩
    wrote := by rw [hins.writes, core_cons_tracked rfl, H.wrote]; rfl }

end Doda
