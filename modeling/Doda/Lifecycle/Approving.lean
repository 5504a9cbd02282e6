import Doda.Lifecycle.Alone

/-!
# Deciding an approval

What `consume_approval` comes to where nobody interferes: an approval, an action, a
clock reading and a nonce decide between one approved action and a refusal.  The nonces
are compared in constant time, and that comparison refuses text that is not ASCII.

## Main definitions

* `Approvable` — the conditions under which a request is to be granted.
* `Decides` — a request is granted exactly then, and refused otherwise.
* `FitRequest` — what an approval, an action and a nonce must be for that.

## Main results

* `decides_iff` — when a request is decided so.
-/

namespace Doda

open ReadCommitted

variable {action source : Action} {approval : Approval} {approverId nonce actorId : String}
  {now : Time} {target : ActionStatus} {c : Db} {t : DbTx}
  {A : Db → (e : Call) → Answer e → Prop} {Q : Action → Db → DbTx → Prop}
  {X : Err → Db → DbTx → Prop}

/-! ## Deciding -/

/-- The conditions of an approval; `source` is the action under its lock. -/
structure Approvable (action source : Action) (approval : Approval) (nonce : String)
    (now : Time) : Prop where
  pending : approval.status = .PENDING
  nonce : approval.nonce = nonce
  inTime : now ≤ approval.expiresAt
  unchanged : approval.payloadHash = action.payloadHash
  awaiting : source.status = .AWAITING_APPROVAL

/-- The action is ready, and approved by the caller. -/
structure ApprovedBy (approverId : String) (approvalId actionId : Uuid) (a : Action)
    (db : Db) : Prop where
  ready : a.status = .READY
  action : row db (.action actionId) = some a
  approval : ∃ v, row db (.approval approvalId) = some v ∧ v.status = .APPROVED ∧
    v.approverId = some approverId

/-- `ApprovalInvalidError` and `InvalidActionTransition`. -/
inductive Refusal : Err → Prop where
  | approvalInvalid (reason : String) : Refusal (.approvalInvalid reason)
  | invalidActionTransition (current target : ActionStatus) :
    Refusal (.invalidActionTransition current target)

/-- The expiry check reads `now`, and a new id is nobody's. -/
def AnswersAt (now : Time) (db : Db) : (e : Call) → Answer e → Prop
  | .utcnow (.expiry _), x => x = now
  | .uuid4, id => row db (.auditEvent id) = none ∧ row db (.outboxMessage id) = none
  | _, _ => True

/-- **A request is decided**: granted when `Approvable`, and refused otherwise, in every
transaction that sees the approval's row and the action's. -/
def Decides [Sha256] (action source : Action) (approval : Approval) (approverId nonce : String)
    (now : Time) : Prop :=
  ∀ (c : Db) (t : DbTx), t.failed = false →
    row (t.view c) (.action action.id) = some source →
    (row (t.view c) (.approval approval.id)).isSome →
    Alone (AnswersAt now)
      (fun a c t => Approvable action source approval nonce now ∧
        ApprovedBy approverId approval.id action.id a (t.view c))
      (fun e _ _ => ¬ Approvable action source approval nonce now ∧ Refusal e)
      (consumeApproval action approval approverId nonce) c t

/-- The nonces can be compared, and under its lock the action can only become ready by the
approval. -/
structure FitRequest (action source : Action) (approval : Approval) (nonce : String)
    (now : Time) : Prop where
  ascii : approval.status = .PENDING →
    approval.nonce.toList.all (·.toNat < 128) ∧ nonce.toList.all (·.toNat < 128)
  awaiting : approval.status = .PENDING → approval.nonce = nonce → now ≤ approval.expiresAt →
    approval.payloadHash = action.payloadHash → source.status ≠ .VALIDATING ∧
      source.status ≠ .RETRYING

/-- Only an awaited approval and two statuses that no approval is asked for make ready. -/
theorem ready_allowed {s : ActionStatus} (h : ActionStatus.READY ∈ allowedTransitions s) :
    s = .AWAITING_APPROVAL ∨ s = .VALIDATING ∨ s = .RETRYING := by
  cases s <;> simp [allowedTransitions] at h ⊢

/-! ## The steps -/

section Steps

theorem alone_compareDigest {a b : String} {Q : Bool → Db → DbTx → Prop} :
    Alone A Q X (compareDigest a b) c t ↔
      if a.toList.all (·.toNat < 128) ∧ b.toList.all (·.toNat < 128) then Q (a = b) c t
      else X (.builtin "TypeError") c t := by
  rw [compareDigest]
  split
  · exact Iff.rfl
  · exact Iff.rfl

variable [Sha256]

/-- A transition to a status that refuses the approval, and the refusal. -/
theorem deny_alone (hA : ∀ db id, A db .uuid4 id → row db (.auditEvent id) = none)
    {α : Type} {Q : α → Db → DbTx → Prop}
    (hf : t.failed = false) (hsource : row (t.view c) (.action action.id) = some source)
    (htarget : target ∈ [ActionStatus.READY, .EXPIRED, .REJECTED, .RUNNING])
    {reason : String} (hX : ∀ e c t, Refusal e → X e c t) :
    Alone A Q X (do
      let _ ← applyTransition action target actorId
      throw (.approvalInvalid reason)) c t := by
  rw [alone_bind]
  by_cases hallowed : target ∈ allowedTransitions source.status
  · rw [alone_quietTransition hf hsource htarget hallowed]
    refine recordAuditEvent_alone hA (by simpa using hf) ?_
    intro _ t' _ _
    exact hX _ _ _ (.approvalInvalid reason)
  · refine applyTransition_refused hA hf hsource ?_ hallowed ?_
    · rintro rfl
      simp at htarget
    · intro t'
      exact hX _ _ _ (.invalidActionTransition _ _)

omit [Sha256] in
/-- The announcement of a ready action. -/
theorem alone_announceReady {Q : OutboxMessage → Db → DbTx → Prop} {approvalId : Option Uuid}
    (hA : ∀ db id, A db .uuid4 id → row db (.outboxMessage id) = none) (hf : t.failed = false) :
    Alone A Q X (announceReady action approvalId) c t ↔
      ∀ id, A (t.view c) .uuid4 id → ∀ createdAt, A (t.view c) (.utcnow .created) createdAt →
        let message : OutboxMessage :=
          { id, createdAt, customerId := action.customerId, aggregateType := "action",
            aggregateId := action.id, eventType := actionReadyEvent,
            payload := .obj ([("action_id", .str action.id.str),
              ("tool_name", .str action.toolName)] ++
              (approvalId.map fun i => ("approval_id", Json.str i.str)).toList) }
        Q message c (t.write [⟨.outboxMessage id, some message⟩]) := by
  rw [announceReady, enqueueOutboxMessage]
  refine (alone_bind.trans alone_call).trans (forall_congr' fun id => forall_congr' fun hid => ?_)
  refine (alone_bind.trans alone_call).trans (forall_congr' fun createdAt =>
    forall_congr' fun _ => ?_)
  rw [alone_bind, alone_insert hf (hA _ _ hid)]
  exact Iff.rfl

/-! ## Granting -/

/-- What remains of an approval that nothing speaks against. -/
def grant (action : Action) (approval : Approval) (approverId : String) : Session Action := do
  let action ← applyTransition action .READY approverId
  let _ ← announceReady action (some approval.id)
  return action

/-- An approval that nothing speaks against is granted. -/
theorem alone_consumeApproval {stored : Approval} (hf : t.failed = false)
    (hstored : row (t.view c) (.approval approval.id) = some stored)
    (hpending : approval.status = .PENDING)
    (hascii : approval.nonce.toList.all (·.toNat < 128) ∧ nonce.toList.all (·.toNat < 128))
    (hnonce : approval.nonce = nonce) (htime : now ≤ approval.expiresAt)
    (hhash : approval.payloadHash = action.payloadHash) :
    Alone (AnswersAt now) Q X (consumeApproval action approval approverId nonce) c t ↔
      Alone (AnswersAt now) Q X (grant action approval approverId) c
        (t.write [⟨.approval approval.id,
          some { stored with status := .APPROVED, approverId := some approverId }⟩]) := by
  rw [consumeApproval, if_neg (not_not.2 hpending), alone_bind, alone_compareDigest, if_pos hascii,
    if_neg (by simpa using hnonce)]
  refine ((alone_bind.trans alone_call).trans forall_eq).trans ?_
  dsimp only
  rw [if_neg (not_lt.2 htime), if_neg (not_not.2 hhash), alone_bind, alone_update hf hstored]
  exact Iff.rfl

/-- **What granting comes to.** -/
theorem grant_alone {v : Approval} (hf : t.failed = false)
    (hsource : row (t.view c) (.action action.id) = some source)
    (hv : row (t.view c) (.approval approval.id) = some v) (hstatus : v.status = .APPROVED)
    (hby : v.approverId = some approverId)
    (hallowed : ActionStatus.READY ∈ allowedTransitions source.status) :
    Alone (AnswersAt now)
      (fun a c t => ApprovedBy approverId approval.id action.id a (t.view c)) X
      (grant action approval approverId) c t := by
  rw [grant, alone_bind, alone_quietTransition hf hsource (by simp) hallowed]
  refine recordAuditEvent_alone (fun _ _ h => h.1) (by simpa using hf) ?_
  intro event t' hf' hrecorded
  rw [alone_bind, alone_announceReady (fun _ _ h => h.2) hf']
  intro id _ createdAt _
  rw [alone_pure]
  constructor
  · rfl
  · have hmessage : Key.outboxMessage id ≠ .action action.id := by simp
    calc row ((t'.write [⟨.outboxMessage id, _⟩]).view c) (.action action.id)
        = row (t'.view c) (.action action.id) := row_cons_ne _ _ hmessage
      _ = some (source.setStatus .READY) :=
        (hrecorded.others (.action action.id) (by simp) (by simp)).trans (row_cons_self _ _ _)
  · have hmessage : Key.outboxMessage id ≠ .approval approval.id := by simp
    have haction : Key.action action.id ≠ .approval approval.id := by simp
    refine ⟨v, ?_, hstatus, hby⟩
    calc row ((t'.write [⟨.outboxMessage id, _⟩]).view c) (.approval approval.id)
        = row (t'.view c) (.approval approval.id) := row_cons_ne _ _ hmessage
      _ = row (t.view c) (.approval approval.id) :=
        (hrecorded.others (.approval approval.id) (by simp) (by simp)).trans
          (row_cons_ne _ _ haction)
      _ = some v := hv

/-- Where the ids of the transaction's view are free, an approval is granted. -/
theorem grant_returns (H : Alone (AnswersAt now) Q X (grant action approval approverId) c t)
    (hf : t.failed = false) (hsource : row (t.view c) (.action action.id) = some source)
    (hallowed : ActionStatus.READY ∈ allowedTransitions source.status)
    (hevents : ∀ id, row (t.view c) (.auditEvent id) = none)
    (hmessages : ∀ id, row (t.view c) (.outboxMessage id) = none) : ∃ a t, Q a c t := by
  rw [grant, alone_bind, alone_quietTransition hf hsource (by simp) hallowed] at H
  let writes : DbTx := (t.lock [.action action.id]).write
    [⟨.action action.id, some (source.setStatus .READY)⟩]
  have hview : ∀ k : Key, k ≠ .action action.id → row (writes.view c) k = row (t.view c) k :=
    fun k hk => row_cons_ne _ _ hk.symm
  have hevents : ∀ id, row (writes.view c) (.auditEvent id) = none :=
    fun id => (hview (.auditEvent id) (by simp)).trans (hevents id)
  have hmessages : ∀ id, row (writes.view c) (.outboxMessage id) = none :=
    fun id => (hview (.outboxMessage id) (by simp)).trans (hmessages id)
  have hfree : ∃ id, AnswersAt now ((tipLocked source.customerId c writes).view c) .uuid4 id := by
    refine ⟨0, ?_, ?_⟩
    · exact (tipLocked_view (k := .auditEvent 0) _ _ _ (by simp)).trans (hevents _)
    · exact (tipLocked_view (k := .outboxMessage 0) _ _ _ (by simp)).trans (hmessages _)
  obtain ⟨event, t', hf', hrecorded, H⟩ := recordAuditEvent_returns (t := writes) H
    (fun _ _ h => h.1) (by simpa [writes] using hf) ⟨0, trivial⟩ hfree ⟨0, trivial⟩
  rw [alone_bind, alone_announceReady (fun _ _ h => h.2) hf'] at H
  refine ⟨_, _, H (event.id + 1) ⟨?_, ?_⟩ 0 trivial⟩
  · exact (hrecorded.others (.auditEvent _) (by simp) (by simp)).trans (hevents _)
  · exact (hrecorded.others (.outboxMessage _) (by simp) (by simp)).trans (hmessages _)

end Steps

/-! ## The decision -/

section Decision

variable [Sha256]

/-- Fit requests are decided. -/
theorem decides_of_fit (H : FitRequest action source approval nonce now) :
    Decides action source approval approverId nonce now := by
  intro c t hf hsource happroval
  obtain ⟨stored, hstored⟩ := Option.isSome_iff_exists.1 happroval
  have hfresh : ∀ db id, AnswersAt now db .uuid4 id → row db (.auditEvent id) = none :=
    fun _ _ h => h.1
  -- the action's row, once the approval's is written
  have hkept : ∀ v, row ((t.write [⟨.approval approval.id, some v⟩]).view c)
      (.action action.id) = some source := by
    intro v
    have hne : Key.approval approval.id ≠ .action action.id := by simp
    exact (row_cons_ne _ _ hne).trans hsource
  by_cases hpending : approval.status = .PENDING
  · by_cases hnonce : approval.nonce = nonce
    · by_cases htime : now ≤ approval.expiresAt
      · by_cases hhash : approval.payloadHash = action.payloadHash
        · rw [alone_consumeApproval hf hstored hpending (H.ascii hpending) hnonce htime hhash]
          by_cases hready : ActionStatus.READY ∈ allowedTransitions source.status
          · obtain ⟨hvalidating, hretrying⟩ := H.awaiting hpending hnonce htime hhash
            have hawaiting : source.status = .AWAITING_APPROVAL := by
              rcases ready_allowed hready with h | h | h
              · exact h
              · exact absurd h hvalidating
              · exact absurd h hretrying
            refine (grant_alone (by simpa using hf) (hkept _) (row_cons_self _ _ _) rfl rfl
              hready).mono ?_ fun _ _ _ h => h
            intro a c t ha
            exact ⟨⟨hpending, hnonce, htime, hhash, hawaiting⟩, ha⟩
          · rw [grant, alone_bind]
            refine applyTransition_refused hfresh (by simpa using hf) (hkept _) (by simp) hready ?_
            intro t
            refine ⟨fun h => hready ?_, .invalidActionTransition _ _⟩
            rw [h.awaiting]
            simp [allowedTransitions]
        · rw [consumeApproval, if_neg (not_not.2 hpending), alone_bind, alone_compareDigest,
            if_pos (H.ascii hpending), if_neg (by simpa using hnonce)]
          refine alone_bind.2 (alone_call.2 fun x hx => ?_)
          obtain rfl : x = now := hx
          dsimp only
          rw [if_neg (not_lt.2 htime), if_pos hhash, setApprovalStatus, alone_bind,
            alone_update hf hstored]
          refine deny_alone hfresh (by simpa using hf) (hkept _) (by simp) ?_
          intro e c t he
          exact ⟨fun h => hhash h.unchanged, he⟩
      · rw [consumeApproval, if_neg (not_not.2 hpending), alone_bind, alone_compareDigest,
          if_pos (H.ascii hpending), if_neg (by simpa using hnonce)]
        refine alone_bind.2 (alone_call.2 fun x hx => ?_)
        obtain rfl : x = now := hx
        dsimp only
        rw [if_pos (not_le.1 htime), setApprovalStatus, alone_bind, alone_update hf hstored]
        refine deny_alone hfresh (by simpa using hf) (hkept _) (by simp) ?_
        intro e c t he
        exact ⟨fun h => htime h.inTime, he⟩
    · rw [consumeApproval, if_neg (not_not.2 hpending), alone_bind, alone_compareDigest,
        if_pos (H.ascii hpending), if_pos (by simpa using hnonce)]
      exact ⟨fun h => hnonce h.nonce, .approvalInvalid _⟩
  · rw [consumeApproval, if_pos hpending]
    exact ⟨fun h => hpending h.pending, .approvalInvalid _⟩

/-- Decided requests are fit. -/
theorem fit_of_decides (H : Decides action source approval approverId nonce now) :
    FitRequest action source approval nonce now := by
  let db : Db := [⟨.approval approval.id, some approval⟩, ⟨.action action.id, some source⟩]
  have hne : Key.approval approval.id ≠ .action action.id := by simp
  have hsource : row db (.action action.id) = some source :=
    (row_cons_ne _ _ hne).trans (row_cons_self _ _ _)
  have hstored : row db (.approval approval.id) = some approval := row_cons_self _ _ _
  have hD := H db {} rfl hsource (by
    change (row db (.approval approval.id)).isSome = true
    rw [hstored]
    rfl)
  have hascii : approval.status = .PENDING →
      approval.nonce.toList.all (·.toNat < 128) ∧ nonce.toList.all (·.toNat < 128) := by
    intro hpending
    by_contra hnot
    rw [consumeApproval, if_neg (not_not.2 hpending), alone_bind, alone_compareDigest,
      if_neg hnot] at hD
    obtain ⟨-, herr⟩ := hD
    cases herr
  refine ⟨hascii, ?_⟩
  intro hpending hnonce htime hhash
  rw [alone_consumeApproval (t := {}) rfl hstored hpending (hascii hpending) hnonce htime hhash]
    at hD
  by_contra hnot
  have hready : ActionStatus.READY ∈ allowedTransitions source.status := by
    rcases Decidable.not_and_iff_not_or_not.1 hnot with h | h
    · rw [not_not.1 h]
      simp [allowedTransitions]
    · rw [not_not.1 h]
      simp [allowedTransitions]
  have hempty : ∀ v, ∀ k : Key, k ≠ .approval approval.id → k ≠ .action action.id →
      row ((Tx.write {} [⟨.approval approval.id, some v⟩]).view db) k = none := by
    intro v k happroval haction
    calc row ((Tx.write {} [⟨.approval approval.id, some v⟩]).view db) k
        = row db k := row_cons_ne _ _ happroval.symm
      _ = row [⟨.action action.id, some source⟩] k := row_cons_ne _ _ happroval.symm
      _ = none := row_cons_ne _ _ haction.symm
  have hgranted := grant_returns hD rfl ((row_cons_ne _ _ hne).trans hsource) hready
    (fun id => hempty _ _ (by simp) (by simp)) fun id => hempty _ _ (by simp) (by simp)
  obtain ⟨a, t, happrovable, -⟩ := hgranted
  rw [happrovable.awaiting] at hnot
  exact hnot ⟨(by simp), (by simp)⟩

/-- **A request is decided exactly when it is fit.** -/
theorem decides_iff (action source : Action) (approval : Approval) (approverId nonce : String)
    (now : Time) :
    Decides action source approval approverId nonce now ↔
      FitRequest action source approval nonce now :=
  ⟨fit_of_decides, decides_of_fit⟩

end Decision

/-! ## A nonce that is not ASCII -/

private def awaitedAction : Action :=
  { id := 1, customerId := 2, workspaceId := 3, traceId := 4, actorId := "user:5",
    toolName := telegramSendMessage, riskLevel := .R3, payload := .obj [], payloadHash := "hash",
    idempotencyKey := "key", status := .AWAITING_APPROVAL }

private def pendingApproval : Approval :=
  { id := 6, createdAt := 0, customerId := 2, actionId := 1, payloadHash := "hash",
    nonce := "nonce", status := .PENDING, expiresAt := 10 }

/-- A letter outside ASCII in the caller's nonce is neither granted nor refused. -/
theorem foreign_nonce_undecided :
    let _ : Sha256 := ⟨id⟩
    ¬ Decides awaitedAction awaitedAction pendingApproval "user:7" "nöncé" 5 := by
  intro _ h
  have hascii := (fit_of_decides h).ascii rfl
  revert hascii
  decide

end Doda
