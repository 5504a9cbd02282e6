import Doda.Application.Action
import Doda.AuditChain.Alone

/-!
# Transitions, alone

What `apply_transition` and `create_notification` come to in a transaction that nobody
interferes with.

## Main results

* `alone_applyTransition`, `applyTransition_refused` — by what the state machine says.
* `createNotification_alone` — nothing but the notification and its event is written.
-/

namespace Doda

open ReadCommitted

section Lifecycle

variable [Sha256] {action source : Action} {actorId : String} {target : ActionStatus}
  {receipt : Option Json} {c : Db} {t : DbTx} {A : Db → (e : Call) → Answer e → Prop}
  {Q : Action → Db → DbTx → Prop} {X : Err → Db → DbTx → Prop}

/-- The state machine allows the transition. -/
theorem alone_applyTransition (hf : t.failed = false)
    (hsource : row (t.view c) (.action action.id) = some source)
    (hreceipt : target = .SUCCEEDED → receipt.isSome)
    (hallowed : target ∈ allowedTransitions source.status) :
    Alone A Q X (applyTransition action target actorId receipt) c t ↔
      Alone A
        (fun _ c t => Alone A (fun _ c t => Q (source.setStatus target) c t) X
          (notifyTransition (source.setStatus target) target) c t) X
        (recordAuditEvent source.customerId (some source.workspaceId) source.traceId actorId
          target.eventType
          (transitionMetadata (source.setStatus target) source.status target receipt))
        c ((t.lock [.action action.id]).write
          [⟨.action action.id, some (source.setStatus target)⟩]) := by
  have hsucceeded : ¬ (target = .SUCCEEDED ∧ receipt.isNone) := by
    rintro ⟨htarget, hnone⟩
    rw [Option.isNone_iff_eq_none.1 hnone] at hreceipt
    cases hreceipt htarget
  rw [applyTransition, if_neg hsucceeded, alone_bind]
  refine (alone_forUpdate hf).trans ?_
  rw [hsource, Option.isSome_some, if_pos rfl]
  dsimp only [Option.getD_some]
  rw [transition_eq_some.2 ⟨hallowed, rfl⟩]
  dsimp only
  have hlocked : row ((t.lock [Key.action action.id]).view c) (.action action.id) = some source :=
    hsource
  rw [alone_bind, alone_update (by simpa using hf) hlocked, alone_bind]
  constructor
  · intro H
    exact H.mono (fun _ _ _ h => (alone_bind.1 h).mono (fun _ _ _ h => h) fun _ _ _ h => h)
      fun _ _ _ h => h
  · intro H
    exact H.mono (fun _ _ _ h => alone_bind.2 (h.mono (fun _ _ _ h => h) fun _ _ _ h => h))
      fun _ _ _ h => h

/-- Nobody is notified of the transition. -/
theorem alone_quietTransition (hf : t.failed = false)
    (hsource : row (t.view c) (.action action.id) = some source)
    (htarget : target ∈ [ActionStatus.READY, .EXPIRED, .REJECTED, .RUNNING])
    (hallowed : target ∈ allowedTransitions source.status) :
    Alone A Q X (applyTransition action target actorId) c t ↔
      Alone A (fun _ c t => Q (source.setStatus target) c t) X
        (recordAuditEvent source.customerId (some source.workspaceId) source.traceId actorId
          target.eventType (transitionMetadata (source.setStatus target) source.status target none))
        c ((t.lock [.action action.id]).write
          [⟨.action action.id, some (source.setStatus target)⟩]) := by
  have hsucceeded : target ≠ .SUCCEEDED := by
    rintro rfl
    simp at htarget
  have hquiet : ∀ a : Action, notifyTransition a target = pure () := by
    intro a
    cases target with
    | AWAITING_APPROVAL | FAILED => simp at htarget
    | _ => rfl
  rw [alone_applyTransition hf hsource (absurd · hsucceeded) hallowed]
  simp only [hquiet]
  exact Iff.rfl

/-- The state machine refuses the transition. -/
theorem applyTransition_refused (hA : ∀ db id, A db .uuid4 id → row db (.auditEvent id) = none)
    (hf : t.failed = false) (hsource : row (t.view c) (.action action.id) = some source)
    (htarget : target ≠ .SUCCEEDED) (hrefused : target ∉ allowedTransitions source.status)
    (hX : ∀ t, X (.invalidActionTransition source.status target) c t) :
    Alone A Q X (applyTransition action target actorId) c t := by
  have hsucceeded : ¬ (target = .SUCCEEDED ∧ (none : Option Json).isNone) :=
    fun h => htarget h.1
  rw [applyTransition, if_neg hsucceeded, alone_bind]
  refine (alone_forUpdate hf).2 ?_
  rw [hsource, Option.isSome_some, if_pos rfl]
  dsimp only [Option.getD_some]
  rw [transition_eq_none.2 hrefused]
  dsimp only
  rw [alone_bind]
  exact recordAuditEvent_alone hA hf fun _ t _ _ => hX t

/-- Rows other than notifications and the audit log's are as they were. -/
def NothingElse (db db' : Db) : Prop :=
  ∀ k, (∀ customerId, k ≠ .auditChainTip customerId) → (∀ id, k ≠ .auditEvent id) →
    (∀ id, k ≠ .notification id) → row db' k = row db k

omit [Sha256] in
theorem EventAdded.undisturbed {customerId : Uuid} {eventType : String} {safeMetadata : Json}
    {event : AuditEvent} {db db' : Db}
    (h : EventAdded customerId eventType safeMetadata event db db') : NothingElse db db' :=
  fun k htip hevent _ => h.others k (htip customerId) (hevent event.id)

/-- **A notification**, alone. -/
theorem createNotification_alone (hA : ∀ db id, A db .uuid4 id →
      row db (.auditEvent id) = none ∧ row db (.notification id) = none)
    {customerId : Uuid} {workspaceId : Option Uuid} {recipientId : String}
    {type : NotificationType} {referenceType : String} {referenceId : Uuid} {safeMetadata : Json}
    {Q : Option Notification → Db → DbTx → Prop} (hf : t.failed = false)
    (hQ : ∀ n t', t'.failed = false → NothingElse (t.view c) (t'.view c) → Q n c t') :
    Alone A Q X (createNotification customerId workspaceId recipientId type referenceType
      referenceId safeMetadata) c t := by
  have henabled : Alone A (fun _ c' t' => c' = c ∧ t' = t) X
      (isNotificationTypeEnabled customerId recipientId type) c t := by
    unfold isNotificationTypeEnabled
    split
    · exact ⟨rfl, rfl⟩
    · rw [alone_bind]
      exact (alone_get hf).2 ⟨rfl, rfl⟩
  rw [createNotification, alone_bind]
  refine henabled.mono ?_ fun _ _ _ h => h
  rintro enabled _ _ ⟨rfl, rfl⟩
  cases enabled with
  | false => exact hQ none _ hf fun _ _ _ _ => rfl
  | true =>
    refine alone_bind.2 (alone_call.2 fun id hid => ?_)
    refine alone_bind.2 (alone_call.2 fun createdAt _ => ?_)
    dsimp only
    rw [alone_bind, alone_insert hf (hA _ _ hid).2]
    refine alone_bind.2 (alone_call.2 fun traceId _ => ?_)
    rw [alone_bind]
    refine recordAuditEvent_alone (fun db id h => (hA db id h).1) (by simpa using hf) ?_
    intro event t' hf' hrecorded
    refine hQ _ _ hf' fun k htip hevent hnotification => ?_
    rw [hrecorded.undisturbed k htip hevent hnotification]
    exact row_cons_ne _ _ (hnotification id).symm

end Lifecycle

end Doda
