import Doda.Application.Audit
import Doda.Lib.Alone

/-!
# Recording an event, alone

What `record_audit_event` comes to in a transaction that nobody interferes with: one
event more, under the customer's tip as the transaction sees it.

## Main definitions

* `tipLocked` — the transaction once it holds the customer's tip.
* `EventAdded` — a database with one event more.

## Main results

* `recordAuditEvent_alone`, `recordAuditEvent_returns` — it records, and it returns.
-/

namespace Doda

open ReadCommitted

/-- The transaction, holding the customer's tip. -/
def tipLocked (customerId : Uuid) (c : Db) (t : DbTx) : DbTx :=
  (if (row (t.view c) (.auditChainTip customerId)).isSome then t
    else t.write [⟨.auditChainTip customerId, some ⟨none⟩⟩]).lock [.auditChainTip customerId]

/-- `db'` is `db` with the event, and with the customer's tip moved. -/
structure EventAdded (customerId : Uuid) (eventType : String) (safeMetadata : Json)
    (event : AuditEvent) (db db' : Db) : Prop where
  customer : event.customerId = customerId
  type : event.eventType = eventType
  metadata : event.safeMetadata = safeMetadata
  fresh : row db (.auditEvent event.id) = none
  stored : row db' (.auditEvent event.id) = some event
  others : ∀ k, k ≠ .auditChainTip customerId → k ≠ .auditEvent event.id →
    row db' k = row db k

section Recording

variable [Sha256] {A : Db → (e : Call) → Answer e → Prop} {X : Err → Db → DbTx → Prop}
  {Q : AuditEvent → Db → DbTx → Prop} {c : Db} {t : DbTx} {customerId traceId : Uuid}
  {workspaceId : Option Uuid} {actorId eventType : String} {safeMetadata : Json}

omit [Sha256] in
theorem tipLocked_failed (hf : t.failed = false) : (tipLocked customerId c t).failed = false := by
  unfold tipLocked
  split
  · exact hf
  · exact hf

omit [Sha256] in
theorem tipLocked_view (customerId : Uuid) (c : Db) (t : DbTx) {k : Key}
    (hk : k ≠ .auditChainTip customerId) :
    row ((tipLocked customerId c t).view c) k = row (t.view c) k := by
  unfold tipLocked
  split
  · rfl
  · exact row_cons_ne _ _ hk.symm

/-- What recording leads to, once the transaction holds the tip. -/
def Records (A : Db → (e : Call) → Answer e → Prop) (Q : AuditEvent → Db → DbTx → Prop)
    (customerId : Uuid) (workspaceId : Option Uuid) (traceId : Uuid)
    (actorId eventType : String) (safeMetadata : Json) (c : Db) (t : DbTx)
    (tip : AuditChainTip) : Prop :=
  ∀ occurredAt, A (t.view c) (.utcnow .occurred) occurredAt → ∀ id, A (t.view c) .uuid4 id →
    ∀ createdAt, A (t.view c) (.utcnow (.auditCreated customerId)) createdAt →
      let digest := hashPayload (auditContent customerId workspaceId traceId actorId eventType
        occurredAt safeMetadata tip.tipHash)
      let event : AuditEvent :=
        { id, createdAt, customerId, workspaceId, traceId, actorId, eventType, occurredAt,
          safeMetadata, prevHash := tip.tipHash, hash := digest }
      Q event c ((t.write [⟨.auditEvent id, some event⟩]).write
        [⟨.auditChainTip customerId, some ⟨some digest⟩⟩])

/-- `record_audit_event`, once the tip is there. -/
def recordOnTip (customerId : Uuid) (workspaceId : Option Uuid) (traceId : Uuid)
    (actorId eventType : String) (safeMetadata : Json) : Session AuditEvent := do
  let some tip ← Session.getForUpdate (.auditChainTip customerId) | throw .assertion
  let occurredAt ← Session.utcnow .occurred
  let digest := hashPayload (auditContent customerId workspaceId traceId actorId eventType
    occurredAt safeMetadata tip.tipHash)
  let id ← Session.uuid4
  let createdAt ← Session.utcnow (.auditCreated customerId)
  let event : AuditEvent :=
    { id, createdAt, customerId, workspaceId, traceId, actorId, eventType, occurredAt,
      safeMetadata, prevHash := tip.tipHash, hash := digest }
  Session.insert (.auditEvent id) event
  Session.update (.auditChainTip customerId) fun _ => ⟨some digest⟩
  return event

theorem recordAuditEvent_eq (customerId : Uuid) (workspaceId : Option Uuid) (traceId : Uuid)
    (actorId eventType : String) (safeMetadata : Json) :
    recordAuditEvent customerId workspaceId traceId actorId eventType safeMetadata =
      Session.tryInsert [⟨.auditChainTip customerId, ⟨none⟩⟩] >>= fun _ =>
        recordOnTip customerId workspaceId traceId actorId eventType safeMetadata :=
  rfl

theorem alone_recordOnTip {tip : AuditChainTip}
    (hA : ∀ db id, A db .uuid4 id → row db (.auditEvent id) = none) (hf : t.failed = false)
    (htip : row (t.view c) (.auditChainTip customerId) = some tip) :
    Alone A Q X (recordOnTip customerId workspaceId traceId actorId eventType safeMetadata) c t ↔
      Records A Q customerId workspaceId traceId actorId eventType safeMetadata c
        (t.lock [.auditChainTip customerId]) tip := by
  rw [recordOnTip, alone_bind, alone_forUpdate hf, htip]
  simp only [Option.isSome_some, if_true]
  refine (alone_bind.trans alone_call).trans
    (forall_congr' fun occurredAt => forall_congr' fun _ => ?_)
  refine (alone_bind.trans alone_call).trans (forall_congr' fun id => forall_congr' fun hid => ?_)
  refine (alone_bind.trans alone_call).trans
    (forall_congr' fun createdAt => forall_congr' fun _ => ?_)
  rw [alone_bind, alone_insert (by simpa using hf) (hA _ _ hid), alone_bind,
    alone_update (v := tip) (by simpa using hf) ?_]
  · exact Iff.rfl
  · have hne : Key.auditEvent id ≠ .auditChainTip customerId := by simp
    exact (row_cons_ne _ _ hne).trans htip

/-- Recording, call by call. -/
theorem alone_recordAuditEvent (customerId : Uuid) (workspaceId : Option Uuid) (traceId : Uuid)
    (actorId eventType : String) (safeMetadata : Json)
    (hA : ∀ db id, A db .uuid4 id → row db (.auditEvent id) = none) (hf : t.failed = false) :
    ∃ tip : AuditChainTip,
      row ((tipLocked customerId c t).view c) (.auditChainTip customerId) = some tip ∧
      ∀ Q : AuditEvent → Db → DbTx → Prop,
        Alone A Q X (recordAuditEvent customerId workspaceId traceId actorId eventType
          safeMetadata) c t ↔
        Records A Q customerId workspaceId traceId actorId eventType safeMetadata c
          (tipLocked customerId c t) tip := by
  by_cases hsome : (row (t.view c) (.auditChainTip customerId)).isSome = true
  · obtain ⟨tip, htip⟩ := Option.isSome_iff_exists.1 hsome
    have hlock : tipLocked customerId c t = t.lock [.auditChainTip customerId] := by
      rw [tipLocked, if_pos hsome]
    refine ⟨tip, hlock ▸ htip, fun Q => ?_⟩
    rw [recordAuditEvent_eq, alone_bind, alone_tryInsert hf, if_pos hsome, hlock]
    exact alone_recordOnTip hA hf htip
  · have hlock : tipLocked customerId c t = (t.write
        [⟨.auditChainTip customerId, some ⟨none⟩⟩]).lock [.auditChainTip customerId] := by
      rw [tipLocked, if_neg hsome]
    have htip : row ((t.write [⟨.auditChainTip customerId, some ⟨none⟩⟩]).view c)
        (.auditChainTip customerId) = some ⟨none⟩ := row_cons_self _ _ _
    refine ⟨⟨none⟩, hlock ▸ htip, fun Q => ?_⟩
    rw [recordAuditEvent_eq, alone_bind, alone_tryInsert hf, if_neg hsome, hlock]
    exact alone_recordOnTip hA (by simpa using hf) htip

omit [Sha256] in
/-- What is recorded. -/
theorem recorded_tipLocked {event : AuditEvent} {tip : Option AuditChainTip}
    (hcustomer : event.customerId = customerId) (htype : event.eventType = eventType)
    (hmetadata : event.safeMetadata = safeMetadata)
    (hfresh : row ((tipLocked customerId c t).view c) (.auditEvent event.id) = none) :
    EventAdded customerId eventType safeMetadata event (t.view c)
      ((((tipLocked customerId c t).write [⟨.auditEvent event.id, some event⟩]).write
        [⟨.auditChainTip customerId, tip⟩]).view c) := by
  have hne : Key.auditEvent event.id ≠ .auditChainTip customerId := by simp
  constructor
  · exact hcustomer
  · exact htype
  · exact hmetadata
  · exact (tipLocked_view customerId c t hne).symm.trans hfresh
  · exact (row_cons_ne _ _ hne.symm).trans (row_cons_self _ _ _)
  · intro k htip hevent
    rw [← tipLocked_view customerId c t htip]
    exact (row_cons_ne _ _ htip.symm).trans (row_cons_ne _ _ hevent.symm)

/-- **Recording an event**, alone, records it. -/
theorem recordAuditEvent_alone
    (hA : ∀ db id, A db .uuid4 id → row db (.auditEvent id) = none) (hf : t.failed = false)
    (hQ : ∀ event t', t'.failed = false →
      EventAdded customerId eventType safeMetadata event (t.view c) (t'.view c) → Q event c t') :
    Alone A Q X (recordAuditEvent customerId workspaceId traceId actorId eventType
      safeMetadata) c t := by
  obtain ⟨tip, htip, H⟩ := alone_recordAuditEvent (X := X) customerId workspaceId traceId actorId
    eventType safeMetadata hA hf
  refine (H Q).2 ?_
  intro occurredAt _ id hid createdAt _
  exact hQ _ _ (by simpa using tipLocked_failed hf) (recorded_tipLocked rfl rfl rfl (hA _ _ hid))

/-- Recording returns, where its calls can be answered. -/
theorem recordAuditEvent_returns
    (H : Alone A Q X (recordAuditEvent customerId workspaceId traceId actorId eventType
      safeMetadata) c t)
    (hA : ∀ db id, A db .uuid4 id → row db (.auditEvent id) = none) (hf : t.failed = false)
    (hocc : ∃ x, A ((tipLocked customerId c t).view c) (.utcnow .occurred) x)
    (hid : ∃ x, A ((tipLocked customerId c t).view c) .uuid4 x)
    (hcreated : ∃ x, A ((tipLocked customerId c t).view c)
      (.utcnow (.auditCreated customerId)) x) :
    ∃ event t', t'.failed = false ∧
      EventAdded customerId eventType safeMetadata event (t.view c) (t'.view c) ∧ Q event c t' := by
  obtain ⟨tip, htip, hrecord⟩ := alone_recordAuditEvent (X := X) customerId workspaceId traceId
    actorId eventType safeMetadata hA hf
  obtain ⟨occurredAt, hocc⟩ := hocc
  obtain ⟨id, hid⟩ := hid
  obtain ⟨createdAt, hcreated⟩ := hcreated
  exact ⟨_, _, by simpa using tipLocked_failed hf, recorded_tipLocked rfl rfl rfl (hA _ _ hid),
    (hrecord Q).1 H occurredAt hocc id hid createdAt hcreated⟩

end Recording

end Doda
