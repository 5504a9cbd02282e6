import Doda.Lifecycle.Compensation

/-!
# Where an action stands

An action of a low risk level is ready as soon as it is proposed; any other waits for its
one approval, and is ready when that is consumed.  Either way it is announced once, and
whatever happens to it later is none of this.  This is an invariant of the deeds, and so
of every run.

## Main definitions

* `holds_of_valid` — what every deed keeps holds of every history.
* `Consumed` — an approval was consumed as it must be.
* `Standing` — where an action stands with its approval and its announcement.

## Main results

* `standing_of_valid` — every action of every history stands so.
* `approval_gating`, `announced_once` — the two halves of it.
-/

namespace Doda

open ReadCommitted

/-! ## Induction over deeds -/

@[simp] theorem core_core (w : Db) : core (core w) = core w := by
  simp [core]

theorem row_of_core {s s' : Db} (hcore : core s = core s') {k : Key} (hk : k.tracked = true) :
    row s' k = row s k := by
  have h := row_core_append hk s []
  have h' := row_core_append hk s' []
  rw [List.append_nil, List.append_nil] at h h'
  rw [← h, ← h', hcore]

section Deeds

variable [Sha256]

/-- **What every deed keeps holds of every history**, where it is about the tracked versions of
a store and about what has happened. -/
theorem holds_of_valid {I : Hist → Db → Prop} (hnil : I [] [])
    (hcore : ∀ h s s', Keyed s → core s = core s' → I h s → I h s')
    (hlater : ∀ ev h s, I h s → I (ev :: h) s)
    (hdeed : ∀ p h ds (d : Deed), lifecycle.Valid h → Fit p h (committed h) ds →
      d.Fits p h (versionsOf ds ++ committed h) → I h (versionsOf ds ++ committed h) →
      I h (d.versions ++ (versionsOf ds ++ committed h)))
    {h : Hist} (hv : lifecycle.Valid h) : I h (committed h) := by
  induction h with
  | nil => exact hnil
  | cons ev h ih =>
    have ih := ih hv.2
    cases ev with
    | committed p w =>
      obtain ⟨-, ds, hwrote, hfit⟩ := hv.1
      have hdeeds : ∀ ds, Fit p h (committed h) ds → I h (versionsOf ds ++ committed h) := by
        intro ds hfit
        induction ds with
        | nil => exact ih
        | cons d ds ihds =>
          rw [versionsOf_cons, List.append_assoc]
          exact hdeed p h ds d hv.2 hfit.2 hfit.1 (ihds hfit.2)
      refine hcore _ (versionsOf ds ++ committed h) _ (hfit.keyed (keyed_of_valid hv.2)) ?_
        (hlater _ _ _ (hdeeds ds hfit))
      rw [committed_cons, Event.writes_committed, core_append, core_append, ← hwrote, core_core]
    | ran | called | rolledBack | failed | crashed => exact hlater _ _ _ ih

/-! ## Approvals and messages that deeds leave -/

/-- The approval a deed leaves under a key. -/
def Deed.leavesApproval : Deed → Uuid → Option Approval
  | proposed _ _ _ _ _ beside, k => row beside (.approval k)
  | consumed _ approvalId _ before actor _ _, k =>
    if approvalId = k then some (before.approve actor) else none
  | moved .., _ | published .., _ => none

/-- The message a deed leaves under a key. -/
def Deed.leavesMessage : Deed → Uuid → Option OutboxMessage
  | proposed _ _ _ _ _ beside, k => row beside (.outboxMessage k)
  | consumed _ _ _ _ _ _ m, k => if m.id = k then some m else none
  | published id m now, k => if id = k then some (m.publish now) else none
  | moved .., _ => none

section Leaves

variable {p : ℕ} {h : Hist} {s : Db} {d : Deed}

theorem Deed.Fits.row_approval (H : d.Fits p h s) (k : Uuid) (s' : Db) :
    row (d.versions ++ s') (.approval k) = (d.leavesApproval k).or (row s' (.approval k)) := by
  cases d with
  | proposed a target e e₁ e₂ beside =>
    have hroute := H.route
    cases hroute with
    | ready m hr hm =>
      simp [versions, leavesApproval, submissionVersions, transitionVersions, proposalVersions, row]
    | approval ap hr ha =>
      by_cases hk : ap.id = k
      · subst hk
        simp [versions, leavesApproval, submissionVersions, row]
      · simp [versions, leavesApproval, submissionVersions, transitionVersions, proposalVersions,
          row, hk]
  | consumed id approvalId source before actor e m =>
    by_cases hk : approvalId = k
    · subst hk
      simp [versions, leavesApproval, row]
    · simp [versions, leavesApproval, row, hk]
  | moved id source target actor receipt e => simp [versions, leavesApproval, row]
  | published id m now => simp [versions, leavesApproval, row]

theorem Deed.Fits.row_message (H : d.Fits p h s) (k : Uuid) (s' : Db) :
    row (d.versions ++ s') (.outboxMessage k) =
      (d.leavesMessage k).or (row s' (.outboxMessage k)) := by
  cases d with
  | proposed a target e e₁ e₂ beside =>
    have hroute := H.route
    cases hroute with
    | ready m hr hm =>
      by_cases hk : m.id = k
      · subst hk
        simp [versions, leavesMessage, submissionVersions]
      · simp [versions, leavesMessage, submissionVersions, transitionVersions, proposalVersions,
          row, hk]
    | approval ap hr ha =>
      simp [versions, leavesMessage, submissionVersions, transitionVersions, proposalVersions, row]
  | consumed id approvalId source before actor e m =>
    by_cases hk : m.id = k
    · subst hk
      simp [versions, leavesMessage]
    · simp [versions, leavesMessage, row, hk]
  | moved id source target actor receipt e => simp [versions, leavesMessage, row]
  | published id m now =>
    by_cases hk : id = k
    · subst hk
      simp [versions, leavesMessage]
    · simp [versions, leavesMessage, row, hk]

/-- An approval that was there has at most been decided. -/
theorem Deed.Fits.leavesApproval_eq (H : d.Fits p h s) {k : Uuid} {a b : Approval}
    (ha : row s (.approval k) = some a) (hb : d.leavesApproval k = some b) :
    b = { a with status := b.status, approverId := b.approverId } := by
  cases d with
  | proposed a' target e e₁ e₂ beside =>
    have hfresh := H.freshBeside (.approval k) (mem_keys_of_row hb)
    rw [hfresh] at ha
    cases ha
  | consumed id approvalId source before =>
    simp only [leavesApproval, Option.ite_none_right_eq_some, Option.some.injEq] at hb
    obtain ⟨rfl, rfl⟩ := hb
    obtain rfl := Option.some.inj (H.foundApproval.symm.trans ha)
    rfl
  | moved | published => cases hb

/-- Deeds keep an approval, and all of it but the decision. -/
theorem Fit.keeps_approval {ds : List Deed} (H : Fit p h s ds) {k : Uuid} {a : Approval}
    (ha : row s (.approval k) = some a) :
    ∃ b, row (versionsOf ds ++ s) (.approval k) = some b ∧
      b = { a with status := b.status, approverId := b.approverId } := by
  induction ds with
  | nil => exact ⟨a, ha, rfl⟩
  | cons d ds ih =>
    obtain ⟨b, hb, hsame⟩ := ih H.2
    rw [versionsOf_cons, List.append_assoc, H.1.row_approval]
    cases hd : d.leavesApproval k with
    | none => exact ⟨b, hb, hsame⟩
    | some c =>
      refine ⟨c, rfl, ?_⟩
      have hc := H.1.leavesApproval_eq hb hd
      rw [hsame] at hc
      exact hc

/-- **An approval is never lost**, and nothing of it changes but the decision. -/
theorem keeps_approval_of_valid {evs h : Hist} (hv : lifecycle.Valid (evs ++ h)) {k : Uuid}
    {a : Approval} (ha : row (committed h) (.approval k) = some a) :
    ∃ b, row (committed (evs ++ h)) (.approval k) = some b ∧
      b = { a with status := b.status, approverId := b.approverId } := by
  induction evs with
  | nil => exact ⟨a, ha, rfl⟩
  | cons ev evs ih =>
    obtain ⟨b, hb, hsame⟩ := ih hv.2
    cases ev with
    | committed p w =>
      obtain ⟨-, ds, hcore, hfit⟩ := hv.1
      obtain ⟨c, hc, hsame'⟩ := hfit.keeps_approval hb
      refine ⟨c, (row_of_core_eq hcore rfl).trans hc, ?_⟩
      rw [hsame] at hsame'
      exact hsame'
    | ran | called | rolledBack | failed | crashed => exact ⟨b, hb, hsame⟩

end Leaves

end Deeds


/-! ## Standing -/

/-- The approval under the key is about the action. -/
def ApprovalOf (s : Db) (i k : Uuid) : Prop := ∃ ap ∈ row s (.approval k), ap.actionId = i

/-- The message announces that the action is ready. -/
def OutboxMessage.Of (m : OutboxMessage) (i : Uuid) : Prop :=
  m.eventType = actionReadyEvent ∧ m.aggregateId = i

/-- The message under the key announces that the action is ready. -/
def AnnouncementOf (s : Db) (i k : Uuid) : Prop := ∃ m ∈ row s (.outboxMessage k), m.Of i

/-- A version of the action that is ready has been written. -/
def EverReady (s : Db) (i : Uuid) : Prop :=
  ∃ a : Action, (⟨.action i, some a⟩ : Version Row) ∈ s ∧ a.status = .READY

/-- The statuses of an action that has been ready. -/
def beyondApproval : List ActionStatus :=
  [.READY, .RUNNING, .SUCCEEDED, .FAILED, .COMPENSATING, .COMPENSATED, .CANCELLED]

/-- **The approval was consumed as it must be**: a request under a fresh second factor named it
with its own nonce, when it had not expired, on behalf of the action's actor or of an admin. -/
structure ProperlyApproved (h : Hist) (a : Action) (k : Uuid) (ap : Approval) : Prop where
  about : ap.actionId = a.id
  payload : ap.payloadHash = a.payloadHash
  status : ap.status = .APPROVED
  consumed : ∃ p user now,
    Event.called p (.received (.consume ⟨user, .AAL2⟩ a.workspaceId k ap.nonce)) () ∈ h ∧
    Event.called p (.utcnow (.expiry k)) now ∈ h ∧ now ≤ ap.expiresAt ∧
    ap.approverId = some (actorOf user) ∧
    (a.actorId = actorOf user ∨ ∃ h₁, h₁ <:+ h ∧
      Event.called p (.received (.consume ⟨user, .AAL2⟩ a.workspaceId k ap.nonce)) () ∈ h₁ ∧
      IsWorkspaceAdmin (committed h₁) a.customerId user a.workspaceId)

/-- An action that has been ready is not made ready. -/
theorem notMem_beyondApproval {status : ActionStatus}
    (h : ActionStatus.READY ∈ allowedTransitions status) : status ∉ beyondApproval := by
  cases status <;> simp [allowedTransitions, beyondApproval] at h ⊢

/-- **Where an action stands** with its approval and its announcement. -/
inductive Standing (h : Hist) (s : Db) (i : Uuid) (a : Action) : Prop where
  | automatic (hrisk : a.riskLevel ∈ autoApprovedRiskLevels) (hnone : ∀ k, ¬ ApprovalOf s i k)
      (hannounced : ∃! k, AnnouncementOf s i k) (hever : EverReady s i)
      (hstatus : a.status ∈ beyondApproval)
  | awaiting (k : Uuid) (ap : Approval) (hrisk : a.riskLevel ∉ autoApprovedRiskLevels)
      (hrow : row s (.approval k) = some ap) (hsole : ∀ k', ApprovalOf s i k' → k' = k)
      (hawaits : ap.Awaits a) (hannounced : ∀ k, ¬ AnnouncementOf s i k) (hever : ¬ EverReady s i)
      (hstatus : a.status = .AWAITING_APPROVAL)
  | approved (k : Uuid) (ap : Approval) (hrisk : a.riskLevel ∉ autoApprovedRiskLevels)
      (hrow : row s (.approval k) = some ap) (hsole : ∀ k', ApprovalOf s i k' → k' = k)
      (hproper : ProperlyApproved h a k ap) (hannounced : ∃! k, AnnouncementOf s i k)
      (hever : EverReady s i) (hstatus : a.status ∈ beyondApproval)

/-- Nothing is about an action that is not there. -/
structure Unheard (s : Db) (i : Uuid) : Prop where
  approvals : ∀ k, ¬ ApprovalOf s i k
  announcements : ∀ k, ¬ AnnouncementOf s i k
  ever : ¬ EverReady s i

/-- Every action stands somewhere. -/
structure Stands (h : Hist) (s : Db) : Prop where
  found : ∀ i a, row s (.action i) = some a → Standing h s i a
  unheard : ∀ i, row s (.action i) = none → Unheard s i

/-- The stores do not differ in what is about the action. -/
structure SameFor (i : Uuid) (s s' : Db) : Prop where
  approvals : ∀ k ap, ap.actionId = i →
    (row s' (.approval k) = some ap ↔ row s (.approval k) = some ap)
  announcements : ∀ k, AnnouncementOf s' i k ↔ AnnouncementOf s i k
  ever : EverReady s' i ↔ EverReady s i

section Transfer

variable {h h' : Hist} {s s' : Db} {i : Uuid} {a : Action}

theorem SameFor.approvalOf (H : SameFor i s s') (k : Uuid) :
    ApprovalOf s' i k ↔ ApprovalOf s i k :=
  exists_congr fun ap => and_congr_left fun hap => H.approvals k ap hap

theorem Standing.congr (H : Standing h s i a) (hid : a.id = i) (hs : SameFor i s s') :
    Standing h s' i a := by
  cases H with
  | automatic hrisk hnone hannounced hever hstatus =>
    refine .automatic hrisk (fun k => mt (hs.approvalOf k).1 (hnone k)) ?_ (hs.ever.2 hever) hstatus
    simpa only [hs.announcements] using hannounced
  | awaiting k ap hrisk hrow hsole hawaits hannounced hever hstatus =>
    exact .awaiting k ap hrisk ((hs.approvals k ap (hawaits.actionId.trans hid)).2 hrow)
      (fun k' hk' => hsole k' ((hs.approvalOf k').1 hk')) hawaits
      (fun k => mt (hs.announcements k).1 (hannounced k)) (mt hs.ever.1 hever) hstatus
  | approved k ap hrisk hrow hsole hproper hannounced hever hstatus =>
    refine .approved k ap hrisk ((hs.approvals k ap (hproper.about.trans hid)).2 hrow)
      (fun k' hk' => hsole k' ((hs.approvalOf k').1 hk')) hproper ?_ (hs.ever.2 hever) hstatus
    simpa only [hs.announcements] using hannounced

theorem Unheard.congr (H : Unheard s i) (hs : SameFor i s s') : Unheard s' i where
  approvals k := mt (hs.approvalOf k).1 (H.approvals k)
  announcements k := mt (hs.announcements k).1 (H.announcements k)
  ever := mt hs.ever.1 H.ever

theorem ProperlyApproved.mono {k : Uuid} {ap : Approval} (H : ProperlyApproved h a k ap)
    (hh : h <:+ h') : ProperlyApproved h' a k ap := by
  obtain ⟨p, user, now, hreceived, hreading, hnow, hby, hmay⟩ := H.consumed
  refine { H with
    consumed := ⟨p, user, now, hh.subset hreceived, hh.subset hreading, hnow, hby, ?_⟩ }
  refine hmay.imp_right ?_
  rintro ⟨h₁, hle, hrest⟩
  exact ⟨h₁, hle.trans hh, hrest⟩

theorem Standing.mono (H : Standing h s i a) (hh : h <:+ h') : Standing h' s i a := by
  cases H with
  | automatic hrisk hnone hannounced hever hstatus =>
    exact .automatic hrisk hnone hannounced hever hstatus
  | awaiting k ap hrisk hrow hsole hawaits hannounced hever hstatus =>
    exact .awaiting k ap hrisk hrow hsole hawaits hannounced hever hstatus
  | approved k ap hrisk hrow hsole hproper hannounced hever hstatus =>
    exact .approved k ap hrisk hrow hsole (hproper.mono hh) hannounced hever hstatus

/-- Stores that say the same of actions. -/
theorem sameFor_of_core_eq (hcore : core s = core s') (i : Uuid) : SameFor i s s' := by
  refine ⟨fun k ap _ => ?_, fun k => ?_, exists_congr fun a => and_congr_left fun _ => ?_⟩
  · rw [row_of_core hcore rfl]
  · rw [AnnouncementOf, AnnouncementOf, row_of_core hcore rfl]
  · rw [← mem_core rfl, ← hcore, mem_core rfl]

end Transfer

/-! ## What a deed does to it -/

theorem everReady_append {w s : Db} {i : Uuid} :
    EverReady (w ++ s) i ↔ EverReady w i ∨ EverReady s i := by
  simp only [EverReady, List.mem_append, or_and_right, exists_or]

section Steps

variable [Sha256] {p : ℕ} {h : Hist} {s : Db} {d : Deed} {i : Uuid} {a : Action}

/-- A deed makes the action ready if it leaves it so. -/
theorem Deed.Fits.everReady (H : d.Fits p h s) (i : Uuid) :
    EverReady d.versions i ↔ ∃ a, d.leaves i = some a ∧ a.status = .READY := by
  cases d with
  | proposed a target e e₁ e₂ beside =>
    have hdraft := H.draft
    have hbeside : ∀ b : Action, (⟨.action i, some b⟩ : Version Row) ∉ beside := by
      intro b hb
      exact H.route.action_notMem i (List.mem_map_of_mem (f := Sigma.fst) hb)
    by_cases hi : a.id = i
    · subst hi
      simp only [EverReady, versions, submissionVersions, transitionVersions, proposalVersions,
        List.mem_append, hbeside, leaves]
      simp [hdraft]
    · simp only [EverReady, versions, submissionVersions, transitionVersions, proposalVersions,
        List.mem_append, hbeside, leaves, if_neg hi]
      simp [Ne.symm hi]
  | consumed id approvalId source before actor e m =>
    by_cases hi : id = i
    · subst hi
      simp [EverReady, versions, leaves]
    · simp [EverReady, versions, leaves, hi, Ne.symm hi]
  | moved id source target actor receipt e =>
    by_cases hi : id = i
    · subst hi
      simp [EverReady, versions, leaves]
    · simp [EverReady, versions, leaves, hi, Ne.symm hi]
  | published id m now => simp [EverReady, versions, leaves]

/-- A deed about another action. -/
theorem Deed.Fits.sameFor (H : d.Fits p h s) (hleaves : d.leaves i = none)
    (happrovals : ∀ k ap, d.leavesApproval k = some ap → ap.actionId ≠ i ∧
      ∀ b, row s (.approval k) = some b → b.actionId ≠ i)
    (hmessages : ∀ k m, d.leavesMessage k = some m → (m.Of i ↔ AnnouncementOf s i k)) :
    SameFor i s (d.versions ++ s) := by
  refine ⟨fun k ap hap => ?_, fun k => ?_, ?_⟩
  · rw [H.row_approval]
    cases hl : d.leavesApproval k with
    | none => exact Iff.rfl
    | some b =>
      obtain ⟨hb, hs⟩ := happrovals k b hl
      constructor
      · intro heq
        obtain rfl := Option.some.inj heq
        exact absurd hap hb
      · intro hrow
        exact absurd hap (hs ap hrow)
  · rw [AnnouncementOf, H.row_message]
    cases hl : d.leavesMessage k with
    | none => exact Iff.rfl
    | some m =>
      rw [← hmessages k m hl]
      simp
  · rw [everReady_append, H.everReady, hleaves]
    simp

theorem Deed.Fits.approvalOf (H : d.Fits p h s) (i k : Uuid) :
    ApprovalOf (d.versions ++ s) i k ↔ (∃ ap, d.leavesApproval k = some ap ∧ ap.actionId = i) ∨
      (d.leavesApproval k = none ∧ ApprovalOf s i k) := by
  rw [ApprovalOf, H.row_approval]
  cases d.leavesApproval k with
  | none => simp [ApprovalOf]
  | some ap => simp

theorem Deed.Fits.announcementOf (H : d.Fits p h s) (i k : Uuid) :
    AnnouncementOf (d.versions ++ s) i k ↔ (∃ m, d.leavesMessage k = some m ∧ m.Of i) ∨
      (d.leavesMessage k = none ∧ AnnouncementOf s i k) := by
  rw [AnnouncementOf, H.row_message]
  cases d.leavesMessage k with
  | none => simp [AnnouncementOf]
  | some m => simp

omit [Sha256] in
/-- A deed about the action `j`. -/
theorem Stands.assemble (H : Stands h s) (hk : Keyed s) {s' : Db} {j : Uuid}
    (hother : ∀ i, i ≠ j → SameFor i s s' ∧ row s' (.action i) = row s (.action i))
    (hsome : (row s' (.action j)).isSome)
    (hown : ∀ a, row s' (.action j) = some a → Standing h s' j a) : Stands h s' := by
  constructor
  · intro i a ha
    by_cases hi : i = j
    · subst hi
      exact hown a ha
    · obtain ⟨hsame, hrow⟩ := hother i hi
      rw [hrow] at ha
      exact (H.found i a ha).congr (hk _ _ ha a rfl) hsame
  · intro i hi
    by_cases hij : i = j
    · subst hij
      rw [hi] at hsome
      cases hsome
    · obtain ⟨hsame, hrow⟩ := hother i hij
      exact (H.unheard i (hrow ▸ hi)).congr hsame

/-- **A proposal** is ready and announced, or waits for its approval. -/
theorem Stands.proposed (H : Stands h s) (hk : Keyed s) {target : ActionStatus}
    {e e₁ e₂ : AuditEvent} {beside : Db}
    (hfits : (Deed.proposed a target e e₁ e₂ beside).Fits p h s) :
    Stands h ((Deed.proposed a target e e₁ e₂ beside).versions ++ s) := by
  have hd : Deed.FitsProposed p h s a target e e₁ e₂ beside := hfits
  have hnew := H.unheard a.id hd.freshAction
  have hrow := hfits.row_action a.id s
  rw [show (Deed.proposed a target e e₁ e₂ beside).leaves a.id = some (a.setStatus target) from
    if_pos rfl, Option.some_or] at hrow
  refine H.assemble (j := a.id) hk (fun i hi => ?_) (by simp [hrow]) fun b hb => ?_
  · have hleaves : (Deed.proposed a target e e₁ e₂ beside).leaves i = none := if_neg hi.symm
    refine ⟨hfits.sameFor hleaves (fun k ap hap => ?_) (fun k m hm => ?_), ?_⟩
    · have hroute := hd.route
      cases hroute with
      | ready m => simp [Deed.leavesApproval, row] at hap
      | approval ap' hrisk hawaits =>
        have hkey := mem_keys_of_row hap
        have hfresh := hd.freshBeside _ hkey
        obtain rfl : k = ap'.id := by simpa using hkey
        obtain rfl : ap' = ap := by simpa [Deed.leavesApproval] using hap
        rw [hfresh, hawaits.actionId]
        exact ⟨hi.symm, by simp⟩
    · have hroute := hd.route
      cases hroute with
      | approval ap => simp [Deed.leavesMessage, row] at hm
      | ready m' hrisk hannounces =>
        have hkey := mem_keys_of_row hm
        have hfresh := hd.freshBeside _ hkey
        obtain rfl : k = m'.id := by simpa using hkey
        obtain rfl : m' = m := by simpa [Deed.leavesMessage] using hm
        rw [AnnouncementOf, hfresh, OutboxMessage.Of, hannounces.aggregateId]
        simp [hi.symm]
    · rw [hfits.row_action, hleaves, Option.none_or]
  · obtain rfl := Option.some.inj (hrow.symm.trans hb)
    have hroute := hd.route
    cases hroute with
    | ready m hrisk hannounces =>
      refine .automatic hrisk (fun k => ?_) ⟨m.id, ?_, fun k hk' => ?_⟩ ?_
        (by simp [beyondApproval])
      · rw [hfits.approvalOf]
        simp [Deed.leavesApproval, row, hnew.approvals]
      · exact (hfits.announcementOf _ _).2
          (.inl ⟨m, by simp [Deed.leavesMessage], hannounces.eventType, hannounces.aggregateId⟩)
      · rcases (hfits.announcementOf _ _).1 hk' with ⟨m', hm', -⟩ | ⟨-, hs⟩
        · simpa using mem_keys_of_row hm'
        · exact absurd hs (hnew.announcements k)
      · rw [everReady_append, hfits.everReady]
        exact .inl ⟨_, if_pos rfl, rfl⟩
    | approval ap hrisk hawaits =>
      refine .awaiting ap.id ap hrisk ?_ (fun k hk' => ?_)
        ⟨hawaits.1, hawaits.2, hawaits.3, hawaits.4⟩ (fun k => ?_) ?_ rfl
      · rw [hfits.row_approval]
        simp [Deed.leavesApproval]
      · rw [hfits.approvalOf] at hk'
        rcases hk' with ⟨ap', hap', -⟩ | ⟨-, hs⟩
        · simpa using mem_keys_of_row hap'
        · exact absurd hs (hnew.approvals k)
      · rw [hfits.announcementOf]
        simp [Deed.leavesMessage, row, hnew.announcements]
      · rw [everReady_append, hfits.everReady]
        simp [Deed.leaves, hnew.ever]

/-- **A decision** approves the approval that the action waits for, and announces it. -/
theorem Stands.consumed (H : Stands h s) (hk : Keyed s) {id approvalId : Uuid} {source : Action}
    {before : Approval} {actor : String} {e : AuditEvent} {m : OutboxMessage}
    (hread : ∀ k loaded, (∃ h₁, h₁ <:+ h ∧ row (committed h₁) (.approval k) = some loaded) →
      ∃ b, row s (.approval k) = some b ∧
        b = { loaded with status := b.status, approverId := b.approverId })
    (hfits : (Deed.consumed id approvalId source before actor e m).Fits p h s) :
    Stands h ((Deed.consumed id approvalId source before actor e m).versions ++ s) := by
  have hd : Deed.FitsConsumed p h s id approvalId source before actor e m := hfits
  obtain ⟨context, loaded, nonce, now, hdecided⟩ := hd.decided
  obtain rfl : source.id = id := hk _ _ hd.found source rfl
  -- the approval is the one that was loaded, but for its decision
  obtain ⟨b, hb, hsame⟩ := hread _ _ hdecided.read
  obtain rfl := Option.some.inj (hd.foundApproval.symm.trans hb)
  have habout : before.actionId = source.id := by
    rw [hsame]
    exact hdecided.about
  have happroval : (Deed.consumed source.id approvalId source before actor e m).leavesApproval
      approvalId = some (before.approve actor) := if_pos rfl
  have hmessage : (Deed.consumed source.id approvalId source before actor e m).leavesMessage
      m.id = some m := if_pos rfl
  have hrow := hfits.row_action source.id s
  rw [show (Deed.consumed source.id approvalId source before actor e m).leaves source.id =
    some (source.setStatus .READY) from if_pos rfl, Option.some_or] at hrow
  refine H.assemble (j := source.id) hk (fun i hi => ?_) (by simp [hrow]) fun c hc => ?_
  · have hleaves : (Deed.consumed source.id approvalId source before actor e m).leaves i = none :=
      if_neg hi.symm
    refine ⟨hfits.sameFor hleaves (fun k ap hap => ?_) (fun k m' hm => ?_), ?_⟩
    · simp only [Deed.leavesApproval, Option.ite_none_right_eq_some, Option.some.injEq] at hap
      obtain ⟨rfl, rfl⟩ := hap
      rw [hd.foundApproval]
      simp [Approval.approve, habout, hi.symm]
    · simp only [Deed.leavesMessage, Option.ite_none_right_eq_some, Option.some.injEq] at hm
      obtain ⟨rfl, rfl⟩ := hm
      rw [AnnouncementOf, hd.fresh, OutboxMessage.Of, hd.message.aggregateId]
      simp [hi.symm]
    · rw [hfits.row_action, hleaves, Option.none_or]
  · obtain rfl := Option.some.inj (hrow.symm.trans hc)
    have hof : ApprovalOf s source.id approvalId := ⟨before, hd.foundApproval, habout⟩
    have hallowed := hd.allowed
    cases H.found source.id source hd.found with
    | automatic hrisk hnone hannounced hever hstatus => exact absurd hof (hnone approvalId)
    | approved k ap hrisk hrow hsole hproper hannounced hever hstatus =>
      exact absurd hstatus (notMem_beyondApproval hallowed)
    | awaiting k ap hrisk hrow hsole hawaits hannounced hever hstatus =>
      obtain rfl := hsole approvalId hof
      obtain rfl := Option.some.inj (hd.foundApproval.symm.trans hrow)
      refine .approved approvalId (before.approve actor) hrisk ?_ (fun k hk' => ?_) ?_
        ⟨m.id, ?_, fun k hk' => ?_⟩ ?_ (by simp [beyondApproval])
      · rw [hfits.row_approval, happroval, Option.some_or]
      · rw [hfits.approvalOf] at hk'
        rcases hk' with ⟨ap', hap', -⟩ | ⟨-, hs⟩
        · simp only [Deed.leavesApproval, Option.ite_none_right_eq_some] at hap'
          exact hap'.1.symm
        · exact hsole k hs
      · have hnonce : nonce = before.nonce := by
          rw [hsame]
          exact hdecided.nonce.2.symm
        have hplace := hdecided.place
        refine ⟨habout, hawaits.payloadHash, rfl, p, context.userId, now, ?_, ?_, ?_, ?_, ?_⟩
        · have := hdecided.admitted.received
          rwa [hnonce, ← hplace.2] at this
        · exact hdecided.reading
        · have := hdecided.inTime
          rw [hsame]
          exact this
        · rw [← hdecided.approver]
          rfl
        · rcases hdecided.may with hactor | hrole
          · exact .inl (hactor.trans hdecided.approver)
          · obtain ⟨h₁, hle, hreceived, hadmin⟩ := hdecided.admitted.admin hrole
            rw [hnonce, ← hplace.2] at hreceived
            rw [← hplace.1, ← hplace.2] at hadmin
            exact .inr ⟨h₁, hle, hreceived, hadmin⟩
      · exact (hfits.announcementOf _ _).2
          (.inl ⟨m, hmessage, hd.message.eventType, hd.message.aggregateId⟩)
      · rcases (hfits.announcementOf _ _).1 hk' with ⟨m', hm', -⟩ | ⟨-, hs⟩
        · simp only [Deed.leavesMessage, Option.ite_none_right_eq_some] at hm'
          exact hm'.1.symm
        · exact absurd hs (hannounced k)
      · rw [everReady_append, hfits.everReady]
        exact .inl ⟨_, if_pos rfl, rfl⟩

omit [Sha256] in
/-- A move is made from where approvals and announcements no longer matter. -/
theorem Cause.target_ne {source : Action} {target : ActionStatus} {actor : String}
    {receipt : Option Json} (hc : Cause p h i source target actor receipt)
    (hallowed : target ∈ allowedTransitions source.status) :
    source.status ≠ .AWAITING_APPROVAL ∧ (source.status ∈ beyondApproval →
      target ∈ beyondApproval ∧ target ≠ .READY) := by
  have htarget : target ∈ beyondApproval ∧ target ≠ .READY := by
    cases hc with
    | cancelled _ _ _ _ htarget => rcases htarget with rfl | rfl <;> simp [beyondApproval]
    | completed _ _ _ _ hout => rcases hout with rfl | rfl <;> simp [beyondApproval]
    | started | succeeded | failed => simp [beyondApproval]
  refine ⟨fun hawaiting => ?_, fun _ => htarget⟩
  rw [hawaiting] at hallowed
  obtain ⟨hbeyond, hne⟩ := htarget
  cases target <;> simp [allowedTransitions, beyondApproval] at hallowed hbeyond hne

/-- **A move** leaves the approval and the announcement. -/
theorem Stands.moved (H : Stands h s) (hk : Keyed s) {id : Uuid} {source : Action}
    {target : ActionStatus} {actor : String} {receipt : Option Json} {e : AuditEvent}
    (hfits : (Deed.moved id source target actor receipt e).Fits p h s) :
    Stands h ((Deed.moved id source target actor receipt e).versions ++ s) := by
  have hd : Deed.FitsMoved p h s id source target actor receipt e := hfits
  obtain rfl : source.id = id := hk _ _ hd.found source rfl
  obtain ⟨hawaiting, hbeyond⟩ := hd.cause.target_ne hd.allowed
  have hrow := hfits.row_action source.id s
  rw [show (Deed.moved source.id source target actor receipt e).leaves source.id =
    some (source.setStatus target) from if_pos rfl, Option.some_or] at hrow
  have hall : ∀ i, (target ≠ .READY ∨ source.id ≠ i) →
      SameFor i s ((Deed.moved source.id source target actor receipt e).versions ++ s) := by
    intro i hi
    refine ⟨fun k ap _ => ?_, fun k => ?_, ?_⟩
    · rw [hfits.row_approval]
      exact Iff.rfl
    · rw [AnnouncementOf, hfits.row_message]
      exact Iff.rfl
    · rw [everReady_append, hfits.everReady]
      refine or_iff_right ?_
      rintro ⟨b, hb, hready⟩
      simp only [Deed.leaves, Option.ite_none_right_eq_some, Option.some.injEq] at hb
      obtain ⟨heq, rfl⟩ := hb
      rcases hi with hi | hi
      · exact hi hready
      · exact hi heq
  refine H.assemble (j := source.id) hk (fun i hi => ⟨hall i (.inr hi.symm), ?_⟩) (by simp [hrow])
    fun c hc => ?_
  · rw [hfits.row_action, show (Deed.moved source.id source target actor receipt e).leaves i = none
      from if_neg hi.symm, Option.none_or]
  · obtain rfl := Option.some.inj (hrow.symm.trans hc)
    cases H.found source.id source hd.found with
    | automatic hrisk hnone hannounced hever hstatus =>
      obtain ⟨hto, hne⟩ := hbeyond hstatus
      have hstanding : Standing h s source.id (source.setStatus target) :=
        .automatic hrisk hnone hannounced hever hto
      exact hstanding.congr rfl (hall _ (.inl hne))
    | awaiting k ap hrisk hrow hsole hawaits hannounced hever hstatus =>
      exact absurd hstatus hawaiting
    | approved k ap hrisk hrow hsole hproper hannounced hever hstatus =>
      obtain ⟨hto, hne⟩ := hbeyond hstatus
      have hstanding : Standing h s source.id (source.setStatus target) :=
        .approved k ap hrisk hrow hsole ⟨hproper.about, hproper.payload, hproper.status,
          hproper.consumed⟩ hannounced hever hto
      exact hstanding.congr rfl (hall _ (.inl hne))

/-- **A publication** leaves an announcement an announcement. -/
theorem Stands.published (H : Stands h s) (hk : Keyed s) {id : Uuid} {m : OutboxMessage}
    {now : Time} (hfits : (Deed.published id m now).Fits p h s) :
    Stands h ((Deed.published id m now).versions ++ s) := by
  have hd : Deed.FitsPublished p h s id m := hfits
  have hsame : ∀ i, SameFor i s ((Deed.published id m now).versions ++ s) := by
    intro i
    refine hfits.sameFor rfl nofun fun k m' hm => ?_
    simp only [Deed.leavesMessage, Option.ite_none_right_eq_some, Option.some.injEq] at hm
    obtain ⟨rfl, rfl⟩ := hm
    rw [AnnouncementOf, hd.found]
    simp [OutboxMessage.Of, OutboxMessage.publish]
  have hrow : ∀ i, row ((Deed.published id m now).versions ++ s) (.action i) =
      row s (.action i) := by
    intro i
    rw [hfits.row_action]
    rfl
  constructor
  · intro i a ha
    rw [hrow] at ha
    exact (H.found i a ha).congr (hk _ _ ha a rfl) (hsame i)
  · intro i hi
    exact (H.unheard i (hrow i ▸ hi)).congr (hsame i)

end Steps

/-! ## Every history -/

section Histories

variable [Sha256]

/-- **Every action stands somewhere**, in every history of the service. -/
theorem standing_of_valid {h : Hist} (hv : lifecycle.Valid h) : Stands h (committed h) := by
  refine holds_of_valid (I := Stands) ?_ ?_ ?_ ?_ hv
  · refine ⟨fun i a ha => by simp at ha, fun i _ => ⟨fun k => ?_, fun k => ?_, ?_⟩⟩
    · simp [ApprovalOf]
    · simp [AnnouncementOf]
    · simp [EverReady]
  · intro h s s' hk hcore H
    have hrow : ∀ i, row s' (.action i) = row s (.action i) := fun i => row_of_core hcore rfl
    refine ⟨fun i a ha => ?_, fun i hi => ?_⟩
    · rw [hrow] at ha
      exact (H.found i a ha).congr (hk _ _ ha a rfl) (sameFor_of_core_eq hcore i)
    · exact (H.unheard i (hrow i ▸ hi)).congr (sameFor_of_core_eq hcore i)
  · intro ev h s H
    exact ⟨fun i a ha => (H.found i a ha).mono (List.suffix_cons ..), H.unheard⟩
  · intro p h ds d hv hfit hfits H
    have hk := hfit.keyed (keyed_of_valid hv)
    cases d with
    | proposed a target e e₁ e₂ beside => exact H.proposed hk hfits
    | moved id source target actor receipt e => exact H.moved hk hfits
    | published id m now => exact H.published hk hfits
    | consumed id approvalId source before actor e m =>
      refine H.consumed hk (fun k loaded hloaded => ?_) hfits
      obtain ⟨h₁, ⟨evs, rfl⟩, hrow⟩ := hloaded
      obtain ⟨b, hb, hsame⟩ := keeps_approval_of_valid hv hrow
      obtain ⟨c, hc, hsame'⟩ := hfit.keeps_approval hb
      refine ⟨c, hc, ?_⟩
      rw [hsame] at hsame'
      exact hsame'

/-- A stored action's risk level respects the floor of its tool. -/
theorem floor_of_valid {h : Hist} (hv : lifecycle.Valid h) :
    ∀ i a, row (committed h) (.action i) = some a →
      ∃ risk, a.riskLevel = enforceMinimumRiskLevel a.toolName risk := by
  refine holds_of_valid (I := fun _ s => ∀ i a, row s (.action i) = some a →
    ∃ risk, a.riskLevel = enforceMinimumRiskLevel a.toolName risk) ?_ ?_ ?_ ?_ hv
  · intro i a ha
    simp at ha
  · intro h s s' _ hcore H i a ha
    rw [row_of_core hcore rfl] at ha
    exact H i a ha
  · exact fun _ _ _ H => H
  · intro p h ds d hv hfit hfits H i a ha
    rw [hfits.row_action] at ha
    cases hd : d.leaves i with
    | none =>
      rw [hd, Option.none_or] at ha
      exact H i a ha
    | some b =>
      rw [hd, Option.some_or] at ha
      obtain rfl := Option.some.inj ha
      cases hrow : row (versionsOf ds ++ committed h) (.action i) with
      | some c =>
        rw [(hfits.leaves_eq hrow hd).1]
        exact H i c hrow
      | none =>
        cases d with
        | proposed a' target e e₁ e₂ beside =>
          simp only [Deed.leaves, Option.ite_none_right_eq_some, Option.some.injEq] at hd
          obtain ⟨-, rfl⟩ := hd
          exact Deed.FitsProposed.floor (a := a') hfits
        | consumed id approvalId source =>
          simp only [Deed.leaves, Option.ite_none_right_eq_some] at hd
          obtain ⟨rfl, -⟩ := hd
          rw [Deed.FitsConsumed.found hfits] at hrow
          cases hrow
        | moved id source =>
          simp only [Deed.leaves, Option.ite_none_right_eq_some] at hd
          obtain ⟨rfl, -⟩ := hd
          rw [Deed.FitsMoved.found hfits] at hrow
          cases hrow
        | published => cases hd

end Histories

section Runs

variable {h h' : Hist} {db : Db} {i : Uuid} {a : Action}

/-- An action that has been ready is past its approval. -/
theorem Standing.beyond (H : Standing h db i a) :
    EverReady db i ↔ a.status ∈ beyondApproval := by
  cases H with
  | automatic hrisk hnone hannounced hever hstatus => exact iff_of_true hever hstatus
  | awaiting k ap hrisk hrow hsole hawaits hannounced hever hstatus =>
    exact iff_of_false hever (by simp [hstatus, beyondApproval])
  | approved k ap hrisk hrow hsole hproper hannounced hever hstatus =>
    exact iff_of_true hever hstatus

/-- Versions stay written. -/
theorem EverReady.mono (H : EverReady (committed h) i) (hh : h <:+ h') :
    EverReady (committed h') i := by
  obtain ⟨evs, rfl⟩ := hh
  induction evs with
  | nil => exact H
  | cons ev evs ih =>
    rw [List.cons_append, committed_cons, everReady_append]
    exact .inr ih

variable [Sha256] [JsonText] [Deployment] {s : Sys Row Answer Err Reply Request}

/-- **Approval gating.**  An action of a high risk level, and any that sends a Telegram message,
that has ever been past its approval has exactly one approved approval; and that one was consumed
as it must be. -/
theorem approval_gating (hs : Reachable serve s) (hh : h <:+ s.hist) {b : Action}
    (hever : row (committed h) (.action i) = some b) (hb : b.status ∈ beyondApproval)
    (ha : row (committed s.hist) (.action i) = some a)
    (hgated : a.riskLevel ∈ [RiskLevel.R3, .R4, .R5] ∨ a.toolName = telegramSendMessage) :
    ∃ k ap, row (committed s.hist) (.approval k) = some ap ∧ ProperlyApproved s.hist a k ap ∧
      ∀ k' ap', row (committed s.hist) (.approval k') = some ap' → ap'.actionId = i →
        ap'.status = .APPROVED → k' = k := by
  have hv := valid_of_reachable hs
  have hrisk : a.riskLevel ∉ autoApprovedRiskLevels := by
    rcases hgated with hhigh | htool
    · intro hlow
      rcases List.mem_cons.1 hhigh with hr | hhigh
      · simp [hr, autoApprovedRiskLevels] at hlow
      · rcases List.mem_pair.1 hhigh with hr | hr
        · simp [hr, autoApprovedRiskLevels] at hlow
        · simp [hr, autoApprovedRiskLevels] at hlow
    · obtain ⟨risk, hfloor⟩ := floor_of_valid hv i a ha
      rw [notMem_autoApproved, hfloor, htool]
      exact R3_le_enforceMinimumRiskLevel risk
  have hbefore := (standing_of_valid (hv.suffix hh)).found i b hever
  have hready := (hbefore.beyond.2 hb).mono hh
  cases (standing_of_valid hv).found i a ha with
  | automatic hlow hnone hannounced hever hstatus => exact absurd hlow hrisk
  | awaiting k ap hrisk hrow hsole hawaits hannounced hever hstatus => exact absurd hready hever
  | approved k ap hrisk hrow hsole hproper hannounced hever hstatus =>
    refine ⟨k, ap, hrow, hproper, ?_⟩
    intro k' ap' hrow' habout _
    exact hsole k' ⟨ap', hrow', habout⟩

/-- **One announcement.**  Of every action at most one announcement is stored, and one is stored
exactly if the action was ever made ready. -/
theorem announced_once (hs : Reachable serve s) (i : Uuid) :
    {k | AnnouncementOf (committed s.hist) i k}.Subsingleton ∧
      ((∃ k, AnnouncementOf (committed s.hist) i k) ↔ EverReady (committed s.hist) i) := by
  have H := standing_of_valid (valid_of_reachable hs)
  have hone : (∃! k, AnnouncementOf (committed s.hist) i k) →
      {k | AnnouncementOf (committed s.hist) i k}.Subsingleton := by
    intro hunique k hk k' hk'
    exact hunique.unique hk hk'
  cases hrow : row (committed s.hist) (.action i) with
  | none =>
    have hnew := H.unheard i hrow
    refine ⟨fun k hk => absurd hk (hnew.announcements k), ?_⟩
    exact iff_of_false (fun ⟨k, hk⟩ => hnew.announcements k hk) hnew.ever
  | some a =>
    cases H.found i a hrow with
    | automatic hrisk hnone hannounced hever hstatus =>
      exact ⟨hone hannounced, iff_of_true hannounced.exists hever⟩
    | awaiting k ap hrisk hrow hsole hawaits hannounced hever hstatus =>
      refine ⟨fun k hk => absurd hk (hannounced k), ?_⟩
      exact iff_of_false (fun ⟨k, hk⟩ => hannounced k hk) hever
    | approved k ap hrisk hrow hsole hproper hannounced hever hstatus =>
      exact ⟨hone hannounced, iff_of_true hannounced.exists hever⟩

end Runs

/-! ## A sample run -/

section Sample

attribute [local instance] plainSha plainJsonText sampleDeployment

/-- The approval of a message that a relay has begun to send. -/
theorem approval_gating_sample : ∃ s, runAll serve {} startedAction = some s ∧
    ∃ k ap, row (committed s.hist) (.approval k) = some ap ∧ ap.actionId = 112 ∧
      ap.status = .APPROVED := by
  have hrun : ((runAll serve {} startedAction).any fun s =>
      (row (committed s.hist) (.action 112)).any fun a : Action =>
        a.id = 112 ∧ a.toolName = telegramSendMessage ∧ a.status ∈ beyondApproval) = true := by
    decide +kernel
  obtain ⟨s, hst, hs⟩ := (Option.any_eq_true _ _).1 hrun
  obtain ⟨a, ha, hgated⟩ := (Option.any_eq_true _ _).1 hs
  obtain ⟨hid, htool, hbeyond⟩ := of_decide_eq_true hgated
  obtain ⟨k, ap, hrow, hproper, -⟩ := approval_gating (Reachable.init.runAll hst)
    (List.suffix_refl _) ha hbeyond ha (.inr htool)
  exact ⟨s, hst, k, ap, hrow, hproper.about.trans hid, hproper.status⟩

/-- The version makes action 112 ready. -/
def readyVersion : Version Row → Bool
  | ⟨.action i, v⟩ => i = 112 ∧ v.any fun a : Action => a.status = .READY
  | _ => false

/-- It is announced once. -/
theorem announced_once_sample : ∃ s, runAll serve {} startedAction = some s ∧
    ∃ k, AnnouncementOf (committed s.hist) 112 k := by
  have hrun : ((runAll serve {} startedAction).any fun s =>
      (committed s.hist).any readyVersion) = true := by
    decide +kernel
  obtain ⟨s, hst, hs⟩ := (Option.any_eq_true _ _).1 hrun
  refine ⟨s, hst, (announced_once (Reachable.init.runAll hst) 112).2.2 ?_⟩
  obtain ⟨v, hv, hready⟩ := List.any_eq_true.1 hs
  unfold readyVersion at hready
  split at hready
  · obtain ⟨rfl, hany⟩ := of_decide_eq_true hready
    obtain ⟨a, rfl, hstatus⟩ := (Option.any_eq_true _ _).1 hany
    exact ⟨a, hv, of_decide_eq_true hstatus⟩
  · cases hready

end Sample

end Doda
