import Doda.Lifecycle.Deeds
import Doda.Lifecycle.Statements
import Doda.Turn.Composition

/-!
# The service keeps its contract

Every request of the service commits deeds that fit, and nothing else about
actions.

## Main definitions

* `Busy p h t ds` — a transaction that has done `ds` so far.

## Main results

* `serve_safe`, `Reachable.lifecycle` — every request, and every run.
-/

namespace Doda

open ReadCommitted

variable [Sha256] {p : ℕ} {h h' : Hist} {t t' : DbTx} {ds : List Deed}

/-! ## Transactions under way -/

/-- The transaction can go on, and has done the deeds `ds`. -/
structure Busy (p : ℕ) (h : Hist) (t : DbTx) (ds : List Deed) : Prop extends
    Ready lifecycle p h t where
  wrote : core t.writes = versionsOf ds
  fit : Fit p h (committed h) ds

theorem Busy.start (hv : lifecycle.Valid h) : Busy p h {} [] := ⟨.start hv, rfl, trivial⟩

theorem Ready.busy (H : Ready lifecycle p h {}) : Busy p h {} [] := ⟨H, rfl, trivial⟩

/-- What the transaction sees of a row about an action. -/
theorem Busy.row_view (H : Busy p h t ds) {k : Key} (hk : k.tracked = true) (c : Db) :
    row (t.view c) k = row (versionsOf ds ++ c) k := by
  rw [Tx.view, ← row_core_append hk, H.wrote]

/-- The rows of its deeds are locked. -/
theorem Busy.locked (H : Busy p h t ds) {k : Key} (hk : k ∈ keys (versionsOf ds)) :
    k ∈ t.locks := by
  refine H.sound k ?_
  rw [← H.wrote] at hk
  obtain ⟨v, hv, rfl⟩ := List.mem_map.1 hk
  exact List.mem_map_of_mem (f := Sigma.fst) (List.mem_of_mem_filter hv)

/-- The deeds still fit when the transaction has gone on. -/
theorem Busy.fit_onward (H : Busy p h t ds) {M : Call → Prop}
    (ho : ReadCommitted.Onward M p h t h' t') : Fit p h' (committed h') ds :=
  H.fit.congr ho.suffix fun _ hk => ho.row_eq (H.locked hk)

/-- It goes on without a deed. -/
theorem Busy.after (H : Busy p h t ds) {M : Call → Prop}
    (ho : ReadCommitted.Onward M p h t h' t') (hr : Ready lifecycle p h' t')
    (hcore : core t'.writes = core t.writes) : Busy p h' t' ds :=
  ⟨hr, hcore.trans H.wrote, H.fit_onward ho⟩

/-- It does one more deed. -/
theorem Busy.cons (H : Busy p h t ds) {M : Call → Prop}
    (ho : ReadCommitted.Onward M p h t h' t') (hr : Ready lifecycle p h' t') {d : Deed}
    (hcore : core t'.writes = d.versions ++ core t.writes)
    (hd : d.Fits p h' (versionsOf ds ++ committed h')) : Busy p h' t' (d :: ds) :=
  ⟨hr, by rw [hcore, H.wrote, versionsOf_cons], hd, H.fit_onward ho⟩

/-- What it may commit. -/
theorem Busy.commitOk (H : Busy p h t ds) : lifecycle.commitOk h p t.writes :=
  ⟨H.audited, ds, H.wrote, H.fit⟩

/-- The outcome of a transaction's body. -/
abbrev Done (p : ℕ) (h : Hist) (t : DbTx) : Prop := ∃ ds, Busy p h t ds

/-- Whatever was raised. -/
abbrev Whatever : Err → Hist → DbTx → Prop := fun _ _ _ => True

/-- What was raised is an exception of the application, unless a statement of `p` has failed. -/
abbrev Fair (p : ℕ) : Err → Hist → DbTx → Prop := fun e h _ => Event.failed p ∈ h ∨ e.typed

theorem Done.others (H : Done p h t) (ho : Others p t.locks h h') (hv : lifecycle.Valid h') :
    Done p h' t := by
  obtain ⟨ds, H⟩ := H
  exact ⟨ds, H.after (Onward.others (M := Call.Minor) ho)
    (H.toReady.others lifecycle_audits ho hv) rfl⟩

/-- **A transaction block whose body does deeds.** -/
theorem atomically_safe_of_done {α : Type} {m : Session α} {R : α → Hist → Prop}
    (H : Safe lifecycle p (fun a h' t' => Done p h' t' ∧ ∀ h'', Others p t'.locks h' h'' →
      R a (.committed p t'.writes :: h'')) Whatever m h t) :
    Safe lifecycle p (fun a h' t' => t' = {} ∧ R a h') (fun _ _ t' => t' = {})
      (atomically m) h t := by
  refine Safe.atomically _ Whatever H ?_ fun _ _ _ _ _ _ _ => rfl
  rintro a h₁ t₁ ⟨hdone, hR⟩ h₂ ho hv -
  refine ⟨fun _ => ⟨?_, ⟨rfl, hR h₂ ho⟩, fun _ _ _ => rfl⟩, fun _ _ _ => rfl⟩
  obtain ⟨ds, hbusy⟩ := hdone.others ho hv
  exact hbusy.commitOk

/-! ## Reading -/

/-- What is read in a transaction that has not written. -/
theorem get_safe (k : Key) :
    Safe lifecycle p (fun x h' t' => t' = {} ∧ Ready lifecycle p h' {} ∧
        ∃ h₁, h <:+ h₁ ∧ h₁ <:+ h' ∧ x = row (committed h₁) k)
      (Fair p) (Session.get k) h {} := by
  refine Safe.run fun h₁ ho hv hs => ⟨fun busy x t' hf hx => ?_, .inl (List.mem_cons_self ..)⟩
  simp only [Stmt.exec, Option.some.injEq, Prod.mk.injEq] at hx
  obtain ⟨rfl, rfl⟩ := hx
  exact ⟨rfl, .start ⟨trivial, hv⟩, h₁, ho.suffix, List.suffix_cons _ _, rfl⟩

theorem select_safe :
    Safe lifecycle p (fun x h' t' => t' = {} ∧ Ready lifecycle p h' {} ∧
        ∃ h₁, h <:+ h₁ ∧ .ran p .view (committed h₁) :: h₁ = h' ∧ x = committed h₁)
      (Fair p) Session.select h {} := by
  refine Safe.run fun h₁ ho hv hs => ⟨fun busy x t' hf hx => ?_, .inl (List.mem_cons_self ..)⟩
  simp only [Stmt.exec, Option.some.injEq, Prod.mk.injEq] at hx
  obtain ⟨rfl, rfl⟩ := hx
  exact ⟨rfl, .start ⟨trivial, hv⟩, h₁, ho.suffix, rfl, rfl⟩

/-- The context of a workspace request, with the moment its role was looked up. -/
structure Resolved (h h' : Hist) (user w : Uuid) (context : WorkspaceContext) : Prop where
  later : h <:+ h'
  user : context.userId = user
  workspace : context.workspaceId = w
  role : ∃ h₁, h <:+ h₁ ∧ h₁ <:+ h' ∧
    HoldsRole (committed h₁) context.customerId context.userId context.workspaceId context.role

/-- **A role is what the memberships say.** -/
theorem getWorkspaceContext_safe (tenant user w : Uuid) :
    Safe lifecycle p (fun context h' t' => t' = {} ∧ Ready lifecycle p h' {} ∧
        Resolved h h' user w context)
      (Fair p) (getWorkspaceContext tenant user w) h {} := by
  refine Safe.bind (get_safe _) ?_
  rintro found h₁ _ ⟨rfl, hr₁, hx, hle₁, hle₁', -⟩
  dsimp only
  split
  · rename_i workspace hfound
    have htenant : workspace.customerId = tenant := by
      simpa using (Option.filter_eq_some_iff.1 hfound).2
    split
    · exact .inr trivial
    · refine Safe.bind select_safe ?_
      rintro db h₂ _ ⟨rfl, hr₂, hy, hle₂, hh₂, rfl⟩
      have hle₂' : hy <:+ h₂ := hh₂ ▸ List.suffix_cons _ _
      have hle : h <:+ h₂ := ((hle₁.trans hle₁').trans hle₂).trans hle₂'
      split
      · rename_i howner
        exact ⟨rfl, hr₂, hle, rfl, rfl, hy, (hle₁.trans hle₁').trans hle₂, hle₂',
          .inl ⟨howner, rfl⟩⟩
      · refine Safe.bind select_safe ?_
        rintro db h₃ _ ⟨rfl, hr₃, hz, hle₃, hh₃, rfl⟩
        have hle₃' : hz <:+ h₃ := hh₃ ▸ List.suffix_cons _ _
        split
        · exact .inr trivial
        · rename_i membership customerMembership hmember
          split
          · exact .inr trivial
          · rename_i hauditor
            refine ⟨rfl, hr₃, (hle.trans hle₃).trans hle₃', rfl, rfl, hz, hle.trans hle₃, hle₃',
              .inr ⟨membership, customerMembership, ?_, hauditor, rfl⟩⟩
            rw [← htenant] at hmember
            exact hmember
  · exact .inr trivial

/-- The action was in the store at some moment before `h`. -/
structure Loaded (h : Hist) (i : Uuid) (a : Action) : Prop where
  id : a.id = i
  read : ∃ h₁, h₁ <:+ h ∧ row (committed h₁) (.action i) = some a

/-- It is there still, and has changed its status at most. -/
theorem Loaded.now {i : Uuid} {a : Action} (H : Loaded h i a) (hh : h <:+ h')
    (hv : lifecycle.Valid h') :
    ∃ b, row (committed h') (.action i) = some b ∧ b = a.setStatus b.status := by
  obtain ⟨h₁, hle, hrow⟩ := H.read
  obtain ⟨evs, rfl⟩ := hle.trans hh
  exact keeps_of_valid hv hrow

theorem getAction_safe (tenant i : Uuid) :
    Safe lifecycle p (fun x h' t' => t' = {} ∧ Ready lifecycle p h' {} ∧ h <:+ h' ∧
        ∀ a ∈ x, a.customerId = tenant ∧ Loaded h' i a)
      (Fair p) (getAction tenant i) h {} := by
  refine Safe.bind (get_safe _) ?_
  rintro found h₁ _ ⟨rfl, hr, hx, hle, hle', rfl⟩
  refine ⟨rfl, hr, hle.trans hle', fun a ha => ?_⟩
  obtain ⟨hrow, hc⟩ := Option.filter_eq_some_iff.1 (Option.mem_def.1 ha)
  exact ⟨by simpa using hc,
    keyed_of_valid (hr.valid.suffix hle') _ _ hrow _ rfl, hx, hle', hrow⟩

theorem getWorkspaceAction_safe (context : WorkspaceContext) (i : Uuid) :
    Safe lifecycle p (fun a h' t' => t' = {} ∧ Ready lifecycle p h' {} ∧ h <:+ h' ∧
        (a.customerId = context.customerId ∧ a.workspaceId = context.workspaceId) ∧ Loaded h' i a)
      (Fair p) (getWorkspaceAction context i) h {} := by
  refine Safe.bind (getAction_safe _ _) ?_
  rintro found h₁ _ ⟨rfl, hr, hle, ha⟩
  split
  · rename_i a
    obtain ⟨hc, hloaded⟩ := ha a rfl
    split
    · exact .inr trivial
    · rename_i hw
      exact ⟨rfl, hr, hle, ⟨hc, not_not.1 hw⟩, hloaded⟩
  · exact .inr trivial

theorem requireRole_safe {context : WorkspaceContext} {allowed : Bool} {may : String}
    {Q : Unit → Hist → DbTx → Prop} (hQ : allowed = true → Q () h t) :
    Safe lifecycle p Q (Fair p) (requireRole context allowed may) h t := by
  unfold requireRole
  split
  · rename_i hyes
    exact hQ hyes
  · exact .inr trivial

/-! ## Moving -/

omit [Sha256] in
theorem Broken.fair {e : Err} (H : Broken p h t e h' t') : Fair p e h' t' := by
  obtain ⟨evs, rfl, hev⟩ := H.since
  exact .inl (List.mem_append_left _ hev)

theorem TransitionFailed.fair {C : Contract Row Answer} {i : Uuid} {target : ActionStatus}
    {actor : String} {e : Err} (H : TransitionFailed C p h t i target actor e h' t') :
    Fair p e h' t' := by
  cases H with
  | broken hb => exact hb.fair
  | noReceipt _ he =>
    subst he
    exact .inr trivial
  | refused _ _ he =>
    subst he
    exact .inr trivial

/-- **A transition is a deed**, if there is a cause for it. -/
theorem applyTransition_done {a : Action} {i : Uuid} (hr : Ready lifecycle p h {})
    (ha : Loaded h i a) {target : ActionStatus} {actor : String} {receipt : Option Json}
    (hcause : ∀ h' source, h <:+ h' → source = a.setStatus source.status →
      Event.ran p (.forUpdate (.action i)) (some source) ∈ h' →
      Cause p h' i source target actor receipt) :
    Safe lifecycle p (fun b h' t' => ∃ source e, h <:+ h' ∧ source = a.setStatus source.status ∧
        Event.ran p (.forUpdate (.action i)) (some source) ∈ h' ∧
        b = source.setStatus target ∧ Busy p h' t' [.moved i source target actor receipt e])
      (Fair p) (applyTransition a target actor receipt) h {} := by
  obtain ⟨b, hb, -⟩ := ha.now (List.suffix_refl h) hr.valid
  obtain rfl := ha.id
  refine (applyTransition_safe lifecycle_audits lifecycle_minor hr (lifecycle_keeps _)
    (by rw [Tx.view, List.nil_append, hb]; rfl) target actor receipt).mono ?_
    fun _ _ _ hfailed => hfailed.fair
  rintro _ h' t' ⟨ho, hr', source, e, rfl, H⟩
  have hfound : row (committed h') (.action a.id) = some source := H.found
  obtain ⟨b, hb, hsame⟩ := ha.now ho.suffix hr'.valid
  obtain rfl := Option.some.inj (hfound.symm.trans hb)
  refine ⟨source, e, ho.suffix, hsame, H.read, rfl, hr.busy.cons ho hr' H.wrote ?_⟩
  exact ⟨hfound, H.allowed, H.event, hcause h' source ho.suffix hsame H.read⟩

/-- **Cancelling.** -/
theorem cancelAction_done {context : WorkspaceContext} {i : Uuid} {strength : AuthStrength}
    (ha : Admitted p h (.cancel ⟨context.userId, strength⟩ context.workspaceId i) strength
      context) :
    Safe lifecycle p (fun _ => Done p) (Fair p) (cancelAction context i) h {} := by
  refine Safe.bind (getWorkspaceAction_safe context i) ?_
  rintro a h₁ _ ⟨rfl, hr, hle, hplace, hloaded⟩
  refine Safe.bind (requireRole_safe (Q := fun _ h' t' => h' = h₁ ∧ t' = {} ∧
    (a.actorId = actorOf context.userId ∨ context.role = .WORKSPACE_ADMIN)) fun hmay => ?_) ?_
  · exact ⟨rfl, rfl, by simpa [rolesThatMayApproveAnotherActorsAction] using hmay⟩
  rintro - h₁ _ ⟨rfl, rfl, hmay⟩
  have hmove : ∀ target, target = ActionStatus.CANCELLED ∨ target = .COMPENSATING →
      Safe lifecycle p (fun _ => Done p) (Fair p)
        (applyTransition a target (actorOf context.userId)) h₁ {} := by
    intro target htarget
    refine (applyTransition_done hr hloaded fun h' source hle' hsame _ => ?_).mono ?_
      fun _ _ _ he => he
    · rw [hsame]
      exact .cancelled strength context target (ha.mono (hle.trans hle')) htarget hmay hplace
    · rintro b h' t' ⟨source, e, -, -, -, -, hbusy⟩
      exact ⟨_, hbusy⟩
  refine Safe.bind (B := fun _ => Done p) ?_ fun _ _ _ H => H
  unfold requestCancellation
  split
  · exact hmove _ (.inl rfl)
  · exact hmove _ (.inr rfl)
  · exact .inr trivial

/-- What process `p` read of the action as it locked it. -/
def LockedAs (p : ℕ) (h : Hist) (i : Uuid) (source : Action) : Prop :=
  Event.ran p (.forUpdate (.action i)) (some source) ∈ h

/-- **Completing a compensation.** -/
theorem completeActionCompensation_done {context : WorkspaceContext} {i : Uuid}
    {outcome : ActionStatus} {strength : AuthStrength}
    (ha : Admitted p h (.completeCompensation ⟨context.userId, strength⟩ context.workspaceId i
      outcome) strength context) :
    Safe lifecycle p (fun _ h' t' => Done p h' t' ∧ ∃ source, LockedAs p h' i source) (Fair p)
      (completeActionCompensation context i outcome) h {} := by
  refine Safe.bind (getWorkspaceAction_safe context i) ?_
  rintro a h₁ _ ⟨rfl, hr, hle, hplace, hloaded⟩
  refine Safe.bind (requireRole_safe (Q := fun _ h' t' => h' = h₁ ∧ t' = {} ∧
    context.role = .WORKSPACE_ADMIN) fun hrole => ⟨rfl, rfl, by simpa using hrole⟩) ?_
  rintro - h₁ _ ⟨rfl, rfl, hrole⟩
  refine Safe.bind (B := fun _ h' t' => Done p h' t' ∧ ∃ source, LockedAs p h' i source) ?_
    fun _ _ _ H => H
  unfold completeCompensation
  split
  · exact .inr trivial
  · rename_i hout
    refine (applyTransition_done hr hloaded fun h' source hle' hsame _ => ?_).mono ?_
      fun _ _ _ he => he
    · rw [hsame]
      exact .completed strength context outcome (ha.mono (hle.trans hle'))
        (by simpa using not_not.1 hout) hrole hplace
    · rintro b h' t' ⟨source, e, -, -, hread, -, hbusy⟩
      exact ⟨⟨_, hbusy⟩, source, hread⟩

/-! ## Deciding -/

/-- An approval is loaded as it was at some moment. -/
theorem getApproval_safe (tenant i : Uuid) :
    Safe lifecycle p (fun x h' t' => t' = {} ∧ h <:+ h' ∧ ∀ ap ∈ x, ap.id = i ∧
        ∃ h₁, h₁ <:+ h' ∧ row (committed h₁) (.approval i) = some ap)
      (Fair p) (getApproval tenant i) h {} := by
  refine Safe.bind (get_safe _) ?_
  rintro found h₁ _ ⟨rfl, hr, h₂, hle, hle', rfl⟩
  refine ⟨rfl, hle.trans hle', fun ap hap => ?_⟩
  obtain ⟨hrow, -⟩ := Option.filter_eq_some_iff.1 (Option.mem_def.1 hap)
  exact ⟨keyed_of_valid (hr.valid.suffix hle') _ _ hrow _ rfl, h₂, hle', hrow⟩

/-- The caller is the actor or an admin, under a fresh second factor. -/
theorem authorizeConsumeApproval_safe (context : WorkspaceContext) (a : Action)
    (strength : AuthStrength) :
    Safe lifecycle p (fun _ h' t' => h' = h ∧ t' = t ∧ strength = .AAL2 ∧
        (a.actorId = actorOf context.userId ∨ context.role = .WORKSPACE_ADMIN))
      (Fair p) (authorizeConsumeApproval context a strength) h t := by
  unfold authorizeConsumeApproval
  refine Safe.bind (B := fun _ h' t' => h' = h ∧ t' = t ∧
    (a.actorId = actorOf context.userId ∨ context.role = .WORKSPACE_ADMIN))
    (requireRole_safe fun hmay => ?_) ?_
  · exact ⟨rfl, rfl, by simpa [rolesThatMayApproveAnotherActorsAction] using hmay⟩
  · rintro - h t ⟨rfl, rfl, hmay⟩
    split
    · exact .inr trivial
    · rename_i hstrength
      exact ⟨rfl, rfl, not_not.1 hstrength, hmay⟩

/-- **Consuming an approval.** -/
theorem consumeActionApproval_done {context : WorkspaceContext} {approvalId : Uuid}
    {nonce : String} {strength : AuthStrength}
    (ha : Admitted p h (.consume ⟨context.userId, strength⟩ context.workspaceId approvalId nonce)
      strength context) :
    Safe lifecycle p (fun _ => Done p) Whatever
      (consumeActionApproval context strength approvalId nonce) h {} := by
  refine Safe.bind (getApproval_safe _ _).forget ?_
  rintro found h₁ _ ⟨rfl, hle₁, hfound⟩
  split
  · trivial
  rename_i loaded
  obtain ⟨rfl, h₀, hle₀, hrow⟩ := hfound loaded rfl
  refine Safe.bind (getWorkspaceAction_safe context loaded.actionId).forget ?_
  rintro a h₂ _ ⟨rfl, hr, hle₂, hplace, ha₂⟩
  refine Safe.bind (authorizeConsumeApproval_safe context a strength).forget ?_
  rintro - h₂ _ ⟨rfl, rfl, rfl, hmay⟩
  obtain ⟨b, hb, -⟩ := ha₂.now (List.suffix_refl _) hr.valid
  have hkey := ha₂.id
  have hthere : (row (({} : DbTx).view (committed h₂)) (.action a.id)).isSome := by
    rw [Tx.view, List.nil_append, hkey, hb]
    rfl
  refine Safe.bind ((consumeApproval_safe lifecycle_audits lifecycle_minor lifecycle_keeps hr
    hthere loaded _ nonce).mono
    (Q := fun _ => Done p) ?_ fun _ _ _ _ => trivial) fun _ _ _ H => H
  rintro _ h' t' ⟨ho, hr', now, source, e, m, before, rfl, H⟩
  obtain ⟨c, hc, hsame⟩ := ha₂.now ho.suffix hr'.valid
  have hsource : row (committed h') (.action loaded.actionId) = some source := hkey ▸ H.foundSource
  obtain rfl := Option.some.inj (hsource.symm.trans hc)
  refine ⟨_, hr.busy.cons ho hr'
    (d := .consumed a.id loaded.id source before (actorOf context.userId) e m) H.wrote ?_⟩
  exact {
    found := H.foundSource
    allowed := H.allowed
    foundApproval := H.found
    event := H.event
    message := H.message
    fresh := H.fresh
    decided := ⟨context, loaded, nonce, now, {
      admitted := ha.mono ((hle₁.trans hle₂).trans ho.suffix)
      approver := rfl
      may := by rw [hsame]; exact hmay
      place := by rw [hsame]; exact hplace
      read := ⟨h₀, (hle₀.trans hle₂).trans ho.suffix, hrow⟩
      about := hkey.symm
      pending := H.pending
      nonce := H.nonce
      reading := H.reading
      inTime := H.inTime
      payload := by rw [hsame]; exact H.payload }⟩ }

/-! ## Proposing -/

/-- The transaction has failed, or has done deeds. -/
def Going (p : ℕ) (h : Hist) (t : DbTx) : Prop := t.failed = true ∨ Done p h t

/-- A new action that is proposed and not submitted yet. -/
structure Drafted (p : ℕ) (h₀ : Hist) (t₀ : DbTx) (h : Hist) (t : DbTx) (a : Action)
    (e : AuditEvent) : Prop where
  onward : Onward p h₀ t₀ h t
  ready : Ready lifecycle p h t
  proposed : Proposed h t₀ t a a.actorId e
  draft : a.status = .DRAFT
  floor : ∃ risk, a.riskLevel = enforceMinimumRiskLevel a.toolName risk
  hash : a.payloadHash = hashPayload a.payload

theorem Raised.going {H : Busy p h t ds} {err : Err} (hr : Raised lifecycle p h t err h' t') :
    Going p h' t' := by
  cases hr with
  | broken hb => exact .inl hb.failed
  | untouched ho hr hw => exact .inr ⟨ds, H.after ho hr (by rw [hw])⟩

/-- A proposal is drafted, or the action that holds its key is found. -/
theorem proposeAction_going (H : Busy p h t ds) (c w traceId : Uuid) (actor tool : String)
    (risk : RiskLevel) (payload : Json) (key : String) (task : Option Uuid) :
    Safe lifecycle p (fun x h' t' => (x.2 = true ∧
        (∃ id, x.1 = newAction id c w traceId actor tool risk payload key task) ∧
        ∃ e, Drafted p h t h' t' x.1 e) ∨ (x.2 = false ∧ Busy p h' t' ds)) (fun _ => Going p)
      (proposeAction c w traceId actor tool risk payload key task) h t := by
  refine (proposeAction_safe lifecycle_audits lifecycle_minor H.toReady c w traceId actor tool risk
    payload key task).mono ?_ fun _ _ _ hr => hr.going (H := H)
  rintro ⟨a, created⟩ h' t' ⟨ho, hr, ⟨rfl, id, e, hnew, hprop⟩ | ⟨rfl, hw, -⟩⟩
  · obtain rfl : a = newAction id c w traceId actor tool risk payload key task := hnew
    exact .inl ⟨rfl, ⟨id, rfl⟩, e, ho, hr, hprop, rfl, ⟨risk, rfl⟩, rfl⟩
  · exact .inr ⟨rfl, H.after ho hr (by rw [hw])⟩

/-- **A proposal and its submission are one deed.** -/
theorem submitActionForExecution_going (H : Busy p h t ds) {h₁ : Hist} {t₁ : DbTx} {a : Action}
    {e : AuditEvent} (hd : Drafted p h t h₁ t₁ a e) {r : Request} {strength : AuthStrength}
    {context : WorkspaceContext} (hp : Proposer p h r strength context a) :
    Safe lifecycle p (fun _ => Done p) (fun _ => Going p)
      (submitActionForExecution a a.actorId) h₁ t₁ := by
  have hcore := hd.proposed.wrote
  have hown : row t₁.writes (.action a.id) = some a := by
    have := row_core_append (k := .action a.id) rfl t₁.writes []
    rw [List.append_nil, List.append_nil] at this
    rw [← this, hcore]
    simp [proposalVersions, row]
  refine (submitActionForExecution_safe lifecycle_audits lifecycle_minor lifecycle_keeps hd.ready
    hown hd.draft a.actorId).mono ?_ fun _ _ _ hb => .inl hb.failed
  rintro x h' t' ⟨ho, hr, target, e₁, e₂, rest, -, hs⟩
  refine ⟨_, H.cons (hd.onward.trans ho) hr (d := .proposed a target e e₁ e₂ rest) ?_ ?_⟩
  · rw [hs.wrote, hcore]
    simp [Deed.versions]
  -- what was fresh is still not committed
  have hlocked : ∀ k ∈ t₁.locks, row (t.view (committed h₁)) k = row (t.view (committed h')) k :=
    fun k hk => by rw [Tx.view, row_append_congr _ (ho.row_eq hk).symm, ← Tx.view]
  have hrest : ∀ k ∈ keys rest, row (t.view (committed h')) k = none := by
    intro k hk
    have hfresh := hs.fresh k hk
    have htracked : k.tracked = true ∧ k ∉ keys (proposalVersions a e) := by
      have hroute := hs.route
      cases hroute <;> (rw [List.mem_singleton.1 hk]; simp [Key.tracked, proposalVersions])
    rwa [row_view_of_core_eq hcore htracked.1 htracked.2] at hfresh
  exact {
    freshAction := by
      rw [← H.row_view rfl, ← hlocked _ hd.proposed.locked.1, hd.proposed.fresh.1]
    freshKey := by
      rw [← H.row_view rfl, ← hlocked _ hd.proposed.locked.2, hd.proposed.fresh.2]
    draft := hd.draft
    floor := hd.floor
    hash := hd.hash
    proposes := hd.proposed.event
    validates := hs.validating
    routes := hs.routed
    route := hs.route
    freshBeside := fun k hk => by
      have htracked : k.tracked = true := by
        have hroute := hs.route
        cases hroute <;> (rw [List.mem_singleton.1 hk]; rfl)
      rw [← H.row_view htracked, hrest k hk]
    proposer := ⟨r, strength, context, hp.mono (hd.onward.suffix.trans ho.suffix)⟩ }

/-- The row is not about an action, and not of the audit log. -/
def Key.plain (k : Key) : Prop := k.tracked = false ∧ k.auditing = false

omit [Sha256] in
theorem core_eq_nil_of_plain {w : Db} (hw : ∀ k ∈ keys w, k.plain) : core w = [] := by
  refine core_eq_nil fun v hv => ?_
  obtain ⟨htracked, haudit⟩ := hw v.1 (List.mem_map_of_mem (f := Sigma.fst) hv)
  refine ⟨htracked, ?_⟩
  obtain ⟨k, v⟩ := v
  cases k <;> simp [Key.auditing, Key.isAuditEvent] at haudit ⊢

/-- A call that is not a POST. -/
def Call.quiet : Call → Prop
  | .post _ _ _ => False
  | _ => True

theorem callOk_of_quiet {e : Call} (he : e.quiet) : lifecycle.callOk h p e := by
  cases e <;> trivial

/-- **Other rows and other calls** leave a transaction's deeds alone. -/
theorem going_steady (p : ℕ) :
    Steady lifecycle p (·.WritesOnly Key.plain) Call.quiet False (Going p) where
  others H ho hv := H.imp_right fun hd => hd.others ho hv
  exec {q h t busy x t'} hq hv hs hf H hx := by
    obtain ⟨ds, hbusy⟩ := H.resolve_left (by simp [hf])
    obtain ⟨vs, hw, hvs⟩ := Stmt.exec_writes hq hx
    have ho : Onward p h t (.ran p q x :: h) t' :=
      .own trivial (fun _ hk => Stmt.exec_locks_mono hx hk) (hw ▸ List.suffix_append _ _)
    refine .inr ⟨ds, hbusy.after ho ?_ ?_⟩
    · exact hbusy.toReady.onward lifecycle_audits ho (Safe.live_of_exec hv hs hf hx) vs hw
        fun k hk => (hvs k hk).2
    · rw [hw, core_append, core_eq_nil_of_plain hvs, List.nil_append]
  failed _ _ := .inl rfl
  called {e h t} he hv H := by
    have hok : lifecycle.callOk h p e := callOk_of_quiet he
    refine ⟨hok, fun x => H.imp_right ?_⟩
    rintro ⟨ds, hbusy⟩
    have ho : ReadCommitted.Onward (fun _ => True) p h t (.called p e x :: h) t :=
      .own trivial (fun _ hk => hk) (List.suffix_refl _)
    refine ⟨ds, hbusy.after ho ?_ rfl⟩
    exact hbusy.toReady.onward lifecycle_audits ho ⟨⟨hok, hv⟩, hbusy.sound, hbusy.ok⟩ [] rfl
      (by simp)
  committed := False.elim
  rolledBack := False.elim

/-- A failed transaction stays failed. -/
theorem failed_steady (p : ℕ) :
    Steady lifecycle p (fun _ => True) Call.quiet False (fun _ t => t.failed = true) where
  others H _ _ := H
  exec _ _ _ hf H _ := by simp [hf] at H
  failed _ _ := rfl
  called he _ H := ⟨callOk_of_quiet he, fun _ => H⟩
  committed := False.elim
  rolledBack := False.elim

omit [Sha256] in
theorem Call.Minor.quiet {e : Call} (he : e.Minor) : e.quiet := by
  cases e <;> trivial

theorem resolveReplayApproval_going (H : Going p h t) (a : Action) (actor : String) :
    Safe lifecycle p (fun _ => Going p) (fun _ => Going p) (resolveReplayApproval a actor) h t := by
  refine Only.safe (going_steady p) ?_ H
  unfold resolveReplayApproval
  split
  · exact Only.pure _
  · exact Only.bind (Only.run trivial) fun _ => Only.pure _

/-- A new action has the proposer that it was made for. -/
theorem Admitted.proposer {r : Request} {strength : AuthStrength} {context : WorkspaceContext}
    (H : Admitted p h r strength context) (hmay : context.role ∈ rolesThatMayProposeActions)
    {id traceId : Uuid} {tool key : String} {risk : RiskLevel} {payload : Json}
    {task : Option Uuid} (hasks : r.AsksFor (newAction id context.customerId context.workspaceId
      traceId (actorOf context.userId) tool risk payload key task)) :
    Proposer p h r strength context (newAction id context.customerId context.workspaceId traceId
      (actorOf context.userId) tool risk payload key task) :=
  ⟨hasks, H, hmay, rfl, rfl, rfl⟩

/-- **A propose request** proposes and submits, or replays. -/
theorem proposeAndSubmitAction_done (hr : Ready lifecycle p h {}) {context : WorkspaceContext}
    {who : Identity} {w traceId : Uuid} {body : ProposeBody} {key : String}
    {strength : AuthStrength}
    (ha : Admitted p h (.propose who w traceId body key) strength context) :
    Safe lifecycle p (fun _ h' t' => Going p h' t') Whatever
      (proposeAndSubmitAction context traceId body key) h {} := by
  have hany : ∀ e h t, Going p h t → Whatever e h t := fun _ _ _ _ => trivial
  refine Safe.bind (requireRole_safe (Q := fun _ h' t' => h' = h ∧ t' = {} ∧
    context.role ∈ rolesThatMayProposeActions) fun hmay => ⟨rfl, rfl, ?_⟩).forget ?_
  · exact of_decide_eq_true hmay
  rintro - h _ ⟨rfl, rfl, hmay⟩
  have hbusy : Busy p h {} [] := hr.busy
  refine Safe.bind ((proposeAction_going hbusy _ _ _ _ _ _ _ _ _).mono (fun _ _ _ => id) hany) ?_
  rintro ⟨_, created⟩ h₁ t₁ (⟨rfl, ⟨_, rfl⟩, e, hd⟩ | ⟨rfl, hb⟩)
  · refine Safe.bind ((submitActionForExecution_going hbusy hd (ha.proposer hmay ?_)).mono
      (fun _ _ _ => id) hany) ?_
    · exact ⟨rfl, rfl, rfl, rfl, rfl⟩
    · exact fun _ _ _ hdone => .inr hdone
  · refine Safe.bind ((resolveReplayApproval_going (.inr ⟨_, hb⟩) _ _).mono (fun _ _ _ => id)
      hany) ?_
    exact fun _ _ _ hgoing => hgoing

section Turns

variable [JsonText] [Deployment]

omit [JsonText] [Deployment] in
theorem proposeAction_minor (c w traceId : Uuid) (actor tool : String) (risk : RiskLevel)
    (payload : Json) (key : String) (task : Option Uuid) :
    Only (fun _ => True) Call.Minor False
      (proposeAction c w traceId actor tool risk payload key task) := by
  have hlives : ∀ {α : Type} {m : Session α}, Lives m → Only (fun _ => True) Call.Minor False m :=
    fun hm => hm.mono (fun _ _ => trivial) (fun _ he => he) id
  refine Only.bind (hlives (assertNotKilled_lives _ _)) fun _ => ?_
  refine Only.bind (Only.call trivial) fun id => Only.bind (Only.run trivial) fun inserted => ?_
  split
  · exact Only.bind (hlives (recordAuditEvent_lives ..)) fun _ => Only.pure _
  · refine Only.bind (Only.run trivial) fun db => ?_
    split
    · exact Only.throw _
    · exact Only.pure _

/-- A chat turn, of a caller who may propose. -/
structure Chatting (p : ℕ) (h : Hist) (context : WorkspaceContext) (traceId : Uuid) : Prop where
  admitted : ∃ who w conversation content mode strength,
    Admitted p h (.chat who w conversation traceId content mode) strength context
  may : context.role ∈ rolesThatMayProposeActions

/-- **A write tool call** proposes and submits, or replays, or fails. -/
theorem proposeWriteToolAction_going {context : WorkspaceContext} {traceId : Uuid}
    (hc : Chatting p h context traceId) (H : Going p h t) (tool args key : String) :
    Safe lifecycle p (fun _ => Going p) (fun _ => Going p)
      (proposeWriteToolAction tool args context traceId key) h t := by
  unfold proposeWriteToolAction
  dsimp only
  split
  · exact H
  · split
    · exact H
    · split
      · exact H
      · split
        · exact H
        · rename_i payload hpayload
          rcases H with hfailed | ⟨ds, hbusy⟩
          · -- a failed transaction runs nothing more
            have hsafe : ∀ {α : Type} {m : Session α}, Only (fun _ => True) Call.Minor False m →
                ∀ h t, t.failed = true → Safe lifecycle p (fun _ => Going p) (fun _ => Going p)
                  m h t := fun hm h t ht =>
              ((hm.mono (fun _ _ => trivial) (fun _ he => he.quiet) id).safe (failed_steady p)
                ht).mono (fun _ _ _ => .inl) fun _ _ _ => .inl
            refine hsafe (Only.bind (proposeAction_minor _ _ _ _ _ _ _ _ _) ?_) h t hfailed
            rintro ⟨a, created⟩
            cases created with
            | true =>
              exact (submitActionForExecution_lives ..).mono (fun _ _ => trivial)
                (fun _ he => he) id
            | false =>
              refine Only.bind ((resolveReplayApproval_lives ..).mono (fun _ _ => trivial)
                (fun _ he => he) id) fun _ => Only.pure _
          · refine Safe.bind (proposeAction_going hbusy _ _ _ _ _ _ _ _ _) ?_
            rintro ⟨_, created⟩ h₁ t₁ (⟨rfl, ⟨_, rfl⟩, e, hd⟩ | ⟨rfl, hb⟩)
            · obtain ⟨who, w, conversation, content, mode, strength, hadmitted⟩ := hc.admitted
              rw [if_pos rfl]
              exact (submitActionForExecution_going hbusy hd (hadmitted.proposer hc.may rfl)).mono
                (fun _ _ _ => .inr) fun _ _ _ => id
            · exact Safe.bind (resolveReplayApproval_going (.inr ⟨_, hb⟩) _ _) fun _ _ _ => id

omit [Sha256] [JsonText] [Deployment] in
theorem Chatting.mono {h' : Hist} {context : WorkspaceContext} {traceId : Uuid}
    (H : Chatting p h context traceId) (hh : h <:+ h') : Chatting p h' context traceId := by
  obtain ⟨who, w, conversation, content, mode, strength, hadmitted⟩ := H.admitted
  exact ⟨⟨who, w, conversation, content, mode, strength, hadmitted.mono hh⟩, H.may⟩

theorem turn_going {h₀ : Hist} {context : WorkspaceContext} {traceId : Uuid}
    (hc : Chatting p h₀ context traceId) :
    TurnSteps context traceId fun m => Maintains lifecycle p (fun h t => h₀ <:+ h ∧ Going p h t) m
    where
  composes := Safe.compositional lifecycle p _
  stmt q hq := by
    refine ((going_steady p).since h₀).maintains (Only.run ?_)
    have hplain : ∀ k : Key, k.ofTurns = true → k.plain := by
      intro k hk
      cases k <;> simp [Key.ofTurns] at hk <;> exact ⟨rfl, rfl⟩
    cases q with
    | get | view | forUpdate | skipLocked => trivial
    | insert rows | tryInsert rows => exact fun e he => hplain _ (hq e he)
    | update k f => exact hplain _ hq
    | delete k => exact hplain _ hq
  call e he := by
    refine ((going_steady p).since h₀).maintains (Only.call ?_)
    cases e <;> trivial
  propose tool args key h t H :=
    ((proposeWriteToolAction_going (hc.mono H.1) H.2 tool args key).later (List.suffix_refl h)).mono
      (fun _ _ _ hg => ⟨H.1.trans hg.2, hg.1⟩) fun _ _ _ hg => ⟨H.1.trans hg.2, hg.1⟩

end Turns

/-! ## The outbox relay -/

/-- The messages that are left to publish: locked, unpublished, each once. -/
structure Batch (h : Hist) (t : DbTx) (ds : List Deed) (rows : List (Entry Row)) : Prop where
  once : (rows.map Sigma.fst).Nodup
  locked : ∀ e ∈ rows, e.1 ∈ t.locks
  row : ∀ e ∈ rows, row (versionsOf ds ++ committed h) e.1 = some e.2
  pending : ∀ i (m : OutboxMessage), (⟨.outboxMessage i, m⟩ : Entry Row) ∈ rows →
    m.publishedAt = none

omit [Sha256] in
/-- The batch waits. -/
theorem Batch.onward {rows : List (Entry Row)} (H : Batch h t ds rows) {M : Call → Prop}
    (ho : ReadCommitted.Onward M p h t h' t') : Batch h' t' ds rows where
  once := H.once
  locked e he := ho.locks _ (H.locked e he)
  row e he := by rw [row_append_congr _ (ho.row_eq (H.locked e he)), H.row e he]
  pending := H.pending

/-- A call that is not a POST, in the middle of a batch. -/
theorem quietCall_safe {rows : List (Entry Row)} (H : Busy p h t ds) (hb : Batch h t ds rows)
    {e : Call} (he : e.quiet) :
    Safe lifecycle p (fun x h' t' => t' = t ∧ Busy p h' t ds ∧ Batch h' t ds rows ∧ h <:+ h' ∧
        Event.called p e x ∈ h')
      Whatever (call e) h t := by
  refine Safe.call fun h₁ ho hv hs => ?_
  have hok : lifecycle.callOk h₁ p e := callOk_of_quiet he
  have ho' : ∀ x, ReadCommitted.Onward (fun _ => True) p h t (.called p e x :: h₁) t := fun x =>
    (Onward.others ho).trans (.own trivial (fun _ hk => hk) (List.suffix_refl _))
  refine ⟨hok, fun x => ⟨rfl, H.after (ho' x) ?_ rfl, hb.onward (ho' x), (ho' x).suffix, by simp⟩⟩
  exact H.toReady.onward lifecycle_audits (ho' x) ⟨⟨hok, hv⟩, hs, H.ok⟩ [] rfl (by simp)

/-- **Publishing a batch** marks each message after it was added to its stream. -/
theorem publishAll_done {rows : List (Entry Row)} (H : Busy p h t ds) (hb : Batch h t ds rows) :
    Safe lifecycle p (fun _ => Done p) Whatever (publishAll rows) h t := by
  induction rows generalizing h t ds with
  | nil => exact ⟨ds, H⟩
  | cons e rows ih =>
    obtain ⟨k, m⟩ := e
    cases k with
    | outboxMessage i =>
      obtain ⟨m, rfl⟩ : ∃ m' : OutboxMessage, m' = m := ⟨m, rfl⟩
      obtain rfl : m.id = i :=
        (H.fit.keyed (keyed_of_valid H.valid)) _ _ (hb.row _ (List.mem_cons_self ..)) _ rfl
      refine Safe.bind (B := fun _ h' t' => ∃ now, Busy p h' t' (.published m.id m now :: ds) ∧
        Batch h' t' (.published m.id m now :: ds) rows) (Safe.bind
        (quietCall_safe H hb trivial) ?_) ?_
      · rintro outcome h₁ _ ⟨rfl, H₁, hb₁, -, hadded⟩
        cases outcome with
        | unacknowledged | refused => trivial
        | added =>
          refine Safe.bind (quietCall_safe H₁ hb₁ trivial) ?_
          rintro now h₂ _ ⟨rfl, H₂, hb₂, hle, -⟩
          refine (Safe.update (M := Call.Minor) _ _).mono ?_ fun _ _ _ _ => trivial
          rintro - h₃ t₃ ⟨hl, ho, v, hv, rfl⟩
          have hrow := (hb₂.onward ho).row _ (List.mem_cons_self ..)
          rw [H₂.row_view rfl] at hv
          obtain rfl : m = v := Option.some.inj (hrow.symm.trans hv)
          have hready := H₂.toReady.onward lifecycle_audits ho hl
            [⟨.outboxMessage m.id, some (m.publish now)⟩] rfl (by simp [Key.auditing])
          refine ⟨now, H₂.cons (d := .published m.id m now) ho hready
            (core_cons_tracked rfl _ _) ?_, ?_⟩
          · exact ⟨hrow, hb₂.pending _ _ (List.mem_cons_self ..),
              ho.suffix.subset (hle.subset hadded)⟩
          · have hb₃ := hb₂.onward ho
            refine ⟨(List.nodup_cons.1 hb.once).2, fun e he => hb₃.locked e
              (List.mem_cons_of_mem _ he), fun e he => ?_,
              fun i m hm => hb.pending i m (List.mem_cons_of_mem _ hm)⟩
            rw [← hb₃.row e (List.mem_cons_of_mem _ he), versionsOf_cons, List.append_assoc]
            have hmem : e.1 ∈ rows.map Sigma.fst := List.mem_map_of_mem he
            refine row_cons_ne _ _ fun heq => (List.nodup_cons.1 hb.once).1 ?_
            rw [← heq] at hmem
            exact hmem
      · rintro - h₁ t₁ ⟨now, H₁, hb₁⟩
        exact Safe.bind (ih H₁ hb₁) fun _ _ _ hdone => hdone
    | _ =>
      exact ih H ⟨(List.nodup_cons.1 hb.once).2,
        fun e he => hb.locked e (List.mem_cons_of_mem _ he),
        fun e he => hb.row e (List.mem_cons_of_mem _ he),
        fun i m hm => hb.pending i m (List.mem_cons_of_mem _ hm)⟩

omit [Sha256] in
/-- Unpublished messages are selected once each. -/
theorem nodup_pendingMessages {db : Db} (hk : Keyed db) : (pendingMessages db).Nodup := by
  unfold pendingMessages
  refine ((List.perm_insertionSort _ _).map _).nodup_iff.2 ?_
  refine nodup_collect_map fun k v m hrow hm => ?_
  cases k with
  | outboxMessage i =>
    simp only [Option.ite_none_right_eq_some, Option.some.injEq] at hm
    obtain ⟨-, rfl⟩ := hm
    rw [hk _ _ hrow v rfl]
  | _ => simp at hm

omit [Sha256] in
theorem mem_pendingMessages {db : Db} {k : Key} (hk : k ∈ pendingMessages db) :
    ∃ m : OutboxMessage, k = .outboxMessage m.id ∧ m.publishedAt = none ∧
      ∃ i, row db (.outboxMessage i) = some m := by
  unfold pendingMessages at hk
  obtain ⟨m, hm, rfl⟩ := List.mem_map.1 hk
  rw [(List.perm_insertionSort _ _).mem_iff, mem_collect] at hm
  obtain ⟨k, v, hrow, hm⟩ := hm
  cases k with
  | outboxMessage i =>
    simp only [Option.ite_none_right_eq_some, Option.some.injEq, Option.isNone_iff_eq_none] at hm
    obtain ⟨hpending, rfl⟩ := hm
    exact ⟨v, rfl, hpending, i, hrow⟩
  | _ => simp at hm

/-- **The batch** a worker locks is its own, unpublished, each message once. -/
theorem skipLocked_safe (n : ℕ) :
    Safe lifecycle p (fun rows h' t' => Busy p h' t' [] ∧ Batch h' t' [] rows)
      Whatever (run (.skipLocked pendingMessages n) : Session (List (Entry Row))) h {} := by
  refine Safe.run (q := .skipLocked pendingMessages n) fun h₁ ho hv hs =>
    ⟨fun busy rows t' hf hx => ?_, trivial⟩
  simp only [Stmt.exec, Option.some.injEq, Prod.mk.injEq] at hx
  obtain ⟨rfl, rfl⟩ := hx
  have hkeyed := keyed_of_valid hv
  have hview : (({} : DbTx).view (committed h₁)) = committed h₁ := rfl
  simp only [hview]
  set ks := ((pendingMessages (committed h₁)).filter (!busy ·)).take n with hks
  set rows := ks.filterMap fun k => (row (committed h₁) k).map (Sigma.mk (β := Row) k) with hrows
  have hsub : ks.Sublist (pendingMessages (committed h₁)) :=
    (List.take_sublist _ _).trans List.filter_sublist
  have hmem : ∀ e ∈ rows, e.1 ∈ ks ∧ row (committed h₁) e.1 = some e.2 := by
    intro e he
    obtain ⟨k, hk, hke⟩ := List.mem_filterMap.1 he
    obtain ⟨v, hv, rfl⟩ := Option.map_eq_some_iff.1 hke
    exact ⟨hk, hv⟩
  have ho' : Onward p h₁ {} (.ran p (.skipLocked pendingMessages n) rows :: h₁)
      (({} : DbTx).lock ks) := .own trivial (by simp) (List.suffix_refl _)
  refine ⟨(Busy.start hv).after ho' ?_ rfl, ?_, fun e he => ?_, fun e he => (hmem e he).2,
    fun i m hm => ?_⟩
  · exact (Ready.start hv).onward lifecycle_audits ho'
      ⟨⟨trivial, hv⟩, by simp [Tx.Sound], rfl⟩ [] rfl (by simp)
  · have hfst : rows.map Sigma.fst = ks.filter fun k => (row (committed h₁) k).isSome := by
      rw [hrows, List.map_filterMap, ← List.filterMap_eq_filter]
      refine List.filterMap_congr fun k _ => ?_
      cases hk : row (committed h₁) k <;> simp [Option.guard, hk]
    rw [hfst]
    exact ((nodup_pendingMessages hkeyed).sublist hsub).filter _
  · exact List.mem_append_left _ (hmem e he).1
  · obtain ⟨hk, hrow⟩ := hmem _ hm
    obtain ⟨m', hkey, hpending, j, hj⟩ := mem_pendingMessages (hsub.subset hk)
    obtain rfl : i = m'.id := by simpa using hkey
    obtain rfl : m'.id = j := hkeyed _ _ hj _ rfl
    obtain rfl : m = m' := Option.some.inj (hrow.symm.trans hj)
    exact hpending

/-! ## The Telegram relay -/

omit [Sha256] in
/-- Only a ready action can be started. -/
theorem eq_ready_of_running {s : ActionStatus} (hs : ActionStatus.RUNNING ∈ allowedTransitions s) :
    s = .READY := by
  cases s <;> simp [allowedTransitions] at hs ⊢

omit [Sha256] in
/-- Others do not post for this process. -/
theorem Posting.others {i : Uuid} {L : List Key} (H : Posting p h i) (ho : Others p L h h') :
    Posting p h' i := by
  obtain ⟨evs, w, h₁, rfl, hstarts, hnone⟩ := H
  obtain ⟨new, rfl, hnew⟩ := ho
  refine ⟨new ++ evs, w, h₁, by simp, hstarts, ?_⟩
  rw [List.forall_mem_append]
  refine ⟨fun ev hev hmay => ?_, hnone⟩
  cases ev with
  | called q e x =>
    cases e with
    | post => exact (hnew _ hev).1 hmay.1
    | _ => exact hmay
  | ran | committed | rolledBack | failed | crashed => exact hmay

omit [Sha256] in
/-- A POST that was not delivered leaves the process posting. -/
theorem Posting.post {i : Uuid} (H : Posting p h i) {chat text : String} {outcome : HttpOutcome}
    (hu : outcome.Undelivered) : Posting p (.called p (.post i chat text) outcome :: h) i := by
  obtain ⟨evs, w, h₁, rfl, hstarts, hnone⟩ := H
  refine ⟨_ :: evs, w, h₁, rfl, hstarts, List.forall_mem_cons.2 ⟨?_, hnone⟩⟩
  rintro ⟨-, -, hmay⟩
  exact hmay hu

omit [Sha256] in
/-- **Only what was not delivered is tried again.** -/
theorem undelivered_of_isTransient {outcome : HttpOutcome} {e : Err}
    (he : sendResult outcome = .error e) (ht : e.isTransient = true) : outcome.Undelivered := by
  cases outcome with
  | connectError | connectTimeout | poolTimeout => trivial
  | httpError name | raised name =>
    simp only [sendResult, Except.error.injEq] at he
    subst he
    simp [Err.isTransient] at ht
  | response status body =>
    by_contra hne
    simp only [HttpOutcome.Undelivered] at hne
    simp only [sendResult, hne, if_false] at he
    split at he
    · cases he
      simp [Err.isTransient] at ht
    · split at he
      · split at he <;> (cases he; simp [Err.isTransient] at ht)
      · split at he
        · cases he
          simp [Err.isTransient] at ht
        · split at he
          · cases he
            simp [Err.isTransient] at ht
          · split at he
            · cases he
              simp [Err.isTransient] at ht
            · split at he
              · cases he
                simp [Err.isTransient] at ht
              · split at he <;> cases he
                simp [Err.isTransient] at ht

/-- **The retry loop** posts until a message may have been delivered. -/
theorem sendAttempts_safe {i : Uuid} (H : Posting p h i) (chat text : String) (n : ℕ) (last : Err) :
    Safe lifecycle p (fun _ h' t' => t' = {} ∧ h <:+ h') (fun _ h' t' => t' = {} ∧ h <:+ h')
      (sendAttempts i chat text n last) h {} := by
  induction n generalizing h last with
  | zero => exact ⟨rfl, List.suffix_refl _⟩
  | succ n ih =>
    refine Safe.tryCatch (fun e h' t' => t' = {} ∧ h <:+ h' ∧
      (e.isTransient = true → Posting p h' i)) (Safe.bind (B := fun outcome h' t' => t' = {} ∧
        h <:+ h' ∧ (outcome.Undelivered → Posting p h' i)) (Safe.call fun h₁ ho _ _ => ?_) ?_) ?_
    · refine ⟨H.others ho, fun outcome => ⟨rfl, ho.suffix.trans (List.suffix_cons _ _), ?_⟩⟩
      intro hu
      exact (H.others ho).post hu
    · rintro outcome h₁ _ ⟨rfl, hle, hpost⟩
      split
      · exact ⟨rfl, hle⟩
      · rename_i e he
        exact ⟨rfl, hle, fun ht => hpost (undelivered_of_isTransient he ht)⟩
    · rintro e h₁ _ ⟨rfl, hle, hpost⟩
      split
      · rename_i ht
        exact (ih (hpost ht) e).mono (fun _ _ _ hd => ⟨hd.1, hle.trans hd.2⟩)
          fun _ _ _ hd => ⟨hd.1, hle.trans hd.2⟩
      · exact ⟨rfl, hle⟩

/-- A program that leaves no transaction open. -/
abbrev Closes (p : ℕ) (h : Hist) {α : Type} (m : Session α) : Prop :=
  Safe lifecycle p (fun _ _ t' => t' = {}) (fun _ _ t' => t' = {}) m h {}

/-- **The first transaction** starts the action; the process may then post for it. -/
theorem driveToRunning_safe (hrelay : Relays p h) (c i : Uuid) :
    Safe lifecycle p (fun x h' t' => t' = {} ∧ ∀ a ∈ x, Posting p h' i) (fun _ _ t' => t' = {})
      (driveToRunning c i) h {} := by
  refine atomically_safe_of_done (R := fun x h' => ∀ a ∈ x, Posting p h' i) ?_
  refine Safe.bind (getAction_safe c i).forget ?_
  have hnone : ∀ {h₁ : Hist}, Ready lifecycle p h₁ {} → Done p h₁ {} ∧ ∀ h'', Others p [] h₁ h'' →
      ∀ a ∈ (none : Option Action), Posting p (.committed p [] :: h'') i := fun hr =>
    ⟨⟨[], hr.busy⟩, fun _ _ a ha => by simp at ha⟩
  rintro found h₁ _ ⟨rfl, hr, hle, hfound⟩
  cases found with
  | none => exact hnone hr
  | some a =>
    obtain ⟨-, hloaded⟩ := hfound a rfl
    dsimp only
    split
    · exact hnone hr
    rename_i htool
    split
    · exact hnone hr
    refine Safe.bind ((applyTransition_done hr hloaded fun h' source hle' hsame _ => ?_).mono
      (fun _ _ _ => id) fun _ _ _ _ => trivial) ?_
    · refine .started (hrelay.mono (hle.trans hle')) ?_
      rw [hsame]
      exact not_not.1 htool
    rintro _ h₂ t₂ ⟨source, e, -, -, -, rfl, hbusy⟩
    refine ⟨⟨_, hbusy⟩, fun h₃ ho _ _ => ⟨[], t₂.writes, h₃, rfl, ?_, by simp⟩⟩
    have hfits : Deed.FitsMoved p h₂ (committed h₂) i source .RUNNING telegramActor none e :=
      hbusy.fit.1
    have hrow := row_core_append (k := .action i) rfl t₂.writes []
    rw [List.append_nil, List.append_nil, hbusy.wrote] at hrow
    have hlocked : Key.action i ∈ t₂.locks := hbusy.locked (by simp [Deed.versions])
    refine ⟨⟨source, ?_, eq_ready_of_running hfits.allowed⟩, source.setStatus .RUNNING, ?_, rfl⟩
    · rw [ho.row_eq hlocked]
      exact hfits.found
    · rw [← hrow]
      simp [Deed.versions, row]

/-- **The second transaction** resolves it. -/
theorem resolve_closes (hrelay : Relays p h) (c i : Uuid) {target : ActionStatus}
    {receipt : Option Json} (ht : target = .FAILED ∧ receipt = none ∨
      ∃ r, target = .SUCCEEDED ∧ receipt = some r) :
    Closes p h (resolve c i target receipt) := by
  refine (atomically_safe_of_done (R := fun _ _ => True) ?_).mono (fun _ _ _ hd => hd.1)
    fun _ _ _ hd => hd
  refine Safe.bind (getAction_safe c i).forget ?_
  rintro found h₁ _ ⟨rfl, hr, hle, hfound⟩
  cases found with
  | none => trivial
  | some a =>
    obtain ⟨-, hloaded⟩ := hfound a rfl
    refine Safe.bind ((applyTransition_done hr hloaded fun h' source hle' _ hread => ?_).mono
      (fun _ _ _ => id) fun _ _ _ _ => trivial) ?_
    · have hrelay' := hrelay.mono (hle.trans hle')
      rcases ht with ⟨rfl, rfl⟩ | ⟨r, rfl, rfl⟩
      · exact .failed hrelay' hread
      · exact .succeeded hrelay' r
    · rintro _ h₂ t₂ ⟨source, e, -, -, -, rfl, hbusy⟩
      exact ⟨⟨_, hbusy⟩, fun _ _ => trivial⟩

theorem processEntry_closes (hrelay : Relays p h) (entry : StreamEntry) (token : Option String) :
    Closes p h (processEntry entry token) := by
  refine Safe.bind (((driveToRunning_safe hrelay _ _).later (List.suffix_refl h)).mono
    (fun _ _ _ => id) fun _ _ _ hd => hd.1) ?_
  rintro running h₁ _ ⟨⟨rfl, hposting⟩, hle⟩
  have hfailed : ∀ h', h₁ <:+ h' →
      Closes p h' (resolve entry.customerId entry.aggregateId .FAILED) :=
    fun h' hle' => resolve_closes (hrelay.mono (hle.trans hle')) _ _ (.inl ⟨rfl, rfl⟩)
  cases running with
  | none => rfl
  | some a =>
    dsimp only
    split
    · exact hfailed _ (List.suffix_refl _)
    · split
      · exact hfailed _ (List.suffix_refl _)
      · rename_i chat text _
        refine Safe.bind (B := fun _ h' t' => t' = {} ∧ h₁ <:+ h') (Safe.tryCatch
          (fun _ h' t' => t' = {} ∧ h₁ <:+ h') ?_ ?_) ?_
        · exact Safe.bind (sendAttempts_safe (hposting a rfl) chat text _ _) fun _ _ _ hd => hd
        · rintro err h₂ _ ⟨rfl, hle₂⟩
          split
          · refine Safe.bind (((hfailed h₂ hle₂).later hle₂).mono (fun _ _ _ => id)
              fun _ _ _ => And.left) fun _ _ _ hd => hd
          · rfl
        · rintro result h₂ _ ⟨rfl, hle₂⟩
          cases result with
          | none => rfl
          | some r =>
            exact resolve_closes (hrelay.mono (hle.trans hle₂)) _ _ (.inr ⟨_, rfl, rfl⟩)

/-- A quiet call outside a transaction. -/
theorem quietCall_closes {e : Call} (he : e.quiet) : Closes p h (call e) :=
  Safe.call fun _ _ _ _ => ⟨callOk_of_quiet he, fun _ => rfl⟩

theorem processBatch_closes (hrelay : Relays p h) (token : Option String) (ds : List Delivery) :
    Closes p h (processBatch token ds) := by
  induction ds generalizing h with
  | nil => rfl
  | cons d ds ih =>
    refine Safe.bind (B := fun _ h' t' => t' = {} ∧ h <:+ h') (Safe.tryCatch
      (fun _ h' t' => t' = {} ∧ h <:+ h') ?_ ?_) ?_
    · exact Safe.bind ((processEntry_closes hrelay _ _).later (List.suffix_refl h))
        fun _ _ _ hd => hd
    · rintro e h₁ _ ⟨rfl, hle⟩
      exact Safe.bind (((quietCall_closes (e := .entryFailed d) trivial).later hle).mono
        (fun _ _ _ => id) fun _ _ _ => And.left) fun _ _ _ hd => hd
    · rintro ok h₁ _ ⟨rfl, hle⟩
      split
      · refine Safe.bind (((quietCall_closes (e := .xack d) trivial).later hle).mono
          (fun _ _ _ => id) fun _ _ _ => And.left) ?_
        rintro - h₂ _ ⟨rfl, hle₂⟩
        exact Safe.bind (ih (hrelay.mono hle₂)) fun _ _ _ hd => hd
      · exact ih (hrelay.mono hle)

/-! ## Every request -/

/-- A transaction block whose body does deeds, or fails. -/
theorem closes_of_going {α : Type} {m : Session α}
    (hm : Safe lifecycle p (fun _ h t => lifecycle.Valid h → Going p h t) Whatever m h {}) :
    Closes p h (atomically m) := by
  refine Safe.atomically _ Whatever hm ?_ fun _ _ _ _ _ _ _ => rfl
  intro a h₁ t₁ hgoing h₂ ho hv _
  refine ⟨fun hf => ⟨?_, rfl, fun _ _ _ => rfl⟩, fun _ _ _ => rfl⟩
  have hdone := (hgoing (hv.suffix ho.suffix)).resolve_left (by simp [hf])
  obtain ⟨ds, hbusy⟩ := hdone.others ho hv
  exact hbusy.commitOk

omit [Sha256] in
/-- The caller of a request whose context is resolved is admitted. -/
theorem Resolved.admitted {r : Request} {who : Identity} {w : Uuid} {context : WorkspaceContext}
    (H : Resolved h h' who.userId w context) (hr : Event.called p (.received r) () ∈ h)
    (hcaller : r.caller = some (who, w)) : Admitted p h' r who.authStrength context := by
  refine ⟨H.later.subset hr, ?_, ?_⟩
  · rw [hcaller, H.user, H.workspace]
  · obtain ⟨h₁, hle, hle', hrole⟩ := H.role
    exact ⟨h₁, hle', hle.subset hr, hrole⟩

/-- A workspace request, in its transaction. -/
theorem withRequestContext_safe {α : Type} {r : Request} {who : Identity} {w : Uuid}
    {handler : WorkspaceContext → Session α} (hr : Event.called p (.received r) () ∈ h)
    (hcaller : r.caller = some (who, w))
    (hh : ∀ context h', Ready lifecycle p h' {} → Admitted p h' r who.authStrength context →
      context.userId = who.userId → context.workspaceId = w →
      Safe lifecycle p (fun _ => Going p) Whatever (handler context) h' {}) :
    Closes p h (withRequestContext who w handler) := by
  refine Safe.bind (((closes_of_going (Safe.mono (get_safe _) ?_ fun _ _ _ _ => trivial)).later
    (List.suffix_refl h)).mono (fun _ _ _ => id) fun _ _ _ => And.left) ?_
  · rintro x h' _ ⟨rfl, hready, -⟩ -
    exact .inr ⟨[], hready.busy⟩
  rintro index h₁ _ ⟨rfl, hle⟩
  cases index with
  | none => rfl
  | some tenant =>
    refine closes_of_going (Safe.bind (getWorkspaceContext_safe tenant who.userId w).forget ?_)
    rintro context h₂ _ ⟨rfl, hready, hres⟩
    exact (hh context h₂ hready (hres.admitted (hle.subset hr) hcaller) hres.user
      hres.workspace).mono (fun _ _ _ hgoing _ => hgoing) fun _ _ _ => id

/-- **Every request of the service keeps the contract.** -/
theorem serve_safe [JsonText] [Deployment] (r : Request) (p : ℕ) (h : Hist) :
    Closes p h (serve r) := by
  refine Safe.bind (B := fun _ h' t' => t' = {} ∧ Event.called p (.received r) () ∈ h')
    (Safe.call fun h₁ ho _ _ => ⟨callOk_of_quiet trivial, fun _ => ⟨rfl, List.mem_cons_self ..⟩⟩) ?_
  rintro - h _ ⟨rfl, hr⟩
  cases r with
  | propose who w traceId body key =>
    exact withRequestContext_safe hr rfl fun context h' hready ha _ _ =>
      proposeAndSubmitAction_done hready ha
  | consume who w i nonce =>
    refine withRequestContext_safe hr rfl fun context h' hready ha hu hw => ?_
    subst hw
    obtain ⟨u, strength⟩ := who
    obtain rfl : context.userId = u := hu
    exact (consumeActionApproval_done ha).mono (fun _ _ _ => .inr) fun _ _ _ => id
  | cancel who w i =>
    refine withRequestContext_safe hr rfl fun context h' hready ha hu hw => ?_
    subst hw
    obtain ⟨u, strength⟩ := who
    obtain rfl : context.userId = u := hu
    exact ((cancelAction_done ha).mono (fun _ _ _ => .inr) fun _ _ _ => id).forget
  | completeCompensation who w i outcome =>
    refine withRequestContext_safe hr rfl fun context h' hready ha hu hw => ?_
    subst hw
    obtain ⟨u, strength⟩ := who
    obtain rfl : context.userId = u := hu
    exact ((completeActionCompensation_done ha).mono (fun _ _ _ hd => .inr hd.1)
      fun _ _ _ => id).forget
  | chat who w conversation traceId content mode =>
    refine withRequestContext_safe hr rfl fun context h' hready ha _ _ => ?_
    exact (postConversationMessage_composed (Safe.compositional lifecycle p _)
      (fun hmay => turn_going ⟨⟨_, _, _, _, _, _, ha⟩, hmay⟩) _ _ _ h' {}
      ⟨List.suffix_refl _, .inr ⟨[], hready.busy⟩⟩).mono (fun _ _ _ => And.right)
      fun _ _ _ _ => trivial
  | outboxRelay n =>
    refine Safe.bind (B := fun _ _ t' => t' = {}) ?_ fun _ _ _ hd => hd
    refine (atomically_safe_of_done (R := fun _ _ => True) (Safe.bind (skipLocked_safe n)
      fun rows h₁ t₁ H => ?_)).mono (fun _ _ _ => And.left) fun _ _ _ => id
    exact (publishAll_done H.1 H.2).mono (fun _ _ _ hd => ⟨hd, fun _ _ => trivial⟩)
      fun _ _ _ => id
  | telegramRelay token =>
    refine Safe.bind (B := fun _ _ t' => t' = {}) ?_ fun _ _ _ hd => hd
    refine Safe.bind (((quietCall_closes (e := .xreadgroup telegramBatchSize) trivial).later
      (List.suffix_refl h)).mono (fun _ _ _ => id) fun _ _ _ => And.left) ?_
    rintro batch h₁ _ ⟨rfl, hle⟩
    exact processBatch_closes ⟨.telegramRelay token, trivial, hle.subset hr⟩ token batch
  | processEntry entry token =>
    exact Safe.bind (processEntry_closes ⟨.processEntry entry token, trivial, hr⟩ entry token)
      fun _ _ _ hd => hd
  | housekeeping rows =>
    refine Safe.bind (B := fun _ _ t' => t' = {}) (closes_of_going ?_) fun _ _ _ hd => hd
    have hplain : ∀ k : Key, k.housekeeping = true → k.plain := fun k hk => by
      cases k <;> simp [Key.housekeeping] at hk <;> exact ⟨rfl, rfl⟩
    exact ((((keepHouseAll_writes rows).weaken hplain).mono (fun _ hq => hq)
      (fun _ he => he.quiet) id).safe (going_steady p).ofValid fun hv =>
        .inr ⟨[], .start hv⟩).mono (fun _ _ _ => id) fun _ _ _ _ => trivial

/-- **Every history of the service keeps the contract.** -/
theorem valid_of_reachable [JsonText] [Deployment] {s : Sys Row Answer Err Reply Request}
    (hs : Reachable serve s) : lifecycle.Valid s.hist :=
  (hs.safe fun r p h _ _ => serve_safe r p h).valid

end Doda
