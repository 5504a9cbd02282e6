import Doda.Lifecycle.Compensation
import Doda.Lifecycle.Standing

/-!
# A proposal is made once

The row of an idempotency key names the one action that was proposed under it, for as long as
there is one.  Of the requests with that key the one whose insert came first commits the
action; every other finds it, answers with it, and commits nothing.

## Main definitions

* `KeysMatch` — the idempotency rows and the actions say the same.
* `Creates` — a commit inserts the action.
* `Proposes` — what a request to propose has done when it returns.

## Main results

* `keysMatch_of_valid`, `created_once` — what holds of every history.
* `proposals_idempotent` — every run.
-/

namespace Doda

open ReadCommitted

/-! ## Keys and actions -/

/-- The row of an idempotency key. -/
def keyRow (s : Db) (customerId workspaceId : Uuid) (key : String) : Option Uuid :=
  row s (.actionIdempotency customerId workspaceId key)

/-- The idempotency rows name the actions that were proposed under them. -/
def KeysMatch (s : Db) : Prop :=
  ∀ c w key i, keyRow s c w key = some i ↔ ∃ a, row s (.action i) = some a ∧
    a.customerId = c ∧ a.workspaceId = w ∧ a.idempotencyKey = key

section Deeds

variable [Sha256] {p : ℕ} {h : Hist} {s : Db} {d : Deed}

/-- The idempotency row that a deed writes. -/
def Deed.leavesKey : Deed → Uuid → Uuid → String → Option Uuid
  | proposed a _ _ _ _ _, c, w, key =>
    if a.customerId = c ∧ a.workspaceId = w ∧ a.idempotencyKey = key then some a.id else none
  | consumed .., _, _, _ | moved .., _, _, _ | published .., _, _, _ => none

theorem Deed.Fits.keyRow (H : d.Fits p h s) (c w : Uuid) (key : String) (s' : Db) :
    keyRow (d.versions ++ s') c w key = (d.leavesKey c w key).or (keyRow s' c w key) := by
  cases d with
  | proposed a target e e₁ e₂ beside =>
    have hroute := H.route
    by_cases hkey : a.customerId = c ∧ a.workspaceId = w ∧ a.idempotencyKey = key
    · obtain ⟨rfl, rfl, rfl⟩ := hkey
      cases hroute <;>
        simp [Doda.keyRow, versions, submissionVersions, transitionVersions, proposalVersions,
          leavesKey, row]
    · have hother : Key.actionIdempotency a.customerId a.workspaceId a.idempotencyKey ≠
          .actionIdempotency c w key := by
        simpa using hkey
      cases hroute <;>
        simp [Doda.keyRow, versions, submissionVersions, transitionVersions, proposalVersions,
          leavesKey, row, hkey]
  | consumed id approvalId source before actor e m =>
    simp [Doda.keyRow, versions, leavesKey, row]
  | moved id source target actor receipt e => simp [Doda.keyRow, versions, leavesKey, row]
  | published id m now => simp [Doda.keyRow, versions, leavesKey, row]

/-- **A deed keeps the match.** -/
theorem KeysMatch.deed (H : KeysMatch s) (hfits : d.Fits p h s) :
    KeysMatch (d.versions ++ s) := by
  intro c w key i
  rw [hfits.keyRow, hfits.row_action]
  cases d with
  | proposed a target e e₁ e₂ beside =>
    have hd : Deed.FitsProposed p h s a target e e₁ e₂ beside := hfits
    have hfree : Doda.keyRow s a.customerId a.workspaceId a.idempotencyKey = none := hd.freshKey
    by_cases hkey : a.customerId = c ∧ a.workspaceId = w ∧ a.idempotencyKey = key
    · obtain ⟨rfl, rfl, rfl⟩ := hkey
      rw [show (Deed.proposed a target e e₁ e₂ beside).leavesKey a.customerId a.workspaceId
        a.idempotencyKey = some a.id from if_pos ⟨rfl, rfl, rfl⟩, Option.some_or]
      by_cases hi : a.id = i
      · subst hi
        simp [Deed.leaves]
      · -- no other action has the key, which was free
        rw [show (Deed.proposed a target e e₁ e₂ beside).leaves i = none from if_neg hi,
          Option.none_or, ← H, hfree]
        simp [hi]
    · rw [show (Deed.proposed a target e e₁ e₂ beside).leavesKey c w key = none from if_neg hkey,
        Option.none_or, H]
      by_cases hi : a.id = i
      · subst hi
        simp [Deed.leaves, hd.freshAction, hkey]
      · simp [Deed.leaves, hi]
  | published id m now => exact H c w key i
  | consumed id approvalId source before actor e m =>
    have hd : Deed.FitsConsumed p h s id approvalId source before actor e m := hfits
    rw [Deed.leavesKey, Option.none_or, H]
    by_cases hi : id = i
    · subst hi
      simp [Deed.leaves, hd.found]
    · simp [Deed.leaves, hi]
  | moved id source target actor receipt e =>
    have hd : Deed.FitsMoved p h s id source target actor receipt e := hfits
    rw [Deed.leavesKey, Option.none_or, H]
    by_cases hi : id = i
    · subst hi
      simp [Deed.leaves, hd.found]
    · simp [Deed.leaves, hi]

/-- **The keys match the actions** in every history of the service. -/
theorem keysMatch_of_valid (hv : lifecycle.Valid h) : KeysMatch (committed h) := by
  refine holds_of_valid (I := fun _ s => KeysMatch s) ?_ ?_ (fun _ _ _ H => H) ?_ hv
  · intro c w key i
    simp [keyRow]
  · intro h s s' _ hcore H c w key i
    rw [keyRow, row_of_core hcore rfl, row_of_core hcore rfl]
    exact H c w key i
  · intro p h ds d hv hfit hfits H
    exact H.deed hfits

/-- A key names its action for good. -/
theorem keyRow_of_suffix {h' : Hist} (hv : lifecycle.Valid h') (hle : h <:+ h') {c w i : Uuid}
    {key : String} (hrow : keyRow (committed h) c w key = some i) :
    keyRow (committed h') c w key = some i := by
  obtain ⟨a, ha, hc, hw, hkey⟩ := (keysMatch_of_valid (hv.suffix hle) c w key i).1 hrow
  obtain ⟨evs, rfl⟩ := hle
  obtain ⟨b, hb, hkept⟩ := keeps_of_valid hv ha
  refine (keysMatch_of_valid hv c w key i).2 ⟨b, hb, ?_⟩
  rw [hkept]
  exact ⟨hc, hw, hkey⟩

end Deeds

/-! ## One creation -/

/-- The commit inserts the action. -/
def Creates (h : Hist) (w : Db) (i : Uuid) : Prop :=
  row (committed h) (.action i) = none ∧ (row w (.action i)).isSome

theorem Creates.found {h : Hist} {p : ℕ} {w : Db} {i : Uuid} (H : Creates h w i) :
    ∃ a, row (committed (.committed p w :: h : Hist)) (.action i) = some a := by
  obtain ⟨a, ha⟩ := Option.isSome_iff_exists.1 H.2
  refine ⟨a, ?_⟩
  rw [committed_cons, Event.writes_committed, row_append_of_mem _ (mem_keys_of_row ha), ha]

section Valid

variable [Sha256] {h h' : Hist} {i : Uuid}

theorem Creates.not_again {p : ℕ} {w w' : Db} (hv : lifecycle.Valid h') (H : Creates h w i)
    (hle : .committed p w :: h <:+ h') : ¬ Creates h' w' i := by
  obtain ⟨a, ha⟩ := H.found (p := p)
  obtain ⟨evs, rfl⟩ := hle
  obtain ⟨b, hb, -⟩ := keeps_of_valid hv ha
  rintro ⟨hnone, -⟩
  rw [hnone] at hb
  cases hb

/-- **An action is created by one commit.** -/
theorem created_once {p q : ℕ} {w₁ w₂ : Db} {h₁ h₂ : Hist} (hv : lifecycle.Valid h')
    (hle₁ : .committed p w₁ :: h₁ <:+ h') (hle₂ : .committed q w₂ :: h₂ <:+ h')
    (H₁ : Creates h₁ w₁ i) (H₂ : Creates h₂ w₂ i) :
    (.committed p w₁ :: h₁ : Hist) = .committed q w₂ :: h₂ := by
  rcases List.suffix_or_suffix_of_suffix hle₁ hle₂ with hle | hle
  · rcases List.suffix_cons_iff.1 hle with heq | hbefore
    · exact heq
    · exact absurd H₂ (H₁.not_again (hv.suffix hle₂).2 hbefore)
  · rcases List.suffix_cons_iff.1 hle with heq | hbefore
    · exact heq.symm
    · exact absurd H₁ (H₂.not_again (hv.suffix hle₁).2 hbefore)

end Valid

/-! ## What a request to propose has done -/

/-- What the body of the request has done: the key was taken, and it wrote nothing; or it has
drafted the action and holds its row. -/
inductive Offered (p : ℕ) (h : Hist) (t : DbTx) (c w : Uuid) (key : String) (i : Uuid) :
    Prop where
  | replayed (hwrites : t.writes = [])
      (hread : ∃ h₁, h₁ <:+ h ∧ keyRow (committed h₁) c w key = some i)
  | drafted (hlocked : Key.action i ∈ t.locks) (hfresh : row (committed h) (.action i) = none)
      (hwrote : (row t.writes (.action i)).isSome) (hkey : keyRow t.writes c w key = some i)

/-- What the request has done when it returns: every commit of its was empty, or one creates
the action, and the others are empty. -/
def Proposes (p : ℕ) (h : Hist) (c w : Uuid) (key : String) (i : Uuid) : Prop :=
  (∃ h₁, h₁ <:+ h ∧ keyRow (committed h₁) c w key = some i) ∧
    (Idle p h ∨ ∃ w₀ h₁, .committed p w₀ :: h₁ <:+ h ∧ Creates h₁ w₀ i ∧
      ∀ w', Event.committed p w' ∈ h → w' = [] ∨ w' = w₀)

theorem Proposes.others {p : ℕ} {L : List Key} {h h' : Hist} {c w i : Uuid} {key : String}
    (H : Proposes p h c w key i) (ho : Others p L h h') : Proposes p h' c w key i := by
  obtain ⟨⟨h₁, hle, hkey⟩, hdone⟩ := H
  refine ⟨⟨h₁, hle.trans ho.suffix, hkey⟩, ?_⟩
  rcases hdone with hidle | ⟨w₀, h₂, hle₂, hcreates, hothers⟩
  · exact .inl (hidle.others ho)
  · refine .inr ⟨w₀, h₂, hle₂.trans ho.suffix, hcreates, ?_⟩
    obtain ⟨evs, rfl, hevs⟩ := ho
    intro w' hw'
    rcases List.mem_append.1 hw' with hw' | hw'
    · exact absurd rfl (hevs _ hw').1
    · exact hothers w' hw'

/-- What the request has done when its commit is applied, and it is told that it has failed: it
has created an action by it. -/
def Lost (p : ℕ) (h : Hist) : Prop :=
  ∃ w₀ h₁ i, .failed p :: .committed p w₀ :: h₁ <:+ h ∧ Creates h₁ w₀ i ∧
    ∀ w', Event.committed p w' ∈ h → w' = [] ∨ w' = w₀

theorem Lost.others {p : ℕ} {L : List Key} {h h' : Hist} (H : Lost p h) (ho : Others p L h h') :
    Lost p h' := by
  obtain ⟨w₀, h₁, i, hle, hcreates, hothers⟩ := H
  refine ⟨w₀, h₁, i, hle.trans ho.suffix, hcreates, ?_⟩
  obtain ⟨evs, rfl, hevs⟩ := ho
  intro w' hw'
  rcases List.mem_append.1 hw' with hw' | hw'
  · exact absurd rfl (hevs _ hw').1
  · exact hothers w' hw'

theorem Lost.rolledBack {p : ℕ} {h : Hist} (H : Lost p h) : Lost p (.rolledBack p :: h) := by
  obtain ⟨w₀, h₁, i, hle, hcreates, hothers⟩ := H
  refine ⟨w₀, h₁, i, hle.trans (List.suffix_cons ..), hcreates, fun w' hw' => ?_⟩
  exact hothers w' ((List.mem_cons.1 hw').resolve_left (by simp))

/-- The transaction of a proposal is committed, and its process never knows. -/
theorem Offered.lost {p : ℕ} {h h₁ h₂ : Hist} {t : DbTx} {c w i : Uuid} {key : String}
    (H : Offered p h t c w key i) (hidle : Idle p h) (ho : Others p t.locks h h₁)
    (ho' : Others p [] (.failed p :: .committed p t.writes :: h₁) h₂) :
    Idle p (.rolledBack p :: h₂) ∨ Lost p (.rolledBack p :: h₂) := by
  have hidle₁ := hidle.others ho
  cases H with
  | replayed hwrites hread =>
    have hcommitted : Idle p (.committed p t.writes :: h₁) := hidle₁.cons fun w' hw' => by
      rw [← (Event.committed.inj hw').2, hwrites]
    exact .inl (((hcommitted.cons (by simp)).others ho').cons (by simp))
  | drafted hlocked hfresh hwrote hkey =>
    refine .inr (Lost.rolledBack (Lost.others ?_ ho'))
    refine ⟨t.writes, h₁, i, List.suffix_refl _, ⟨?_, hwrote⟩, fun w' hw' => ?_⟩
    · rw [ho.row_eq hlocked]
      exact hfresh
    · rcases List.mem_cons.1 ((List.mem_cons.1 hw').resolve_left (by simp)) with heq | hw'
      · exact .inr (Event.committed.inj heq).2
      · exact .inl (hidle₁ w' hw')

/-- The transaction of a proposal commits. -/
theorem Offered.committed {p : ℕ} {h h' : Hist} {t : DbTx} {c w i : Uuid} {key : String}
    (H : Offered p h t c w key i) (hidle : Idle p h) (ho : Others p t.locks h h') :
    Proposes p (.committed p t.writes :: h') c w key i := by
  have hidle' := hidle.others ho
  cases H with
  | replayed hwrites hread =>
    obtain ⟨h₁, hle, hkey⟩ := hread
    refine ⟨⟨h₁, (hle.trans ho.suffix).trans (List.suffix_cons ..), hkey⟩, .inl ?_⟩
    refine hidle'.cons fun w' hw' => ?_
    rw [← (Event.committed.inj hw').2, hwrites]
  | drafted hlocked hfresh hwrote hkey =>
    refine ⟨⟨_, List.suffix_refl _, ?_⟩, .inr ⟨t.writes, h', List.suffix_refl _, ⟨?_, hwrote⟩, ?_⟩⟩
    · rw [keyRow, committed_cons, Event.writes_committed,
        row_append_of_mem _ (mem_keys_of_row hkey)]
      exact hkey
    · rw [ho.row_eq hlocked]
      exact hfresh
    · intro w' hw'
      rcases List.mem_cons.1 hw' with heq | hw'
      · exact .inr (Event.committed.inj heq).2
      · exact .inl (hidle' w' hw')

section Requests

variable [Sha256] {p : ℕ} {h : Hist}

/-- Nothing is committed inside a transaction, whatever its statements. -/
theorem idle_inside (p : ℕ) :
    Steady lifecycle p (fun _ => True) Call.Minor False fun h _ => Idle p h where
  others H ho _ := H.others ho
  exec _ _ _ _ H _ := H.cons nofun
  failed _ H := H.cons nofun
  called he _ H := ⟨callOk_of_quiet he.quiet, fun _ => H.cons nofun⟩
  committed := False.elim
  rolledBack := False.elim

omit [Sha256] in
theorem Lives.inside {α : Type} {m : Session α} (hm : Lives m) :
    Only (fun _ => True) Call.Minor False m :=
  hm.mono (fun _ _ => trivial) (fun _ he => he) id

theorem proposeAndSubmitAction_inside (context : WorkspaceContext) (traceId : Uuid)
    (body : ProposeBody) (key : String) :
    Only (fun _ => True) Call.Minor False
      (proposeAndSubmitAction context traceId body key) := by
  refine Only.bind (requireRole_lives ..).inside fun _ => ?_
  refine Only.bind (proposeAction_minor ..) fun x => ?_
  obtain ⟨a, created⟩ := x
  cases created with
  | true => exact Only.bind (submitActionForExecution_lives ..).inside fun _ => Only.pure _
  | false => exact Only.bind (resolveReplayApproval_lives ..).inside fun _ => Only.pure _

omit [Sha256] in
/-- A row in a transaction's writes is a row in their core. -/
theorem row_writes_of_core {t : DbTx} {v : Db} (hcore : core t.writes = v) {k : Key}
    (hk : k.tracked = true) : row t.writes k = row v k := by
  have h := row_core_append hk t.writes []
  rw [List.append_nil, List.append_nil] at h
  rw [← h, hcore]

theorem resolveReplayApproval_reads (t : DbTx) (a : Action) (actor : String) :
    Safe lifecycle p (fun _ h' t' => t' = t ∧ h <:+ h') Whatever
      (resolveReplayApproval a actor) h t := by
  unfold resolveReplayApproval
  split
  · exact ⟨rfl, List.suffix_refl _⟩
  · refine Safe.bind ((Safe.view (M := Call.Minor)).mono (fun _ _ _ => id)
      fun _ _ _ _ => trivial) ?_
    rintro db h' _ ⟨rfl, -, ho, -⟩
    exact ⟨rfl, ho.suffix⟩

/-- **The body of a request to propose** has drafted the action it answers with, or found it. -/
theorem proposeAndSubmitAction_offers (hr : Ready lifecycle p h {}) {context : WorkspaceContext}
    {who : Identity} {w traceId : Uuid} {body : ProposeBody} {key : String}
    {strength : AuthStrength}
    (ha : Admitted p h (.propose who w traceId body key) strength context) :
    Safe lifecycle p (fun reply h' t' => Going p h' t' ∧ ∃ a approval,
        reply = .submitted a approval ∧ a.workspaceId = context.workspaceId ∧
        a.idempotencyKey = key ∧ Offered p h' t' a.customerId context.workspaceId key a.id)
      Whatever (proposeAndSubmitAction context traceId body key) h {} := by
  refine Safe.bind ((requireRole_safe (Q := fun _ h' t' => h' = h ∧ t' = {} ∧
    context.role ∈ rolesThatMayProposeActions)
    fun hmay => ⟨rfl, rfl, of_decide_eq_true hmay⟩).forget) ?_
  rintro - h _ ⟨rfl, rfl, hmay⟩
  refine Safe.bind (((proposeAction_going hr.busy _ _ _ _ _ _ _ _ _).and
    (proposeAction_safe lifecycle_audits lifecycle_minor hr _ _ _ _ _ _ _ _ _)).mono
    (fun _ _ _ => id) fun _ _ _ _ => trivial) ?_
  rintro ⟨a, created⟩ h₁ t₁ ⟨hgoing, ho₁, hr₁, hmade⟩
  cases created with
  | true =>
    obtain ⟨-, ⟨aid, hnew⟩, e, hd⟩ := hgoing.resolve_right fun hb => Bool.noConfusion hb.1
    dsimp only at hd hnew ⊢
    have hown : row t₁.writes (.action a.id) = some a := by
      rw [row_writes_of_core hd.proposed.wrote rfl]
      simp [proposalVersions, row]
    have hactor : actorOf context.userId = a.actorId := by
      rw [hnew]
      rfl
    have hproposer : Proposer p h (.propose who w traceId body key) strength context a := by
      rw [hnew]
      exact ha.proposer hmay ⟨rfl, rfl, rfl, rfl, rfl⟩
    rw [if_pos rfl, hactor]
    refine Safe.bind (((submitActionForExecution_going hr.busy hd hproposer).and
      (submitActionForExecution_safe lifecycle_audits lifecycle_minor lifecycle_keeps hr₁ hown
        hd.draft a.actorId)).mono (fun _ _ _ => id) fun _ _ _ _ => trivial) ?_
    rintro x h₂ t₂ ⟨hdone, ho₂, -, target, e₁, e₂, rest, hx, hs⟩
    have hlocked := hd.proposed.locked.1
    have hcore := hs.wrote
    rw [hd.proposed.wrote] at hcore
    have hroute := hs.route
    refine ⟨.inr hdone, x.1, x.2, rfl, ?_, ?_, ?_⟩
    · rw [hx, hnew]
      rfl
    · rw [hx, hnew]
      rfl
    · rw [hx]
      refine .drafted (ho₂.locks _ hlocked) ?_ ?_ ?_
      · have hfresh := hd.proposed.fresh.1
        rw [Action.setStatus_id, ho₂.row_eq hlocked]
        exact hfresh
      · rw [row_writes_of_core hcore rfl, Action.setStatus_id]
        cases hroute <;> simp [submissionVersions, transitionVersions, row]
      · rw [keyRow, row_writes_of_core hcore rfl]
        have hw : a.workspaceId = context.workspaceId ∧ a.idempotencyKey = key := by
          rw [hnew]
          exact ⟨rfl, rfl⟩
        rw [← hw.1, ← hw.2]
        cases hroute <;> simp [submissionVersions, transitionVersions, proposalVersions, row]
  | false =>
    obtain ⟨-, hb⟩ := hgoing.resolve_left fun hd => Bool.noConfusion hd.1
    obtain ⟨-, hwrites, i, hi, hrow⟩ := hmade.resolve_left fun hd => Bool.noConfusion hd.1
    dsimp only at hi hrow ⊢
    have hkey : keyRow (committed h₁) context.customerId context.workspaceId key = some i := hi
    have hfound : row (committed h₁) (.action i) = some a := hrow
    obtain ⟨a', ha', hc, hw, hk⟩ := (keysMatch_of_valid hr₁.valid _ _ _ _).1 hkey
    obtain rfl := Option.some.inj (hfound.symm.trans ha')
    obtain rfl : a.id = i := keyed_of_valid hr₁.valid _ _ hfound a rfl
    rw [if_neg (by simp)]
    refine Safe.bind (((resolveReplayApproval_going (.inr ⟨_, hb⟩) _ _).and
      (resolveReplayApproval_reads t₁ _ _)).mono (fun _ _ _ => id) fun _ _ _ _ => trivial) ?_
    rintro approval h₂ t₂ ⟨hready, rfl, hle⟩
    refine ⟨hready, a, approval, rfl, hw, hk, .replayed hwrites ⟨h₁, hle, ?_⟩⟩
    rw [hc]
    exact hkey

/-- A transaction that reads one row commits nothing. -/
theorem atomically_get_idle (k : Key) (hidle : Idle p h) :
    Safe lifecycle p (fun _ h' t => t = {} ∧ h <:+ h' ∧ Idle p h') (fun _ h' _ => Idle p h')
      (atomically (Session.get k)) h {} := by
  refine Safe.atomically _ (fun _ h _ => Idle p h) (((get_safe k).and
    ((Lives.get k).safe (idle_steady p) hidle)).mono (fun _ _ _ => id) fun _ _ _ => And.right) ?_ ?_
  · rintro x h₁ _ ⟨⟨rfl, hr, h₀, hle, hle', -⟩, hidle₁⟩ h₂ ho hv -
    have hidle₂ := hidle₁.others ho
    have hdone : Idle p (.committed p [] :: h₂) :=
      hidle₂.cons fun w hw => (Event.committed.inj hw).2.symm
    refine ⟨fun _ => ⟨?_, ⟨rfl, ?_, hdone⟩, fun h₃ ho' _ => ?_⟩, fun h₃ ho' _ => ?_⟩
    · exact (hr.busy.after (Onward.others (M := Call.Minor) ho)
        (hr.others lifecycle_audits ho hv) rfl).commitOk
    · exact ((hle.trans hle').trans ho.suffix).trans (List.suffix_cons ..)
    · exact ((hdone.cons (by simp)).others ho').cons (by simp)
    · exact ((hidle₂.cons (by simp)).others ho').cons (by simp)
  · rintro e h₁ t₁ hidle₁ h₂ ho -
    exact (hidle₁.others ho).cons nofun

/-- **A request to propose** answers with the action of its key, and has created it or done
nothing; one that raises has done nothing, or lost the acknowledgement of its commit. -/
theorem serve_proposes [JsonText] [Deployment] (who : Identity) (w traceId : Uuid)
    (body : ProposeBody) (key : String) (hidle : Idle p h) :
    Safe lifecycle p (fun reply h' _ => ∃ a approval, reply = .submitted a approval ∧
        a.workspaceId = w ∧ a.idempotencyKey = key ∧ Proposes p h' a.customerId w key a.id)
      (fun _ h' _ => Idle p h' ∨ Lost p h') (serve (.propose who w traceId body key)) h {} := by
  refine Safe.bind (B := fun _ h' t => t = {} ∧ Idle p h' ∧
      Event.called p (.received (.propose who w traceId body key)) () ∈ h')
    (Safe.call fun h₁ ho _ _ => ⟨callOk_of_quiet trivial, fun _ => ⟨rfl, ?_, ?_⟩⟩) ?_
  · exact (hidle.others ho).cons nofun
  · exact List.mem_cons_self ..
  rintro - h _ ⟨rfl, hidle, hreceived⟩
  refine Safe.bind ((atomically_get_idle _ hidle).mono (fun _ _ _ => id) fun _ _ _ => .inl) ?_
  rintro index h₁ _ ⟨rfl, hle, hidle₁⟩
  cases index with
  | none => exact .inl hidle₁
  | some tenant =>
    have hbody : Safe lifecycle p (fun reply h' t' => Going p h' t' ∧ ∃ a approval,
        reply = .submitted a approval ∧ a.workspaceId = w ∧ a.idempotencyKey = key ∧
        Offered p h' t' a.customerId w key a.id) Whatever
        (do
          let context ← getWorkspaceContext tenant who.userId w
          proposeAndSubmitAction context traceId body key) h₁ {} := by
      refine Safe.bind ((getWorkspaceContext_safe tenant who.userId w).mono (fun _ _ _ => id)
        fun _ _ _ _ => trivial) ?_
      rintro context h₂ _ ⟨rfl, hready, hres⟩
      have hoffers := proposeAndSubmitAction_offers hready
        (hres.admitted (hle.subset hreceived) rfl)
      rw [hres.workspace] at hoffers
      exact hoffers
    have hinside : Only (fun _ => True) Call.Minor False (do
        let context ← getWorkspaceContext tenant who.userId w
        proposeAndSubmitAction context traceId body key) :=
      Only.bind (getWorkspaceContext_lives ..).inside fun context =>
        proposeAndSubmitAction_inside context traceId body key
    refine Safe.atomically _ (fun _ h' _ => Idle p h') ((hbody.and
      (hinside.safe (idle_inside p) hidle₁)).mono (fun _ _ _ => id) fun _ _ _ => And.right) ?_ ?_
    · rintro reply h₂ t₂ ⟨⟨hgoing, a, approval, hreply, hw, hk, hoffered⟩, hidle₂⟩ h₃ ho hv hs
      refine ⟨fun hf => ⟨?_, ⟨a, approval, hreply, hw, hk, hoffered.committed hidle₂ ho⟩, ?_⟩, ?_⟩
      · obtain ⟨ds, hbusy⟩ := (hgoing.resolve_left (by simp [hf])).others ho hv
        exact hbusy.commitOk
      · exact fun h₄ ho' _ => hoffered.lost hidle₂ ho ho'
      · exact fun h₄ ho' _ =>
          .inl ((((hidle₂.others ho).cons (by simp)).others ho').cons (by simp))
    · rintro e h₂ t₂ hidle₂ h₃ ho -
      exact .inl ((hidle₂.others ho).cons nofun)

end Requests

section Runs

variable [Sha256] [JsonText] [Deployment] {s : Sys Row Answer Err Reply Request} {p : ℕ}

/-- What any request promises of the requests to propose. -/
theorem serve_offers (r : Request) {h : Hist} (hidle : Idle p h) :
    Safe lifecycle p
      (fun reply h' _ => ∀ who w traceId body key, r = .propose who w traceId body key →
        ∃ a approval, reply = .submitted a approval ∧ a.workspaceId = w ∧
          a.idempotencyKey = key ∧ Proposes p h' a.customerId w key a.id)
      (fun _ h' _ => ∀ who w traceId body key, r = .propose who w traceId body key →
        Idle p h' ∨ Lost p h')
      (serve r) h {} := by
  by_cases hr : ∃ who w traceId body key, r = .propose who w traceId body key
  · obtain ⟨who, w, traceId, body, key, rfl⟩ := hr
    refine (serve_proposes who w traceId body key hidle).mono ?_ ?_
    · rintro reply h' t hreply _ _ _ _ _ heq
      cases heq
      exact hreply
    · rintro e h' t hraises _ _ _ _ _ -
      exact hraises
  · refine (serve_safe r p h).mono ?_ ?_
    · rintro reply h' t - who w traceId body key heq
      exact absurd ⟨who, w, traceId, body, key, heq⟩ hr
    · rintro e h' t - who w traceId body key heq
      exact absurd ⟨who, w, traceId, body, key, heq⟩ hr

/-- What is known of a request to propose that has ended, in any run of the service. -/
theorem proposes_of_reachable (hs : Reachable serve s) {r : Proc Row Answer Err Reply Request}
    (hp : s.procs[p]? = some (some r)) {who : Identity} {w traceId : Uuid} {body : ProposeBody}
    {key : String} (hreq : r.req = .propose who w traceId body key) :
    (∀ reply, r.prog = pure reply → ∃ a approval, reply = .submitted a approval ∧
      a.workspaceId = w ∧ a.idempotencyKey = key ∧ Proposes p s.hist a.customerId w key a.id) ∧
    ∀ e, r.prog = throw e → Idle p s.hist ∨ Lost p s.hist := by
  have hkept := hs.safe fun r p h _ hfresh => serve_offers r
    (h := h) fun w hw => absurd (hfresh _ hw) (Nat.lt_irrefl p)
  obtain ⟨h, ho, hsafe⟩ := hkept.safe p r hp
  constructor
  · intro reply hend
    rw [hend] at hsafe
    obtain ⟨a, approval, hreply, hw, hkey, hdone⟩ := hsafe who w traceId body key hreq
    exact ⟨a, approval, hreply, hw, hkey, hdone.others ho⟩
  · intro e hend
    rw [hend] at hsafe
    exact (hsafe who w traceId body key hreq).imp (Idle.others · ho) (Lost.others · ho)

/-- **A proposal is made once.**  Two actions of one customer, workspace and key are one; an
action is created by one commit; and a request to propose answers with the action that its key
names at the end of the run, having created it by one commit, or committed nothing.  One that
raises has committed nothing, or has created an action by the one commit that it was told had
failed. -/
theorem proposals_idempotent (hs : Reachable serve s) :
    (∀ i j a b, row (committed s.hist) (.action i) = some a →
      row (committed s.hist) (.action j) = some b → a.customerId = b.customerId →
      a.workspaceId = b.workspaceId → a.idempotencyKey = b.idempotencyKey → i = j) ∧
    (∀ i p q w₁ w₂ h₁ h₂, .committed p w₁ :: h₁ <:+ s.hist → .committed q w₂ :: h₂ <:+ s.hist →
      Creates h₁ w₁ i → Creates h₂ w₂ i →
      (.committed p w₁ :: h₁ : Hist) = .committed q w₂ :: h₂) ∧
    ∀ p (r : Proc Row Answer Err Reply Request), s.procs[p]? = some (some r) →
      ∀ who w traceId body key, r.req = .propose who w traceId body key →
      (∀ reply, r.prog = pure reply → ∃ a approval, reply = .submitted a approval ∧
        keyRow (committed s.hist) a.customerId w key = some a.id ∧
        (Idle p s.hist ∨ ∃ w₀ h₁, .committed p w₀ :: h₁ <:+ s.hist ∧ Creates h₁ w₀ a.id ∧
          ∀ w', Event.committed p w' ∈ s.hist → w' = [] ∨ w' = w₀)) ∧
      ∀ e, r.prog = throw e → Idle p s.hist ∨ Lost p s.hist := by
  have hv := valid_of_reachable hs
  have hkeys := keysMatch_of_valid hv
  refine ⟨?_, fun i p q w₁ w₂ h₁ h₂ => created_once hv, ?_⟩
  · intro i j a b ha hb hc hw hk
    have hi := (hkeys b.customerId b.workspaceId b.idempotencyKey i).2 ⟨a, ha, hc, hw, hk⟩
    have hj := (hkeys b.customerId b.workspaceId b.idempotencyKey j).2 ⟨b, hb, rfl, rfl, rfl⟩
    exact Option.some.inj (hi.symm.trans hj)
  · intro p r hp who w traceId body key hreq
    obtain ⟨hreplies, hraises⟩ := proposes_of_reachable hs hp hreq
    refine ⟨fun reply hend => ?_, hraises⟩
    obtain ⟨a, approval, hreply, -, -, ⟨h₁, hle, hrow⟩, hdone⟩ := hreplies reply hend
    exact ⟨a, approval, hreply, keyRow_of_suffix hv hle hrow, hdone⟩

end Runs

/-! ## A sample run -/

section Sample

attribute [local instance] plainSha plainJsonText sampleDeployment

/-- The process has answered the sample's request to propose. -/
def proposedSample (r : Proc Row Answer Err Reply Request) : Bool :=
  match r.req, r.prog with
  | .propose _ w _ _ key, .pure (.submitted a _) => w = 2 ∧ key = "key" ∧ a.id = 112
  | _, _ => false

theorem proposedSample_eq_true {r : Proc Row Answer Err Reply Request}
    (h : proposedSample r = true) :
    (∃ who traceId body, r.req = .propose who 2 traceId body "key") ∧
      ∃ a approval, r.prog = pure (.submitted a approval) ∧ a.id = 112 := by
  unfold proposedSample at h
  split at h
  · rename_i who w traceId body key a approval hreq hprog
    obtain ⟨rfl, rfl, hid⟩ := of_decide_eq_true h
    exact ⟨⟨who, traceId, body, hreq⟩, a, approval, hprog, hid⟩
  · cases h

/-- User 3 proposes a message under a key, and the key names it. -/
theorem proposals_idempotent_sample : ∃ s, runAll serve {} startedAction = some s ∧
    ∃ c, keyRow (committed s.hist) c 2 "key" = some 112 := by
  have hrun : ((runAll serve {} startedAction).any fun s =>
      (s.procs[1]?).any fun r => r.any proposedSample) = true := by
    decide +kernel
  obtain ⟨s, hst, hs⟩ := (Option.any_eq_true _ _).1 hrun
  obtain ⟨o, hp, ho⟩ := (Option.any_eq_true _ _).1 hs
  obtain ⟨r, rfl, hr⟩ := (Option.any_eq_true _ _).1 ho
  obtain ⟨⟨who, traceId, body, hreq⟩, a, approval, hend, hid⟩ := proposedSample_eq_true hr
  obtain ⟨a', approval', hreply, hrow, -⟩ := ((proposals_idempotent
    (Reachable.init.runAll hst)).2.2 1 r hp who 2 traceId body "key" hreq).1 _ hend
  obtain ⟨rfl, -⟩ := Reply.submitted.inj hreply
  exact ⟨s, hst, a.customerId, hrow.trans (congrArg some hid)⟩

end Sample

end Doda
