import Doda.Lifecycle.Story

/-!
# Every event is accounted for

Whatever the audit log says of an action was brought about by somebody who was allowed to:
its actor proposed it, by a request of a role that may; its actor or an admin of its workspace
approved or cancelled it, by a request of their own; an admin said that it has been made good;
the relay sent it.  What the code records of a refused decision is rolled back with it, so the
log never tells of one, and no action or approval is ever left denied or expired.

## Main definitions

* `AdminSince` — a process found the user of its request to be an admin.
* `Explained` — who may bring about an event, for each type of event.

## Main results

* `accounted_of_valid` — every event about an action is accounted for.
* `events_accounted`, `denials_leave_nothing` — the same of every run.
-/

namespace Doda

open ReadCommitted

/-! ## Who may bring about an event -/

/-- Process `p` received the user's request, and then found the user an admin of the action's
workspace. -/
def AdminSince (p : ℕ) (h : Hist) (r : Request) (user : Uuid) (a : Action) : Prop :=
  ∃ h₁, h₁ <:+ h ∧ Event.called p (.received r) () ∈ h₁ ∧
    IsWorkspaceAdmin (committed h₁) a.customerId user a.workspaceId

/-- Somebody who was allowed to brought the event about. -/
inductive Explained (h : Hist) (a : Action) (e : AuditEvent) : Prop where
  | submitted (p : ℕ) (r : Request) (strength : AuthStrength) (context : WorkspaceContext)
      (hproposer : Proposer p h r strength context a) (hactor : e.actorId = a.actorId)
      (htype : e.eventType = "action.proposed.v1" ∨
        e.eventType = ActionStatus.VALIDATING.eventType ∨
        e.eventType = ActionStatus.AWAITING_APPROVAL.eventType)
  | automatic (p : ℕ) (r : Request) (strength : AuthStrength) (context : WorkspaceContext)
      (hproposer : Proposer p h r strength context a) (hactor : e.actorId = a.actorId)
      (hrisk : a.riskLevel ∈ autoApprovedRiskLevels)
      (htype : e.eventType = ActionStatus.READY.eventType)
  | approved (p : ℕ) (user k : Uuid) (nonce : String)
      (hreceived : Event.called p
        (.received (.consume ⟨user, .AAL2⟩ a.workspaceId k nonce)) () ∈ h)
      (hread : ∃ h₁ ap, h₁ <:+ h ∧ row (committed h₁) (.approval k) = some ap ∧
        ap.actionId = a.id)
      (hactor : e.actorId = actorOf user)
      (hmay : a.actorId = actorOf user ∨
        AdminSince p h (.consume ⟨user, .AAL2⟩ a.workspaceId k nonce) user a)
      (htype : e.eventType = ActionStatus.READY.eventType)
  | cancelled (p : ℕ) (user : Uuid) (strength : AuthStrength)
      (hreceived : Event.called p (.received (.cancel ⟨user, strength⟩ a.workspaceId a.id)) () ∈ h)
      (hactor : e.actorId = actorOf user)
      (hmay : a.actorId = actorOf user ∨
        AdminSince p h (.cancel ⟨user, strength⟩ a.workspaceId a.id) user a)
      (htype : e.eventType = ActionStatus.CANCELLED.eventType ∨
        e.eventType = ActionStatus.COMPENSATING.eventType)
  | completed (p : ℕ) (user : Uuid) (strength : AuthStrength) (outcome : ActionStatus)
      (hreceived : Event.called p (.received
        (.completeCompensation ⟨user, strength⟩ a.workspaceId a.id outcome)) () ∈ h)
      (hactor : e.actorId = actorOf user)
      (hadmin : AdminSince p h
        (.completeCompensation ⟨user, strength⟩ a.workspaceId a.id outcome) user a)
      (hout : outcome = .COMPENSATED ∨ outcome = .FAILED)
      (htype : e.eventType = outcome.eventType)
  | started (p : ℕ) (hrelay : Relays p h) (hactor : e.actorId = telegramActor)
      (htool : a.toolName = telegramSendMessage)
      (htype : e.eventType = ActionStatus.RUNNING.eventType)
  | resolved (p : ℕ) (hrelay : Relays p h) (hactor : e.actorId = telegramActor)
      (htype : e.eventType = ActionStatus.SUCCEEDED.eventType ∨
        e.eventType = ActionStatus.FAILED.eventType)

theorem AdminSince.mono {p : ℕ} {h h' : Hist} {r : Request} {user : Uuid} {a : Action}
    (H : AdminSince p h r user a) (hh : h <:+ h') : AdminSince p h' r user a := by
  obtain ⟨h₁, hle, hrest⟩ := H
  exact ⟨h₁, hle.trans hh, hrest⟩

theorem Explained.mono {h h' : Hist} {a : Action} {e : AuditEvent} (H : Explained h a e)
    (hh : h <:+ h') : Explained h' a e := by
  cases H with
  | submitted p r strength context hproposer hactor htype =>
    exact .submitted p r strength context (hproposer.mono hh) hactor htype
  | automatic p r strength context hproposer hactor hrisk htype =>
    exact .automatic p r strength context (hproposer.mono hh) hactor hrisk htype
  | approved p user k nonce hreceived hread hactor hmay htype =>
    obtain ⟨h₁, ap, hle, hread⟩ := hread
    exact .approved p user k nonce (hh.subset hreceived) ⟨h₁, ap, hle.trans hh, hread⟩ hactor
      (hmay.imp_right (·.mono hh)) htype
  | cancelled p user strength hreceived hactor hmay htype =>
    exact .cancelled p user strength (hh.subset hreceived) hactor (hmay.imp_right (·.mono hh)) htype
  | completed p user strength outcome hreceived hactor hadmin hout htype =>
    exact .completed p user strength outcome (hh.subset hreceived) hactor (hadmin.mono hh) hout
      htype
  | started p hrelay hactor htool htype => exact .started p (hrelay.mono hh) hactor htool htype
  | resolved p hrelay hactor htype => exact .resolved p (hrelay.mono hh) hactor htype

/-- It does not depend on the action's status. -/
theorem Explained.setStatus {h : Hist} {a : Action} {e : AuditEvent} (H : Explained h a e)
    (s : ActionStatus) : Explained h (a.setStatus s) e := by
  cases H with
  | submitted p r strength context hproposer hactor htype =>
    exact .submitted p r strength context (hproposer.setStatus s) hactor htype
  | automatic p r strength context hproposer hactor hrisk htype =>
    exact .automatic p r strength context (hproposer.setStatus s) hactor hrisk htype
  | approved p user k nonce hreceived hread hactor hmay htype =>
    exact .approved p user k nonce hreceived hread hactor hmay htype
  | cancelled p user strength hreceived hactor hmay htype =>
    exact .cancelled p user strength hreceived hactor hmay htype
  | completed p user strength outcome hreceived hactor hadmin hout htype =>
    exact .completed p user strength outcome hreceived hactor hadmin hout htype
  | started p hrelay hactor htool htype => exact .started p hrelay hactor htool htype
  | resolved p hrelay hactor htype => exact .resolved p hrelay hactor htype

/-! ## What deeds record -/

theorem Admitted.adminSince {p : ℕ} {h : Hist} {r : Request} {strength : AuthStrength}
    {context : WorkspaceContext} {a : Action} (H : Admitted p h r strength context)
    (hplace : a.customerId = context.customerId ∧ a.workspaceId = context.workspaceId)
    (hrole : context.role = .WORKSPACE_ADMIN) : AdminSince p h r context.userId a := by
  obtain ⟨h₁, hle, hreceived, hadmin⟩ := H.admin hrole
  rw [← hplace.1, ← hplace.2] at hadmin
  exact ⟨h₁, hle, hreceived, hadmin⟩

/-- A move's event is accounted for by its cause. -/
theorem Cause.accounted {p : ℕ} {h : Hist} {source : Action} {target : ActionStatus}
    {actor : String} {receipt : Option Json} {e : AuditEvent}
    (H : Cause p h source.id source target actor receipt)
    (he : e.Moves source target actor receipt) : Explained h source e := by
  have hactor := he.actorId
  have htype := he.eventType
  cases H with
  | cancelled strength context _ hadmitted htarget hmay hplace =>
    rw [← hplace.2] at hadmitted
    refine .cancelled p context.userId strength hadmitted.received hactor ?_ ?_
    · exact hmay.imp_right (hadmitted.adminSince hplace)
    · rcases htarget with rfl | rfl
      · exact .inl htype
      · exact .inr htype
  | completed strength context _ hadmitted hout hrole hplace =>
    rw [← hplace.2] at hadmitted
    exact .completed p context.userId strength target hadmitted.received hactor
      (hadmitted.adminSince hplace hrole) hout htype
  | started hrelay htool => exact .started p hrelay hactor htool htype
  | succeeded hrelay receipt => exact .resolved p hrelay hactor (.inl htype)
  | failed hrelay hread => exact .resolved p hrelay hactor (.inr htype)

/-- The events about every action are accounted for, and no other event is about one. -/
structure Explains (h : Hist) (s : Db) : Prop where
  accounted : ∀ i a, row s (.action i) = some a → ∀ e ∈ story i s, Explained h a e
  heard : ∀ k e, (⟨.auditEvent k, some e⟩ : Version Row) ∈ s → e.actionId.isSome →
    ∃ i, e.About i
  pending : ∀ k ap, row s (.approval k) = some ap → ap.status = .PENDING ∨ ap.status = .APPROVED

section Deeds

variable [Sha256] {p : ℕ} {h : Hist} {s : Db} {d : Deed}

/-- What a deed records is accounted for. -/
theorem Deed.Fits.accounted (H : d.Fits p h s) (hk : Keyed s) {i : Uuid} {a : Action}
    (hd : d.leaves i = some a) : ∀ e ∈ d.tells i, Explained h a e := by
  intro e he
  cases d with
  | proposed a' target e₀ e₁ e₂ beside =>
    simp only [leaves, Option.ite_none_right_eq_some, Option.some.injEq] at hd
    obtain ⟨rfl, rfl⟩ := hd
    simp only [tells, if_pos, List.mem_cons, List.not_mem_nil, or_false] at he
    obtain ⟨r, strength, context, hp⟩ := H.proposer
    have hp := hp.setStatus target
    rcases he with rfl | rfl | rfl
    · exact .submitted p r strength context hp H.proposes.actorId (.inl H.proposes.eventType)
    · exact .submitted p r strength context hp H.validates.actorId
        (.inr (.inl H.validates.eventType))
    · have htype := H.routes.eventType
      have hroute := H.route
      cases hroute with
      | ready m hrisk hm =>
        exact .automatic p r strength context hp H.routes.actorId hrisk htype
      | approval ap hrisk ha =>
        exact .submitted p r strength context hp H.routes.actorId (.inr (.inr htype))
  | consumed id approvalId source before actor e₀ m =>
    obtain rfl : source.id = id := hk _ _ H.found source rfl
    simp only [leaves, Option.ite_none_right_eq_some, Option.some.injEq] at hd
    obtain ⟨rfl, rfl⟩ := hd
    rw [tells, if_pos rfl, List.mem_singleton] at he
    subst he
    obtain ⟨context, loaded, nonce, now, hdecided⟩ := H.decided
    have hadmitted := hdecided.admitted
    rw [← hdecided.place.2] at hadmitted
    have hactor := H.event.actorId.trans hdecided.approver
    obtain ⟨h₁, hle, hloaded⟩ := hdecided.read
    refine .approved p context.userId approvalId nonce hadmitted.received
      ⟨h₁, loaded, hle, hloaded, hdecided.about⟩ hactor ?_ H.event.eventType
    rcases hdecided.may with hown | hrole
    · exact .inl (hown.trans hdecided.approver)
    · exact .inr (hadmitted.adminSince hdecided.place hrole)
  | moved id source target actor receipt e₀ =>
    obtain rfl : source.id = id := hk _ _ H.found source rfl
    simp only [leaves, Option.ite_none_right_eq_some, Option.some.injEq] at hd
    obtain ⟨rfl, rfl⟩ := hd
    rw [tells, if_pos rfl, List.mem_singleton] at he
    subst he
    exact (H.cause.accounted H.event).setStatus target
  | published id m now => cases hd

/-- The events a deed writes are about an action. -/
theorem Deed.Fits.heard (H : d.Fits p h s) {k : Uuid} {e : AuditEvent}
    (he : (⟨.auditEvent k, some e⟩ : Version Row) ∈ d.versions) : ∃ i, e.About i := by
  cases d with
  | proposed a target e₀ e₁ e₂ beside =>
    have hroute := H.route
    have hbeside : (⟨.auditEvent k, some e⟩ : Version Row) ∉ beside := by
      cases hroute <;> simp
    simp only [versions, submissionVersions, transitionVersions, proposalVersions, List.mem_append,
      List.mem_cons, List.not_mem_nil, or_false, hbeside, false_or, Sigma.mk.injEq,
      Key.auditEvent.injEq, reduceCtorEq, false_and] at he
    rcases he with (⟨rfl, he⟩ | ⟨rfl, he⟩) | ⟨rfl, he⟩
    · obtain rfl := Option.some.inj (eq_of_heq he)
      exact ⟨_, H.routes.tellsOf.about⟩
    · obtain rfl := Option.some.inj (eq_of_heq he)
      exact ⟨_, H.validates.tellsOf.about⟩
    · obtain rfl := Option.some.inj (eq_of_heq he)
      exact ⟨_, H.proposes.tellsOf.about⟩
  | consumed id approvalId source before actor e₀ m =>
    simp only [versions, List.mem_cons, List.not_mem_nil, or_false, Sigma.mk.injEq,
      Key.auditEvent.injEq, reduceCtorEq, false_and, false_or] at he
    obtain ⟨rfl, he⟩ := he
    obtain rfl := Option.some.inj (eq_of_heq he)
    exact ⟨_, H.event.tellsOf.about⟩
  | moved id source target actor receipt e₀ =>
    simp only [versions, List.mem_cons, List.not_mem_nil, or_false, Sigma.mk.injEq,
      Key.auditEvent.injEq, reduceCtorEq, false_and] at he
    obtain ⟨rfl, he⟩ := he
    obtain rfl := Option.some.inj (eq_of_heq he)
    exact ⟨_, H.event.tellsOf.about⟩
  | published id m now => simp [versions] at he

/-- A deed leaves an approval pending or approved. -/
theorem Deed.Fits.leaves_pending (H : d.Fits p h s) {k : Uuid} {ap : Approval}
    (hd : d.leavesApproval k = some ap) : ap.status = .PENDING ∨ ap.status = .APPROVED := by
  cases d with
  | proposed a target e₀ e₁ e₂ beside =>
    have hroute := H.route
    cases hroute with
    | ready m hrisk hm => simp [leavesApproval, row] at hd
    | approval ap' hrisk ha =>
      obtain rfl : k = ap'.id := by simpa [keys] using mem_keys_of_row hd
      simp only [leavesApproval, row_cons_self, Option.some.injEq] at hd
      exact .inl (hd ▸ ha.status)
  | consumed id approvalId source before actor e₀ m =>
    simp only [leavesApproval, Option.ite_none_right_eq_some, Option.some.injEq] at hd
    obtain ⟨-, rfl⟩ := hd
    exact .inr rfl
  | moved | published => cases hd

/-- **A deed keeps the accounts.** -/
theorem Explains.deed (H : Explains h s) (ht : Tells s) (hk : Keyed s) (hfits : d.Fits p h s) :
    Explains h (d.versions ++ s) where
  accounted i a ha e he := by
    rw [story_append, hfits.story_eq hk] at he
    rw [hfits.row_action] at ha
    cases hd : d.leaves i with
    | some b =>
      rw [hd, Option.some_or] at ha
      obtain rfl := Option.some.inj ha
      rcases List.mem_append.1 he with hold | hnew
      · cases hrow : row s (.action i) with
        | none =>
          rw [ht.silent i hrow] at hold
          cases hold
        | some c =>
          rw [(hfits.leaves_eq hrow hd).1]
          exact (H.accounted i c hrow e hold).setStatus b.status
      · exact hfits.accounted hk hd e hnew
    | none =>
      rw [hd, Option.none_or] at ha
      have htells : d.tells i = [] := by
        cases d with
        | proposed | consumed | moved =>
          simp only [Deed.leaves, ite_eq_right_iff, reduceCtorEq, imp_false] at hd
          exact if_neg hd
        | published => rfl
      rw [htells, List.append_nil] at he
      exact H.accounted i a ha e he
  heard k e he hsome := by
    rcases List.mem_append.1 he with hnew | hold
    · exact hfits.heard hnew
    · exact H.heard k e hold hsome
  pending k ap hap := by
    rw [hfits.row_approval] at hap
    cases hd : d.leavesApproval k with
    | none =>
      rw [hd, Option.none_or] at hap
      exact H.pending k ap hap
    | some ap' =>
      rw [hd, Option.some_or] at hap
      obtain rfl := Option.some.inj hap
      exact hfits.leaves_pending hd

/-- **Every event about an action is accounted for**, in every history of the service. -/
theorem accounted_of_valid (hv : lifecycle.Valid h) :
    Tells (committed h) ∧ Explains h (committed h) := by
  refine holds_of_valid (I := fun h s => Tells s ∧ Explains h s) ?_ ?_ ?_ ?_ hv
  · refine ⟨⟨fun i a ha => ?_, fun i _ => rfl⟩, fun i a ha => ?_, fun k e he => ?_,
      fun k ap hap => ?_⟩
    · simp at ha
    · simp at ha
    · cases he
    · simp at hap
  · rintro h s s' hk hcore ⟨ht, H⟩
    have hstory : ∀ i, story i s' = story i s := fun i => by
      rw [← story_core, ← hcore, story_core]
    refine ⟨⟨fun i a ha => ?_, fun i hi => ?_⟩, fun i a ha e he => ?_, fun k e he hsome => ?_,
      fun k ap hap => ?_⟩
    · rw [row_of_core hcore rfl] at ha
      rw [hstory]
      exact ht.found i a ha
    · rw [row_of_core hcore rfl] at hi
      rw [hstory]
      exact ht.silent i hi
    · rw [row_of_core hcore rfl] at ha
      rw [hstory] at he
      exact H.accounted i a ha e he
    · have hmem : (⟨.auditEvent k, some e⟩ : Version Row) ∈ core s' :=
        List.mem_filter.2 ⟨he, hsome⟩
      rw [← hcore] at hmem
      exact H.heard k e (List.mem_filter.1 hmem).1 hsome
    · rw [row_of_core hcore rfl] at hap
      exact H.pending k ap hap
  · rintro ev h s ⟨ht, H⟩
    refine ⟨ht, fun i a ha e he => ?_, H.heard, H.pending⟩
    exact (H.accounted i a ha e he).mono (List.suffix_cons ..)
  · rintro p h ds d hv hfit hfits ⟨ht, H⟩
    have hk := hfit.keyed (keyed_of_valid hv)
    exact ⟨ht.deed hk hfits, H.deed ht hk hfits⟩

end Deeds

/-! ## Every run -/

/-- The types of the events that a refused, expired or denied decision would record. -/
def refusalTypes : List String :=
  ["action.transition_rejected.v1", ActionStatus.EXPIRED.eventType,
    ActionStatus.REJECTED.eventType, ActionStatus.DENIED.eventType,
    ActionStatus.RETRYING.eventType]

/-- No event that is accounted for tells of a refusal. -/
theorem Explained.not_refusal {h : Hist} {a : Action} {e : AuditEvent} (H : Explained h a e) :
    e.eventType ∉ refusalTypes := by
  have hapart : ∀ t ∈ "action.proposed.v1" :: [ActionStatus.VALIDATING, .AWAITING_APPROVAL, .READY,
      .CANCELLED, .COMPENSATING, .COMPENSATED, .FAILED, .RUNNING, .SUCCEEDED].map
      ActionStatus.eventType, t ∉ refusalTypes := by
    decide +kernel
  refine hapart _ ?_
  cases H with
  | submitted p r strength context hproposer hactor htype =>
    rcases htype with h | h | h <;> simp [h]
  | automatic p r strength context hproposer hactor hrisk htype => simp [htype]
  | approved p user k nonce hreceived hread hactor hmay htype => simp [htype]
  | cancelled p user strength hreceived hactor hmay htype =>
    rcases htype with h | h <;> simp [h]
  | completed p user strength outcome hreceived hactor hadmin hout htype =>
    rcases hout with rfl | rfl <;> simp [htype]
  | started p hrelay hactor htool htype => simp [htype]
  | resolved p hrelay hactor htype => rcases htype with h | h <;> simp [h]

section Runs

variable [Sha256] [JsonText] [Deployment] {s : Sys Row Answer Err Reply Request}

/-- A stored event about an action is in the story of one, and explained there. -/
theorem explained_of_stored (hs : Reachable serve s) {c : Uuid} {e : AuditEvent}
    (he : e ∈ storedEvents c (committed s.hist)) (habout : e.actionId ≠ none) :
    ∃ i a, row (committed s.hist) (.action i) = some a ∧ e.actionId = some i.str ∧
      e ∈ story i (committed s.hist) ∧ Explained s.hist a e := by
  have hv := valid_of_reachable hs
  obtain ⟨ht, H⟩ := accounted_of_valid hv
  have hlogged := ((storedEvents_perm lifecycle_audits hv c).mem_iff).1 he
  obtain ⟨k, v, hmem, hof⟩ := mem_logged.1 hlogged
  have hversion : ∃ j, (⟨.auditEvent j, some e⟩ : Version Row) ∈ committed s.hist := by
    cases k with
    | auditEvent j =>
      simp only [eventOf, Option.ite_none_right_eq_some, Option.some.injEq] at hof
      obtain ⟨-, rfl⟩ := hof
      exact ⟨j, hmem⟩
    | _ => cases hof
  obtain ⟨j, hmem⟩ := hversion
  obtain ⟨i, hi⟩ := H.heard j e hmem (Option.isSome_iff_ne_none.2 habout)
  have hstory : e ∈ story i (committed s.hist) := mem_logged.2 ⟨.auditEvent j, e, hmem, if_pos hi⟩
  cases hrow : row (committed s.hist) (.action i) with
  | none =>
    rw [ht.silent i hrow] at hstory
    cases hstory
  | some a => exact ⟨i, a, hrow, hi, hstory, H.accounted i a hrow e hstory⟩

/-- **Every stored event about an action is accounted for**: there is such an action, and
somebody who was allowed to brought the event about, by a request that was received. -/
theorem events_accounted (hs : Reachable serve s) {c : Uuid} {e : AuditEvent}
    (he : e ∈ storedEvents c (committed s.hist)) (habout : e.actionId ≠ none) :
    ∃ i a, row (committed s.hist) (.action i) = some a ∧ e.actionId = some i.str ∧
      e.traceId = a.traceId ∧ Explained s.hist a e := by
  obtain ⟨i, a, hrow, hi, hstory, hexplained⟩ := explained_of_stored hs he habout
  obtain ⟨ht, -⟩ := accounted_of_valid (valid_of_reachable hs)
  exact ⟨i, a, hrow, hi, ((ht.found i a hrow).tells e hstory).traceId, hexplained⟩

/-- **A denial leaves nothing behind.**  No run ever leaves an action refused, expired, denied
or half-way through its proposal, an approval that is neither pending nor approved, or an event
that tells of a refusal. -/
theorem denials_leave_nothing (hs : Reachable serve s) :
    (∀ i a, row (committed s.hist) (.action i) = some a → a.status ∉
      [ActionStatus.DRAFT, .VALIDATING, .EXPIRED, .REJECTED, .DENIED, .RETRYING]) ∧
    (∀ k ap, row (committed s.hist) (.approval k) = some ap →
      ap.status = .PENDING ∨ ap.status = .APPROVED) ∧
    ∀ c, ∀ e ∈ storedEvents c (committed s.hist), e.actionId ≠ none →
      e.eventType ∉ refusalTypes := by
  have hv := valid_of_reachable hs
  refine ⟨?_, (accounted_of_valid hv).2.pending, ?_⟩
  · intro i a ha
    cases (standing_of_valid hv).found i a ha with
    | automatic hrisk hnone hannounced hever hstatus =>
      intro hbad
      cases hs : a.status <;> simp [hs, beyondApproval] at hstatus hbad
    | awaiting k ap hrisk hrow hsole hawaits hannounced hever hstatus => simp [hstatus]
    | approved k ap hrisk hrow hsole hproper hannounced hever hstatus =>
      intro hbad
      cases hs : a.status <;> simp [hs, beyondApproval] at hstatus hbad
  · intro c e he habout
    obtain ⟨i, a, -, -, -, hexplained⟩ := explained_of_stored hs he habout
    exact hexplained.not_refusal

end Runs

/-! ## A sample run -/

section Sample

attribute [local instance] plainSha plainJsonText sampleDeployment

/-- Of a message that a relay has begun to send there is an event that it was approved. -/
theorem events_accounted_sample : ∃ s, runAll serve {} startedAction = some s ∧
    ∃ e ∈ storedEvents 7 (committed s.hist), e.eventType = ActionStatus.READY.eventType ∧
      ∃ a, row (committed s.hist) (.action 112) = some a ∧ a.riskLevel ∉ autoApprovedRiskLevels ∧
        Explained s.hist a e := by
  have hrun : ((runAll serve {} startedAction).any fun s =>
      ((storedEvents 7 (committed s.hist)).any fun e => decide (e.actionId = some (Uuid.str 112) ∧
        e.eventType = ActionStatus.READY.eventType)) &&
      (row (committed s.hist) (.action 112)).all fun a =>
        decide (a.riskLevel ∉ autoApprovedRiskLevels)) = true := by
    decide +kernel
  obtain ⟨s, hst, hs⟩ := (Option.any_eq_true _ _).1 hrun
  obtain ⟨hevent, hrisk⟩ := Bool.and_eq_true_iff.1 hs
  obtain ⟨e, he, hboth⟩ := List.any_eq_true.1 hevent
  obtain ⟨hid, htype⟩ := of_decide_eq_true hboth
  obtain ⟨i, a, hrow, hi, -, haccounted⟩ :=
    events_accounted (Reachable.init.runAll hst) he (by simp [hid])
  obtain rfl : i = 112 := Uuid.str_injective (Option.some.inj (hi.symm.trans hid))
  rw [hrow] at hrisk
  exact ⟨s, hst, e, he, htype, a, hrow, of_decide_eq_true hrisk, haccounted⟩

/-- User 3 proposes the message, and approves it when the approval has expired. -/
def expiredApproval : Option (Sys Row Answer Err Reply Request) :=
  runAll serve {} (startedAction.take 59 ++
    .start (.consume ⟨3, .AAL2⟩ 2 153 "151") :: Act.runs 2 sampleAnswer 100000000000 19)

/-- Process 2 records that an action has expired. -/
def recordsExpiry : Event Row Answer → Bool
  | .ran 2 (.insert [⟨.auditEvent _, (e : AuditEvent)⟩]) _ =>
    e.eventType = ActionStatus.EXPIRED.eventType
  | _ => false

/-- The expiry is recorded, and rolled back. -/
theorem denials_leave_nothing_sample : ∃ s, expiredApproval = some s ∧
    s.hist.any recordsExpiry = true ∧
    (∀ i a, row (committed s.hist) (.action i) = some a → a.status ∉
      [ActionStatus.DRAFT, .VALIDATING, .EXPIRED, .REJECTED, .DENIED, .RETRYING]) ∧
    (∀ k ap, row (committed s.hist) (.approval k) = some ap →
      ap.status = .PENDING ∨ ap.status = .APPROVED) ∧
    ∀ c, ∀ e ∈ storedEvents c (committed s.hist), e.actionId ≠ none →
      e.eventType ∉ refusalTypes := by
  have hrun : (expiredApproval.any fun s => s.hist.any recordsExpiry) = true := by
    decide +kernel
  obtain ⟨s, hst, hs⟩ := (Option.any_eq_true _ _).1 hrun
  exact ⟨s, hst, hs, denials_leave_nothing (Reachable.init.runAll hst)⟩

end Sample

end Doda
