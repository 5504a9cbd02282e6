import Doda.Lib.Guard
import Doda.Members.Index
import Doda.Members.Owners

/-!
# The bootstrap index in every run

A removal looks for the memberships that its user has left after it has moved the customer's
chain tip, and a new membership is committed with the tip moved too.  So whatever a removal
that drops an index row has not found there is not there when it commits, and the index mirrors
the memberships in every run, removals and invitations of one user overlapping or not.

## Main definitions

* `Vacated` — what a commit that drops an index row has seen under the tip.
* `indexKept` — what the commits promise.

## Main results

* `serveMemberships_safe` — every request.
* `index_mirrors` — every run.
-/

namespace Doda

open ReadCommitted

/-! ## The contract -/

/-- A table that says who is a member, other than the memberships. -/
def Key.listing : Key → Bool
  | .customerMember _ _ | .userCustomerIndex _ _ => true
  | _ => false

/-- Since it was seen that the user has no membership but what the commit writes, the chain tip
has not moved. -/
def Vacated (h : Hist) (w : Db) (userId customerId : Uuid) : Prop :=
  ∃ h₀, Unmoved (.auditChainTip customerId) h₀ h ∧
    ∀ id m, row (committed h₀) (.customerMembership id) = some m →
      m.customerId = customerId → m.userId = userId → .customerMembership id ∈ keys w

/-- A member is listed with a version of the customer's chain tip, and an index row is dropped
where no membership is left. -/
def indexKept : Contract Row Answer where
  commitOk h _ w := (∀ c u, (row w (.customerMember c u)).isSome → .auditChainTip c ∈ keys w) ∧
    ∀ u c, .userCustomerIndex u c ∈ keys w → row w (.userCustomerIndex u c) = none →
      Vacated h w u c
  callOk _ _ _ := True

/-- The chain tip guards the members. -/
theorem indexKept_guards (c u : Uuid) :
    indexKept.Guards (.auditChainTip c) (.customerMember c u) :=
  fun _ _ _ H => H.1 c u

/-! ## Transactions -/

section Safe

variable {p : ℕ} {h h' : Hist} {t t' : DbTx}

/-- What a transaction has written so far may be committed. -/
structure Listed (h : Hist) (t : DbTx) : Prop where
  guarded : ∀ c u, (row t.writes (.customerMember c u)).isSome → .auditChainTip c ∈ keys t.writes
  vacated : ∀ u c, .userCustomerIndex u c ∈ keys t.writes →
    row t.writes (.userCustomerIndex u c) = none →
      .auditChainTip c ∈ t.locks ∧ Vacated h t.writes u c

/-- It may once the chain tip of `c` has been moved. -/
structure Enlisting (c : Uuid) (t : DbTx) : Prop where
  member : ∀ c' u, (row t.writes (.customerMember c' u)).isSome → c' = c
  index : ∀ u c', .userCustomerIndex u c' ∈ keys t.writes →
    (row t.writes (.userCustomerIndex u c')).isSome

theorem Listed.empty (h : Hist) : Listed h {} :=
  ⟨fun _ _ hrow => by simp at hrow, fun _ _ hmem => by cases hmem⟩

theorem Enlisting.empty (c : Uuid) : Enlisting c {} :=
  ⟨fun _ _ hrow => by simp at hrow, fun _ _ hmem => by cases hmem⟩

theorem Vacated.mono {w w' : Db} {u c : Uuid} (H : Vacated h w u c)
    (hh : Unmoved (.auditChainTip c) h h') (hw : ∀ k ∈ keys w, k ∈ keys w') :
    Vacated h' w' u c := by
  obtain ⟨h₀, hold, hseen⟩ := H
  exact ⟨h₀, hold.trans hh, fun id m hrow hc hu => hw _ (hseen id m hrow hc hu)⟩

theorem Listed.apart (H : Listed h t) (ha : Apart (·.listing = false) p h t h' t') :
    Listed h' t' where
  guarded c u hrow := by
    rw [ha.row_writes (by simp [Key.listing])] at hrow
    exact ha.keys_writes _ (H.guarded c u hrow)
  vacated u c hmem hnone := by
    rw [ha.mem_writes (by simp [Key.listing])] at hmem
    rw [ha.row_writes (by simp [Key.listing])] at hnone
    obtain ⟨hlock, hvacated⟩ := H.vacated u c hmem hnone
    exact ⟨ha.onward.locks _ hlock,
      hvacated.mono (ha.onward.unmoved hlock) ha.keys_writes⟩

theorem Enlisting.apart {c : Uuid} (H : Enlisting c t)
    (ha : Apart (·.listing = false) p h t h' t') : Enlisting c t' where
  member c' u hrow := by
    rw [ha.row_writes (by simp [Key.listing])] at hrow
    exact H.member c' u hrow
  index u c' hmem := by
    rw [ha.mem_writes (by simp [Key.listing])] at hmem
    rw [ha.row_writes (by simp [Key.listing])]
    exact H.index u c' hmem

theorem Enlisting.listed {c : Uuid} (H : Enlisting c t) (hmoved : .auditChainTip c ∈ keys t.writes)
    (h : Hist) : Listed h t where
  guarded c' u hrow := H.member c' u hrow ▸ hmoved
  vacated u c' hmem hnone := by
    have hsome := H.index u c' hmem
    rw [hnone] at hsome
    cases hsome

end Safe

/-! ## Programs that list nobody -/

/-- The program writes no such row. -/
abbrev Unlisting {α : Type} (m : Session α) : Prop := Writes (·.listing = false) m

section Safe

variable {p : ℕ} {h : Hist} {t : DbTx} {α β : Type}

/-- Work beside the listing, then the rest. -/
theorem unlisting_bind {m : Session β} {f : β → Session α} {Q : α → Hist → DbTx → Prop}
    (hm : Unlisting m) (hf : ∀ b h' t', Apart (·.listing = false) p h t h' t' →
      Safe indexKept p Q Anyhow (f b) h' t') : Safe indexKept p Q Anyhow (m >>= f) h t :=
  Safe.bind ((Only.apart (fun _ _ _ => trivial) hm h t).mono (fun _ _ _ => id)
    fun _ _ _ _ => trivial) hf

theorem Listed.unlisting {m : Session α} (H : Listed h t) (hm : Unlisting m) :
    Safe indexKept p (fun _ => Listed) Anyhow m h t :=
  (Only.apart (fun _ _ _ => trivial) hm h t).mono (fun _ _ _ ha => H.apart ha)
    fun _ _ _ _ => trivial

theorem deleteWorkspaceMembership_unlisting (id : Uuid) :
    Unlisting (deleteWorkspaceMembership id) := by
  refine Only.bind (Only.bind (Writes.getForUpdate _) fun found => ?_) fun found => ?_
  · dsimp only
    split
    · exact Only.bind (Writes.delete rfl) fun _ => Only.pure _
    · exact Only.pure _
  · split
    · exact Only.pure _
    · exact Writes.delete rfl

theorem deleteWorkspaceMemberships_unlisting (ids : List Uuid) :
    Unlisting (deleteWorkspaceMemberships ids) := by
  induction ids with
  | nil => exact Only.pure _
  | cons id ids ih => exact Only.bind (deleteWorkspaceMembership_unlisting id) fun _ => ih

theorem getCustomerMembership_unlisting (context : CustomerContext) (id : Uuid) :
    Unlisting (getCustomerMembership context id) := by
  refine Only.bind (Writes.get _) fun found => ?_
  split
  · exact Only.throw _
  · exact Only.pure _

theorem authorizeManageCustomerMembers_unlisting (context : CustomerContext) :
    Unlisting (authorizeManageCustomerMembers context) :=
  (authorizeManageCustomerMembers_tidy context).only

theorem getCurrentWorkspace_unlisting (context : WorkspaceContext) :
    Unlisting (getCurrentWorkspace context) := by
  refine Only.bind (Only.bind (Writes.get _) fun _ => Only.pure _) fun found => ?_
  split
  · exact Only.throw _
  · exact Only.pure _

variable [Sha256]

theorem recordAuditEvent_unlisting (c : Uuid) (w : Option Uuid) (i : Uuid) (a e : String)
    (m : Json) : Unlisting (recordAuditEvent c w i a e m) := by
  refine (recordAuditEvent_writes c w i a e m).weaken fun k hk => ?_
  cases k <;> first | rfl | cases hk

/-- What the requests end with. -/
theorem audited_unlisting {c : Uuid} {w : Option Uuid} {a e : String} {m : Uuid → Json}
    {f : AuditEvent → Session α} (hf : ∀ event, Unlisting (f event)) : Unlisting (do
      let traceId ← Session.uuid4
      let event ← recordAuditEvent c w traceId a e (m traceId)
      f event) :=
  Only.bind Writes.uuid4 fun _ => Only.bind (recordAuditEvent_unlisting ..) hf

theorem changeMemberRole_unlisting (context : CustomerContext) (id : Uuid)
    (role : CustomerRole) : Unlisting (changeMemberRole context id role) := by
  refine Only.bind (authorizeManageCustomerMembers_unlisting _) fun _ => ?_
  refine Only.bind (getCustomerMembership_unlisting ..) fun m => ?_
  refine Only.bind (Only.bind (assertNotLastOwner_tidy ..).only fun _ => Only.bind ?_ fun _ =>
    audited_unlisting fun _ => Only.pure _) fun _ => Only.pure _
  unfold flushRole
  split
  · exact Writes.update rfl
  · exact Only.pure _

theorem createWorkspace_unlisting (customerId : Uuid) (name actorId : String) :
    Unlisting (createWorkspace customerId name actorId) := by
  refine Only.bind Writes.uuid4 fun id => Only.bind (Writes.insert rfl) fun _ => ?_
  refine Only.bind Writes.uuid4 fun _ => Only.bind (Writes.insert rfl) fun _ => ?_
  exact Only.bind (recordAuditEvent_unlisting ..) fun _ => Only.pure _

theorem addMember_unlisting (context : WorkspaceContext) (id : Uuid) (role : WorkspaceRole) :
    Unlisting (WorkspaceAdmin.addMember context id role) := by
  refine Only.bind (requireRole_writes ..) fun _ => Only.bind (Writes.get _) fun found => ?_
  split
  · exact Only.throw _
  refine Only.bind (getCurrentWorkspace_unlisting _) fun w => Only.bind ?_ fun _ => Only.pure _
  unfold addWorkspaceMember
  split
  · exact Only.throw _
  split
  · exact Only.throw _
  refine Only.bind Writes.uuid4 fun _ => Only.bind (Only.run ?_) fun inserted => ?_
  · intro e he
    simp only [List.mem_cons, List.not_mem_nil, or_false] at he
    rcases he with rfl | rfl <;> rfl
  split
  · exact Only.throw _
  · exact audited_unlisting fun _ => Only.pure _

theorem changeWorkspaceMember_unlisting (context : WorkspaceContext) (id : Uuid)
    (role : WorkspaceRole) : Unlisting (WorkspaceAdmin.changeMemberRole context id role) := by
  refine Only.bind (requireRole_writes ..) fun _ => ?_
  refine Only.bind (getWorkspaceMembership_tidy ..).only fun m => ?_
  refine Only.bind (Only.bind ?_ fun _ => audited_unlisting fun _ => Only.pure _) fun _ =>
    Only.pure _
  unfold flushWorkspaceRole
  split
  · exact Writes.update rfl
  · exact Only.pure _

theorem removeWorkspaceMember_unlisting (context : WorkspaceContext) (id : Uuid) :
    Unlisting (WorkspaceAdmin.removeMember context id) := by
  refine Only.bind (requireRole_writes ..) fun _ => ?_
  refine Only.bind (getWorkspaceMembership_tidy ..).only fun m => ?_
  exact Only.bind (audited_unlisting fun _ => deleteWorkspaceMembership_unlisting id) fun _ =>
    Only.pure _

omit [Sha256] in
theorem flushArchivedAt_unlisting (id : Uuid) (loaded archivedAt : Option Time) :
    Unlisting (flushArchivedAt id loaded archivedAt) := by
  unfold flushArchivedAt
  split
  · exact Writes.update rfl
  · exact Only.pure _

theorem archiveCurrentWorkspace_unlisting (context : WorkspaceContext) :
    Unlisting (archiveCurrentWorkspace context) := by
  refine Only.bind (requireRole_writes ..) fun _ => ?_
  refine Only.bind (getCurrentWorkspace_unlisting _) fun w => Only.bind ?_ fun _ => Only.pure _
  refine Only.bind (Writes.utcnow _) fun _ => Only.bind (flushArchivedAt_unlisting ..) fun _ => ?_
  exact audited_unlisting fun _ => Only.pure _

theorem restoreCurrentWorkspace_unlisting (context : WorkspaceContext) :
    Unlisting (restoreCurrentWorkspace context) := by
  refine Only.bind (requireRole_writes ..) fun _ => ?_
  refine Only.bind (getCurrentWorkspace_unlisting _) fun w => Only.bind ?_ fun _ => Only.pure _
  exact Only.bind (flushArchivedAt_unlisting ..) fun _ => audited_unlisting fun _ => Only.pure _

/-! ## Programs that do -/

/-- An event is recorded with a version of the chain tip. -/
theorem recordAuditEvent_moves (c : Uuid) (w : Option Uuid) (i : Uuid) (a e : String) (m : Json) :
    Safe indexKept p (fun _ h' t' => Apart (·.listing = false) p h t h' t' ∧ t'.Sound ∧
        .auditChainTip c ∈ keys t'.writes) Anyhow (recordAuditEvent c w i a e m) h t := by
  unfold recordAuditEvent
  refine unlisting_bind (Only.run fun e he => ?_) fun _ h₁ t₁ ha₁ => ?_
  · obtain rfl := List.mem_singleton.1 he
    rfl
  refine unlisting_bind (Writes.getForUpdate _) fun tip h₂ t₂ ha₂ => ?_
  cases tip with
  | none => trivial
  | some tip =>
  refine unlisting_bind (Writes.utcnow _) fun _ h₃ t₃ ha₃ => ?_
  refine unlisting_bind Writes.uuid4 fun _ h₄ t₄ ha₄ => ?_
  refine unlisting_bind (Writes.utcnow _) fun _ h₅ t₅ ha₅ => ?_
  refine unlisting_bind (Writes.insert rfl) fun _ h₆ t₆ ha₆ => ?_
  refine Safe.bind ((Safe.update (M := Call.Minor) _ _).mono (Q := fun _ h' t' =>
    Apart (·.listing = false) p h t h' t' ∧ t'.Sound ∧ .auditChainTip c ∈ keys t'.writes) ?_
    fun _ _ _ _ => trivial) ?_
  · rintro - h₇ t₇ ⟨hl, ho, v, -, rfl⟩
    refine ⟨?_, hl.sound, List.mem_cons_self ..⟩
    refine (((((ha₁.trans ha₂).trans ha₃).trans ha₄).trans ha₅).trans ha₆).trans ⟨ho, _, rfl, ?_⟩
    intro k hk
    obtain rfl := List.mem_singleton.1 hk
    rfl
  · rintro - h₇ t₇ H
    exact H

omit [Sha256] in
/-- The rows of a new member of `c`. -/
theorem Enlisting.join {c : Uuid} (H : Enlisting c t) {i : Uuid} {m : CustomerMembership}
    (hc : m.customerId = c) {t' : DbTx} (hw : t'.writes = memberVersions i m ++ t.writes) :
    Enlisting c t' where
  member c' u hrow := by
    rw [hw, row_memberVersions_member] at hrow
    split at hrow
    · rename_i hm
      exact hm.1.symm.trans hc
    · exact H.member c' u hrow
  index u c' hmem := by
    rw [hw, row_memberVersions_index]
    refine H.index u c' ?_
    rw [hw, keys_append, List.mem_append] at hmem
    exact hmem.resolve_left (by simp [memberVersions])

omit [Sha256] in
/-- A new row of the index. -/
theorem Enlisting.indexed {c : Uuid} (H : Enlisting c t) {u c₁ : Uuid} {t' : DbTx}
    (hw : t'.writes = ⟨.userCustomerIndex u c₁, some ()⟩ :: t.writes) : Enlisting c t' where
  member c' u' hrow := by
    rw [hw, row_cons_ne _ _ (by simp)] at hrow
    exact H.member c' u' hrow
  index u' c' hmem := by
    rw [hw]
    by_cases hk : Key.userCustomerIndex u c₁ = .userCustomerIndex u' c'
    · obtain ⟨rfl, rfl⟩ := Key.userCustomerIndex.inj hk
      simp
    · rw [row_cons_ne _ _ hk]
      refine H.index u' c' ?_
      rw [hw, keys_cons, List.mem_cons] at hmem
      exact hmem.resolve_left (Ne.symm hk)

omit [Sha256] in
theorem indexCustomer_listing {c : Uuid} (H : Enlisting c t) (u c₁ : Uuid) :
    Safe indexKept p (fun _ _ t' => Enlisting c t') Anyhow (indexCustomer u c₁) h t := by
  refine unlisting_bind (Writes.get _) fun index h₁ t₁ ha₁ => ?_
  have H₁ := H.apart ha₁
  split
  · refine (Safe.insert (M := Call.Minor) _ _).mono ?_ fun _ _ _ _ => trivial
    rintro - h₂ t₂ ⟨-, -, rfl, -⟩
    exact H₁.indexed rfl
  · exact H₁

theorem Enlisting.audited {c : Uuid} (H : Enlisting c t) {w : Option Uuid} {a e : String}
    {m : Uuid → Json} {x : α} : Safe indexKept p (fun _ => Listed) Anyhow (do
      let traceId ← Session.uuid4
      let _ ← recordAuditEvent c w traceId a e (m traceId)
      return x) h t := by
  refine unlisting_bind Writes.uuid4 fun traceId h₁ t₁ ha₁ => ?_
  refine Safe.bind (recordAuditEvent_moves _ _ _ _ _ _) ?_
  rintro event h₂ t₂ ⟨ha₂, -, hmoved⟩
  exact ((H.apart ha₁).apart ha₂).listed hmoved h₂

theorem inviteCustomerMember_listed {c : Uuid} (H : Enlisting c t) (u : Uuid) (role : CustomerRole)
    (actor : String) :
    Safe indexKept p (fun _ => Listed) Anyhow (inviteCustomerMember c u role actor) h t := by
  unfold inviteCustomerMember
  refine unlisting_bind Writes.uuid4 fun id h₁ t₁ ha₁ => ?_
  have H₁ := H.apart ha₁
  extract_lets membership
  refine Safe.bind ((Safe.tryInsert (M := Call.Minor) _).mono
    (Q := fun _ _ t' => Enlisting c t') ?_ fun _ _ _ _ => trivial) ?_
  · rintro x h₂ t₂ ⟨-, -, ⟨-, rfl, -⟩ | ⟨-, rfl, -⟩⟩
    · exact H₁.join (i := id) (m := membership) rfl rfl
    · exact H₁
  · intro inserted h₂ t₂ H₂
    split
    · trivial
    · exact Safe.bind (indexCustomer_listing H₂ u c) fun _ h₃ t₃ H₃ => H₃.audited

theorem createCustomerWithOwner_listed (c : Uuid) (name : String) (owner : Uuid)
    (actor : String) :
    Safe indexKept p (fun _ => Listed) Anyhow (createCustomerWithOwner c name owner actor)
      h {} := by
  unfold createCustomerWithOwner
  refine unlisting_bind (Writes.insert rfl) fun _ h₁ t₁ ha₁ => ?_
  refine unlisting_bind Writes.uuid4 fun id h₂ t₂ ha₂ => ?_
  have H₂ := ((Enlisting.empty c).apart ha₁).apart ha₂
  extract_lets membership
  refine Safe.bind (B := fun _ _ t' => Enlisting c t') ?_ fun _ h₃ t₃ H₃ => ?_
  · refine Safe.run fun h₃ ho hv hs => ⟨fun busy x t' hf hx => ?_, trivial⟩
    simp only [Stmt.exec] at hx
    split at hx
    · simp at hx
    · simp only [Option.some.injEq, Prod.mk.injEq] at hx
      obtain ⟨-, rfl⟩ := hx
      exact H₂.join (i := id) (m := membership) rfl rfl
  · refine Safe.bind ((Safe.insert (M := Call.Minor) _ _).mono
      (Q := fun _ _ t' => Enlisting c t') ?_ fun _ _ _ _ => trivial) fun _ h₄ t₄ H₄ => H₄.audited
    rintro - h₄ t₄ ⟨-, -, rfl, -⟩
    exact H₃.indexed rfl

end Safe

/-! ## Removals -/

section Removals

variable {p : ℕ} {h h' : Hist} {t t' : DbTx} {c : Uuid}

/-- What a removal has written once it has moved the chain tip. -/
structure Removing (c : Uuid) (t : DbTx) : Prop where
  moved : .auditChainTip c ∈ t.locks
  member : ∀ c' u, row t.writes (.customerMember c' u) = none
  index : ∀ u c', .userCustomerIndex u c' ∉ keys t.writes

theorem Removing.listed (H : Removing c t) (h : Hist) : Listed h t where
  guarded c' u hrow := by
    rw [H.member] at hrow
    cases hrow
  vacated u c' hmem := absurd hmem (H.index u c')

theorem Removing.apart (H : Removing c t) (ha : Apart (·.listing = false) p h t h' t') :
    Removing c t' where
  moved := ha.onward.locks _ H.moved
  member c' u := by
    rw [ha.row_writes (by simp [Key.listing])]
    exact H.member c' u
  index u c' := by
    rw [ha.mem_writes (by simp [Key.listing])]
    exact H.index u c'

theorem deleteCustomerMembership_removing (H : Removing c t) (id : Uuid) :
    Safe indexKept p (fun _ _ t' => Removing c t') Anyhow (deleteCustomerMembership id) h t := by
  unfold deleteCustomerMembership
  refine unlisting_bind (Only.bind (Writes.getForUpdate _) fun found => ?_)
    fun found h₁ t₁ ha₁ => ?_
  · dsimp only
    split
    · exact Only.bind (Writes.delete rfl) fun _ => Only.pure _
    · exact Only.pure _
  have H₁ := H.apart ha₁
  split
  · exact H₁
  · rename_i m
    refine (Safe.delete (M := Call.Minor) _).mono ?_ fun _ _ _ _ => trivial
    rintro - h₂ t₂ ⟨-, ho, rfl⟩
    refine ⟨ho.locks _ H₁.moved, fun c' u => ?_, fun u c' hmem => ?_⟩
    · by_cases hk : Key.customerMember m.customerId m.userId = .customerMember c' u
      · obtain ⟨rfl, rfl⟩ := Key.customerMember.inj hk
        exact row_cons_self ..
      · exact (row_cons_ne _ _ hk).trans (H₁.member c' u)
    · rcases List.mem_cons.1 hmem with hk | hmem
      · cases hk
      · exact H₁.index u c' hmem

/-- A scan for a user's membership meets all. -/
theorem not_member_of_membershipOf {db : Db} {c u id : Uuid} {m : CustomerMembership}
    (hnone : membershipOf db c u = none) (hm : row db (.customerMembership id) = some m) :
    ¬ (m.customerId = c ∧ m.userId = u) := by
  intro hboth
  have hnil := List.head?_eq_none_iff.1 hnone
  have hmem : m ∈ ([] : List CustomerMembership) := by
    rw [← hnil]
    exact mem_collect.2 ⟨.customerMembership id, m, hm, if_pos hboth⟩
  cases hmem

/-- **An index row is dropped under the chain tip**, once no membership was found. -/
theorem unindexCustomer_listed (H : Removing c t) (u : Uuid) :
    Safe indexKept p (fun _ => Listed) Anyhow (unindexCustomer u c) h t := by
  unfold unindexCustomer
  refine Safe.bind ((Safe.view (M := Call.Minor)).mono (fun _ _ _ => id)
    fun _ _ _ _ => trivial) ?_
  rintro _ h₁ t₁ ⟨rfl, -, -, rfl, -⟩
  split
  · rename_i hnone
    have hseen : ∀ id m, row (committed h₁) (.customerMembership id) = some m →
        m.customerId = c → m.userId = u → .customerMembership id ∈ keys t₁.writes := by
      intro id m hrow hc hu
      by_contra hmem
      have hview : row (t₁.view (committed h₁)) (.customerMembership id) = some m :=
        (row_append_of_notMem _ hmem).trans hrow
      exact not_member_of_membershipOf (Option.isNone_iff_eq_none.1 hnone) hview ⟨hc, hu⟩
    refine unlisting_bind (Writes.get _) fun index h₂ t₂ ha₂ => ?_
    split
    · refine Safe.bind (B := fun _ => Listed) ?_ fun _ _ _ hl => hl
      refine unlisting_bind (Writes.getForUpdate _) fun found h₃ t₃ ha₃ => ?_
      have ha := ha₂.trans ha₃
      have H₃ := H.apart ha
      dsimp only
      split
      · refine Safe.bind ((Safe.delete (M := Call.Minor) _).mono (Q := fun _ => Listed) ?_
          fun _ _ _ _ => trivial) fun _ _ _ hl => hl
        rintro - h₄ t₄ ⟨-, ho, rfl⟩
        refine ⟨fun c' u' hrow => ?_, fun u' c' hmem hrow => ?_⟩
        · rw [show row (t₃.write [⟨.userCustomerIndex u c, none⟩]).writes (.customerMember c' u') =
            none from (row_cons_ne _ _ (by simp)).trans (H₃.member c' u')] at hrow
          cases hrow
        · rcases List.mem_cons.1 hmem with hk | hmem
          · obtain ⟨rfl, rfl⟩ := Key.userCustomerIndex.inj hk
            refine ⟨ho.locks _ H₃.moved, h₁, ?_, fun id m hrow hc hu => ?_⟩
            · exact (ha.onward.unmoved H.moved).trans (ho.unmoved H₃.moved)
            · exact List.mem_cons_of_mem _ (ha.keys_writes _ (hseen id m hrow hc hu))
          · exact absurd hmem (H₃.index u' c')
      · exact H₃.listed h₃
    · exact (H.apart ha₂).listed h₂
  · exact H.listed h₁

variable [Sha256]

theorem removeCustomerMember_listed {h₀ : Hist} (ha : Apart (·.listing = false) p h₀ {} h t)
    (id : Uuid) (loaded : CustomerMembership) (actor : String) :
    Safe indexKept p (fun _ => Listed) Anyhow (removeCustomerMember id loaded actor) h t := by
  unfold removeCustomerMember
  refine unlisting_bind (assertNotLastOwner_tidy ..).only fun _ h₁ t₁ ha₁ => ?_
  refine unlisting_bind Writes.select fun db h₂ t₂ ha₂ => ?_
  refine unlisting_bind (deleteWorkspaceMemberships_unlisting _) fun _ h₃ t₃ ha₃ => ?_
  refine unlisting_bind Writes.uuid4 fun traceId h₄ t₄ ha₄ => ?_
  refine Safe.bind (recordAuditEvent_moves _ _ _ _ _ _) ?_
  rintro event h₅ t₅ ⟨ha₅, hs₅, hmoved⟩
  have ha₀ := ((((ha.trans ha₁).trans ha₂).trans ha₃).trans ha₄).trans ha₅
  have H₅ : Removing loaded.customerId t₅ := by
    refine ⟨hs₅ _ hmoved, fun c' u => ?_, fun u c' => ?_⟩
    · rw [ha₀.row_writes (by simp [Key.listing])]
      rfl
    · rw [ha₀.mem_writes (by simp [Key.listing])]
      exact List.not_mem_nil
  exact Safe.bind (deleteCustomerMembership_removing H₅ id) fun _ h₆ t₆ H₆ =>
    unindexCustomer_listed H₆ _

end Removals

/-! ## Requests -/

section Requests

variable {p : ℕ} {h : Hist} {α : Type}

/-- Such a transaction keeps the contract when it commits. -/
theorem atomically_listed {m : Session α}
    (H : Safe indexKept p (fun _ => Listed) Anyhow m h {}) :
    Safe indexKept p (fun _ _ t => t = {}) Anyhow (atomically m) h {} := by
  refine Safe.atomically (fun _ => Listed) Anyhow H ?_ fun _ _ _ _ _ _ _ => trivial
  intro a h₁ t₁ hl h₂ ho _ _
  have hl₂ := hl.apart (.others ho)
  refine ⟨fun _ => ⟨⟨hl₂.guarded, fun u c hmem hnone => (hl₂.vacated u c hmem hnone).2⟩, rfl,
    ?_⟩, ?_⟩
  · exact fun _ _ _ => trivial
  · exact fun _ _ _ => trivial

theorem unlisting_listed {m : Session α} (hm : Unlisting m) :
    Safe indexKept p (fun _ _ t => t = {}) Anyhow (atomically m) h {} :=
  atomically_listed ((Listed.empty h).unlisting hm)

variable [Sha256]

theorem handleWorkspace_unlisting (context : WorkspaceContext) (command : WorkspaceCommand) :
    Unlisting (handleWorkspace context command) := by
  cases command with
  | addMember id role => exact addMember_unlisting context id role
  | changeMemberRole id role => exact changeWorkspaceMember_unlisting context id role
  | removeMember id => exact removeWorkspaceMember_unlisting context id
  | archive => exact archiveCurrentWorkspace_unlisting context

theorem handleCustomer_listed {h₀ : Hist} {t : DbTx}
    (ha : Apart (·.listing = false) p h₀ {} h t) (context : CustomerContext)
    (command : CustomerCommand) :
    Safe indexKept p (fun _ => Listed) Anyhow (handleCustomer context command) h t := by
  cases command with
  | invite userId role =>
    refine unlisting_bind (authorizeManageCustomerMembers_unlisting _) fun _ h₁ t₁ ha₁ => ?_
    refine unlisting_bind (Writes.get _) fun invitee h₂ t₂ ha₂ => ?_
    cases invitee with
    | none => trivial
    | some invitee =>
      refine Safe.bind (inviteCustomerMember_listed ?_ userId role _) fun _ _ _ hl => hl
      exact (((Enlisting.empty _).apart ha).apart ha₁).apart ha₂
  | changeRole id role =>
    exact ((Listed.empty h₀).apart ha).unlisting (changeMemberRole_unlisting context id role)
  | remove id =>
    refine unlisting_bind (authorizeManageCustomerMembers_unlisting _) fun _ h₁ t₁ ha₁ => ?_
    refine unlisting_bind (getCustomerMembership_unlisting ..) fun m h₂ t₂ ha₂ => ?_
    exact Safe.bind (removeCustomerMember_listed ((ha.trans ha₁).trans ha₂) id m _)
      fun _ _ _ hl => hl

/-- **Every request keeps the index.** -/
theorem serveMemberships_safe (r : MembershipRequest) (p : ℕ) (h : Hist) :
    Safe indexKept p (fun _ _ _ => True) Anyhow (serveMemberships r) h {} := by
  have hdone : ∀ {m : Session MembershipReply} {h : Hist},
      Safe indexKept p (fun _ _ t => t = {}) Anyhow m h {} →
        Safe indexKept p (fun _ _ _ => True) Anyhow m h {} := fun H =>
    H.mono (fun _ _ _ _ => trivial) fun _ _ _ _ => trivial
  cases r with
  | createCustomer customerId name ownerUserId actorId =>
    refine hdone (atomically_listed ?_)
    exact Safe.bind (createCustomerWithOwner_listed _ _ _ _) fun _ _ _ hl => hl
  | createWorkspace customerId name actorId =>
    refine hdone (unlisting_listed ?_)
    exact Only.bind (createWorkspace_unlisting ..) fun _ => Only.pure _
  | customer who customerId command =>
    refine Safe.bind (atomically_listed (m := do
      let context ← getCustomerContext who.userId customerId
      handleCustomer context command) ?_) fun _ _ _ _ => trivial
    exact unlisting_bind (getCustomerContext_writes ..) fun context h₁ t₁ ha₁ =>
      handleCustomer_listed ha₁ context command
  | workspace who workspaceId command =>
    refine Safe.bind (unlisting_listed (Writes.get _)) ?_
    rintro index h₁ _ rfl
    cases index with
    | none => trivial
    | some tenant =>
      refine hdone (unlisting_listed ?_)
      exact Only.bind (getWorkspaceContext_writes ..) fun context =>
        handleWorkspace_unlisting context command
  | restore who workspaceId =>
    refine Safe.bind (unlisting_listed (Writes.get _)) ?_
    rintro index h₁ _ rfl
    cases index with
    | none => trivial
    | some tenant =>
      refine hdone (unlisting_listed ?_)
      exact Only.bind (getWorkspaceContextAllowArchived_tidy ..).only fun context =>
        restoreCurrentWorkspace_unlisting context
  | housekeeping rows =>
    refine Safe.bind (unlisting_listed (keepHouseAll_tidy _ fun v hv => ?_).only)
      fun _ _ _ _ => trivial
    obtain ⟨v, -, rfl⟩ := List.mem_map.1 hv
    have hbelong := v.2.2
    revert hbelong
    cases v.1.1 <;> simp [Key.belonging, Key.listing]

end Requests

/-! ## Every run -/

section Runs

variable [Sha256] {h : Hist} {p : ℕ} {w : Db}

/-- A commit that drops an index row and deletes the membership it is of drops that too. -/
theorem member_mem_keys {u c id : Uuid} (hc : Commits serveMemberships h p w)
    (hu : MembersUnique (committed h))
    (hkey : row (committed h) (.customerMember c u) = some id)
    (hindex : .userCustomerIndex u c ∈ keys w) (hnone : row w (.userCustomerIndex u c) = none)
    (hmem : .customerMembership id ∈ keys w) : .customerMember c u ∈ keys w := by
  have hst := membershipStep_of_commits hc hc.answered.seen
  have hbelong : ∀ {k : Key}, k.belonging = true → k ∈ keys w → k ∈ keys (belonging w) := by
    intro k hk hmem
    obtain ⟨v, hv, rfl⟩ := List.mem_map.1 hmem
    exact List.mem_map.2 ⟨v, List.mem_filter.2 ⟨hv, hk⟩, rfl⟩
  have hindex := hbelong rfl hindex
  have hmem := hbelong rfl hmem
  have hnone : row (belonging w) (.userCustomerIndex u c) = none := by
    have hrow := row_belonging (k := .userCustomerIndex u c) rfl w []
    rw [List.append_nil, List.append_nil] at hrow
    exact hrow.trans hnone
  have hsub : ∀ k ∈ keys (belonging w), k ∈ keys w := by
    intro k hk
    obtain ⟨v, hv, rfl⟩ := List.mem_map.1 hk
    exact List.mem_map.2 ⟨v, (List.mem_filter.1 hv).1, rfl⟩
  refine hsub _ ?_
  generalize belonging w = ws at hst hindex hmem hnone
  cases hst with
  | idle => cases hindex
  | removed id' m gone found unindexed hloaded hgone hfound =>
    rw [keys_append, keys_append, List.mem_append, List.mem_append] at hmem ⊢
    cases found with
    | none =>
      rcases hmem with hmem | hmem | hmem
      · cases unindexed <;> simp [unindexedVersions] at hmem
      · cases hmem
      · cases keys_cleared hmem
    | some m' =>
      obtain rfl : id = id' := by
        rcases hmem with hmem | hmem | hmem
        · cases unindexed <;> simp [unindexedVersions] at hmem
        · simpa [droppedVersions] using hmem
        · cases keys_cleared hmem
      obtain ⟨m₁, hm₁, rfl, rfl⟩ := (hu id c u).1 hkey
      obtain rfl := Option.some.inj ((hfound m' rfl).symm.trans hm₁)
      exact .inr (.inl (by simp [droppedVersions]))
  | customerCreated cid customer memberId m =>
    simp [indexVersions, memberVersions] at hindex
    obtain ⟨rfl, rfl⟩ := hindex
    simp [indexVersions] at hnone
  | invited memberId m found =>
    cases found with
    | none =>
      simp [indexVersions, memberVersions] at hindex
      obtain ⟨rfl, rfl⟩ := hindex
      simp [indexVersions] at hnone
    | some x => simp [indexVersions, memberVersions] at hindex
  | memberRemoved gone => cases keys_cleared hindex
  | workspaceCreated | roleChanged | memberAdded | memberRoleChanged | archived => simp at hindex

/-- **No commit drops the index row of a member.** -/
theorem not_reinvited (hv : (faithful serveMemberships).Valid h) (hk : indexKept.Valid h)
    (hc : Commits serveMemberships h p w) (hok : indexKept.commitOk h p w) :
    ¬ Reinvited w h := by
  rintro ⟨k, hmem, hk'⟩
  cases k with
  | userCustomerIndex u c =>
    obtain ⟨hnone, hsome, hkey⟩ := hk'
    obtain ⟨id, hid⟩ := Option.isSome_iff_exists.1 hsome
    obtain ⟨h₀, hunmoved, hseen⟩ := hok.2 u c hmem hnone
    -- under the tip the membership was already there when none was found
    have hid₀ : row (committed h₀) (.customerMember c u) = some id := by
      rcases hunmoved.row_eq_or (indexKept_guards c u) hk with heq | heq
      · exact heq.symm.trans hid
      · rw [hid] at heq
        cases heq
    have hu₀ := membersUnique_of_valid (hv.suffix hunmoved.suffix)
    obtain ⟨m, hm, hmc, hmu⟩ := (hu₀ id c u).1 hid₀
    exact hkey (member_mem_keys hc (membersUnique_of_valid hv) hid hmem hnone
      (hseen id m hm hmc hmu))
  | _ => exact hk'

theorem unreinvited_of_valid (hv : (faithful serveMemberships).Valid h)
    (hk : indexKept.Valid h) : Always (fun _ w h => ¬ Reinvited w h) h := by
  induction h with
  | nil => trivial
  | cons ev h ih =>
    have ih := ih hv.2 hk.2
    cases ev with
    | committed p w => exact ⟨not_reinvited hv.2 hk.2 hv.1 hk.1, ih⟩
    | ran | called | failed | rolledBack | crashed => exact ih

variable {s : Sys Row Answer Err MembershipReply MembershipRequest}

theorem unreinvited_of_reachable (hs : Reachable serveMemberships s) :
    Always (fun _ w h => ¬ Reinvited w h) s.hist :=
  unreinvited_of_valid hs.faithful (hs.safe fun r p h _ _ => serveMemberships_safe r p h).valid

/-- **The bootstrap index mirrors the memberships** in every state of every run in which `uuid4`
never answers an id twice. -/
theorem index_mirrors (hs : Reachable serveMemberships s) (hn : (minted s.hist).Nodup) {h : Hist}
    (hh : h <:+ s.hist) : IndexMirrors (committed h) :=
  indexMirrors_of_valid hs.faithful hn (unreinvited_of_reachable hs) h hh

end Runs

/-! ## A sample run -/

section Sample

attribute [local instance] sampleSha

/-- Users 3 and 4. -/
def twoUsers : List { v : Version Row // v.1.housekeeping = true ∧ v.1.belonging = false } :=
  [⟨⟨.user 3, some ⟨"Ann"⟩⟩, Eq.refl true, Eq.refl false⟩,
    ⟨⟨.user 4, some ⟨"Bob"⟩⟩, Eq.refl true, Eq.refl false⟩]

/-- User 3 removes user 4 twice at once, and invites them again before the first removal has
gone on. -/
def removedTwice : Option (Sys Row Answer Err MembershipReply MembershipRequest) :=
  runAll serveMemberships {} (.start (.housekeeping twoUsers) :: Act.runs 0 sampleAnswer 100 3 ++
    .start (.createCustomer 7 "Doda" 3 "system") :: Act.runs 1 sampleAnswer 103 13 ++
    .start (.customer ⟨3, .AAL1⟩ 7 (.invite 4 .MEMBER)) :: Act.runs 2 sampleAnswer 116 16 ++
    .start (.customer ⟨3, .AAL1⟩ 7 (.remove 119)) :: Act.runs 3 sampleAnswer 132 3 ++
    .start (.customer ⟨3, .AAL1⟩ 7 (.remove 119)) :: Act.runs 4 sampleAnswer 135 20 ++
    .start (.customer ⟨3, .AAL1⟩ 7 (.invite 4 .MEMBER)) :: Act.runs 5 sampleAnswer 155 16 ++
    Act.runs 3 sampleAnswer 171 12)

/-- The late removal leaves the new member in the index. -/
theorem index_mirrors_sample : ∃ s, removedTwice = some s ∧
    HasMembership (committed s.hist) 4 7 ∧
      (row (committed s.hist) (.customerMembership 119)).isNone := by
  have hrun : (removedTwice.any fun s => (minted s.hist).Nodup ∧
      (row (committed s.hist) (.userCustomerIndex 4 7)).isSome ∧
      (row (committed s.hist) (.customerMembership 119)).isNone) = true := by
    decide +kernel
  obtain ⟨s, hst, hs⟩ := (Option.any_eq_true _ _).1 hrun
  obtain ⟨hn, hindex, hgone⟩ := of_decide_eq_true hs
  exact ⟨s, hst,
    (index_mirrors (Reachable.init.runAll hst) hn (List.suffix_refl _) 4 7).1 hindex, hgone⟩

end Sample

end Doda
