import Doda.Api.WorkspaceAdmin
import Doda.Application.Writes

/-!
# What changes who belongs where

Every transaction that changes the members of a customer or of a workspace, or the
workspaces themselves, has done one of a few things when it commits.

## Main definitions

* `Clears`, `Drops`, `Unindexes` — the three parts of a removal.
* `MembershipDeed` — the events of a transaction that commits.

## Main results

* `serveMemberships_deed` — every transaction of the system.
-/

namespace Doda

open ReadCommitted

/-! ## Deeds -/

/-- It deleted these workspace memberships with what their unique constraint holds, and found
others gone. -/
inductive Clears (p : ℕ) : List (Uuid × WorkspaceMembership) → Hist → Hist → Prop
  | nil (evs : Hist) : Clears p [] evs evs
  | missing (id : Uuid) {gone : List (Uuid × WorkspaceMembership)} {evs evs' : Hist}
      (hrest : Clears p gone (.ran p (.forUpdate (.workspaceMembership id)) none :: evs) evs') :
    Clears p gone evs evs'
  | deleted (id : Uuid) (m : WorkspaceMembership) {gone : List (Uuid × WorkspaceMembership)}
      {evs evs' : Hist}
      (hrest : Clears p gone (.ran p (.delete (.workspaceMember m.customerMembershipId
        m.workspaceId)) () :: .ran p (.delete (.workspaceMembership id)) () ::
        .ran p (.forUpdate (.workspaceMembership id)) (some m) :: evs) evs') :
    Clears p ((id, m) :: gone) evs evs'

/-- It deleted a customer membership, or found it gone. -/
inductive Drops (p : ℕ) (id : Uuid) : Option CustomerMembership → Hist → Hist → Prop
  | missing (evs : Hist) :
    Drops p id none evs (.ran p (.forUpdate (.customerMembership id)) none :: evs)
  | deleted (m : CustomerMembership) (evs : Hist) :
    Drops p id (some m) evs (.ran p (.delete (.customerMember m.customerId m.userId)) () ::
      .ran p (.delete (.customerMembership id)) () ::
      .ran p (.forUpdate (.customerMembership id)) (some m) :: evs)

/-- It looked for a membership that the user has left, and dropped the index row if there is
none. -/
inductive Unindexes (p : ℕ) (userId customerId : Uuid) : Bool → Hist → Hist → Prop
  | remaining {db : Db} (hleft : (membershipOf db customerId userId).isSome) (evs : Hist) :
    Unindexes p userId customerId false evs (.ran p .view db :: evs)
  | unlisted (db : Db) (evs : Hist) :
    Unindexes p userId customerId false evs
      (.ran p (.get (.userCustomerIndex userId customerId)) none :: .ran p .view db :: evs)
  | gone (db : Db) (evs : Hist) :
    Unindexes p userId customerId false evs
      (.ran p (.forUpdate (.userCustomerIndex userId customerId)) none ::
        .ran p (.get (.userCustomerIndex userId customerId)) (some ()) :: .ran p .view db :: evs)
  | dropped (db : Db) (evs : Hist) :
    Unindexes p userId customerId true evs
      (.ran p (.delete (.userCustomerIndex userId customerId)) () ::
        .ran p (.forUpdate (.userCustomerIndex userId customerId)) (some ()) ::
        .ran p (.get (.userCustomerIndex userId customerId)) (some ()) :: .ran p .view db :: evs)

/-- It looked for the index row of a new member, and inserted it if there is none. -/
def indexed (p : ℕ) (userId customerId : Uuid) (found : Option Unit) (evs : Hist) : Hist :=
  match found with
  | none => .ran p (.insert [⟨.userCustomerIndex userId customerId, ()⟩]) () ::
      .ran p (.get (.userCustomerIndex userId customerId)) none :: evs
  | some () => .ran p (.get (.userCustomerIndex userId customerId)) (some ()) :: evs

/-- A process went on and wrote other tables only. -/
abbrev Elsewhere (p : ℕ) (evs evs' : Hist) : Prop := Moved (·.belonging = false) p evs evs'

/-- A process went on and wrote nothing. -/
abbrev Looked (p : ℕ) (evs evs' : Hist) : Prop := Moved (fun _ => False) p evs evs'

/-- The rows of a new member. -/
def memberRows (id : Uuid) (m : CustomerMembership) : List (Entry Row) :=
  [⟨.customerMembership id, m⟩, ⟨.customerMember m.customerId m.userId, id⟩]

/-- The rows of a new member of a workspace. -/
def workspaceMemberRows (id : Uuid) (m : WorkspaceMembership) : List (Entry Row) :=
  [⟨.workspaceMembership id, m⟩, ⟨.workspaceMember m.customerMembershipId m.workspaceId, id⟩]

/-- The events of a transaction that commits. -/
inductive MembershipDeed (p : ℕ) : Hist → Prop
  | aside {evs : Hist} (h : Elsewhere p [] evs) : MembershipDeed p evs
  | customerCreated {id : Uuid} {customer : Customer} {memberId : Uuid} (m : CustomerMembership)
      {evs : Hist} (hid : m.customerId = id)
      (h : Elsewhere p (.ran p (.insert [⟨.userCustomerIndex m.userId m.customerId, ()⟩]) () ::
        .ran p (.insert (memberRows memberId m)) () :: .called p .uuid4 memberId ::
        .ran p (.insert [⟨.customer id, customer⟩]) () :: []) evs) : MembershipDeed p evs
  | workspaceCreated {id traceId : Uuid} (w : Workspace) {evs : Hist} (hopen : w.archivedAt = none)
      (h : Elsewhere p (.ran p (.insert [⟨.workspaceTenantIndex id, w.customerId⟩]) () ::
        .called p .uuid4 traceId :: .ran p (.insert [⟨.workspace id, w⟩]) () ::
        .called p .uuid4 id :: []) evs) : MembershipDeed p evs
  | invited {customer : Customer} {id : Uuid} (m : CustomerMembership) {found : Option Unit}
      {evs₀ evs : Hist} (h₀ : Looked p [] evs₀)
      (hcustomer : .ran p (.get (.customer m.customerId)) (some customer) ∈ evs₀)
      (h : Elsewhere p (indexed p m.userId m.customerId found (.ran p (.tryInsert (memberRows id m))
        true :: .called p .uuid4 id :: evs₀)) evs) : MembershipDeed p evs
  | roleChanged {id : Uuid} {role : CustomerRole} {evs₀ evs : Hist} (h₀ : Looked p [] evs₀)
      (h : Elsewhere p (.ran p (.update (.customerMembership id)
        fun m => { m with role := role }) () :: evs₀) evs) : MembershipDeed p evs
  | removed {id : Uuid} {m : CustomerMembership} {gone : List (Uuid × WorkspaceMembership)}
      {found : Option CustomerMembership} {unindexed : Bool} {evs₀ evs₁ evs₂ evs₃ evs : Hist}
      (h₀ : Looked p [] evs₀)
      (hloaded : .ran p (.get (.customerMembership id)) (some m) ∈ evs₀)
      (h₁ : Clears p gone evs₀ evs₁) (h₂ : Elsewhere p evs₁ evs₂) (h₃ : Drops p id found evs₂ evs₃)
      (h : Unindexes p m.userId m.customerId unindexed evs₃ evs) : MembershipDeed p evs
  | memberAdded {id : Uuid} (m : WorkspaceMembership) {w : Workspace} {c : CustomerMembership}
      {evs₀ evs : Hist} (h₀ : Looked p [] evs₀)
      (hworkspace : .ran p (.get (.workspace m.workspaceId)) (some w) ∈ evs₀)
      (hmember : .ran p (.get (.customerMembership m.customerMembershipId)) (some c) ∈ evs₀)
      (hw : w.customerId = m.customerId) (hc : c.customerId = m.customerId)
      (hrole : c.role ≠ .AUDITOR)
      (h : Elsewhere p (.ran p (.tryInsert (workspaceMemberRows id m)) true ::
        .called p .uuid4 id :: evs₀) evs) : MembershipDeed p evs
  | memberRoleChanged {id : Uuid} {role : WorkspaceRole} {evs₀ evs : Hist} (h₀ : Looked p [] evs₀)
      (h : Elsewhere p (.ran p (.update (.workspaceMembership id)
        fun m => { m with role := role }) () :: evs₀) evs) : MembershipDeed p evs
  | memberRemoved {gone : List (Uuid × WorkspaceMembership)} {evs₀ evs : Hist}
      (h₀ : Elsewhere p [] evs₀) (h : Clears p gone evs₀ evs) : MembershipDeed p evs
  | archived {id : Uuid} {archivedAt : Option Time} {evs₀ evs : Hist} (h₀ : Looked p [] evs₀)
      (h : Elsewhere p (.ran p (.update (.workspace id) (·.setArchivedAt archivedAt)) () :: evs₀)
        evs) : MembershipDeed p evs

theorem Looked.elsewhere {p : ℕ} {evs evs' : Hist} (h : Looked p evs evs') :
    Elsewhere p evs evs' :=
  h.mono (fun _ hq => hq.mono fun _ hk => hk.elim) fun _ he => he

/-! ## Deletions -/

section Walks

variable {p : ℕ} {evs : Hist}

theorem deleteWorkspaceMembership_inside (id : Uuid) :
    Inside p (fun _ evs' => ∃ gone, Clears p gone (openOf evs) (openOf evs'))
      (deleteWorkspaceMembership id) evs := by
  refine Inside.bind (B := fun found evs' => found.elim
    (openOf evs' = .ran p (.forUpdate (.workspaceMembership id)) none :: openOf evs)
    fun m => openOf evs' = .ran p (.delete (.workspaceMembership id)) () ::
      .ran p (.forUpdate (.workspaceMembership id)) (some m) :: openOf evs) ?_ ?_
  · refine Inside.run_bind fun found => ?_
    cases found with
    | none => exact rfl
    | some m => exact Inside.run_bind fun _ => rfl
  · intro found evs' hfound
    cases found with
    | none =>
      refine ⟨[], .missing id ?_⟩
      rw [show openOf evs' = _ from hfound]
      exact .nil _
    | some m =>
      refine Inside.run fun _ => ⟨[(id, m)], .deleted id m ?_⟩
      rw [openOf_ran, hfound]
      exact .nil _

theorem Clears.trans {gone gone' : List (Uuid × WorkspaceMembership)} {evs evs' evs'' : Hist}
    (h : Clears p gone evs evs') (h' : Clears p gone' evs' evs'') :
    Clears p (gone ++ gone') evs evs'' := by
  induction h with
  | nil => exact h'
  | missing id _ ih => exact .missing id (ih h')
  | deleted id m _ ih => exact .deleted id m (ih h')

theorem deleteWorkspaceMemberships_inside (ids : List Uuid) :
    Inside p (fun _ evs' => ∃ gone, Clears p gone (openOf evs) (openOf evs'))
      (deleteWorkspaceMemberships ids) evs := by
  induction ids generalizing evs with
  | nil => exact ⟨[], .nil _⟩
  | cons id ids ih =>
    refine Inside.bind (deleteWorkspaceMembership_inside id) ?_
    rintro _ evs₁ ⟨gone, h₁⟩
    refine ih.mono ?_
    rintro _ evs₂ ⟨gone', h₂⟩
    exact ⟨gone ++ gone', h₁.trans h₂⟩

theorem deleteCustomerMembership_inside (id : Uuid) :
    Inside p (fun _ evs' => ∃ found, Drops p id found (openOf evs) (openOf evs'))
      (deleteCustomerMembership id) evs := by
  refine Inside.bind (B := fun found evs' => found.elim
    (openOf evs' = .ran p (.forUpdate (.customerMembership id)) none :: openOf evs)
    fun m => openOf evs' = .ran p (.delete (.customerMembership id)) () ::
      .ran p (.forUpdate (.customerMembership id)) (some m) :: openOf evs) ?_ ?_
  · refine Inside.run_bind fun found => ?_
    cases found with
    | none => exact rfl
    | some m => exact Inside.run_bind fun _ => rfl
  · intro found evs' hfound
    cases found with
    | none =>
      refine ⟨none, ?_⟩
      rw [hfound]
      exact .missing _
    | some m =>
      refine Inside.run fun _ => ⟨some m, ?_⟩
      rw [openOf_ran, hfound]
      exact .deleted m _

theorem unindexCustomer_inside (userId customerId : Uuid) :
    Inside p (fun _ evs' => ∃ unindexed,
        Unindexes p userId customerId unindexed (openOf evs) (openOf evs'))
      (unindexCustomer userId customerId) evs := by
  refine Inside.run_bind fun db => ?_
  split
  · refine Inside.run_bind fun found => ?_
    cases found with
    | none => exact ⟨false, .unlisted db _⟩
    | some u =>
      refine Inside.bind (B := fun _ evs' => ∃ unindexed,
        Unindexes p userId customerId unindexed (openOf evs) (openOf evs')) ?_ fun _ _ h => h
      refine Inside.run_bind fun found => ?_
      cases found with
      | none => exact ⟨false, .gone db _⟩
      | some u => exact Inside.run_bind fun _ => ⟨true, .dropped db _⟩
  · rename_i hleft
    exact ⟨false, .remaining (by simpa [Option.isSome_iff_ne_none] using hleft) _⟩

/-! ## The handlers -/

variable {P : Key → Prop}

theorem Looked.trans {evs' evs'' : Hist} (h : Looked p evs evs') (h' : Looked p evs' evs'') :
    Looked p evs evs'' :=
  Went.trans h h'

theorem Looked.get {evs' : Hist} (h : Looked p evs evs') (k : Key) (x : Option (Row k)) :
    Looked p evs (.ran p (.get k) x :: evs') :=
  h.ran trivial

/-- A customer request is admitted with its customer read. -/
theorem getCustomerContext_inside (userId customerId : Uuid) :
    Inside p (fun context evs' => Looked p (openOf evs) (openOf evs') ∧
        context.customerId = customerId ∧ ∃ customer : Customer,
          .ran p (.get (.customer customerId)) (some customer) ∈ openOf evs')
      (getCustomerContext userId customerId) evs := by
  refine Inside.run_bind fun found => ?_
  cases found with
  | none => trivial
  | some customer =>
    refine Inside.run_bind fun db => ?_
    split
    · trivial
    · refine ⟨?_, rfl, customer, ?_⟩
      · exact ((Went.refl _).ran trivial).ran trivial
      · exact List.mem_cons_of_mem _ (List.mem_cons_self ..)

theorem authorizeManageCustomerMembers_tidy (context : CustomerContext) :
    Tidy P (authorizeManageCustomerMembers context) := by
  unfold authorizeManageCustomerMembers
  split
  · exact Neat.pure _
  · exact Neat.throw _

theorem countLocked_tidy (customerId : Uuid) (ids : List Uuid) :
    Tidy P (countLocked customerId ids) := by
  induction ids with
  | nil => exact Neat.pure _
  | cons id ids ih =>
    exact Neat.bind (Tidy.getForUpdate _) fun _ => Neat.bind ih fun _ => Neat.pure _

theorem assertNotLastOwner_tidy (asked : Prop) [Decidable asked] (customerId : Uuid)
    (reason : String) : Tidy P (assertNotLastOwner asked customerId reason) := by
  unfold assertNotLastOwner
  split
  · refine Neat.bind (Neat.bind Tidy.select fun db => Neat.bind (Tidy.scanOrder _) fun order =>
      countLocked_tidy ..) fun n => ?_
    split
    · exact Neat.throw _
    · exact Neat.pure _
  · exact Neat.pure _

/-- A membership is loaded. -/
theorem getCustomerMembership_inside (context : CustomerContext) (id : Uuid) :
    Inside p (fun m evs' => openOf evs' =
        .ran p (.get (.customerMembership id)) (some m) :: openOf evs)
      (getCustomerMembership context id) evs := by
  refine Inside.run_bind fun found => ?_
  split
  · trivial
  · rename_i m hm
    rw [(Option.filter_eq_some_iff.1 hm).1]
    exact rfl

variable [Sha256]

/-- Auditing writes other tables. -/
theorem recordAuditEvent_elsewhere (c : Uuid) (w : Option Uuid) (t : Uuid) (a e : String)
    (m : Json) : Tidy (·.belonging = false) (recordAuditEvent c w t a e m) :=
  (recordAuditEvent_tidy ..).weaken fun k hk => by
    cases k <;> first | rfl | cases hk

/-- What is left to do after the deed. -/
theorem MembershipDeed.audited {α : Type} {c : Uuid} {w : Option Uuid} {a e : String}
    {m : Uuid → Json} {D : α → Hist → Prop} {evs : Hist} {r : AuditEvent → α}
    (H : ∀ event evs', Elsewhere p (openOf evs) (openOf evs') → D (r event) evs') :
    Inside p D (do
      let traceId ← Session.uuid4
      let event ← recordAuditEvent c w traceId a e (m traceId)
      return r event) evs := by
  refine Inside.call_bind fun traceId => ?_
  refine (recordAuditEvent_elsewhere ..).inside_bind fun event evs' h => H event evs' ?_
  exact (h.of_called trivial).openOf

theorem createCustomerWithOwner_inside (customerId : Uuid) (name : String) (ownerUserId : Uuid)
    (actorId : String) (hevs : openOf evs = []) :
    Inside p (fun _ evs' => MembershipDeed p (openOf evs'))
      (createCustomerWithOwner customerId name ownerUserId actorId) evs := by
  refine Inside.run_bind fun _ => Inside.call_bind fun id => Inside.run_bind fun _ => ?_
  refine Inside.run_bind fun _ => MembershipDeed.audited fun event evs' h => ?_
  rw [openOf_ran, openOf_ran, openOf_called, openOf_ran, hevs] at h
  exact .customerCreated ⟨customerId, ownerUserId, .CUSTOMER_OWNER⟩ rfl h

theorem createWorkspace_inside (customerId : Uuid) (name actorId : String)
    (hevs : openOf evs = []) :
    Inside p (fun _ evs' => MembershipDeed p (openOf evs'))
      (createWorkspace customerId name actorId) evs := by
  refine Inside.call_bind fun id => Inside.run_bind fun _ => Inside.call_bind fun traceId => ?_
  refine Inside.run_bind fun _ => ?_
  refine (recordAuditEvent_elsewhere ..).inside_bind fun event evs' h => ?_
  have h := h.openOf
  rw [openOf_ran, openOf_called, openOf_ran, openOf_called, hevs] at h
  exact .workspaceCreated { customerId, name } rfl h

theorem inviteMember_inside {context : CustomerContext} {customer : Customer} (userId : Uuid)
    (role : CustomerRole) (hevs : Looked p [] (openOf evs))
    (hcustomer : .ran p (.get (.customer context.customerId)) (some customer) ∈ openOf evs) :
    Inside p (fun _ evs' => MembershipDeed p (openOf evs')) (inviteMember context userId role)
      evs := by
  refine (authorizeManageCustomerMembers_tidy (P := fun _ => False) _).inside_bind
    fun _ evs₁ h₁ => Inside.run_bind fun invitee => ?_
  cases invitee with
  | none => trivial
  | some invitee =>
  have hlooked : Looked p [] (openOf (.ran p (.get (.user userId)) (some invitee) :: evs₁)) :=
    (hevs.trans h₁.openOf).ran trivial
  have hread : .ran p (.get (.customer context.customerId)) (some customer) ∈
      openOf (.ran p (.get (.user userId)) (some invitee) :: evs₁) :=
    List.mem_cons_of_mem _ (h₁.openOf.suffix.subset hcustomer)
  refine Inside.bind (B := fun _ evs' => MembershipDeed p (openOf evs')) ?_ fun _ _ h => h
  refine Inside.call_bind fun id => Inside.run_bind fun inserted => ?_
  cases inserted with
  | false => trivial
  | true =>
  refine Inside.bind (B := fun _ evs' => ∃ found, openOf evs' = indexed p userId context.customerId
    found (.ran p (.tryInsert (memberRows id ⟨context.customerId, userId, role⟩)) true ::
      .called p .uuid4 id :: openOf (.ran p (.get (.user userId)) (some invitee) :: evs₁))) ?_ ?_
  · refine Inside.run_bind fun found => ?_
    cases found with
    | none => exact Inside.run fun _ => ⟨none, rfl⟩
    | some u => exact ⟨some (), rfl⟩
  · rintro _ evs₂ ⟨found, h₂⟩
    refine MembershipDeed.audited fun event evs' h => ?_
    exact .invited ⟨context.customerId, userId, role⟩ hlooked hread (h₂ ▸ h)

theorem changeMemberRole_inside (context : CustomerContext) (id : Uuid) (role : CustomerRole)
    (hevs : Looked p [] (openOf evs)) :
    Inside p (fun _ evs' => MembershipDeed p (openOf evs')) (changeMemberRole context id role)
      evs := by
  refine (authorizeManageCustomerMembers_tidy (P := fun _ => False) _).inside_bind
    fun _ evs₁ h₁ => Inside.bind (getCustomerMembership_inside ..) fun m evs₂ h₂ => ?_
  refine Inside.bind (B := fun _ evs' => MembershipDeed p (openOf evs')) ?_ fun _ _ h => h
  refine (assertNotLastOwner_tidy (P := fun _ => False) ..).inside_bind fun _ evs₃ h₃ => ?_
  have hlooked : Looked p [] (openOf evs₃) := by
    refine ((hevs.trans h₁.openOf).trans ?_).trans h₃.openOf
    rw [h₂]
    exact (Went.refl _).ran trivial
  unfold flushRole
  split
  · refine Inside.run_bind fun _ => MembershipDeed.audited fun event evs' h => ?_
    exact .roleChanged hlooked h
  · exact MembershipDeed.audited fun event evs' h => .aside (hlooked.elsewhere.trans h)

theorem removeMember_inside (context : CustomerContext) (id : Uuid)
    (hevs : Looked p [] (openOf evs)) :
    Inside p (fun _ evs' => MembershipDeed p (openOf evs')) (removeMember context id) evs := by
  refine (authorizeManageCustomerMembers_tidy (P := fun _ => False) _).inside_bind
    fun _ evs₁ h₁ => Inside.bind (getCustomerMembership_inside ..) fun m evs₂ h₂ => ?_
  refine Inside.bind (B := fun _ evs' => MembershipDeed p (openOf evs')) ?_ fun _ _ h => h
  refine (assertNotLastOwner_tidy (P := fun _ => False) ..).inside_bind fun _ evs₃ h₃ => ?_
  refine Inside.run_bind fun db => ?_
  have hlooked : Looked p [] (openOf (.ran p .view db :: evs₃)) := by
    refine (((hevs.trans h₁.openOf).trans ?_).trans h₃.openOf).ran trivial
    rw [h₂]
    exact (Went.refl _).ran trivial
  have hloaded : .ran p (.get (.customerMembership id)) (some m) ∈
      openOf (.ran p .view db :: evs₃) :=
    List.mem_cons_of_mem _ (h₃.openOf.suffix.subset (h₂ ▸ List.mem_cons_self ..))
  refine Inside.bind (deleteWorkspaceMemberships_inside _) ?_
  rintro _ evs₄ ⟨gone, h₄⟩
  refine Inside.call_bind fun traceId => ?_
  refine (recordAuditEvent_elsewhere ..).inside_bind fun event evs₅ h₅ => ?_
  refine Inside.bind (deleteCustomerMembership_inside id) ?_
  rintro _ evs₆ ⟨found, h₆⟩
  refine (unindexCustomer_inside ..).mono ?_
  rintro _ evs₇ ⟨unindexed, h₇⟩
  have h₅ : Elsewhere p (.called p .uuid4 traceId :: openOf evs₄) (openOf evs₅) := h₅.openOf
  exact .removed hlooked hloaded h₄ (h₅.of_called trivial) h₆ h₇

omit [Sha256] in
/-- A workspace is loaded under row-level security. -/
theorem getWorkspace_inside (tenant id : Uuid) :
    Inside p (fun w evs' => ∃ found : Option Workspace, w = found.filter (·.customerId = tenant) ∧
        openOf evs' = .ran p (.get (.workspace id)) found :: openOf evs)
      (getWorkspace tenant id) evs :=
  Inside.run_bind fun found => ⟨found, rfl, rfl⟩

omit [Sha256] in
theorem getCurrentWorkspace_inside (context : WorkspaceContext) :
    Inside p (fun w evs' => w.customerId = context.customerId ∧
        openOf evs' = .ran p (.get (.workspace context.workspaceId)) (some w) :: openOf evs)
      (getCurrentWorkspace context) evs := by
  refine Inside.bind (getWorkspace_inside ..) ?_
  rintro w evs₁ ⟨found, rfl, h₁⟩
  split
  · trivial
  · rename_i w hw
    obtain ⟨rfl, hcustomer⟩ := Option.filter_eq_some_iff.1 hw
    exact ⟨by simpa using hcustomer, h₁⟩

omit [Sha256] in
theorem getWorkspaceMembership_tidy (context : WorkspaceContext) (id : Uuid) :
    Tidy P (getWorkspaceMembership context id) := by
  refine Neat.bind (Tidy.get _) fun found => ?_
  split
  · split
    · exact Neat.throw _
    · exact Neat.pure _
  · exact Neat.throw _

theorem addMember_inside (context : WorkspaceContext) (customerMembershipId : Uuid)
    (role : WorkspaceRole) (hevs : Looked p [] (openOf evs)) :
    Inside p (fun _ evs' => MembershipDeed p (openOf evs'))
      (WorkspaceAdmin.addMember context customerMembershipId role) evs := by
  refine (requireRole_tidy (P := fun _ => False) ..).inside_bind fun _ evs₁ h₁ => ?_
  refine Inside.run_bind fun found => ?_
  split
  · trivial
  rename_i c hc
  obtain ⟨rfl, hcustomer⟩ := Option.filter_eq_some_iff.1 hc
  refine Inside.bind (getCurrentWorkspace_inside _) fun w evs₂ h₂ => ?_
  obtain ⟨hw, h₂⟩ := h₂
  refine Inside.bind (B := fun _ evs' => MembershipDeed p (openOf evs')) ?_ fun _ _ h => h
  unfold addWorkspaceMember
  split
  · trivial
  rename_i hsame
  split
  · trivial
  rename_i hrole
  refine Inside.call_bind fun id => Inside.run_bind fun inserted => ?_
  cases inserted with
  | false => trivial
  | true =>
  refine MembershipDeed.audited fun event evs' h => ?_
  have hlooked : Looked p [] (openOf evs₂) := by
    rw [h₂]
    exact ((hevs.trans h₁.openOf).get _ _).get _ _
  refine .memberAdded ⟨w.customerId, customerMembershipId, context.workspaceId, role⟩ hlooked
    ?_ ?_ rfl (not_not.1 hsame) hrole h
  · exact h₂ ▸ List.mem_cons_self ..
  · exact h₂ ▸ List.mem_cons_of_mem _ (List.mem_cons_self ..)

theorem changeWorkspaceMember_inside (context : WorkspaceContext) (id : Uuid)
    (role : WorkspaceRole) (hevs : Looked p [] (openOf evs)) :
    Inside p (fun _ evs' => MembershipDeed p (openOf evs'))
      (WorkspaceAdmin.changeMemberRole context id role) evs := by
  refine (requireRole_tidy (P := fun _ => False) ..).inside_bind fun _ evs₁ h₁ => ?_
  refine (getWorkspaceMembership_tidy (P := fun _ => False) ..).inside_bind fun m evs₂ h₂ => ?_
  refine Inside.bind (B := fun _ evs' => MembershipDeed p (openOf evs')) ?_ fun _ _ h => h
  have hlooked := (hevs.trans h₁.openOf).trans h₂.openOf
  unfold changeWorkspaceMemberRole flushWorkspaceRole
  split
  · refine Inside.run_bind fun _ => MembershipDeed.audited fun event evs' h => ?_
    exact .memberRoleChanged hlooked h
  · exact MembershipDeed.audited fun event evs' h => .aside (hlooked.elsewhere.trans h)

theorem removeWorkspaceMember_inside (context : WorkspaceContext) (id : Uuid)
    (hevs : Looked p [] (openOf evs)) :
    Inside p (fun _ evs' => MembershipDeed p (openOf evs'))
      (WorkspaceAdmin.removeMember context id) evs := by
  refine (requireRole_tidy (P := fun _ => False) ..).inside_bind fun _ evs₁ h₁ => ?_
  refine (getWorkspaceMembership_tidy (P := fun _ => False) ..).inside_bind fun m evs₂ h₂ => ?_
  refine Inside.bind (B := fun _ evs' => MembershipDeed p (openOf evs')) ?_ fun _ _ h => h
  refine Inside.call_bind fun traceId => ?_
  refine (recordAuditEvent_elsewhere ..).inside_bind fun event evs₃ h₃ => ?_
  refine (deleteWorkspaceMembership_inside id).mono ?_
  rintro _ evs₄ ⟨gone, h₄⟩
  have hlooked := ((hevs.trans h₁.openOf).trans h₂.openOf).elsewhere
  exact .memberRemoved (hlooked.trans (h₃.of_called trivial).openOf) h₄

/-- The last part of archiving and of restoring. -/
theorem flushArchivedAt_inside {α : Type} (id : Uuid) (loaded archivedAt : Option Time) {c : Uuid}
    {w : Option Uuid} {a e : String} {m : Uuid → Json} {r : AuditEvent → α}
    (hevs : Looked p [] (openOf evs)) :
    Inside p (fun _ evs' => MembershipDeed p (openOf evs')) (do
      flushArchivedAt id loaded archivedAt
      let traceId ← Session.uuid4
      let event ← recordAuditEvent c w traceId a e (m traceId)
      return r event) evs := by
  unfold flushArchivedAt
  split
  · exact Inside.run_bind fun _ => MembershipDeed.audited fun event evs' h => .archived hevs h
  · exact MembershipDeed.audited fun event evs' h => .aside (hevs.elsewhere.trans h)

theorem archiveCurrentWorkspace_inside (context : WorkspaceContext)
    (hevs : Looked p [] (openOf evs)) :
    Inside p (fun _ evs' => MembershipDeed p (openOf evs')) (archiveCurrentWorkspace context)
      evs := by
  refine (requireRole_tidy (P := fun _ => False) ..).inside_bind fun _ evs₁ h₁ => ?_
  refine Inside.bind (getCurrentWorkspace_inside _) fun w evs₂ h₂ => ?_
  refine Inside.bind (B := fun _ evs' => MembershipDeed p (openOf evs')) ?_ fun _ _ h => h
  refine Inside.call_bind fun now => flushArchivedAt_inside _ _ _ ?_
  rw [openOf_called, h₂.2]
  exact ((hevs.trans h₁.openOf).get _ _).called trivial

theorem restoreCurrentWorkspace_inside (context : WorkspaceContext)
    (hevs : Looked p [] (openOf evs)) :
    Inside p (fun _ evs' => MembershipDeed p (openOf evs')) (restoreCurrentWorkspace context)
      evs := by
  refine (requireRole_tidy (P := fun _ => False) ..).inside_bind fun _ evs₁ h₁ => ?_
  refine Inside.bind (getCurrentWorkspace_inside _) fun w evs₂ h₂ => ?_
  refine Inside.bind (B := fun _ evs' => MembershipDeed p (openOf evs')) ?_ fun _ _ h => h
  refine flushArchivedAt_inside _ _ _ ?_
  rw [h₂.2]
  exact (hevs.trans h₁.openOf).get _ _

omit [Sha256] in
theorem getWorkspaceContextAllowArchived_tidy (tenant userId workspaceId : Uuid) :
    Tidy P (getWorkspaceContextAllowArchived tenant userId workspaceId) := by
  refine Neat.bind (Tidy.get _) fun found => ?_
  split
  · exact Neat.throw _
  · refine Neat.bind Tidy.select fun db => ?_
    split
    · exact Neat.pure _
    · refine Neat.bind Tidy.select fun db => ?_
      split
      · exact Neat.throw _
      · split
        · exact Neat.throw _
        · exact Neat.pure _

/-! ## The system -/

/-- **What every transaction of the system has done when it commits.** -/
theorem serveMemberships_deed (r : MembershipRequest) :
    AtCommits p (fun evs => MembershipDeed p (openOf evs)) (fun _ _ => True)
      (serveMemberships r) [] := by
  have hread : ∀ evs, Looked p [] evs → MembershipDeed p evs := fun evs h => .aside h.elsewhere
  cases r with
  | createCustomer customerId name ownerUserId actorId =>
    refine AtCommits.atomically ?_ fun _ _ _ => trivial
    exact (createCustomerWithOwner_inside _ _ _ _ rfl).bind fun _ _ h => h
  | createWorkspace customerId name actorId =>
    refine AtCommits.atomically ?_ fun _ _ _ => trivial
    exact (createWorkspace_inside _ _ _ rfl).bind fun _ _ h => h
  | customer who customerId command =>
    refine AtCommits.bind (B := fun _ _ => True) ?_ fun _ _ _ => trivial
    refine AtCommits.atomically ?_ fun _ _ _ => trivial
    refine Inside.bind (getCustomerContext_inside ..) ?_
    rintro context evs ⟨hlooked, rfl, customer, hcustomer⟩
    cases command with
    | invite userId role => exact inviteMember_inside _ _ hlooked hcustomer
    | changeRole membershipId role => exact changeMemberRole_inside _ _ _ hlooked
    | remove membershipId => exact removeMember_inside _ _ hlooked
  | workspace who workspaceId command =>
    refine withRequestContext_commits hread fun context evs hlooked => ?_
    cases command with
    | addMember customerMembershipId role => exact addMember_inside _ _ _ hlooked
    | changeMemberRole membershipId role => exact changeWorkspaceMember_inside _ _ _ hlooked
    | removeMember membershipId => exact removeWorkspaceMember_inside _ _ hlooked
    | archive => exact archiveCurrentWorkspace_inside _ hlooked
  | restore who workspaceId =>
    refine AtCommits.atomically_bind (Inside.run fun x => hread _ ?_) fun index w evs => ?_
    · exact (Went.refl []).ran trivial
    cases index with
    | none => trivial
    | some tenant =>
      refine AtCommits.atomically ?_ fun _ _ _ => trivial
      refine (getWorkspaceContextAllowArchived_tidy (P := fun _ => False) ..).inside_bind
        fun context evs' h => restoreCurrentWorkspace_inside _ (by simpa using h.openOf)
  | housekeeping rows =>
    refine AtCommits.atomically_bind ?_ fun _ _ _ => trivial
    refine (Neat.inside (keepHouseAll_tidy (P := (·.belonging = false)) _ fun v hv => ?_) p
      _).mono fun _ _ h => .aside (by simpa using h.openOf)
    obtain ⟨v, -, rfl⟩ := List.mem_map.1 hv
    exact v.2.2

end Walks

end Doda
