import Doda.Lib.Alone
import Doda.Members.Tables

/-!
# The listings agree with authorization

A user's list of workspaces and the roster of a workspace are joins of their own, written apart
from the one that resolves the user's role for a request.  The list names exactly the workspaces
where a request of the user is admitted, each once and with the role it is admitted with, in
every state of every run.  The roster does where nobody with a row of their own in the workspace
is an auditor of the customer, or an owner of it with a smaller role in the workspace.

## Main definitions

* `Granted c who w r` — a request to the workspace is admitted with the role.
* `RoleIn c u w r` — what the tables say of it.

## Main results

* `admitted_iff` — the two are one.
* `listing_agrees` — the list of workspaces.
* `roster_agrees_iff` — the roster.
-/

namespace Doda

open ReadCommitted

/-! ## One row for a scan -/

/-- A scan that can meet one row only meets that one first. -/
theorem head?_collect_eq_some {A : Type} {f : (k : Key) → Row k → Option A} {c : Db} {a : A}
    (huniq : ∀ a' ∈ collect f c, a' = a) (ha : a ∈ collect f c) : (collect f c).head? = some a := by
  cases hl : collect f c with
  | nil =>
    rw [hl] at ha
    cases ha
  | cons a' l =>
    rw [hl] at huniq
    rw [List.head?_cons, huniq a' (List.mem_cons_self ..)]

section Tables

variable {c : Db} {t u w : Uuid}

/-- A user's membership in a customer. -/
theorem membershipOf_eq_some (hu : MembersUnique c) {m : CustomerMembership} :
    membershipOf c t u = some m ↔
      ∃ id, row c (.customerMembership id) = some m ∧ m.customerId = t ∧ m.userId = u := by
  refine ⟨mem_of_membershipOf, ?_⟩
  rintro ⟨id, hm, rfl, rfl⟩
  refine head?_collect_eq_some ?_ (mem_collect.2 ⟨.customerMembership id, m, hm, if_pos ⟨rfl, rfl⟩⟩)
  intro m' hm'
  obtain ⟨k, v, hv, hk⟩ := mem_collect.1 hm'
  cases k with
  | customerMembership id' =>
    dsimp only at hk
    split at hk
    · rename_i hboth
      obtain rfl := Option.some.inj hk
      obtain rfl := hu.eq hm hv hboth.1 hboth.2
      exact Option.some.inj (hv.symm.trans hm)
    · cases hk
  | _ => cases hk

/-- The user has the workspace membership, under the row-level security of the customer. -/
def Joins (c : Db) (t u : Uuid) (id : Uuid) (m : WorkspaceMembership) (cm : CustomerMembership) :
    Prop :=
  row c (.workspaceMembership id) = some m ∧ m.customerId = t ∧
    row c (.customerMembership m.customerMembershipId) = some cm ∧ cm.customerId = t ∧
      cm.userId = u

theorem Joins.eq {id id' : Uuid} {m m' : WorkspaceMembership} {cm cm' : CustomerMembership}
    (hu : MembersUnique c) (hw : WorkspaceMembersUnique c) (H : Joins c t u id m cm)
    (H' : Joins c t u id' m' cm') (hsame : m'.workspaceId = m.workspaceId) :
    id' = id ∧ m' = m ∧ cm' = cm := by
  obtain ⟨hm, -, hcm, rfl, rfl⟩ := H
  obtain ⟨hm', -, hcm', hc, hu'⟩ := H'
  have hid := hu.eq hcm hcm' hc hu'
  obtain rfl := hw.eq hm hm' hid hsame
  obtain rfl := Option.some.inj (hm.symm.trans hm')
  exact ⟨rfl, rfl, Option.some.inj (hcm'.symm.trans hcm)⟩

/-- The join that resolves a role: the first of the user's memberships in the workspace. -/
theorem workspaceMembershipOf_eq (c : Db) (t w u : Uuid) :
    ∃ joined, workspaceMembershipOf c t w u = (collect joined c).head? ∧
      ∀ x, x ∈ collect joined c ↔ ∃ id, Joins c t u id x.1 x.2 ∧ x.1.workspaceId = w := by
  refine ⟨_, rfl, fun x => ?_⟩
  rw [mem_collect]
  constructor
  · rintro ⟨k, v, hv, hk⟩
    cases k with
    | workspaceMembership id =>
      dsimp only at hk
      split at hk
      · rename_i hboth
        split at hk
        · rename_i cm hcm
          split at hk
          · rename_i hmember
            obtain rfl := Option.some.inj hk
            exact ⟨id, ⟨hv, hboth.1, hcm, hmember.1, hmember.2⟩, hboth.2⟩
          · cases hk
        · cases hk
      · cases hk
    | _ => cases hk
  · rintro ⟨id, ⟨hm, hc, hcm, hct, hcu⟩, hww⟩
    refine ⟨.workspaceMembership id, x.1, hm, ?_⟩
    dsimp only
    rw [if_pos ⟨hc, hww⟩, hcm]
    exact if_pos ⟨hct, hcu⟩

/-- A user's membership in a workspace, joined. -/
theorem workspaceMembershipOf_eq_some (hu : MembersUnique c) (hw : WorkspaceMembersUnique c)
    {m : WorkspaceMembership} {cm : CustomerMembership} :
    workspaceMembershipOf c t w u = some (m, cm) ↔
      ∃ id, Joins c t u id m cm ∧ m.workspaceId = w := by
  obtain ⟨joined, heq, hmem⟩ := workspaceMembershipOf_eq c t w u
  rw [heq]
  constructor
  · intro hfound
    exact (hmem (m, cm)).1 (List.mem_of_mem_head? hfound)
  · rintro ⟨id, hj, hww⟩
    refine head?_collect_eq_some ?_ ((hmem (m, cm)).2 ⟨id, hj, hww⟩)
    intro x hx
    obtain ⟨id', hj', hww'⟩ := (hmem x).1 hx
    obtain ⟨-, hm, hcm⟩ := hj.eq hu hw hj' (hww'.trans hww.symm)
    exact Prod.ext hm hcm

/-! ## Who is admitted -/

/-- The user owns the customer. -/
def OwnedBy (c : Db) (t u : Uuid) : Prop :=
  ∃ id, ∃ m ∈ row c (.customerMembership id), m.OwnerOf t ∧ m.userId = u

/-- **What the tables say of a user's role in a workspace**: it is not archived, and the user owns
its customer, or is a member who is no auditor of the customer. -/
def RoleIn (c : Db) (u w : Uuid) (r : WorkspaceRole) : Prop :=
  ∃ v ∈ row c (.workspace w), v.archivedAt = none ∧
    (OwnedBy c v.customerId u ∧ r = .WORKSPACE_ADMIN ∨
      ¬ OwnedBy c v.customerId u ∧ ∃ id m cm, Joins c v.customerId u id m cm ∧
        m.workspaceId = w ∧ cm.role ≠ .AUDITOR ∧ m.role = r)

/-- The world may answer anything. -/
abbrev AnyAnswer (_ : Db) (e : Call) (_ : Answer e) : Prop := True

/-- **A request of the user to the workspace is admitted with the role**, by itself over the
store. -/
def Granted (c : Db) (who : Identity) (w : Uuid) (r : WorkspaceRole) : Prop :=
  Alone AnyAnswer (fun context c' _ => c' = c ∧ context.workspaceId = w ∧
      context.userId = who.userId ∧ context.role = r)
    (fun _ _ _ => False) (withRequestContext who w pure) c {}

theorem isCustomerOwner_iff (hu : MembersUnique c) :
    isCustomerOwner c t u = true ↔ OwnedBy c t u := by
  rw [isCustomerOwner, Option.any_eq_true]
  constructor
  · rintro ⟨m, hm, hrole⟩
    obtain ⟨id, hrow, hc, hmu⟩ := (membershipOf_eq_some hu).1 hm
    exact ⟨id, m, hrow, ⟨hc, of_decide_eq_true hrole⟩, hmu⟩
  · rintro ⟨id, m, hrow, ⟨hc, hrole⟩, hmu⟩
    exact ⟨m, (membershipOf_eq_some hu).2 ⟨id, hrow, hc, hmu⟩, decide_eq_true hrole⟩

variable {A : Db → (e : Call) → Answer e → Prop} {Q : WorkspaceContext → Db → DbTx → Prop}

/-- The role that the tables give is the only one. -/
theorem RoleIn.eq (hu : MembersUnique c) (hw : WorkspaceMembersUnique c) {r r' : WorkspaceRole}
    (H : RoleIn c u w r) (H' : RoleIn c u w r') : r' = r := by
  obtain ⟨v, hv, -, H⟩ := H
  obtain ⟨v', hv', -, H'⟩ := H'
  obtain rfl := Option.some.inj (hv.symm.trans hv')
  rcases H with ⟨howner, rfl⟩ | ⟨hno, id, m, cm, hj, hww, -, rfl⟩
  · rcases H' with ⟨-, rfl⟩ | ⟨hno, -⟩
    · rfl
    · exact absurd howner hno
  · rcases H' with ⟨howner, -⟩ | ⟨-, id', m', cm', hj', hww', -, rfl⟩
    · exact absurd howner hno
    · rw [(hj.eq hu hw hj' (hww'.trans hww.symm)).2.1]

/-- **Who is admitted in the transaction of a customer.** -/
theorem alone_getWorkspaceContext (hu : MembersUnique c) (hw : WorkspaceMembersUnique c) :
    Alone A Q (fun _ _ _ => False) (getWorkspaceContext t u w) c {} ↔
      ∃ v ∈ row c (.workspace w), v.customerId = t ∧
        ∃ r, RoleIn c u w r ∧ Q ⟨t, w, u, r⟩ c {} := by
  have hview : ({} : DbTx).view c = c := rfl
  rw [getWorkspaceContext, alone_bind, Session.get, alone_get rfl, hview]
  generalize hrow : row c (.workspace w) = found
  dsimp only
  split
  · rename_i v hfound
    obtain ⟨rfl, ht⟩ := Option.filter_eq_some_iff.1 hfound
    obtain rfl := of_decide_eq_true ht
    split
    · rename_i harchived
      refine iff_of_false id ?_
      rintro ⟨v', -, -, r, ⟨v'', hv'', hopen, -⟩, -⟩
      obtain rfl := Option.some.inj (hrow.symm.trans hv'')
      rw [hopen] at harchived
      cases harchived
    rename_i hopen
    have hopen : v.archivedAt = none := by simpa using hopen
    -- the role is the one role that the tables give, if they give one
    have hiff : ∀ {r}, RoleIn c u w r → (Q ⟨v.customerId, w, u, r⟩ c {} ↔
        ∃ v' ∈ some v, v'.customerId = v.customerId ∧
          ∃ r, RoleIn c u w r ∧ Q ⟨v.customerId, w, u, r⟩ c {}) := by
      intro r hr
      constructor
      · intro hQ
        exact ⟨v, rfl, rfl, r, hr, hQ⟩
      · rintro ⟨-, -, -, r', hr', hQ⟩
        rwa [hr.eq hu hw hr'] at hQ
    have hnot : (∀ r, ¬ RoleIn c u w r) → (False ↔
        ∃ v' ∈ some v, v'.customerId = v.customerId ∧
          ∃ r, RoleIn c u w r ∧ Q ⟨v.customerId, w, u, r⟩ c {}) := by
      intro hnone
      refine iff_of_false id ?_
      rintro ⟨-, -, -, r, hr, -⟩
      exact hnone r hr
    rw [alone_bind, Session.select, alone_view rfl, hview]
    by_cases howner : OwnedBy c v.customerId u
    · rw [if_pos ((isCustomerOwner_iff hu).2 howner)]
      exact hiff ⟨v, hrow, hopen, .inl ⟨howner, rfl⟩⟩
    rw [if_neg fun h => howner ((isCustomerOwner_iff hu).1 h), alone_bind, alone_view rfl, hview]
    have hjoined : ∀ {r}, RoleIn c u w r → ∃ id m cm, Joins c v.customerId u id m cm ∧
        m.workspaceId = w ∧ cm.role ≠ .AUDITOR ∧ m.role = r := by
      rintro r ⟨v', hv', -, hr⟩
      obtain rfl := Option.some.inj (hrow.symm.trans hv')
      exact (hr.resolve_left fun h => howner h.1).2
    split
    · rename_i hnone
      refine hnot fun r hr => ?_
      obtain ⟨id, m, cm, hj, hww, -⟩ := hjoined hr
      rw [(workspaceMembershipOf_eq_some hu hw).2 ⟨id, hj, hww⟩] at hnone
      cases hnone
    · rename_i m cm hfirst
      obtain ⟨id, hj, hww⟩ := (workspaceMembershipOf_eq_some hu hw).1 hfirst
      split
      · rename_i hauditor
        refine hnot fun r hr => ?_
        obtain ⟨id', m', cm', hj', hww', hrole, -⟩ := hjoined hr
        rw [(hj.eq hu hw hj' (hww'.trans hww.symm)).2.2] at hrole
        exact hrole hauditor
      · rename_i hrole
        exact hiff ⟨v, hrow, hopen, .inr ⟨howner, id, m, cm, hj, hww, hrole, rfl⟩⟩
  · rename_i hnone
    refine iff_of_false id ?_
    rintro ⟨v, hv, ht, -⟩
    obtain rfl : found = some v := hv
    exact hnone v (by simp [ht])

/-- **Who is admitted.** -/
theorem admitted_iff (hu : MembersUnique c) (hj : Joined c) {who : Identity}
    {r : WorkspaceRole} : Granted c who w r ↔ RoleIn c who.userId w r := by
  rw [Granted, withRequestContext, alone_bind, alone_atomically_iff, Session.get, alone_get rfl]
  have hview : ({} : DbTx).view c = c := rfl
  rw [hview, if_neg (by simp)]
  change Alone _ _ _ _ c {} ↔ _
  cases hindex : row c (.workspaceTenantIndex w) with
  | none =>
    refine iff_of_false id ?_
    rintro ⟨v, hv, -⟩
    rw [(hj.workspaces w v.customerId).2 ⟨v, hv, rfl⟩] at hindex
    cases hindex
  | some t =>
    obtain ⟨v, hv, rfl⟩ := (hj.workspaces w t).1 hindex
    rw [alone_atomically_iff, alone_bind, alone_getWorkspaceContext hu hj.members]
    constructor
    · rintro ⟨-, -, -, r', hr', -, -, -, hrole⟩
      rwa [← hrole]
    · intro hr
      exact ⟨v, hv, rfl, r, hr, rfl, rfl, rfl, rfl⟩

/-! ## The workspaces of a user -/

/-- The entries are those of the workspaces of `P` where the user has a role, each once, with the
role and the names of the workspace and its customer. -/
structure Lists (c : Db) (u : Uuid) (P : Workspace → Prop) (entries : List MyWorkspaceEntry) :
    Prop where
  roles : ∀ w r, (∃ e ∈ entries, e.workspaceId = w ∧ e.role = r) ↔
    ∃ v ∈ row c (.workspace w), P v ∧ RoleIn c u w r
  once : (entries.map (·.workspaceId)).Nodup
  names : ∀ e ∈ entries, ∃ v ∈ row c (.workspace e.workspaceId), P v ∧
    ∃ cu ∈ row c (.customer v.customerId), e.customerId = v.customerId ∧
      e.customerName = cu.name ∧ e.workspaceName = v.name

theorem mem_openWorkspaces {id : Uuid} :
    id ∈ openWorkspaces c t ↔
      ∃ v ∈ row c (.workspace id), v.customerId = t ∧ v.archivedAt = none := by
  rw [openWorkspaces, mem_collect]
  constructor
  · rintro ⟨k, v, hv, hk⟩
    cases k with
    | workspace id' =>
      dsimp only at hk
      split at hk
      · rename_i hboth
        obtain rfl := Option.some.inj hk
        exact ⟨v, hv, hboth⟩
      · cases hk
    | _ => cases hk
  · rintro ⟨v, hv, hboth⟩
    exact ⟨.workspace id, v, hv, if_pos hboth⟩

theorem nodup_openWorkspaces (c : Db) (t : Uuid) : (openWorkspaces c t).Nodup := by
  refine List.Nodup.of_map Key.workspace (nodup_collect_map fun k v id hrow hid => ?_)
  cases k with
  | workspace i =>
    dsimp only at hid
    split at hid
    · rw [Option.some.inj hid]
    · cases hid
  | _ => cases hid

theorem mem_openWorkspaceOf {m : WorkspaceMembership} {v : Workspace} :
    openWorkspaceOf c t m = some v ↔
      row c (.workspace m.workspaceId) = some v ∧ v.customerId = t ∧ v.archivedAt = none := by
  rw [openWorkspaceOf, Option.filter_eq_some_iff, decide_eq_true_eq]

theorem mem_joinedMemberships {id : Uuid} :
    id ∈ joinedMemberships c t u ↔ ∃ m cm, Joins c t u id m cm ∧
      ∃ v, openWorkspaceOf c t m = some v := by
  rw [joinedMemberships, mem_collect]
  constructor
  · rintro ⟨k, m, hm, hk⟩
    cases k with
    | workspaceMembership id' =>
      dsimp only at hk
      split at hk
      · rename_i hall
        obtain rfl := Option.some.inj hk
        obtain ⟨hc, hopen, cm, hcm, hcu⟩ := hall
        obtain ⟨hcm, hct⟩ := Option.filter_eq_some_iff.1 hcm
        exact ⟨m, cm, ⟨hm, hc, hcm, of_decide_eq_true hct, hcu⟩,
          Option.isSome_iff_exists.1 hopen⟩
      · cases hk
    | _ => cases hk
  · rintro ⟨m, cm, ⟨hm, hc, hcm, hct, hcu⟩, hopen⟩
    refine ⟨.workspaceMembership id, m, hm,
      if_pos ⟨hc, Option.isSome_iff_exists.2 hopen, cm, ?_, hcu⟩⟩
    exact Option.filter_eq_some_iff.2 ⟨hcm, decide_eq_true hct⟩

theorem nodup_joinedMemberships (c : Db) (t u : Uuid) : (joinedMemberships c t u).Nodup := by
  refine List.Nodup.of_map Key.workspaceMembership (nodup_collect_map fun k v id hrow hid => ?_)
  cases k with
  | workspaceMembership i =>
    dsimp only at hid
    split at hid
    · rw [Option.some.inj hid]
    · cases hid
  | _ => cases hid

theorem customerRoleOf_eq_some (hu : MembersUnique c) {role : CustomerRole} :
    customerRoleOf c t u = some role ↔ ∃ id m, row c (.customerMembership id) = some m ∧
      m.customerId = t ∧ m.userId = u ∧ m.role = role := by
  rw [customerRoleOf, Option.map_eq_some_iff]
  constructor
  · rintro ⟨m, hm, hrole⟩
    obtain ⟨id, hrow, hc, hmu⟩ := (membershipOf_eq_some hu).1 hm
    exact ⟨id, m, hrow, hc, hmu, hrole⟩
  · rintro ⟨id, m, hrow, hc, hmu, hrole⟩
    exact ⟨m, (membershipOf_eq_some hu).2 ⟨id, hrow, hc, hmu⟩, hrole⟩

theorem ownedBy_iff (hu : MembersUnique c) :
    OwnedBy c t u ↔ customerRoleOf c t u = some .CUSTOMER_OWNER := by
  rw [customerRoleOf_eq_some hu]
  constructor
  · rintro ⟨id, m, hrow, ⟨hc, hrole⟩, hmu⟩
    exact ⟨id, m, hrow, hc, hmu, hrole⟩
  · rintro ⟨id, m, hrow, hc, hmu, hrole⟩
    exact ⟨id, m, hrow, ⟨hc, hrole⟩, hmu⟩

theorem Joins.role (hu : MembersUnique c) {id : Uuid} {m : WorkspaceMembership}
    {cm : CustomerMembership} (H : Joins c t u id m cm) : customerRoleOf c t u = some cm.role := by
  obtain ⟨-, -, hcm, hc, hcu⟩ := H
  exact (customerRoleOf_eq_some hu).2 ⟨_, cm, hcm, hc, hcu, rfl⟩

/-- An owner's list. -/
theorem lists_owned (hu : MembersUnique c) {cu : Customer} (hcu : row c (.customer t) = some cu)
    (howner : customerRoleOf c t u = some .CUSTOMER_OWNER) {order : List Uuid}
    (horder : order.Perm (openWorkspaces c t)) :
    Lists c u (·.customerId = t) (order.filterMap (ownedEntry c t cu)) := by
  have howned := (ownedBy_iff hu).2 howner
  have hmem : ∀ {e}, e ∈ order.filterMap (ownedEntry c t cu) ↔
      ∃ v ∈ row c (.workspace e.workspaceId), v.customerId = t ∧ v.archivedAt = none ∧
        e = ⟨t, cu.name, e.workspaceId, v.name, .WORKSPACE_ADMIN⟩ := by
    intro e
    rw [List.mem_filterMap]
    constructor
    · rintro ⟨id, hid, he⟩
      obtain ⟨v, hv, hc, hopen⟩ := mem_openWorkspaces.1 (horder.mem_iff.1 hid)
      obtain ⟨v', hv', rfl⟩ := Option.map_eq_some_iff.1 he
      obtain rfl := Option.some.inj (hv'.symm.trans hv)
      exact ⟨v', hv, hc, hopen, rfl⟩
    · rintro ⟨v, hv, hc, hopen, he⟩
      refine ⟨e.workspaceId, horder.mem_iff.2 (mem_openWorkspaces.2 ⟨v, hv, hc, hopen⟩), ?_⟩
      exact Option.map_eq_some_iff.2 ⟨v, hv, he.symm⟩
  constructor
  · intro w r
    constructor
    · rintro ⟨e, he, rfl, rfl⟩
      obtain ⟨v, hv, hc, hopen, heq⟩ := hmem.1 he
      rw [heq]
      exact ⟨v, hv, hc, v, hv, hopen, .inl ⟨hc ▸ howned, rfl⟩⟩
    · rintro ⟨v, hv, hc, v', hv', hopen, hrole⟩
      obtain rfl := Option.some.inj (hv.symm.trans hv')
      have hr := (hrole.resolve_right fun h => h.1 (hc ▸ howned)).2
      exact ⟨⟨t, cu.name, w, v.name, .WORKSPACE_ADMIN⟩, hmem.2 ⟨v, hv, hc, hopen, rfl⟩, rfl,
        hr.symm⟩
  · rw [List.map_filterMap]
    refine List.Pairwise.filterMap _ ?_ (horder.nodup_iff.2 (nodup_openWorkspaces c t))
    intro id id' hne w hw w' hw'
    obtain ⟨e, he, rfl⟩ := Option.map_eq_some_iff.1 hw
    obtain ⟨e', he', rfl⟩ := Option.map_eq_some_iff.1 hw'
    obtain ⟨v, -, rfl⟩ := Option.map_eq_some_iff.1 he
    obtain ⟨v', -, rfl⟩ := Option.map_eq_some_iff.1 he'
    exact hne
  · intro e he
    obtain ⟨v, hv, hc, -, heq⟩ := hmem.1 he
    rw [heq]
    exact ⟨v, hv, hc, cu, hc ▸ hcu, hc.symm, rfl, rfl⟩

/-- The list of a user who owns nothing there. -/
theorem lists_joined (hu : MembersUnique c) (hw : WorkspaceMembersUnique c) {cu : Customer}
    (hcu : row c (.customer t) = some cu) (howner : customerRoleOf c t u ≠ some .CUSTOMER_OWNER)
    (hauditor : customerRoleOf c t u ≠ some .AUDITOR) {order : List Uuid}
    (horder : order.Perm (joinedMemberships c t u)) :
    Lists c u (·.customerId = t) (order.filterMap (joinedEntry c t cu)) := by
  have hentry : ∀ {id e}, id ∈ order → joinedEntry c t cu id = some e → ∃ m cm,
      Joins c t u id m cm ∧ m.workspaceId = e.workspaceId ∧
        ∃ v ∈ row c (.workspace e.workspaceId), v.customerId = t ∧ v.archivedAt = none ∧
          e = ⟨t, cu.name, e.workspaceId, v.name, m.role⟩ := by
    intro id e hid he
    obtain ⟨m, cm, hj, v, hv⟩ := mem_joinedMemberships.1 (horder.mem_iff.1 hid)
    rw [joinedEntry, hj.1, Option.bind_some, hv] at he
    obtain rfl := Option.some.inj he
    obtain ⟨hv, hc, hopen⟩ := mem_openWorkspaceOf.1 hv
    exact ⟨m, cm, hj, rfl, v, hv, hc, hopen, rfl⟩
  constructor
  · intro w r
    constructor
    · rintro ⟨e, he, rfl, rfl⟩
      obtain ⟨id, hid, he⟩ := List.mem_filterMap.1 he
      obtain ⟨m, cm, hj, hww, v, hv, rfl, hopen, heq⟩ := hentry hid he
      have hrole : cm.role ≠ .AUDITOR := fun h => hauditor (h ▸ hj.role hu)
      rw [heq]
      exact ⟨v, hv, rfl, v, hv, hopen, .inr ⟨fun h => howner ((ownedBy_iff hu).1 h), id, m, cm,
        hj, hww, hrole, rfl⟩⟩
    · rintro ⟨v, hv, rfl, v', hv', hopen, hrole⟩
      obtain rfl := Option.some.inj (hv.symm.trans hv')
      obtain ⟨-, id, m, cm, hj, rfl, -, rfl⟩ :=
        hrole.resolve_left fun h => howner ((ownedBy_iff hu).1 h.1)
      have hfound := mem_openWorkspaceOf.2 ⟨hv, rfl, hopen⟩
      refine ⟨⟨v.customerId, cu.name, m.workspaceId, v.name, m.role⟩,
        List.mem_filterMap.2 ⟨id, horder.mem_iff.2 (mem_joinedMemberships.2 ⟨m, cm, hj, v, hfound⟩),
          ?_⟩, rfl, rfl⟩
      rw [joinedEntry, hj.1, Option.bind_some, hfound, Option.map_some]
  · -- two entries of one workspace are of one membership
    rw [List.map_filterMap]
    refine List.Pairwise.filterMap _ ?_
      (List.Pairwise.and_mem.1 (horder.nodup_iff.2 (nodup_joinedMemberships c t u)))
    rintro id id' ⟨hid, hid', hne⟩ w hw₁ w' hw₂ rfl
    obtain ⟨e, he, rfl⟩ := Option.map_eq_some_iff.1 hw₁
    obtain ⟨e', he', heq⟩ := Option.map_eq_some_iff.1 hw₂
    obtain ⟨m, cm, hj, hww, -⟩ := hentry hid he
    obtain ⟨m', cm', hj', hww', -⟩ := hentry hid' he'
    exact hne (hj.eq hu hw hj' (hww'.trans (heq.trans hww.symm))).1.symm
  · intro e he
    obtain ⟨id, hid, he⟩ := List.mem_filterMap.1 he
    obtain ⟨m, cm, hj, -, v, hv, rfl, -, heq⟩ := hentry hid he
    rw [heq]
    exact ⟨v, hv, rfl, cu, hcu, rfl, rfl, rfl⟩

/-- An auditor has no role to list. -/
theorem lists_nil (hu : MembersUnique c) (hauditor : customerRoleOf c t u = some .AUDITOR) :
    Lists c u (·.customerId = t) [] := by
  refine ⟨fun w r => iff_of_false (by simp) ?_, List.nodup_nil, by simp⟩
  rintro ⟨v, hv, rfl, v', hv', -, ⟨howner, -⟩ | ⟨-, id, m, cm, hj, -, hrole, -⟩⟩
  · obtain rfl := Option.some.inj (hv.symm.trans hv')
    rw [(ownedBy_iff hu).1 howner] at hauditor
    cases hauditor
  · obtain rfl := Option.some.inj (hv.symm.trans hv')
    rw [hj.role hu] at hauditor
    exact hrole (Option.some.inj hauditor)

theorem Lists.append {ts : List Uuid} {entries rest : List MyWorkspaceEntry} (hnot : t ∉ ts)
    (H : Lists c u (·.customerId = t) entries) (H' : Lists c u (·.customerId ∈ ts) rest) :
    Lists c u (·.customerId ∈ t :: ts) (entries ++ rest) := by
  constructor
  · intro w r
    constructor
    · rintro ⟨e, he, hwr⟩
      rcases List.mem_append.1 he with he | he
      · obtain ⟨v, hv, ht, hr⟩ := (H.roles w r).1 ⟨e, he, hwr⟩
        exact ⟨v, hv, List.mem_cons.2 (.inl ht), hr⟩
      · obtain ⟨v, hv, ht, hr⟩ := (H'.roles w r).1 ⟨e, he, hwr⟩
        exact ⟨v, hv, List.mem_cons_of_mem _ ht, hr⟩
    · rintro ⟨v, hv, ht, hr⟩
      rcases List.mem_cons.1 ht with ht | ht
      · obtain ⟨e, he, hwr⟩ := (H.roles w r).2 ⟨v, hv, ht, hr⟩
        exact ⟨e, List.mem_append_left _ he, hwr⟩
      · obtain ⟨e, he, hwr⟩ := (H'.roles w r).2 ⟨v, hv, ht, hr⟩
        exact ⟨e, List.mem_append_right _ he, hwr⟩
  · rw [List.map_append]
    refine List.Nodup.append H.once H'.once ?_
    intro w hw hw'
    obtain ⟨e, he, rfl⟩ := List.mem_map.1 hw
    obtain ⟨e', he', heq⟩ := List.mem_map.1 hw'
    obtain ⟨v, hv, rfl, -⟩ := H.names e he
    obtain ⟨v', hv', ht, -⟩ := H'.names e' he'
    rw [heq] at hv'
    obtain rfl := Option.some.inj (hv.symm.trans hv')
    exact hnot ht
  · intro e he
    rcases List.mem_append.1 he with he | he
    · obtain ⟨v, hv, ht, hnames⟩ := H.names e he
      exact ⟨v, hv, List.mem_cons.2 (.inl ht), hnames⟩
    · obtain ⟨v, hv, ht, hnames⟩ := H'.names e he
      exact ⟨v, hv, List.mem_cons_of_mem _ ht, hnames⟩

/-! ## The query -/

section Query

variable {Q : List MyWorkspaceEntry → Db → DbTx → Prop} {X : Err → Db → DbTx → Prop}

/-- **The entries of one customer.** -/
theorem alone_listWorkspacesOf (hu : MembersUnique c) (hw : WorkspaceMembersUnique c)
    (ht : (row c (.customer t)).isSome)
    (H : ∀ entries, Lists c u (·.customerId = t) entries → Q entries c {}) :
    Alone AnyAnswer Q X (listWorkspacesOf u t) c {} := by
  obtain ⟨cu, hcu⟩ := Option.isSome_iff_exists.1 ht
  have hview : ({} : DbTx).view c = c := rfl
  rw [listWorkspacesOf, alone_atomically_iff, alone_bind, Session.get, alone_get rfl, hview, hcu]
  dsimp only
  rw [alone_bind, Session.select, alone_view rfl, hview]
  cases hrole : customerRoleOf c t u with
  | none =>
    dsimp only
    rw [alone_bind, alone_view rfl, hview, alone_bind, alone_call]
    intro order _
    exact H _ (lists_joined hu hw hcu (by simp [hrole]) (by simp [hrole]) order.2)
  | some role =>
    cases role with
    | AUDITOR => exact H _ (lists_nil hu hrole)
    | CUSTOMER_OWNER =>
      dsimp only
      rw [alone_bind, alone_view rfl, hview, alone_bind, alone_call]
      intro order _
      exact H _ (lists_owned hu hcu hrole order.2)
    | MEMBER =>
      dsimp only
      rw [alone_bind, alone_view rfl, hview, alone_bind, alone_call]
      intro order _
      exact H _ (lists_joined hu hw hcu (by simp [hrole]) (by simp [hrole]) order.2)

theorem alone_listWorkspacesOfEach (hu : MembersUnique c) (hw : WorkspaceMembersUnique c)
    {ts : List Uuid} (hts : ts.Nodup) (hcustomers : ∀ t ∈ ts, (row c (.customer t)).isSome)
    (H : ∀ entries, Lists c u (·.customerId ∈ ts) entries → Q entries c {}) :
    Alone AnyAnswer Q X (listWorkspacesOfEach u ts) c {} := by
  induction ts generalizing Q with
  | nil => exact H [] ⟨by simp, List.nodup_nil, by simp⟩
  | cons t ts ih =>
    obtain ⟨hnot, hts⟩ := List.nodup_cons.1 hts
    rw [listWorkspacesOfEach, alone_bind]
    refine alone_listWorkspacesOf hu hw (hcustomers t (List.mem_cons_self ..)) fun entries he => ?_
    rw [alone_bind]
    refine ih hts (fun t ht => hcustomers t (List.mem_cons_of_mem _ ht)) fun rest hrest => ?_
    exact H _ (he.append hnot hrest)

end Query

theorem mem_customersIndexedFor :
    t ∈ customersIndexedFor c u ↔ (row c (.userCustomerIndex u t)).isSome := by
  rw [customersIndexedFor, mem_collect]
  constructor
  · rintro ⟨k, v, hv, hk⟩
    cases k with
    | userCustomerIndex u' t' =>
      dsimp only at hk
      split at hk
      · rename_i heq
        obtain rfl := Option.some.inj hk
        subst heq
        rw [hv]
        rfl
      · cases hk
    | _ => cases hk
  · intro hsome
    obtain ⟨v, hv⟩ := Option.isSome_iff_exists.1 hsome
    exact ⟨.userCustomerIndex u t, v, hv, if_pos rfl⟩

/-- Whoever has a role in a workspace is a member of its customer. -/
theorem RoleIn.hasMembership {r : WorkspaceRole} (H : RoleIn c u w r) :
    ∃ v ∈ row c (.workspace w), HasMembership c u v.customerId := by
  obtain ⟨v, hv, -, ⟨⟨id, m, hm, ⟨hc, -⟩, hmu⟩, -⟩ | ⟨-, id, m, cm, hj, -⟩⟩ := H
  · exact ⟨v, hv, id, m, hm, hmu, hc⟩
  · exact ⟨v, hv, _, cm, hj.2.2.1, hj.2.2.2.2, hj.2.2.2.1⟩

end Tables

/-! ## The listing -/

/-- **A user's list of workspaces is what they are admitted to**: in every state of every run it
names the workspaces where a request of theirs is admitted, each once, with the role that the
request has and with the names of the workspace and its customer. -/
theorem listing_agrees [Sha256]
    {s : Sys Row Answer Err MembershipReply MembershipRequest}
    (hs : Reachable serveMemberships s) (hn : (minted s.hist).Nodup) {h : Hist}
    (hh : h <:+ s.hist) (who : Identity) :
    Alone AnyAnswer (fun entries c t => c = committed h ∧ t = {} ∧
        (∀ w r, (∃ e ∈ entries, e.workspaceId = w ∧ e.role = r) ↔
          Granted (committed h) who w r) ∧
        (entries.map (·.workspaceId)).Nodup ∧
        ∀ e ∈ entries, ∃ v ∈ row (committed h) (.workspace e.workspaceId),
          ∃ cu ∈ row (committed h) (.customer v.customerId), e.customerId = v.customerId ∧
            e.customerName = cu.name ∧ e.workspaceName = v.name)
      (fun _ _ _ => False) (listMyWorkspaces who.userId) (committed h) {} := by
  have hv := hs.faithful.suffix hh
  have hu := membersUnique_of_valid hv
  have hj := joined_of_valid hv
  have hmirror := indexMirrors_of_valid hs.faithful hn (unreinvited_of_reachable hs) h hh
  have hview : ({} : DbTx).view (committed h) = committed h := rfl
  rw [listMyWorkspaces, alone_bind, customerIdsForUser, alone_atomically_iff, alone_bind,
    Session.select, alone_view rfl, hview, alone_bind, alone_call]
  intro order _
  change Alone _ _ _ (listWorkspacesOfEach who.userId order.1) (committed h) {}
  have hindexed : ∀ {t}, t ∈ order.1 ↔ HasMembership (committed h) who.userId t := fun {t} =>
    order.2.mem_iff.trans (mem_customersIndexedFor.trans (hmirror who.userId t))
  refine alone_listWorkspacesOfEach hu hj.members
    (order.2.nodup_iff.2 (customersIndexedFor_nodup _ _)) ?_ fun entries he => ?_
  · intro t ht
    obtain ⟨id, m, hm, -, rfl⟩ := hindexed.1 ht
    exact hj.customers id m hm
  · refine ⟨rfl, rfl, fun w r => ?_, he.once, fun e hmem => ?_⟩
    · rw [he.roles, admitted_iff hu hj]
      constructor
      · rintro ⟨v, -, -, hr⟩
        exact hr
      · intro hr
        obtain ⟨v, hv, hmember⟩ := hr.hasMembership
        exact ⟨v, hv, hindexed.2 hmember, hr⟩
    · obtain ⟨v, hv, -, hnames⟩ := he.names e hmem
      exact ⟨v, hv, hnames⟩

/-! ## The roster of a workspace -/

section Roster

variable {c : Db} {t u w : Uuid}

/-- The user has a membership of their own in the workspace. -/
def ListedThere (c : Db) (t w u : Uuid) (r : WorkspaceRole) : Prop :=
  ∃ id m cm, Joins c t u id m cm ∧ m.workspaceId = w ∧ m.role = r

/-- The role that the roster gives a user: that of their own membership, and otherwise an
owner's. -/
def RosterRole (c : Db) (t w u : Uuid) (r : WorkspaceRole) : Prop :=
  (row c (.user u)).isSome ∧
    (ListedThere c t w u r ∨ (∀ r', ¬ ListedThere c t w u r') ∧ OwnedBy c t u ∧
      r = .WORKSPACE_ADMIN)

/-- The entries are those of the users with a role in the roster, each once and under their
name. -/
structure Roster (c : Db) (t w : Uuid) (entries : List WorkspaceMemberEntry) : Prop where
  roles : ∀ u r, (∃ e ∈ entries, e.userId = u ∧ e.role = r) ↔ RosterRole c t w u r
  once : (entries.map (·.userId)).Nodup
  names : ∀ e ∈ entries, ∃ user ∈ row c (.user e.userId), e.displayName = user.displayName

theorem rosterMember_eq_some {m : WorkspaceMembership} {cm : CustomerMembership} {user : User} :
    rosterMember c t w m = some (cm, user) ↔ m.customerId = t ∧ m.workspaceId = w ∧
      row c (.customerMembership m.customerMembershipId) = some cm ∧ cm.customerId = t ∧
        row c (.user cm.userId) = some user := by
  rw [rosterMember]
  split
  · rename_i hboth
    rw [Option.bind_eq_some_iff]
    constructor
    · rintro ⟨cm', hcm, hfound⟩
      obtain ⟨hcm, hct⟩ := Option.filter_eq_some_iff.1 hcm
      obtain ⟨user', huser, heq⟩ := Option.map_eq_some_iff.1 hfound
      obtain ⟨rfl, rfl⟩ := Prod.mk.inj heq
      exact ⟨hboth.1, hboth.2, hcm, of_decide_eq_true hct, huser⟩
    · rintro ⟨-, -, hcm, hct, huser⟩
      exact ⟨cm, Option.filter_eq_some_iff.2 ⟨hcm, decide_eq_true hct⟩,
        Option.map_eq_some_iff.2 ⟨user, huser, rfl⟩⟩
  · rename_i hnot
    exact iff_of_false (by simp) fun h => hnot ⟨h.1, h.2.1⟩

theorem mem_rosterMemberships {id : Uuid} :
    id ∈ rosterMemberships c t w ↔ ∃ m, row c (.workspaceMembership id) = some m ∧
      (rosterMember c t w m).isSome := by
  rw [rosterMemberships, mem_collect]
  constructor
  · rintro ⟨k, m, hm, hk⟩
    cases k with
    | workspaceMembership id' =>
      dsimp only at hk
      split at hk
      · rename_i hsome
        obtain rfl := Option.some.inj hk
        exact ⟨m, hm, hsome⟩
      · cases hk
    | _ => cases hk
  · rintro ⟨m, hm, hsome⟩
    exact ⟨.workspaceMembership id, m, hm, if_pos hsome⟩

theorem nodup_rosterMemberships (c : Db) (t w : Uuid) : (rosterMemberships c t w).Nodup := by
  refine List.Nodup.of_map Key.workspaceMembership (nodup_collect_map fun k v id hrow hid => ?_)
  cases k with
  | workspaceMembership i =>
    dsimp only at hid
    split at hid
    · rw [Option.some.inj hid]
    · cases hid
  | _ => cases hid

theorem mem_rosterOwners {id : Uuid} :
    id ∈ rosterOwners c t t ↔ ∃ cm, row c (.customerMembership id) = some cm ∧
      (ownerUser c t t cm).isSome := by
  rw [rosterOwners, mem_collect]
  constructor
  · rintro ⟨k, m, hm, hk⟩
    cases k with
    | customerMembership id' =>
      dsimp only at hk
      split at hk
      · rename_i hsome
        obtain rfl := Option.some.inj hk
        exact ⟨m, hm, hsome⟩
      · cases hk
    | _ => cases hk
  · rintro ⟨m, hm, hsome⟩
    exact ⟨.customerMembership id, m, hm, if_pos hsome⟩

theorem nodup_rosterOwners (c : Db) (t : Uuid) : (rosterOwners c t t).Nodup := by
  refine List.Nodup.of_map Key.customerMembership (nodup_collect_map fun k v id hrow hid => ?_)
  cases k with
  | customerMembership i =>
    dsimp only at hid
    split at hid
    · rw [Option.some.inj hid]
    · cases hid
  | _ => cases hid

theorem ownerUser_eq_some {cm : CustomerMembership} {user : User} :
    ownerUser c t t cm = some user ↔ cm.OwnerOf t ∧ row c (.user cm.userId) = some user := by
  rw [ownerUser]
  split
  · rename_i hboth
    rw [and_iff_right hboth.2]
  · rename_i hnot
    exact iff_of_false (by simp) fun h => hnot ⟨h.1.1, h.1⟩

/-- **The roster**, whatever order its queries answer in. -/
theorem roster_of_perm (hu : MembersUnique c) (hw : WorkspaceMembersUnique c)
    {order owners : List Uuid} (horder : order.Perm (rosterMemberships c t w))
    (howners : owners.Perm (rosterOwners c t t)) :
    Roster c t w (order.filterMap (memberEntry c t w) ++
      owners.filterMap
        (ownerEntry c t t ((order.filterMap (memberEntry c t w)).map (·.userId)))) := by
  have hentry : ∀ {id e}, memberEntry c t w id = some e ↔ ∃ m cm user,
      Joins c t e.userId id m cm ∧ m.workspaceId = w ∧ row c (.user e.userId) = some user ∧
        e = ⟨some id, cm.userId, user.displayName, m.role⟩ := by
    intro id e
    rw [memberEntry, Option.bind_eq_some_iff]
    constructor
    · rintro ⟨m, hm, he⟩
      obtain ⟨⟨cm, user⟩, hcu, rfl⟩ := Option.map_eq_some_iff.1 he
      obtain ⟨hc, hww, hcm, hct, huser⟩ := rosterMember_eq_some.1 hcu
      exact ⟨m, cm, user, ⟨hm, hc, hcm, hct, rfl⟩, hww, huser, rfl⟩
    · rintro ⟨m, cm, user, ⟨hm, hc, hcm, hct, hcu⟩, hww, huser, heq⟩
      rw [← hcu] at huser
      exact ⟨m, hm, Option.map_eq_some_iff.2
        ⟨(cm, user), rosterMember_eq_some.2 ⟨hc, hww, hcm, hct, huser⟩, heq.symm⟩⟩
  have hmem : ∀ {e}, e ∈ order.filterMap (memberEntry c t w) ↔
      ∃ id, memberEntry c t w id = some e := by
    intro e
    rw [List.mem_filterMap]
    constructor
    · rintro ⟨id, -, he⟩
      exact ⟨id, he⟩
    · rintro ⟨id, he⟩
      obtain ⟨m, hm, he'⟩ := Option.bind_eq_some_iff.1 he
      exact ⟨id, horder.mem_iff.2 (mem_rosterMemberships.2 ⟨m, hm, by
        rw [← Option.isSome_map, he']
        rfl⟩), he⟩
  have hlisted : ∀ u, u ∈ (order.filterMap (memberEntry c t w)).map (·.userId) ↔
      (row c (.user u)).isSome ∧ ∃ r, ListedThere c t w u r := by
    intro u
    rw [List.mem_map]
    constructor
    · rintro ⟨e, he, rfl⟩
      obtain ⟨id, he⟩ := hmem.1 he
      obtain ⟨m, cm, user, hj, hww, huser, -⟩ := hentry.1 he
      exact ⟨huser ▸ rfl, m.role, id, m, cm, hj, hww, rfl⟩
    · rintro ⟨hsome, r, id, m, cm, hj, hww, -⟩
      obtain ⟨user, huser⟩ := Option.isSome_iff_exists.1 hsome
      obtain rfl := hj.2.2.2.2
      exact ⟨_, hmem.2 ⟨id, hentry.2 ⟨m, cm, user, hj, hww, huser, rfl⟩⟩, rfl⟩
  generalize hexplicit : (order.filterMap (memberEntry c t w)).map (·.userId) = explicit
  rw [hexplicit] at hlisted
  have howner : ∀ {e}, e ∈ owners.filterMap (ownerEntry c t t explicit) ↔
      ∃ id cm user, row c (.customerMembership id) = some cm ∧ cm.OwnerOf t ∧
        row c (.user cm.userId) = some user ∧ cm.userId ∉ explicit ∧
          e = ⟨none, cm.userId, user.displayName, .WORKSPACE_ADMIN⟩ := by
    intro e
    rw [List.mem_filterMap]
    constructor
    · rintro ⟨id, -, he⟩
      obtain ⟨cm, hcm, he⟩ := Option.bind_eq_some_iff.1 he
      obtain ⟨user, huser, he⟩ := Option.bind_eq_some_iff.1 he
      obtain ⟨howner, huser⟩ := ownerUser_eq_some.1 huser
      split at he
      · cases he
      · rename_i hnot
        exact ⟨id, cm, user, hcm, howner, huser, hnot, (Option.some.inj he).symm⟩
    · rintro ⟨id, cm, user, hcm, howner, huser, hnot, rfl⟩
      have hfound := ownerUser_eq_some.2 ⟨howner, huser⟩
      refine ⟨id, howners.mem_iff.2 (mem_rosterOwners.2 ⟨cm, hcm, by rw [hfound]; rfl⟩), ?_⟩
      rw [ownerEntry, hcm, Option.bind_some, hfound, Option.bind_some, if_neg hnot]
  constructor
  · intro u r
    constructor
    · rintro ⟨e, he, rfl, rfl⟩
      rcases List.mem_append.1 he with he | he
      · obtain ⟨id, he⟩ := hmem.1 he
        obtain ⟨m, cm, user, hj, hww, huser, heq⟩ := hentry.1 he
        refine ⟨huser ▸ rfl, .inl ⟨id, m, cm, hj, hww, ?_⟩⟩
        rw [heq]
      · obtain ⟨id, cm, user, hcm, hown, huser, hnot, rfl⟩ := howner.1 he
        refine ⟨huser ▸ rfl, .inr ⟨fun r' hr' => ?_, ⟨id, cm, hcm, hown, rfl⟩, rfl⟩⟩
        exact hnot ((hlisted _).2 ⟨huser ▸ rfl, r', hr'⟩)
    · rintro ⟨hsome, hr⟩
      obtain ⟨user, huser⟩ := Option.isSome_iff_exists.1 hsome
      rcases hr with ⟨id, m, cm, hj, hww, rfl⟩ | ⟨hnot, ⟨id, cm, hcm, hown, rfl⟩, rfl⟩
      · obtain rfl := hj.2.2.2.2
        exact ⟨_, List.mem_append_left _ (hmem.2 ⟨id, hentry.2 ⟨m, cm, user, hj, hww, huser, rfl⟩⟩),
          rfl, rfl⟩
      · refine ⟨_, List.mem_append_right _ (howner.2 ⟨id, cm, user, hcm, hown, huser, ?_, rfl⟩),
          rfl, rfl⟩
        intro hin
        obtain ⟨-, r', hr'⟩ := (hlisted _).1 hin
        exact hnot r' hr'
  · rw [List.map_append, hexplicit]
    refine List.Nodup.append ?_ ?_ ?_
    · rw [← hexplicit, List.map_filterMap]
      refine List.Pairwise.filterMap _ ?_ (horder.nodup_iff.2 (nodup_rosterMemberships c t w))
      rintro id id' hne u hu₁ u' hu₂ rfl
      obtain ⟨e, he, rfl⟩ := Option.map_eq_some_iff.1 hu₁
      obtain ⟨e', he', heq⟩ := Option.map_eq_some_iff.1 hu₂
      obtain ⟨m, cm, user, hj, hww, -⟩ := hentry.1 he
      obtain ⟨m', cm', user', hj', hww', -⟩ := hentry.1 he'
      rw [heq] at hj'
      exact hne (hj.eq hu hw hj' (hww'.trans hww.symm)).1.symm
    · rw [List.map_filterMap]
      refine List.Pairwise.filterMap _ ?_
        (List.Pairwise.and_mem.1 (howners.nodup_iff.2 (nodup_rosterOwners c t)))
      rintro id id' ⟨hid, hid', hne⟩ u hu₁ u' hu₂ rfl
      obtain ⟨e, he, rfl⟩ := Option.map_eq_some_iff.1 hu₁
      obtain ⟨e', he', heq⟩ := Option.map_eq_some_iff.1 hu₂
      obtain ⟨cm, hcm, he⟩ := Option.bind_eq_some_iff.1 he
      obtain ⟨cm', hcm', he'⟩ := Option.bind_eq_some_iff.1 he'
      obtain ⟨user, huser, he⟩ := Option.bind_eq_some_iff.1 he
      obtain ⟨user', huser', he'⟩ := Option.bind_eq_some_iff.1 he'
      split at he
      · cases he
      split at he'
      · cases he'
      obtain rfl := Option.some.inj he
      obtain rfl := Option.some.inj he'
      have hc := (ownerUser_eq_some.1 huser).1.1
      have hc' := (ownerUser_eq_some.1 huser').1.1
      exact hne (hu.eq hcm hcm' (hc'.trans hc.symm) heq).symm
    · intro u hu₁ hu₂
      obtain ⟨e, he, rfl⟩ := List.mem_map.1 hu₂
      obtain ⟨id, cm, user, -, -, -, hnot, rfl⟩ := howner.1 he
      exact hnot hu₁
  · intro e he
    rcases List.mem_append.1 he with he | he
    · obtain ⟨id, he⟩ := hmem.1 he
      obtain ⟨m, cm, user, hj, hww, huser, heq⟩ := hentry.1 he
      refine ⟨user, huser, ?_⟩
      rw [heq]
    · obtain ⟨id, cm, user, -, -, huser, -, rfl⟩ := howner.1 he
      exact ⟨user, huser, rfl⟩

/-- **What the roster needs to agree with authorization**: of the users with a membership of their
own, none is an auditor and an owner's says what an owner may; and whoever has a role has a row
of users. -/
structure RosterFits (c : Db) (t w : Uuid) : Prop where
  members : ∀ u id m cm, Joins c t u id m cm → m.workspaceId = w → (row c (.user u)).isSome →
    cm.role ≠ .AUDITOR ∧ (cm.role = .CUSTOMER_OWNER → m.role = .WORKSPACE_ADMIN)
  users : ∀ u r, RoleIn c u w r → (row c (.user u)).isSome

theorem rosterFits_iff (hu : MembersUnique c) (hw : WorkspaceMembersUnique c) {v : Workspace}
    (hv : row c (.workspace w) = some v) (hopen : v.archivedAt = none) :
    (∀ u r, RosterRole c v.customerId w u r ↔ RoleIn c u w r) ↔ RosterFits c v.customerId w := by
  have hrole : ∀ {u r}, RoleIn c u w r ↔ (OwnedBy c v.customerId u ∧ r = .WORKSPACE_ADMIN ∨
      ¬ OwnedBy c v.customerId u ∧ ∃ id m cm, Joins c v.customerId u id m cm ∧
        m.workspaceId = w ∧ cm.role ≠ .AUDITOR ∧ m.role = r) := by
    intro u r
    constructor
    · rintro ⟨v', hv', -, hr⟩
      obtain rfl := Option.some.inj (hv.symm.trans hv')
      exact hr
    · intro hr
      exact ⟨v, hv, hopen, hr⟩
  have howned : ∀ {u id m cm}, Joins c v.customerId u id m cm →
      (OwnedBy c v.customerId u ↔ cm.role = .CUSTOMER_OWNER) := by
    intro u id m cm hj
    rw [ownedBy_iff hu, hj.role hu, Option.some.injEq]
  constructor
  · intro H
    constructor
    · intro u id m cm hj hww huser
      rcases hrole.1 ((H u m.role).1 ⟨huser, .inl ⟨id, m, cm, hj, hww, rfl⟩⟩) with
        ⟨howner, hadmin⟩ | ⟨hno, id', m', cm', hj', hww', hauditor, -⟩
      · have howner := (howned hj).1 howner
        exact ⟨by simp [howner], fun _ => hadmin⟩
      · rw [(hj.eq hu hw hj' (hww'.trans hww.symm)).2.2] at hauditor
        exact ⟨hauditor, fun h => absurd ((howned hj).2 h) hno⟩
    · intro u r hr
      exact ((H u r).2 hr).1
  · intro H u r
    constructor
    · rintro ⟨huser, ⟨id, m, cm, hj, hww, rfl⟩ | ⟨-, howner, rfl⟩⟩
      · obtain ⟨hauditor, hadmin⟩ := H.members u id m cm hj hww huser
        by_cases howner : OwnedBy c v.customerId u
        · exact hrole.2 (.inl ⟨howner, hadmin ((howned hj).1 howner)⟩)
        · exact hrole.2 (.inr ⟨howner, id, m, cm, hj, hww, hauditor, rfl⟩)
      · exact hrole.2 (.inl ⟨howner, rfl⟩)
    · intro hr
      have huser := H.users u r hr
      refine ⟨huser, ?_⟩
      rcases hrole.1 hr with ⟨howner, rfl⟩ | ⟨-, id, m, cm, hj, hww, -, rfl⟩
      · by_cases hlisted : ∃ r, ListedThere c v.customerId w u r
        · obtain ⟨r, id, m, cm, hj, hww, -⟩ := hlisted
          have hadmin := (H.members u id m cm hj hww huser).2 ((howned hj).1 howner)
          exact .inl ⟨id, m, cm, hj, hww, hadmin⟩
        · exact .inr ⟨fun r hr => hlisted ⟨r, hr⟩, howner, rfl⟩
      · exact .inl ⟨id, m, cm, hj, hww, rfl⟩

end Roster

/-- **When a workspace's roster is who is admitted**: in every state of every run the roster of a
workspace that is not archived has each user at most once, and it gives exactly the users who
are admitted the role that they are admitted with if and only if the members fit it. -/
theorem roster_agrees_iff [Sha256]
    {s : Sys Row Answer Err MembershipReply MembershipRequest}
    (hs : Reachable serveMemberships s) {h : Hist} (hh : h <:+ s.hist) {w : Uuid} {v : Workspace}
    (hv : row (committed h) (.workspace w) = some v) (hopen : v.archivedAt = none) :
    Alone AnyAnswer (fun entries c t => c = committed h ∧ t = {} ∧
        (entries.map (·.userId)).Nodup ∧
        (∀ e ∈ entries, ∃ user ∈ row (committed h) (.user e.userId),
          e.displayName = user.displayName) ∧
        ((∀ who r, (∃ e ∈ entries, e.userId = who.userId ∧ e.role = r) ↔
          Granted (committed h) who w r) ↔ RosterFits (committed h) v.customerId w))
      (fun _ _ _ => False) (listWorkspaceMembers v.customerId w) (committed h) {} := by
  have hvalid := hs.faithful.suffix hh
  have hu := membersUnique_of_valid hvalid
  have hj := joined_of_valid hvalid
  have hview : ({} : DbTx).view (committed h) = committed h := rfl
  rw [listWorkspaceMembers, alone_bind, Session.select, alone_view rfl, hview, alone_bind,
    alone_call]
  intro order _
  rw [alone_bind, getWorkspace, alone_bind, Session.get, alone_get rfl, hview, hv]
  erw [Option.filter_some_pos (by simp), alone_pure]
  dsimp only
  rw [alone_bind, alone_view rfl, hview, alone_bind, alone_call]
  intro owners _
  have H := roster_of_perm hu hj.members order.2 owners.2
  refine ⟨rfl, rfl, H.once, H.names, ?_⟩
  rw [← rosterFits_iff hu hj.members hv hopen]
  constructor
  · intro hagree u r
    rw [← H.roles, hagree ⟨u, .AAL1⟩ r, admitted_iff hu hj]
  · intro hagree who r
    rw [H.roles, admitted_iff hu hj]
    exact hagree who.userId r

/-! ## A sample run -/

section Sample

attribute [local instance] sampleSha

/-- User 3 makes user 4 a member of a workspace. -/
def sampleTeam : Option (Sys Row Answer Err MembershipReply MembershipRequest) :=
  runAll serveMemberships {} (.start (.housekeeping twoUsers) :: Act.runs 0 sampleAnswer 100 3 ++
    .start (.createCustomer 7 "Doda" 3 "system") :: Act.runs 1 sampleAnswer 103 13 ++
    .start (.customer ⟨3, .AAL1⟩ 7 (.invite 4 .MEMBER)) :: Act.runs 2 sampleAnswer 116 16 ++
    .start (.createWorkspace 7 "Team" "system") :: Act.runs 3 sampleAnswer 132 12 ++
    .start (.workspace ⟨3, .AAL1⟩ 132 (.addMember 119 .MEMBER)) ::
      Act.runs 4 sampleAnswer 144 17)

/-- User 3 then makes user 4 an auditor. -/
def sampleDemoted : Option (Sys Row Answer Err MembershipReply MembershipRequest) :=
  sampleTeam.bind fun s => runAll serveMemberships s
    (.start (.customer ⟨3, .AAL1⟩ 7 (.changeRole 119 .AUDITOR)) ::
      Act.runs 5 sampleAnswer 161 13)

/-- The owner has no row of their own in the workspace. -/
theorem listing_agrees_sample : ∃ s, sampleTeam = some s ∧
    Alone AnyAnswer (fun entries _ _ =>
        ∃ e ∈ entries, e.workspaceId = 132 ∧ e.role = .WORKSPACE_ADMIN)
      (fun _ _ _ => False) (listMyWorkspaces 3) (committed s.hist) {} := by
  have hrun : (sampleTeam.any fun s => (minted s.hist).Nodup ∧
      row (committed s.hist) (.workspace 132) = some ⟨7, "Team", none⟩ ∧
      row (committed s.hist) (.customerMembership 104) = some ⟨7, 3, .CUSTOMER_OWNER⟩) = true := by
    decide +kernel
  obtain ⟨s, hst, hs⟩ := (Option.any_eq_true _ _).1 hrun
  obtain ⟨hn, hworkspace, howner⟩ := of_decide_eq_true hs
  have hreach := Reachable.init.runAll hst
  have hv := hreach.faithful
  have hrole : RoleIn (committed s.hist) 3 132 .WORKSPACE_ADMIN :=
    ⟨_, hworkspace, rfl, .inl ⟨⟨104, _, howner, ⟨rfl, rfl⟩, rfl⟩, rfl⟩⟩
  have hadmitted : Granted (committed s.hist) ⟨3, .AAL1⟩ 132 .WORKSPACE_ADMIN :=
    (admitted_iff (membersUnique_of_valid hv) (joined_of_valid hv)).2 hrole
  refine ⟨s, hst, (listing_agrees hreach hn (List.suffix_refl _) ⟨3, .AAL1⟩).mono ?_
    fun _ _ _ h => h⟩
  rintro entries - - ⟨-, -, hroles, -⟩
  exact (hroles _ _).2 hadmitted

/-- The roster still has the auditor. -/
theorem roster_agrees_iff_sample : ∃ s, sampleDemoted = some s ∧
    Alone AnyAnswer (fun entries _ _ => ¬ ∀ who r,
        (∃ e ∈ entries, e.userId = who.userId ∧ e.role = r) ↔ Granted (committed s.hist) who 132 r)
      (fun _ _ _ => False) (listWorkspaceMembers 7 132) (committed s.hist) {} := by
  have hrun : (sampleDemoted.any fun s =>
      row (committed s.hist) (.workspace 132) = some ⟨7, "Team", none⟩ ∧
      row (committed s.hist) (.workspaceMembership 150) = some ⟨7, 119, 132, .MEMBER⟩ ∧
      row (committed s.hist) (.customerMembership 119) = some ⟨7, 4, .AUDITOR⟩ ∧
      (row (committed s.hist) (.user 4)).isSome) = true := by
    decide +kernel
  obtain ⟨s, hst, hs⟩ := (Option.any_eq_true _ _).1 hrun
  obtain ⟨hworkspace, hmember, hauditor, huser⟩ := of_decide_eq_true hs
  obtain ⟨s₀, hst₀, hst₁⟩ := Option.bind_eq_some_iff.1 hst
  have hreach := (Reachable.init.runAll hst₀).runAll hst₁
  refine ⟨s, hst, (roster_agrees_iff hreach (List.suffix_refl _) hworkspace rfl).mono ?_
    fun _ _ _ h => h⟩
  rintro entries - - ⟨-, -, -, -, hiff⟩ hagree
  have hfits := hiff.1 hagree
  exact (hfits.members 4 150 _ _ ⟨hmember, rfl, hauditor, rfl, rfl⟩ rfl huser).1 rfl

end Sample

end Doda
