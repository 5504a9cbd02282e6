import Doda.Members.Mirror

/-!
# The tables agree

Three things that no foreign key says hold of the tables of customers, workspaces and members
in every history: the index of workspaces names the customer of each, a member's customer is
there, and the unique constraint of workspace memberships has their rows.

## Main definitions

* `WorkspaceMembersUnique` — the unique constraint of workspace memberships.
* `Joined` — the three.

## Main results

* `joined_of_valid` — every history.
-/

namespace Doda

open ReadCommitted

/-- The unique constraint of workspace memberships. -/
def WorkspaceMembersUnique (db : Db) : Prop :=
  ∀ id a b, row db (.workspaceMember a b) = some id ↔
    ∃ m ∈ row db (.workspaceMembership id), m.customerMembershipId = a ∧ m.workspaceId = b

/-- What the tables say of each other. -/
structure Joined (db : Db) : Prop where
  workspaces : ∀ w t, row db (.workspaceTenantIndex w) = some t ↔
    ∃ ws ∈ row db (.workspace w), ws.customerId = t
  customers : ∀ id, ∀ m ∈ row db (.customerMembership id), (row db (.customer m.customerId)).isSome
  members : WorkspaceMembersUnique db

section Rows

variable {c c' : Db} {S : Db → Prop} {M : Uuid → Prop} {ws : Db}

theorem WorkspaceMembersUnique.congr (H : WorkspaceMembersUnique c)
    (hrow : ∀ id, row c' (.workspaceMembership id) = row c (.workspaceMembership id))
    (hkey : ∀ a b, row c' (.workspaceMember a b) = row c (.workspaceMember a b)) :
    WorkspaceMembersUnique c' := by
  intro id a b
  rw [hkey, hrow]
  exact H id a b

theorem WorkspaceMembersUnique.eq (H : WorkspaceMembersUnique c) {id id' : Uuid}
    {m m' : WorkspaceMembership} (hm : row c (.workspaceMembership id) = some m)
    (hm' : row c (.workspaceMembership id') = some m')
    (hc : m'.customerMembershipId = m.customerMembershipId) (hw : m'.workspaceId = m.workspaceId) :
    id' = id := by
  have h := (H id _ _).2 ⟨m, hm, rfl, rfl⟩
  have h' := (H id' _ _).2 ⟨m', hm', hc, hw⟩
  rw [h] at h'
  exact (Option.some.inj h').symm

/-- A new member of a workspace. -/
theorem WorkspaceMembersUnique.added (H : WorkspaceMembersUnique c) {id : Uuid}
    {m : WorkspaceMembership} (hnew : row c (.workspaceMembership id) = none)
    (hkey : row c (.workspaceMember m.customerMembershipId m.workspaceId) = none) :
    WorkspaceMembersUnique ([⟨.workspaceMember m.customerMembershipId m.workspaceId, some id⟩,
      ⟨.workspaceMembership id, some m⟩] ++ c) := by
  intro i a b
  have H := H i a b
  have hrow : row ([⟨.workspaceMember m.customerMembershipId m.workspaceId, some id⟩,
      ⟨.workspaceMembership id, some m⟩] ++ c) (.workspaceMembership i) =
        if id = i then some m else row c (.workspaceMembership i) := by
    by_cases hid : id = i
    · subst hid
      simp [row_cons_ne]
    · simp [row_cons_ne, hid]
  have hmember : row ([⟨.workspaceMember m.customerMembershipId m.workspaceId, some id⟩,
      ⟨.workspaceMembership id, some m⟩] ++ c) (.workspaceMember a b) =
        if m.customerMembershipId = a ∧ m.workspaceId = b then some id
        else row c (.workspaceMember a b) := by
    by_cases hm : m.customerMembershipId = a ∧ m.workspaceId = b
    · obtain ⟨rfl, rfl⟩ := hm
      simp
    · have hne : Key.workspaceMember m.customerMembershipId m.workspaceId ≠
          .workspaceMember a b := by
        simpa using hm
      simp [row_cons_ne, hne, hm]
  rw [hrow, hmember]
  by_cases hid : id = i
  · subst hid
    rw [hnew] at H
    by_cases hm : m.customerMembershipId = a ∧ m.workspaceId = b
    · simp [hm]
    · simpa [hm] using H
  · by_cases hm : m.customerMembershipId = a ∧ m.workspaceId = b
    · obtain ⟨rfl, rfl⟩ := hm
      rw [hkey] at H
      simpa [hid] using H
    · simpa [hm, hid] using H

/-- Members who are removed. -/
theorem WorkspaceMembersUnique.cleared (H : WorkspaceMembersUnique c)
    {gone : List (Uuid × WorkspaceMembership)}
    (hgone : ∀ g ∈ gone, row c (.workspaceMembership g.1) = some g.2) :
    WorkspaceMembersUnique (Doda.cleared gone ++ c) := by
  intro i a b
  rw [row_cleared_membership, row_cleared_member]
  by_cases hm : ∃ g ∈ gone, g.2.customerMembershipId = a ∧ g.2.workspaceId = b
  · -- the constraint's row goes with the one membership that it is of
    rw [if_pos hm]
    obtain ⟨g, hg, rfl, rfl⟩ := hm
    refine iff_of_false (by simp) ?_
    split
    · simp
    · rename_i hnot
      rintro ⟨m, hm, hc, hw⟩
      have heq := H.eq (hgone g hg) hm hc hw
      exact hnot (List.mem_map.2 ⟨g, hg, heq.symm⟩)
  · rw [if_neg hm, H]
    split
    · rename_i hi
      obtain ⟨g, hg, rfl⟩ := List.mem_map.1 hi
      refine iff_of_false ?_ (by simp)
      rintro ⟨m, hrow, hc, hw⟩
      have hsame : g.2 = m := Option.some.inj ((hgone g hg).symm.trans hrow)
      exact hm ⟨g, hg, hsame ▸ hc, hsame ▸ hw⟩
    · rfl

/-- A customer stays. -/
theorem MembershipStep.customer_isSome (hst : MembershipStep S M c ws) {t : Uuid}
    (ht : (row c (.customer t)).isSome) : (row (ws ++ c) (.customer t)).isSome := by
  cases hst with
  | customerCreated id customer memberId m hid hminted hcustomer =>
    by_cases hid : id = t
    · subst hid
      rw [hcustomer] at ht
      cases ht
    · simpa [indexVersions, memberVersions, row_cons_ne, hid] using ht
  | removed id m gone found unindexed =>
    rw [List.append_assoc, List.append_assoc]
    have hrest : row (droppedVersions id found ++ (Doda.cleared gone ++ c)) (.customer t) =
        row c (.customer t) := by
      cases found with
      | none => exact row_cleared _ rfl _
      | some m' => simpa [droppedVersions, row_cons_ne] using row_cleared _ rfl c
    rw [row_unindexedVersions (by simp), hrest]
    exact ht
  | invited id m found =>
    rw [List.append_assoc, row_indexVersions (by simp)]
    simpa [memberVersions, row_cons_ne] using ht
  | memberRemoved gone =>
    rw [row_cleared _ rfl]
    exact ht
  | idle => exact ht
  | workspaceCreated | roleChanged | memberAdded | memberRoleChanged | archived =>
    simpa [row_cons_ne] using ht

/-- A table of workspaces. -/
def Key.ofWorkspace : Key → Bool
  | .workspace _ | .workspaceTenantIndex _ => true
  | _ => false

/-- A step that writes neither of the two tables. -/
theorem workspaces_congr (hk : ∀ k ∈ keys ws, k.ofWorkspace = false)
    (H : ∀ w t, row c (.workspaceTenantIndex w) = some t ↔
      ∃ v ∈ row c (.workspace w), v.customerId = t) (w t : Uuid) :
    row (ws ++ c) (.workspaceTenantIndex w) = some t ↔
      ∃ v ∈ row (ws ++ c) (.workspace w), v.customerId = t := by
  have hindex : .workspaceTenantIndex w ∉ keys ws := fun hmem => by cases hk _ hmem
  have hrow : .workspace w ∉ keys ws := fun hmem => by cases hk _ hmem
  rw [row_append_of_notMem _ hindex, row_append_of_notMem _ hrow]
  exact H w t

/-- The index of workspaces after a step. -/
theorem MembershipStep.workspaces (hst : MembershipStep S M c ws)
    (H : ∀ w t, row c (.workspaceTenantIndex w) = some t ↔
      ∃ v ∈ row c (.workspace w), v.customerId = t) (w t : Uuid) :
    row (ws ++ c) (.workspaceTenantIndex w) = some t ↔
      ∃ v ∈ row (ws ++ c) (.workspace w), v.customerId = t := by
  have hH := H w t
  cases hst with
  | workspaceCreated id v hopen hnew hindex =>
    by_cases hid : id = w
    · subst hid
      simp [row_cons_ne]
    · simpa [row_cons_ne, hid] using hH
  | archived id v archivedAt hrow =>
    by_cases hid : id = w
    · subst hid
      rw [hrow] at hH
      simpa [row_cons_ne] using hH
    · simpa [row_cons_ne, hid] using hH
  | removed id m gone found unindexed =>
    refine workspaces_congr (fun k hk => ?_) H w t
    rw [keys_append, keys_append, List.mem_append, List.mem_append] at hk
    rcases hk with hk | hk | hk
    · cases unindexed <;> simp [unindexedVersions] at hk
      subst hk
      rfl
    · cases found with
      | none => cases hk
      | some m' =>
        simp only [droppedVersions, keys_cons, keys_nil, List.mem_cons, List.not_mem_nil,
          or_false] at hk
        rcases hk with rfl | rfl <;> rfl
    · have hwm := keys_cleared hk
      cases k <;> first | rfl | cases hwm
  | memberRemoved gone =>
    refine workspaces_congr (fun k hk => ?_) H w t
    have hwm := keys_cleared hk
    cases k <;> first | rfl | cases hwm
  | idle => exact hH
  | invited id m found => cases found <;>
      simpa [indexVersions, memberVersions, row_cons_ne] using hH
  | customerCreated => simpa [indexVersions, memberVersions, row_cons_ne] using hH
  | roleChanged | memberAdded | memberRoleChanged => simpa [row_cons_ne] using hH

/-- A member's customer after a step. -/
theorem MembershipStep.customers (hst : MembershipStep S M c ws)
    (hS : ∀ c₀, S c₀ → ∀ t, (row c₀ (.customer t)).isSome → (row c (.customer t)).isSome)
    (H : ∀ id, ∀ m ∈ row c (.customerMembership id), (row c (.customer m.customerId)).isSome) :
    ∀ id, ∀ m ∈ row (ws ++ c) (.customerMembership id),
      (row (ws ++ c) (.customer m.customerId)).isSome := by
  intro id m hm
  have hold : m ∈ row c (.customerMembership id) →
      (row (ws ++ c) (.customer m.customerId)).isSome := fun hm => hst.customer_isSome (H id m hm)
  have hst' := hst
  cases hst with
  | idle => exact hold hm
  | customerCreated cid customer memberId m₀ hid =>
    rw [List.append_assoc, List.append_assoc, row_indexVersions (by simp),
      row_memberVersions] at hm
    split at hm
    · obtain rfl := Option.some.inj hm
      subst hid
      simp [indexVersions, memberVersions, row_cons_ne]
    · exact hold (by simpa [row_cons_ne] using hm)
  | invited memberId m₀ found hminted hcustomer =>
    rw [List.append_assoc, row_indexVersions (by simp), row_memberVersions] at hm
    split at hm
    · obtain rfl := Option.some.inj hm
      obtain ⟨c₀, hc₀, hsome⟩ := hcustomer
      exact hst'.customer_isSome (hS c₀ hc₀ _ hsome)
    · exact hold hm
  | roleChanged memberId m₀ role hrow =>
    by_cases hid : memberId = id
    · subst hid
      obtain rfl : ({ m₀ with role := role } : CustomerMembership) = m := by simpa using hm
      exact hst'.customer_isSome (H memberId m₀ hrow)
    · exact hold (by simpa [row_cons_ne, hid] using hm)
  | removed memberId m₀ gone found unindexed =>
    rw [List.append_assoc, List.append_assoc, row_unindexedVersions (by simp),
      row_droppedVersions, row_cleared _ rfl] at hm
    split at hm
    · cases hm
    · exact hold hm
  | memberRemoved gone =>
    rw [row_cleared _ rfl] at hm
    exact hold hm
  | workspaceCreated | memberAdded | memberRoleChanged | archived =>
    exact hold (by simpa [row_cons_ne] using hm)

/-- The unique constraint of workspace memberships after a step. -/
theorem WorkspaceMembersUnique.step (H : WorkspaceMembersUnique c)
    (hst : MembershipStep S M c ws) : WorkspaceMembersUnique (ws ++ c) := by
  cases hst with
  | idle => exact H
  | memberAdded id m hworkspace hmember hnew hkey => exact H.added hnew hkey
  | memberRoleChanged id m role hrow =>
    intro i a b
    have H := H i a b
    rw [List.singleton_append, row_cons_ne _ _ (by simp)]
    by_cases hid : id = i
    · subst hid
      rw [hrow] at H
      simpa using H
    · rw [row_cons_ne _ _ (by simpa using hid)]
      exact H
  | memberRemoved gone hgone => exact H.cleared hgone
  | removed id m gone found unindexed hloaded hgone =>
    have H := H.cleared hgone
    have hrest : ∀ k : Key, k.ofWorkspaceMember = true →
        row (unindexedVersions m unindexed ++ (droppedVersions id found ++ Doda.cleared gone) ++ c)
          k = row (Doda.cleared gone ++ c) k := by
      intro k hk
      have hne : ∀ {k' : Key}, k'.ofWorkspaceMember = false → k' ≠ k := by
        rintro k' hk' rfl
        rw [hk] at hk'
        cases hk'
      rw [List.append_assoc, List.append_assoc, row_unindexedVersions (hne rfl).symm]
      cases found with
      | none => rfl
      | some m' =>
        change row (_ :: _ :: _) k = _
        rw [row_cons_ne _ _ (hne rfl), row_cons_ne _ _ (hne rfl)]
        rfl
    exact H.congr (fun _ => hrest _ rfl) fun _ _ => hrest _ rfl
  | invited id m found =>
    refine H.congr (fun _ => ?_) fun _ _ => ?_ <;> cases found <;>
      simp [indexVersions, memberVersions, row_cons_ne]
  | customerCreated =>
    exact H.congr (fun _ => by simp [indexVersions, memberVersions, row_cons_ne])
      fun _ _ => by simp [indexVersions, memberVersions, row_cons_ne]
  | workspaceCreated | roleChanged | archived =>
    exact H.congr (fun _ => by simp [row_cons_ne]) fun _ _ => by simp [row_cons_ne]

/-- **A step keeps the tables in agreement.** -/
theorem Joined.step (H : Joined c) (hst : MembershipStep S M c ws)
    (hS : ∀ c₀, S c₀ → ∀ t, (row c₀ (.customer t)).isSome → (row c (.customer t)).isSome) :
    Joined (ws ++ c) where
  workspaces := hst.workspaces H.workspaces
  customers := hst.customers hS H.customers
  members := H.members.step hst

/-- Other tables do not matter. -/
theorem Joined.of_belonging {w : Db} (H : Joined (belonging w ++ c)) : Joined (w ++ c) where
  workspaces id t := by
    rw [← row_belonging rfl w c, ← row_belonging rfl w c]
    exact H.workspaces id t
  customers id m hm := by
    rw [← row_belonging rfl w c] at hm ⊢
    exact H.customers id m hm
  members := H.members.congr (fun _ => (row_belonging rfl w c).symm)
    fun _ _ => (row_belonging rfl w c).symm

end Rows

section Valid

variable [Sha256] {h h' : Hist}

/-- Customers stay. -/
theorem customer_isSome_of_suffix (hv : (faithful serveMemberships).Valid h') (hle : h <:+ h')
    {t : Uuid} (ht : (row (committed h) (.customer t)).isSome) :
    (row (committed h') (.customer t)).isSome := by
  obtain ⟨evs, rfl⟩ := hle
  induction evs with
  | nil => exact ht
  | cons ev evs ih =>
    have ih := ih hv.2
    cases ev with
    | committed p w =>
      have hst := membershipStep_of_commits hv.1 hv.1.answered.seen
      have hrow := hst.customer_isSome ih
      rwa [row_belonging rfl] at hrow
    | ran | called | failed | rolledBack | crashed => exact ih

/-- **The tables agree in every history.** -/
theorem joined_of_valid (hv : (faithful serveMemberships).Valid h) : Joined (committed h) := by
  induction h with
  | nil => exact ⟨by simp, by simp, by simp [WorkspaceMembersUnique]⟩
  | cons ev h ih =>
    cases ev with
    | committed p w =>
      have hst := membershipStep_of_commits hv.1 hv.1.answered.seen
      refine ((ih hv.2).step hst ?_).of_belonging
      rintro _ ⟨h₀, hle, rfl⟩ t ht
      exact customer_isSome_of_suffix hv.2 hle ht
    | ran | called | failed | rolledBack | crashed => exact ih hv.2

end Valid

end Doda
