import Doda.Lib.Seen
import Doda.Members.Deeds

/-!
# What a commit does to who belongs where

Every commit takes one of a few steps over the tables of customers, workspaces and their
members; the versions that it writes there are given with what was read before.

## Main definitions

* `belonging w` — the versions of these tables.
* `MembershipStep` — what a commit writes there.

## Main results

* `membershipStep_of_commits` — each commit.
-/

namespace Doda

open ReadCommitted

/-- The versions of the tables that say who belongs where. -/
def belonging (w : Db) : Db := w.filter (·.1.belonging)

/-- What deleting workspace memberships writes. -/
def cleared : List (Uuid × WorkspaceMembership) → Db
  | [] => []
  | (id, m) :: gone => cleared gone ++ [⟨.workspaceMember m.customerMembershipId m.workspaceId, none⟩,
      ⟨.workspaceMembership id, none⟩]

/-- What a new member's rows are. -/
def memberVersions (id : Uuid) (m : CustomerMembership) : Db :=
  [⟨.customerMember m.customerId m.userId, some id⟩, ⟨.customerMembership id, some m⟩]

/-- What indexing a new member writes. -/
def indexVersions (m : CustomerMembership) : Option Unit → Db
  | none => [⟨.userCustomerIndex m.userId m.customerId, some ()⟩]
  | some () => []

/-- What deleting a membership writes. -/
def droppedVersions (id : Uuid) : Option CustomerMembership → Db
  | none => []
  | some m => [⟨.customerMember m.customerId m.userId, none⟩, ⟨.customerMembership id, none⟩]

/-- What dropping an index row writes. -/
def unindexedVersions (m : CustomerMembership) : Bool → Db
  | false => []
  | true => [⟨.userCustomerIndex m.userId m.customerId, none⟩]

/-- What a commit to the store `c` writes to these tables, where it has read stores of `S` and its
`uuid4` has answered ids of `M`. -/
inductive MembershipStep (S : Db → Prop) (M : Uuid → Prop) (c : Db) : Db → Prop
  | idle : MembershipStep S M c []
  | customerCreated (id : Uuid) (customer : Customer) (memberId : Uuid) (m : CustomerMembership)
      (hid : m.customerId = id) (hminted : M memberId) (hcustomer : row c (.customer id) = none)
      (hnew : row c (.customerMembership memberId) = none)
      (hmember : row c (.customerMember m.customerId m.userId) = none)
      (hindex : row c (.userCustomerIndex m.userId m.customerId) = none) :
    MembershipStep S M c (indexVersions m none ++ memberVersions memberId m ++
      [⟨.customer id, some customer⟩])
  | workspaceCreated (id : Uuid) (w : Workspace) (hopen : w.archivedAt = none)
      (hnew : row c (.workspace id) = none) (hindex : row c (.workspaceTenantIndex id) = none) :
    MembershipStep S M c [⟨.workspaceTenantIndex id, some w.customerId⟩, ⟨.workspace id, some w⟩]
  | invited (id : Uuid) (m : CustomerMembership) (found : Option Unit) (hminted : M id)
      (hcustomer : ∃ c₀, S c₀ ∧ (row c₀ (.customer m.customerId)).isSome)
      (hnew : row c (.customerMembership id) = none)
      (hmember : row c (.customerMember m.customerId m.userId) = none)
      (hindex : found = none → row c (.userCustomerIndex m.userId m.customerId) = none)
      (hread : ∃ c₀, S c₀ ∧ row c₀ (.customerMember m.customerId m.userId) = none ∧
        row c₀ (.userCustomerIndex m.userId m.customerId) = found) :
    MembershipStep S M c (indexVersions m found ++ memberVersions id m)
  | roleChanged (id : Uuid) (m : CustomerMembership) (role : CustomerRole)
      (hrow : row c (.customerMembership id) = some m) :
    MembershipStep S M c [⟨.customerMembership id, some { m with role := role }⟩]
  | removed (id : Uuid) (m : CustomerMembership) (gone : List (Uuid × WorkspaceMembership))
      (found : Option CustomerMembership) (unindexed : Bool)
      (hloaded : ∃ c₀, S c₀ ∧ row c₀ (.customerMembership id) = some m)
      (hgone : ∀ g ∈ gone, row c (.workspaceMembership g.1) = some g.2)
      (hfound : ∀ m' ∈ found, row c (.customerMembership id) = some m')
      (hmissing : found = none → ∃ c₀, S c₀ ∧ row c₀ (.customerMembership id) = none)
      (hkept : unindexed = false → ∃ c₀, S c₀ ∧
        (∀ m' ∈ found, row c₀ (.customerMembership id) = some m') ∧
        (row c₀ (.userCustomerIndex m.userId m.customerId) = none ∨
          ∃ id' m', row c₀ (.customerMembership id') = some m' ∧ (found.isSome → id' ≠ id) ∧
            m'.userId = m.userId ∧ m'.customerId = m.customerId)) :
    MembershipStep S M c
      (unindexedVersions m unindexed ++ (droppedVersions id found ++ cleared gone))
  | memberAdded (id : Uuid) (m : WorkspaceMembership)
      (hworkspace : ∃ c₀ w, S c₀ ∧ row c₀ (.workspace m.workspaceId) = some w ∧
        w.customerId = m.customerId)
      (hmember : ∃ c₀ c', S c₀ ∧ row c₀ (.customerMembership m.customerMembershipId) = some c' ∧
        c'.customerId = m.customerId ∧ c'.role ≠ .AUDITOR)
      (hnew : row c (.workspaceMembership id) = none)
      (hkey : row c (.workspaceMember m.customerMembershipId m.workspaceId) = none) :
    MembershipStep S M c [⟨.workspaceMember m.customerMembershipId m.workspaceId, some id⟩,
      ⟨.workspaceMembership id, some m⟩]
  | memberRoleChanged (id : Uuid) (m : WorkspaceMembership) (role : WorkspaceRole)
      (hrow : row c (.workspaceMembership id) = some m) :
    MembershipStep S M c [⟨.workspaceMembership id, some { m with role := role }⟩]
  | memberRemoved (gone : List (Uuid × WorkspaceMembership))
      (hgone : ∀ g ∈ gone, row c (.workspaceMembership g.1) = some g.2) :
    MembershipStep S M c (cleared gone)
  | archived (id : Uuid) (w : Workspace) (archivedAt : Option Time)
      (hrow : row c (.workspace id) = some w) :
    MembershipStep S M c [⟨.workspace id, some (w.setArchivedAt archivedAt)⟩]

/-! ## Removals -/

section Removals

variable {p : ℕ} {gone : List (Uuid × WorkspaceMembership)} {evs evs' : Hist} {c : Db}

/-- A key of the workspaces' members. -/
def Key.ofWorkspaceMember : Key → Bool
  | .workspaceMembership _ | .workspaceMember _ _ => true
  | _ => false

theorem Clears.went (h : Clears p gone evs evs') :
    Moved (·.ofWorkspaceMember = true) p evs evs' := by
  induction h with
  | nil evs => exact .refl _
  | missing id _ ih => exact ih.of_ran trivial
  | deleted id m _ ih => exact ((ih.of_ran (by rfl)).of_ran (by rfl)).of_ran trivial

/-- Each row that was deleted had been there. -/
theorem Clears.gone_eq (h : Clears p gone evs evs') (ht : Told c evs') :
    ∀ g ∈ gone, replay c evs (.workspaceMembership g.1) = some g.2 := by
  induction h with
  | nil evs => simp
  | missing id _ ih => exact ih ht
  | @deleted id m gone evs evs' hrest ih =>
    obtain ⟨-, -, hread, -⟩ := hrest.went.told ht
    rw [List.forall_mem_cons]
    refine ⟨hread rfl, fun g hg => ?_⟩
    have hlater := ih ht g hg
    by_cases hid : id = g.1
    · subst hid
      simp [replay, Stmt.effect] at hlater
    · simpa [replay, Stmt.effect, hid] using hlater

theorem Clears.belonging_written (h : Clears p gone evs evs') :
    belonging (written c evs') = cleared gone ++ belonging (written c evs) := by
  induction h with
  | nil evs => rfl
  | missing id _ ih => exact ih
  | deleted id m _ ih =>
    rw [ih, cleared, List.append_assoc]
    rfl

/-- The rows after a deletion. -/
theorem row_cleared (k : Key) (hk : k.ofWorkspaceMember = false) (c : Db) :
    row (cleared gone ++ c) k = row c k := by
  refine row_append_of_notMem _ fun hmem => ?_
  induction gone with
  | nil => simp [cleared] at hmem
  | cons g gone ih =>
    obtain ⟨id, m⟩ := g
    rw [cleared, keys_append, List.mem_append] at hmem
    rcases hmem with hmem | hmem
    · exact ih hmem
    · simp only [keys_cons, keys_nil, List.mem_cons, List.not_mem_nil, or_false] at hmem
      obtain rfl | rfl := hmem <;> cases hk

theorem row_cleared_membership (id : Uuid) (c : Db) :
    row (cleared gone ++ c) (.workspaceMembership id) =
      if id ∈ gone.map (·.1) then none else row c (.workspaceMembership id) := by
  induction gone generalizing c with
  | nil => rfl
  | cons g gone ih =>
    obtain ⟨id', m⟩ := g
    rw [cleared, List.append_assoc, ih, List.map_cons]
    by_cases hid : id' = id
    · subst hid
      simp [row_cons_ne]
    · have hne : Key.workspaceMembership id' ≠ .workspaceMembership id := by simpa using hid
      have hiff : id ∈ gone.map (·.1) ↔ id ∈ id' :: gone.map (·.1) := by simp [Ne.symm hid]
      simpa [row_cons_ne, hne] using if_congr hiff rfl rfl

theorem row_cleared_member (a b : Uuid) (c : Db) :
    row (cleared gone ++ c) (.workspaceMember a b) =
      if ∃ g ∈ gone, g.2.customerMembershipId = a ∧ g.2.workspaceId = b then none
      else row c (.workspaceMember a b) := by
  induction gone generalizing c with
  | nil => rfl
  | cons g gone ih =>
    obtain ⟨id', m⟩ := g
    rw [cleared, List.append_assoc, ih]
    by_cases hm : m.customerMembershipId = a ∧ m.workspaceId = b
    · obtain ⟨rfl, rfl⟩ := hm
      simp
    · have hne : Key.workspaceMember m.customerMembershipId m.workspaceId ≠
          .workspaceMember a b := by
        simpa using hm
      have hiff : (∃ g ∈ gone, g.2.customerMembershipId = a ∧ g.2.workspaceId = b) ↔
          ∃ g ∈ (id', m) :: gone, g.2.customerMembershipId = a ∧ g.2.workspaceId = b := by
        simp [hm]
      simpa [row_cons_ne, hne] using if_congr hiff rfl rfl

end Removals

/-! ## Every commit -/

section Commits

variable {h : Hist} {p : ℕ} {w : Db} {evs evs' : Hist}

theorem Elsewhere.row_eq (he : Elsewhere p evs evs') {k : Key} (hk : k.belonging = true) (c : Db) :
    replay c evs' k = replay c evs k :=
  Went.replay_eq he (by simp [hk]) c

theorem Elsewhere.belonging_written (he : Elsewhere p evs evs') (c : Db) :
    belonging (written c evs') = belonging (written c evs) :=
  Went.filter_written he c

theorem Looked.row_eq (he : Looked p [] evs) (k : Key) (c : Db) : replay c evs k = row c k :=
  Went.replay_eq he (fun h => h) c

theorem Looked.belonging_written (he : Looked p [] evs) (c : Db) :
    belonging (written c evs) = [] :=
  he.elsewhere.belonging_written c

/-- A row that a transaction has read before it wrote. -/
theorem Looked.exists_read {S : Db → Prop} {evs₀ : Hist} (hl : Looked p [] evs₀) (hs : Seen S evs₀)
    {k : Key} {x : Option (Row k)} (hmem : .ran p (.get k) x ∈ evs₀) :
    ∃ c₀, S c₀ ∧ row c₀ k = x := by
  obtain ⟨evs₁, c₀, hsuf, hc₀, -, hright⟩ := hs.exists_of_mem hmem
  obtain ⟨new, rfl, hnew⟩ := hl
  obtain ⟨new', hnew'⟩ := hsuf
  have hlooked : Looked p [] evs₁ := by
    refine ⟨evs₁, (List.append_nil _).symm, fun ev hev => hnew ev ?_⟩
    rw [List.append_nil] at hnew'
    rw [← hnew']
    exact List.mem_append_right _ (List.mem_cons_of_mem _ hev)
  exact ⟨c₀, hc₀, (hlooked.row_eq k c₀).symm.trans hright.symm⟩

variable {S : Db → Prop} {c : Db}

theorem Drops.went {id : Uuid} {found : Option CustomerMembership} (h : Drops p id found evs evs') :
    evs <:+ evs' := by
  cases h with
  | missing => exact List.suffix_cons ..
  | deleted m =>
    exact ((List.suffix_cons ..).trans (List.suffix_cons ..)).trans (List.suffix_cons ..)

theorem Drops.belonging_written {id : Uuid} {found : Option CustomerMembership}
    (h : Drops p id found evs evs') :
    belonging (written c evs') = droppedVersions id found ++ belonging (written c evs) := by
  cases h with
  | missing => rfl
  | deleted m => rfl

/-- The row that was deleted had been there. -/
theorem Drops.found_eq {id : Uuid} {found : Option CustomerMembership}
    (h : Drops p id found evs evs') (ht : Told c evs') :
    (∀ m ∈ found, replay c evs (.customerMembership id) = some m) ∧ Told c evs := by
  cases h with
  | missing => exact ⟨by simp, ht.2⟩
  | deleted m =>
    obtain ⟨-, -, hread, ht⟩ := ht
    exact ⟨by simpa using hread rfl, ht⟩

/-- The memberships that are left. -/
theorem Drops.replay_eq {id : Uuid} {found : Option CustomerMembership}
    (h : Drops p id found evs evs') (id' : Uuid) :
    replay c evs' (.customerMembership id') =
      if found.isSome ∧ id = id' then none else replay c evs (.customerMembership id') := by
  cases h with
  | missing => simp [replay, Stmt.effect]
  | deleted m => simp [replay, Stmt.effect]

theorem Drops.index_eq {id : Uuid} {found : Option CustomerMembership}
    (h : Drops p id found evs evs') (u t : Uuid) :
    replay c evs' (.userCustomerIndex u t) = replay c evs (.userCustomerIndex u t) := by
  cases h with
  | missing => rfl
  | deleted m => simp [replay, Stmt.effect]

/-- A membership of a user. -/
theorem mem_of_membershipOf {db : Db} {customerId userId : Uuid} {m : CustomerMembership}
    (hm : membershipOf db customerId userId = some m) : ∃ id,
      row db (.customerMembership id) = some m ∧ m.customerId = customerId ∧ m.userId = userId := by
  obtain ⟨k, v, hv, hk⟩ := mem_collect.1 (List.mem_of_mem_head? hm)
  cases k with
  | customerMembership id =>
    dsimp only at hk
    split at hk
    · rename_i hboth
      obtain rfl := Option.some.inj hk
      exact ⟨id, hv, hboth⟩
    · cases hk
  | _ => cases hk

theorem Unindexes.suffix {u t : Uuid} {unindexed : Bool}
    (h : Unindexes p u t unindexed evs evs') : evs <:+ evs' := by
  cases h with
  | remaining => exact List.suffix_cons ..
  | unlisted => exact (List.suffix_cons ..).trans (List.suffix_cons ..)
  | gone => exact ((List.suffix_cons ..).trans (List.suffix_cons ..)).trans (List.suffix_cons ..)
  | dropped =>
    exact (((List.suffix_cons ..).trans (List.suffix_cons ..)).trans (List.suffix_cons ..)).trans
      (List.suffix_cons ..)

theorem Unindexes.belonging_written {m : CustomerMembership} {unindexed : Bool}
    (h : Unindexes p m.userId m.customerId unindexed evs evs') :
    belonging (written c evs') = unindexedVersions m unindexed ++ belonging (written c evs) := by
  cases h with
  | remaining | unlisted | gone | dropped => rfl

/-- Why an index row was kept. -/
theorem Unindexes.kept {u t : Uuid} (h : Unindexes p u t false evs evs') (hs : Seen S evs') :
    ∃ c₀, S c₀ ∧ Told c₀ evs ∧ (replay c₀ evs (.userCustomerIndex u t) = none ∨
      ∃ id m, replay c₀ evs (.customerMembership id) = some m ∧ m.userId = u ∧
        m.customerId = t) := by
  cases h with
  | remaining hleft =>
    obtain ⟨⟨c₀, hc₀, htold, hright⟩, -⟩ := hs
    obtain ⟨m, hm⟩ := Option.isSome_iff_exists.1 hleft
    obtain ⟨id, hrow, hcustomer, huser⟩ := mem_of_membershipOf hm
    exact ⟨c₀, hc₀, htold, .inr ⟨id, m, (hright _).symm.trans hrow, huser, hcustomer⟩⟩
  | unlisted db =>
    obtain ⟨⟨c₀, hc₀, htold, hright⟩, -⟩ := hs
    exact ⟨c₀, hc₀, htold.2, .inl hright.symm⟩
  | gone db =>
    obtain ⟨⟨c₀, hc₀, htold, hright⟩, -⟩ := hs
    exact ⟨c₀, hc₀, htold.2.2, .inl hright.symm⟩

/-- **What a deed writes.** -/
theorem MembershipDeed.step (hd : MembershipDeed p evs) (ht : Told c evs) (hs : Seen S evs) :
    MembershipStep S (fun id => .called p .uuid4 id ∈ evs) c (belonging (written c evs)) := by
  cases hd with
  | aside he =>
    rw [he.belonging_written]
    exact .idle
  | @customerCreated id customer memberId m _ hid he =>
    obtain ⟨hindex, hmember, hcustomer, -⟩ := he.told ht
    have hminted := he.suffix.subset (List.mem_cons_of_mem _ (List.mem_cons_of_mem _
      (List.mem_cons_self ..)))
    rw [he.belonging_written]
    refine .customerCreated id customer memberId m hid hminted ?_ ?_ ?_ ?_
    · exact hcustomer _ (List.mem_singleton_self _)
    · simpa [replay, Stmt.effect_insert_ne] using hmember _ (List.mem_cons_self ..)
    · simpa [replay, Stmt.effect_insert_ne] using
        hmember _ (List.mem_cons_of_mem _ (List.mem_cons_self ..))
    · simpa [replay, Stmt.effect, memberRows, Entry.version, row_cons_ne] using
        hindex _ (List.mem_singleton_self _)
  | @workspaceCreated id traceId w _ hopen he =>
    obtain ⟨hindex, hnew, -⟩ := he.told ht
    rw [he.belonging_written]
    refine .workspaceCreated id w hopen ?_ ?_
    · exact hnew _ (List.mem_singleton_self _)
    · simpa [replay, Stmt.effect_insert_ne] using hindex _ (List.mem_singleton_self _)
  | @invited customer id m found evs₀ _ h₀ hcustomer he =>
    have hread : ∃ evs₁, indexed p m.userId m.customerId found
        (.ran p (.tryInsert (memberRows id m)) true :: .called p .uuid4 id :: evs₀) =
        evs₁ ++ .ran p (.get (.userCustomerIndex m.userId m.customerId)) found ::
          .ran p (.tryInsert (memberRows id m)) true :: .called p .uuid4 id :: evs₀ := by
      cases found with
      | none => exact ⟨[_], rfl⟩
      | some u => exact ⟨[], rfl⟩
    obtain ⟨evs₁, heq⟩ := hread
    have htold := he.told ht
    have hseen := hs.of_suffix he.suffix
    have hsuffix := he.suffix
    rw [heq] at hseen hsuffix
    obtain ⟨⟨c₁, hc₁, htold₁, hright⟩, -, hseen⟩ := hseen.of_append
    rw [he.belonging_written]
    have hwritten : belonging (written c (indexed p m.userId m.customerId found
        (.ran p (.tryInsert (memberRows id m)) true :: .called p .uuid4 id :: evs₀))) =
        indexVersions m found ++ memberVersions id m := by
      have hnil := h₀.belonging_written c
      cases found with
      | none =>
        exact congrArg (indexVersions m none ++ memberVersions id m ++ ·) hnil
      | some u => exact congrArg (memberVersions id m ++ ·) hnil
    rw [hwritten]
    have hfresh : ∀ {c'}, Told c' (.ran p (.tryInsert (memberRows id m)) true ::
        .called p .uuid4 id :: evs₀) → ∀ e ∈ memberRows id m, row c' e.1 = none := by
      intro c' ht e he
      exact (h₀.row_eq e.1 c').symm.trans (ht.1 rfl e he)
    have htold' : Told c (.ran p (.tryInsert (memberRows id m)) true ::
        .called p .uuid4 id :: evs₀) := by
      rw [heq] at htold
      exact htold.of_append.2
    refine .invited id m found ?_ ?_ ?_ ?_ ?_ ⟨c₁, hc₁, ?_, ?_⟩
    · exact hsuffix.subset (List.mem_append_right _ (List.mem_cons_of_mem _ (List.mem_cons_of_mem _
        (List.mem_cons_self ..))))
    · obtain ⟨c₀, hc₀, hrow⟩ := h₀.exists_read hseen hcustomer
      exact ⟨c₀, hc₀, by rw [hrow]; rfl⟩
    · exact hfresh htold' _ (List.mem_cons_self ..)
    · exact hfresh htold' _ (List.mem_cons_of_mem _ (List.mem_cons_self ..))
    · rintro rfl
      have hindex : replay c (.ran p (.tryInsert (memberRows id m)) true ::
          .called p .uuid4 id :: evs₀) (.userCustomerIndex m.userId m.customerId) = none := by
        exact htold.1 _ (List.mem_singleton_self _)
      rw [← h₀.row_eq]
      simpa [replay, Stmt.effect, memberRows, Entry.version, row_cons_ne] using hindex
    · exact hfresh htold₁ _ (List.mem_cons_of_mem _ (List.mem_cons_self ..))
    · rw [← h₀.row_eq, hright]
      simp [replay, Stmt.effect, memberRows, Entry.version, row_cons_ne]
  | @roleChanged id role evs₀ _ h₀ he =>
    obtain ⟨hupdated, -⟩ := he.told ht
    obtain ⟨m, hm⟩ := Option.isSome_iff_exists.1 hupdated
    rw [he.belonging_written, written_update hm]
    refine (congrArg (MembershipStep S _ c) ?_).mp (.roleChanged id m role ?_)
    · exact (congrArg (⟨.customerMembership id, some { m with role := role }⟩ :: ·)
        (h₀.belonging_written c)).symm
    · rw [← h₀.row_eq, hm]
  | @removed id m gone found unindexed evs₀ evs₁ evs₂ evs₃ _ h₀ hloaded h₁ h₂ h₃ h₄ =>
    have htold₃ : Told c evs₃ := by
      obtain ⟨new, rfl⟩ := h₄.suffix
      exact ht.of_append
    obtain ⟨hfound, htold₂⟩ := h₃.found_eq htold₃
    have hrow : ∀ c' {k : Key}, k.belonging = true → k.ofWorkspaceMember = false →
        replay c' evs₂ k = row c' k := by
      intro c' k hk hk'
      rw [h₂.row_eq hk, h₁.went.replay_eq (by simp [hk']), h₀.row_eq]
    rw [h₄.belonging_written, h₃.belonging_written, h₂.belonging_written, h₁.belonging_written,
      h₀.belonging_written, List.append_nil]
    have hseen₃ := hs.of_suffix h₄.suffix
    refine .removed id m gone found unindexed ?_ ?_ ?_ ?_ ?_
    · refine h₀.exists_read (hseen₃.of_suffix ?_) hloaded
      exact (h₁.went.suffix.trans h₂.suffix).trans h₃.went
    · intro g hg
      rw [← h₀.row_eq, h₁.gone_eq (h₂.told htold₂) g hg]
    · intro m' hm'
      rw [← hrow c rfl rfl, hfound m' hm']
    · rintro rfl
      cases h₃ with
      | missing =>
        obtain ⟨⟨c₀, hc₀, -, hright⟩, -⟩ := hseen₃
        exact ⟨c₀, hc₀, (hrow c₀ rfl rfl).symm.trans hright.symm⟩
    · rintro rfl
      obtain ⟨c₀, hc₀, htold₀, hwhy⟩ := h₄.kept hs
      obtain ⟨hfound₀, -⟩ := h₃.found_eq htold₀
      refine ⟨c₀, hc₀, fun m' hm' => (hrow c₀ rfl rfl).symm.trans (hfound₀ m' hm'), ?_⟩
      refine hwhy.imp (fun hnone => ?_) ?_
      · rwa [h₃.index_eq, hrow c₀ rfl rfl] at hnone
      · rintro ⟨id', m', hm', huser, hcustomer⟩
        rw [h₃.replay_eq] at hm'
        split at hm'
        · cases hm'
        · rename_i hne
          rw [hrow c₀ rfl rfl] at hm'
          exact ⟨id', m', hm', fun hsome heq => hne ⟨hsome, heq.symm⟩, huser, hcustomer⟩
  | @memberAdded id m w' c' evs₀ _ h₀ hworkspace hmember hw hc hrole he =>
    obtain ⟨hfresh, -⟩ := he.told ht
    have hseen : Seen S evs₀ := (hs.of_suffix he.suffix).2
    have hfresh : ∀ e ∈ workspaceMemberRows id m, row c e.1 = none := fun e hmem =>
      (h₀.row_eq e.1 c).symm.trans (hfresh rfl e hmem)
    rw [he.belonging_written]
    refine (congrArg (MembershipStep S _ c) ?_).mp (.memberAdded id m ?_ ?_ ?_ ?_)
    · exact (congrArg ([⟨.workspaceMember m.customerMembershipId m.workspaceId, some id⟩,
        ⟨.workspaceMembership id, some m⟩] ++ ·) (h₀.belonging_written c)).symm
    · obtain ⟨c₀, hc₀, hrow⟩ := h₀.exists_read hseen hworkspace
      exact ⟨c₀, w', hc₀, hrow, hw⟩
    · obtain ⟨c₀, hc₀, hrow⟩ := h₀.exists_read hseen hmember
      exact ⟨c₀, c', hc₀, hrow, hc, hrole⟩
    · exact hfresh _ (List.mem_cons_self ..)
    · exact hfresh _ (List.mem_cons_of_mem _ (List.mem_cons_self ..))
  | @memberRoleChanged id role evs₀ _ h₀ he =>
    obtain ⟨hupdated, -⟩ := he.told ht
    obtain ⟨m, hm⟩ := Option.isSome_iff_exists.1 hupdated
    rw [he.belonging_written, written_update hm]
    refine (congrArg (MembershipStep S _ c) ?_).mp (.memberRoleChanged id m role ?_)
    · exact (congrArg (⟨.workspaceMembership id, some { m with role := role }⟩ :: ·)
        (h₀.belonging_written c)).symm
    · rw [← h₀.row_eq, hm]
  | @memberRemoved gone evs₀ _ h₀ hc =>
    rw [hc.belonging_written, h₀.belonging_written]
    refine (congrArg (MembershipStep S _ c) (List.append_nil _)).mpr (.memberRemoved gone ?_)
    intro g hg
    have hgone := hc.gone_eq ht g hg
    rwa [h₀.row_eq rfl] at hgone
  | @archived id archivedAt evs₀ _ h₀ he =>
    obtain ⟨hupdated, -⟩ := he.told ht
    obtain ⟨w', hw'⟩ := Option.isSome_iff_exists.1 hupdated
    rw [he.belonging_written, written_update hw']
    refine (congrArg (MembershipStep S _ c) ?_).mp (.archived id w' archivedAt ?_)
    · exact (congrArg (⟨.workspace id, some (w'.setArchivedAt archivedAt)⟩ :: ·)
        (h₀.belonging_written c)).symm
    · rw [← h₀.row_eq, hw']

variable [Sha256]

/-- **Each commit takes one of these steps.** -/
theorem membershipStep_of_commits (hc : Commits serveMemberships h p w)
    (hs : Seen S (opened p h)) : MembershipStep S (fun id => .called p .uuid4 id ∈ opened p h)
      (committed h) (belonging w) := by
  obtain ⟨r, hd⟩ := hc.ran serveMemberships_deed
  rw [hc.writes]
  exact MembershipDeed.step hd hc.told hs

end Commits

end Doda
