import Doda.AuditChain.Interleaving
import Doda.Members.Steps

/-!
# The bootstrap index

`UserCustomerIndex` is to mirror the memberships of customers.  The functions that write
it check first and write later, and a removal that finds its membership gone still drops
the index row of a user who has left.  The index mirrors the memberships until a removal does so
to a user who has been invited again meanwhile.

## Main definitions

* `HasMembership`, `IndexMirrors` — the mirror.
* `minted` — the ids that `uuid4` has answered.
* `Reinvited` — the commits that drop the index row of a member.

## Main results

* `indexMirrors_of_valid` — every state of a run without such commits.
-/

namespace Doda

open ReadCommitted

/-! ## The mirror -/

/-- The user is a member of the customer. -/
def HasMembership (db : Db) (userId customerId : Uuid) : Prop :=
  ∃ id, ∃ m ∈ row db (.customerMembership id), m.userId = userId ∧ m.customerId = customerId

/-- The index has a row for each membership and no other. -/
def IndexMirrors (db : Db) : Prop :=
  ∀ userId customerId, (row db (.userCustomerIndex userId customerId)).isSome ↔
    HasMembership db userId customerId

/-- The ids that `uuid4` has answered. -/
def minted (h : Hist) : List Uuid :=
  h.filterMap fun
    | .called _ .uuid4 (id : Uuid) => some id
    | _ => none

/-- The commit drops an index row and leaves its user a membership that it did not delete. -/
def Reinvited (w : Db) (h : Hist) : Prop :=
  ∃ k ∈ keys w, match k with
    | .userCustomerIndex userId customerId => row w (.userCustomerIndex userId customerId) = none ∧
        (row (committed h) (.customerMember customerId userId)).isSome ∧
          .customerMember customerId userId ∉ keys w
    | _ => False

instance (w : Db) (h : Hist) : Decidable (Reinvited w h) :=
  have : ∀ k : Key, Decidable (match k with
      | .userCustomerIndex userId customerId =>
        row w (.userCustomerIndex userId customerId) = none ∧
          (row (committed h) (.customerMember customerId userId)).isSome ∧
            .customerMember customerId userId ∉ keys w
      | _ => False) := fun k => by
    cases k <;> infer_instance
  List.decidableBEx _ _

/-- The unique constraint of customer memberships. -/
def MembersUnique (db : Db) : Prop :=
  ∀ id customerId userId, row db (.customerMember customerId userId) = some id ↔
    ∃ m ∈ row db (.customerMembership id), m.customerId = customerId ∧ m.userId = userId

/-! ## Rows after a step -/

section Rows

variable {c c' : Db}

theorem row_belonging {k : Key} (hk : k.belonging = true) (w c : Db) :
    row (belonging w ++ c) k = row (w ++ c) k :=
  row_filter_append (fun _ => hk) w c

theorem row_memberVersions (id : Uuid) (m : CustomerMembership) (c : Db) (i : Uuid) :
    row (memberVersions id m ++ c) (.customerMembership i) =
      if id = i then some m else row c (.customerMembership i) := by
  by_cases hid : id = i
  · subst hid
    simp [memberVersions, row_cons_ne]
  · simp [memberVersions, row_cons_ne, hid]

theorem row_memberVersions_member (id : Uuid) (m : CustomerMembership) (c : Db) (a b : Uuid) :
    row (memberVersions id m ++ c) (.customerMember a b) =
      if m.customerId = a ∧ m.userId = b then some id else row c (.customerMember a b) := by
  by_cases hm : m.customerId = a ∧ m.userId = b
  · obtain ⟨rfl, rfl⟩ := hm
    simp [memberVersions]
  · have hne : Key.customerMember m.customerId m.userId ≠ .customerMember a b := by simpa using hm
    simp [memberVersions, row_cons_ne, hne, hm]

theorem row_memberVersions_index (id : Uuid) (m : CustomerMembership) (c : Db) (a b : Uuid) :
    row (memberVersions id m ++ c) (.userCustomerIndex a b) = row c (.userCustomerIndex a b) := by
  simp [memberVersions, row_cons_ne]

theorem row_droppedVersions (id : Uuid) (found : Option CustomerMembership) (c : Db) (i : Uuid) :
    row (droppedVersions id found ++ c) (.customerMembership i) =
      if found.isSome ∧ id = i then none else row c (.customerMembership i) := by
  cases found with
  | none => simp [droppedVersions]
  | some m =>
    by_cases hid : id = i
    · subst hid
      simp [droppedVersions, row_cons_ne]
    · simp [droppedVersions, row_cons_ne, hid]

theorem row_droppedVersions_member (id : Uuid) (found : Option CustomerMembership) (c : Db)
    (a b : Uuid) : row (droppedVersions id found ++ c) (.customerMember a b) =
      if ∃ m ∈ found, m.customerId = a ∧ m.userId = b then none
      else row c (.customerMember a b) := by
  cases found with
  | none => simp [droppedVersions]
  | some m =>
    by_cases hm : m.customerId = a ∧ m.userId = b
    · obtain ⟨rfl, rfl⟩ := hm
      simp [droppedVersions]
    · have hne : Key.customerMember m.customerId m.userId ≠ .customerMember a b := by simpa using hm
      simp [droppedVersions, row_cons_ne, hne, hm]

/-- The unique constraint depends on two tables. -/
theorem MembersUnique.congr (H : MembersUnique c)
    (hrow : ∀ id, row c' (.customerMembership id) = row c (.customerMembership id))
    (hkey : ∀ a b, row c' (.customerMember a b) = row c (.customerMember a b)) :
    MembersUnique c' := by
  intro id a b
  rw [hkey, hrow]
  exact H id a b

theorem MembersUnique.eq (H : MembersUnique c) {id id' : Uuid} {m m' : CustomerMembership}
    (hm : row c (.customerMembership id) = some m) (hm' : row c (.customerMembership id') = some m')
    (hc : m'.customerId = m.customerId) (hu : m'.userId = m.userId) : id' = id := by
  have h := (H id _ _).2 ⟨m, hm, rfl, rfl⟩
  have h' := (H id' _ _).2 ⟨m', hm', hc, hu⟩
  rw [h] at h'
  exact (Option.some.inj h').symm

/-- A new member. -/
theorem MembersUnique.join (H : MembersUnique c) {id : Uuid} {m : CustomerMembership}
    (hnew : row c (.customerMembership id) = none)
    (hmember : row c (.customerMember m.customerId m.userId) = none) :
    MembersUnique (memberVersions id m ++ c) := by
  intro i a b
  rw [row_memberVersions, row_memberVersions_member]
  have H := H i a b
  by_cases hid : id = i
  · subst hid
    rw [if_pos rfl]
    rw [hnew] at H
    by_cases hm : m.customerId = a ∧ m.userId = b
    · simp [hm]
    · simpa [hm] using H
  · rw [if_neg hid]
    by_cases hm : m.customerId = a ∧ m.userId = b
    · obtain ⟨rfl, rfl⟩ := hm
      rw [hmember] at H
      simpa [hid] using H
    · simpa [hm] using H

/-- A member who is removed. -/
theorem MembersUnique.drop (H : MembersUnique c) {id : Uuid} {found : Option CustomerMembership}
    (hfound : ∀ m ∈ found, row c (.customerMembership id) = some m) :
    MembersUnique (droppedVersions id found ++ c) := by
  cases found with
  | none => exact H
  | some m =>
    have hrow := hfound m rfl
    intro i a b
    rw [row_droppedVersions, row_droppedVersions_member]
    by_cases hm : m.customerId = a ∧ m.userId = b
    · obtain ⟨rfl, rfl⟩ := hm
      have hkey := (H id _ _).2 ⟨m, hrow, rfl, rfl⟩
      have H := H i m.customerId m.userId
      rw [hkey] at H
      by_cases hid : id = i
      · simp [hid]
      · simpa [hid] using H
    · have hother : id = i → ¬ ∃ m' ∈ row c (.customerMembership i),
          m'.customerId = a ∧ m'.userId = b := by
        rintro rfl ⟨m', hm', hab⟩
        rw [hrow] at hm'
        cases hm'
        exact hm hab
      have H := H i a b
      by_cases hid : id = i
      · have hnone := (not_congr H).2 (hother hid)
        subst hid
        simpa [hm] using hnone
      · simpa [hm, hid] using H

theorem keys_cleared {gone : List (Uuid × WorkspaceMembership)} {k : Key}
    (hk : k ∈ keys (cleared gone)) : k.ofWorkspaceMember = true := by
  induction gone with
  | nil => cases hk
  | cons g gone ih =>
    obtain ⟨id, m⟩ := g
    rw [cleared, keys_append, List.mem_append] at hk
    rcases hk with hk | hk
    · exact ih hk
    · rcases List.mem_cons.1 hk with rfl | hk
      · rfl
      · obtain rfl := List.mem_singleton.1 hk
        rfl

theorem notMem_cleared {gone : List (Uuid × WorkspaceMembership)} {k : Key} {v : Option (Row k)}
    (hk : k.ofWorkspaceMember = false) : ⟨k, v⟩ ∉ cleared gone := fun hmem => by
  have h : k.ofWorkspaceMember = true := keys_cleared (List.mem_map_of_mem hmem)
  rw [hk] at h
  cases h

theorem row_indexVersions {m : CustomerMembership} {found : Option Unit} {k : Key}
    (hk : k ≠ .userCustomerIndex m.userId m.customerId) (c : Db) :
    row (indexVersions m found ++ c) k = row c k := by
  cases found with
  | none => exact row_cons_ne _ _ hk.symm
  | some u => rfl

theorem row_unindexedVersions {m : CustomerMembership} {unindexed : Bool} {k : Key}
    (hk : k ≠ .userCustomerIndex m.userId m.customerId) (c : Db) :
    row (unindexedVersions m unindexed ++ c) k = row c k := by
  cases unindexed with
  | false => rfl
  | true => exact row_cons_ne _ _ hk.symm

variable {S : Db → Prop} {M : Uuid → Prop} {ws : Db}

/-- Every step keeps the unique constraint. -/
theorem MembersUnique.step (H : MembersUnique c) (hst : MembershipStep S M c ws) :
    MembersUnique (ws ++ c) := by
  cases hst with
  | idle => exact H
  | customerCreated id customer memberId m hid hminted hcustomer hnew hmember hindex =>
    rw [List.append_assoc, List.append_assoc]
    have H : MembersUnique ([⟨.customer id, some customer⟩] ++ c) :=
      H.congr (fun _ => row_cons_ne _ _ (by simp)) fun _ _ => row_cons_ne _ _ (by simp)
    have hnew' : row ([⟨.customer id, some customer⟩] ++ c) (.customerMembership memberId) = none :=
      (row_cons_ne _ _ (by simp)).trans hnew
    have H := H.join hnew' ((row_cons_ne _ _ (by simp)).trans hmember)
    exact H.congr (fun _ => row_indexVersions (by simp) _) fun _ _ =>
      row_indexVersions (by simp) _
  | invited id m found hminted hcustomer hnew hmember =>
    rw [List.append_assoc]
    exact (H.join hnew hmember).congr (fun _ => row_indexVersions (by simp) _) fun _ _ =>
      row_indexVersions (by simp) _
  | roleChanged id m role hrow =>
    intro i a b
    have H := H i a b
    rw [List.singleton_append, row_cons_ne _ _ (by simp)]
    by_cases hid : id = i
    · subst hid
      rw [hrow] at H
      simpa using H
    · rw [row_cons_ne _ _ (by simpa using hid)]
      exact H
  | removed id m gone found unindexed hloaded hgone hfound =>
    rw [List.append_assoc, List.append_assoc]
    have H : MembersUnique (cleared gone ++ c) :=
      H.congr (fun _ => row_cleared _ rfl _) fun _ _ => row_cleared _ rfl _
    have hfound' : ∀ m' ∈ found, row (cleared gone ++ c) (.customerMembership id) = some m' :=
      fun m' hm' => (row_cleared _ rfl _).trans (hfound m' hm')
    have H := H.drop hfound'
    exact H.congr (fun _ => row_unindexedVersions (by simp) _) fun _ _ =>
      row_unindexedVersions (by simp) _
  | memberRemoved gone =>
    exact H.congr (fun _ => row_cleared _ rfl _) fun _ _ => row_cleared _ rfl _
  | workspaceCreated | memberAdded | memberRoleChanged | archived =>
    exact H.congr (fun _ => by simp [row_cons_ne]) fun _ _ => by simp [row_cons_ne]

/-- A member has a row in the unique constraint. -/
theorem MembersUnique.hasMembership_iff (H : MembersUnique c) (u t : Uuid) :
    HasMembership c u t ↔ (row c (.customerMember t u)).isSome := by
  rw [Option.isSome_iff_exists]
  constructor
  · rintro ⟨id, m, hm, hu, ht⟩
    exact ⟨id, (H id t u).2 ⟨m, hm, ht, hu⟩⟩
  · rintro ⟨id, hid⟩
    obtain ⟨m, hm, ht, hu⟩ := (H id t u).1 hid
    exact ⟨id, m, hm, hu, ht⟩

theorem IndexMirrors.congr (H : IndexMirrors c) (hu : MembersUnique c) (hu' : MembersUnique c')
    (hindex : ∀ u t, row c' (.userCustomerIndex u t) = row c (.userCustomerIndex u t))
    (hkey : ∀ a b, row c' (.customerMember a b) = row c (.customerMember a b)) :
    IndexMirrors c' := by
  intro u t
  rw [hindex, hu'.hasMembership_iff, hkey, ← hu.hasMembership_iff]
  exact H u t

/-- A new member who is indexed. -/
theorem IndexMirrors.join (H : IndexMirrors c) (hu : MembersUnique c) {id : Uuid}
    {m : CustomerMembership}
    (hu' : MembersUnique (indexVersions m none ++ (memberVersions id m ++ c))) :
    IndexMirrors (indexVersions m none ++ (memberVersions id m ++ c)) := by
  intro u t
  have H := H u t
  rw [hu.hasMembership_iff] at H
  rw [hu'.hasMembership_iff, row_indexVersions (k := .customerMember t u) (by simp),
    row_memberVersions_member]
  by_cases hm : m.customerId = t ∧ m.userId = u
  · obtain ⟨rfl, rfl⟩ := hm
    simp [indexVersions]
  · rw [row_indexVersions (by simpa [and_comm, eq_comm] using hm), row_memberVersions_index,
      if_neg hm]
    exact H

/-- **A step keeps the mirror** if what it drops from the index has no membership left. -/
theorem IndexMirrors.step (H : IndexMirrors c) (hu : MembersUnique c)
    (hst : MembershipStep S M c ws) (hS : ∀ c₀, S c₀ → MembersUnique c₀ ∧ IndexMirrors c₀)
    (hsame : ∀ c₀ id m m', S c₀ → row c₀ (.customerMembership id) = some m →
      row c (.customerMembership id) = some m' →
        m'.customerId = m.customerId ∧ m'.userId = m.userId)
    (hleft : ∀ u t, .userCustomerIndex u t ∈ keys ws → row ws (.userCustomerIndex u t) = none →
      (row c (.customerMember t u)).isSome → .customerMember t u ∈ keys ws) :
    IndexMirrors (ws ++ c) := by
  have hu' := hu.step hst
  cases hst with
  | idle => exact H
  | customerCreated id customer memberId m hid hminted hcustomer hnew hmember hindex =>
    rw [List.append_assoc, List.append_assoc] at hu' ⊢
    have hu₁ : MembersUnique ([⟨.customer id, some customer⟩] ++ c) :=
      hu.congr (fun _ => row_cons_ne _ _ (by simp)) fun _ _ => row_cons_ne _ _ (by simp)
    have H₁ : IndexMirrors ([⟨.customer id, some customer⟩] ++ c) :=
      H.congr hu hu₁ (fun _ _ => row_cons_ne _ _ (by simp)) fun _ _ => row_cons_ne _ _ (by simp)
    exact H₁.join hu₁ hu'
  | invited id m found hminted hcustomer hnew hmember hindex hread =>
    obtain ⟨c₀, hc₀, hnone, hfound⟩ := hread
    obtain ⟨hu₀, H₀⟩ := hS c₀ hc₀
    have hout : (row c₀ (.userCustomerIndex m.userId m.customerId)).isSome = false := by
      rw [Bool.eq_false_iff, ne_eq, H₀, hu₀.hasMembership_iff, hnone]
      simp
    rw [hfound, Option.isSome_eq_false_iff, Option.isNone_iff_eq_none] at hout
    subst hout
    rw [List.append_assoc] at hu' ⊢
    exact H.join hu hu'
  | removed id m gone found unindexed hloaded hgone hfound hmissing hkept =>
    rw [List.append_assoc, List.append_assoc] at hu' ⊢
    obtain ⟨c₁, hc₁, hm⟩ := hloaded
    have hident : ∀ m' ∈ found, m'.customerId = m.customerId ∧ m'.userId = m.userId :=
      fun m' hm' => hsame c₁ id m m' hc₁ hm (hfound m' hm')
    intro u t
    have H := H u t
    rw [hu.hasMembership_iff] at H
    rw [hu'.hasMembership_iff, row_unindexedVersions (k := .customerMember t u) (by simp),
      row_droppedVersions_member, row_cleared _ rfl]
    have hindex : ∀ unindexed, row (unindexedVersions m unindexed ++ (droppedVersions id found ++
        (cleared gone ++ c))) (.userCustomerIndex u t) =
          if unindexed ∧ m.userId = u ∧ m.customerId = t then none
          else row c (.userCustomerIndex u t) := by
      have hrest : row (droppedVersions id found ++ (cleared gone ++ c)) (.userCustomerIndex u t) =
          row c (.userCustomerIndex u t) := by
        cases found with
        | none => exact row_cleared _ rfl _
        | some m' => simpa [droppedVersions, row_cons_ne] using row_cleared _ rfl c
      intro unindexed
      cases unindexed with
      | false => simpa [unindexedVersions] using hrest
      | true =>
        by_cases hut : m.userId = u ∧ m.customerId = t
        · obtain ⟨rfl, rfl⟩ := hut
          simp [unindexedVersions]
        · rw [row_unindexedVersions (by simpa [eq_comm] using hut), hrest,
            if_neg (by simpa using hut)]
    rw [hindex]
    by_cases hut : m.userId = u ∧ m.customerId = t
    · obtain ⟨rfl, rfl⟩ := hut
      cases found with
      | none =>
        cases unindexed with
        | false => simpa using H
        | true =>
          have hnone : row c (.customerMember m.customerId m.userId) = none := by
            by_contra hsome
            have hmem := hleft _ _ (List.mem_cons_self ..) (row_cons_self ..)
              (Option.isSome_iff_ne_none.2 hsome)
            rw [keys_append, keys_append, List.mem_append, List.mem_append] at hmem
            rcases hmem with hmem | hmem | hmem
            · simp [unindexedVersions] at hmem
            · cases hmem
            · cases keys_cleared hmem
          simp [hnone]
      | some m' =>
        obtain ⟨hc, hsame⟩ := hident m' rfl
        cases unindexed with
        | false =>
          obtain ⟨c₀, hc₀, hrow, hwhy⟩ := hkept rfl
          obtain ⟨hu₀, H₀⟩ := hS c₀ hc₀
          have hrow := hrow m' rfl
          rcases hwhy with hnone | ⟨id', m'', hrow', hne, hu'', hc''⟩
          · have := (H₀ m.userId m.customerId).2 ⟨id, m', hrow, hsame, hc⟩
            rw [hnone] at this
            cases this
          · exact absurd (hu₀.eq hrow hrow' (hc''.trans hc.symm) (hu''.trans hsame.symm)) (hne rfl)
        | true => simp [hc, hsame]
    · have hother : ¬ ∃ m' ∈ found, m'.customerId = t ∧ m'.userId = u := by
        rintro ⟨m', hm', rfl, rfl⟩
        obtain ⟨hc, hu⟩ := hident m' hm'
        exact hut ⟨hu.symm, hc.symm⟩
      rw [if_neg hother, if_neg fun h => hut h.2]
      exact H
  | memberRemoved gone =>
    exact H.congr hu hu' (fun _ _ => row_cleared _ rfl _) fun _ _ => row_cleared _ rfl _
  | roleChanged | workspaceCreated | memberAdded | memberRoleChanged | archived =>
    exact H.congr hu hu' (fun _ _ => by simp [row_cons_ne]) fun _ _ => by simp [row_cons_ne]

end Rows

/-! ## Ids are used once -/

section Ids

variable {S : Db → Prop} {M : Uuid → Prop} {c ws : Db} {h : Hist} {p : ℕ} {w : Db} {id : Uuid}

/-- A membership that a step writes is new or has been there. -/
theorem MembershipStep.key_cases (hst : MembershipStep S M c ws)
    (hk : .customerMembership id ∈ keys ws) :
    M id ∨ (row c (.customerMembership id)).isSome := by
  cases hst with
  | idle => cases hk
  | customerCreated cid customer memberId m hid hminted =>
    obtain rfl : id = memberId := by simpa [indexVersions, memberVersions] using hk
    exact .inl hminted
  | invited memberId m found hminted =>
    obtain rfl : id = memberId := by
      cases found <;> simpa [indexVersions, memberVersions] using hk
    exact .inl hminted
  | roleChanged memberId m role hrow =>
    obtain rfl : id = memberId := by simpa using hk
    exact .inr (by rw [hrow]; rfl)
  | removed memberId m gone found unindexed hloaded hgone hfound =>
    rw [keys_append, keys_append, List.mem_append, List.mem_append] at hk
    rcases hk with hk | hk | hk
    · cases unindexed <;> simp [unindexedVersions] at hk
    · cases found with
      | none => cases hk
      | some m' =>
        obtain rfl : id = memberId := by simpa [droppedVersions] using hk
        exact .inr (by rw [hfound m' rfl]; rfl)
    · cases keys_cleared hk
  | memberRemoved => cases keys_cleared hk
  | workspaceCreated | memberAdded | memberRoleChanged | archived => simp at hk

/-- The membership whose row a step writes, and where it is from. -/
theorem MembershipStep.version_cases (hst : MembershipStep S M c ws) :
    (∀ i m, ⟨.customerMembership i, some m⟩ ∉ ws) ∨ ∃ id m,
      (∀ i m', ⟨.customerMembership i, some m'⟩ ∈ ws → i = id ∧ m' = m) ∧ (M id ∨
        ∃ m₀, row c (.customerMembership id) = some m₀ ∧ m.customerId = m₀.customerId ∧
          m.userId = m₀.userId) := by
  cases hst with
  | idle => exact .inl fun _ _ hmem => by cases hmem
  | customerCreated cid customer memberId m hid hminted =>
    refine .inr ⟨memberId, m, fun i m' hmem => ?_, .inl hminted⟩
    simp only [indexVersions, memberVersions, List.cons_append, List.nil_append, List.mem_cons,
      List.not_mem_nil, or_false, Sigma.mk.injEq, reduceCtorEq, false_and, false_or] at hmem
    obtain ⟨hid, heq⟩ := hmem
    cases hid
    cases heq
    exact ⟨rfl, rfl⟩
  | invited memberId m found hminted =>
    refine .inr ⟨memberId, m, fun i m' hmem => ?_, .inl hminted⟩
    have hmem : ⟨.customerMembership i, some m'⟩ ∈ memberVersions memberId m := by
      cases found with
      | none => exact (List.mem_cons.1 hmem).resolve_left (by simp)
      | some u => exact hmem
    simp only [memberVersions, List.mem_cons, List.not_mem_nil, or_false, Sigma.mk.injEq,
      reduceCtorEq, false_and, false_or] at hmem
    obtain ⟨hid, heq⟩ := hmem
    cases hid
    cases heq
    exact ⟨rfl, rfl⟩
  | roleChanged memberId m role hrow =>
    refine .inr ⟨memberId, { m with role := role }, fun i m' hmem => ?_, .inr ⟨m, hrow, rfl, rfl⟩⟩
    cases List.mem_singleton.1 hmem
    exact ⟨rfl, rfl⟩
  | removed memberId m gone found unindexed =>
    refine .inl fun i m' hmem => ?_
    rw [List.mem_append, List.mem_append] at hmem
    rcases hmem with hmem | hmem | hmem
    · cases unindexed <;> simp [unindexedVersions] at hmem
    · cases found <;> simp [droppedVersions] at hmem
    · exact notMem_cleared rfl hmem
  | memberRemoved => exact .inl fun _ _ => notMem_cleared rfl
  | workspaceCreated | memberAdded | memberRoleChanged | archived => exact .inl (by simp)

theorem eq_of_nodup_filterMap {A B : Type} {f : A → Option B} {l : List A}
    (hl : (l.filterMap f).Nodup) {a a' : A} {b : B} (ha : a ∈ l) (ha' : a' ∈ l) (hb : f a = some b)
    (hb' : f a' = some b) : a = a' := by
  induction l with
  | nil => cases ha
  | cons x l ih =>
    have hrest : (l.filterMap f).Nodup :=
      hl.sublist ((List.sublist_cons_self x l).filterMap f)
    have hnew : ∀ {y}, y ∈ l → f x = some b → f y ≠ some b := fun hy hx hfy => by
      rw [List.filterMap_cons, hx, List.nodup_cons] at hl
      exact hl.1 (List.mem_filterMap.2 ⟨_, hy, hfy⟩)
    rcases List.mem_cons.1 ha with rfl | hold
    · rcases List.mem_cons.1 ha' with heq | hold'
      · exact heq.symm
      · exact absurd hb' (hnew hold' hb)
    · rcases List.mem_cons.1 ha' with rfl | hold'
      · exact absurd hb (hnew hold hb')
      · exact ih hrest hold hold'

/-- The answers that a process has had in its open transaction. -/
theorem mem_opened_cons {q : ℕ} {ev ev' : Event Row Answer} (hmem : ev ∈ opened q (ev' :: h)) :
    ev = ev' ∨ ev ∈ opened q h := by
  by_cases hq : ev'.pid = q
  · rw [opened_cons hq] at hmem
    split at hmem
    · cases hmem
    · exact List.mem_cons.1 hmem
  · have hne : ∀ e ∈ [ev'], e.pid = ev'.pid := fun e he => by rw [List.mem_singleton.1 he]
    rw [← List.singleton_append, opened_append_ne hne hq] at hmem
    exact .inr hmem

variable [Sha256]

/-- An id that a membership has had is not answered again. -/
theorem spent_of_valid (hv : (faithful serveMemberships).Valid h) (hn : (minted h).Nodup)
    (hk : .customerMembership id ∈ keys (committed h)) :
    id ∈ minted h ∧ ∀ p, .called p .uuid4 id ∉ opened p h := by
  induction h with
  | nil => cases hk
  | cons ev h ih =>
    have hn' : (minted h).Nodup := hn.sublist ((List.sublist_cons_self ev h).filterMap _)
    have hsub : id ∈ minted h → id ∈ minted (ev :: h) := fun hid =>
      ((List.sublist_cons_self ev h).filterMap _).subset hid
    have hold : .customerMembership id ∈ keys (committed h) →
        (∀ p, ev ≠ .called p .uuid4 id) → id ∈ minted (ev :: h) ∧
          ∀ p, .called p .uuid4 id ∉ opened p (ev :: h) := fun hk hne => by
      obtain ⟨hid, hopen⟩ := ih hv.2 hn' hk
      refine ⟨hsub hid, fun p hmem => ?_⟩
      rcases mem_opened_cons hmem with heq | hmem
      · exact hne p heq.symm
      · exact hopen p hmem
    cases ev with
    | committed p w =>
      change .customerMembership id ∈ keys (w ++ committed h) at hk
      by_cases hkey : .customerMembership id ∈ keys (committed h)
      · exact hold hkey (by simp)
      rw [keys_append, List.mem_append] at hk
      have hw := hk.resolve_right hkey
      have hst := membershipStep_of_commits hv.1 hv.1.answered.seen
      have hbelong : .customerMembership id ∈ keys (belonging w) := by
        obtain ⟨v, hv, heq⟩ := List.mem_map.1 hw
        exact List.mem_map.2 ⟨v, List.mem_filter.2 ⟨hv, by rw [heq]; rfl⟩, heq⟩
      rcases hst.key_cases hbelong with hminted | hsome
      · have hmem := (mem_opened hminted).1
        refine ⟨hsub (List.mem_filterMap.2 ⟨_, hmem, rfl⟩), fun q hq => ?_⟩
        rcases mem_opened_cons hq with heq | hq
        · cases heq
        · by_cases hpq : q = p
          · subst hpq
            simp_all
          · have heq := eq_of_nodup_filterMap hn' hmem (mem_opened hq).1 rfl rfl
            cases heq
            exact hpq rfl
      · obtain ⟨m, hm⟩ := Option.isSome_iff_exists.1 hsome
        exact absurd (mem_keys_of_row hm) hkey
    | called p e x =>
      refine hold hk fun q heq => ?_
      cases heq
      have hmem := (ih hv.2 hn' hk).1
      exact (List.nodup_cons.1 hn).1 hmem
    | ran | failed | rolledBack | crashed => exact hold hk (by simp)

/-- All versions of a membership are of one user in one customer. -/
theorem sameMember_of_valid (hv : (faithful serveMemberships).Valid h) (hn : (minted h).Nodup)
    {m m' : CustomerMembership} (hm : ⟨.customerMembership id, some m⟩ ∈ committed h)
    (hm' : ⟨.customerMembership id, some m'⟩ ∈ committed h) :
    m'.customerId = m.customerId ∧ m'.userId = m.userId := by
  induction h generalizing m m' with
  | nil => cases hm
  | cons ev h ih =>
    have hn' : (minted h).Nodup := hn.sublist ((List.sublist_cons_self ev h).filterMap _)
    cases ev with
    | committed p w =>
      have hst := membershipStep_of_commits hv.1 hv.1.answered.seen
      have hbelong : ∀ {m}, ⟨.customerMembership id, some m⟩ ∈ w →
          ⟨.customerMembership id, some m⟩ ∈ belonging w := fun hmem =>
        List.mem_filter.2 ⟨hmem, rfl⟩
      change _ ∈ w ++ committed h at hm hm'
      rw [List.mem_append] at hm hm'
      have hnew : ∀ {m m'}, ⟨.customerMembership id, some m⟩ ∈ w →
          ⟨.customerMembership id, some m'⟩ ∈ committed h →
            m'.customerId = m.customerId ∧ m'.userId = m.userId := by
        intro m m' hm hm'
        rcases hst.version_cases with hnone | ⟨id', m₁, hall, hfrom⟩
        · exact absurd (hbelong hm) (hnone _ _)
        · obtain ⟨rfl, rfl⟩ := hall _ _ (hbelong hm)
          rcases hfrom with hminted | ⟨m₀, hrow, hc, hu⟩
          · have hk : .customerMembership id ∈ keys (committed h) := List.mem_map_of_mem hm'
            exact absurd hminted ((spent_of_valid hv.2 hn' hk).2 p)
          · obtain ⟨hc', hu'⟩ := ih hv.2 hn' (mem_of_row hrow) hm'
            exact ⟨hc'.trans hc.symm, hu'.trans hu.symm⟩
      rcases hm with hm | hm
      · rcases hm' with hm' | hm'
        · rcases hst.version_cases with hnone | ⟨id', m₁, hall, -⟩
          · exact absurd (hbelong hm) (hnone _ _)
          · obtain ⟨-, rfl⟩ := hall _ _ (hbelong hm)
            obtain ⟨-, rfl⟩ := hall _ _ (hbelong hm')
            exact ⟨rfl, rfl⟩
        · exact hnew hm hm'
      · rcases hm' with hm' | hm'
        · obtain ⟨hc, hu⟩ := hnew hm' hm
          exact ⟨hc.symm, hu.symm⟩
        · exact ih hv.2 hn' hm hm'
    | ran | called | failed | rolledBack | crashed => exact ih hv.2 hn' hm hm'

/-! ## Every history -/

omit [Sha256] in
/-- What was committed stays. -/
theorem mem_committed_of_suffix {h₀ : Hist} (hs : h₀ <:+ h) {v : Version Row}
    (hv : v ∈ committed h₀) : v ∈ committed h := by
  obtain ⟨new, rfl⟩ := hs
  induction new with
  | nil => exact hv
  | cons ev new ih => exact List.mem_append_right _ ih

omit [Sha256] in
/-- Other tables do not matter. -/
theorem MembersUnique.of_belonging (H : MembersUnique (belonging w ++ c)) :
    MembersUnique (w ++ c) :=
  H.congr (fun _ => (row_belonging rfl w c).symm) fun _ _ => (row_belonging rfl w c).symm

omit [Sha256] in
theorem IndexMirrors.of_belonging (H : IndexMirrors (belonging w ++ c))
    (hu : MembersUnique (belonging w ++ c)) : IndexMirrors (w ++ c) :=
  H.congr hu hu.of_belonging (fun _ _ => (row_belonging rfl w c).symm) fun _ _ =>
    (row_belonging rfl w c).symm

/-- The unique constraint holds in every history. -/
theorem membersUnique_of_valid (hv : (faithful serveMemberships).Valid h) :
    MembersUnique (committed h) := by
  induction h with
  | nil => simp [MembersUnique]
  | cons ev h ih =>
    cases ev with
    | committed p w =>
      have hst := membershipStep_of_commits hv.1 hv.1.answered.seen
      exact ((ih hv.2).step hst).of_belonging
    | ran | called | failed | rolledBack | crashed => exact ih hv.2

/-- The index mirrors the memberships in every history without such a commit. -/
theorem indexMirrors_of_valid (hv : (faithful serveMemberships).Valid h) (hn : (minted h).Nodup)
    (hleft : Always (fun _ w h => ¬ Reinvited w h) h) : ∀ h₀, h₀ <:+ h →
      IndexMirrors (committed h₀) := by
  induction h with
  | nil =>
    intro h₀ hs₀
    rw [List.suffix_nil.1 hs₀]
    simp [IndexMirrors, HasMembership]
  | cons ev h ih =>
    have hn' : (minted h).Nodup := hn.sublist ((List.sublist_cons_self ev h).filterMap _)
    have hold : Always (fun _ w h => ¬ Reinvited w h) h →
        (IndexMirrors (committed h) → IndexMirrors (committed (ev :: h))) →
          ∀ h₀, h₀ <:+ ev :: h → IndexMirrors (committed h₀) := by
      intro hleft hnow h₀ hs₀
      rcases List.suffix_cons_iff.1 hs₀ with rfl | hs₀
      · exact hnow (ih hv.2 hn' hleft h (List.suffix_refl _))
      · exact ih hv.2 hn' hleft h₀ hs₀
    cases ev with
    | committed p w =>
      refine hold hleft.2 fun H => ?_
      have hu := membersUnique_of_valid hv.2
      have hst := membershipStep_of_commits hv.1 hv.1.answered.seen
      refine IndexMirrors.of_belonging (H.step hu hst ?_ ?_ ?_) (hu.step hst)
      · rintro _ ⟨h₀, hs₀, rfl⟩
        exact ⟨membersUnique_of_valid (hv.2.suffix hs₀), ih hv.2 hn' hleft.2 h₀ hs₀⟩
      · rintro _ id m m' ⟨h₀, hs₀, rfl⟩ hm hm'
        exact sameMember_of_valid hv.2 hn' (mem_committed_of_suffix hs₀ (mem_of_row hm))
          (mem_of_row hm')
      · intro u t hmem hnone hsome
        by_contra hkey
        refine hleft.1 ⟨.userCustomerIndex u t, ?_, ?_, hsome, fun hk => hkey ?_⟩
        · obtain ⟨v, hv, heq⟩ := List.mem_map.1 hmem
          exact List.mem_map.2 ⟨v, (List.mem_filter.1 hv).1, heq⟩
        · have := row_belonging (k := .userCustomerIndex u t) rfl w []
          rw [List.append_nil, List.append_nil] at this
          exact this.symm.trans hnone
        · obtain ⟨v, hv, heq⟩ := List.mem_map.1 hk
          exact List.mem_map.2 ⟨v, List.mem_filter.2 ⟨hv, by rw [heq]; rfl⟩, heq⟩
    | ran | called | failed | rolledBack | crashed => exact hold hleft fun H => H

end Ids

end Doda
