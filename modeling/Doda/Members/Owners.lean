import Doda.Api.CustomerAdmin
import Doda.Application.Writes
import Doda.AuditChain.Interleaving

/-!
# A customer's owners

A customer that has an owner keeps one, through any interleaving of requests that
invite, re-role and remove members, as long as no request takes the ownership of a
membership that it had loaded without it.  The guard counts the owners under lock
where the loaded role calls for it; a member promoted after it was loaded is
demoted or removed without a count.

## Main definitions

* `HasOwner` — the customer has an owner.
* `TakesUnguarded`, `Guarded` — the commits that skip the guard, and the runs without.
* `Spares` — what a transaction's writes owe the owners.

## Main results

* `customer_keeps_owner` — every state of a guarded run.
* `promoted_owner_demoted` — a run that leaves a customer without an owner.
-/

namespace Doda

open ReadCommitted

/-! ## Owners of a store -/

/-- The row under `id` owns the customer `c`. -/
def OwnerIn (db : Db) (c id : Uuid) : Prop :=
  ∃ m ∈ row db (.customerMembership id), m.OwnerOf c

/-- The customer has an owner. -/
def HasOwner (db : Db) (c : Uuid) : Prop := ∃ id, OwnerIn db c id

theorem OwnerIn.congr {db db' : Db} {c id : Uuid}
    (h : row db (.customerMembership id) = row db' (.customerMembership id)) :
    OwnerIn db c id ↔ OwnerIn db' c id := by
  rw [OwnerIn, OwnerIn, h]

theorem mem_ownersOf {db : Db} {c id : Uuid} : id ∈ ownersOf db c ↔ OwnerIn db c id := by
  rw [ownersOf, mem_collect]
  constructor
  · rintro ⟨k, v, hv, hk⟩
    cases k with
    | customerMembership i =>
      dsimp only at hk
      split at hk
      · rename_i hm
        obtain rfl := Option.some.inj hk
        exact ⟨v, hv, hm⟩
      · simp at hk
    | _ => simp at hk
  · rintro ⟨m, hm, hown⟩
    exact ⟨.customerMembership id, m, hm, if_pos hown⟩

/-- A scan meets a row once. -/
theorem nodup_ownersOf (db : Db) (c : Uuid) : (ownersOf db c).Nodup := by
  refine List.Nodup.of_map Key.customerMembership (nodup_collect_map fun k v id hrow hid => ?_)
  cases k with
  | customerMembership i =>
    dsimp only at hid
    split at hid
    · rw [Option.some.inj hid]
    · simp at hid
  | _ => simp at hid

/-! ## Commits that skip the guard -/

/-- The membership that process `p` loaded. -/
def loadedBy (p : ℕ) : Event Row Answer → Option (Uuid × CustomerMembership)
  | .ran q (.get (.customerMembership id)) (some m) => if q = p then some (id, m) else none
  | _ => none

/-- The commit takes the ownership of a customer from a membership that its process had loaded
as one that does not own the customer. -/
def TakesUnguarded (h : Hist) (p : ℕ) (w : Db) : Prop :=
  ∃ l ∈ h.filterMap (loadedBy p), ∃ m ∈ row (committed h) (.customerMembership l.1),
    m.role = .CUSTOMER_OWNER ∧ ¬ l.2.OwnerOf m.customerId ∧
      ¬ ∃ m' ∈ row (w ++ committed h) (.customerMembership l.1), m'.OwnerOf m.customerId

instance (h : Hist) (p : ℕ) (w : Db) : Decidable (TakesUnguarded h p w) := by
  unfold TakesUnguarded
  infer_instance

/-- No commit of the history did. -/
def Guarded : Hist → Prop
  | [] => True
  | .committed p w :: h => ¬ TakesUnguarded h p w ∧ Guarded h
  | _ :: h => Guarded h

instance Guarded.decide : (h : Hist) → Decidable (Guarded h)
  | [] => .isTrue trivial
  | .committed _ _ :: h => @instDecidableAnd _ _ _ (Guarded.decide h)
  | .ran .. :: h | .called .. :: h | .rolledBack _ :: h | .failed _ :: h | .crashed _ :: h =>
    Guarded.decide h

theorem takesUnguarded {h : Hist} {p : ℕ} {w : Db} {c id : Uuid} {loaded : CustomerMembership}
    (hread : .ran p (.get (.customerMembership id)) (some loaded) ∈ h) (hl : ¬ loaded.OwnerOf c)
    (hown : OwnerIn (committed h) c id) (hgone : ¬ OwnerIn (w ++ committed h) c id) :
    TakesUnguarded h p w := by
  obtain ⟨m, hm, rfl, hrole⟩ := hown
  refine ⟨(id, loaded), List.mem_filterMap.2 ⟨_, hread, ?_⟩, m, hm, hrole, hl, hgone⟩
  simp [loadedBy]

/-! ## What a transaction owes the owners -/

/-- The transaction has locked an owner of `c`, and leaves it one. -/
def HoldsOwner (h : Hist) (t : DbTx) (c id : Uuid) : Prop :=
  .customerMembership id ∈ t.locks ∧ OwnerIn (t.view (committed h)) c id

/-- Where the transaction takes an owner of `c` away, its process had loaded the membership, and,
if as an owner of `c`, holds another owner. -/
def Spares (p : ℕ) (h : Hist) (t : DbTx) : Prop :=
  ∀ c id, OwnerIn (committed h) c id → OwnerIn (t.view (committed h)) c id ∨
    ∃ loaded, .ran p (.get (.customerMembership id)) (some loaded) ∈ h ∧
      (loaded.OwnerOf c → ∃ other, HoldsOwner h t c other)

/-- The commits of the system keep the owners, unless they skip the guard. -/
def ownersKept : Contract Row Answer where
  commitOk h p w := ¬ TakesUnguarded h p w → ∀ c, HasOwner (committed h) c →
    HasOwner (w ++ committed h) c
  callOk _ _ _ := True

/-- Not a customer membership. -/
def Key.notMember : Key → Prop
  | .customerMembership _ => False
  | _ => True

theorem Key.not_notMember (id : Uuid) : ¬ (Key.customerMembership id).notMember := fun h => h

/-- The transaction has written no customer membership. -/
def Untouched (t : DbTx) : Prop := ∀ id, Key.customerMembership id ∉ keys t.writes

section Spares

variable {p : ℕ} {h h' : Hist} {t t' : DbTx}

theorem Untouched.view (ht : Untouched t) (c : Db) (id : Uuid) :
    row (t.view c) (.customerMembership id) = row c (.customerMembership id) :=
  row_append_of_notMem _ (ht id)

theorem Untouched.apart (ht : Untouched t) (H : Apart Key.notMember p h t h' t') :
    Untouched t' := by
  intro id hmem
  exact ht id ((H.mem_writes (Key.not_notMember id)).1 hmem)

theorem Untouched.spares (ht : Untouched t) (p : ℕ) (h : Hist) : Spares p h t := by
  intro c id hown
  exact .inl ((OwnerIn.congr (ht.view (committed h) id)).2 hown)

theorem HoldsOwner.apart {c id : Uuid} (H : HoldsOwner h t c id)
    (ha : Apart Key.notMember p h t h' t') : HoldsOwner h' t' c id := by
  obtain ⟨hlock, hown⟩ := H
  refine ⟨ha.onward.locks _ hlock, ?_⟩
  rw [OwnerIn.congr (ha.row_view (Key.not_notMember _) _), Tx.view,
    OwnerIn.congr (row_append_congr _ (ha.onward.row_eq hlock))]
  exact hown

/-- Other work keeps what is owed. -/
theorem Spares.apart (H : Spares p h t) (hs : t.Sound) (ha : Apart Key.notMember p h t h' t') :
    Spares p h' t' := by
  intro c id hown
  by_cases hw : Key.customerMembership id ∈ keys t.writes
  · have hlock := hs _ hw
    rw [OwnerIn.congr (ha.onward.row_eq hlock)] at hown
    rcases H c id hown with hstay | ⟨loaded, hread, hother⟩
    · have hheld : HoldsOwner h t c id := ⟨hlock, hstay⟩
      exact .inl (hheld.apart ha).2
    · refine .inr ⟨loaded, ha.onward.suffix.subset hread, fun hl => ?_⟩
      obtain ⟨other, hheld⟩ := hother hl
      exact ⟨other, hheld.apart ha⟩
  · left
    rw [OwnerIn.congr (ha.row_view (Key.not_notMember _) _), Tx.view,
      OwnerIn.congr (row_append_of_notMem _ hw)]
    exact hown

/-- What is owed is paid at the commit. -/
theorem Spares.commitOk (H : Spares p h t) : ownersKept.commitOk h p t.writes := by
  rintro hg c ⟨id, hown⟩
  rcases H c id hown with hstay | ⟨loaded, hread, hother⟩
  · exact ⟨id, hstay⟩
  · by_cases hl : loaded.OwnerOf c
    · obtain ⟨other, -, hown'⟩ := hother hl
      exact ⟨other, hown'⟩
    · by_cases hgone : OwnerIn (t.writes ++ committed h) c id
      · exact ⟨id, hgone⟩
      · exact absurd (takesUnguarded hread hl hown hgone) hg

/-- The process had loaded the membership, and, if as an owner, holds another owner. -/
def Covered (p : ℕ) (h : Hist) (t : DbTx) (id : Uuid) (loaded : CustomerMembership) : Prop :=
  .ran p (.get (.customerMembership id)) (some loaded) ∈ h ∧
    (loaded.role = .CUSTOMER_OWNER → ∃ other, other ≠ id ∧
      HoldsOwner h t loaded.customerId other)

theorem Covered.apart {id : Uuid} {loaded : CustomerMembership} (H : Covered p h t id loaded)
    (ha : Apart Key.notMember p h t h' t') : Covered p h' t' id loaded := by
  refine ⟨ha.onward.suffix.subset H.1, fun hrole => ?_⟩
  obtain ⟨other, hne, hheld⟩ := H.2 hrole
  exact ⟨other, hne, hheld.apart ha⟩

/-- A covered membership may be written. -/
theorem Covered.spares {id : Uuid} {loaded : CustomerMembership} (H : Covered p h t id loaded)
    (ht : Untouched t) (v : Option CustomerMembership) :
    Spares p h (t.write [⟨.customerMembership id, v⟩]) := by
  have hview : ∀ other, other ≠ id →
      row ((t.write [⟨.customerMembership id, v⟩]).view (committed h)) (.customerMembership other) =
        row (t.view (committed h)) (.customerMembership other) := by
    intro other hne
    exact row_cons_ne _ _ fun he => hne (Key.customerMembership.inj he).symm
  intro c other hown
  by_cases hid : other = id
  · subst hid
    refine .inr ⟨loaded, H.1, fun hl => ?_⟩
    obtain ⟨second, hne, hlock, hown'⟩ := H.2 hl.2
    refine ⟨second, List.mem_append_right _ hlock, (OwnerIn.congr (hview second hne)).2 ?_⟩
    exact hl.1 ▸ hown'
  · left
    rw [OwnerIn.congr (hview other hid), OwnerIn.congr (ht.view _ _)]
    exact hown

end Spares

/-! ## What the functions do -/

section Safe

variable {p : ℕ} {h : Hist} {t : DbTx}

/-- Any exception will do: the transaction is rolled back. -/
abbrev Anyhow : Err → Hist → DbTx → Prop := fun _ _ _ => True

/-- A program that writes no membership. -/
theorem apart_of_writes {α : Type} {P : Key → Prop} {m : Session α} (hm : Writes P m)
    (hP : ∀ k, P k → k.notMember) (h : Hist) (t : DbTx) :
    Safe ownersKept p (fun _ => Apart Key.notMember p h t) Anyhow m h t :=
  (Only.apart (fun _ _ _ => trivial) (hm.weaken hP) h t).mono (fun _ _ _ => id)
    fun _ _ _ _ => trivial

/-- A row lock. -/
theorem lockMembership (id : Uuid) (h : Hist) (t : DbTx) :
    Safe ownersKept p (fun x h' t' => Apart Key.notMember p h t h' t' ∧
        ∀ c, (∃ m ∈ x, m.OwnerOf c) → HoldsOwner h' t' c id) Anyhow
      (Session.getForUpdate (.customerMembership id)) h t := by
  refine (Safe.forUpdate (M := Call.Minor) _).mono ?_ fun _ _ _ _ => trivial
  rintro x h' t' ⟨-, ho, hx, rfl, -⟩
  refine ⟨⟨ho, [], ?_, by simp⟩, ?_⟩
  · split <;> rfl
  · rintro c ⟨m, hm, hown⟩
    obtain rfl := Option.mem_def.1 hm
    exact ⟨by simp, m, hx.symm, hown⟩

/-- **The count counts locked owners.** -/
theorem countLocked_safe (c : Uuid) {ids : List Uuid} (hids : ids.Nodup) (h : Hist) (t : DbTx) :
    Safe ownersKept p (fun n h' t' => Apart Key.notMember p h t h' t' ∧
        ∃ found : List Uuid, found.Sublist ids ∧ found.length = n ∧
          ∀ id ∈ found, HoldsOwner h' t' c id) Anyhow
      (countLocked c ids) h t := by
  induction ids generalizing h t with
  | nil => exact ⟨.refl h t, [], List.Sublist.refl _, rfl, by simp⟩
  | cons id ids ih =>
    refine Safe.bind (lockMembership id h t) ?_
    rintro x h₁ t₁ ⟨ha₁, hx⟩
    refine Safe.bind (ih (List.nodup_cons.1 hids).2 h₁ t₁) ?_
    rintro n h₂ t₂ ⟨ha₂, found, hsub, hlen, hheld⟩
    refine ⟨ha₁.trans ha₂, ?_⟩
    split
    · rename_i hown
      refine ⟨id :: found, hsub.cons_cons id, by simp [hlen], ?_⟩
      rw [List.forall_mem_cons]
      exact ⟨(hx c hown).apart ha₂, hheld⟩
    · exact ⟨found, hsub.cons id, hlen, hheld⟩

theorem countCustomerOwners_safe (c : Uuid) (h : Hist) (t : DbTx) :
    Safe ownersKept p (fun n h' t' => Apart Key.notMember p h t h' t' ∧
        ∃ found : List Uuid, found.Nodup ∧ found.length = n ∧
          ∀ id ∈ found, HoldsOwner h' t' c id) Anyhow
      (countCustomerOwners c) h t := by
  refine Safe.bind (apart_of_writes (P := fun _ => False) Writes.select (by simp) h t) ?_
  intro db h₁ t₁ ha₁
  refine Safe.bind (apart_of_writes (P := fun _ => False) (Writes.scanOrder _) (by simp) h₁ t₁) ?_
  intro order h₂ t₂ ha₂
  have hnodup : order.1.Nodup := order.2.nodup_iff.2 (nodup_ownersOf db c)
  refine (countLocked_safe c hnodup h₂ t₂).mono ?_ fun _ _ _ => id
  rintro n h₃ t₃ ⟨ha₃, found, hsub, hlen, hheld⟩
  exact ⟨(ha₁.trans ha₂).trans ha₃, found, hsub.nodup hnodup, hlen, hheld⟩

/-- **The guard leaves another owner**, where it is asked for. -/
theorem assertNotLastOwner_safe (asked : Prop) [Decidable asked] (c : Uuid) (reason : String)
    (id : Uuid) (h : Hist) (t : DbTx) :
    Safe ownersKept p (fun _ h' t' => Apart Key.notMember p h t h' t' ∧
        (asked → ∃ other, other ≠ id ∧ HoldsOwner h' t' c other)) Anyhow
      (assertNotLastOwner asked c reason) h t := by
  unfold assertNotLastOwner
  split
  · refine Safe.bind (countCustomerOwners_safe c h t) ?_
    rintro n h₁ t₁ ⟨ha, found, hnodup, hlen, hheld⟩
    split
    · trivial
    · rename_i hn
      refine ⟨ha, fun _ => ?_⟩
      -- two different owners are held; one of them is not `id`
      obtain ⟨other, hother⟩ : ∃ other, other ∈ found.erase id := by
        apply List.exists_mem_of_length_pos
        have := List.length_erase_add_one (a := id) (l := found)
        by_cases hid : id ∈ found
        · rw [List.length_erase_of_mem hid]
          omega
        · rw [List.erase_of_not_mem hid]
          omega
      exact ⟨other, (hnodup.mem_erase_iff.1 hother).1,
        hheld other (hnodup.mem_erase_iff.1 hother).2⟩
  · rename_i hno
    exact ⟨.refl h t, fun hasked => absurd hasked hno⟩

/-- However the transaction goes on beside the memberships, the owners are spared. -/
def Spared (p : ℕ) (h : Hist) (t : DbTx) : Prop :=
  ∀ h' t', Apart Key.notMember p h t h' t' → Spares p h' t'

theorem Spared.apart {h' : Hist} {t' : DbTx} (H : Spared p h t)
    (ha : Apart Key.notMember p h t h' t') : Spared p h' t' :=
  fun _ _ ha' => H _ _ (ha.trans ha')

theorem Untouched.settled (ht : Untouched t) (p : ℕ) (h : Hist) : Spared p h t :=
  fun _ _ ha => (ht.apart ha).spares _ _

theorem Spares.settled (H : Spares p h t) (hs : t.Sound) : Spared p h t :=
  fun _ _ ha => H.apart hs ha

/-- New rows take nothing away. -/
theorem Untouched.inserted (ht : Untouched t) (p : ℕ) {rows : List (Entry Row)}
    (hrows : ∀ e ∈ rows, row (t.view (committed h)) e.1 = none) :
    Spares p h (t.write (rows.map Entry.version)) := by
  intro c id hown
  left
  rw [← OwnerIn.congr (ht.view (committed h) id)] at hown
  rw [Tx.view, Tx.write_writes, List.append_assoc, OwnerIn.congr (row_append_of_notMem _ ?_)]
  · exact hown
  · intro hmem
    rw [keys, List.map_reverse, List.mem_reverse, ← keys, keys_version] at hmem
    obtain ⟨e, he, hk⟩ := List.mem_map.1 hmem
    obtain ⟨m, hm, -⟩ := hown
    have hnone := hrows e he
    rw [hk] at hnone
    rw [hnone] at hm
    cases hm

/-- The flush of a changed role. -/
theorem flushRole_safe {id : Uuid} {loaded : CustomerMembership} {newRole : CustomerRole}
    (ht : Untouched t) (H : newRole ≠ loaded.role → Covered p h t id loaded) :
    Safe ownersKept p (fun _ => Spared p) Anyhow (flushRole id loaded.role newRole) h t := by
  unfold flushRole
  split
  · rename_i hne
    refine (Safe.update (M := Call.Minor) _ _).mono ?_ fun _ _ _ _ => trivial
    rintro - h' t' ⟨hl, ho, v, -, rfl⟩
    exact (((H hne).apart (.stay ho)).spares ht _).settled hl.sound
  · exact ht.settled p h

/-- The removal of a membership. -/
theorem deleteCustomerMembership_safe {id : Uuid} {loaded : CustomerMembership}
    (ht : Untouched t) (H : Covered p h t id loaded) :
    Safe ownersKept p (fun _ => Spared p) Anyhow (deleteCustomerMembership id) h t := by
  unfold deleteCustomerMembership deleteRow
  refine Safe.bind (B := fun _ => Spared p) (Safe.bind (lockMembership id h t) ?_) ?_
  · rintro x h₁ t₁ ⟨ha₁, -⟩
    dsimp only
    split
    · refine Safe.bind (B := fun _ => Spared p) ?_ fun _ _ _ hdone => hdone
      refine (Safe.delete (M := Call.Minor) _).mono ?_ fun _ _ _ _ => trivial
      rintro - h₂ t₂ ⟨hl, ho, rfl⟩
      exact (((H.apart ha₁).apart (.stay ho)).spares (ht.apart ha₁) none).settled hl.sound
    · exact (ht.apart ha₁).settled p h₁
  · intro x h₁ t₁ hdone
    split
    · exact hdone
    · rename_i m
      have hw : Writes Key.notMember
          (run (.delete (.customerMember m.customerId m.userId)) : Session Unit) :=
        Writes.delete trivial
      exact (apart_of_writes hw (fun _ hk => hk) h₁ t₁).mono (fun _ _ _ ha => hdone.apart ha)
        fun _ _ _ _ => trivial

section Requests

variable [Sha256]

omit [Sha256] in
theorem deleteWorkspaceMemberships_writes (ids : List Uuid) :
    Writes Key.notMember (deleteWorkspaceMemberships ids) := by
  induction ids with
  | nil => exact Only.pure _
  | cons id ids ih =>
    refine Only.bind ?_ fun _ => ih
    refine Only.bind (Only.bind (Writes.getForUpdate _) fun found => ?_) fun found => ?_
    · dsimp only
      split
      · exact Only.bind (Writes.delete trivial) fun _ => Only.pure _
      · exact Only.pure _
    · split
      · exact Only.pure _
      · exact Writes.delete trivial

omit [Sha256] in
theorem indexCustomer_writes (u c : Uuid) : Writes Key.notMember (indexCustomer u c) := by
  refine Only.bind (Writes.get _) fun index => ?_
  split
  · exact Writes.insert trivial
  · exact Only.pure _

omit [Sha256] in
theorem unindexCustomer_writes (u c : Uuid) : Writes Key.notMember (unindexCustomer u c) := by
  refine Only.bind Writes.select fun db => ?_
  split
  · refine Only.bind (Writes.get _) fun index => ?_
    split
    · refine Only.bind (Only.bind (Writes.getForUpdate _) fun found => ?_) fun _ => Only.pure _
      dsimp only
      split
      · exact Only.bind (Writes.delete trivial) fun _ => Only.pure _
      · exact Only.pure _
    · exact Only.pure _
  · exact Only.pure _

theorem audit_writes (c : Uuid) (w : Option Uuid) (t : Uuid) (a e : String) (m : Json) :
    Writes Key.notMember (recordAuditEvent c w t a e m) := by
  refine (recordAuditEvent_writes c w t a e m).weaken fun k hk => ?_
  cases k <;> trivial

omit [Sha256] in
/-- Work beside the memberships, then the rest. -/
theorem beside {α β : Type} {m : Session β} {f : β → Session α}
    {Q : α → Hist → DbTx → Prop} (hm : Writes Key.notMember m)
    (hf : ∀ b h' t', Apart Key.notMember p h t h' t' →
      Safe ownersKept p Q Anyhow (f b) h' t') : Safe ownersKept p Q Anyhow (m >>= f) h t :=
  Safe.bind (apart_of_writes hm (fun _ hk => hk) h t) hf

theorem inviteCustomerMember_safe (ht : Untouched t) (c u : Uuid) (role : CustomerRole)
    (actor : String) :
    Safe ownersKept p (fun _ => Spared p) Anyhow (inviteCustomerMember c u role actor) h t := by
  unfold inviteCustomerMember
  refine beside Writes.uuid4 fun id h₁ t₁ ha₁ => ?_
  have ht₁ := ht.apart ha₁
  extract_lets membership
  refine Safe.bind ((Safe.tryInsert (M := Call.Minor) _).mono
    (Q := fun _ => Spared p) ?_ fun _ _ _ _ => trivial) ?_
  · rintro x h₂ t₂ ⟨hl, -, ⟨rfl, rfl, hnew⟩ | ⟨rfl, rfl, -⟩⟩
    · exact (ht₁.inserted p hnew).settled hl.sound
    · exact ht₁.settled p h₂
  · intro inserted h₂ t₂ hset
    split
    · trivial
    · refine beside (indexCustomer_writes u c) fun _ h₃ t₃ ha₃ => ?_
      refine beside Writes.uuid4 fun traceId h₄ t₄ ha₄ => ?_
      refine beside (audit_writes ..) fun _ h₅ t₅ ha₅ => ?_
      exact ((hset.apart ha₃).apart ha₄).apart ha₅

theorem changeCustomerMemberRole_safe {id : Uuid} {loaded : CustomerMembership} (ht : Untouched t)
    (hread : .ran p (.get (.customerMembership id)) (some loaded) ∈ h) (newRole : CustomerRole)
    (actor : String) :
    Safe ownersKept p (fun _ => Spared p) Anyhow
      (changeCustomerMemberRole id loaded newRole actor) h t := by
  unfold changeCustomerMemberRole
  refine Safe.bind (assertNotLastOwner_safe _ _ _ id h t) ?_
  rintro - h₁ t₁ ⟨ha₁, hguard⟩
  refine Safe.bind (flushRole_safe (ht.apart ha₁) fun hne => ?_) fun _ h₂ t₂ hset => ?_
  · -- the guard was asked for, unless the loaded role is not the owner's
    refine ⟨ha₁.onward.suffix.subset hread, fun hrole => hguard ⟨hrole, ?_⟩⟩
    exact hrole ▸ hne
  · refine beside Writes.uuid4 fun traceId h₃ t₃ ha₃ => ?_
    refine beside (audit_writes ..) fun _ h₄ t₄ ha₄ => ?_
    exact (hset.apart ha₃).apart ha₄

theorem removeCustomerMember_safe {id : Uuid} {loaded : CustomerMembership} (ht : Untouched t)
    (hread : .ran p (.get (.customerMembership id)) (some loaded) ∈ h) (actor : String) :
    Safe ownersKept p (fun _ => Spared p) Anyhow (removeCustomerMember id loaded actor) h t := by
  unfold removeCustomerMember
  refine Safe.bind (assertNotLastOwner_safe _ _ _ id h t) ?_
  rintro - h₁ t₁ ⟨ha₁, hguard⟩
  have hcovered : Covered p h₁ t₁ id loaded := ⟨ha₁.onward.suffix.subset hread, hguard⟩
  refine beside Writes.select fun db h₂ t₂ ha₂ => ?_
  refine beside (deleteWorkspaceMemberships_writes _) fun _ h₃ t₃ ha₃ => ?_
  refine beside Writes.uuid4 fun traceId h₄ t₄ ha₄ => ?_
  refine beside (audit_writes ..) fun _ h₅ t₅ ha₅ => ?_
  have ha := ((ha₂.trans ha₃).trans ha₄).trans ha₅
  refine Safe.bind (deleteCustomerMembership_safe ((ht.apart ha₁).apart ha) (hcovered.apart ha)) ?_
  intro _ h₆ t₆ hset
  exact (apart_of_writes (unindexCustomer_writes ..) (fun _ hk => hk) h₆ t₆).mono
    (fun _ _ _ ha => hset.apart ha) fun _ _ _ _ => trivial

/-! ## Requests -/

omit [Sha256] in
/-- A settled transaction keeps the contract when it commits. -/
theorem atomically_safe {α : Type} {m : Session α}
    (H : Safe ownersKept p (fun _ => Spared p) Anyhow m h {}) :
    Safe ownersKept p (fun _ _ _ => True) Anyhow (atomically m) h {} := by
  refine Safe.atomically (fun _ => Spared p) Anyhow H ?_ fun _ _ _ _ _ _ _ => trivial
  intro a h₁ t₁ hset h₂ ho _ _
  exact ⟨fun _ => ⟨(hset h₂ t₁ (.others ho)).commitOk, trivial, fun _ _ _ => trivial⟩,
    fun _ _ _ => trivial⟩

omit [Sha256] in
theorem authorizeManageCustomerMembers_writes (context : CustomerContext) :
    Writes Key.notMember (authorizeManageCustomerMembers context) := by
  unfold authorizeManageCustomerMembers
  split
  · exact Only.pure _
  · exact Only.throw _

omit [Sha256] in
/-- A membership is handed on as it was loaded. -/
theorem getCustomerMembership_safe (context : CustomerContext) (id : Uuid) :
    Safe ownersKept p (fun m h' t' => Apart Key.notMember p h t h' t' ∧
        .ran p (.get (.customerMembership id)) (some m) ∈ h') Anyhow
      (getCustomerMembership context id) h t := by
  refine Safe.bind (B := fun x h' t' => Apart Key.notMember p h t h' t' ∧
    .ran p (.get (.customerMembership id)) x ∈ h') ?_ ?_
  · refine (Safe.get (M := Call.Minor) _).mono ?_ fun _ _ _ _ => trivial
    rintro x h' t' ⟨rfl, -, ho, -, hread⟩
    exact ⟨.stay ho, hread⟩
  · rintro x h' t' ⟨ha, hread⟩
    split
    · trivial
    · rename_i m hm
      obtain ⟨rfl, -⟩ := Option.filter_eq_some_iff.1 hm
      exact ⟨ha, hread⟩

/-- **Every request settles its transaction.** -/
theorem serveMembers_safe (r : MemberRequest) (p : ℕ) (h : Hist) :
    Safe ownersKept p (fun _ _ _ => True) Anyhow (serveMembers r) h {} := by
  have hnone : Untouched {} := fun _ => List.not_mem_nil
  have hload : ∀ {α : Type} (context : CustomerContext) (id : Uuid) (f : CustomerMembership →
      Session α) (h₁ : Hist) (t₁ : DbTx), Untouched t₁ →
      (∀ m h₂ t₂, Untouched t₂ → .ran p (.get (.customerMembership id)) (some m) ∈ h₂ →
        Safe ownersKept p (fun _ => Spared p) Anyhow (f m) h₂ t₂) →
      Safe ownersKept p (fun _ => Spared p) Anyhow
        (authorizeManageCustomerMembers context >>= fun _ =>
          getCustomerMembership context id >>= f) h₁ t₁ := by
    intro α context id f h₁ t₁ ht hf
    refine beside (authorizeManageCustomerMembers_writes context) fun _ h₂ t₂ ha₂ => ?_
    refine Safe.bind (getCustomerMembership_safe context id) ?_
    rintro m h₃ t₃ ⟨ha₃, hread⟩
    exact hf m h₃ t₃ (ht.apart (ha₂.trans ha₃)) hread
  cases r with
  | invite who c u role =>
    refine atomically_safe ?_
    refine beside (getCustomerContext_writes ..) fun context h₁ t₁ ha₁ => ?_
    refine beside (authorizeManageCustomerMembers_writes context) fun _ h₂ t₂ ha₂ => ?_
    refine beside (Writes.get _) fun invitee h₃ t₃ ha₃ => ?_
    split
    · trivial
    · have ht₃ := hnone.apart ((ha₁.trans ha₂).trans ha₃)
      exact Safe.bind (inviteCustomerMember_safe ht₃ _ _ _ _) fun _ _ _ hset => hset
  | changeRole who c id role =>
    refine atomically_safe ?_
    refine beside (getCustomerContext_writes ..) fun context h₁ t₁ ha₁ => ?_
    refine hload context id _ h₁ t₁ (hnone.apart ha₁) fun m h₂ t₂ ht₂ hread => ?_
    exact Safe.bind (changeCustomerMemberRole_safe ht₂ hread _ _) fun _ _ _ hset => hset
  | remove who c id =>
    refine atomically_safe ?_
    refine beside (getCustomerContext_writes ..) fun context h₁ t₁ ha₁ => ?_
    refine hload context id _ h₁ t₁ (hnone.apart ha₁) fun m h₂ t₂ ht₂ hread => ?_
    exact Safe.bind (removeCustomerMember_safe ht₂ hread _) fun _ _ _ hset => hset
  | provision rows =>
    refine Safe.bind (atomically_safe ?_) fun _ _ _ _ => trivial
    refine Safe.run fun h₁ ho hv hs => ⟨fun busy x t' hf hx => ?_, trivial⟩
    have hsound := Stmt.exec_sound hx hs
    simp only [Stmt.exec] at hx
    split at hx
    · simp at hx
    · rename_i hfree
      simp only [Option.some.injEq, Prod.mk.injEq] at hx
      obtain ⟨-, rfl⟩ := hx
      have hspares := hnone.inserted p (h := h₁) fun e (he : e ∈ rows) => by
        simpa using List.any_eq_false.1 (Bool.eq_false_iff.2 (not_or.1 hfree).2) e he
      exact (hspares.settled hsound).apart (.stay (.own trivial (fun _ hk => hk)
        (List.suffix_refl _)))

end Requests

end Safe

/-! ## Every run -/

section Runs

variable [Sha256]

omit [Sha256] in
/-- A guarded history that keeps the contract never loses a customer's last owner. -/
theorem hasOwner_of_valid {evs h : Hist} (hv : ownersKept.Valid (evs ++ h))
    (hg : Guarded (evs ++ h)) {c : Uuid} (hc : HasOwner (committed h) c) :
    HasOwner (committed (evs ++ h)) c := by
  induction evs with
  | nil => exact hc
  | cons ev evs ih =>
    cases ev with
    | committed p w => exact hv.1 hg.1 c (ih hv.2 hg.2)
    | ran | called | rolledBack | failed | crashed => exact ih hv.2 hg

/-- **A customer keeps an owner**: in a run no commit of which takes an ownership that its process
had not loaded, a customer that has an owner at some moment has one at every later moment. -/
theorem customer_keeps_owner
    {s : Sys Row Answer Err (Option (Uuid × CustomerMembership)) MemberRequest}
    (hs : Reachable serveMembers s) (hg : Guarded s.hist) {evs h : Hist} (hh : s.hist = evs ++ h)
    {c : Uuid} (hc : HasOwner (committed h) c) : HasOwner (committed s.hist) c := by
  have hv := (hs.safe fun r p h _ _ => serveMembers_safe r p h).valid
  rw [hh] at hv hg ⊢
  exact hasOwner_of_valid hv hg hc

end Runs

/-! ## Two runs -/

section Sample

attribute [local instance] sampleSha

theorem hasOwner_iff {db : Db} {c : Uuid} : HasOwner db c ↔ ownersOf db c ≠ [] := by
  constructor
  · rintro ⟨id, hown⟩
    exact List.ne_nil_of_mem (mem_ownersOf.2 hown)
  · intro hne
    obtain ⟨id, hmem⟩ := List.exists_mem_of_ne_nil _ hne
    exact ⟨id, mem_ownersOf.1 hmem⟩

/-- Customer 7 with its owner, user 3, and another member, user 4. -/
def twoMembers : List (Entry Row) :=
  [⟨.customer 7, ⟨"Doda"⟩⟩, ⟨.customerMembership 11, ⟨7, 3, .CUSTOMER_OWNER⟩⟩,
    ⟨.customerMembership 12, ⟨7, 4, .MEMBER⟩⟩]

/-- User 3 makes user 4 an auditor; before the role is written, user 3 makes user 4 an owner,
and user 4 removes user 3. -/
def demoteLate : Option (Sys Row Answer Err (Option (Uuid × CustomerMembership)) MemberRequest) :=
  runAll serveMembers {} (.start (.provision twoMembers) :: Act.runs 0 sampleAnswer 100 2 ++
    .start (.changeRole ⟨3, .AAL1⟩ 7 12 .AUDITOR) :: Act.runs 1 sampleAnswer 102 3 ++
    .start (.changeRole ⟨3, .AAL1⟩ 7 12 .CUSTOMER_OWNER) :: Act.runs 2 sampleAnswer 105 13 ++
    .start (.remove ⟨4, .AAL1⟩ 7 11) :: Act.runs 3 sampleAnswer 118 22 ++
    Act.runs 1 sampleAnswer 140 10)

/-- **A member promoted after it was loaded is demoted without a count**, and the customer has no
owner left. -/
theorem promoted_owner_demoted :
    ¬ ∀ s : Sys Row Answer Err (Option (Uuid × CustomerMembership)) MemberRequest,
      Reachable serveMembers s → ∀ evs h, s.hist = evs ++ h → ∀ c, HasOwner (committed h) c →
        HasOwner (committed s.hist) c := by
  have hrun : (demoteLate.any fun s => ownersOf (committed (s.hist.drop 48)) 7 ≠ [] ∧
      ownersOf (committed s.hist) 7 = []) = true := by
    decide +kernel
  obtain ⟨s, hst, hs⟩ := (Option.any_eq_true _ _).1 hrun
  obtain ⟨hbefore, hafter⟩ := of_decide_eq_true hs
  intro H
  have hkept := H s (Reachable.init.runAll hst) _ _ (List.take_append_drop 48 s.hist).symm 7
    (hasOwner_iff.2 hbefore)
  exact hasOwner_iff.1 hkept hafter

/-- User 3 makes user 4 an owner, who makes user 3 a member. -/
def handOver : Option (Sys Row Answer Err (Option (Uuid × CustomerMembership)) MemberRequest) :=
  runAll serveMembers {} (.start (.provision twoMembers) :: Act.runs 0 sampleAnswer 100 2 ++
    .start (.changeRole ⟨3, .AAL1⟩ 7 12 .CUSTOMER_OWNER) :: Act.runs 1 sampleAnswer 102 13 ++
    .start (.changeRole ⟨4, .AAL1⟩ 7 11 .MEMBER) :: Act.runs 2 sampleAnswer 115 17)

/-- The owner that is left is the new one. -/
theorem customer_keeps_owner_sample : ∃ s, handOver = some s ∧
    ownersOf (committed s.hist) 7 = [12] ∧ HasOwner (committed s.hist) 7 := by
  have hrun : (handOver.any fun s => ownersOf (committed s.hist) 7 = [12] ∧ Guarded s.hist ∧
      ownersOf (committed (s.hist.drop 30)) 7 ≠ []) = true := by
    decide +kernel
  obtain ⟨s, hst, hr⟩ := (Option.any_eq_true _ _).1 hrun
  obtain ⟨howner, hg, hbefore⟩ := of_decide_eq_true hr
  exact ⟨s, hst, howner, customer_keeps_owner (Reachable.init.runAll hst) hg
    (List.take_append_drop 30 s.hist).symm (hasOwner_iff.2 hbefore)⟩

end Sample

end Doda
