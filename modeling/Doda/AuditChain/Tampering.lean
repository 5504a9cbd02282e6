import Doda.AuditChain.Chain
import Doda.Domain.Canonical

/-!
# What the verifier notices

A recorded chain, the three ways a row set can be tampered with while its rows
keep their hashed fields, and exactly which of those `verifyEvents` reports.

The walk starts from `NULL` and ends wherever the rows end; it never looks at the
customer's chain tip.  So rows missing from the end, and forged rows appended
after it, leave a chain that links up.  Everything else breaks a link: what
still links up is an initial segment of the recorded chain followed by rows that
are not in it (`Linked.eq_take_append`).

## Main definitions

* `RecordedChain` — a customer's events as recorded, with the tip.
* `Tampering`, `Tampering.rows`, `Tampering.Proper` — the edits.
* `Tampering.Evades` — the edits that leave no trace.
-/

namespace Doda

open HashChain

/-! ## The order of the walk -/

instance : Std.Total AuditEvent.before := ⟨fun a b => le_total a.place b.place⟩
instance : IsTrans AuditEvent AuditEvent.before := ⟨fun _ _ _ => le_trans⟩

/-- Rows at the same place have the same `id`. -/
theorem id_eq_of_before {a b : AuditEvent} (h₁ : a.before b) (h₂ : b.before a) : a.id = b.id := by
  have h : (a.createdAt, a.id.toNat) = (b.createdAt, b.id.toNat) :=
    toLex_inj.1 (le_antisymm h₁ h₂)
  exact BitVec.eq_of_toNat_eq (Prod.mk.inj h).2

/-- Rows with distinct ids have one sorted order. -/
theorem insertionSort_eq_of_perm {xs ys : List AuditEvent} (hp : xs.Perm ys)
    (hids : (ys.map AuditEvent.id).Nodup) (hs : ys.Pairwise AuditEvent.before) :
    xs.insertionSort AuditEvent.before = ys := by
  have hp' := (List.perm_insertionSort AuditEvent.before xs).trans hp
  refine hp'.eq_of_pairwise ?_ (List.pairwise_insertionSort _ _) hs
  intro a b ha hb hab hba
  exact List.inj_on_of_nodup_map hids (hp'.mem_iff.1 ha) hb (id_eq_of_before hab hba)

/-- Rows of a list without repeated hashes are told apart by their hashes. -/
theorem eq_of_map_hash_eq {xs ys zs : List AuditEvent} (hz : (zs.map AuditEvent.hash).Nodup)
    (hx : ∀ x ∈ xs, x ∈ zs) (hy : ∀ y ∈ ys, y ∈ zs)
    (h : xs.map AuditEvent.hash = ys.map AuditEvent.hash) : xs = ys := by
  induction xs generalizing ys with
  | nil => exact (List.map_eq_nil_iff.1 h.symm).symm
  | cons x xs ih =>
    cases ys with
    | nil => simp at h
    | cons y ys =>
      simp only [List.map_cons, List.cons.injEq] at h
      have hxy : x = y := List.inj_on_of_nodup_map hz (hx x (by simp)) (hy y (by simp)) h.1
      rw [hxy, ih (fun a ha => hx a (by simp [ha])) (fun a ha => hy a (by simp [ha])) h.2]

/-! ## Chains and edits -/

section

variable [Sha256]

/-- A customer's events in the order they were recorded, with the tip of their
chain. -/
structure RecordedChain (customerId : Uuid) where
  events : List AuditEvent
  tip : Option String
  owner : ∀ e ∈ events, e.customerId = customerId
  linked : chainFields.Linked none events tip
  /-- `(created_at, id)` increases along the chain. -/
  ordered : events.Pairwise AuditEvent.before
  /-- `id` is a primary key. -/
  ids : (events.map AuditEvent.id).Nodup

/-- An edit of the stored rows that leaves the hashed fields of every row that
stays, and the tip, unchanged. -/
inductive Tampering where
  | delete (gone : AuditEvent → Bool)
  | insert (new : List AuditEvent)
  /-- Rewrite `created_at` and `id`, which no hash covers. -/
  | reorder (place : AuditEvent → Time × Uuid)

namespace Tampering

variable {customerId : Uuid}

/-- Move a row to another place in the `(created_at, id)` order. -/
def placed (place : AuditEvent → Time × Uuid) (e : AuditEvent) : AuditEvent :=
  { e with createdAt := (place e).1, id := (place e).2 }

/-- The rows after the edit. -/
def rows (chain : RecordedChain customerId) : Tampering → List AuditEvent
  | .delete gone => chain.events.filter (!gone ·)
  | .insert new => chain.events ++ new
  | .reorder place => chain.events.map (placed place)

/-- The edit deletes at least one row, inserts at least one row of this customer
that is not there, or puts the rows into a different order; and `id` is still a
primary key. -/
def Proper (chain : RecordedChain customerId) (t : Tampering) : Prop :=
  ((t.rows chain).map AuditEvent.id).Nodup ∧
  match t with
  | .delete gone => ∃ e ∈ chain.events, gone e = true
  | .insert new => new ≠ [] ∧ ∀ e ∈ new, e.customerId = customerId ∧ e ∉ chain.events
  | .reorder place => ¬ (chain.events.map (placed place)).Pairwise AuditEvent.before

/-- The edit leaves no trace: only the newest rows were deleted, or the inserted
rows all stand after the last recorded one and continue the chain from the tip. -/
def Evades (chain : RecordedChain customerId) : Tampering → Prop
  | .delete gone => chain.events.filter (!gone ·) <+: chain.events
  | .insert new => (∀ e ∈ chain.events, ∀ f ∈ new, e.before f) ∧
      ∃ b, chainFields.Linked chain.tip (new.insertionSort AuditEvent.before) b
  | .reorder _ => False

end Tampering

/-! ## What the walk reports -/

variable {customerId : Uuid} {chain : RecordedChain customerId} {rs : List AuditEvent}

/-- The verifier reports nothing exactly when the rows in `(created_at, id)` order
link up. -/
theorem verifyEvents_violations_eq_nil : (verifyEvents rs).violations = [] ↔
    ∃ b, chainFields.Linked none (rs.insertionSort AuditEvent.before) b :=
  violationsFrom_eq_nil

/-- An untouched chain verifies. -/
theorem RecordedChain.verifies (hp : rs.Perm chain.events) :
    (verifyEvents rs).violations = [] := by
  rw [verifyEvents_violations_eq_nil, insertionSort_eq_of_perm hp chain.ids chain.ordered]
  exact ⟨chain.tip, chain.linked⟩

/-- The edits that leave no trace leave none. -/
theorem violations_eq_nil_of_evades {t : Tampering} (ht : t.Proper chain) (he : t.Evades chain)
    (hp : rs.Perm (t.rows chain)) : (verifyEvents rs).violations = [] := by
  rw [verifyEvents_violations_eq_nil]
  cases t with
  | delete gone =>
    obtain ⟨tail, htail⟩ := he
    rw [insertionSort_eq_of_perm hp ht.1 (chain.ordered.filter _)]
    obtain ⟨b, hb, -⟩ := Fields.linked_append.1 (htail ▸ chain.linked)
    exact ⟨b, hb⟩
  | insert new =>
    obtain ⟨hafter, b, hb⟩ := he
    have hperm := List.perm_insertionSort AuditEvent.before new
    have hsort : rs.insertionSort AuditEvent.before =
        chain.events ++ new.insertionSort AuditEvent.before := by
      refine insertionSort_eq_of_perm (hp.trans (hperm.symm.append_left _)) ?_ ?_
      · exact ((hperm.append_left chain.events).map _).nodup_iff.2 ht.1
      · refine List.pairwise_append.2
          ⟨chain.ordered, List.pairwise_insertionSort _ _, fun e he f hf => ?_⟩
        exact hafter e he f (hperm.mem_iff.1 hf)
    exact ⟨b, hsort ▸ chain.linked.append hb⟩
  | reorder place => exact he.elim

/-- What a clean walk over rows that carry recorded hashes must be: the rows of an
initial segment. -/
theorem map_hash_eq_take (hinj : Function.Injective Sha256.hexdigest) {xs : List AuditEvent}
    {b : Option String} (hx : chainFields.Linked none xs b)
    (hmem : ∀ x ∈ xs, x.hash ∈ chain.events.map AuditEvent.hash) :
    xs.map AuditEvent.hash = (chain.events.take xs.length).map AuditEvent.hash := by
  obtain ⟨n, heq, hn, hdrop⟩ := chain.linked.eq_take_append (chainFields_binding hinj) hx
  have hnil : xs.drop n = [] := by
    refine List.eq_nil_iff_forall_not_mem.2 fun x hx' => ?_
    exact hdrop x hx' (hmem x (List.mem_of_mem_drop hx'))
  have hlen : n = xs.length := le_antisymm hn (List.drop_eq_nil_iff.1 hnil)
  rw [hlen, List.take_length] at heq
  exact heq

/-- An edit whose rows link up is one that leaves no trace. -/
theorem evades_of_violations_eq_nil (hinj : Function.Injective Sha256.hexdigest) {t : Tampering}
    (ht : t.Proper chain) (hp : rs.Perm (t.rows chain))
    (hnil : (verifyEvents rs).violations = []) : t.Evades chain := by
  obtain ⟨b, hb⟩ := verifyEvents_violations_eq_nil.1 hnil
  have hnd := chain.linked.nodup (chainFields_binding hinj)
  have hperm := (List.perm_insertionSort AuditEvent.before rs).trans hp
  have hsorted := List.pairwise_insertionSort AuditEvent.before rs
  generalize rs.insertionSort AuditEvent.before = walk at hb hperm hsorted
  cases t with
  | delete gone =>
    have hwalk : walk = chain.events.filter (!gone ·) := by
      refine hperm.eq_of_pairwise ?_ hsorted (chain.ordered.filter _)
      intro a c ha hc hac hca
      exact List.inj_on_of_nodup_map ht.1 (hperm.mem_iff.1 ha) hc (id_eq_of_before hac hca)
    subst hwalk
    have hmem : ∀ x ∈ chain.events.filter (!gone ·), x ∈ chain.events :=
      fun x hx => List.mem_of_mem_filter hx
    have heq := map_hash_eq_take hinj hb fun x hx => List.mem_map_of_mem (hmem x hx)
    rw [Tampering.Evades, eq_of_map_hash_eq hnd hmem (fun y hy => List.mem_of_mem_take hy) heq]
    exact List.take_prefix _ _
  | insert new =>
    obtain ⟨n, heq, hn, hdrop⟩ := chain.linked.eq_take_append (chainFields_binding hinj) hb
    -- every recorded row is still there, and not behind the common prefix
    have hsub : chain.events ⊆ walk.take n := by
      intro e he
      have : e ∈ walk := hperm.mem_iff.2 (List.mem_append_left _ he)
      rw [← List.take_append_drop n walk, List.mem_append] at this
      exact this.resolve_right fun h => hdrop e h (List.mem_map_of_mem he)
    have hlen : (walk.take n).length = (chain.events.take n).length := by
      simpa using congrArg List.length heq
    have hp₁ : chain.events.Perm (walk.take n) :=
      (List.subperm_of_subset hnd.of_map hsub).perm_of_length_le (by
        rw [hlen, List.length_take]; exact min_le_right _ _)
    have htake : chain.events.take n = chain.events :=
      List.take_of_length_le (by
        have := hp₁.length_eq
        rw [hlen, List.length_take] at this
        omega)
    have hfront : walk.take n = chain.events := by
      rw [htake] at heq
      exact eq_of_map_hash_eq hnd (fun x hx => hp₁.mem_iff.2 hx) (fun _ hy => hy) heq
    have hsplit : walk = chain.events ++ walk.drop n := by
      conv_lhs => rw [← List.take_append_drop n walk, hfront]
    rw [hsplit] at hperm hsorted hb
    have hback : (walk.drop n).Perm new := (List.perm_append_left_iff _).1 hperm
    obtain ⟨-, hs, hafter⟩ := List.pairwise_append.1 hsorted
    obtain ⟨c, hc, hb⟩ := Fields.linked_append.1 hb
    refine ⟨fun e he f hf => hafter e he f (hback.mem_iff.2 hf), b, ?_⟩
    rw [insertionSort_eq_of_perm hback.symm ?_ hs]
    · exact (hc.end_unique chain.linked) ▸ hb
    · have := ht.1
      rw [Tampering.rows, List.map_append] at this
      exact (hback.map _).nodup_iff.2 this.of_append_right
  | reorder place =>
    change walk.Perm (chain.events.map (Tampering.placed place)) at hperm
    have hhash : (chain.events.map (Tampering.placed place)).map AuditEvent.hash =
        chain.events.map AuditEvent.hash := by
      rw [List.map_map]; rfl
    have hmem : ∀ x ∈ walk, x.hash ∈ chain.events.map AuditEvent.hash := by
      intro x hx
      rw [← hhash]
      exact List.mem_map_of_mem (hperm.mem_iff.1 hx)
    have heq := map_hash_eq_take hinj hb hmem
    have hlen : walk.length = chain.events.length := by simpa using hperm.length_eq
    rw [hlen, List.take_length, ← hhash] at heq
    refine ht.2 ?_
    rw [← eq_of_map_hash_eq (hhash ▸ hnd) (fun x hx => hperm.mem_iff.1 hx) (fun _ hy => hy) heq]
    exact hsorted

/-- **What the verifier notices.**  It reports a violation for an edited chain
exactly when the edit is none of those that leave no trace. -/
theorem tampering_noticed_iff (hinj : Function.Injective Sha256.hexdigest) {t : Tampering}
    (ht : t.Proper chain) (hp : rs.Perm (t.rows chain)) :
    (verifyEvents rs).violations ≠ [] ↔ ¬ t.Evades chain :=
  not_congr ⟨evades_of_violations_eq_nil hinj ht hp, fun he => violations_eq_nil_of_evades ht he hp⟩

end

/-! ## A chain of two events

Two events of one customer, with the digests SHA-256 gives their texts. -/

/-- The text of the content of a sample event. -/
def sampleText (occurredAt : Time) (prevHash : Option String) : String :=
  canonicalJson (auditContent 7 (some 8) 9 "user:1" "task.created.v1" occurredAt (.obj []) prevHash)

def sampleHash₁ : String := "6fa6b20d8f0af8a7900384b84bec398450b00f60566b35bc62a7c72c342e8eb8"
def sampleHash₂ : String := "ea5fe695c57b619ac68cb93d167fac17f5dd872797ea3c809d81874176bff109"

/-- SHA-256 on the two sample texts, and an injective stand-in elsewhere. -/
@[reducible] def sampleSha : Sha256 where
  hexdigest s :=
    if s = sampleText 63890000000000000 none then sampleHash₁
    else if s = sampleText 63890000001000000 (some sampleHash₁) then sampleHash₂
    else "x" ++ s

attribute [local instance] sampleSha

private theorem sampleText_ne :
    sampleText 63890000001000000 (some sampleHash₁) ≠ sampleText 63890000000000000 none :=
  fun h => absurd (canonicalJson_auditContent_inj h).2.2.2.2.1 (by simp)

theorem sampleSha_injective : Function.Injective Sha256.hexdigest := by
  have h₁ : ∀ s, "x" ++ s ≠ sampleHash₁ := fun s => stand_in_ne (c := '6') rfl (by decide)
  have h₂ : ∀ s, "x" ++ s ≠ sampleHash₂ := fun s => stand_in_ne (c := 'e') rfl (by decide)
  have h₁₂ : sampleHash₁ ≠ sampleHash₂ := by decide
  intro s t h
  simp only [Sha256.hexdigest] at h
  split_ifs at h <;> simp_all [eq_comm]

/-- A sample event. -/
def sampleEvent (id : Uuid) (at_ : Time) (prevHash : Option String) (hash : String) : AuditEvent :=
  { id, createdAt := at_, customerId := 7, workspaceId := some 8, traceId := 9,
    actorId := "user:1", eventType := "task.created.v1", occurredAt := at_,
    safeMetadata := .obj [], prevHash, hash }

def sampleEvent₁ : AuditEvent := sampleEvent 1 63890000000000000 none sampleHash₁
def sampleEvent₂ : AuditEvent := sampleEvent 2 63890000001000000 (some sampleHash₁) sampleHash₂

theorem recomputeHash_sampleEvent (id : Uuid) (at_ : Time) (prevHash : Option String)
    (hash : String) : (sampleEvent id at_ prevHash hash).recomputeHash =
      Sha256.hexdigest (sampleText at_ prevHash) := rfl

theorem recomputeHash_sampleEvent₁ : sampleEvent₁.recomputeHash = sampleHash₁ := by
  rw [sampleEvent₁, recomputeHash_sampleEvent]
  simp only [Sha256.hexdigest, if_pos]

theorem recomputeHash_sampleEvent₂ : sampleEvent₂.recomputeHash = sampleHash₂ := by
  rw [sampleEvent₂, recomputeHash_sampleEvent]
  simp only [Sha256.hexdigest, if_neg sampleText_ne, if_pos]

/-- The chain of the two. -/
def sampleChain : RecordedChain 7 where
  events := [sampleEvent₁, sampleEvent₂]
  tip := some sampleHash₂
  owner := by simp [sampleEvent₁, sampleEvent₂, sampleEvent]
  linked := ⟨rfl, recomputeHash_sampleEvent₁.symm, rfl, recomputeHash_sampleEvent₂.symm, rfl⟩
  ordered := by decide
  ids := by decide

/-- Deleting the older event of the two is noticed. -/
theorem tampering_noticed_iff_sample : (verifyEvents [sampleEvent₂]).violations ≠ [] :=
  (tampering_noticed_iff sampleSha_injective
    (show (Tampering.delete (·.id = 1)).Proper sampleChain from
      ⟨by decide, sampleEvent₁, by simp [sampleChain], rfl⟩) (.refl _)).2
    (by simp [Tampering.Evades, sampleChain, sampleEvent₁, sampleEvent₂, sampleEvent])

/-- **Deleting the newer one is not.** -/
theorem newest_event_deleted_unnoticed :
    ¬ ∀ [Sha256], Function.Injective Sha256.hexdigest →
      ∀ {customerId : Uuid} (chain : RecordedChain customerId) (t : Tampering)
        (rs : List AuditEvent), t.Proper chain → rs.Perm (t.rows chain) →
        (verifyEvents rs).violations ≠ [] := by
  intro h
  refine h sampleSha_injective sampleChain (.delete (·.id = 2)) [sampleEvent₁]
    ⟨by decide, sampleEvent₂, by simp [sampleChain], rfl⟩ (.refl _) ?_
  exact verifyEvents_violations_eq_nil.2
    ⟨some sampleHash₁, rfl, recomputeHash_sampleEvent₁.symm, rfl⟩

end Doda
