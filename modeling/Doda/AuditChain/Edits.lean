import Doda.AuditChain.Tampering
import Doda.Domain.Isoformat

/-!
# Edited fields are pinpointed

Rows of a recorded chain are edited in place: their hashed fields change, the stored
hash, `created_at` and `id` do not.  The walk goes on from the stored hash of each row,
so a row's report depends on that row alone.

## Main definitions

* `HashedContent`, `AuditEvent.hashedContent` — what the hash of an event covers.
* `AuditEvent.StoredAs` — what an edit leaves unchanged.
* `report` — what the walk says of one row.

## Main results

* `edited_fields_pinpointed` — the report of a chain is that of its rows.
-/

namespace Doda

open HashChain

/-- What the hash of an event covers; the metadata is covered by its canonical text. -/
structure HashedContent where
  customerId : Uuid
  workspaceId : Option Uuid
  traceId : Uuid
  actorId : String
  eventType : String
  occurredAt : Time
  safeMetadata : String
  prevHash : Option String
  deriving DecidableEq

/-- What the hash of this event covers. -/
def AuditEvent.hashedContent (e : AuditEvent) : HashedContent where
  customerId := e.customerId
  workspaceId := e.workspaceId
  traceId := e.traceId
  actorId := e.actorId
  eventType := e.eventType
  occurredAt := e.occurredAt
  safeMetadata := canonicalJson e.safeMetadata
  prevHash := e.prevHash

/-- The row is stored for the same customer, at the same place and with the same hash. -/
structure AuditEvent.StoredAs (edited e : AuditEvent) : Prop where
  customerId : edited.customerId = e.customerId
  id : edited.id = e.id
  createdAt : edited.createdAt = e.createdAt
  hash : edited.hash = e.hash

/-- What the walk is to report of a row that was `e` and is `edited` now. -/
def report (edited e : AuditEvent) : List AuditChainViolation :=
  (if edited.prevHash ≠ e.prevHash then [⟨e.id, "prev_hash_mismatch"⟩] else []) ++
  (if edited.hashedContent ≠ e.hashedContent then [⟨e.id, "hash_mismatch"⟩] else [])

section

variable [Sha256] {customerId : Uuid} {chain : RecordedChain customerId}
  {edit : AuditEvent → AuditEvent}

/-- **Under an injective digest, the hash determines what it covers.** -/
theorem recomputeHash_eq_iff (hinj : Function.Injective Sha256.hexdigest) {e e' : AuditEvent} :
    e.recomputeHash = e'.recomputeHash ↔ e.hashedContent = e'.hashedContent := by
  constructor
  · intro h
    obtain ⟨hactor, hcustomer, htype, hoccurred, hprev, hmetadata, htrace, hworkspace⟩ :=
      canonicalJson_auditContent_inj (hinj h)
    rw [AuditEvent.hashedContent, AuditEvent.hashedContent, hactor, hcustomer, htype,
      Time.isoformat_injective hoccurred, hprev, hmetadata, htrace, hworkspace]
  · intro h
    simp only [AuditEvent.hashedContent, HashedContent.mk.injEq] at h
    obtain ⟨hcustomer, hworkspace, htrace, hactor, htype, hoccurred, hmetadata, hprev⟩ := h
    rw [AuditEvent.recomputeHash, AuditEvent.recomputeHash, hcustomer, hworkspace, htrace, hactor,
      htype, hoccurred, hprev]
    -- the metadata goes in as its text
    unfold auditContent
    rw [hmetadata]

/-- The walk reports each row by itself. -/
theorem violationsFrom_map_edit (hinj : Function.Injective Sha256.hexdigest)
    {a b : Option String} {es : List AuditEvent} (hl : chainFields.Linked a es b)
    (hedit : ∀ e ∈ es, (edit e).StoredAs e) :
    violationsFrom a (es.map edit) = es.flatMap fun e => report (edit e) e := by
  induction es generalizing a with
  | nil => rfl
  | cons e es ih =>
    obtain ⟨hprev, hhash, hrest⟩ := hl
    obtain ⟨hkept, hedit⟩ := List.forall_mem_cons.1 hedit
    have hrest : chainFields.Linked (some e.hash) es b := hrest
    rw [List.map_cons, violationsFrom, List.flatMap_cons, hkept.hash, ih hrest hedit, hkept.id]
    have hcontent : (edit e).recomputeHash ≠ e.hash ↔
        (edit e).hashedContent ≠ e.hashedContent := by
      rw [show e.hash = e.recomputeHash from hhash]
      exact not_congr (recomputeHash_eq_iff hinj)
    have hlink : (edit e).prevHash ≠ a ↔ (edit e).prevHash ≠ e.prevHash := by
      rw [show e.prevHash = a from hprev]
    simp only [report, hcontent, hlink]

/-- Edited rows stand where they stood. -/
theorem insertionSort_map_edit (hedit : ∀ e ∈ chain.events, (edit e).StoredAs e)
    {rs : List AuditEvent} (hp : rs.Perm (chain.events.map edit)) :
    rs.insertionSort AuditEvent.before = chain.events.map edit := by
  have hids : (chain.events.map edit).map AuditEvent.id = chain.events.map AuditEvent.id := by
    rw [List.map_map]
    exact List.map_congr_left fun e he => (hedit e he).id
  refine insertionSort_eq_of_perm hp (hids ▸ chain.ids) (List.pairwise_map.2 ?_)
  refine chain.ordered.imp_of_mem fun {e f} he hf hef => ?_
  have hplace : ∀ e ∈ chain.events, (edit e).place = e.place := fun e he => by
    rw [AuditEvent.place, AuditEvent.place, (hedit e he).createdAt, (hedit e he).id]
  rw [AuditEvent.before, hplace e he, hplace f hf]
  exact hef

/-- **Edited fields are pinpointed.**  The walk over a recorded chain of which any rows have been
edited reports `prev_hash_mismatch` for each row whose `prev_hash` changed, `hash_mismatch` for
each row whose hashed content changed, and nothing else. -/
theorem edited_fields_pinpointed (hinj : Function.Injective Sha256.hexdigest)
    (hedit : ∀ e ∈ chain.events, (edit e).StoredAs e) {rs : List AuditEvent}
    (hp : rs.Perm (chain.events.map edit)) :
    (verifyEvents rs).violations = chain.events.flatMap fun e => report (edit e) e := by
  have hsort := insertionSort_map_edit hedit hp
  simp only [verifyEvents, hsort]
  exact violationsFrom_map_edit hinj chain.linked hedit

end

/-! ## An edit of the first of two events -/

section Sample

attribute [local instance] sampleSha

/-- Another actor is written into the first event. -/
def sampleEdit (e : AuditEvent) : AuditEvent :=
  if e.id = 1 then { e with actorId := "user:2" } else e

theorem edited_fields_pinpointed_sample :
    (verifyEvents [sampleEdit sampleEvent₂, sampleEdit sampleEvent₁]).violations =
      [⟨1, "hash_mismatch"⟩] := by
  have hedit : ∀ e ∈ sampleChain.events, (sampleEdit e).StoredAs e := by
    intro e he
    simp only [sampleChain, List.mem_cons, List.not_mem_nil, or_false] at he
    rcases he with rfl | rfl <;> exact ⟨rfl, rfl, rfl, rfl⟩
  have hp : [sampleEdit sampleEvent₂, sampleEdit sampleEvent₁].Perm
      (sampleChain.events.map sampleEdit) := .swap ..
  exact (edited_fields_pinpointed sampleSha_injective hedit hp).trans (by decide)

end Sample

end Doda
