import Doda.AuditChain.Viewer
import Doda.Lib.Queries

/-!
# Evidence packages

A package holds the events of one trace and the verification of the customer's whole
chain.  The two judge an event alike: its hash is recomputed from its own fields in
both.  The events are cut at the page size of the other listings, so a package is
complete for the traces that have no more events than that; a client may use one trace
id for any number of requests.

## Main definitions

* `buildEvidencePackage` — `build_evidence_package`.
* `EvidencePackage.Complete` — all events of the trace, judged as the verification does.

## Main results

* `mem_violations_iff` — the events that the verification finds altered.
* `packageComplete_iff` — the traces whose packages are complete.
-/

namespace Doda

open ReadCommitted

/-- `EvidenceEvent`. -/
structure EvidenceEvent where
  id : Uuid
  eventType : String
  actorId : String
  workspaceId : Option Uuid
  occurredAt : Time
  safeMetadata : Json
  prevHash : Option String
  hash : String
  hashSelfConsistent : Bool

/-- `EvidencePackage`. -/
structure EvidencePackage where
  customerId : Uuid
  traceId : Uuid
  events : List EvidenceEvent
  fullChainVerification : AuditChainVerificationResult

/-- `MAX_PAGE_SIZE`. -/
def maxAuditPageSize : ℕ := 200

/-- The events of a trace, oldest first. -/
def tracedEvents (db : Db) (customerId traceId : Uuid) : List AuditEvent :=
  ((storedEvents customerId db).filter (·.traceId = traceId)).insertionSort AuditEvent.before

/-- `list_audit_events_for_trace`. -/
def listAuditEventsForTrace (customerId traceId : Uuid) : Session (List AuditEvent) := do
  let db ← Session.select
  return (tracedEvents db customerId traceId).take maxAuditPageSize

section Evidence

variable [Sha256]

/-- An event as it stands in a package. -/
def AuditEvent.evidence (e : AuditEvent) : EvidenceEvent where
  id := e.id
  eventType := e.eventType
  actorId := e.actorId
  workspaceId := e.workspaceId
  occurredAt := e.occurredAt
  safeMetadata := e.safeMetadata
  prevHash := e.prevHash
  hash := e.hash
  hashSelfConsistent := e.recomputeHash = e.hash

/-- `build_evidence_package`. -/
def buildEvidencePackage (customerId traceId : Uuid) : Session EvidencePackage := do
  let events ← listAuditEventsForTrace customerId traceId
  let fullChainVerification ← verifyAuditChain customerId
  return { customerId, traceId, events := events.map AuditEvent.evidence, fullChainVerification }

/-- Exactly the stored events of the trace, oldest first and each once, and each judged as the
verification of the whole chain judges it. -/
structure EvidencePackage.Complete (package : EvidencePackage) (db : Db)
    (customerId traceId : Uuid) : Prop where
  ids : package.customerId = customerId ∧ package.traceId = traceId
  events : ∃ es : List AuditEvent, package.events = es.map AuditEvent.evidence ∧
    es.Pairwise (fun a b => a.place < b.place) ∧
    ∀ e, e ∈ es ↔ e ∈ storedEvents customerId db ∧ e.traceId = traceId
  judged : ∀ x ∈ package.events, x.hashSelfConsistent = false ↔
    ⟨x.id, "hash_mismatch"⟩ ∈ package.fullChainVerification.violations

/-- `build_evidence_package` returns a complete package, and changes nothing. -/
def PackageComplete (db : Db) (customerId traceId : Uuid) : Prop :=
  Alone (fun _ _ _ => True)
    (fun package c t => c = db ∧ t = {} ∧ package.Complete db customerId traceId)
    (fun _ _ _ => False) (buildEvidencePackage customerId traceId) db {}

variable {db : Db} {customerId traceId : Uuid} {e : AuditEvent}

/-! ## The verification -/

/-- The walk reports the events whose hash is not the one recomputed from their fields. -/
theorem mem_violationsFrom {id : Uuid} {expected : Option String} {es : List AuditEvent} :
    ⟨id, "hash_mismatch"⟩ ∈ violationsFrom expected es ↔
      ∃ e ∈ es, e.id = id ∧ e.recomputeHash ≠ e.hash := by
  induction es generalizing expected with
  | nil => simp [violationsFrom]
  | cons e es ih =>
    have hprev : (⟨id, "hash_mismatch"⟩ : AuditChainViolation) ∉
        (if e.prevHash ≠ expected then [⟨e.id, "prev_hash_mismatch"⟩] else []) := by
      split <;> simp
    have hown : (⟨id, "hash_mismatch"⟩ : AuditChainViolation) ∈
        (if e.recomputeHash ≠ e.hash then [⟨e.id, "hash_mismatch"⟩] else []) ↔
          e.id = id ∧ e.recomputeHash ≠ e.hash := by
      split <;> simp_all [eq_comm]
    rw [violationsFrom, List.mem_append, List.mem_append, ih, hown, List.exists_mem_cons_iff]
    simp only [hprev, false_or]

/-- **The events that the verification finds altered.** -/
theorem mem_violations_iff (hk : StoredById db) (he : e ∈ storedEvents customerId db) :
    ⟨e.id, "hash_mismatch"⟩ ∈ (verifyEvents (storedEvents customerId db)).violations ↔
      e.evidence.hashSelfConsistent = false := by
  have hself : e.evidence.hashSelfConsistent = false ↔ e.recomputeHash ≠ e.hash := by
    simp [AuditEvent.evidence]
  rw [verifyEvents, mem_violationsFrom, hself]
  constructor
  · rintro ⟨e', he', hid, hne⟩
    rw [List.mem_insertionSort] at he'
    obtain rfl := List.inj_on_of_nodup_map hk.nodup he' he hid
    exact hne
  · intro hne
    exact ⟨e, (List.mem_insertionSort _).2 he, rfl, hne⟩

/-! ## The events of a trace -/

omit [Sha256] in
theorem mem_tracedEvents : e ∈ tracedEvents db customerId traceId ↔
    e ∈ storedEvents customerId db ∧ e.traceId = traceId := by
  rw [tracedEvents, List.mem_insertionSort, List.mem_filter, decide_eq_true_eq]

omit [Sha256] in
theorem length_tracedEvents : (tracedEvents db customerId traceId).length =
    ((storedEvents customerId db).filter (·.traceId = traceId)).length :=
  List.length_insertionSort ..

omit [Sha256] in
/-- Oldest first, in a strict order. -/
theorem StoredById.ascending (hk : StoredById db) :
    (tracedEvents db customerId traceId).Pairwise fun a b => a.place < b.place := by
  have hperm := List.perm_insertionSort AuditEvent.before
    ((storedEvents customerId db).filter (·.traceId = traceId))
  have hids : ((tracedEvents db customerId traceId).map (·.id)).Nodup :=
    ((hperm.map _).nodup_iff).2 (hk.nodup.sublist (List.filter_sublist.map _))
  have hsorted : (tracedEvents db customerId traceId).Pairwise AuditEvent.before :=
    List.pairwise_insertionSort _ _
  refine (hsorted.and (List.pairwise_map.1 hids)).imp fun {a b} hab => ?_
  exact lt_of_le_of_ne hab.1 fun heq => hab.2 (id_eq_of_before heq.le heq.ge)

/-- What the package is. -/
theorem packageComplete_iff_complete : PackageComplete db customerId traceId ↔
    EvidencePackage.Complete
      { customerId, traceId
        events := ((tracedEvents db customerId traceId).take maxAuditPageSize).map
          AuditEvent.evidence
        fullChainVerification := verifyEvents (storedEvents customerId db) }
      db customerId traceId := by
  rw [PackageComplete, buildEvidencePackage, alone_bind, listAuditEventsForTrace, alone_bind,
    alone_view rfl, alone_pure, alone_bind, verifyAuditChain, alone_bind, alone_view rfl,
    alone_pure, alone_pure]
  simp only [Tx.view_mk, List.nil_append, true_and]

/-- A complete package has not been cut. -/
theorem length_le_of_complete (hk : StoredById db) (h : PackageComplete db customerId traceId) :
    (tracedEvents db customerId traceId).length ≤ maxAuditPageSize := by
  obtain ⟨es, hes, hsorted, hmem⟩ := (packageComplete_iff_complete.1 h).events
  have hdescending : ∀ {l : List AuditEvent}, l.Pairwise (fun a b => a.place < b.place) →
      Descending (fun e : AuditEvent => OrderDual.toDual e.place) l := fun h => h
  have hall : es = tracedEvents db customerId traceId :=
    (hdescending hsorted).eq_of_mem_iff (hdescending hk.ascending) fun e =>
      (hmem e).trans mem_tracedEvents.symm
  have hlength := congrArg List.length hes
  rw [List.length_map, List.length_map, List.length_take, hall] at hlength
  omega

end Evidence

/-- **Packages are complete** for the traces of at most as many events as a page holds. -/
theorem packageComplete_iff [Sha256] {db : Db} (hkeyed : StoredById db)
    (customerId traceId : Uuid) :
    PackageComplete db customerId traceId ↔
      ((storedEvents customerId db).filter (·.traceId = traceId)).length ≤ maxAuditPageSize := by
  rw [← length_tracedEvents]
  constructor
  · exact length_le_of_complete hkeyed
  · intro hlength
    rw [packageComplete_iff_complete, List.take_of_length_le hlength]
    refine ⟨⟨rfl, rfl⟩, ⟨_, rfl, hkeyed.ascending, fun e => mem_tracedEvents⟩, fun x hx => ?_⟩
    obtain ⟨e, he, rfl⟩ := List.mem_map.1 hx
    exact (mem_violations_iff hkeyed (mem_tracedEvents.1 he).1).symm

/-! ## A trace that is cut -/

private def numberedEvent (i : ℕ) : AuditEvent where
  id := BitVec.ofNat 128 i
  createdAt := i
  customerId := 7
  workspaceId := none
  traceId := 9
  actorId := "user:a"
  eventType := "a.v1"
  occurredAt := i
  safeMetadata := .null
  prevHash := none
  hash := ""

/-- The events of a client that sends one trace id with all its requests. -/
private def numberedEvents (n : ℕ) : Db :=
  (List.range n).map fun i => ⟨.auditEvent (BitVec.ofNat 128 i), some (numberedEvent i)⟩

private theorem numberedEvents_keyed (n : ℕ) : StoredById (numberedEvents n) := by
  intro id e hrow
  obtain ⟨i, -, hi⟩ := List.mem_map.1 (mem_of_row hrow)
  cases hi
  rfl

private theorem filter_numberedEvents {n : ℕ} (hn : n ≤ 2 ^ 128) :
    (storedEvents 7 (numberedEvents n)).filter (·.traceId = 9) =
      (List.range n).map numberedEvent := by
  have hkeys : (keys (numberedEvents n)).Nodup := by
    rw [keys, numberedEvents, List.map_map]
    refine List.Nodup.map_on ?_ List.nodup_range
    intro i hi j hj hij
    have hij' : BitVec.ofNat 128 i = BitVec.ofNat 128 j := Key.auditEvent.inj hij
    have hmod := congrArg BitVec.toNat hij'
    rw [BitVec.toNat_ofNat, BitVec.toNat_ofNat] at hmod
    rw [List.mem_range] at hi hj
    rwa [Nat.mod_eq_of_lt (by omega), Nat.mod_eq_of_lt (by omega)] at hmod
  have hstored : storedEvents 7 (numberedEvents n) = (List.range n).map numberedEvent := by
    rw [storedEvents, collect_of_nodup hkeys, numberedEvents, List.filterMap_map]
    exact congrFun List.filterMap_eq_map' _
  rw [hstored, List.filter_eq_self]
  intro e he
  obtain ⟨i, -, rfl⟩ := List.mem_map.1 he
  rfl

theorem packageComplete_iff_sample :
    let _ : Sha256 := ⟨id⟩
    PackageComplete (numberedEvents 200) 7 9 := by
  intro sha
  refine (packageComplete_iff (numberedEvents_keyed 200) 7 9).2 ?_
  rw [filter_numberedEvents (by decide), List.length_map, List.length_range]
  decide

/-- The package of a trace of 201 events leaves one out. -/
theorem package_cut :
    ¬ ∀ [Sha256] (db : Db) (customerId traceId : Uuid), StoredById db →
      PackageComplete db customerId traceId := by
  intro h
  let sha : Sha256 := ⟨id⟩
  have hlength := length_le_of_complete (numberedEvents_keyed 201)
    (h (numberedEvents 201) 7 9 (numberedEvents_keyed 201))
  rw [length_tracedEvents, filter_numberedEvents (by decide), List.length_map,
    List.length_range] at hlength
  exact absurd hlength (by decide)

end Doda
