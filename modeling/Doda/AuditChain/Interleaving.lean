import Doda.AuditChain.Recording
import Doda.AuditChain.Tampering

/-!
# Concurrent recording

Every history that keeps an audit contract has linked chains, whose events are
the stored rows and are dated in the order the clock was read.  Transactions that
record any number of events, for any customers, and write to other tables keep
such a contract, however they are interleaved and whether they commit or not.

## Main definitions

* `chain_linked`, `storedEvents_perm`, `createdAt_sublist` — every valid history.
* `AuditTransaction`, `auditTransaction` — a transaction that records events.
* `audit_chain_never_forks` — what holds in every reachable state.
-/

namespace Doda

open ReadCommitted HashChain

section Recording

variable [Sha256]

/-! ## Valid histories -/

section Valid

variable {C : Contract Row Answer} {h h' : Hist}

/-- **Every chain is linked** from nothing to its tip. -/
theorem chain_linked (hC : AuditContract C) (hv : C.Valid h) (c : Uuid) :
    chainFields.Linked none (chainEvents c (committed h)) (tipHash c (committed h)) := by
  induction h with
  | nil => rfl
  | cons ev h ih =>
    cases ev with
    | committed p w =>
      rw [committed_cons, Event.writes_committed, chainEvents_append]
      exact (ih hv.2).append ((hC h p w hv.1).linked c)
    | ran | called | rolledBack | failed | crashed => exact ih hv.2

/-- Audit rows are not deleted. -/
theorem event_notMem_deleted (hC : AuditContract C) (hv : C.Valid h) (i : Uuid) :
    (⟨.auditEvent i, none⟩ : Version Row) ∉ committed h := by
  induction h with
  | nil => simp
  | cons ev h ih =>
    cases ev with
    | committed p w =>
      rw [committed_cons, Event.writes_committed, List.mem_append, not_or]
      refine ⟨fun hm => ?_, ih hv.2⟩
      obtain ⟨e, he, -⟩ := (hC h p w hv.1).rows i _ hm
      simp at he
    | ran | called | rolledBack | failed | crashed => exact ih hv.2

/-- No audit row is written twice. -/
theorem auditKeys_nodup (hC : AuditContract C) (hv : C.Valid h) :
    (auditKeys (committed h)).Nodup := by
  induction h with
  | nil => exact List.nodup_nil
  | cons ev h ih =>
    cases ev with
    | committed p w =>
      have ha := hC h p w hv.1
      rw [committed_cons, Event.writes_committed, auditKeys_append]
      refine List.nodup_append.2 ⟨ha.ids, ih hv.2, ?_⟩
      rintro k hk _ hk' rfl
      -- a new event is inserted where there was no row, so its key is new
      obtain ⟨hk, hev⟩ := mem_auditKeys.1 hk
      obtain ⟨hk', -⟩ := mem_auditKeys.1 hk'
      obtain ⟨i, rfl⟩ : ∃ i, k = .auditEvent i := by
        cases k <;> simp [Key.isAuditEvent] at hev ⊢
      obtain ⟨⟨_, v⟩, hm, rfl⟩ := List.mem_map.1 hk
      obtain ⟨-, -, -, hrow⟩ := ha.rows i v hm
      have := isSome_row_of_mem hk' (event_notMem_deleted hC hv.2 i)
      simp [hrow] at this
    | ran | called | rolledBack | failed | crashed => exact ih hv.2

/-- The stored events of a customer are the chain. -/
theorem storedEvents_perm (hC : AuditContract C) (hv : C.Valid h) (c : Uuid) :
    (storedEvents c (committed h)).Perm (chainEvents c (committed h)) := by
  refine collect_perm_logged (P := Key.isAuditEvent) (f := eventOf c) ?_ (auditKeys_nodup hC hv)
  intro k v e he
  cases k <;> simp [eventOf] at he ⊢
  rfl

/-- **The events of a chain are dated in the order the clock was read.** -/
theorem createdAt_sublist (hC : AuditContract C) (hv : C.Valid h) (c : Uuid) :
    List.Sublist ((chainEvents c (committed h)).map AuditEvent.createdAt) (readings c h) := by
  induction hn : h.length using Nat.strong_induction_on generalizing h with
  | _ n ih =>
    subst hn
    cases h with
    | nil => exact List.nil_sublist _
    | cons ev h =>
      have hrest := ih h.length (by simp) hv.2 rfl
      cases ev with
      | committed p w =>
        have hread : readings c (.committed p w :: h) = readings c h := by simp [readings]
        rw [committed_cons, Event.writes_committed, chainEvents_append, hread]
        by_cases hw : chainEvents c w = []
        · simpa [hw] using hrest
        · -- the chain has not grown since before the new events were dated
          obtain ⟨new, h₀, rfl, heq, hsub⟩ := (hC h p w hv.1).dated c hw
          have hlt : h₀.length < (Event.committed p w :: (new ++ h₀)).length := by
            rw [List.length_cons, List.length_append]
            omega
          have hold := ih h₀.length hlt (hv.2.suffix (List.suffix_append _ _)) rfl
          rw [List.map_append, heq, readings_append]
          exact hold.append hsub
      | called p e x =>
        rw [committed_cons, Event.writes_called, List.nil_append]
        refine hrest.trans ?_
        rw [show Event.called p e x :: h = [Event.called p e x] ++ h from rfl, readings_append]
        exact List.sublist_append_left _ _
      | ran | rolledBack | failed | crashed => exact hrest

/-- An event is filed under its id. -/
theorem event_filed (hC : AuditContract C) (hv : C.Valid h) {i : Uuid} {v : Option AuditEvent}
    (hm : (⟨.auditEvent i, v⟩ : Version Row) ∈ committed h) : ∃ e, v = some e ∧ e.id = i := by
  induction h with
  | nil => simp at hm
  | cons ev h ih =>
    cases ev with
    | committed p w =>
      rcases List.mem_append.1 hm with hm | hm
      · obtain ⟨e, he, hi, -⟩ := (hC h p w hv.1).rows i v hm
        exact ⟨e, he, hi⟩
      · exact ih hv.2 hm
    | ran | called | rolledBack | failed | crashed => exact ih hv.2 hm

omit [Sha256] in
/-- The events of a chain have the keys of the table, in order. -/
theorem map_key_sublist {c : Uuid} {db : Db}
    (hdb : ∀ i v, (⟨.auditEvent i, v⟩ : Version Row) ∈ db →
      ∃ e : AuditEvent, v = some e ∧ e.id = i) :
    List.Sublist ((chainEvents c db).map fun e => Key.auditEvent e.id) (auditKeys db).reverse := by
  induction db with
  | nil => exact List.nil_sublist _
  | cons v db ih =>
    have hrest := ih fun i v hm => hdb i v (List.mem_cons_of_mem _ hm)
    obtain ⟨k, v⟩ := v
    rw [chainEvents, logged_cons, ← chainEvents, List.map_append]
    by_cases hk : k.isAuditEvent
    · obtain ⟨i, rfl⟩ : ∃ i, k = .auditEvent i := by
        cases k <;> simp [Key.isAuditEvent] at hk ⊢
      obtain ⟨e, rfl, rfl⟩ := hdb i v (by simp)
      have : auditKeys (⟨.auditEvent e.id, some e⟩ :: db) = .auditEvent e.id :: auditKeys db :=
        List.filter_cons_of_pos hk
      rw [this, List.reverse_cons]
      refine hrest.append ?_
      by_cases hc : e.customerId = c <;> simp [eventOf, hc]
    · have hnone : v.bind (eventOf c k) = none := by
        cases v <;> cases k <;> simp [Key.isAuditEvent, eventOf] at hk ⊢
      have : auditKeys (⟨k, v⟩ :: db) = auditKeys db := by simp [auditKeys, hk]
      rw [this, hnone]
      simpa using hrest

/-- **A customer's stored events are a recorded chain**, when the clock readings
that dated them increase. -/
theorem exists_recordedChain (hC : AuditContract C) (hv : C.Valid h) (c : Uuid)
    (hclock : (readings c h).Pairwise (· < ·)) :
    ∃ chain : RecordedChain c, chain.events = chainEvents c (committed h) ∧
      chain.tip = tipHash c (committed h) := by
  refine ⟨⟨chainEvents c (committed h), tipHash c (committed h), ?_, chain_linked hC hv c, ?_, ?_⟩,
    rfl, rfl⟩
  · intro e he
    obtain ⟨k, v, -, hk⟩ := mem_logged.1 he
    cases k <;> simp [eventOf] at hk
    exact hk.2 ▸ hk.1
  · have := hclock.sublist (createdAt_sublist hC hv c)
    refine (List.pairwise_map.1 this).imp fun hab => ?_
    exact Prod.Lex.toLex_le_toLex.2 (.inl hab)
  · have := (map_key_sublist (c := c) fun i v => event_filed hC hv).nodup
      (List.nodup_reverse.2 (auditKeys_nodup hC hv))
    exact (List.Nodup.of_map Key.auditEvent) (by simpa [Function.comp_def] using this)

end Valid

/-! ## Transactions that record -/

/-- The arguments of one `recordAuditEvent`. -/
structure AuditRecord where
  customerId : Uuid
  workspaceId : Option Uuid
  traceId : Uuid
  actorId : String
  eventType : String
  safeMetadata : Json

/-- One piece of work of a transaction: an event to record, or a row of another
table to delete, or to insert if there is none. -/
inductive AuditWork where
  | record (r : AuditRecord)
  | write (k : Key) (v : Option (Row k)) (other : k.auditing = false)

/-- A transaction that records events: its work, and whether it ends in an exception. -/
structure AuditTransaction where
  work : List AuditWork
  raises : Bool

/-- Do one piece of work. -/
def AuditWork.run : AuditWork → Session Unit
  | .record r => do
    let _ ← recordAuditEvent r.customerId r.workspaceId r.traceId r.actorId r.eventType
      r.safeMetadata
  | .write k (some v) _ => do
    let _ ← Session.tryInsert [⟨k, v⟩]
  | .write k none _ => ReadCommitted.run (.delete k)

/-- Do all of it, in order. -/
def AuditWork.runAll : List AuditWork → Session Unit
  | [] => pure ()
  | a :: as => do
    a.run
    AuditWork.runAll as

/-- The transaction's program. -/
def auditTransaction (r : AuditTransaction) : Session Unit := atomically do
  AuditWork.runAll r.work
  if r.raises then throw (.builtin "RuntimeError")

/-- Every commit is audited; clocks and identifiers may be asked for. -/
def auditingContract : Contract Row Answer where
  commitOk h _ w := Audited h w
  callOk _ _ e := Call.Minor e

theorem auditContract_auditing : AuditContract auditingContract := fun _ _ _ h => h

theorem minorFree_auditing : MinorFree auditingContract := fun _ _ _ h => h

variable {p : ℕ} {h : Hist} {t : DbTx}

theorem AuditWork.run_safe (hr : Ready auditingContract p h t) (a : AuditWork) :
    Safe auditingContract p
      (fun _ h' t' => Onward p h t h' t' ∧ Ready auditingContract p h' t') (Broken p h t)
      a.run h t := by
  cases a with
  | record r =>
    refine Safe.step (recordAuditEvent_safe auditContract_auditing minorFree_auditing hr _ _ _ _ _
      _) (.refl h t) (fun _ _ _ => id) ?_
    rintro e h' t' ⟨-, -, ho, hr'⟩
    exact ⟨ho, hr'⟩
  | write k v other =>
    cases v with
    | none =>
      refine (Safe.delete k).mono ?_ fun _ _ _ => id
      rintro - h' t' ⟨hl, ho, rfl⟩
      exact ⟨ho, hr.onward auditContract_auditing ho hl [⟨k, none⟩] rfl (by simp [other])⟩
    | some v =>
      refine Safe.step (Safe.tryInsert _) (.refl h t) (fun _ _ _ => id) ?_
      rintro b h' t' ⟨hl, ho, ⟨-, rfl, -⟩ | ⟨-, rfl, -⟩⟩
      · exact ⟨ho, hr.onward auditContract_auditing ho hl [⟨k, some v⟩] rfl
          (by simp [other])⟩
      · exact ⟨ho, hr.onward auditContract_auditing ho hl [] rfl (by simp)⟩

theorem AuditWork.runAll_safe (hr : Ready auditingContract p h t) (as : List AuditWork) :
    Safe auditingContract p
      (fun _ h' t' => Onward p h t h' t' ∧ Ready auditingContract p h' t') (Broken p h t)
      (AuditWork.runAll as) h t := by
  induction as generalizing h t with
  | nil => exact ⟨.refl h t, hr⟩
  | cons a as ih =>
    refine Safe.step (AuditWork.run_safe hr a) (.refl h t) (fun _ _ _ => id) ?_
    rintro - h₁ t₁ ⟨ho₁, hr₁⟩
    refine (ih hr₁).mono ?_ fun _ _ _ he => he.of_onward ho₁
    rintro - h₂ t₂ ⟨ho₂, hr₂⟩
    exact ⟨ho₁.trans ho₂, hr₂⟩

/-- A transaction that records keeps the contract. -/
theorem auditTransaction_safe (hv : auditingContract.Valid h) (r : AuditTransaction) :
    Safe auditingContract p (fun _ _ _ => True) (fun _ _ _ => True) (auditTransaction r) h {} := by
  refine Safe.atomically (fun _ h' t' => Ready auditingContract p h' t') (fun _ _ _ => True) ?_ ?_
    fun _ _ _ _ _ _ _ => trivial
  · refine Safe.step (AuditWork.runAll_safe (Ready.start hv) r.work) (.refl h _)
      (fun _ _ _ _ => trivial) ?_
    rintro - h₁ t₁ ⟨-, hr⟩
    split
    · trivial
    · exact hr
  · intro _ h₁ t₁ hr h' ho hv' _
    exact ⟨fun _ => ⟨(hr.others auditContract_auditing ho hv').audited, trivial,
      fun _ _ _ => trivial⟩, fun _ _ _ => trivial⟩

/-! ## The system -/

/-- What an event says apart from its place in the chain. -/
def AuditEvent.said (e : AuditEvent) :
    Uuid × Option Uuid × Uuid × String × String × Time × Json :=
  (e.customerId, e.workspaceId, e.traceId, e.actorId, e.eventType, e.occurredAt, e.safeMetadata)

theorem chainFields_said {x y : AuditEvent} (h : x.said = y.said)
    (hp : chainFields.prev x = chainFields.prev y) :
    chainFields.digest x = chainFields.digest y := by
  simp only [AuditEvent.said, Prod.mk.injEq] at h
  obtain ⟨h₁, h₂, h₃, h₄, h₅, h₆, h₇⟩ := h
  simp only [chainFields_prev] at hp
  simp only [chainFields_digest, AuditEvent.recomputeHash, h₁, h₂, h₃, h₄, h₅, h₆, h₇, hp]

/-- A customer's events in the order they were recorded, with the rows of the
table, the tip and the verifier agreeing on it. -/
structure Chained (c : Uuid) (db : Db) (es : List AuditEvent) : Prop where
  /-- They are the stored rows. -/
  rows : es.Perm (storedEvents c db)
  /-- Each event's stored hash is the hash of its content, and its `prev_hash` the
  stored hash of the event before it, `NULL` for the first; the tip row has the
  hash of the last. -/
  linked : chainFields.Linked none es (tipHash c db)
  /-- Exactly one event has no predecessor. -/
  root : es ≠ [] → (es.filter fun e => e.prevHash = none).length = 1
  /-- No two events have the same hash, so that each predecessor is one event. -/
  unique : Function.Injective Sha256.hexdigest → (es.map AuditEvent.hash).Nodup
  /-- The order is the verifier's. -/
  order : (storedEvents c db).insertionSort AuditEvent.before = es
  verified : (verifyEvents (storedEvents c db)).violations = []

/-- A recorded chain is chained. -/
theorem RecordedChain.chained {c : Uuid} {db : Db} (chain : RecordedChain c)
    (hrows : (storedEvents c db).Perm chain.events) (htip : chain.tip = tipHash c db) :
    Chained c db chain.events where
  rows := hrows.symm
  linked := htip ▸ chain.linked
  root := by
    have hlinked := chain.linked
    intro hne
    obtain ⟨e, es, hes⟩ := List.exists_cons_of_ne_nil hne
    rw [hes] at hlinked ⊢
    have htail : es.filter (fun e => e.prevHash = none) = [] := by
      refine List.filter_eq_nil_iff.2 fun e' he' => ?_
      have := hlinked.prev_isSome_of_mem_tail he'
      simp only [chainFields_prev, Option.isSome_iff_ne_none] at this
      simpa using this
    have hhead : e.prevHash = none := hlinked.1
    simp [hhead, htail]
  unique hinj := chain.linked.nodup (chainFields_binding hinj)
  order := insertionSort_eq_of_perm hrows chain.ids chain.ordered
  verified := chain.verifies hrows

/-- **The audit chain never forks and always verifies.**  In every reachable state
of concurrent recording transactions each customer's events form one chain, and
what the customer's own events say determines it. -/
theorem audit_chain_never_forks {s : Sys Row Answer Err Unit AuditTransaction}
    (hs : Reachable auditTransaction s) (c : Uuid)
    (hclock : (readings c s.hist).Pairwise (· < ·)) :
    ∃ es, Chained c (committed s.hist) es ∧
      ∀ s', Reachable auditTransaction s' → ∀ es', Chained c (committed s'.hist) es' →
        es'.map AuditEvent.said = es.map AuditEvent.said →
          es'.map (fun e => (e.prevHash, e.hash)) = es.map (fun e => (e.prevHash, e.hash)) ∧
          tipHash c (committed s'.hist) = tipHash c (committed s.hist) := by
  have hv := (hs.safe fun r _ _ hv _ => auditTransaction_safe hv r).valid
  obtain ⟨chain, hevents, htip⟩ := exists_recordedChain auditContract_auditing hv c hclock
  have hch : Chained c (committed s.hist) chain.events :=
    chain.chained (hevents ▸ storedEvents_perm auditContract_auditing hv c) htip
  refine ⟨chain.events, hch, fun s' _ es' hch' hsaid => ?_⟩
  exact hch'.linked.eq_of_map_eq (fun _ _ => chainFields_said) hch.linked hsaid

end Recording

/-! ## A sample run -/

section Sample

attribute [local instance] sampleSha

/-- Answers made up from one number. -/
def sampleAnswer (n : ℕ) : (e : Call) → Answer e
  | .received _ | .authenticates _ | .xack _ | .entryFailed _ => ()
  | .uuid4 => BitVec.ofNat 128 n
  | .tokenUrlsafe => toString n
  | .utcnow _ => n
  | .scanOrder rows => ⟨rows, .refl rows⟩
  | .xadd _ => .added
  | .xreadgroup _ => []
  | .post _ _ _ => .connectError
  | .streamChat _ => { events := [] }
  | .send _ => true

/-- A transaction that records one event of customer 7. -/
def sampleTransaction : AuditTransaction where
  work := [.record ⟨7, none, 9, "user:1", "task.created.v1", .obj []⟩]
  raises := false

/-- Two such transactions: the second starts while the first holds the tip. -/
def sampleRun : Option (Sys Row Answer Err Unit AuditTransaction) :=
  runAll auditTransaction {} ([.start sampleTransaction, .run 0 (sampleAnswer 1),
    .start sampleTransaction] ++ List.replicate 7 (.run 0 (sampleAnswer 1)) ++
    List.replicate 8 (.run 1 (sampleAnswer 2)))

/-- Their two events make one chain. -/
theorem audit_chain_never_forks_sample : ∃ s es, sampleRun = some s ∧
    Chained 7 (committed s.hist) es ∧ es.length = 2 := by
  have hlen : sampleRun.map (fun s =>
      (readings 7 s.hist, (storedEvents 7 (committed s.hist)).length)) = some ([1, 2], 2) := by
    decide
  obtain ⟨s, hs, hval⟩ := Option.map_eq_some_iff.1 hlen
  obtain ⟨hread, hstored⟩ := Prod.mk.inj hval
  obtain ⟨es, hes, -⟩ := audit_chain_never_forks (Reachable.init.runAll hs) 7
    (by rw [hread]; decide)
  exact ⟨s, es, hs, hes, by rw [hes.rows.length_eq, hstored]⟩

end Sample

end Doda
