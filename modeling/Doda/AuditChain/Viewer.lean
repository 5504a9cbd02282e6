import Doda.Application.Export
import Doda.AuditChain.Tampering
import Doda.Lib.Alone
import Doda.Lib.Keyset

/-!
# The audit viewer

A client of the viewer reads a customer's audit events page by page, newest first, and
asks for each page by the id of the last event it has.  Meanwhile newer events may be
recorded.  The pages together hold the events that were there at the first request and
that the filter lets through: the place of an event is its `created_at` and its id, so
events of one time are told apart, and what is recorded later comes before every cursor.

## Main definitions

* `StoredById`, `Newer` — events stored under their ids, and stores with newer events added.
* `ViewerPage` — one request of the viewer, which nothing interrupts.

## Main results

* `pages_visit_each_once` — the pages together.
-/

namespace Doda

open ReadCommitted

/-- Events are stored under their ids. -/
def StoredById (db : Db) : Prop := ∀ id e, row db (.auditEvent id) = some e → e.id = id

/-- Events are kept, and those of the customer that have been added are newer than the
customer's events before. -/
structure Newer (customerId : Uuid) (db db' : Db) : Prop where
  kept : ∀ id e, row db (.auditEvent id) = some e → row db' (.auditEvent id) = some e
  newer : ∀ id e, row db (.auditEvent id) = none → row db' (.auditEvent id) = some e →
    e.customerId = customerId → ∀ e' ∈ storedEvents customerId db, e'.createdAt < e.createdAt

/-- `list_audit_events`, for what comes after `before`, answers with `page`. -/
def ViewerPage (customerId : Uuid) (filter : AuditFilter) (limit : ℕ) (db : Db)
    (before : Option AuditEvent) (page : List AuditEvent) : Prop :=
  Alone (fun _ _ _ => True) (fun x c t => c = db ∧ t = {} ∧ x = page) (fun _ _ _ => False)
    (listAuditEvents customerId filter limit (before.map (·.id))) db {}

section Viewer

variable {customerId : Uuid} {filter : AuditFilter} {limit : ℕ} {db db' : Db} {e : AuditEvent}
  {page : List AuditEvent}

theorem mem_storedEvents :
    e ∈ storedEvents customerId db ↔
      ∃ id, row db (.auditEvent id) = some e ∧ e.customerId = customerId := by
  rw [storedEvents, mem_collect]
  constructor
  · rintro ⟨k, v, hv, hkept⟩
    cases k with
    | auditEvent id =>
      dsimp only at hkept
      split at hkept
      · cases hkept
        exact ⟨id, hv, ‹_›⟩
      · cases hkept
    | _ => cases hkept
  · rintro ⟨id, hrow, hcustomer⟩
    exact ⟨.auditEvent id, e, hrow, if_pos hcustomer⟩

/-- An event that is stored under its id. -/
theorem StoredById.mem_iff (hk : StoredById db) : e ∈ storedEvents customerId db ↔
    row db (.auditEvent e.id) = some e ∧ e.customerId = customerId := by
  rw [mem_storedEvents]
  constructor
  · rintro ⟨id, hrow, hcustomer⟩
    obtain rfl := hk id e hrow
    exact ⟨hrow, hcustomer⟩
  · rintro ⟨hrow, hcustomer⟩
    exact ⟨e.id, hrow, hcustomer⟩

/-- Stored events have distinct ids. -/
theorem StoredById.nodup (hk : StoredById db) :
    ((storedEvents customerId db).map (·.id)).Nodup := by
  refine List.Nodup.of_map Key.auditEvent ?_
  rw [List.map_map]
  refine nodup_collect_map fun k v a hv ha => ?_
  cases k with
  | auditEvent id =>
    dsimp only at ha
    split at ha
    · cases ha
      exact congrArg Key.auditEvent (hk id _ hv)
    · cases ha
  | _ => cases ha

theorem mem_auditEventsOf : e ∈ auditEventsOf db customerId filter ↔
    e ∈ storedEvents customerId db ∧ filter.Admits e := by
  rw [auditEventsOf, List.mem_insertionSort, List.mem_filter, decide_eq_true_eq]

/-- **The listing is strictly descending.** -/
theorem StoredById.descending (hk : StoredById db) :
    Descending AuditEvent.place (auditEventsOf db customerId filter) := by
  have hperm := List.perm_insertionSort (fun a b : AuditEvent => b.before a)
    ((storedEvents customerId db).filter (filter.Admits ·))
  have hids : ((auditEventsOf db customerId filter).map (·.id)).Nodup :=
    ((hperm.map _).nodup_iff).2 (hk.nodup.sublist (List.filter_sublist.map _))
  have htotal : Std.Total fun a b : AuditEvent => b.before a :=
    ⟨fun a b => le_total b.place a.place⟩
  have htrans : IsTrans AuditEvent fun a b => b.before a :=
    ⟨fun _ _ _ hab hbc => le_trans hbc hab⟩
  have hsorted : (auditEventsOf db customerId filter).Pairwise fun a b => b.before a :=
    List.pairwise_insertionSort _ _
  have hboth := hsorted.and (List.pairwise_map.1 hids)
  refine hboth.imp fun {a b} hab => lt_of_le_of_ne hab.1 fun heq => hab.2 ?_
  exact id_eq_of_before heq.ge heq.le

/-! ## Newer events -/

theorem Newer.refl : Newer customerId db db :=
  ⟨fun _ _ h => h, fun _ _ hnone hsome => absurd (hnone.symm.trans hsome) nofun⟩

theorem Newer.trans {db'' : Db} (h₁ : Newer customerId db db') (h₂ : Newer customerId db' db'') :
    Newer customerId db db'' where
  kept := fun id e h => h₂.kept id e (h₁.kept id e h)
  newer := by
    intro id e hnone hsome hcustomer e' he'
    obtain ⟨id', hrow, hcustomer'⟩ := mem_storedEvents.1 he'
    cases hmid : row db' (.auditEvent id) with
    | none =>
      have hthere := mem_storedEvents.2 ⟨id', h₁.kept id' e' hrow, hcustomer'⟩
      exact h₂.newer id e hmid hsome hcustomer e' hthere
    | some f =>
      obtain rfl := Option.some.inj ((h₂.kept id f hmid).symm.trans hsome)
      exact h₁.newer id f hnone hmid hcustomer e' he'

/-- What is added comes before every event that was there. -/
theorem Newer.mem_iff (hnew : Newer customerId db db') {cursor : AuditEvent}
    (hcursor : cursor ∈ storedEvents customerId db) (hlt : e.place < cursor.place) :
    e ∈ storedEvents customerId db' ↔ e ∈ storedEvents customerId db := by
  rw [mem_storedEvents, mem_storedEvents]
  constructor
  · rintro ⟨id, hrow, hcustomer⟩
    cases hold : row db (.auditEvent id) with
    | none =>
      have hnewer := hnew.newer id e hold hrow hcustomer cursor hcursor
      exact absurd hlt (not_lt_of_gt (Prod.Lex.toLex_lt_toLex.2 (.inl hnewer)))
    | some f =>
      obtain rfl := Option.some.inj ((hnew.kept id f hold).symm.trans hrow)
      exact ⟨id, hold, hcustomer⟩
  · rintro ⟨id, hrow, hcustomer⟩
    exact ⟨id, hnew.kept id e hrow, hcustomer⟩

/-- **What comes after an event stays.** -/
theorem Newer.after_eq (hnew : Newer customerId db db') (hk : StoredById db) (hk' : StoredById db')
    {cursor : AuditEvent} (hcursor : cursor ∈ storedEvents customerId db) :
    after AuditEvent.place (auditEventsOf db' customerId filter) (some cursor) =
      after AuditEvent.place (auditEventsOf db customerId filter) (some cursor) := by
  refine (Descending.eq_of_mem_iff (hk'.descending.filter _) (hk.descending.filter _) ?_)
  intro e
  rw [after, after]
  simp only [List.mem_filter, mem_auditEventsOf, decide_eq_true_eq]
  constructor
  · rintro ⟨⟨hmem, hadmits⟩, hlt⟩
    exact ⟨⟨(hnew.mem_iff hcursor hlt).1 hmem, hadmits⟩, hlt⟩
  · rintro ⟨⟨hmem, hadmits⟩, hlt⟩
    exact ⟨⟨(hnew.mem_iff hcursor hlt).2 hmem, hadmits⟩, hlt⟩

/-! ## Requests -/

/-- The request for the first page. -/
theorem viewerPage_none : ViewerPage customerId filter limit db none page ↔
    page = (auditEventsOf db customerId filter).take (pageSize limit) := by
  have hall : (auditEventsOf db customerId filter).filter
      (fun e => (none : Option AuditEvent).all (e.place < ·.place)) =
        auditEventsOf db customerId filter := by simp
  rw [ViewerPage, Option.map_none, listAuditEvents, alone_bind, alone_pure, alone_bind,
    alone_view rfl, alone_pure]
  simp only [Tx.view_mk, List.nil_append, hall, true_and]
  exact eq_comm

/-- The cursor is looked up. -/
theorem getEvent_alone {Q : Option AuditEvent → Db → DbTx → Prop} {X : Err → Db → DbTx → Prop}
    (hrow : row db (.auditEvent e.id) = some e) :
    Alone (fun _ _ _ => True) Q X (Session.get (.auditEvent e.id) : Session (Option AuditEvent))
      db {} ↔ Q (some e) db {} := by
  have hget : Q (row (Tx.view {} db) (Key.auditEvent e.id)) db {} ↔ Q (some e) db {} := by
    rw [Tx.view_mk, List.nil_append, hrow]
  exact (alone_get (k := Key.auditEvent e.id) rfl).trans hget

/-- The request for what comes after a stored event. -/
theorem viewerPage_some (hrow : row db (.auditEvent e.id) = some e) :
    ViewerPage customerId filter limit db (some e) page ↔
      page = (after AuditEvent.place (auditEventsOf db customerId filter) (some e)).take
        (pageSize limit) := by
  rw [ViewerPage, Option.map_some, listAuditEvents, alone_bind, getEvent_alone hrow,
    alone_bind, alone_view rfl, alone_pure]
  simp only [Tx.view_mk, List.nil_append, Option.all_some, true_and]
  exact eq_comm

end Viewer

/-- **Pages visit every event once.** -/
theorem pages_visit_each_once {customerId : Uuid} {filter : AuditFilter} {limit : ℕ}
    {stores : ℕ → Db} (hlimit : 1 ≤ limit ∧ limit ≤ 200) (hkeyed : ∀ i, StoredById (stores i))
    (hnewer : ∀ i, Newer customerId (stores i) (stores (i + 1))) :
    (∃ pages, Walk (fun i => ViewerPage customerId filter limit (stores i)) limit 0 none pages) ∧
      ∀ pages, Walk (fun i => ViewerPage customerId filter limit (stores i)) limit 0 none pages →
        Descending AuditEvent.place pages.flatten ∧
          ∀ e, e ∈ pages.flatten ↔ e ∈ storedEvents customerId (stores 0) ∧ filter.Admits e := by
  have hsince : ∀ i, Newer customerId (stores 0) (stores i) := by
    intro i
    induction i with
    | zero => exact .refl
    | succ i ih => exact ih.trans (hnewer i)
  have hsize : pageSize limit = limit := Nat.min_eq_left hlimit.2
  have hkeyset : Keyset AuditEvent.place (fun i => ViewerPage customerId filter limit (stores i))
      limit (auditEventsOf (stores 0) customerId filter) := by
    refine ⟨(hkeyed 0).descending, hlimit.1, ?_⟩
    intro i before page hfirst hbefore
    cases before with
    | none =>
      rw [hfirst rfl, viewerPage_none, hsize]
      rfl
    | some e =>
      have hstored := (mem_auditEventsOf.1 (hbefore e rfl)).1
      have hrow := (hsince i).kept e.id e ((hkeyed 0).mem_iff.1 hstored).1
      rw [viewerPage_some hrow, hsize, (hsince i).after_eq (hkeyed 0) (hkeyed i) hstored]
  refine ⟨hkeyset.exists_walk (fun _ => rfl) nofun, fun pages hpages => ?_⟩
  rw [hkeyset.flatten_eq hpages (fun _ => rfl) nofun]
  exact ⟨(hkeyed 0).descending, fun e => mem_auditEventsOf⟩

private def viewedEvent (id : Uuid) (createdAt : Time) : AuditEvent where
  id
  createdAt
  customerId := 7
  workspaceId := none
  traceId := 9
  actorId := "user:a"
  eventType := "a.v1"
  occurredAt := createdAt
  safeMetadata := .null
  prevHash := none
  hash := ""

/-- Two events of one time at first, and a newer one from the second request on. -/
private def viewedStores : ℕ → Db
  | 0 => [⟨.auditEvent 1, some (viewedEvent 1 5)⟩, ⟨.auditEvent 2, some (viewedEvent 2 5)⟩]
  | _ + 1 => [⟨.auditEvent 3, some (viewedEvent 3 6)⟩, ⟨.auditEvent 1, some (viewedEvent 1 5)⟩,
      ⟨.auditEvent 2, some (viewedEvent 2 5)⟩]

private theorem viewedStores_row {i : ℕ} {id : Uuid} {e : AuditEvent}
    (h : row (viewedStores i) (.auditEvent id) = some e) :
    (id = 1 ∧ e = viewedEvent 1 5) ∨ (id = 2 ∧ e = viewedEvent 2 5) ∨
      (i ≠ 0 ∧ id = 3 ∧ e = viewedEvent 3 6) := by
  have hmem := mem_of_row h
  cases i with
  | zero =>
    rcases List.mem_pair.1 hmem with h | h <;> cases h <;> simp
  | succ i =>
    simp only [viewedStores, List.mem_cons, List.not_mem_nil, or_false] at hmem
    rcases hmem with h | h | h <;> cases h <;> simp

theorem pages_visit_each_once_sample :
    ∃ pages, Walk (fun i => ViewerPage 7 {} 1 (viewedStores i)) 1 0 none pages ∧
      ∀ e, e ∈ pages.flatten ↔ e = viewedEvent 1 5 ∨ e = viewedEvent 2 5 := by
  have hkeyed : ∀ i, StoredById (viewedStores i) := by
    intro i id e hrow
    rcases viewedStores_row hrow with ⟨rfl, rfl⟩ | ⟨rfl, rfl⟩ | ⟨-, rfl, rfl⟩ <;> rfl
  have hnewer : ∀ i, Newer 7 (viewedStores i) (viewedStores (i + 1)) := by
    intro i
    cases i with
    | succ i => exact .refl
    | zero =>
      constructor
      · intro id e hrow
        rcases viewedStores_row hrow with ⟨rfl, rfl⟩ | ⟨rfl, rfl⟩ | ⟨h, -⟩
        · rfl
        · rfl
        · exact absurd rfl h
      · intro id e hnone hrow _ e' he'
        obtain ⟨id', hrow', -⟩ := mem_storedEvents.1 he'
        have hold : e'.createdAt = 5 := by
          rcases viewedStores_row hrow' with ⟨-, rfl⟩ | ⟨-, rfl⟩ | ⟨h, -⟩
          · rfl
          · rfl
          · exact absurd rfl h
        rcases viewedStores_row hrow with ⟨rfl, -⟩ | ⟨rfl, -⟩ | ⟨-, -, rfl⟩
        · cases hnone
        · cases hnone
        · rw [hold]
          decide
  obtain ⟨⟨pages, hpages⟩, hall⟩ :=
    @pages_visit_each_once 7 {} 1 viewedStores (by decide) hkeyed hnewer
  refine ⟨pages, hpages, fun e => ?_⟩
  rw [(hall pages hpages).2, mem_storedEvents]
  have hadmits : AuditFilter.Admits {} e := ⟨rfl, rfl, rfl, rfl⟩
  constructor
  · rintro ⟨⟨id, hrow, -⟩, -⟩
    rcases viewedStores_row hrow with ⟨-, rfl⟩ | ⟨-, rfl⟩ | ⟨h, -⟩
    · exact .inl rfl
    · exact .inr rfl
    · exact absurd rfl h
  · rintro (rfl | rfl)
    · exact ⟨⟨1, rfl, rfl⟩, hadmits⟩
    · exact ⟨⟨2, rfl, rfl⟩, hadmits⟩

end Doda
