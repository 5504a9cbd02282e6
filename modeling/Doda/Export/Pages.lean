import Doda.Application.Export
import Doda.AuditChain.Alone
import Doda.AuditChain.Tampering
import Doda.Lib.Alone
import Doda.Lib.Queries

/-!
# Whether an export is complete

The export of a user's own data, run over a database that nobody else writes.  Each
listing is cut off after a page of 200 rows.  The tasks of a workspace are listed whoever
owns them, and those of others are left out after the cut; so rows of other members can
crowd out the user's own.

## Main definitions

* `ownTasks`, `ownNotifications`, `ownAuditEvents` — what an export is to hold.
* `Exact` — it holds each of them once, and nothing else.
* `Paged` — the listings that the tasks were taken from.
* `WithinPages` — nothing of the user's is left over.
* `export_exact_iff` — when an export is exact.
* `overfull_cut` — one that is not.
-/

namespace Doda

open ReadCommitted

/-! ## What an export is to hold -/

/-- The tasks that the user owns in some workspaces. -/
def ownTasks (db : Db) (actorId : String) (memberships : List MyWorkspaceEntry) : List Task :=
  collect (fun k v => match k, v with
    | .task _, (t : Task) =>
      if t.ownerId = actorId ∧ ∃ m ∈ memberships,
          t.customerId = m.customerId ∧ t.workspaceId = m.workspaceId then some t
      else none
    | _, _ => none) db

/-- The workspaces of one customer that `list_my_workspaces` enters for the user. -/
def workspacesOf (db : Db) (userId customerId : Uuid) : List MyWorkspaceEntry :=
  match row db (.customer customerId) with
  | none => []
  | some customer =>
    match customerRoleOf db customerId userId with
    | some .AUDITOR => []
    | some .CUSTOMER_OWNER =>
      (openWorkspaces db customerId).filterMap (ownedEntry db customerId customer)
    | some .MEMBER | none =>
      (joinedMemberships db customerId userId).filterMap (joinedEntry db customerId customer)

/-- The workspaces that `list_my_workspaces` returns, in an order that the database chooses. -/
def workspacesOfUser (db : Db) (userId : Uuid) : List MyWorkspaceEntry :=
  (customersIndexedFor db userId).flatMap (workspacesOf db userId)

/-- The notifications addressed to the user in some customers. -/
def ownNotifications (db : Db) (actorId : String) (customerIds : List Uuid) :
    List Notification :=
  collect (fun k v => match k, v with
    | .notification _, (n : Notification) =>
      if n.recipientId = actorId ∧ n.customerId ∈ customerIds then some n else none
    | _, _ => none) db

/-- The audit events of the user's actions in some customers. -/
def ownAuditEvents (db : Db) (actorId : String) (customerIds : List Uuid) : List AuditEvent :=
  collect (fun k v => match k, v with
    | .auditEvent _, (e : AuditEvent) =>
      if e.actorId = actorId ∧ e.customerId ∈ customerIds then some e else none
    | _, _ => none) db

/-- **The export is exact**: each row that it is to hold once, and nothing else. -/
structure Exact (db : Db) (userId : Uuid) (ex : MyDataExport) : Prop where
  tasks : ex.tasks.Perm (ownTasks db (actorOf userId) (workspacesOfUser db userId))
  notifications : ex.notifications.Perm
    (ownNotifications db (actorOf userId) (customersIndexedFor db userId))
  auditEvents : ex.auditEvents.Perm
    (ownAuditEvents db (actorOf userId) (customersIndexedFor db userId))

/-! ## Pages -/

/-- All tasks of a workspace, newest first. -/
structure Listing (db : Db) (membership : MyWorkspaceEntry) (tasks : List Task) : Prop where
  all : tasks.Perm ((tasksIn db membership.customerId membership.workspaceId none).filterMap
    fun id => row db (.task id))
  newestFirst : tasks.Pairwise fun a b => b.createdAt ≤ a.createdAt

/-- The workspaces that the loop visits: each once, where it comes first. -/
def visited : List Uuid → List MyWorkspaceEntry → List MyWorkspaceEntry
  | _, [] => []
  | seen, m :: ms =>
    if m.workspaceId ∈ seen then visited seen ms else m :: visited (m.workspaceId :: seen) ms

/-- The listings that the tasks of an export were taken from, by workspace. -/
structure Paged (db : Db) (userId : Uuid) (ex : MyDataExport)
    (pages : List (MyWorkspaceEntry × List Task)) : Prop where
  memberships : ex.memberships.Perm (workspacesOfUser db userId)
  visited : pages.map (·.1) = visited [] ex.memberships
  listing : ∀ x ∈ pages, Listing db x.1 x.2
  tasks : ex.tasks =
    pages.flatMap fun x => (x.2.take 200).filter (·.ownerId = actorOf userId)

/-- **Nothing of the user's is left over**: none of the tasks that come after the first 200
of a workspace is the user's, and in no customer the user has more than 200 notifications
or audit events. -/
structure WithinPages (db : Db) (userId : Uuid) (pages : List (MyWorkspaceEntry × List Task)) :
    Prop where
  tasks : ∀ x ∈ pages, ∀ t ∈ x.2.drop 200, t.ownerId ≠ actorOf userId
  notifications : ∀ c ∈ customersIndexedFor db userId,
    (ownNotifications db (actorOf userId) [c]).length ≤ 200
  auditEvents : ∀ c ∈ customersIndexedFor db userId,
    (ownAuditEvents db (actorOf userId) [c]).length ≤ 200

/-- New identifiers are not those of audit events. -/
def FreshAnswer (db : Db) : (e : Call) → Answer e → Prop
  | .uuid4, id => row db (.auditEvent id) = none
  | _, _ => True

/-! ## The listings, alone -/

section Listings

variable {db c : Db} {Q : List Task → Db → DbTx → Prop} {X : Err → Db → DbTx → Prop}

/-- A page of the tasks of a workspace. -/
theorem listTasksForWorkspace_alone (m : MyWorkspaceEntry) :
    Alone FreshAnswer (fun tasks c t => c = db ∧ t = {} ∧
        ∃ listing, Listing db m listing ∧ tasks = listing.take 200) X
      (listTasksForWorkspace m.customerId m.workspaceId none exportPageSize) db {} := by
  rw [listTasksForWorkspace, alone_bind, alone_view rfl, alone_bind, alone_call]
  rintro ⟨order, horder⟩ -
  refine alone_pure.2 ⟨rfl, rfl, _, ⟨?_, newestFirst_pairwise _ _⟩, rfl⟩
  exact (newestFirst_perm _ _).trans (horder.filterMap _)

/-- The entries of a user's workspaces name the workspaces' customers. -/
def OfCustomers (db : Db) (memberships : List MyWorkspaceEntry) : Prop :=
  ∀ m ∈ memberships, ∃ w, row db (.workspace m.workspaceId) = some w ∧
    w.customerId = m.customerId

theorem ofCustomers_workspacesOf (userId customerId : Uuid) :
    OfCustomers db (workspacesOf db userId customerId) := by
  have howned : ∀ customer, OfCustomers db
      ((openWorkspaces db customerId).filterMap (ownedEntry db customerId customer)) := by
    intro customer m hm
    obtain ⟨id, hid, hentry⟩ := List.mem_filterMap.1 hm
    obtain ⟨w, hw, rfl⟩ := Option.map_eq_some_iff.1 hentry
    obtain ⟨k, v, hrow, hk⟩ := mem_collect.1 hid
    cases k with
    | workspace id' =>
      dsimp only at hk
      split at hk
      · rename_i hopen
        obtain rfl := Option.some.inj hk
        obtain rfl := Option.some.inj (hw.symm.trans hrow)
        exact ⟨w, hw, hopen.1⟩
      · cases hk
    | _ => cases hk
  have hjoined : ∀ customer, OfCustomers db
      ((joinedMemberships db customerId userId).filterMap
        (joinedEntry db customerId customer)) := by
    intro customer m hm
    obtain ⟨id, -, hentry⟩ := List.mem_filterMap.1 hm
    obtain ⟨membership, -, hentry⟩ := Option.bind_eq_some_iff.1 hentry
    obtain ⟨w, hw, rfl⟩ := Option.map_eq_some_iff.1 hentry
    obtain ⟨hw, hopen⟩ := Option.filter_eq_some_iff.1 hw
    exact ⟨w, hw, (of_decide_eq_true hopen).1⟩
  unfold workspacesOf
  split
  · exact List.forall_mem_nil _
  · split
    · exact List.forall_mem_nil _
    · exact howned _
    all_goals exact hjoined _

theorem ofCustomers_workspacesOfUser (userId : Uuid) :
    OfCustomers db (workspacesOfUser db userId) := by
  intro m hm
  obtain ⟨customerId, -, hm⟩ := List.mem_flatMap.1 hm
  exact ofCustomers_workspacesOf userId customerId m hm

/-- A scan of the rows of a query. -/
theorem scan_alone {A : Type} (ids : Db → List Uuid) (f : Uuid → Option A) {all : List A}
    {X : Err → Db → DbTx → Prop} (hall : all = (ids db).filterMap f) :
    Alone FreshAnswer (fun entries c t => c = db ∧ t = {} ∧ entries.Perm all) X (do
      let db ← Session.select
      let order ← call (Call.scanOrder (ids db))
      return order.1.filterMap f) db {} := by
  rw [alone_bind, alone_view rfl, alone_bind, alone_call]
  exact fun order _ => ⟨rfl, rfl, hall ▸ order.2.filterMap f⟩

/-- The entries of one customer. -/
theorem listWorkspacesOf_alone (userId customerId : Uuid) :
    Alone FreshAnswer
      (fun entries c t => c = db ∧ t = {} ∧ entries.Perm (workspacesOf db userId customerId))
      (fun e _ _ => e = .assertion ∧ row db (.customer customerId) = none)
      (listWorkspacesOf userId customerId) db {} := by
  refine alone_atomically (P := fun entries c t => c = db ∧ t = {} ∧
    entries.Perm (workspacesOf db userId customerId)) ?_ ?_
  · rw [alone_bind, alone_get rfl]
    have hentries : workspacesOf (Tx.view {} db) userId customerId =
        workspacesOf db userId customerId := rfl
    rw [← hentries, workspacesOf]
    cases hcustomer : row (Tx.view {} db) (.customer customerId) with
    | none => exact ⟨rfl, hcustomer⟩
    | some customer =>
      change Alone _ _ _ (Session.select >>= _) _ _
      rw [alone_bind, alone_view rfl]
      cases hrole : customerRoleOf (Tx.view {} db) customerId userId with
      | none => exact scan_alone (joinedMemberships · customerId userId) _ rfl
      | some role =>
        cases role with
        | AUDITOR => exact ⟨rfl, rfl, .refl _⟩
        | CUSTOMER_OWNER => exact scan_alone (openWorkspaces · customerId) _ rfl
        | MEMBER => exact scan_alone (joinedMemberships · customerId userId) _ rfl
  · rintro entries c t ⟨rfl, rfl, hperm⟩
    exact ⟨rfl, rfl, rfl, hperm⟩

/-- What the export needs of the database: the user's row, and those of the user's customers. -/
def Missing (db : Db) (userId : Uuid) : Prop :=
  row db (.user userId) = none ∨
    ∃ customerId ∈ customersIndexedFor db userId, row db (.customer customerId) = none

theorem listWorkspacesOfEach_alone (userId : Uuid) (customerIds : List Uuid) :
    Alone FreshAnswer (fun entries c t => c = db ∧ t = {} ∧
        entries.Perm (customerIds.flatMap (workspacesOf db userId)))
      (fun e _ _ => e = .assertion ∧ ∃ customerId ∈ customerIds,
        row db (.customer customerId) = none)
      (listWorkspacesOfEach userId customerIds) db {} := by
  induction customerIds with
  | nil => exact ⟨rfl, rfl, .refl _⟩
  | cons customerId customerIds ih =>
    rw [listWorkspacesOfEach, alone_bind]
    refine (listWorkspacesOf_alone userId customerId).mono ?_ ?_
    · rintro entries c t ⟨rfl, rfl, hentries⟩
      rw [alone_bind]
      refine ih.mono ?_ ?_
      · rintro rest c t ⟨rfl, rfl, hrest⟩
        exact ⟨rfl, rfl, hentries.append hrest⟩
      · rintro e c t ⟨rfl, customerId', hmem, hnone⟩
        exact ⟨rfl, customerId', List.mem_cons_of_mem _ hmem, hnone⟩
    · rintro e c t ⟨rfl, hnone⟩
      exact ⟨rfl, customerId, List.mem_cons_self, hnone⟩

theorem customerIdsForUser_alone (userId : Uuid) :
    Alone FreshAnswer (fun customerIds c t => c = db ∧ t = {} ∧
        customerIds.Perm (customersIndexedFor db userId)) X
      (customerIdsForUser userId) db {} := by
  refine alone_atomically (P := fun customerIds c t => c = db ∧ t = {} ∧
    customerIds.Perm (customersIndexedFor db userId)) ?_ ?_
  · rw [alone_bind, alone_view rfl, alone_bind, alone_call]
    exact fun order _ => ⟨rfl, rfl, order.2⟩
  · rintro customerIds c t ⟨rfl, rfl, hperm⟩
    exact ⟨rfl, rfl, rfl, hperm⟩

/-- The user's workspaces, listed: `workspacesOfUser` is what the listing returns. -/
theorem listMyWorkspaces_alone (userId : Uuid) :
    Alone FreshAnswer
      (fun entries c t => c = db ∧ t = {} ∧ entries.Perm (workspacesOfUser db userId))
      (fun e _ _ => e = .assertion ∧ ∃ customerId ∈ customersIndexedFor db userId,
        row db (.customer customerId) = none)
      (listMyWorkspaces userId) db {} := by
  rw [listMyWorkspaces, alone_bind]
  refine (customerIdsForUser_alone userId).mono ?_ fun _ _ _ h => h
  rintro customerIds c t ⟨rfl, rfl, hcustomerIds⟩
  refine (listWorkspacesOfEach_alone userId customerIds).mono ?_ ?_
  · rintro entries c t ⟨rfl, rfl, hperm⟩
    exact ⟨rfl, rfl, hperm.trans (hcustomerIds.flatMap_right _)⟩
  · rintro e c t ⟨rfl, customerId, hmem, hnone⟩
    exact ⟨rfl, customerId, hcustomerIds.mem_iff.1 hmem, hnone⟩

/-- The loop over the workspaces takes a page of each that it visits. -/
theorem exportTasks_alone (actorId : String) (seen : List Uuid)
    (memberships : List MyWorkspaceEntry) :
    Alone FreshAnswer (fun tasks c t => c = db ∧ t = {} ∧
        ∃ pages : List (MyWorkspaceEntry × List Task),
          pages.map (·.1) = visited seen memberships ∧ (∀ x ∈ pages, Listing db x.1 x.2) ∧
          tasks = pages.flatMap fun x => (x.2.take 200).filter (·.ownerId = actorId)) X
      (exportTasks actorId seen memberships) db {} := by
  induction memberships generalizing seen with
  | nil => exact ⟨rfl, rfl, [], rfl, by simp, rfl⟩
  | cons m ms ih =>
    rw [exportTasks, visited]
    split
    · exact ih seen
    · rw [alone_bind]
      refine alone_atomically ((listTasksForWorkspace_alone m).mono (fun _ _ _ h => h)
        fun _ _ _ h => h) ?_
      rintro tasks c t ⟨rfl, rfl, listing, hlisting, rfl⟩
      refine ⟨rfl, ?_⟩
      rw [alone_bind]
      refine (ih (m.workspaceId :: seen)).mono ?_ fun _ _ _ h => h
      rintro rest c t ⟨rfl, rfl, pages, hvisited, hpages, rfl⟩
      refine ⟨rfl, rfl, (m, listing) :: pages, by rw [List.map_cons, hvisited], ?_, rfl⟩
      exact List.forall_mem_cons.2 ⟨hlisting, hpages⟩

end Listings

/-! ## The customers, alone -/

/-- The database has grown by chain tips and by new events of some customers. -/
structure Grown (done : List Uuid) (db c : Db) : Prop where
  others : ∀ k, (∀ customerId, k ≠ .auditChainTip customerId) → (∀ id, k ≠ .auditEvent id) →
    row c k = row db k
  events : ∀ id, row c (.auditEvent id) = row db (.auditEvent id) ∨
    row db (.auditEvent id) = none ∧
      ∃ e, row c (.auditEvent id) = some e ∧ e.customerId ∈ done

namespace Grown

variable {done done' : List Uuid} {db c : Db}

theorem refl (done : List Uuid) (db : Db) : Grown done db db :=
  ⟨fun _ _ _ => rfl, fun _ => .inl rfl⟩

theorem mono (H : Grown done db c) (hsub : ∀ x ∈ done, x ∈ done') : Grown done' db c :=
  ⟨H.others, fun id => (H.events id).imp_right fun ⟨hnone, e, he, hmem⟩ =>
    ⟨hnone, e, he, hsub _ hmem⟩⟩

/-- Another event is recorded. -/
theorem recorded {db' : Db} {customerId : Uuid} {eventType : String} {safeMetadata : Json}
    {event : AuditEvent} (H : Grown done db c) (hmem : customerId ∈ done)
    (hr : EventAdded customerId eventType safeMetadata event c db') : Grown done db db' := by
  constructor
  · intro k htip hevent
    rw [hr.others k (htip customerId) (hevent event.id)]
    exact H.others k htip hevent
  · intro id
    by_cases hid : id = event.id
    · subst hid
      have hnone : row db (.auditEvent event.id) = none := by
        rcases H.events event.id with hsame | ⟨hnone, -⟩
        · rw [← hsame, hr.fresh]
        · exact hnone
      exact .inr ⟨hnone, event, hr.stored, hr.customer ▸ hmem⟩
    · rw [hr.others (.auditEvent id) (by simp) (by simpa using hid)]
      exact H.events id

/-- The notifications are what they were. -/
theorem notificationsFor_perm (H : Grown done db c) (customerId : Uuid) (recipientId : String) :
    (notificationsFor c customerId recipientId none).Perm
      (notificationsFor db customerId recipientId none) := by
  refine collect_congr fun k => ?_
  cases k with
  | notification id => rw [H.others (.notification id) (by simp) (by simp)]
  | _ => simp

/-- The events of the other customers are what they were. -/
theorem storedEvents_perm (H : Grown done db c) {customerId : Uuid} (hc : customerId ∉ done) :
    (storedEvents customerId c).Perm (storedEvents customerId db) := by
  refine collect_congr fun k => ?_
  cases k with
  | auditEvent id =>
    rcases H.events id with hsame | ⟨hnone, e, he, hmem⟩
    · rw [hsame]
    · have hne : e.customerId ≠ customerId := fun heq => hc (heq ▸ hmem)
      simp [hnone, he, hne]
  | _ => simp

end Grown

section Customers

variable [Sha256] {db c : Db} {t : DbTx} {X : Err → Db → DbTx → Prop} {done : List Uuid}

omit [Sha256] in
/-- A user's notifications in one customer, listed. -/
theorem notifications_perm (H : Grown done db c) (customerId : Uuid) (actorId : String)
    {order : List Uuid} (horder : order.Perm (notificationsFor c customerId actorId none)) :
    (newestFirst (·.createdAt) (order.filterMap fun id => row c (.notification id))).Perm
      (ownNotifications db actorId [customerId]) := by
  have hrows : (notificationsFor db customerId actorId none).filterMap
      (fun id => row db (.notification id)) = ownNotifications db actorId [customerId] := by
    refine collect_rows fun k v hrow => ?_
    cases k with
    | notification id =>
      by_cases hc : v.customerId = customerId
      · by_cases hr : v.recipientId = actorId
        all_goals simp [hc, hr, hrow]
      · simp [hc]
    | _ => rfl
  rw [← hrows]
  have hsame : (fun id => row c (.notification id)) = fun id => row db (.notification id) :=
    funext fun id => H.others (.notification id) (by simp) (by simp)
  rw [hsame]
  exact (newestFirst_perm _ _).trans
    ((horder.trans (H.notificationsFor_perm customerId actorId)).filterMap _)

omit [Sha256] in
/-- A user's audit events in one customer, listed. -/
theorem auditEvents_perm (H : Grown done db c) {customerId : Uuid} (hc : customerId ∉ done)
    (actorId : String) :
    (auditEventsOf c customerId { actorId := some actorId }).Perm
      (ownAuditEvents db actorId [customerId]) := by
  have hrows : (storedEvents customerId db).filterMap (Option.guard fun e =>
      (AuditFilter.Admits { actorId := some actorId } e)) =
        ownAuditEvents db actorId [customerId] := by
    refine collect_rows fun k v hrow => ?_
    cases k with
    | auditEvent id =>
      by_cases hv : v.customerId = customerId
      · by_cases ha : v.actorId = actorId
        all_goals simp [hv, ha, Option.guard, AuditFilter.Admits]
      · simp [hv]
    | _ => rfl
  rw [← hrows, List.filterMap_eq_filter]
  exact (List.perm_insertionSort _ _).trans ((H.storedEvents_perm hc).filter _)

/-- What one customer contributes. -/
theorem exportCustomer_alone (actorId : String) (traceId customerId : Uuid)
    (H : Grown done db c) (hc : customerId ∉ done) :
    Alone FreshAnswer (fun x c' t => t = {} ∧ Grown (customerId :: done) db c' ∧
        (∃ rest, Page x.1 rest (ownNotifications db actorId [customerId])
          ((ownNotifications db actorId [customerId]).length ≤ 200)) ∧
        ∃ rest, Page x.2 rest (ownAuditEvents db actorId [customerId])
          ((ownAuditEvents db actorId [customerId]).length ≤ 200)) X
      (exportCustomer actorId traceId customerId) c {} := by
  refine alone_atomically (P := fun x c' t => t.failed = false ∧
    Grown (customerId :: done) db (t.view c') ∧
    (∃ rest, Page x.1 rest (ownNotifications db actorId [customerId])
      ((ownNotifications db actorId [customerId]).length ≤ 200)) ∧
    ∃ rest, Page x.2 rest (ownAuditEvents db actorId [customerId])
      ((ownAuditEvents db actorId [customerId]).length ≤ 200)) ?_ ?_
  · rw [alone_bind, listNotificationsForUser, alone_bind, alone_view rfl]
    refine alone_bind.2 (alone_call.2 fun order _ => ?_)
    rw [alone_pure, alone_bind, listAuditEvents, alone_bind, alone_pure, alone_bind,
      alone_view rfl, alone_pure, alone_bind]
    refine recordAuditEvent_alone (fun _ _ h => h) rfl ?_
    intro event t hf hrecorded
    have hgrown : Grown (customerId :: done) db (t.view c) :=
      (H.mono fun x hx => List.mem_cons_of_mem _ hx).recorded List.mem_cons_self hrecorded
    have hall : ∀ l : List AuditEvent, l.filter (fun e =>
        (none : Option AuditEvent).all (e.place < ·.place)) = l := fun l => by simp
    simp only [hall]
    exact ⟨hf, hgrown, ⟨_, .take 200 (notifications_perm H customerId actorId order.2)⟩,
      _, .take 200 (auditEvents_perm H hc actorId)⟩
  · rintro x c' t ⟨hf, hgrown, hn, he⟩
    exact ⟨hf, rfl, hgrown, hn, he⟩

/-- What the customers contribute. -/
theorem exportCustomers_alone (actorId : String) (traceId : Uuid) {customerIds : List Uuid}
    (hnodup : customerIds.Nodup) (H : Grown done db c) (hnew : ∀ x ∈ customerIds, x ∉ done) :
    Alone FreshAnswer (fun x _ t => t = {} ∧
        (∃ rest, Page x.1 rest (customerIds.flatMap fun i => ownNotifications db actorId [i])
          (∀ i ∈ customerIds, (ownNotifications db actorId [i]).length ≤ 200)) ∧
        ∃ rest, Page x.2 rest (customerIds.flatMap fun i => ownAuditEvents db actorId [i])
          (∀ i ∈ customerIds, (ownAuditEvents db actorId [i]).length ≤ 200)) X
      (exportCustomers actorId traceId customerIds) c {} := by
  induction customerIds generalizing c done with
  | nil => exact ⟨rfl, ⟨[], .refl _, by simp⟩, [], .refl _, by simp⟩
  | cons customerId customerIds ih =>
    obtain ⟨hfirst, hnodup⟩ := List.nodup_cons.1 hnodup
    rw [exportCustomers, alone_bind]
    refine (exportCustomer_alone actorId traceId customerId H (hnew _ List.mem_cons_self)).mono ?_
      fun _ _ _ h => h
    rintro ⟨ns, es⟩ c t ⟨rfl, hgrown, ⟨restN, hn⟩, restE, he⟩
    rw [alone_bind]
    refine (ih hnodup hgrown ?_).mono ?_ fun _ _ _ h => h
    · intro x hx hmem
      rcases List.mem_cons.1 hmem with rfl | hmem
      · exact hfirst hx
      · exact hnew x (List.mem_cons_of_mem _ hx) hmem
    · rintro ⟨ns', es'⟩ c t ⟨rfl, ⟨restN', hn'⟩, restE', he'⟩
      refine ⟨rfl, ⟨_, (hn.append hn').mono (.refl _) ?_⟩, _, (he.append he').mono (.refl _) ?_⟩
      all_goals rw [List.forall_mem_cons]

end Customers

/-! ## The export -/

/-- The workspaces visited are the user's, each once. -/
theorem mem_visited {seen : List Uuid} {memberships : List MyWorkspaceEntry} :
    (∀ m ∈ visited seen memberships, m ∈ memberships ∧ m.workspaceId ∉ seen) ∧
      (visited seen memberships).Pairwise (fun a b => a.workspaceId ≠ b.workspaceId) ∧
      ∀ m ∈ memberships, m.workspaceId ∉ seen →
        ∃ m' ∈ visited seen memberships, m'.workspaceId = m.workspaceId := by
  induction memberships generalizing seen with
  | nil => simp [visited]
  | cons m ms ih =>
    rw [visited]
    split
    · rename_i hseen
      obtain ⟨hmem, hdiff, hall⟩ := @ih seen
      refine ⟨fun m' hm' => ⟨List.mem_cons_of_mem _ (hmem m' hm').1, (hmem m' hm').2⟩, hdiff, ?_⟩
      intro m' hm' hnot
      rcases List.mem_cons.1 hm' with rfl | hm'
      · exact absurd hseen hnot
      · exact hall m' hm' hnot
    · rename_i hseen
      obtain ⟨hmem, hdiff, hall⟩ := @ih (m.workspaceId :: seen)
      refine ⟨?_, List.pairwise_cons.2 ⟨fun m' hm' heq => ?_, hdiff⟩, ?_⟩
      · intro m' hm'
        rcases List.mem_cons.1 hm' with rfl | hm'
        · exact ⟨List.mem_cons_self, hseen⟩
        · obtain ⟨hin, hnot⟩ := hmem m' hm'
          exact ⟨List.mem_cons_of_mem _ hin, fun h => hnot (List.mem_cons_of_mem _ h)⟩
      · exact (hmem m' hm').2 (heq ▸ List.mem_cons_self)
      · intro m' hm' hnot
        by_cases heq : m'.workspaceId = m.workspaceId
        · exact ⟨m, List.mem_cons_self, heq.symm⟩
        · have hm' := (List.mem_cons.1 hm').resolve_left (by rintro rfl; exact heq rfl)
          obtain ⟨m'', hm'', heq'⟩ := hall m' hm' (by simp [heq, hnot])
          exact ⟨m'', List.mem_cons_of_mem _ hm'', heq'⟩

/-- The user's tasks in one workspace, and those that are left over. -/
theorem Listing.page {db : Db} {m : MyWorkspaceEntry} {listing : List Task}
    (H : Listing db m listing) (actorId : String) :
    Page ((listing.take 200).filter (·.ownerId = actorId))
      ((listing.drop 200).filter (·.ownerId = actorId)) (ownTasks db actorId [m])
      (∀ t ∈ listing.drop 200, t.ownerId ≠ actorId) where
  perm := by
    have hrows : ((tasksIn db m.customerId m.workspaceId none).filterMap fun id =>
        row db (.task id)).filterMap (Option.guard fun t => decide (t.ownerId = actorId)) =
          ownTasks db actorId [m] := by
      rw [List.filterMap_filterMap]
      refine collect_rows fun k v hrow => ?_
      cases k with
      | task id =>
        by_cases hv : v.customerId = m.customerId ∧ v.workspaceId = m.workspaceId
        · by_cases ha : v.ownerId = actorId
          all_goals simp [hv, ha, hrow, Option.guard]
        · simp [hv]
      | _ => rfl
    rw [← List.filter_append, List.take_append_drop, ← hrows, List.filterMap_eq_filter]
    exact H.all.filter _
  rest_iff := by simp [List.filter_eq_nil_iff]

/-- The user's tasks, taken from pages. -/
theorem tasks_page {db : Db} {actorId : String} {pages : List (MyWorkspaceEntry × List Task)}
    (H : ∀ x ∈ pages, Listing db x.1 x.2) :
    Page (pages.flatMap fun x => (x.2.take 200).filter (·.ownerId = actorId))
      (pages.flatMap fun x => (x.2.drop 200).filter (·.ownerId = actorId))
      ((pages.map (·.1)).flatMap fun m => ownTasks db actorId [m])
      (∀ x ∈ pages, ∀ t ∈ x.2.drop 200, t.ownerId ≠ actorId) := by
  induction pages with
  | nil => exact ⟨.refl _, by simp⟩
  | cons x pages ih =>
    obtain ⟨hx, hpages⟩ := List.forall_mem_cons.1 H
    refine ((hx.page actorId).append (ih hpages)).mono (.refl _) ?_
    rw [List.forall_mem_cons]

/-- The tasks of the workspaces visited are those of all of the user's workspaces. -/
theorem visited_perm {db : Db} {userId : Uuid} {actorId : String}
    {memberships : List MyWorkspaceEntry}
    (hmemberships : memberships.Perm (workspacesOfUser db userId)) :
    ((visited [] memberships).flatMap fun m => ownTasks db actorId [m]).Perm
      (ownTasks db actorId (workspacesOfUser db userId)) := by
  obtain ⟨hmem, hdiff, hall⟩ := @mem_visited [] memberships
  have hof : OfCustomers db memberships := fun m hm =>
    ofCustomers_workspacesOfUser userId m (hmemberships.mem_iff.1 hm)
  refine (flatMap_collect_perm (hdiff.imp fun {a b} hne k v => ?_)).trans
    (.of_eq (congrArg (collect · db) ?_))
  · cases k with
    | task id =>
      by_cases ha : v.workspaceId = a.workspaceId
      · have hb : v.workspaceId ≠ b.workspaceId := fun hb => hne (ha.symm.trans hb)
        exact .inr (by simp [hb])
      · exact .inl (by simp [ha])
    | _ => exact .inl rfl
  · funext k v
    cases k with
    | task id =>
      refine findSome?_ite ⟨?_, ?_⟩
      · rintro ⟨m, hm, hown, m', hm', hin⟩
        obtain rfl := List.mem_singleton.1 hm'
        exact ⟨hown, m', hmemberships.mem_iff.1 (hmem m' hm).1, hin⟩
      · rintro ⟨hown, m, hm, hcustomer, hworkspace⟩
        have hm := hmemberships.mem_iff.2 hm
        obtain ⟨m', hm', heq⟩ := hall m hm (by simp)
        obtain ⟨w, hw, hwm⟩ := hof m hm
        obtain ⟨w', hw', hwm'⟩ := hof m' (hmem m' hm').1
        rw [heq] at hw'
        obtain rfl := Option.some.inj (hw.symm.trans hw')
        exact ⟨m', hm', hown, m', by simp, by rw [hcustomer, ← hwm, hwm'], by rw [hworkspace, heq]⟩
    | _ => simp [List.findSome?_eq_none_iff]

theorem ownNotifications_perm {db : Db} {actorId : String} {customerIds all : List Uuid}
    (hnodup : customerIds.Nodup) (hperm : customerIds.Perm all) :
    (customerIds.flatMap fun i => ownNotifications db actorId [i]).Perm
      (ownNotifications db actorId all) := by
  refine (flatMap_collect_perm (hnodup.imp fun {a b} hne k v => ?_)).trans
    (.of_eq (congrArg (collect · db) ?_))
  · cases k with
    | notification id =>
      by_cases ha : v.customerId = a
      · exact .inr (by simp [ha, hne])
      · exact .inl (by simp [ha])
    | _ => exact .inl rfl
  · funext k v
    cases k with
    | notification id =>
      refine findSome?_ite ?_
      simp [← hperm.mem_iff, and_comm]
    | _ => simp [List.findSome?_eq_none_iff]

theorem ownAuditEvents_perm {db : Db} {actorId : String} {customerIds all : List Uuid}
    (hnodup : customerIds.Nodup) (hperm : customerIds.Perm all) :
    (customerIds.flatMap fun i => ownAuditEvents db actorId [i]).Perm
      (ownAuditEvents db actorId all) := by
  refine (flatMap_collect_perm (hnodup.imp fun {a b} hne k v => ?_)).trans
    (.of_eq (congrArg (collect · db) ?_))
  · cases k with
    | auditEvent id =>
      by_cases ha : v.customerId = a
      · exact .inr (by simp [ha, hne])
      · exact .inl (by simp [ha])
    | _ => exact .inl rfl
  · funext k v
    cases k with
    | auditEvent id =>
      refine findSome?_ite ?_
      simp [← hperm.mem_iff, and_comm]
    | _ => simp [List.findSome?_eq_none_iff]

/-- An export is taken from pages of what it is to hold. -/
structure Cut (db : Db) (userId : Uuid) (ex : MyDataExport)
    (pages : List (MyWorkspaceEntry × List Task)) : Prop where
  paged : Paged db userId ex pages
  tasks : ∃ rest, Page ex.tasks rest (ownTasks db (actorOf userId) (workspacesOfUser db userId))
    (∀ x ∈ pages, ∀ t ∈ x.2.drop 200, t.ownerId ≠ actorOf userId)
  notifications : ∃ rest, Page ex.notifications rest
    (ownNotifications db (actorOf userId) (customersIndexedFor db userId))
    (∀ i ∈ customersIndexedFor db userId, (ownNotifications db (actorOf userId) [i]).length ≤ 200)
  auditEvents : ∃ rest, Page ex.auditEvents rest
    (ownAuditEvents db (actorOf userId) (customersIndexedFor db userId))
    (∀ i ∈ customersIndexedFor db userId, (ownAuditEvents db (actorOf userId) [i]).length ≤ 200)

theorem exportMyData_alone [Sha256] (db : Db) (userId traceId : Uuid) :
    Alone FreshAnswer (fun ex _ _ => ∃ pages, Cut db userId ex pages)
      (fun e _ _ => e = .assertion ∧ Missing db userId) (exportMyData userId traceId) db {} := by
  rw [exportMyData, alone_bind]
  refine (listMyWorkspaces_alone userId).mono ?_ ?_
  · rintro memberships db t ⟨rfl, rfl, hmemberships⟩
    rw [alone_bind]
    refine alone_atomically (P := fun user c t => c = db ∧ t = {} ∧
      user = row db (.user userId)) ?_ ?_
    · rw [alone_get rfl]
      exact ⟨rfl, rfl, rfl⟩
    rintro found db t ⟨rfl, rfl, rfl⟩
    refine ⟨rfl, ?_⟩
    cases huser : row db (.user userId) with
    | none => exact ⟨rfl, .inl huser⟩
    | some user =>
      change Alone _ _ _ (customerIdsForUser userId >>= _) _ _
      rw [alone_bind]
      refine (customerIdsForUser_alone userId).mono ?_ fun _ _ _ h => h
      rintro customerIds' db t ⟨rfl, rfl, hperm⟩
      rw [alone_bind]
      refine (exportTasks_alone (actorOf userId) [] memberships).mono ?_ fun _ _ _ h => h
      rintro tasks db t ⟨rfl, rfl, pages, hvisited, hpages, rfl⟩
      have hnodup : customerIds'.Nodup := hperm.nodup_iff.2 (customersIndexedFor_nodup db userId)
      rw [alone_bind]
      refine (exportCustomers_alone (actorOf userId) traceId hnodup (.refl [] db)
        fun _ _ => List.not_mem_nil).mono ?_ fun _ _ _ h => h
      rintro ⟨notifications, auditEvents⟩ c' t ⟨rfl, ⟨restN, hn⟩, restE, he⟩
      refine ⟨pages, ⟨hmemberships, hvisited, hpages, rfl⟩,
        ⟨_, (tasks_page hpages).mono ?_ Iff.rfl⟩,
        ⟨_, hn.mono (ownNotifications_perm hnodup hperm) ?_⟩,
        ⟨_, he.mono (ownAuditEvents_perm hnodup hperm) ?_⟩⟩
      · exact hvisited ▸ visited_perm hmemberships
      all_goals exact forall_congr' fun i => imp_congr hperm.mem_iff Iff.rfl
  · rintro e c t ⟨rfl, hnone⟩
    exact ⟨rfl, .inr hnone⟩

/-- **When an export is exact.**  Run over a database that nobody else writes, the export
returns unless the user's row or that of one of the user's customers is missing.  What it
returns was taken from listings of the workspaces visited, and it is exact just if nothing
of the user's comes after the first page of a listing. -/
theorem export_exact_iff [Sha256] (db : Db) (userId traceId : Uuid) :
    Alone FreshAnswer
      (fun ex _ _ => ∃ pages, Paged db userId ex pages ∧
        (Exact db userId ex ↔ WithinPages db userId pages))
      (fun e _ _ => e = .assertion ∧ Missing db userId)
      (exportMyData userId traceId) db {} := by
  refine (exportMyData_alone db userId traceId).mono ?_ fun _ _ _ h => h
  rintro ex _ _ ⟨pages, hpaged, ⟨restT, ht⟩, ⟨restN, hn⟩, restE, he⟩
  refine ⟨pages, hpaged, fun hexact => ?_, fun hwithin => ?_⟩
  · exact ⟨ht.perm_iff.1 hexact.tasks, hn.perm_iff.1 hexact.notifications,
      he.perm_iff.1 hexact.auditEvents⟩
  · exact ⟨ht.perm_iff.2 hwithin.tasks, hn.perm_iff.2 hwithin.notifications,
      he.perm_iff.2 hwithin.auditEvents⟩

section Sample

attribute [local instance] sampleSha

/-- One notification more than a page, all of them of user 5 in customer 7. -/
def overfull : Db :=
  ⟨.user 5, some { displayName := "Aziza" }⟩ ::
  ⟨.customer 7, some { name := "acme" }⟩ ::
  ⟨.userCustomerIndex 5 7, some ()⟩ ::
  (List.range 201).map fun id => ⟨.notification (.ofNat 128 id), some
    { id := .ofNat 128 id, createdAt := 0, customerId := 7, workspaceId := none,
      recipientId := actorOf 5, notificationType := .REMINDER_DUE, referenceType := "task",
      referenceId := 0, safeMetadata := .obj [] }⟩

theorem keys_overfull_nodup : (keys overfull).Nodup := by
  have hids : ((List.range 201).map fun id => Key.notification (.ofNat 128 id)).Nodup := by
    refine List.nodup_range.map_on fun a ha b hb hab => ?_
    have hab := congrArg BitVec.toNat (Key.notification.inj hab)
    rw [BitVec.toNat_ofNat, BitVec.toNat_ofNat] at hab
    rw [List.mem_range] at ha hb
    omega
  simpa [overfull, keys, Function.comp_def] using hids

theorem overfull_listed : customersIndexedFor overfull 5 = [7] := by
  rw [customersIndexedFor, collect_of_nodup keys_overfull_nodup]
  decide +kernel

theorem overfull_length :
    ¬ (ownNotifications overfull (actorOf 5) [7]).length ≤ 200 := by
  rw [ownNotifications, collect_of_nodup keys_overfull_nodup]
  decide +kernel

theorem overfull_rows : (row overfull (.user 5)).isSome ∧ (row overfull (.customer 7)).isSome := by
  decide +kernel

/-- **An export that is cut off.**  Whatever the database answers, the export returns and is
not exact. -/
theorem overfull_cut :
    Alone FreshAnswer (fun ex _ _ => ¬ Exact overfull 5 ex) (fun _ _ _ => False)
      (exportMyData 5 900) overfull {} := by
  have hlisted : (7 : Uuid) ∈ customersIndexedFor overfull 5 := by
    rw [overfull_listed]
    exact List.mem_singleton_self _
  refine (exportMyData_alone overfull 5 900).mono ?_ ?_
  · rintro ex _ _ ⟨pages, -, -, ⟨rest, hn⟩, -⟩ hexact
    exact overfull_length (hn.perm_iff.1 hexact.notifications 7 hlisted)
  · rintro e _ _ ⟨-, huser | ⟨customerId, hmem, hcustomer⟩⟩
    · have := overfull_rows.1
      rw [huser] at this
      cases this
    · rw [overfull_listed] at hmem
      obtain rfl := List.mem_singleton.1 hmem
      have := overfull_rows.2
      rw [hcustomer] at this
      cases this

end Sample

end Doda
