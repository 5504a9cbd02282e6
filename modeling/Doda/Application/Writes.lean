import Doda.Api.CustomerAdmin
import Doda.Application.Notification
import Doda.AuditChain.Recording
import Doda.Lib.Commits
import Doda.Service

/-!
# What the application's functions write

The tables a function writes, whatever it is answered.  A property of other tables
goes through such a function unchanged, by `Only.apart`.

## Main definitions

* `Writes P m` — `m` works inside a transaction and writes rows of `P` only.
* `Tidy P m` — and raises when a statement fails.

## Main results

* `recordAuditEvent_tidy` — events and tips.
* `createNotification_tidy` — those and notifications.
* `getWorkspaceContext_tidy`, `getCustomerContext_tidy` — nothing.
-/

namespace Doda

open ReadCommitted

/-- The program runs inside a transaction, makes minor calls only, and writes rows of `P` only. -/
abbrev Writes {α : Type} (P : Key → Prop) (m : Session α) : Prop :=
  Only (·.WritesOnly P) Call.Minor False m

/-- A process went on inside its transaction and wrote rows of `P` only. -/
abbrev Apart (P : Key → Prop) (p : ℕ) (h : Hist) (t : DbTx) (h' : Hist) (t' : DbTx) : Prop :=
  ReadCommitted.Apart Call.Minor P p h t h' t'

namespace Writes

variable {P P' : Key → Prop} {α : Type}

theorem weaken {m : Session α} (hm : Writes P m) (hP : ∀ k, P k → P' k) : Writes P' m :=
  hm.mono (fun _ hq => hq.mono hP) (fun _ he => he) fun h => h

theorem get (k : Key) : Writes P (Session.get k) := Only.run trivial
theorem getForUpdate (k : Key) : Writes P (Session.getForUpdate k) := Only.run trivial
theorem select : Writes P Session.select := Only.run trivial

theorem insert {k : Key} {v : Row k} (hk : P k) : Writes P (Session.insert k v) :=
  Only.run fun e he => by
    obtain rfl := List.mem_singleton.1 he
    exact hk

theorem update {k : Key} {f : Row k → Row k} (hk : P k) : Writes P (Session.update k f) :=
  Only.run hk

theorem delete {k : Key} (hk : P k) : Writes P (run (.delete k) : Session Unit) := Only.run hk

theorem uuid4 : Writes P Session.uuid4 := Only.call trivial
theorem scanOrder (rows : List Uuid) :
    Writes P (call (Call.scanOrder rows) : Session { order // List.Perm order rows }) :=
  Only.call trivial
theorem utcnow (c : Clock) : Writes P (Session.utcnow c) := Only.call trivial

end Writes

/-- A process went on in such a way, as far as its own events show. -/
abbrev Moved (P : Key → Prop) (p : ℕ) (evs evs' : Hist) : Prop :=
  Went p (·.WritesOnly P) Call.Minor evs evs'

/-- The same, and it raises when a statement fails. -/
abbrev Tidy {α : Type} (P : Key → Prop) (m : Session α) : Prop :=
  Neat (·.WritesOnly P) Call.Minor m

namespace Tidy

variable {P P' : Key → Prop} {α : Type}

theorem weaken {m : Session α} (hm : Tidy P m) (hP : ∀ k, P k → P' k) : Tidy P' m :=
  hm.mono (fun _ hq => hq.mono hP) fun _ he => he

theorem get (k : Key) : Tidy P (Session.get k) := Neat.run trivial
theorem getForUpdate (k : Key) : Tidy P (Session.getForUpdate k) := Neat.run trivial
theorem select : Tidy P Session.select := Neat.run trivial

theorem insert {k : Key} {v : Row k} (hk : P k) : Tidy P (Session.insert k v) :=
  Neat.run fun e he => by
    obtain rfl := List.mem_singleton.1 he
    exact hk

theorem update {k : Key} {f : Row k → Row k} (hk : P k) : Tidy P (Session.update k f) :=
  Neat.run hk

theorem delete {k : Key} (hk : P k) : Tidy P (run (.delete k) : Session Unit) := Neat.run hk

theorem uuid4 : Tidy P Session.uuid4 := Neat.call trivial
theorem scanOrder (rows : List Uuid) :
    Tidy P (call (Call.scanOrder rows) : Session { order // List.Perm order rows }) :=
  Neat.call trivial
theorem utcnow (c : Clock) : Tidy P (Session.utcnow c) := Neat.call trivial

end Tidy

variable [Sha256]

/-- An audit event is recorded in the event table and at the tip. -/
theorem recordAuditEvent_tidy (c : Uuid) (w : Option Uuid) (t : Uuid) (a e : String) (m : Json) :
    Tidy (·.auditing = true) (recordAuditEvent c w t a e m) := by
  refine Neat.bind (Neat.run ?_) fun _ => Neat.bind (Tidy.getForUpdate _) fun tip => ?_
  · intro e he
    obtain rfl := List.mem_singleton.1 he
    rfl
  cases tip with
  | none => exact Neat.throw _
  | some tip =>
    refine Neat.bind (Tidy.utcnow _) fun _ => Neat.bind Tidy.uuid4 fun _ => ?_
    refine Neat.bind (Tidy.utcnow _) fun _ => Neat.bind (Tidy.insert rfl) fun _ => ?_
    exact Neat.bind (Tidy.update rfl) fun _ => Neat.pure _

theorem recordAuditEvent_writes (c : Uuid) (w : Option Uuid) (t : Uuid) (a e : String) (m : Json) :
    Writes (·.auditing = true) (recordAuditEvent c w t a e m) :=
  (recordAuditEvent_tidy ..).only

/-- A notification is stored and its delivery recorded. -/
theorem createNotification_tidy (c : Uuid) (w : Option Uuid) (r : String) (t : NotificationType)
    (rt : String) (ri : Uuid) (m : Json) :
    Tidy (fun k => k.auditing = true ∨ ∃ id, k = .notification id)
      (createNotification c w r t rt ri m) := by
  refine Neat.bind ?_ fun enabled => ?_
  · unfold isNotificationTypeEnabled
    split
    · exact Neat.pure _
    · exact Neat.bind (Tidy.get _) fun _ => Neat.pure _
  · cases enabled with
    | false => exact Neat.pure _
    | true =>
      refine Neat.bind Tidy.uuid4 fun id => Neat.bind (Tidy.utcnow _) fun createdAt => ?_
      refine Neat.bind (Tidy.insert (.inr ⟨id, rfl⟩)) fun _ => ?_
      refine Neat.bind Tidy.uuid4 fun traceId => Neat.bind ?_ fun _ => Neat.pure _
      exact (recordAuditEvent_tidy ..).weaken fun _ hk => .inl hk

theorem createNotification_writes (c : Uuid) (w : Option Uuid) (r : String) (t : NotificationType)
    (rt : String) (ri : Uuid) (m : Json) :
    Writes (fun k => k.auditing = true ∨ ∃ id, k = .notification id)
      (createNotification c w r t rt ri m) :=
  (createNotification_tidy ..).only

omit [Sha256] in
/-- A workspace request is admitted without a write. -/
theorem getWorkspaceContext_tidy {P : Key → Prop} (tenant user w : Uuid) :
    Tidy P (getWorkspaceContext tenant user w) := by
  refine Neat.bind (Tidy.get _) fun found => ?_
  dsimp only
  split
  · split
    · exact Neat.throw _
    · refine Neat.bind Tidy.select fun db => ?_
      split
      · exact Neat.pure _
      · refine Neat.bind Tidy.select fun db => ?_
        split
        · exact Neat.throw _
        · split
          · exact Neat.throw _
          · exact Neat.pure _
  · exact Neat.throw _

omit [Sha256] in
theorem getWorkspaceContext_writes {P : Key → Prop} (tenant user w : Uuid) :
    Writes P (getWorkspaceContext tenant user w) :=
  (getWorkspaceContext_tidy ..).only

omit [Sha256] in
/-- So is a customer's. -/
theorem getCustomerContext_tidy {P : Key → Prop} (u c : Uuid) :
    Tidy P (getCustomerContext u c) := by
  refine Neat.bind (Tidy.get _) fun customer => ?_
  split
  · exact Neat.throw _
  · refine Neat.bind Tidy.select fun db => ?_
    split
    · exact Neat.throw _
    · exact Neat.pure _

omit [Sha256] in
theorem getCustomerContext_writes {P : Key → Prop} (u c : Uuid) :
    Writes P (getCustomerContext u c) :=
  (getCustomerContext_tidy ..).only

omit [Sha256] in
theorem requireRole_tidy {P : Key → Prop} (context : WorkspaceContext) (allowed : Bool)
    (may : String) : Tidy P (requireRole context allowed may) := by
  unfold requireRole
  split
  · exact Neat.pure _
  · exact Neat.throw _

omit [Sha256] in
theorem requireRole_writes {P : Key → Prop} (context : WorkspaceContext) (allowed : Bool)
    (may : String) : Writes P (requireRole context allowed may) :=
  (requireRole_tidy ..).only

omit [Sha256] in
/-- Housekeeping writes the tables of its rows. -/
theorem keepHouseAll_tidy {P : Key → Prop}
    (rows : List { v : Version Row // v.1.housekeeping = true }) (hP : ∀ v ∈ rows, P v.1.1) :
    Tidy P (keepHouseAll rows) := by
  induction rows with
  | nil => exact Neat.pure _
  | cons v rows ih =>
    rw [List.forall_mem_cons] at hP
    refine Neat.bind ?_ fun _ => ih hP.2
    obtain ⟨⟨k, _ | row⟩, hv⟩ := v
    · exact Tidy.delete hP.1
    · refine Neat.bind (Neat.run fun e he => ?_) fun inserted => ?_
      · obtain rfl := List.mem_singleton.1 he
        exact hP.1
      · split
        · exact Tidy.update hP.1
        · exact Neat.pure _

omit [Sha256] in
/-- **What a workspace request has done when it commits.** -/
theorem withRequestContext_commits {α : Type} {p : ℕ} {D : Hist → Prop} {who : Identity}
    {workspaceId : Uuid} {handler : WorkspaceContext → Session α}
    (hread : ∀ evs, Moved (fun _ => False) p [] evs → D evs)
    (H : ∀ context evs, Moved (fun _ => False) p [] (openOf evs) →
      Inside p (fun _ evs' => D (openOf evs')) (handler context) evs) :
    AtCommits p (fun evs => D (openOf evs)) (fun _ _ => True)
      (withRequestContext who workspaceId handler) [] := by
  refine AtCommits.atomically_bind (Inside.run fun x => hread _ ?_) fun index w evs => ?_
  · exact (Went.refl []).ran trivial
  cases index with
  | none => trivial
  | some tenant =>
    refine AtCommits.atomically ?_ fun _ _ _ => trivial
    have hcontext := getWorkspaceContext_tidy (P := fun _ => False) tenant who.userId workspaceId
    refine Inside.bind (hcontext.inside p _) fun context evs' hevs => ?_
    exact H context evs' (by simpa using hevs.openOf)

end Doda
