import Doda.Application.Action
import Doda.AuditChain.Recording

/-!
# The part of a transaction that is about actions

A transaction of the application writes to many tables.  What it does to actions
is in the versions of four tables and of the audit events whose metadata names
an action: its core.  Notifications, their audit events and the chain tips are
not in it.

## Main definitions

* `AuditEvent.actionId` — the action an event is about.
* `tracked`, `core w` — the versions that are about actions.
* `createNotification_safe`, `announceReady_safe` — functions that write beside
  the action.
-/

namespace Doda

open ReadCommitted

/-- `safe_metadata["action_id"]`. -/
def AuditEvent.actionId (e : AuditEvent) : Option String :=
  (e.safeMetadata.get? "action_id").bind Json.asStr?

/-- The keys of which every version is about an action. -/
def Key.tracked : Key → Bool
  | .action _ | .actionIdempotency _ _ _ | .approval _ | .outboxMessage _ => true
  | _ => false

/-- The versions that are about actions. -/
def tracked : Version Row → Bool
  | ⟨.auditEvent _, v⟩ => v.any fun e : AuditEvent => e.actionId.isSome
  | ⟨k, _⟩ => k.tracked

/-- What a transaction's writes say about actions. -/
def core (w : Db) : Db := w.filter tracked

@[simp] theorem core_nil : core [] = [] := rfl

@[simp] theorem core_append (w s : Db) : core (w ++ s) = core w ++ core s := List.filter_append ..

theorem tracked_of_key {k : Key} (hk : k.tracked = true) (v : Option (Row k)) :
    tracked ⟨k, v⟩ = true := by
  cases k <;> simp [Key.tracked] at hk <;> rfl

theorem core_cons_tracked {k : Key} (hk : k.tracked = true) (v : Option (Row k)) (w : Db) :
    core (⟨k, v⟩ :: w) = ⟨k, v⟩ :: core w :=
  List.filter_cons_of_pos (tracked_of_key hk v)

theorem row_core_append {k : Key} (hk : k.tracked = true) (w s : Db) :
    row (core w ++ s) k = row (w ++ s) k :=
  row_filter_append (tracked_of_key hk) w s

theorem mem_core {k : Key} (hk : k.tracked = true) {v : Option (Row k)} {w : Db} :
    (⟨k, v⟩ : Version Row) ∈ core w ↔ (⟨k, v⟩ : Version Row) ∈ w := by
  simp [core, List.mem_filter, tracked_of_key hk v]

/-- What a transaction sees of a row that it has not written since. -/
theorem row_view_of_core_eq {t t' : DbTx} {w : Db} (hcore : core t'.writes = w ++ core t.writes)
    {k : Key} (hk : k.tracked = true) (hw : k ∉ keys w) (c : Db) :
    row (t'.view c) k = row (t.view c) k := by
  rw [Tx.view, Tx.view, ← row_core_append hk t'.writes, ← row_core_append hk t.writes, hcore,
    List.append_assoc, row_append_of_notMem _ hw]

/-- Writes to tables that are not tracked, audit rows apart. -/
theorem core_eq_nil {w : Db} (hw : ∀ v ∈ w, v.1.tracked = false ∧ v.1.isAuditEvent = false) :
    core w = [] := by
  refine List.filter_eq_nil_iff.2 fun ⟨k, v⟩ hv => ?_
  obtain ⟨h₁, h₂⟩ := hw _ hv
  cases k <;> simp [Key.tracked, Key.isAuditEvent] at h₁ h₂ <;> simp [tracked, Key.tracked]

/-- A recorded event is in the core if it is about an action. -/
theorem Recorded.core_eq {e : AuditEvent} {w w' : Db} (h : Recorded e w w') :
    core w' = (if e.actionId.isSome then [⟨.auditEvent e.id, some e⟩] else []) ++ core w := by
  obtain ⟨init, tip, hinit, rfl⟩ := h
  have hnil : core init = [] := core_eq_nil fun v hv => by
    rw [hinit v hv]
    exact ⟨rfl, rfl⟩
  have htip : core [⟨.auditChainTip e.customerId, tip⟩] = [] := rfl
  rw [← List.singleton_append, core_append, htip, ← List.singleton_append, core_append,
    core_append, hnil, List.nil_append, List.nil_append]
  congr 1
  by_cases he : e.actionId.isSome
  · rw [if_pos he]
    exact List.filter_cons_of_pos he
  · rw [if_neg he]
    exact List.filter_cons_of_neg he

/-! ## Functions that write beside the action -/

section Specs

variable [Sha256] {C : Contract Row Answer} {p : ℕ} {h : Hist} {t : DbTx}

/-- A statement that reads. -/
theorem Ready.read (hC : AuditContract C) (hr : Ready C p h t) {h' : Hist}
    (ho : Onward p h t h' t) (hl : Live C h' t) : Ready C p h' t :=
  hr.onward hC ho hl [] rfl (by simp)

/-- Insert a row of a table that audits nothing. -/
theorem insert_safe (hC : AuditContract C) (hr : Ready C p h t) {k : Key} (v : Row k)
    (hk : k.auditing = false) :
    Safe C p (fun _ h' t' => Onward p h t h' t' ∧ Ready C p h' t' ∧
        t' = t.write [⟨k, some v⟩] ∧ row (t.view (committed h')) k = none)
      (Broken p h t) (Session.insert k v) h t := by
  refine (Safe.insert k v).mono ?_ fun _ _ _ => id
  rintro - h' t' ⟨hl, ho, rfl, hrow⟩
  exact ⟨ho, hr.onward hC ho hl [⟨k, some v⟩] rfl (by simp [hk]), rfl, hrow⟩

end Specs

end Doda
