import Doda.Sessions.Lifetime
import Doda.Lib.Alone

/-!
# The listing of active sessions

The listing and the check of a session write one definition of liveness twice, the one
as what a query keeps and the other as what is turned away.  They part at the limits:
the check lets a session pass at the very instant its timeout ends, the listing leaves
it out.

## Main definitions

* `Accepts` — the check lets the session pass at a clock reading.
* `ListsAccepted` — the listing shows a user's sessions that the check lets pass.

## Main results

* `listsAccepted_iff` — when it does.
-/

namespace Doda

open ReadCommitted

/-- The clock reads `now`. -/
def ReadsClock (now : Time) : Db → (e : Call) → Answer e → Prop
  | _, .utcnow _, x => x = now
  | _, _, _ => True

/-- `resolve_session` returns at the clock reading `now`. -/
def Accepts (db : Db) (now : Time) (id : Uuid) : Prop :=
  Alone (ReadsClock now) (fun _ _ _ => True) (fun _ _ _ => False) (resolveSession id) db {}

/-- The listing at `now` shows the sessions of the user that are accepted at `now`, each once,
and changes nothing. -/
def ListsAccepted (db : Db) (userId : Uuid) (now : Time) : Prop :=
  Alone (ReadsClock now) (fun sessions c t => c = db ∧ t = {} ∧ (sessions.map (·.1)).Nodup ∧
      ∀ id record, (id, record) ∈ sessions ↔
        row db (.session id) = some record ∧ record.userId = userId ∧ Accepts db now id)
    (fun _ _ _ => False) (listActiveSessionsForUser userId) db {}

/-- No session of the user ends just now. -/
def NoneAtLimit (db : Db) (userId : Uuid) (now : Time) : Prop :=
  ∀ id record, row db (.session id) = some record → record.userId = userId →
    Fresh record now → now ≠ record.expiresAt ∧ now ≠ record.lastSeenAt + idleTimeout

section Listing

variable {db : Db} {userId id : Uuid} {now : Time} {record : IdentitySession}

theorem touchSession_alone {loaded : Time} {t : DbTx} (hf : t.failed = false)
    (hrow : row (t.view db) (.session id) = some record) :
    Alone (ReadsClock now) (fun _ _ _ => True) (fun _ _ _ => False)
      (touchSession id loaded now) db t := by
  rw [touchSession]
  split
  · exact (alone_update hf hrow).2 trivial
  · exact trivial

/-- Reading the clock. -/
theorem utcnow_alone {c : Clock} {t : DbTx} {Q : Time → Db → DbTx → Prop}
    {X : Err → Db → DbTx → Prop} :
    Alone (ReadsClock now) Q X (Session.utcnow c : Session Time) db t ↔ Q now db t :=
  ⟨fun h => h now rfl, fun h _ hx => hx ▸ h⟩

/-- **The check**, by the row it finds. -/
theorem accepts_iff : Accepts db now id ↔
    ∃ record, row db (.session id) = some record ∧ Fresh record now := by
  rw [Accepts, resolveSession, alone_bind, alone_get rfl, alone_bind]
  simp only [Tx.view_mk, List.nil_append, utcnow_alone]
  cases hrow : row db (.session id) with
  | none => simp
  | some record =>
    simp only [Option.some.injEq, exists_eq_left']
    constructor
    · intro h
      split_ifs at h with hrevoked hexpired hidle
      · exact h.elim
      · exact h.elim
      · exact h.elim
      · exact ⟨by simpa using hrevoked, Nat.le_of_not_lt hexpired, Nat.le_of_not_lt hidle⟩
    · rintro ⟨hrevoked, hexpired, hidle⟩
      rw [if_neg (by simp [hrevoked]), if_neg (Nat.not_lt.2 hexpired),
        if_neg (Nat.not_lt.2 hidle), alone_bind]
      exact (touchSession_alone (t := {}) rfl hrow).mono (fun _ _ _ _ => trivial) fun _ _ _ h => h

/-- The listing's conditions are strict. -/
theorem listedAt_iff : record.listedAt userId now = true ↔
    record.userId = userId ∧ Fresh record now ∧
      now ≠ record.expiresAt ∧ now ≠ record.lastSeenAt + idleTimeout := by
  simp only [IdentitySession.listedAt, Bool.and_eq_true, decide_eq_true_eq,
    Option.isNone_iff_eq_none]
  constructor
  · rintro ⟨⟨⟨huser, hrevoked⟩, hexpires⟩, hidle⟩
    exact ⟨huser, ⟨hrevoked, hexpires.le, hidle.le⟩, hexpires.ne, hidle.ne⟩
  · rintro ⟨huser, ⟨hrevoked, hexpires, hidle⟩, hne, hne'⟩
    exact ⟨⟨⟨huser, hrevoked⟩, lt_of_le_of_ne hexpires hne⟩, lt_of_le_of_ne hidle hne'⟩

theorem mem_collect_listedRow : (id, record) ∈ collect (listedRow userId now) db ↔
    row db (.session id) = some record ∧ record.listedAt userId now = true := by
  rw [mem_collect]
  constructor
  · rintro ⟨k, v, hv, hkept⟩
    cases k with
    | session id' =>
      rw [listedRow] at hkept
      split at hkept
      · cases hkept
        exact ⟨hv, ‹_›⟩
      · cases hkept
    | _ => cases hkept
  · rintro ⟨hrow, hlisted⟩
    exact ⟨.session id, record, hrow, by rw [listedRow, if_pos hlisted]⟩

theorem nodup_collect_listedRow : ((collect (listedRow userId now) db).map (·.1)).Nodup := by
  refine List.Nodup.of_map Key.session ?_
  rw [List.map_map]
  refine nodup_collect_map fun k v a _ ha => ?_
  cases k with
  | session id' =>
    rw [listedRow] at ha
    split at ha <;> cases ha
    rfl
  | _ => cases ha

/-- What it means for the rows that the query keeps. -/
theorem listsAccepted_iff_mem : ListsAccepted db userId now ↔
    ∀ id record, (row db (.session id) = some record ∧ record.listedAt userId now = true) ↔
      row db (.session id) = some record ∧ record.userId = userId ∧ Accepts db now id := by
  rw [ListsAccepted, listActiveSessionsForUser, alone_bind, utcnow_alone, alone_bind,
    alone_view rfl, alone_pure]
  have hsort := List.perm_insertionSort (fun a b : Uuid × IdentitySession =>
    a.2.lastSeenAt ≥ b.2.lastSeenAt) (collect (listedRow userId now) db)
  have hmem : ∀ id record, (id, record) ∈ (collect (listedRow userId now) db).insertionSort
      (fun a b => a.2.lastSeenAt ≥ b.2.lastSeenAt) ↔
        row db (.session id) = some record ∧ record.listedAt userId now = true := by
    intro id record
    rw [List.mem_insertionSort, mem_collect_listedRow]
  constructor
  · rintro ⟨-, -, -, hlists⟩ id record
    rw [← hmem]
    exact hlists id record
  · intro hlists
    refine ⟨rfl, rfl, ((hsort.map _).nodup_iff).2 nodup_collect_listedRow, fun id record => ?_⟩
    rw [← hlists]
    exact hmem id record

/-- A listing that agrees shows no session at a limit. -/
theorem noneAtLimit_of_lists (h : ListsAccepted db userId now) : NoneAtLimit db userId now := by
  intro id record hrow huser hfresh
  have hlisted := (listsAccepted_iff_mem.1 h id record).2
    ⟨hrow, huser, accepts_iff.2 ⟨record, hrow, hfresh⟩⟩
  exact (listedAt_iff.1 hlisted.2).2.2

end Listing

/-- **The listing agrees with the check** just if no session of the user is at a limit. -/
theorem listsAccepted_iff (db : Db) (userId : Uuid) (now : Time) :
    ListsAccepted db userId now ↔ NoneAtLimit db userId now := by
  constructor
  · exact noneAtLimit_of_lists
  · intro hnone
    rw [listsAccepted_iff_mem]
    intro id record
    rw [listedAt_iff, accepts_iff]
    constructor
    · rintro ⟨hrow, huser, hfresh, -⟩
      exact ⟨hrow, huser, record, hrow, hfresh⟩
    · rintro ⟨hrow, huser, record', hrow', hfresh⟩
      obtain rfl := Option.some.inj (hrow.symm.trans hrow')
      exact ⟨hrow, huser, hfresh, hnone id record hrow huser hfresh⟩

/-- A session that ends just now. -/
private def endingSession : IdentitySession :=
  { userId := 2, authStrength := .AAL1, lastSeenAt := minutes 710,
    expiresAt := absoluteTimeout }

/-- The check lets it pass, the listing leaves it out. -/
theorem not_listed_at_limit : ¬ ∀ db userId now, ListsAccepted db userId now := by
  intro h
  have hlimit := noneAtLimit_of_lists (h [⟨.session 1, some endingSession⟩] 2 absoluteTimeout)
  exact (hlimit 1 endingSession rfl rfl ⟨rfl, by decide, by decide⟩).1 rfl

end Doda
