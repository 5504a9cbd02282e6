import Doda.AuditChain.Interleaving
import Doda.Application.Session
import Doda.Lib.Commits

/-!
# The lifetime of a session

No operation locks the session's row.  Each commits few changes, which its own
events show (`SessionDeed`): whatever others commit meanwhile, a touch changes
`last_seen_at` alone and a revoke `revoked_at` alone.

## Main definitions

* `Opened h id t`, `Accepted h p id t`, `Revoked h id` — what has been committed so far.
* `SessionDeed p r` — the events of a process that commits for the request `r`.
* `Turned` — what a commit does to the row of a session.

## Main results

* `turned_of_commits` — each commit does one of these.
* `Dated.of_valid`, `revoked_of_valid` — the dates of a session, and that a revocation lasts.
-/

namespace Doda

open ReadCommitted

/-- The session was created, with `now` reading `t`. -/
def Opened (h : Hist) (id : Uuid) (t : Time) : Prop :=
  Once (fun p w h => .called p (.utcnow .opened) t ∈ h ∧
    row (committed h) (.session id) = none ∧ (row (w ++ committed h) (.session id)).isSome) h

/-- Process `p` accepted the session at the clock reading `t`, and committed. -/
def Accepted (h : Hist) (p : ℕ) (id : Uuid) (t : Time) : Prop :=
  Once (fun q _ h => q = p ∧ .called p (.utcnow (.seen id)) t ∈ h) h

/-- Process `p` revokes the session: the request came when the session's row had been committed,
or has found it. -/
def Revokes (p : ℕ) (id : Uuid) (h : Hist) : Prop :=
  (∃ h₁, .called p (.authenticates (.revoke id)) () :: h₁ <:+ h ∧
    (row (committed h₁) (.session id)).isSome) ∨
  (.called p (.authenticates (.revoke id)) () ∈ h ∧
    ∃ record, .ran p (.get (.session id)) (some record) ∈ h)

/-- A revoke of the session has committed. -/
def Revoked (h : Hist) (id : Uuid) : Prop := Once (fun p _ h => Revokes p id h) h

/-! ## What a process has done when it commits -/

/-- The `UPDATE` of a touch, where there is anything to change. -/
def touched (p : ℕ) (id : Uuid) (loaded now : Time) (evs : Hist) : Hist :=
  if now ≠ loaded then
    .ran p (.update (.session id) fun record => { record with lastSeenAt := now }) () :: evs
  else evs

theorem exists_touched_eq (p : ℕ) (id : Uuid) (loaded now : Time) (evs : Hist) :
    ∃ evs', touched p id loaded now evs = evs' ++ evs ∧ ∀ e x, .called p e x ∉ evs' := by
  rw [touched]
  split
  · exact ⟨[_], rfl, by simp⟩
  · exact ⟨[], rfl, by simp⟩

theorem mem_touched {p : ℕ} {id : Uuid} {loaded now : Time} {evs : Hist}
    {ev : ReadCommitted.Event Row Answer} (hev : ev ∈ evs) : ev ∈ touched p id loaded now evs := by
  rw [touched]
  split
  · exact List.mem_cons_of_mem _ hev
  · exact hev

/-- The check of a session that `resolve_session` accepts. -/
structure Fresh (record : IdentitySession) (now : Time) : Prop where
  unrevoked : record.revokedAt = none
  unexpired : now ≤ record.expiresAt
  active : now ≤ record.lastSeenAt + idleTimeout

/-- The events of a process that commits, newest first. -/
inductive SessionDeed (p : ℕ) : SessionRequest → Hist → Prop
  | created {userId : Uuid} {authStrength : AuthStrength} (now : Time) (id : Uuid) :
    SessionDeed p (.create userId authStrength)
      [.ran p (.insert [⟨.session id,
          { userId, authStrength, lastSeenAt := now, expiresAt := now + absoluteTimeout }⟩]) (),
        .called p .uuid4 id, .called p (.utcnow .opened) now,
        .called p (.authenticates (.create userId authStrength)) ()]
  | seen {id : Uuid} {record : IdentitySession} {now : Time} (hfresh : Fresh record now)
      {evs : Hist} (hevs : evs = touched p id record.lastSeenAt now
        [.called p (.utcnow (.seen id)) now, .ran p (.get (.session id)) (some record),
          .called p (.authenticates (.resolve id none)) ()]) :
    SessionDeed p (.resolve id none) evs
  | seenFor {id workspaceId : Uuid} {record : IdentitySession} {now : Time}
      (hfresh : Fresh record now) (x : Option Uuid) {evs : Hist}
      (hevs : evs = touched p id record.lastSeenAt now
        [.called p (.utcnow (.seen id)) now, .ran p (.get (.session id)) (some record),
          .called p (.authenticates (.resolve id (some workspaceId))) ()]) :
    SessionDeed p (.resolve id (some workspaceId))
      (.ran p (.get (.workspaceTenantIndex workspaceId)) x :: evs)
  | unknown (id : Uuid) :
    SessionDeed p (.revoke id)
      [.ran p (.get (.session id)) none, .called p (.authenticates (.revoke id)) ()]
  | revokedBefore {id : Uuid} {record : IdentitySession} (h : record.revokedAt.isSome) :
    SessionDeed p (.revoke id)
      [.ran p (.get (.session id)) (some record), .called p (.authenticates (.revoke id)) ()]
  | revoked {id : Uuid} {record : IdentitySession} (now : Time) :
    SessionDeed p (.revoke id)
      [.ran p (.update (.session id) fun record => { record with revokedAt := some now }) (),
        .called p (.utcnow .revoked) now, .ran p (.get (.session id)) (some record),
        .called p (.authenticates (.revoke id)) ()]

section Deeds

variable {p : ℕ}

theorem touchSession_inside (id : Uuid) (loaded now : Time) (evs : Hist) :
    Inside p (fun _ evs' => evs' = touched p id loaded now evs) (touchSession id loaded now)
      evs := by
  rw [touchSession, touched]
  split
  · exact Inside.run fun _ => rfl
  · rfl

theorem resolveSession_inside (id : Uuid) (evs : Hist) :
    Inside p (fun _ evs' => ∃ record now, Fresh record now ∧
        evs' = touched p id record.lastSeenAt now (.called p (.utcnow (.seen id)) now ::
          .ran p (.get (.session id)) (some record) :: evs))
      (resolveSession id) evs := by
  refine Inside.run_bind fun found => Inside.call_bind fun now => ?_
  cases found with
  | none => trivial
  | some record =>
    dsimp only
    split
    · trivial
    split
    · trivial
    split
    · trivial
    rename_i hrevoked hexpires hidle
    refine Inside.bind (touchSession_inside ..) fun _ evs' hevs => ?_
    refine ⟨record, now, ⟨?_, not_lt.1 hexpires, not_lt.1 hidle⟩, hevs⟩
    simpa using hrevoked

theorem authenticate_commits (id : Uuid) (workspaceId : Option Uuid) :
    AtCommits p (SessionDeed p (.resolve id workspaceId)) (fun _ _ => True)
      (authenticate id workspaceId)
      [.called p (.authenticates (.resolve id workspaceId)) ()] := by
  refine AtCommits.atomically ?_ fun _ _ _ => trivial
  refine Inside.bind (resolveSession_inside ..) fun _ evs hevs => ?_
  obtain ⟨record, now, hfresh, hevs⟩ := hevs
  cases workspaceId with
  | none => exact .seen hfresh hevs
  | some workspaceId =>
    exact Inside.run_bind fun x => SessionDeed.seenFor hfresh x hevs

theorem createSession_inside (userId : Uuid) (authStrength : AuthStrength) :
    Inside p (fun _ => SessionDeed p (.create userId authStrength))
      (createSession userId authStrength)
      [.called p (.authenticates (.create userId authStrength)) ()] := by
  refine Inside.call_bind fun now => Inside.call_bind fun id => Inside.run_bind fun _ => ?_
  exact SessionDeed.created now id

theorem revokeSession_inside (id : Uuid) :
    Inside p (fun _ => SessionDeed p (.revoke id)) (revokeSession id)
      [.called p (.authenticates (.revoke id)) ()] := by
  refine Inside.run_bind fun found => ?_
  cases found with
  | none => exact .unknown id
  | some record =>
    dsimp only
    split
    · exact Inside.call_bind fun now => Inside.run fun _ => SessionDeed.revoked now
    · rename_i hrevoked
      refine .revokedBefore ?_
      cases h : record.revokedAt <;> simp_all

/-- **What a process of the session service has done when it commits.** -/
theorem serveSessions_commits (r : SessionRequest) :
    AtCommits p (SessionDeed p r) (fun _ _ => True) (serveSessions r) [] := by
  refine AtCommits.call_bind fun _ => ?_
  cases r with
  | create userId authStrength =>
    exact AtCommits.atomically_bind (createSession_inside userId authStrength) fun _ _ _ => trivial
  | resolve id workspaceId =>
    exact (authenticate_commits id workspaceId).bind fun _ _ _ => trivial
  | revoke id =>
    exact AtCommits.atomically_bind (revokeSession_inside id) fun _ _ _ => trivial

/-- All of it belongs to the transaction that commits. -/
theorem SessionDeed.openOf_eq {r : SessionRequest} {evs : Hist} (hd : SessionDeed p r evs) :
    openOf evs = evs := by
  cases hd with
  | seen hfresh hevs | seenFor hfresh x hevs =>
    subst hevs
    rw [touched]
    split <;> rfl
  | created | unknown | revokedBefore | revoked => rfl

end Deeds

/-! ## What a commit does to a session -/

/-- What becomes of the row of session `id` when `p` commits after the history `h`. -/
inductive Turned (h : Hist) (p : ℕ) (id : Uuid) :
    Option IdentitySession → Option IdentitySession → Prop
  | kept (v : Option IdentitySession) : Turned h p id v v
  | opened {record : IdentitySession} {now : Time}
      (hclock : .called p (.utcnow .opened) now ∈ h) (hseen : record.lastSeenAt = now)
      (hexpires : record.expiresAt = now + absoluteTimeout) : Turned h p id none (some record)
  | seen (record : IdentitySession) {now : Time}
      (hclock : .called p (.utcnow (.seen id)) now ∈ h) :
    Turned h p id (some record) (some { record with lastSeenAt := now })
  | revoked (record : IdentitySession) (now : Time) :
    Turned h p id (some record) (some { record with revokedAt := some now })

section Rows

variable {h h' : Hist} {p : ℕ} {w : Db} {id : Uuid} {t : Time}

theorem turned_of_touched {id' : Uuid} {loaded now : Time} {evs : Hist}
    (hclock : .called p (.utcnow (.seen id')) now ∈ h)
    (hevs : replay (committed h) evs (.session id) = row (committed h) (.session id)) :
    Turned h p id (row (committed h) (.session id))
      (replay (committed h) (touched p id' loaded now evs) (.session id)) := by
  rw [← hevs, touched]
  split
  · rw [replay]
    by_cases hid : id' = id
    · subst hid
      rw [Stmt.effect_update_self]
      cases replay (committed h) evs (.session id') with
      | none => exact .kept none
      | some record => exact .seen record hclock
    · rw [Stmt.effect_update_ne (by simpa using hid)]
      exact .kept _
  · exact .kept _

/-- **Each commit does one of these to a session.** -/
theorem turned_of_commits (hc : Commits serveSessions h p w) (id : Uuid) :
    Turned h p id (row (committed h) (.session id)) (row (w ++ committed h) (.session id)) := by
  obtain ⟨r, hd⟩ := hc.ran serveSessions_commits
  have hrows := hc.rows (.session id)
  have htold := hc.told
  have hmem : ∀ ev ∈ own p h, ev ∈ h := fun ev hev => (mem_own.1 hev).1
  rw [opened_eq, hd.openOf_eq] at hrows htold
  rw [hrows]
  generalize own p h = evs at hd hmem htold
  cases hd with
  | created now id' =>
    by_cases hid : id' = id
    · subst hid
      have hnone : row (committed h) (.session id') = none := htold.1 _ (List.mem_singleton_self _)
      rw [replay, Stmt.effect_insert_self, hnone]
      exact .opened (hmem _ (by simp)) rfl rfl
    · rw [replay, Stmt.effect_insert_ne (by simpa using hid)]
      exact .kept _
  | seen hfresh hevs =>
    subst hevs
    exact turned_of_touched (hmem _ (mem_touched (List.mem_cons_self ..))) rfl
  | seenFor hfresh x hevs =>
    subst hevs
    exact turned_of_touched
      (hmem _ (List.mem_cons_of_mem _ (mem_touched (List.mem_cons_self ..)))) rfl
  | unknown | revokedBefore => exact .kept _
  | @revoked id' record now =>
    change Turned h p id _ (Stmt.effect _ _ _ (row (committed h) (.session id)))
    by_cases hid : id' = id
    · subst hid
      rw [Stmt.effect_update_self]
      cases row (committed h) (.session id') with
      | none => exact .kept none
      | some record => exact .revoked record now
    · rw [Stmt.effect_update_ne (by simpa using hid)]
      exact .kept _

/-! ## Every history -/

/-- Where the dates of a session come from. -/
structure Dated (h : Hist) (id : Uuid) (record : IdentitySession) : Prop where
  expires : ∃ t₀, Opened h id t₀ ∧ record.expiresAt = t₀ + absoluteTimeout
  lastSeen : Opened h id record.lastSeenAt ∨ ∃ q, Accepted h q id record.lastSeenAt

theorem Dated.cons {record : IdentitySession} (hd : Dated h id record)
    (ev : ReadCommitted.Event Row Answer) : Dated (ev :: h) id record := by
  obtain ⟨⟨t₀, hopened, hexpires⟩, hseen⟩ := hd
  refine ⟨⟨t₀, hopened.cons ev, hexpires⟩, ?_⟩
  rcases hseen with hseen | ⟨q, hseen⟩
  · exact .inl (hseen.cons ev)
  · exact .inr ⟨q, hseen.cons ev⟩

/-- **Every session expires a fixed time after its creation, and was last seen at its creation
or by an accepted check.** -/
theorem Dated.of_valid {record : IdentitySession} (hv : (faithful serveSessions).Valid h)
    (hrow : row (committed h) (.session id) = some record) : Dated h id record := by
  induction h generalizing record with
  | nil => cases hrow
  | cons ev h ih =>
    obtain ⟨hok, hv⟩ := hv
    cases ev with
    | committed p w =>
      have hturned := turned_of_commits hok id
      have hafter : row (w ++ committed h) (.session id) = some record := hrow
      generalize hbefore : row (committed h) (.session id) = before at hturned
      rw [hafter] at hturned
      cases hturned with
      | kept => exact (ih hv hbefore).cons _
      | opened hclock hseen hexpires =>
        have : Opened (.committed p w :: h) id record.lastSeenAt :=
          .inl ⟨hseen ▸ hclock, hbefore, by rw [hafter]; rfl⟩
        exact ⟨⟨_, this, hseen ▸ hexpires⟩, .inl this⟩
      | seen record hclock =>
        obtain ⟨t₀, hopened, hexpires⟩ := (ih hv hbefore).expires
        exact ⟨⟨t₀, .inr hopened, hexpires⟩, .inr ⟨p, .inl ⟨rfl, hclock⟩⟩⟩
      | revoked record now =>
        have hold := (ih hv hbefore).cons (.committed p w)
        exact ⟨hold.expires, hold.lastSeen⟩
    | ran | called | failed | rolledBack | crashed => exact (ih hv hrow).cons _

/-- A session is revoked. -/
def IsRevoked (v : Option IdentitySession) : Prop := ∃ record, v = some record ∧
  record.revokedAt.isSome

theorem Turned.isRevoked {v v' : Option IdentitySession} (ht : Turned h p id v v')
    (hr : IsRevoked v) : IsRevoked v' := by
  obtain ⟨record, rfl, hr⟩ := hr
  cases ht with
  | kept => exact ⟨record, rfl, hr⟩
  | seen => exact ⟨_, rfl, hr⟩
  | revoked => exact ⟨_, rfl, rfl⟩

/-- A revocation lasts. -/
theorem isRevoked_of_suffix (hv : (faithful serveSessions).Valid h') (hs : h <:+ h')
    (hr : IsRevoked (row (committed h) (.session id))) :
    IsRevoked (row (committed h') (.session id)) := by
  obtain ⟨evs, rfl⟩ := hs
  induction evs with
  | nil => exact hr
  | cons ev evs ih =>
    have hold := ih hv.2
    cases ev with
    | committed p w => exact (turned_of_commits hv.1 id).isRevoked hold
    | ran | called | failed | rolledBack | crashed => exact hold

theorem Turned.isSome {v v' : Option IdentitySession} (ht : Turned h p id v v') (hv : v.isSome) :
    v'.isSome := by
  cases ht with
  | kept => exact hv
  | opened | seen | revoked => rfl

/-- A session that has been created stays. -/
theorem isSome_of_suffix (hv : (faithful serveSessions).Valid h') (hs : h <:+ h')
    (hr : (row (committed h) (.session id)).isSome) :
    (row (committed h') (.session id)).isSome := by
  obtain ⟨evs, rfl⟩ := hs
  induction evs with
  | nil => exact hr
  | cons ev evs ih =>
    have hold := ih hv.2
    cases ev with
    | committed p w => exact (turned_of_commits hv.1 id).isSome hold
    | ran | called | failed | rolledBack | crashed => exact hold

/-- A revoke has found its session, or there was none. -/
theorem SessionDeed.found {r : SessionRequest} {evs : Hist} (hd : SessionDeed p r evs)
    (hcalled : .called p (.authenticates (.revoke id)) () ∈ evs) :
    (∃ record, .ran p (.get (.session id)) (some record) ∈ evs) ∨
      evs = [.ran p (.get (.session id)) none, .called p (.authenticates (.revoke id)) ()] := by
  cases hd with
  | created => simp at hcalled
  | seen hfresh hevs | seenFor hfresh x hevs =>
    subst hevs
    rw [touched] at hcalled
    split at hcalled <;> simp at hcalled
  | unknown id' =>
    obtain rfl : id = id' := by simpa using hcalled
    exact .inr rfl
  | @revokedBefore id' record hr =>
    obtain rfl : id = id' := by simpa using hcalled
    exact .inl ⟨record, List.mem_cons_self ..⟩
  | @revoked id' record now =>
    obtain rfl : id = id' := by simpa using hcalled
    exact .inl ⟨record, by simp⟩

/-- **A revoke that came after the session was created has found it.** -/
theorem SessionDeed.found_of_stored {r : SessionRequest} {h₁ : Hist}
    (hd : SessionDeed p r (own p h)) (hv : (faithful serveSessions).Valid h)
    (hs : .called p (.authenticates (.revoke id)) () :: h₁ <:+ h)
    (hrow : (row (committed h₁) (.session id)).isSome) (ha : Answered h (own p h)) :
    ∃ record, .ran p (.get (.session id)) (some record) ∈ own p h := by
  have hcalled : .called p (.authenticates (.revoke id)) () ∈ own p h :=
    mem_own.2 ⟨hs.subset (List.mem_cons_self ..), rfl⟩
  refine (hd.found hcalled).resolve_right fun hown => ?_
  rw [hown] at ha
  obtain ⟨h₂, hs₂, -, -, hright, -⟩ := ha
  have hright : none = row (committed h₂) (.session id) := hright
  have hle : h₁ <:+ h₂ := by
    rcases List.suffix_or_suffix_of_suffix hs hs₂ with hle | hle
    · rcases List.suffix_cons_iff.1 hle with heq | hle
      · cases heq
      · exact (List.suffix_cons ..).trans hle
    rcases List.suffix_cons_iff.1 hle with heq | hle
    · cases heq
    -- the request came before the row was read
    have hread : .ran p (.get (.session id)) none ∈ own p h₁ :=
      mem_own.2 ⟨hle.subset (List.mem_cons_self ..), rfl⟩
    obtain ⟨evs, rfl⟩ := hs
    rw [own_append, own_called] at hown
    rcases List.append_eq_cons_iff.1 hown with ⟨-, heq⟩ | ⟨evs', -, heq⟩
    · cases heq
    · rcases List.append_eq_cons_iff.1 heq.symm with ⟨-, heq⟩ | ⟨evs'', -, heq⟩
      · rw [(List.cons.inj heq).2] at hread
        cases hread
      · simp at heq
  have hnone := isSome_of_suffix (hv.suffix ((List.suffix_cons ..).trans hs₂)) hle hrow
  rw [← hright] at hnone
  cases hnone

/-- What a process that revokes a session has done, and what became of the row. -/
theorem SessionDeed.isRevoked {r : SessionRequest} {evs : Hist} {record : IdentitySession}
    (hd : SessionDeed p r evs) (hv : (faithful serveSessions).Valid h)
    (hcalled : .called p (.authenticates (.revoke id)) () ∈ evs)
    (hran : .ran p (.get (.session id)) (some record) ∈ evs) (ht : Told (committed h) evs)
    (ha : Answered h evs) : IsRevoked (replay (committed h) evs (.session id)) := by
  cases hd with
  | created | unknown => simp at hran
  | seen hfresh hevs | seenFor hfresh x hevs =>
    subst hevs
    rw [touched] at hcalled
    split at hcalled <;> simp at hcalled
  | revokedBefore hr =>
    obtain hran | hran := List.mem_cons.1 hran
    · cases hran
      obtain ⟨h₁, hs, -, -, hright, -⟩ := ha
      exact isRevoked_of_suffix hv ((List.suffix_cons ..).trans hs) ⟨_, hright.symm, hr⟩
    · simp at hran
  | @revoked id' record' now =>
    obtain rfl : id' = id := by
      simp only [List.mem_cons, List.not_mem_nil, Event.ran.injEq, reduceCtorEq, false_and,
        and_false, or_false, false_or] at hran
      cases hran.2.1
      rfl
    rw [replay, Stmt.effect_update_self]
    obtain ⟨before, hbefore⟩ := Option.isSome_iff_exists.1 ht.1
    rw [hbefore]
    exact ⟨_, rfl, rfl⟩

/-- **Once a revoke has committed, the session is revoked.** -/
theorem isRevoked_of_revoked (hv : (faithful serveSessions).Valid h) (hr : Revoked h id) :
    IsRevoked (row (committed h) (.session id)) := by
  obtain ⟨p, w, h₁, hs, hrevokes⟩ := Once.exists_commit hr
  have hv₁ := hv.suffix hs
  refine isRevoked_of_suffix hv hs ?_
  have hc : Commits serveSessions h₁ p w := hv₁.1
  obtain ⟨r, hd⟩ := hc.ran serveSessions_commits
  have hrows := hc.rows (.session id)
  have htold := hc.told
  have hanswered := hc.answered
  rw [opened_eq, hd.openOf_eq] at hrows htold hanswered
  change IsRevoked (row (w ++ committed h₁) (.session id))
  rw [hrows]
  rcases hrevokes with ⟨h₂, hs₂, hstored⟩ | ⟨hcalled, record, hran⟩
  · obtain ⟨record, hran⟩ := hd.found_of_stored hv₁.2 hs₂ hstored hanswered
    exact hd.isRevoked hv₁.2 (mem_own.2 ⟨hs₂.subset (List.mem_cons_self ..), rfl⟩) hran htold
      hanswered
  · exact hd.isRevoked hv₁.2 (mem_own.2 ⟨hcalled, rfl⟩) (mem_own.2 ⟨hran, rfl⟩) htold hanswered

/-- A check that passes has read a session that was fresh when it was read. -/
theorem exists_read {id' : Uuid} {record : IdentitySession} {now : Time} {evs evs' : Hist}
    (hfresh : Fresh record now)
    (hevs : evs = touched p id' record.lastSeenAt now
      (.called p (.utcnow (.seen id')) now :: .ran p (.get (.session id')) (some record) :: evs'))
    (hevs' : ∀ h : Hist, replay (committed h) evs' = row (committed h))
    (hseen : .called p (.utcnow (.seen id)) t ∈ evs)
    (hcalled : .called p (.utcnow (.seen id)) t ∉ evs')
    (ha : Answered h evs) :
    ∃ record h₁, .ran p (.get (.session id)) (some record) :: h₁ <:+ h ∧
      row (committed h₁) (.session id) = some record ∧ Fresh record t := by
  subst hevs
  obtain ⟨pre, heq, hpre⟩ := exists_touched_eq p id' record.lastSeenAt now
    (.called p (.utcnow (.seen id')) now :: .ran p (.get (.session id')) (some record) :: evs')
  rw [heq] at ha hseen
  obtain ⟨h₂, hs₂, h₁, hs₁, -, -, hright, -⟩ := ha.of_append
  obtain ⟨rfl, rfl⟩ : id = id' ∧ t = now := by simpa [hpre, hcalled] using hseen
  refine ⟨record, h₁, hs₁.trans hs₂, ?_, hfresh⟩
  rw [← hevs']
  exact hright.symm

/-- What a process that accepts a session has read, and when. -/
theorem SessionDeed.fresh {r : SessionRequest} {evs : Hist} (hd : SessionDeed p r evs)
    (hseen : .called p (.utcnow (.seen id)) t ∈ evs) (ha : Answered h evs) :
    ∃ record h₁, .ran p (.get (.session id)) (some record) :: h₁ <:+ h ∧
      row (committed h₁) (.session id) = some record ∧ Fresh record t := by
  cases hd with
  | created | unknown | revokedBefore | revoked => simp at hseen
  | seen hfresh hevs => exact exists_read hfresh hevs (fun _ => rfl) hseen (by simp) ha
  | seenFor hfresh x hevs =>
    obtain ⟨h₁, hs, -, -, -, ha⟩ := ha
    obtain ⟨record, h₂, hs₂, hread⟩ := exists_read hfresh hevs (fun _ => rfl)
      (by simpa using hseen) (by simp) ha
    exact ⟨record, h₂, hs₂.trans ((List.suffix_cons ..).trans hs), hread⟩

end Rows

/-! ## The lifetime -/

/-- **Session lifetime.**  A check that accepts a session does so within the absolute timeout of
the session's creation and within the idle timeout of the `last_seen_at` it read, which the
creation or an accepted check has written, and it has read the row before any revoke
committed.  So no process that starts after a revoke has committed accepts the session. -/
theorem session_lifetime {s : ReadCommitted.Sys Row Answer Err (Option IdentitySession)
      SessionRequest} (hs : Reachable serveSessions s) {p : ℕ} {id : Uuid} {t : Time}
    (ha : Accepted s.hist p id t) :
    (∃ evs read h, evs ++ .ran p (.get (.session id)) (some read) :: h = s.hist ∧
      (∃ t₀, Opened h id t₀ ∧ t ≤ t₀ + absoluteTimeout) ∧
      t ≤ read.lastSeenAt + idleTimeout ∧
      (Opened h id read.lastSeenAt ∨ ∃ q, Accepted h q id read.lastSeenAt) ∧
      ¬ Revoked h id) ∧
    ∀ evs h, evs ++ h = s.hist → Revoked h id → ∃ ev ∈ h, ev.pid = p := by
  have hv := hs.faithful
  obtain ⟨q, w, h₀, hs₀, rfl, hcalled⟩ := Once.exists_commit ha
  have hc : Commits serveSessions h₀ q w := (hv.suffix hs₀).1
  obtain ⟨r, hd⟩ := hc.ran serveSessions_commits
  have hanswered := hc.answered
  rw [opened_eq, hd.openOf_eq] at hanswered
  obtain ⟨read, h, hsuf, hrow, hfresh⟩ := hd.fresh (mem_own.2 ⟨hcalled, rfl⟩) hanswered
  have hsuf : .ran q (.get (.session id)) (some read) :: h <:+ s.hist :=
    hsuf.trans ((List.suffix_cons ..).trans hs₀)
  have hvh := hv.suffix ((List.suffix_cons ..).trans hsuf)
  have hunrevoked : ¬ Revoked h id := fun hr => by
    obtain ⟨record, hrecord, hr⟩ := isRevoked_of_revoked hvh hr
    obtain rfl : read = record := by simpa [hrow] using hrecord
    simp [hfresh.unrevoked] at hr
  refine ⟨?_, fun evs h' heq hr => ?_⟩
  · obtain ⟨evs, heq⟩ := hsuf
    have hdated := Dated.of_valid hvh hrow
    obtain ⟨t₀, hopened, hexpires⟩ := hdated.expires
    exact ⟨evs, read, h, heq, ⟨t₀, hopened, hexpires ▸ hfresh.unexpired⟩, hfresh.active,
      hdated.lastSeen, hunrevoked⟩
  · rcases List.suffix_or_suffix_of_suffix hsuf ⟨evs, heq⟩ with hle | hle
    · exact ⟨_, hle.subset (List.mem_cons_self ..), rfl⟩
    · rcases List.suffix_cons_iff.1 hle with rfl | hle
      · exact ⟨_, List.mem_cons_self .., rfl⟩
      · exact absurd (hr.of_suffix hle) hunrevoked

/-! ## A sample run -/

section Sample

/-- Process `p` read `t` at a clock. -/
def isReading (p : ℕ) (c : Clock) (t : Time) : ReadCommitted.Event Row Answer → Bool
  | .called q (.utcnow c') t' => q = p ∧ c' = c ∧ t' = t
  | _ => false

theorem isReading_iff {p : ℕ} {c : Clock} {t : Time} {ev : ReadCommitted.Event Row Answer} :
    isReading p c t ev = true ↔ ev = .called p (.utcnow c) t := by
  cases ev with
  | called q e x =>
    cases e with
    | utcnow c' =>
      simp only [isReading, decide_eq_true_eq, Event.called.injEq, Call.utcnow.injEq]
      refine and_congr_right fun _ => ⟨?_, ?_⟩
      · rintro ⟨rfl, rfl⟩
        exact ⟨rfl, .rfl⟩
      · rintro ⟨rfl, hx⟩
        exact ⟨rfl, eq_of_heq hx⟩
    | _ => simp [isReading]
  | _ => simp [isReading]

instance (h : Hist) (p : ℕ) (id : Uuid) (t : Time) : Decidable (Accepted h p id t) :=
  @Once.decide _ _ _ _ _ (fun q _ h =>
    @instDecidableAnd _ _ _ (decidable_of_iff (h.any (isReading p (.seen id) t)) (by
      simp [isReading_iff]))) h

/-- Process `p` was asked to revoke a session that was committed by then. -/
def askedStored (p : ℕ) (id : Uuid) : Hist → Bool
  | [] => false
  | .called q (.authenticates (.revoke id')) _ :: h =>
    q = p && id' = id && (row (committed h) (.session id)).isSome || askedStored p id h
  | _ :: h => askedStored p id h

theorem revokes_of_askedStored {p : ℕ} {id : Uuid} {h : Hist} (H : askedStored p id h = true) :
    Revokes p id h := by
  refine .inl ?_
  fun_induction askedStored p id h with
  | case1 => cases H
  | case2 q id' x h ih =>
    rw [Bool.or_eq_true] at H
    rcases H with H | H
    · simp only [Bool.and_eq_true, decide_eq_true_eq] at H
      obtain ⟨⟨rfl, rfl⟩, hrow⟩ := H
      exact ⟨h, List.suffix_refl _, hrow⟩
    · obtain ⟨h₁, hs, hrow⟩ := ih H
      exact ⟨h₁, hs.trans (List.suffix_cons ..), hrow⟩
  | case3 ev h hev ih =>
    obtain ⟨h₁, hs, hrow⟩ := ih H
    exact ⟨h₁, hs.trans (List.suffix_cons ..), hrow⟩

theorem revoked_of_asked {id : Uuid} {h : Hist}
    (H : Once (fun p _ h => askedStored p id h = true) h) : Revoked h id := by
  induction h with
  | nil => cases H
  | cons ev h ih =>
    cases ev with
    | committed p w =>
      rcases H with H | H
      · exact .inl (revokes_of_askedStored H)
      · exact .inr (ih H)
    | ran | called | failed | rolledBack | crashed => exact ih H

/-- User 3 logs in, a request of theirs comes with the session and is accepted, the session is
revoked, and another request comes with it. -/
def revokedAfterwards : Option (Sys Row Answer Err (Option IdentitySession) SessionRequest) :=
  runAll serveSessions {}
    (.start (.create 3 .AAL2) :: Act.runs 0 sampleAnswer 100 5 ++
      .start (.resolve 102 none) :: Act.runs 1 sampleAnswer 105 5 ++
      .start (.revoke 102) :: Act.runs 2 sampleAnswer 110 5 ++
      .start (.resolve 102 none) :: Act.runs 3 sampleAnswer 115 4)

/-- The first was fresh: the session had been created six seconds before.  The second came after
the revoke and is never accepted. -/
theorem session_lifetime_sample : ∃ s t₀, revokedAfterwards = some s ∧ Opened s.hist 102 t₀ ∧
    Accepted s.hist 1 102 107 ∧ 107 ≤ t₀ + absoluteTimeout ∧ Revoked s.hist 102 ∧
    ∀ t, ¬ Accepted s.hist 3 102 t := by
  have hrun : (revokedAfterwards.any fun s => Accepted s.hist 1 102 107 &&
      Once (fun p _ h => askedStored p 102 h = true) (s.hist.drop 4) &&
      (s.hist.drop 4).all (·.pid ≠ 3)) = true := by decide +kernel
  obtain ⟨s, hst, hs⟩ := (Option.any_eq_true _ _).1 hrun
  simp only [Bool.and_eq_true, decide_eq_true_eq, List.all_eq_true] at hs
  obtain ⟨⟨ha, hr⟩, hpid⟩ := hs
  have hreach := Reachable.init.runAll hst
  obtain ⟨evs, read, h, heq, ⟨t₀, hopened, ht⟩, -⟩ := (session_lifetime hreach ha).1
  have hrevoked := revoked_of_asked hr
  refine ⟨s, t₀, hst, ?_, ha, ht, hrevoked.of_suffix (List.drop_suffix ..), fun t ha' => ?_⟩
  · exact hopened.of_suffix (heq ▸ (List.suffix_cons ..).trans (List.suffix_append ..))
  · have hsplit := List.take_append_drop 4 s.hist
    obtain ⟨ev, hev, heq⟩ := (session_lifetime hreach ha').2 _ _ hsplit hrevoked
    exact hpid ev hev heq

end Sample

end Doda
