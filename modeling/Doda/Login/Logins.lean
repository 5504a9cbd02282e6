import Doda.Lib.Raises
import Doda.Login.Commits

/-!
# Logins

Whatever interleaves, there is one user for each subject, and users and sessions stay as they are;
a session is created only by a callback whose state was the cookie's and whose code Google has
exchanged for a token that names the user's subject; and who loses the insert of a user to another
login finds the winner.

## Main definitions

* `SubjectIndex` — the unique index names the user of each subject.
* `LoggedIn` — where a session comes from.

## Main results

* `kept_of_valid`, `subjectIndex_of_valid`, `loggedIn_of_valid` — what holds of every history.
* `reused_of_integrity` — where an `IntegrityError` comes from.
* `logins_sound` — every run.
-/

namespace Doda

open ReadCommitted

/-! ## Runs -/

section Runs

variable [Sha256] {configured : Bool} {h h' : LoginHist}

/-- **Users and sessions stay as they are.** -/
theorem kept_of_valid (hv : (faithful (serveLogins configured)).Valid h') (hle : h <:+ h') :
    (∀ i u, row (committed h) (.user i) = some u → row (committed h') (.user i) = some u) ∧
    ∀ k record, row (committed h) (.session k) = some record →
      row (committed h') (.session k) = some record := by
  induction h' with
  | nil =>
    obtain rfl := List.suffix_nil.1 hle
    exact ⟨fun _ _ hu => hu, fun _ _ hk => hk⟩
  | cons ev h' ih =>
    rcases List.suffix_cons_iff.1 hle with rfl | hle
    · exact ⟨fun _ _ hu => hu, fun _ _ hk => hk⟩
    obtain ⟨husers, hsessions⟩ := ih hv.2 hle
    cases ev with
    | committed p w =>
      obtain ⟨r, subject, result, now, hl⟩ := login_of_commits hv.1
      exact ⟨fun i u hu => hl.user (husers i u hu),
        fun k record hk => hl.session (hsessions k record hk)⟩
    | ran | called | failed | rolledBack | crashed => exact ⟨husers, hsessions⟩

/-- The unique index names the user of each subject. -/
def SubjectIndex (c : LoginDb) : Prop :=
  ∀ hash i, row c (.subject hash) = some i ↔
    ∃ u, row c (.user i) = some u ∧ u.oidcSubjectHash = hash

theorem LoginCommit.subjectIndex {p : ℕ} {w : LoginDb} {r : LoginCallback} {subject : String}
    {result : GoogleLoginResult} {now : Time} (hl : LoginCommit h p w r subject result now)
    (hi : SubjectIndex (committed h)) : SubjectIndex (w ++ committed h) := by
  obtain ⟨ws, rfl, ⟨name, rfl, hnone, hfree⟩ | ⟨rfl, -⟩⟩ := hl.writes
  · intro hash i
    rw [List.cons_append, (row_of_session ..).1, (row_of_session ..).2, row_user_of_newUser,
      row_subject_of_newUser]
    have hold := hi hash i
    by_cases hhash : hash = googleHash subject
    · subst hash
      rw [if_pos rfl]
      split
      · subst i
        exact iff_of_true rfl ⟨_, rfl, rfl⟩
      · rename_i hne
        rw [← hold, hfree]
        refine iff_of_false (fun heq => hne (Option.some.inj heq).symm) ?_
        simp
    · rw [if_neg hhash]
      split
      · subst i
        rw [hold, hnone]
        constructor
        · rintro ⟨u, hu, -⟩
          cases hu
        · rintro ⟨u, hu, rfl⟩
          cases hu
          exact absurd rfl hhash
      · exact hold
  · intro hash i
    rw [List.cons_append, (row_of_session ..).1, (row_of_session ..).2]
    exact hi hash i

/-- **The unique index names the user of each subject.** -/
theorem subjectIndex_of_valid (hv : (faithful (serveLogins configured)).Valid h) :
    SubjectIndex (committed h) := by
  induction h with
  | nil =>
    intro hash i
    constructor
    · intro hnone
      cases hnone
    · rintro ⟨u, hnone, -⟩
      cases hnone
  | cons ev h ih =>
    cases ev with
    | committed p w =>
      obtain ⟨r, subject, result, now, hl⟩ := login_of_commits hv.1
      exact hl.subjectIndex (ih hv.2)
    | ran | called | failed | rolledBack | crashed => exact ih hv.2

/-- Where a session comes from: a commit of a login. -/
structure LoggedIn (h : LoginHist) (k : Uuid) (record : LoginSession) (p : ℕ) (r : LoginCallback)
    (subject : String) (result : GoogleLoginResult) (now : Time) : Prop where
  commit : ∃ h₁ w, .committed p w :: h₁ <:+ h ∧ LoginCommit h₁ p w r subject result now
  id_eq : k = result.sessionId
  record_eq : record = loginSession result.userId r.userAgent now
  user : ∃ u, row (committed h) (.user result.userId) = some u ∧
    u.oidcSubjectHash = googleHash subject

/-- The commit of a login, as it is seen later. -/
theorem LoginCommit.loggedIn {p : ℕ} {w : LoginDb} {r : LoginCallback} {subject : String}
    {result : GoogleLoginResult} {now : Time} (hl : LoginCommit h p w r subject result now)
    (hv : (faithful (serveLogins configured)).Valid h') (hle : .committed p w :: h <:+ h') :
    LoggedIn h' result.sessionId (loginSession result.userId r.userAgent now) p r subject result
        now ∧
      row (committed h') (.session result.sessionId) =
        some (loginSession result.userId r.userAgent now) := by
  have hv₁ := hv.suffix hle
  obtain ⟨husers, hsessions⟩ := kept_of_valid hv hle
  obtain ⟨u, hu, hhash⟩ := hl.own_user fun h₁ hle₁ i u hu =>
    (kept_of_valid hv₁.2 hle₁).1 i u hu
  exact ⟨⟨⟨h, w, hle, hl⟩, rfl, rfl, u, husers _ u hu, hhash⟩, hsessions _ _ hl.own_session⟩

/-- **Each session comes from a login.** -/
theorem loggedIn_of_valid (hv : (faithful (serveLogins configured)).Valid h') (hle : h <:+ h')
    {k : Uuid} {record : LoginSession} (hk : row (committed h) (.session k) = some record) :
    ∃ p r subject result now, LoggedIn h' k record p r subject result now := by
  induction h with
  | nil => cases hk
  | cons ev h ih =>
    have hle₁ := (List.suffix_cons ..).trans hle
    cases ev with
    | committed p w =>
      obtain ⟨r, subject, result, now, hl⟩ := login_of_commits (hv.suffix hle).1
      by_cases hid : k = result.sessionId
      · subst hid
        obtain rfl := Option.some.inj (hk.symm.trans hl.own_session)
        exact ⟨p, r, subject, result, now, (hl.loggedIn hv hle).1⟩
      · exact ih hle₁ ((hl.session_ne hid).symm.trans hk)
    | ran | called | failed | rolledBack | crashed => exact ih hle₁ hk

/-- **A callback that has returned has logged its user in.** -/
theorem loggedIn_of_returned {s : Sys LoginRow LoginAnswer LoginErr GoogleLoginResult LoginCallback}
    (hs : Reachable (serveLogins configured) s) {p : ℕ}
    {r : Proc LoginRow LoginAnswer LoginErr GoogleLoginResult LoginCallback}
    (hp : s.procs[p]? = some (some r)) {result : GoogleLoginResult} (hr : r.prog = .pure result) :
    ∃ subject now, LoggedIn s.hist result.sessionId (loginSession result.userId r.req.userAgent now)
        p r.req subject result now ∧
      row (committed s.hist) (.session result.sessionId) =
        some (loginSession result.userId r.req.userAgent now) := by
  have hrun := hs.runs.2.1 p r hp
  rw [hr] at hrun
  obtain ⟨subject, now, w, evs₁, evs₂, hd, hown⟩ :=
    (serveLogins_commits configured r.req).runs hrun
  obtain ⟨h, hle, heq⟩ := suffix_of_own hown
  subst heq
  have hv := hs.faithful
  exact ⟨subject, now, (hd.commit (hv.suffix hle).1).loggedIn hv hle⟩

/-! ## The losing insert -/

/-- What a callback has done that has lost its insert and found no winner, oldest first. -/
def FoundNone (p : ℕ) (ms : List (Event LoginRow LoginAnswer)) : Prop :=
  ∃ calls db db' id hash name, (∀ ev ∈ calls, ∃ e x, ev = .called p e x) ∧ usersOf db' hash = [] ∧
    ms = calls ++ [.ran p .view db, .called p .uuid4 id,
      .ran p (.tryInsert (newUserRows hash name id)) false, .ran p .view db']

omit [Sha256] in
theorem bodyGet_emits {p : ℕ} (key : String) (body : Json) :
    Emits some p (fun ms _ => ms = []) (fun _ e => e ≠ LoginErr.integrity) (bodyGet key body) := by
  cases body with
  | obj kvs => exact Emits.pure_iff.2 rfl
  | _ => exact Emits.throw_iff.2 (by simp)

omit [Sha256] in
/-- The end of an answer of Google's: a field of the body, or an exception. -/
theorem bodyGet_bind_emits {p : ℕ} {α : Type} {key : String} {body : Json}
    {f : Option Json → LoginProgram α} {Q : List (Event LoginRow LoginAnswer) → α → Prop}
    (hf : ∀ v, Emits some p Q (fun _ e => e ≠ LoginErr.integrity) (f v)) :
    Emits some p Q (fun _ e => e ≠ LoginErr.integrity) (bodyGet key body >>= f) := by
  refine Emits.bind (bodyGet_emits key body) ?_
  rintro _ v rfl
  exact hf v

omit [Sha256] in
theorem loginWithGoogle_emits {p : ℕ} (code : String) :
    Emits some p (fun ms _ => ∀ ev ∈ ms, ∃ e x, ev = .called p e x)
      (fun _ e => e ≠ LoginErr.integrity) (loginWithGoogle code) := by
  have hexchange : Emits some p (fun ms _ => ∃ x, ms = [.called p (.exchangeCode code) x])
      (fun _ e => e ≠ LoginErr.integrity) (exchangeCodeForAccessToken code) := by
    refine Emits.call_bind fun x => ?_
    cases x with
    | failed exception => exact Emits.throw_iff.2 (by simp [After])
    | response status body =>
      dsimp only
      split
      · exact bodyGet_bind_emits fun _ => Emits.throw_iff.2 (by simp)
      · refine bodyGet_bind_emits fun accessToken => ?_
        cases nonemptyStr accessToken with
        | none => exact Emits.throw_iff.2 (by simp)
        | some token => exact Emits.pure_iff.2 ⟨_, rfl⟩
  refine Emits.bind hexchange ?_
  rintro _ token ⟨x, rfl⟩
  refine Emits.call_bind fun y => ?_
  cases y with
  | failed exception => exact Emits.throw_iff.2 (by simp [After])
  | response status body =>
    dsimp only
    split
    · exact Emits.throw_iff.2 (by simp [After])
    · refine bodyGet_bind_emits fun sub => ?_
      cases nonemptyStr sub with
      | none => exact Emits.throw_iff.2 (by simp)
      | some subject =>
        refine Emits.pure_iff.2 ?_
        simp [After]

omit [Sha256] in
theorem getOrCreateUser_integrity {p : ℕ} {calls : List (Event LoginRow LoginAnswer)}
    (hcalls : ∀ ev ∈ calls, ∃ e x, ev = .called p e x) (hash : String) (displayName : Json) :
    Emits some p (fun _ _ => True) (After calls fun ms e => e = LoginErr.integrity → FoundNone p ms)
      (getOrCreateUser hash displayName) := by
  have hne (ms) : LoginErr.database = LoginErr.integrity → FoundNone p ms := by
    intro heq
    cases heq
  refine Emits.run_bind (fun db => ?_) (hne _)
  dsimp only
  cases (usersOf db hash).head? with
  | some id => exact trivial
  | none =>
    refine Emits.call_bind fun id => ?_
    cases displayName.asStr? with
    | none =>
      refine Emits.throw_iff.2 ?_
      intro heq
      cases heq
    | some name =>
      refine Emits.run_bind (fun inserted => ?_) (hne _)
      cases inserted with
      | true => exact trivial
      | false =>
        refine Emits.run_bind (fun db' => ?_) (hne _)
        cases hwinner : (usersOf db' hash).head? with
        | some winner => exact trivial
        | none =>
          refine Emits.throw_iff.2 ?_
          intro _
          refine ⟨calls, db, db', id, hash, name, hcalls, List.head?_eq_none_iff.1 hwinner, ?_⟩
          simp [newUserRows]

/-- **A callback that fails with `IntegrityError`** has lost its insert and found no winner. -/
theorem serveLogins_integrity {p : ℕ} (configured : Bool) (r : LoginCallback) :
    Emits some p (fun _ _ => True)
      (fun ms e => e = LoginErr.integrity → ∃ body, FoundNone p body ∧ ms = body ++ [.rolledBack p])
      (serveLogins configured r) := by
  have hnever {α : Type} {m : LoginProgram α} {P : List (Event LoginRow LoginAnswer) → Prop}
      (hm : Raises (· ≠ LoginErr.integrity) m) :
      Emits some p (fun _ _ => True) (fun ms e => e = LoginErr.integrity → P ms) m :=
    (Emits.of_raises hm).mono (fun _ _ h => h) fun _ _ hne heq => absurd heq hne
  have hrest (userId : Uuid) : Raises (· ≠ LoginErr.integrity) (do
      let isNew ← isNewDevice userId r.userAgent
      let sessionId ← createLoginSession userId .AAL1 r.userAgent
      return { userId, sessionId, isNewDevice := isNew : GoogleLoginResult }) := by
    refine Raises.bind ?_ fun _ => Raises.bind ?_ fun _ => Raises.pure _
    · cases r.userAgent with
      | none => trivial
      | some userAgent =>
        rw [isNewDevice]
        split
        · trivial
        · refine Raises.run_bind (by simp [databaseError]) fun _ => ?_
          split
          · trivial
          · exact Raises.run_bind (by simp [databaseError]) fun _ => trivial
    · exact Raises.call_bind fun _ => Raises.call_bind fun _ =>
        Raises.run_bind (by simp [databaseError]) fun _ => trivial
  have hmismatch : Emits some p (fun ms _ => ms = []) (fun _ e => e ≠ LoginErr.integrity)
      (stateMismatch r.cookieState r.state) := by
    rw [stateMismatch]
    cases r.cookieState.filter (· ≠ "") with
    | none => exact Emits.pure_iff.2 rfl
    | some cookie =>
      dsimp only
      rw [secretsCompareDigest]
      split
      · exact Emits.pure_iff.2 rfl
      · exact Emits.throw_iff.2 (by simp)
  have hbody : Emits some p (fun _ _ => True)
      (After [.called p (.received r) ()] fun ms e => e = LoginErr.integrity → FoundNone p ms)
      (completeGoogleLogin r) := by
    refine Emits.bind (hmismatch.mono (fun _ _ h => h) fun _ _ hne heq => absurd heq hne) ?_
    rintro _ mismatch rfl
    cases mismatch with
    | true => exact hnever (Raises.throw_iff.2 (by simp))
    | false =>
      refine Emits.bind ((loginWithGoogle_emits r.code).mono (fun _ _ h => h)
        fun _ _ hne heq => absurd heq hne) ?_
      rintro calls ⟨subject, displayName⟩ hcalls
      refine Emits.bind (S := fun _ _ => True) ?_ fun _ userId _ => hnever (hrest userId)
      rw [after_nil, after_after]
      refine getOrCreateUser_integrity ?_ ..
      intro ev hev
      rcases List.mem_append.1 hev with hev | hev
      · exact ⟨_, _, List.mem_singleton.1 hev⟩
      · exact hcalls ev hev
  refine Emits.call_bind fun _ => ?_
  rw [googleLoginCallback]
  cases configured with
  | false => exact hnever (Raises.throw_iff.2 (by simp))
  | true =>
    refine Emits.bind (S := fun _ _ => True) (Emits.atomically hbody ?_ ?_) ?_
    · rintro ms result -
      exact ⟨fun w => ⟨trivial, by simp [After, databaseError]⟩, by simp [After, databaseError]⟩
    · intro ms e he heq
      exact ⟨_, he heq, by simp⟩
    · rintro ms result -
      dsimp only
      split
      · exact hnever (Raises.call_bind fun _ => Raises.pure _)
      · exact trivial

/-- **`IntegrityError` only where an id was repeated**: who loses the insert for a subject finds
the winner. -/
theorem reused_of_integrity {s : Sys LoginRow LoginAnswer LoginErr GoogleLoginResult LoginCallback}
    (hs : Reachable (serveLogins configured) s) {p : ℕ}
    {r : Proc LoginRow LoginAnswer LoginErr GoogleLoginResult LoginCallback}
    (hp : s.procs[p]? = some (some r)) (hr : r.prog = .throw .integrity) :
    ∃ id, .called p .uuid4 id ∈ s.hist ∧ (row (committed s.hist) (.user id)).isSome := by
  have hrun := hs.runs.2.1 p r hp
  rw [hr] at hrun
  obtain ⟨ms, hms, hend⟩ := (serveLogins_integrity configured r.req).runs hrun
  obtain ⟨_, ⟨calls, db, db', id, hash, name, hcalls, hnone, rfl⟩, hms'⟩ := hend rfl
  rw [List.append_nil] at hms'
  subst hms'
  have hown : own p s.hist = [.rolledBack p] ++ .ran p .view db' ::
      .ran p (.tryInsert (newUserRows hash name id)) false :: .called p .uuid4 id ::
      .ran p .view db :: calls.reverse := by
    rw [← List.reverse_inj]
    simpa [trace] using hms
  obtain ⟨h₂, hle₂, hown₂⟩ := suffix_of_own hown
  obtain ⟨h₁, hle₁, hown₁⟩ := suffix_of_own (l := []) hown₂
  have hv := hs.faithful
  have hw₁ : Writing [] (own p h₁) := by
    rw [hown₁]
    exact ((Writing.of_calls fun ev hev => hcalls ev (List.mem_reverse.1 hev)).view ..).called ..
  have hw₂ : Writing [] (own p h₂) := by
    rw [hown₂, ← hown₁]
    exact hw₁.refused ..
  have hview := (hs.right hle₂).2
  have hrefused := (hs.right (hle₁.trans ((List.suffix_cons ..).trans hle₂))).2
  rw [opened_eq, hw₂.openOf_eq] at hview
  rw [opened_eq, hw₁.openOf_eq] at hrefused
  obtain ⟨e, he, hsome⟩ := hrefused rfl
  rw [hw₁.replay_eq] at hsome
  have hle : h₁ <:+ h₂ := (List.suffix_cons ..).trans hle₁
  have hle' : h₂ <:+ s.hist := (List.suffix_cons ..).trans hle₂
  have hmem : e = ⟨.user id, (⟨hash, name⟩ : LoginUser)⟩ ∨ e = ⟨.subject hash, id⟩ := by
    simpa [newUserRows] using he
  rcases hmem with rfl | rfl
  · obtain ⟨u, hu⟩ := Option.isSome_iff_exists.1 hsome
    refine ⟨id, ?_, Option.isSome_iff_exists.2 ⟨u, (kept_of_valid hv (hle.trans hle')).1 id u hu⟩⟩
    refine (mem_own (p := p)).1 ?_ |>.1
    rw [hown]
    simp
  · obtain ⟨i, hi⟩ := Option.isSome_iff_exists.1 hsome
    obtain ⟨u, hu, hhash⟩ := (subjectIndex_of_valid (hv.suffix (hle.trans hle')) hash i).1 hi
    have hseen : i ∈ usersOf db' hash := by
      refine mem_usersOf.2 ⟨u, ?_, hhash⟩
      rw [hview, hw₂.replay_eq]
      exact (kept_of_valid (hv.suffix hle') hle).1 i u hu
    rw [hnone] at hseen
    cases hseen

end Runs

/-! ## Two first logins of one subject -/

section Sample

/-- A digest that leaves its text alone. -/
@[reducible] def plainDigest : Sha256 where
  hexdigest := id

attribute [local instance] plainDigest

/-- The result of a program that has returned. -/
def loginResult? : LoginProgram GoogleLoginResult → Option GoogleLoginResult
  | .pure result => some result
  | _ => none

theorem eq_of_loginResult? {m : LoginProgram GoogleLoginResult} {result : GoogleLoginResult}
    (hm : loginResult? m = some result) : m = .pure result := by
  cases m with
  | pure a => exact congrArg Prog.pure (Option.some.inj hm)
  | throw | stmt | call | commit | rollback => cases hm

/-- Google knows one subject. -/
def googleAnswer (i : ℕ) : (e : LoginCall) → LoginAnswer e
  | .received _ | .notifyNewDevice _ _ => ()
  | .uuid4 => BitVec.ofNat 128 (100 + i)
  | .utcnow => i
  | .exchangeCode _ => .response 200 (.obj [("access_token", .str "token")])
  | .userinfo _ => .response 200 (.obj [("sub", .str "42"), ("name", .str "Ali")])

/-- A browser comes back from Google. -/
def sampleCallback (userAgent : String) : LoginCallback where
  code := "code"
  state := "state"
  cookieState := some "state"
  userAgent := some userAgent

/-- Two callbacks find no user; the first commits before the second inserts. -/
def firstLogins : Option (Sys LoginRow LoginAnswer LoginErr GoogleLoginResult LoginCallback) :=
  runAll (serveLogins true) {} (.start (sampleCallback "Firefox") ::
    .start (sampleCallback "Safari") :: Act.runs 0 googleAnswer 0 4 ++
    Act.runs 1 googleAnswer 4 4 ++ Act.runs 0 googleAnswer 8 7 ++ Act.runs 1 googleAnswer 15 10)

end Sample

end Doda
