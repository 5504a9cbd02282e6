import Doda.Lib.Locks
import Doda.Lib.Commits
import Doda.Login.Google

/-!
# What a callback has done when it commits

The events of a callback that commits tell its story: the state was the cookie's, Google has
exchanged the code and named the subject, the subject's user was found or created, the device was
looked up and the session inserted.  What each lookup saw was committed before.

## Main definitions

* `LoginDeed` — the events of a callback that commits.
* `NewDevice` — the verdict on a device, from what was committed when it was looked up.
* `LoginCommit` — what is known of such a commit.

## Main results

* `serveLogins_commits` — the text of the callback.
* `login_of_commits` — each commit is a login.
-/

namespace Doda

open ReadCommitted

/-! ## What a callback has done when it commits -/

/-- Google has exchanged the code for a token, and named the subject that the token is for. -/
def GoogleNamed (p : ℕ) (code subject : String) (displayName : Json) (evs evs' : LoginHist) :
    Prop :=
  ∃ token status body status' body', isSuccessStatus status = true ∧
    nonemptyStr (body.get? "access_token") = some token ∧ isSuccessStatus status' = true ∧
    nonemptyStr (body'.get? "sub") = some subject ∧ displayName = displayNameOf body' ∧
    evs' = .called p (.userinfo token) (.response status' body') ::
      .called p (.exchangeCode code) (.response status body) :: evs

/-- The rows of a new user. -/
def newUserRows (oidcSubjectHash displayName : String) (id : Uuid) : List (Entry LoginRow) :=
  [⟨.user id, { oidcSubjectHash, displayName }⟩, ⟨.subject oidcSubjectHash, id⟩]

/-- The versions of a new user. -/
def newUser (hash name : String) (id : Uuid) : LoginDb :=
  [⟨.subject hash, some id⟩, ⟨.user id, some ⟨hash, name⟩⟩]

/-- The user of a subject was there, was created, or was created by another login meanwhile. -/
inductive UserFound (p : ℕ) (hash : String) (displayName : Json) :
    Uuid → LoginHist → LoginHist → Prop
  | existing {db : LoginDb} {id : Uuid} {evs : LoginHist} (h : id ∈ usersOf db hash) :
    UserFound p hash displayName id evs (.ran p .view db :: evs)
  | created {db : LoginDb} {id : Uuid} {name : String} {evs : LoginHist}
      (hname : displayName.asStr? = some name) :
    UserFound p hash displayName id evs (.ran p (.tryInsert (newUserRows hash name id)) true ::
      .called p .uuid4 id :: .ran p .view db :: evs)
  | raced {db db' : LoginDb} {id new : Uuid} {name : String} {evs : LoginHist}
      (h : id ∈ usersOf db' hash) :
    UserFound p hash displayName id evs (.ran p .view db' ::
      .ran p (.tryInsert (newUserRows hash name new)) false :: .called p .uuid4 new ::
      .ran p .view db :: evs)

/-- Whether the agent is new to the user was looked up. -/
inductive DeviceChecked (p : ℕ) (userId : Uuid) :
    Option String → Bool → LoginHist → LoginHist → Prop
  | unasked {userAgent : Option String} {evs : LoginHist}
      (h : userAgent.filter (· ≠ "") = none) : DeviceChecked p userId userAgent false evs evs
  | unknown {userAgent : String} {db : LoginDb} {evs : LoginHist} (hne : userAgent ≠ "")
      (h : sessionsOf db userId Option.isSome = []) :
    DeviceChecked p userId (some userAgent) false evs (.ran p .view db :: evs)
  | known {userAgent : String} {db db' : LoginDb} {evs : LoginHist} (hne : userAgent ≠ "")
      (h : sessionsOf db userId Option.isSome ≠ []) :
    DeviceChecked p userId (some userAgent)
      (sessionsOf db' userId fun a => a = some userAgent).isEmpty evs
      (.ran p .view db' :: .ran p .view db :: evs)

/-- The session that a login creates. -/
def loginSession (userId : Uuid) (userAgent : Option String) (now : Time) : LoginSession where
  userId := userId
  authStrength := .AAL1
  lastSeenAt := now
  expiresAt := now + sessionTimeout
  userAgent := userAgent

/-- The events of a callback that commits, newest first. -/
structure LoginDeed [Sha256] (p : ℕ) (r : LoginCallback) (subject : String)
    (result : GoogleLoginResult) (now : Time) (evs : LoginHist) : Prop where
  cookie : r.cookieState = some r.state ∧ r.state ≠ ""
  events : ∃ displayName evs₁ evs₂ evs₃,
    GoogleNamed p r.code subject displayName [.called p (.received r) ()] evs₁ ∧
    UserFound p (hashOidcSubject oidcProvider subject) displayName result.userId evs₁ evs₂ ∧
    DeviceChecked p result.userId r.userAgent result.isNewDevice evs₂ evs₃ ∧
    evs = .ran p (.insert [⟨.session result.sessionId,
        loginSession result.userId r.userAgent now⟩]) () ::
      .called p .uuid4 result.sessionId :: .called p .utcnow now :: evs₃

section Deeds

variable {p : ℕ} {evs : LoginHist}

theorem secretsCompareDigest_inside (a b : String) :
    Inside p (fun same evs' => evs' = evs ∧ (same = true → a = b)) (secretsCompareDigest a b)
      evs := by
  rw [secretsCompareDigest]
  split
  · exact ⟨rfl, of_decide_eq_true⟩
  · trivial

theorem stateMismatch_inside (cookieState : Option String) (state : String) :
    Inside p (fun mismatch evs' => evs' = evs ∧
        (mismatch = false → cookieState = some state ∧ state ≠ ""))
      (stateMismatch cookieState state) evs := by
  rw [stateMismatch]
  cases hfilter : cookieState.filter (· ≠ "") with
  | none => exact ⟨rfl, by simp⟩
  | some cookie =>
    obtain ⟨rfl, hne⟩ := Option.filter_eq_some_iff.1 hfilter
    refine Inside.bind (secretsCompareDigest_inside cookie state) ?_
    rintro same evs' ⟨hevs, hsame⟩
    refine ⟨hevs, fun hmismatch => ?_⟩
    obtain rfl := hsame (by simpa using hmismatch)
    exact ⟨rfl, of_decide_eq_true hne⟩

theorem bodyGet_inside (key : String) (body : Json) :
    Inside p (fun v evs' => evs' = evs ∧ v = body.get? key) (bodyGet key body) evs := by
  cases body with
  | obj kvs => exact ⟨rfl, rfl⟩
  | _ => trivial

theorem loginWithGoogle_inside (code : String) :
    Inside p (fun named evs' => GoogleNamed p code named.1 named.2 evs evs')
      (loginWithGoogle code) evs := by
  have hexchange : Inside p (fun token evs' => ∃ status body, isSuccessStatus status = true ∧
      nonemptyStr (body.get? "access_token") = some token ∧
      evs' = .called p (.exchangeCode code) (.response status body) :: evs)
      (exchangeCodeForAccessToken code) evs := by
    refine Inside.call_bind fun x => ?_
    cases x with
    | failed => trivial
    | response status body =>
      dsimp only
      split
      · exact Inside.bind (bodyGet_inside ..) fun _ _ _ => trivial
      · rename_i hstatus
        refine Inside.bind (bodyGet_inside ..) ?_
        rintro _ evs' ⟨rfl, rfl⟩
        cases htoken : nonemptyStr (body.get? "access_token") with
        | none => trivial
        | some token => exact ⟨status, body, by simpa using hstatus, htoken, rfl⟩
  refine Inside.bind hexchange ?_
  rintro token evs' ⟨status, body, hstatus, htoken, rfl⟩
  refine Inside.call_bind fun x => ?_
  cases x with
  | failed => trivial
  | response status' body' =>
    dsimp only
    split
    · trivial
    · rename_i hstatus'
      refine Inside.bind (bodyGet_inside ..) ?_
      rintro _ evs'' ⟨rfl, rfl⟩
      cases hsub : nonemptyStr (body'.get? "sub") with
      | none => trivial
      | some subject =>
        exact ⟨token, status, body, status', body', hstatus, htoken, by simpa using hstatus', hsub,
          rfl, rfl⟩

theorem findUser_inside (hash : String) :
    Inside p (fun found evs' => ∃ db, evs' = .ran p .view db :: evs ∧
      found = (usersOf db hash).head?) (findUser hash) evs :=
  Inside.run_bind fun db => ⟨db, rfl, rfl⟩

theorem getOrCreateUser_inside (hash : String) (displayName : Json) :
    Inside p (fun id evs' => UserFound p hash displayName id evs evs')
      (getOrCreateUser hash displayName) evs := by
  refine Inside.bind (findUser_inside hash) ?_
  rintro found _ ⟨db, rfl, rfl⟩
  cases hfound : (usersOf db hash).head? with
  | some id => exact .existing (List.mem_of_head? hfound)
  | none =>
    refine Inside.call_bind fun id => ?_
    cases hname : displayName.asStr? with
    | none => trivial
    | some name =>
      refine Inside.run_bind fun inserted => ?_
      cases inserted with
      | true => exact .created hname
      | false =>
        refine Inside.bind (findUser_inside hash) ?_
        rintro winner _ ⟨db', rfl, rfl⟩
        cases hwinner : (usersOf db' hash).head? with
        | some winner => exact .raced (List.mem_of_head? hwinner)
        | none => trivial

theorem isNewDevice_inside (userId : Uuid) (userAgent : Option String) :
    Inside p (fun isNew evs' => DeviceChecked p userId userAgent isNew evs evs')
      (isNewDevice userId userAgent) evs := by
  cases userAgent with
  | none => exact .unasked rfl
  | some userAgent =>
    rw [isNewDevice]
    split
    · rename_i hempty
      exact .unasked (by simp [hempty])
    · rename_i hne
      refine Inside.run_bind fun db => ?_
      split
      · rename_i hnone
        exact .unknown hne (List.isEmpty_iff.1 hnone)
      · rename_i hsome
        exact Inside.run_bind fun db' => .known hne fun hnil => hsome (List.isEmpty_iff.2 hnil)

variable [Sha256]

theorem completeGoogleLogin_inside (r : LoginCallback) :
    Inside p (fun result evs => ∃ subject now, LoginDeed p r subject result now evs)
      (completeGoogleLogin r) [.called p (.received r) ()] := by
  refine Inside.bind (stateMismatch_inside ..) ?_
  rintro mismatch _ ⟨rfl, hcookie⟩
  cases mismatch with
  | true => trivial
  | false =>
    refine Inside.bind (loginWithGoogle_inside r.code) ?_
    rintro ⟨subject, displayName⟩ evs₁ hnamed
    refine Inside.bind (getOrCreateUser_inside ..) fun userId evs₂ hfound => ?_
    refine Inside.bind (isNewDevice_inside ..) fun isNew evs₃ hchecked => ?_
    refine Inside.call_bind fun now => Inside.call_bind fun sessionId => Inside.run_bind fun _ => ?_
    exact ⟨subject, now, hcookie rfl, displayName, evs₁, evs₂, evs₃, hnamed, hfound, hchecked, rfl⟩

/-- **What a callback has done when it commits, and when it returns.** -/
theorem serveLogins_commits (configured : Bool) (r : LoginCallback) :
    AtCommits p (fun evs => ∃ subject result now, LoginDeed p r subject result now evs)
      (fun result evs => ∃ subject now w evs₁ evs₂,
        LoginDeed p r subject result now evs₁ ∧ evs = evs₂ ++ .committed p w :: evs₁)
      (serveLogins configured r) [] := by
  refine AtCommits.call_bind fun _ => ?_
  rw [googleLoginCallback]
  cases configured with
  | false => trivial
  | true =>
    refine (AtCommits.atomically_of (P := fun result evs => ∃ subject now w evs₁,
        LoginDeed p r subject result now evs₁ ∧ evs = .committed p w :: evs₁)
      (completeGoogleLogin_inside r) ?_ ?_).bind ?_
    · rintro result evs ⟨subject, now, hd⟩
      exact ⟨subject, result, now, hd⟩
    · rintro result w evs ⟨subject, now, hd⟩
      exact ⟨subject, now, w, evs, hd, rfl⟩
    · rintro result _ ⟨subject, now, w, evs₁, hd, rfl⟩
      dsimp only
      split
      · exact AtCommits.call_bind fun _ => ⟨subject, now, w, evs₁, [_], hd, rfl⟩
      · exact ⟨subject, now, w, evs₁, [], hd, rfl⟩

end Deeds

/-! ## The events of a callback -/

section Events

variable {p : ℕ} {h : LoginHist} {hash : String} {displayName : Json} {id userId : Uuid}
  {evs evs' : LoginHist} {c : LoginDb}

/-- The events end no transaction, and write `ws`. -/
structure Writing (ws : LoginDb) (evs : LoginHist) : Prop where
  openOf_eq : openOf evs = evs
  replay_eq : ∀ (c : LoginDb) k, replay c evs k = row (ws ++ c) k
  written_eq : ∀ c : LoginDb, written c evs = ws

variable {ws : LoginDb}

theorem Writing.received (p : ℕ) (r : LoginCallback) : Writing [] [.called p (.received r) ()] :=
  ⟨rfl, fun _ _ => rfl, fun _ => rfl⟩

theorem Writing.called (hw : Writing ws evs) (p : ℕ) (e : LoginCall) (x : LoginAnswer e) :
    Writing ws (.called p e x :: evs) :=
  ⟨congrArg (List.cons _) hw.openOf_eq, hw.replay_eq, hw.written_eq⟩

theorem Writing.view (hw : Writing ws evs) (p : ℕ) (db : LoginDb) :
    Writing ws (.ran p .view db :: evs) :=
  ⟨congrArg (List.cons _) hw.openOf_eq, hw.replay_eq, hw.written_eq⟩

theorem Writing.refused (hw : Writing ws evs) (p : ℕ) (rows : List (Entry LoginRow)) :
    Writing ws (.ran p (.tryInsert rows) false :: evs) :=
  ⟨congrArg (List.cons _) hw.openOf_eq, hw.replay_eq, hw.written_eq⟩

theorem Writing.newUser (hw : Writing [] evs) (p : ℕ) (hash name : String) (id : Uuid) :
    Writing (newUser hash name id)
      (.ran p (.tryInsert (newUserRows hash name id)) true :: evs) := by
  refine ⟨congrArg (List.cons _) hw.openOf_eq, fun c k => ?_, fun c => ?_⟩
  · rw [replay, hw.replay_eq]
    exact row_append_congr _ (row_cons_self k (row c k) [])
  · rw [written, hw.written_eq]
    rfl

theorem Writing.newSession (hw : Writing ws evs) (p : ℕ) (k : Uuid) (record : LoginSession) :
    openOf (.ran p (.insert [⟨.session k, record⟩]) () :: evs : LoginHist) =
        .ran p (.insert [⟨.session k, record⟩]) () :: evs ∧
      ∀ c : LoginDb, written c (.ran p (.insert [⟨.session k, record⟩]) () :: evs) =
        ⟨.session k, some record⟩ :: ws := by
  refine ⟨congrArg (List.cons _) hw.openOf_eq, fun c => ?_⟩
  rw [written, hw.written_eq]
  rfl

theorem Writing.of_calls (H : ∀ ev ∈ evs, ∃ e x, ev = .called p e x) : Writing [] evs := by
  induction evs with
  | nil => exact ⟨rfl, fun _ _ => rfl, fun _ => rfl⟩
  | cons ev evs ih =>
    obtain ⟨e, x, rfl⟩ := H ev List.mem_cons_self
    exact (ih fun ev hev => H ev (List.mem_cons_of_mem _ hev)).called p e x

theorem GoogleNamed.writing {code subject : String} (hw : Writing ws evs)
    (hn : GoogleNamed p code subject displayName evs evs') : Writing ws evs' := by
  obtain ⟨token, status, body, status', body', -, -, -, -, -, rfl⟩ := hn
  exact (hw.called ..).called ..

theorem UserFound.writing (hw : Writing [] evs) (hu : UserFound p hash displayName id evs evs') :
    ∃ ws, (ws = [] ∨ ∃ name, ws = Doda.newUser hash name id) ∧ Writing ws evs' := by
  cases hu with
  | existing => exact ⟨[], .inl rfl, hw.view ..⟩
  | created => exact ⟨_, .inr ⟨_, rfl⟩, ((hw.view ..).called ..).newUser ..⟩
  | raced => exact ⟨[], .inl rfl, (((hw.view ..).called ..).refused ..).view ..⟩

theorem DeviceChecked.writing {userAgent : Option String} {isNew : Bool} (hw : Writing ws evs)
    (hd : DeviceChecked p userId userAgent isNew evs evs') : Writing ws evs' := by
  cases hd with
  | unasked => exact hw
  | unknown => exact hw.view ..
  | known => exact (hw.view ..).view ..

/-! ## What the lookups have seen -/

theorem mem_usersOf {db : LoginDb} : id ∈ usersOf db hash ↔
    ∃ u, row db (.user id) = some u ∧ u.oidcSubjectHash = hash := by
  rw [usersOf, mem_collect]
  constructor
  · rintro ⟨k, u, hu, hk⟩
    cases k with
    | user i =>
      dsimp only at hk
      split at hk
      · cases hk
        exact ⟨u, hu, ‹_›⟩
      · cases hk
    | _ => cases hk
  · rintro ⟨u, hu, hhash⟩
    exact ⟨_, u, hu, if_pos hhash⟩

theorem mem_sessionsOf {db : LoginDb} {which : Option String → Bool} {k : Uuid} :
    k ∈ sessionsOf db userId which ↔ ∃ record, row db (.session k) = some record ∧
      record.userId = userId ∧ which record.userAgent = true := by
  rw [sessionsOf, mem_collect]
  constructor
  · rintro ⟨k, record, hrow, hk⟩
    cases k with
    | session i =>
      dsimp only at hk
      split at hk
      · cases hk
        exact ⟨record, hrow, ‹_›⟩
      · cases hk
    | _ => cases hk
  · rintro ⟨record, hrow, hwhich⟩
    exact ⟨_, record, hrow, if_pos hwhich⟩

/-- What the first lookup of a transaction has seen. -/
theorem seen_of_answered {db : LoginDb} (hw : Writing ws evs)
    (ha : Answered h (.ran p .view db :: evs)) :
    ∃ h₁, h₁ <:+ h ∧ (∀ k, row db k = row (ws ++ committed h₁) k) ∧ Answered h₁ evs := by
  obtain ⟨h₁, hle, -, -, hright, ha⟩ := ha
  refine ⟨h₁, (List.suffix_cons ..).trans hle, fun k => ?_, ha⟩
  rw [← hw.replay_eq]
  exact hright k

/-- Where the user of a login comes from. -/
theorem UserFound.source (hw : Writing [] evs) (hu : UserFound p hash displayName id evs evs')
    (ha : Answered h evs') (ht : Told c evs') :
    (∃ name, Writing (Doda.newUser hash name id) evs' ∧ row c (.user id) = none ∧
      row c (.subject hash) = none) ∨
    Writing [] evs' ∧ ∃ h₁ u, h₁ <:+ h ∧ row (committed h₁) (.user id) = some u ∧
      u.oidcSubjectHash = hash := by
  cases hu with
  | existing hmem =>
    obtain ⟨h₁, hle, hrows, -⟩ := seen_of_answered hw ha
    obtain ⟨u, hu, hhash⟩ := mem_usersOf.1 hmem
    exact .inr ⟨hw.view .., h₁, u, hle, (hrows _).symm.trans hu, hhash⟩
  | @created db id name evs hname =>
    have hw' := (hw.view p db).called p .uuid4 id
    have hfresh : ∀ k, k ∈ (newUserRows hash name id).map Sigma.fst → row c k = none := by
      intro k hk
      obtain ⟨e, he, rfl⟩ := List.mem_map.1 hk
      exact (hw'.replay_eq c e.1).symm.trans (ht.1 rfl e he)
    exact .inl ⟨_, hw'.newUser .., hfresh _ (by simp [newUserRows]),
      hfresh _ (by simp [newUserRows])⟩
  | @raced db db' id new name evs hmem =>
    have hw' := ((hw.view p db).called p .uuid4 new).refused p (newUserRows hash name new)
    obtain ⟨h₁, hle, hrows, -⟩ := seen_of_answered hw' ha
    obtain ⟨u, hu, hhash⟩ := mem_usersOf.1 hmem
    exact .inr ⟨hw'.view .., h₁, u, hle, (hrows _).symm.trans hu, hhash⟩

/-- Whether a user has used an agent before. -/
def KnownDevice (db : LoginDb) (userId : Uuid) (which : Option String → Bool) : Prop :=
  ∃ k record, row db (.session k) = some record ∧ record.userId = userId ∧
    which record.userAgent = true

/-- The verdict on the agent of a login, from two states before it committed. -/
def NewDevice (h : LoginHist) (userId : Uuid) (userAgent : Option String) (isNew : Bool) : Prop :=
  match userAgent.filter (· ≠ "") with
  | none => isNew = false
  | some userAgent => ∃ h₁ h₂, h₁ <:+ h₂ ∧ h₂ <:+ h ∧ (isNew = true ↔
      KnownDevice (committed h₁) userId Option.isSome ∧
        ¬ KnownDevice (committed h₂) userId fun a => a = some userAgent)

/-- The rows of a new user are no sessions. -/
theorem row_session_of_userRows (hws : ws = [] ∨ ∃ name, ws = Doda.newUser hash name id)
    (c : LoginDb) (k : Uuid) : row (ws ++ c) (.session k) = row c (.session k) := by
  rcases hws with rfl | ⟨name, rfl⟩
  · rfl
  · exact row_append_of_notMem c (by simp [Doda.newUser, keys])

theorem knownDevice_iff {db : LoginDb} {which : Option String → Bool}
    (hws : ws = [] ∨ ∃ name, ws = Doda.newUser hash name id)
    (hrows : ∀ k, row db k = row (ws ++ c) k) :
    sessionsOf db userId which ≠ [] ↔ KnownDevice c userId which := by
  constructor
  · intro hne
    obtain ⟨k, hk⟩ := List.exists_mem_of_ne_nil _ hne
    obtain ⟨record, hrow, hrest⟩ := mem_sessionsOf.1 hk
    rw [hrows, row_session_of_userRows hws] at hrow
    exact ⟨k, record, hrow, hrest⟩
  · rintro ⟨k, record, hrow, hrest⟩
    refine List.ne_nil_of_mem (mem_sessionsOf.2 ⟨record, ?_, hrest⟩)
    rw [hrows, row_session_of_userRows hws]
    exact hrow

theorem DeviceChecked.verdict {userAgent : Option String} {isNew : Bool}
    (hws : ws = [] ∨ ∃ name, ws = Doda.newUser hash name id) (hw : Writing ws evs)
    (hd : DeviceChecked p userId userAgent isNew evs evs') (ha : Answered h evs') :
    NewDevice h userId userAgent isNew := by
  cases hd with
  | unasked hnone =>
    rw [NewDevice, hnone]
  | @unknown userAgent db _ hne hnone =>
    obtain ⟨h₁, hle, hrows, -⟩ := seen_of_answered hw ha
    have hunknown := mt (knownDevice_iff hws hrows).2 (not_not.2 hnone)
    rw [NewDevice, Option.filter_some_pos (by simpa using hne)]
    exact ⟨h₁, h₁, List.suffix_refl _, hle, by simp [hunknown]⟩
  | @known userAgent db db' _ hne hsome =>
    obtain ⟨h₂, hle₂, hrows₂, ha₂⟩ := seen_of_answered (hw.view p db) ha
    obtain ⟨h₁, hle₁, hrows₁, -⟩ := seen_of_answered hw ha₂
    have hknown := (knownDevice_iff hws hrows₁).1 hsome
    rw [NewDevice, Option.filter_some_pos (by simpa using hne)]
    refine ⟨h₁, h₂, hle₁, hle₂, ?_⟩
    rw [← knownDevice_iff hws hrows₂, not_not, List.isEmpty_iff]
    exact (and_iff_right hknown).symm

/-- What the transaction was told before it looked for the agent. -/
theorem DeviceChecked.before {userAgent : Option String} {isNew : Bool} (hw : Writing ws evs)
    (hd : DeviceChecked p userId userAgent isNew evs evs') (ha : Answered h evs')
    (ht : Told c evs') : (∃ h₁, h₁ <:+ h ∧ Answered h₁ evs) ∧ Told c evs := by
  cases hd with
  | unasked => exact ⟨⟨h, List.suffix_refl _, ha⟩, ht⟩
  | unknown =>
    obtain ⟨h₁, hle, -, ha⟩ := seen_of_answered hw ha
    exact ⟨⟨h₁, hle, ha⟩, ht.2⟩
  | known =>
    obtain ⟨h₁, hle₁, -, ha⟩ := seen_of_answered (hw.view ..) ha
    obtain ⟨h₂, hle₂, -, ha⟩ := seen_of_answered hw ha
    exact ⟨⟨h₂, hle₂.trans hle₁, ha⟩, ht.2.2⟩

/-! ## Writes -/

theorem row_user_of_newUser (hash name : String) (id : Uuid) (c : LoginDb) (i : Uuid) :
    row (newUser hash name id ++ c) (.user i) =
      if i = id then some (⟨hash, name⟩ : LoginUser) else row c (.user i) := by
  split
  · subst i
    exact row_cons_self (V := LoginRow) (.user id) (some ⟨hash, name⟩) c
  · exact row_append_of_notMem _ (by simp [newUser, keys, *])

theorem row_subject_of_newUser (hash name : String) (id : Uuid) (c : LoginDb) (hash' : String) :
    row (newUser hash name id ++ c) (.subject hash') =
      if hash' = hash then some id else row c (.subject hash') := by
  split
  · subst hash'
    exact row_cons_self (V := LoginRow) (.subject hash) (some id) _
  · exact row_append_of_notMem _ (by simp [newUser, keys, *])

/-- A session is no row of a user. -/
theorem row_of_session (k : Uuid) (v : Option LoginSession) (c : LoginDb) :
    (∀ i, row (⟨.session k, v⟩ :: c) (.user i) = row c (.user i)) ∧
      ∀ hash, row (⟨.session k, v⟩ :: c) (.subject hash) = row c (.subject hash) := by
  refine ⟨fun i => ?_, fun hash => ?_⟩ <;>
  · refine row_cons_ne _ _ ?_
    simp

end Events

/-! ## Commits -/

section Commits

variable [Sha256] {configured : Bool} {h h' : LoginHist} {p : ℕ} {w : LoginDb}

/-- The hash that the user of a subject has. -/
abbrev googleHash (subject : String) : String := hashOidcSubject oidcProvider subject

/-- What is known of a login that commits: its session is new, and so is its user, or the user
was there in an earlier state. -/
structure LoginCommit (h : LoginHist) (p : ℕ) (w : LoginDb) (r : LoginCallback) (subject : String)
    (result : GoogleLoginResult) (now : Time) : Prop where
  deed : LoginDeed p r subject result now (own p h)
  fresh : row (committed h) (.session result.sessionId) = none
  verdict : NewDevice h result.userId r.userAgent result.isNewDevice
  writes : ∃ ws, w = ⟨.session result.sessionId,
      some (loginSession result.userId r.userAgent now)⟩ :: ws ∧
    ((∃ name, ws = newUser (googleHash subject) name result.userId ∧
        row (committed h) (.user result.userId) = none ∧
        row (committed h) (.subject (googleHash subject)) = none) ∨
      ws = [] ∧ ∃ h₁ u, h₁ <:+ h ∧ row (committed h₁) (.user result.userId) = some u ∧
        u.oidcSubjectHash = googleHash subject)

/-- The events of a commit say what is known of it. -/
theorem LoginDeed.commit {r : LoginCallback} {subject : String} {result : GoogleLoginResult}
    {now : Time} (hd : LoginDeed p r subject result now (own p h))
    (hc : Commits (serveLogins configured) h p w) : LoginCommit h p w r subject result now := by
  obtain ⟨displayName, evs₁, evs₂, evs₃, hnamed, hfound, hchecked, hevs⟩ := hd.events
  have hw₁ := hnamed.writing (Writing.received p r)
  obtain ⟨ws, hws, hw₂⟩ := hfound.writing hw₁
  have hw₃ := hchecked.writing hw₂
  have hw₄ := (hw₃.called p .utcnow now).called p .uuid4 result.sessionId
  obtain ⟨hopen, hwritten⟩ := hw₄.newSession p result.sessionId
    (loginSession result.userId r.userAgent now)
  have htold := hc.told
  have hanswered := hc.answered
  have hwrites := hc.writes
  rw [opened_eq, hevs, hopen] at htold hanswered hwrites
  rw [hwritten] at hwrites
  obtain ⟨h₁, hle, -, -, -, hanswered⟩ := hanswered
  have hanswered₃ : Answered h evs₃ := hanswered.mono ((List.suffix_cons ..).trans hle)
  have htold₃ : Told (committed h) evs₃ := htold.2
  have hfresh : row (committed h) (.session result.sessionId) = none := by
    rw [← row_session_of_userRows hws]
    exact (hw₃.replay_eq _ _).symm.trans (htold.1 _ (List.mem_singleton.2 rfl))
  obtain ⟨⟨h₂, hle₂, ha₂⟩, ht₂⟩ := hchecked.before hw₂ hanswered₃ htold₃
  refine ⟨hd, hfresh, hchecked.verdict hws hw₂ hanswered₃, ws, hwrites, ?_⟩
  rcases hfound.source hw₁ ha₂ ht₂ with ⟨name, hw, hrest⟩ | ⟨hw, h₃, u, hle₃, hrest⟩
  · exact .inl ⟨name, (hw₂.written_eq []).symm.trans (hw.written_eq []), hrest⟩
  · exact .inr ⟨(hw₂.written_eq []).symm.trans (hw.written_eq []), h₃, u, hle₃.trans hle₂, hrest⟩

/-- **Each commit is a login.** -/
theorem login_of_commits (hc : Commits (serveLogins configured) h p w) :
    ∃ r subject result now, LoginCommit h p w r subject result now := by
  obtain ⟨r, subject, result, now, hd⟩ := hc.ran (Q := fun r evs =>
    ∃ subject result now, LoginDeed p r subject result now evs) fun r =>
      (serveLogins_commits configured r).mono (P := fun _ _ => True) fun _ _ _ => trivial
  exact ⟨r, subject, result, now, hd.commit hc⟩

namespace LoginCommit

variable {r : LoginCallback} {subject : String} {result : GoogleLoginResult} {now : Time}

/-- Users stay. -/
theorem user (hl : LoginCommit h p w r subject result now) {i : Uuid} {u : LoginUser}
    (hu : row (committed h) (.user i) = some u) : row (w ++ committed h) (.user i) = some u := by
  obtain ⟨ws, rfl, ⟨name, rfl, hnone, -⟩ | ⟨rfl, -⟩⟩ := hl.writes
  · rw [List.cons_append, (row_of_session ..).1, row_user_of_newUser, if_neg, hu]
    rintro rfl
    rw [hnone] at hu
    cases hu
  · rw [List.cons_append, (row_of_session ..).1]
    exact hu

/-- Other sessions are as they were. -/
theorem session_ne (hl : LoginCommit h p w r subject result now) {k : Uuid}
    (hne : k ≠ result.sessionId) :
    row (w ++ committed h) (.session k) = row (committed h) (.session k) := by
  obtain ⟨ws, rfl, ⟨name, rfl, -⟩ | ⟨rfl, -⟩⟩ := hl.writes <;>
    exact row_append_of_notMem _ (by simp [newUser, keys, hne])

/-- Sessions stay. -/
theorem session (hl : LoginCommit h p w r subject result now) {k : Uuid} {record : LoginSession}
    (hk : row (committed h) (.session k) = some record) :
    row (w ++ committed h) (.session k) = some record := by
  rw [hl.session_ne, hk]
  rintro rfl
  rw [hl.fresh] at hk
  cases hk

/-- The login's own session. -/
theorem own_session (hl : LoginCommit h p w r subject result now) :
    row (w ++ committed h) (.session result.sessionId) =
      some (loginSession result.userId r.userAgent now) := by
  obtain ⟨ws, rfl, -⟩ := hl.writes
  exact row_cons_self ..

/-- The user of the login. -/
theorem own_user (hl : LoginCommit h p w r subject result now)
    (hkept : ∀ h₁, h₁ <:+ h → ∀ i u, row (committed h₁) (.user i) = some u →
      row (committed h) (.user i) = some u) :
    ∃ u, row (w ++ committed h) (.user result.userId) = some u ∧
      u.oidcSubjectHash = googleHash subject := by
  obtain ⟨ws, rfl, ⟨name, rfl, -⟩ | ⟨rfl, h₁, u, hle, hu, hhash⟩⟩ := hl.writes
  · refine ⟨⟨googleHash subject, name⟩, ?_, rfl⟩
    rw [List.cons_append, (row_of_session ..).1, row_user_of_newUser, if_pos rfl]
  · refine ⟨u, ?_, hhash⟩
    rw [List.cons_append, (row_of_session ..).1]
    exact hkept h₁ hle _ _ hu

end LoginCommit

end Commits

end Doda
