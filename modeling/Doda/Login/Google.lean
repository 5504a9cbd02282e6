import Doda.Domain.Json
import Doda.Domain.Tables
import Doda.Lib.Program
import Doda.Lib.RowStore
import Doda.Lib.System

/-!
# Login with Google

The callback of a login compares the state it is handed with the cookie, has Google exchange the
code and name the subject, finds the user of the subject or creates one, and creates a session.
The tables of the login are those of users and sessions, with the columns that nothing else reads.

## Main definitions

* `exchangeCodeForAccessToken`, `fetchUserinfo` — what Google is asked.
* `getOrCreateUser` — the user of a subject.
* `completeGoogleLogin` — the transaction of a callback.
* `serveLogins` — callbacks as the requests of a system.
-/

namespace Doda

open ReadCommitted

/-! ## Tables -/

/-- A row of `identity_users`. -/
structure LoginUser where
  oidcSubjectHash : String
  displayName : String
  deriving DecidableEq

/-- A row of `identity_sessions`. -/
structure LoginSession where
  userId : Uuid
  authStrength : AuthStrength
  lastSeenAt : Time
  expiresAt : Time
  userAgent : Option String
  deriving DecidableEq

inductive LoginKey where
  | user (id : Uuid)
  /-- The unique index on `oidc_subject_hash`: the user who has the value. -/
  | subject (hash : String)
  | session (id : Uuid)
  deriving DecidableEq

@[reducible] def LoginRow : LoginKey → Type
  | .user _ => LoginUser
  | .subject _ => Uuid
  | .session _ => LoginSession

abbrev LoginDb := Store LoginRow

/-! ## Calls -/

/-- How a request to Google ends. -/
inductive GoogleAnswer where
  /-- `httpx.HTTPError`, or a body that is not JSON: the class of the exception. -/
  | failed (exception : String)
  | response (status : ℕ) (body : Json)

/-- `GoogleOidcError`. -/
inductive GoogleOidcError where
  /-- "token exchange request failed" -/
  | exchangeFailed (exception : String)
  /-- "token exchange rejected", with the status and the error that the body names. -/
  | exchangeRejected (status : ℕ) (error : Option Json)
  /-- "token exchange response missing access_token" -/
  | missingAccessToken
  /-- "userinfo request failed" -/
  | userinfoFailed (exception : String)
  /-- "userinfo request rejected" -/
  | userinfoRejected (status : ℕ)
  /-- "userinfo response missing 'sub'" -/
  | missingSubject

/-- Exceptions of the login. -/
inductive LoginErr where
  | database
  /-- `IntegrityError`, raised again. -/
  | integrity
  /-- A built-in exception, by its class name. -/
  | builtin (name : String)
  | oidcNotConfigured
  | oidcStateMismatch
  | googleOidc (e : GoogleOidcError)

instance : DatabaseError LoginErr := ⟨.database⟩

/-- A callback: the query parameters, the state cookie and the `User-Agent` header. -/
structure LoginCallback where
  code : String
  state : String
  cookieState : Option String
  userAgent : Option String
  deriving DecidableEq

inductive LoginCall where
  /-- The callback that this process serves arrives. -/
  | received (r : LoginCallback)
  | uuid4
  | utcnow
  /-- POST to the token endpoint. -/
  | exchangeCode (code : String)
  /-- GET of the userinfo endpoint. -/
  | userinfo (accessToken : String)
  /-- `notify_new_device_login`, after the commit; whatever it raises is logged. -/
  | notifyNewDevice (userId sessionId : Uuid)
  deriving DecidableEq

@[reducible] def LoginAnswer : LoginCall → Type
  | .received _ | .notifyNewDevice _ _ => Unit
  | .uuid4 => Uuid
  | .utcnow => Time
  | .exchangeCode _ | .userinfo _ => GoogleAnswer

/-- Programs of the login. -/
abbrev LoginProgram := Prog LoginRow LoginAnswer LoginErr

/-- Histories of logins. -/
abbrev LoginHist := History LoginRow LoginAnswer

/-! ## Google -/

/-- `response.is_success`. -/
def isSuccessStatus (status : ℕ) : Bool := 200 ≤ status ∧ status ≤ 299

/-- `body.get(key)`; what is no object has no such method. -/
def bodyGet (key : String) : Json → LoginProgram (Option Json)
  | .obj kvs => pure ((Json.obj kvs).get? key)
  | _ => throw (.builtin "AttributeError")

/-- A string that is not empty. -/
def nonemptyStr (v : Option Json) : Option String :=
  (v.bind Json.asStr?).filter (· ≠ "")

/-- `exchange_code_for_access_token`. -/
def exchangeCodeForAccessToken (code : String) : LoginProgram String := do
  match ← call (LoginCall.exchangeCode code) with
  | .failed exception => throw (.googleOidc (.exchangeFailed exception))
  | .response status body =>
    if !isSuccessStatus status then
      let error ← bodyGet "error" body
      throw (.googleOidc (.exchangeRejected status error))
    else
      let accessToken ← bodyGet "access_token" body
      match nonemptyStr accessToken with
      | some accessToken => return accessToken
      | none => throw (.googleOidc .missingAccessToken)

/-- `body.get("name") or body.get("email") or "Google user"`. -/
def displayNameOf (body : Json) : Json :=
  match (body.get? "name").filter Json.truthy with
  | some name => name
  | none => ((body.get? "email").filter Json.truthy).getD (.str "Google user")

/-- `fetch_userinfo`: the subject and the display name. -/
def fetchUserinfo (accessToken : String) : LoginProgram (String × Json) := do
  match ← call (LoginCall.userinfo accessToken) with
  | .failed exception => throw (.googleOidc (.userinfoFailed exception))
  | .response status body =>
    if !isSuccessStatus status then
      throw (.googleOidc (.userinfoRejected status))
    else
      let sub ← bodyGet "sub" body
      match nonemptyStr sub with
      | some subject => return (subject, displayNameOf body)
      | none => throw (.googleOidc .missingSubject)

/-- `login_with_google`. -/
def loginWithGoogle (code : String) : LoginProgram (String × Json) := do
  let accessToken ← exchangeCodeForAccessToken code
  fetchUserinfo accessToken

/-! ## Users -/

/-- `OIDC_PROVIDER`. -/
def oidcProvider : String := "google"

/-- `hash_oidc_subject`. -/
def hashOidcSubject [Sha256] (provider subject : String) : String :=
  Sha256.hexdigest (provider ++ ":" ++ subject)

/-- The users with a subject's hash. -/
def usersOf (db : LoginDb) (oidcSubjectHash : String) : List Uuid :=
  collect (fun k v => match k, v with
    | .user id, (user : LoginUser) =>
      if user.oidcSubjectHash = oidcSubjectHash then some id else none
    | _, _ => none) db

/-- `select(User).where(User.oidc_subject_hash == oidc_subject_hash)`: the first. -/
def findUser (oidcSubjectHash : String) : LoginProgram (Option Uuid) := do
  let db ← run .view
  return (usersOf db oidcSubjectHash).head?

/-- `get_or_create_user`: the user's id. -/
def getOrCreateUser (oidcSubjectHash : String) (displayName : Json) : LoginProgram Uuid := do
  match ← findUser oidcSubjectHash with
  | some existing => return existing
  | none =>
    let id ← call LoginCall.uuid4
    match displayName.asStr? with
    -- the driver takes no other type for the column
    | none => throw (.builtin "DBAPIError")
    | some displayName =>
      if ← run (.tryInsert [⟨.user id, { oidcSubjectHash, displayName }⟩,
          ⟨.subject oidcSubjectHash, id⟩]) then return id
      else
        match ← findUser oidcSubjectHash with
        | some winner => return winner
        | none => throw .integrity

/-! ## Sessions -/

/-- The sessions of a user whose agent is kept by `which`. -/
def sessionsOf (db : LoginDb) (userId : Uuid) (which : Option String → Bool) : List Uuid :=
  collect (fun k v => match k, v with
    | .session id, (record : LoginSession) =>
      if record.userId = userId ∧ which record.userAgent then some id else none
    | _, _ => none) db

/-- `is_new_device_login`. -/
def isNewDeviceLogin (userId : Uuid) (userAgent : String) : LoginProgram Bool := do
  let db ← run .view
  if (sessionsOf db userId Option.isSome).isEmpty then return false
  else
    let db ← run .view
    return (sessionsOf db userId fun a => a = some userAgent).isEmpty

/-- `is_new_device_login(…) if user_agent else False`. -/
def isNewDevice (userId : Uuid) : Option String → LoginProgram Bool
  | some userAgent => if userAgent = "" then pure false else isNewDeviceLogin userId userAgent
  | none => pure false

/-- `ABSOLUTE_TIMEOUT`. -/
def sessionTimeout : Time := minutes (12 * 60)

/-- `create_session`, with the column `user_agent`: the session's id. -/
def createLoginSession (userId : Uuid) (authStrength : AuthStrength) (userAgent : Option String) :
    LoginProgram Uuid := do
  let now ← call LoginCall.utcnow
  let id ← call LoginCall.uuid4
  run (.insert [⟨.session id,
    { userId, authStrength, lastSeenAt := now, expiresAt := now + sessionTimeout, userAgent }⟩])
  return id

/-! ## The callback -/

/-- `GoogleLoginResult`. -/
structure GoogleLoginResult where
  userId : Uuid
  sessionId : Uuid
  isNewDevice : Bool

/-- `secrets.compare_digest` of two strings, which must be ASCII. -/
def secretsCompareDigest (a b : String) : LoginProgram Bool :=
  if a.toList.all (·.toNat < 128) && b.toList.all (·.toNat < 128) then pure (a = b)
  else throw (.builtin "TypeError")

/-- `not cookie_state or not secrets.compare_digest(cookie_state, state)`. -/
def stateMismatch (cookieState : Option String) (state : String) : LoginProgram Bool :=
  match cookieState.filter (· ≠ "") with
  | none => pure true
  | some cookieState => do
    let same ← secretsCompareDigest cookieState state
    return !same

/-- `complete_google_login`. -/
def completeGoogleLogin [Sha256] (r : LoginCallback) : LoginProgram GoogleLoginResult := do
  if ← stateMismatch r.cookieState r.state then throw .oidcStateMismatch
  let (subject, displayName) ← loginWithGoogle r.code
  let userId ← getOrCreateUser (hashOidcSubject oidcProvider subject) displayName
  let isNewDevice ← isNewDevice userId r.userAgent
  let sessionId ← createLoginSession userId .AAL1 r.userAgent
  return { userId, sessionId, isNewDevice }

/-- `google_login_callback`, where the client of the login is configured. -/
def googleLoginCallback [Sha256] (configured : Bool) (r : LoginCallback) :
    LoginProgram GoogleLoginResult := do
  if !configured then throw .oidcNotConfigured
  let result ← atomically (completeGoogleLogin r)
  if result.isNewDevice then
    call (LoginCall.notifyNewDevice result.userId result.sessionId)
  return result

/-- Serve a callback. -/
def serveLogins [Sha256] (configured : Bool) (r : LoginCallback) :
    LoginProgram GoogleLoginResult := do
  let _ ← call (LoginCall.received r)
  googleLoginCallback configured r

end Doda
