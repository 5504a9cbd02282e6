import Doda.Domain.World

/-!
# Sessions

A session is created at a login, checked and touched by every request made under it,
and revoked from outside.  Each of the three runs in a transaction of its own and
reads the row without a lock.

## Main definitions

* `createSession`, `resolveSession`, `revokeSession` — `create_session`,
  `resolve_session`, `revoke_session`.
* `listActiveSessionsForUser` — `list_active_sessions_for_user`.
* `serveSessions` — the three as the requests of a system.
-/

namespace Doda

open ReadCommitted

/-- `IDLE_TIMEOUT`. -/
def idleTimeout : Time := minutes 30

/-- `ABSOLUTE_TIMEOUT`: 12 hours. -/
def absoluteTimeout : Time := minutes (12 * 60)

/-- `create_session`: the new session and its id. -/
def createSession (userId : Uuid) (authStrength : AuthStrength) :
    Session (Uuid × IdentitySession) := do
  let now ← Session.utcnow .opened
  let id ← Session.uuid4
  let record : IdentitySession :=
    { userId, authStrength, lastSeenAt := now, expiresAt := now + absoluteTimeout }
  Session.insert (.session id) record
  return (id, record)

/-- `record.last_seen_at = now`; the flush writes changed columns only. -/
def touchSession (id : Uuid) (loaded now : Time) : Session Unit := do
  if now ≠ loaded then
    Session.update (.session id) fun record => { record with lastSeenAt := now }

/-- `resolve_session`. -/
def resolveSession (id : Uuid) : Session IdentitySession := do
  let found ← Session.get (.session id)
  let now ← Session.utcnow (.seen id)
  match found with
  | none => throw (.sessionInvalid "no such session")
  | some record =>
    if record.revokedAt.isSome then throw (.sessionInvalid "session revoked")
    else if record.expiresAt < now then throw (.sessionInvalid "session past absolute timeout")
    else if record.lastSeenAt + idleTimeout < now then
      throw (.sessionInvalid "session idle timeout")
    else
      touchSession id record.lastSeenAt now
      return { record with lastSeenAt := now }

/-- `revoke_session`. -/
def revokeSession (id : Uuid) : Session Unit := do
  match ← Session.get (.session id) with
  | none => pure ()
  | some record =>
    if record.revokedAt.isNone then
      let now ← Session.utcnow .revoked
      Session.update (.session id) fun record => { record with revokedAt := some now }

/-- Not revoked and, strictly, within both timeouts: the conditions of the listing. -/
def IdentitySession.listedAt (record : IdentitySession) (userId : Uuid) (now : Time) : Bool :=
  record.userId = userId && record.revokedAt.isNone && now < record.expiresAt &&
    now < record.lastSeenAt + idleTimeout

/-- What the listing keeps of a row. -/
def listedRow (userId : Uuid) (now : Time) : (k : Key) → Row k → Option (Uuid × IdentitySession)
  | .session id, record => if record.listedAt userId now then some (id, record) else none
  | _, _ => none

/-- `list_active_sessions_for_user`, each session with its id. -/
def listActiveSessionsForUser (userId : Uuid) : Session (List (Uuid × IdentitySession)) := do
  let now ← Session.utcnow .listed
  let db ← Session.select
  return (collect (listedRow userId now) db).insertionSort fun a b =>
    a.2.lastSeenAt ≥ b.2.lastSeenAt

/-- The part of a request's dependencies that runs outside its customer's transaction: the
session is resolved and the workspace's customer looked up. -/
def authenticate (id : Uuid) (workspaceId : Option Uuid) : Session IdentitySession := atomically do
  let record ← resolveSession id
  match workspaceId with
  | some workspaceId => let _ ← Session.get (.workspaceTenantIndex workspaceId)
  | none => pure ()
  return record

/-- What a request runs, once it has arrived. -/
def handleSession : SessionRequest → Session (Option IdentitySession)
  | .create userId authStrength => do
    let (_, record) ← atomically (createSession userId authStrength)
    return some record
  | .resolve id workspaceId => do
    let record ← authenticate id workspaceId
    return some record
  | .revoke id => do
    atomically (revokeSession id)
    return none

/-- Serve a request. -/
def serveSessions (r : SessionRequest) : Session (Option IdentitySession) := do
  let _ ← call (Call.authenticates r)
  handleSession r

end Doda
