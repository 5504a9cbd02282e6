import Doda.Application.AiSupport
import Doda.Application.Customer

/-!
# Saved choices

The pin of a conversation, and the settings that a "set" call saves: it reads the row
and changes it, or inserts it and, where another request has inserted one, reads again
and changes that.  A flush sets only the columns that changed since the row was read,
and raises where the row is no longer there.

## Main definitions

* `Columns` — the columns of a row that can be set.
* `flushChanges`, `upsert`, `clearRow` — what the "set" and "clear" calls have in common.
* `setUserAIPreference`, `clearUserAIPreference`, `setWorkspaceAIPreference`, … — the calls.
* `switchConversationProvider` — `switch_conversation_provider`.
-/

namespace Doda

open ReadCommitted

/-- The columns of a row that can be set. -/
structure Columns (ρ : Type) where
  /-- The row after an `UPDATE` of the columns that changed from `old` to `value`. -/
  merge : (old value row : ρ) → ρ
  /-- The database accepts the values. -/
  fits : ρ → Bool

/-- A column's value after an `UPDATE` of what changed. -/
def mergeColumn {α : Type} [DecidableEq α] (old value row : α) : α :=
  if value = old then row else value

/-- A text that fits into a column of `n` characters; NUL fits into none. -/
def fitsText (n : ℕ) (text : Option String) : Bool :=
  text.all fun text => text.length ≤ n && text.toList.all (·.toNat ≠ 0)

/-- `provider` and `model`. -/
def preferenceColumns : Columns AIPreference where
  merge old value row :=
    { provider := mergeColumn old.provider value.provider row.provider
      model := mergeColumn old.model value.model row.model }
  fits value := fitsText 64 value.model

/-- `enabled`. -/
def enabledColumn : Columns Bool where
  merge := mergeColumn
  fits _ := true

/-- `pinned_provider` and `pinned_model`. -/
def pinColumns : Columns Conversation where
  merge old value row :=
    { row with
      pinnedProvider := mergeColumn old.pinnedProvider value.pinnedProvider row.pinnedProvider
      pinnedModel := mergeColumn old.pinnedModel value.pinnedModel row.pinnedModel }
  fits value := fitsText 64 value.pinnedModel

/-- Flush a row that was read as `old` and is to be `value`. -/
def flushChanges (k : Key) [DecidableEq (Row k)] (columns : Columns (Row k)) (old value : Row k) :
    Session Unit :=
  if value = old then pure ()
  else do
    match ← Session.getForUpdate k with
    | none => throw (.builtin "StaleDataError")
    | some _ =>
      if columns.fits value then Session.update k (columns.merge old value)
      else throw .database

/-- Save a value under a key, whether or not there is a row. -/
def upsert (k : Key) [DecidableEq (Row k)] (columns : Columns (Row k)) (value : Row k) :
    Session (Row k) := do
  match ← Session.get k with
  | some old =>
    flushChanges k columns old value
    return value
  | none =>
    if columns.fits value then
      if ← Session.tryInsert [⟨k, value⟩] then return value
      else
        -- another request has inserted the row
        match ← Session.get k with
        | none => throw .assertion
        | some old =>
          flushChanges k columns old value
          return value
    else throw .database

/-- Delete the row where it is there; a `DELETE` that matches no row raises nothing. -/
def clearRow (k : Key) : Session Unit := do
  match ← Session.get k with
  | none => return
  | some _ => let _ ← deleteRow k

/-- `set_user_ai_preference`. -/
def setUserAIPreference (customerId userId : Uuid) (provider : Provider) (model : Option String) :
    Session AIPreference :=
  upsert (.userAIPreference customerId userId) preferenceColumns ⟨provider, model⟩

/-- `clear_user_ai_preference`. -/
def clearUserAIPreference (customerId userId : Uuid) : Session Unit :=
  clearRow (.userAIPreference customerId userId)

/-- `set_workspace_ai_preference`. -/
def setWorkspaceAIPreference (workspaceId : Uuid) (provider : Provider) (model : Option String) :
    Session AIPreference :=
  upsert (.workspaceAIPreference workspaceId) preferenceColumns ⟨provider, model⟩

/-- `clear_workspace_ai_preference`. -/
def clearWorkspaceAIPreference (workspaceId : Uuid) : Session Unit :=
  clearRow (.workspaceAIPreference workspaceId)

/-- `set_notification_preference`. -/
def setNotificationPreference (customerId : Uuid) (recipientId : String)
    (notificationType : NotificationType) (enabled : Bool) : Session Bool := do
  if ¬ enabled ∧ notificationType = .SECURITY_ALERT then
    throw (.notificationPreference s!"{notificationType.value} can never be disabled")
  upsert (.notificationPreference customerId recipientId notificationType) enabledColumn enabled

/-- `set_provider_enabled_for_customer`. -/
def setProviderEnabledForCustomer (customerId : Uuid) (provider : Provider) (enabled : Bool) :
    Session Bool :=
  upsert (.customerAIProviderSetting customerId provider) enabledColumn enabled

/-- `set_fallback_enabled_for_customer`. -/
def setFallbackEnabledForCustomer (customerId : Uuid) (enabled : Bool) : Session Bool :=
  upsert (.customerAIFallbackSetting customerId) enabledColumn enabled

/-- `switch_conversation_provider`. -/
def switchConversationProvider (conversation : Conversation) (provider : Provider)
    (model : Option String) : Session Conversation := do
  let value := { conversation with pinnedProvider := some provider, pinnedModel := model }
  flushChanges (.conversation conversation.id) pinColumns conversation value
  return value

end Doda
