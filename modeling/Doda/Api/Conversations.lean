import Doda.Api.Actions
import Doda.Application.Conversation
import Doda.Application.Preferences

/-!
# Conversation endpoints

## Main definitions

* `getOwnedConversation` — the conversation, if it is the workspace's.
* `postConversationMessage` — the handler that runs a turn.
* `switchProvider` — the handler that pins a conversation to a provider.
-/

namespace Doda

variable [Sha256] [JsonText] [Deployment]

/-- `_get_owned_conversation`. -/
def getOwnedConversation (context : WorkspaceContext) (conversationId : Uuid) :
    Session Conversation := do
  let found ← Session.get (.conversation conversationId)
  match found.filter (·.customerId = context.customerId) with
  | some conversation =>
    if conversation.workspaceId ≠ context.workspaceId then
      throw (.notFound "conversation not found")
    return conversation
  | none => throw (.notFound "conversation not found")

/-- `post_conversation_message`. -/
def postConversationMessage (context : WorkspaceContext) (conversationId traceId : Uuid)
    (content : String) (mode : ChatMode) : Session Reply := do
  authorizeUseChat context
  let conversation ← getOwnedConversation context conversationId
  streamMessage context conversation traceId content mode
  return .none

/-- `switch_provider`. -/
def switchProvider (context : WorkspaceContext) (conversationId : Uuid) (provider : Provider)
    (model : Option String) : Session Conversation := do
  authorizeUseChat context
  let conversation ← getOwnedConversation context conversationId
  switchConversationProvider conversation provider model

end Doda
