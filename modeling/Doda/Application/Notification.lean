import Doda.Application.Audit

/-!
# Notifications

`createNotification` stores a notification for one recipient, unless the
recipient has turned its type off, and audits the delivery.

## Main definitions

* `isNotificationTypeEnabled` — `is_notification_type_enabled`.
* `createNotification` — `create_notification`.
-/

namespace Doda

variable [Sha256]

/-- `is_notification_type_enabled`; no preference row means enabled, and a
security alert always is. -/
def isNotificationTypeEnabled (customerId : Uuid) (recipientId : String)
    (type : NotificationType) : Session Bool := do
  if type = .SECURITY_ALERT then return true
  let preference ← Session.get (.notificationPreference customerId recipientId type)
  return preference.getD true

/-- The metadata of the delivery's audit event. -/
def deliveryMetadata (notificationId : Uuid) (recipientId : String) (type : NotificationType)
    (referenceType : String) (referenceId : Uuid) : Json :=
  .obj [("notification_id", .str notificationId.str), ("recipient_id", .str recipientId),
    ("notification_type", .str type.value), ("reference_type", .str referenceType),
    ("reference_id", .str referenceId.str)]

/-- `create_notification`. -/
def createNotification (customerId : Uuid) (workspaceId : Option Uuid) (recipientId : String)
    (type : NotificationType) (referenceType : String) (referenceId : Uuid)
    (safeMetadata : Json) : Session (Option Notification) := do
  if ← isNotificationTypeEnabled customerId recipientId type then
    let id ← Session.uuid4
    let createdAt ← Session.utcnow .created
    let notification : Notification :=
      { id, createdAt, customerId, workspaceId, recipientId, notificationType := type,
        referenceType, referenceId, safeMetadata }
    Session.insert (.notification id) notification
    let traceId ← Session.uuid4
    let _ ← recordAuditEvent customerId workspaceId traceId "system:notifier"
      "notification.delivered.v1" (deliveryMetadata id recipientId type referenceType referenceId)
    return some notification
  else
    return none

end Doda
