import Doda.Application.Action
import Doda.Lib.Raises

/-!
# What a proposal raises

Recording, notifying and the transitions of a new action raise what the database, the
state machine and the kill switches give rise to, and nothing else.

## Main definitions

* `Proposing` — the exceptions of a proposal.
* `proposeAction_raises`, `submitActionForExecution_raises`.
-/

namespace Doda

open ReadCommitted

/-- The exceptions of a proposal. -/
def Err.Proposing : Err → Prop
  | .database | .assertion | .killSwitchEngaged _ | .invalidActionTransition _ _
  | .missingProviderReceipt _ | .approvalInvalid _ => True
  | _ => False

section Raises

variable [Sha256] {S : Err → Prop} (hdatabase : S .database) (hassertion : S .assertion)

include hdatabase hassertion

theorem recordAuditEvent_raises (c : Uuid) (w : Option Uuid) (t : Uuid) (a e : String)
    (m : Json) : Raises S (recordAuditEvent c w t a e m) := by
  refine Raises.run_bind hdatabase fun _ => Raises.run_bind hdatabase fun tip => ?_
  cases tip with
  | none => exact hassertion
  | some tip =>
    refine Raises.call_bind fun _ => Raises.call_bind fun _ => Raises.call_bind fun _ => ?_
    exact Raises.run_bind hdatabase fun _ => Raises.run_bind hdatabase fun _ => Raises.pure _

theorem createNotification_raises (c : Uuid) (w : Option Uuid) (r : String)
    (t : NotificationType) (rt : String) (ri : Uuid) (m : Json) :
    Raises S (createNotification c w r t rt ri m) := by
  refine Raises.bind ?_ fun enabled => ?_
  · unfold isNotificationTypeEnabled
    split
    · exact Raises.pure _
    · exact Raises.run_bind hdatabase fun _ => Raises.pure _
  · cases enabled with
    | false => exact Raises.pure _
    | true =>
      refine Raises.call_bind fun _ => Raises.call_bind fun _ => ?_
      refine Raises.run_bind hdatabase fun _ => Raises.call_bind fun _ => ?_
      exact Raises.bind (recordAuditEvent_raises hdatabase hassertion _ _ _ _ _ _) fun _ =>
        Raises.pure _

theorem notifyTransition_raises (a : Action) (s : ActionStatus) :
    Raises S (notifyTransition a s) := by
  unfold notifyTransition
  split
  · exact Raises.bind (createNotification_raises hdatabase hassertion _ _ _ _ _ _ _) fun _ =>
      Raises.pure _
  · exact Raises.bind (createNotification_raises hdatabase hassertion _ _ _ _ _ _ _) fun _ =>
      Raises.pure _
  · exact Raises.pure _

end Raises

section Proposals

variable [Sha256]

theorem applyTransition_raises (a : Action) (target : ActionStatus) (actor : String)
    (receipt : Option Json) :
    Raises Err.Proposing (applyTransition a target actor receipt) := by
  unfold applyTransition
  extract_lets actionId
  split
  · trivial
  · refine Raises.run_bind trivial fun locked => ?_
    dsimp only
    split
    · exact Raises.bind (recordAuditEvent_raises trivial trivial _ _ _ _ _ _) fun _ => trivial
    · refine Raises.run_bind trivial fun _ => ?_
      refine Raises.bind (recordAuditEvent_raises trivial trivial _ _ _ _ _ _) fun _ => ?_
      exact Raises.bind (notifyTransition_raises trivial trivial _ _) fun _ => Raises.pure _

theorem validateAction_raises (a : Action) (actor : String) :
    Raises Err.Proposing (validateAction a actor) := by
  refine Raises.bind (applyTransition_raises _ _ _ _) fun a => ?_
  split
  · refine Raises.bind (applyTransition_raises _ _ _ _) fun a => ?_
    have hmessage : Raises Err.Proposing (announceReady a none) := by
      refine Raises.call_bind fun _ => Raises.call_bind fun _ => ?_
      exact Raises.run_bind trivial fun _ => Raises.pure _
    exact Raises.bind hmessage fun _ => Raises.pure _
  · exact applyTransition_raises _ _ _ _

omit [Sha256] in
theorem requestApproval_raises (a : Action) : Raises Err.Proposing (requestApproval a) := by
  unfold requestApproval
  split
  · trivial
  · refine Raises.call_bind fun _ => Raises.call_bind fun _ => ?_
    refine Raises.call_bind fun _ => Raises.call_bind fun _ => ?_
    exact Raises.run_bind trivial fun _ => Raises.pure _

theorem submitActionForExecution_raises (a : Action) (actor : String) :
    Raises Err.Proposing (submitActionForExecution a actor) := by
  refine Raises.bind (validateAction_raises _ _) fun a => ?_
  split
  · exact Raises.bind (requestApproval_raises _) fun _ => Raises.pure _
  · exact Raises.pure _

omit [Sha256] in
theorem assertNotKilled_raises (customerId workspaceId : Uuid) :
    Raises Err.Proposing (assertNotKilled customerId workspaceId) := by
  refine Raises.run_bind trivial fun x => ?_
  cases x with
  | some => trivial
  | none =>
    refine Raises.run_bind trivial fun y => ?_
    cases y with
    | some => trivial
    | none => exact Raises.pure _

theorem proposeAction_raises (customerId workspaceId traceId : Uuid) (actorId toolName : String)
    (riskLevel : RiskLevel) (payload : Json) (idempotencyKey : String) (taskId : Option Uuid) :
    Raises Err.Proposing (proposeAction customerId workspaceId traceId actorId toolName riskLevel
      payload idempotencyKey taskId) := by
  refine Raises.bind (assertNotKilled_raises _ _) fun _ => Raises.call_bind fun _ => ?_
  refine Raises.run_bind trivial fun inserted => ?_
  cases inserted with
  | true =>
    exact Raises.bind (recordAuditEvent_raises trivial trivial _ _ _ _ _ _) fun _ => Raises.pure _
  | false =>
    refine Raises.run_bind trivial fun db => ?_
    split
    · trivial
    · exact Raises.pure _

omit [Sha256] in
theorem resolveReplayApproval_raises (a : Action) (actor : String) :
    Raises Err.Proposing (resolveReplayApproval a actor) := by
  unfold resolveReplayApproval
  split
  · exact Raises.pure _
  · exact Raises.run_bind trivial fun _ => Raises.pure _

end Proposals

end Doda
