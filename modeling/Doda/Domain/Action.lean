import Mathlib.Data.Nat.Notation

/-!
# The action's own rules

Everything about an action that needs no database: its statuses and risk levels,
the transition table, and the minimum risk a registered tool carries.

## Main definitions

* `ActionStatus`, `RiskLevel`, `ApprovalStatus` — with `value`, the stored text.
* `allowedTransitions`, `transition` — the state machine.
* `terminalStatuses` — the statuses a run may rest in for good.
* `enforceMinimumRiskLevel` — the risk floor of a registered tool.
-/

namespace Doda

/-- Risk levels, lowest first. -/
inductive RiskLevel where
  | R0 | R1 | R2 | R3 | R4 | R5
  deriving DecidableEq, Repr

namespace RiskLevel

def value : RiskLevel → String
  | R0 => "R0" | R1 => "R1" | R2 => "R2" | R3 => "R3" | R4 => "R4" | R5 => "R5"

/-- `_RISK_ORDER`. -/
def order : RiskLevel → ℕ
  | R0 => 0 | R1 => 1 | R2 => 2 | R3 => 3 | R4 => 4 | R5 => 5

end RiskLevel

/-- `AUTO_APPROVED_RISK_LEVELS`: policy alone decides, no human approval. -/
def autoApprovedRiskLevels : List RiskLevel := [.R0, .R1, .R2]

/-- The levels that need an approval are those from R3 up. -/
theorem notMem_autoApproved {r : RiskLevel} :
    r ∉ autoApprovedRiskLevels ↔ RiskLevel.R3.order ≤ r.order := by
  cases r <;> decide

inductive ActionStatus where
  | DRAFT | VALIDATING | AWAITING_APPROVAL | READY | RUNNING | SUCCEEDED | FAILED | RETRYING
  | COMPENSATING | COMPENSATED | DENIED | REJECTED | EXPIRED | CANCELLED
  deriving DecidableEq, Repr

namespace ActionStatus

def value : ActionStatus → String
  | DRAFT => "DRAFT"
  | VALIDATING => "VALIDATING"
  | AWAITING_APPROVAL => "AWAITING_APPROVAL"
  | READY => "READY"
  | RUNNING => "RUNNING"
  | SUCCEEDED => "SUCCEEDED"
  | FAILED => "FAILED"
  | RETRYING => "RETRYING"
  | COMPENSATING => "COMPENSATING"
  | COMPENSATED => "COMPENSATED"
  | DENIED => "DENIED"
  | REJECTED => "REJECTED"
  | EXPIRED => "EXPIRED"
  | CANCELLED => "CANCELLED"

theorem value_injective : Function.Injective value := by
  intro a b h
  cases a <;> cases b <;> first | rfl | exact absurd h (by decide)

/-- `f"action.{target.value.lower()}.v1"`. -/
def eventType (target : ActionStatus) : String := "action." ++ target.value.toLower ++ ".v1"

end ActionStatus

/-- `ALLOWED_TRANSITIONS`. -/
def allowedTransitions : ActionStatus → List ActionStatus
  | .DRAFT => [.VALIDATING, .CANCELLED]
  | .VALIDATING => [.AWAITING_APPROVAL, .READY, .DENIED]
  | .AWAITING_APPROVAL => [.READY, .EXPIRED, .REJECTED]
  | .READY => [.RUNNING, .CANCELLED]
  | .RUNNING => [.SUCCEEDED, .FAILED, .COMPENSATING]
  | .FAILED => [.RETRYING]
  | .RETRYING => [.READY]
  | .COMPENSATING => [.COMPENSATED, .FAILED]
  | _ => []

/-- `TERMINAL_STATUSES`; a failed action is terminal unless something retries it. -/
def terminalStatuses : List ActionStatus :=
  [.SUCCEEDED, .COMPENSATED, .DENIED, .REJECTED, .EXPIRED, .CANCELLED, .FAILED]

/-- `transition`: the target, or `none` where the code raises
`InvalidActionTransition`. -/
def transition (current target : ActionStatus) : Option ActionStatus :=
  if target ∈ allowedTransitions current then some target else none

theorem transition_eq_some {current target s : ActionStatus} :
    transition current target = some s ↔ target ∈ allowedTransitions current ∧ s = target := by
  simp [transition, eq_comm]

theorem transition_eq_none {current target : ActionStatus} :
    transition current target = none ↔ target ∉ allowedTransitions current := by
  simp [transition]

/-- A status without outgoing edges is terminal. -/
theorem mem_terminal_of_stuck {s : ActionStatus} (h : allowedTransitions s = []) :
    s ∈ terminalStatuses := by
  cases s <;> simp [allowedTransitions] at h <;> decide

/-- No transition leads back to the status it left. -/
theorem notMem_allowed_self (s : ActionStatus) : s ∉ allowedTransitions s := by
  cases s <;> decide

inductive ApprovalStatus where
  | PENDING | APPROVED | DENIED | EXPIRED
  deriving DecidableEq, Repr

def ApprovalStatus.value : ApprovalStatus → String
  | PENDING => "PENDING"
  | APPROVED => "APPROVED"
  | DENIED => "DENIED"
  | EXPIRED => "EXPIRED"

/-! ## Tool policy -/

/-- The Telegram connector's tool. -/
def telegramSendMessage : String := "telegram.send_message"

/-- `TOOL_MINIMUM_RISK_LEVEL`. -/
def toolMinimumRiskLevel : List (String × RiskLevel) := [(telegramSendMessage, .R3)]

/-- `enforce_minimum_risk_level`: the requested level, raised to the tool's
registered minimum. -/
def enforceMinimumRiskLevel (toolName : String) (requested : RiskLevel) : RiskLevel :=
  match toolMinimumRiskLevel.lookup toolName with
  | none => requested
  | some minimum => if minimum.order ≤ requested.order then requested else minimum

/-- **The floor never lowers a request.** -/
theorem order_le_enforceMinimumRiskLevel (toolName : String) (r : RiskLevel) :
    r.order ≤ (enforceMinimumRiskLevel toolName r).order := by
  unfold enforceMinimumRiskLevel
  split
  · exact Nat.le_refl _
  · split <;> omega

/-- **A Telegram message is never below R3.** -/
theorem R3_le_enforceMinimumRiskLevel (r : RiskLevel) :
    RiskLevel.R3.order ≤ (enforceMinimumRiskLevel telegramSendMessage r).order := by
  cases r <;> decide

end Doda
