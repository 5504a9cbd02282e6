import Doda.Application.Authz
import Doda.Domain.Loads

/-!
# What a chat turn rests on

The provider and model a turn uses, what its calls may cost, the customer's
monthly budget, and the language of the reply.

The class `Deployment` holds the settings of the process and what is decided
outside the modelled code: the float arithmetic of a price, the letters and digits
outside ASCII, the word lists of language detection, and the argument models of the
tools, which a validation library checks.

## Main definitions

* `Settings`, `Deployment` — configuration, and the functions left open.
* `resolveProviderChoice`, `assertProviderEnabled`, `pickFallbackProvider` — the
  provider of a turn.
* `estimateCostCents`, `reserveBudget`, `reconcileBudget`, `recordUsageEvent` —
  the budget.
* `resolveEffectiveLanguage` — the language of the reply.
-/

namespace Doda

open ReadCommitted

/-! ## Configuration -/

/-- The settings a turn reads; amounts are in cents. -/
structure Settings where
  defaultProvider : Provider := .OPENAI
  modelOpenai : String := "gpt-5-mini"
  modelClaude : String := "claude-sonnet-5"
  modelGemini : String := "gemini-3.1-flash-lite"
  maxOutputTokensFast : ℤ := 512
  maxOutputTokensStandard : ℤ := 1024
  maxOutputTokensDeep : ℤ := 4096
  maxToolRounds : ℕ := 4
  maxContextChars : ℕ := 8000
  budgetHardCents : ℤ := 8000
  deepCeilingCents : ℤ := 200
  /-- Whether a provider has a credential. -/
  configured : Provider → Bool := fun _ => false

/-- An entry of `MODEL_PRICING`, in cents per million tokens. -/
structure ModelPricing where
  inputPerMillion : ℕ
  outputPerMillion : ℕ

/-- The settings, and what is decided outside the modelled code. -/
class Deployment where
  settings : Settings
  /-- The rounded float arithmetic of `estimate_cost_cents`, on input and output tokens. -/
  costCents : ModelPricing → ℤ → ℤ → ℤ
  /-- `str.isalnum` of a character outside ASCII. -/
  isAlnum : Char → Bool
  /-- `detect_language`. -/
  detectLanguage : String → Option String
  /-- `ListMyOpenTasksArgs.model_validate_json`: the limit, or what is wrong. -/
  listMyOpenTasksArgs : String → Except String ℕ
  /-- `TelegramSendMessageArgs.model_validate_json`. -/
  telegramSendMessageArgs : String → Except String Unit

variable [Deployment]

/-- `get_settings()`. -/
abbrev settings : Settings := Deployment.settings

/-! ## Providers -/

/-- `ResolvedProviderChoice`. -/
structure ResolvedProviderChoice where
  provider : Provider
  model : String
  deriving DecidableEq

/-- `default_model_for`. -/
def defaultModelFor : Provider → String
  | .OPENAI => settings.modelOpenai
  | .GEMINI => settings.modelGemini
  | .CLAUDE => settings.modelClaude

/-- `model or default_model_for(provider)`. -/
def modelOr (model : Option String) (provider : Provider) : String :=
  match model with
  | some m => if m = "" then defaultModelFor provider else m
  | none => defaultModelFor provider

/-- `resolve_provider_choice`: the conversation's pin, the user's saved choice, the
workspace's, the default. -/
def resolveProviderChoice (conversation : Conversation) (customerId userId workspaceId : Uuid) :
    Session ResolvedProviderChoice := do
  match conversation.pinnedProvider with
  | some provider => return ⟨provider, modelOr conversation.pinnedModel provider⟩
  | none =>
    match ← Session.get (.userAIPreference customerId userId) with
    | some preference => return ⟨preference.provider, modelOr preference.model preference.provider⟩
    | none =>
      match ← Session.get (.workspaceAIPreference workspaceId) with
      | some preference =>
        return ⟨preference.provider, modelOr preference.model preference.provider⟩
      | none =>
        return ⟨settings.defaultProvider, defaultModelFor settings.defaultProvider⟩

/-- `is_provider_enabled_for_customer`; no row means enabled. -/
def isProviderEnabled (customerId : Uuid) (provider : Provider) : Session Bool := do
  let setting ← Session.get (.customerAIProviderSetting customerId provider)
  return setting.getD true

/-- `assert_provider_enabled`. -/
def assertProviderEnabled (customerId : Uuid) (provider : Provider) : Session Unit := do
  if ¬ (← isProviderEnabled customerId provider) then throw (.providerDisabled provider)

/-- `is_fallback_enabled_for_customer`; no row means disabled. -/
def isFallbackEnabled (customerId : Uuid) : Session Bool := do
  let setting ← Session.get (.customerAIFallbackSetting customerId)
  return setting.getD false

/-- `FALLBACK_ORDER`. -/
def fallbackOrder : List Provider := [.OPENAI, .CLAUDE, .GEMINI]

/-- The first of some providers that may stand in for another. -/
def pickFallbackFrom (customerId : Uuid) (excluding : Provider) :
    List Provider → Session (Option Provider)
  | [] => pure none
  | candidate :: rest => do
    if candidate = excluding ∨ ¬ settings.configured candidate then
      pickFallbackFrom customerId excluding rest
    else if ← isProviderEnabled customerId candidate then return some candidate
    else pickFallbackFrom customerId excluding rest

/-- `pick_fallback_provider`. -/
def pickFallbackProvider (customerId : Uuid) (excluding : Provider) :
    Session (Option Provider) :=
  pickFallbackFrom customerId excluding fallbackOrder

/-! ## Prices -/

/-- `MODEL_PRICING`. -/
def modelPricing : Provider → List (String × ModelPricing)
  | .OPENAI => [("gpt-5-mini", ⟨25, 200⟩), ("gpt-5-nano", ⟨5, 40⟩), ("gpt-4.1-mini", ⟨40, 160⟩)]
  | .CLAUDE => [("claude-sonnet-5", ⟨200, 1000⟩)]
  | .GEMINI => [("gemini-3.1-flash-lite", ⟨25, 150⟩)]

/-- `estimate_cost_cents`. -/
def estimateCostCents (provider : Provider) (model : String) (inputTokens outputTokens : ℤ) :
    Session ℤ :=
  match (modelPricing provider).lookup model with
  | none => throw (.builtin "UnknownModelPricingError")
  | some pricing => pure (Deployment.costCents pricing inputTokens outputTokens)

/-- `estimate_input_tokens_from_chars`. -/
def estimateInputTokensFromChars (chars : ℕ) : ℤ := max 1 ((chars + 2) / 3 : ℕ)

/-- The output limit of a mode. -/
def maxOutputTokens : ChatMode → ℤ
  | .FAST => settings.maxOutputTokensFast
  | .STANDARD => settings.maxOutputTokensStandard
  | .DEEP => settings.maxOutputTokensDeep

/-! ## The budget -/

/-- `current_year_month`. -/
def currentYearMonth : Session String := do
  let now ← Session.utcnow .month
  let (year, month, _) := Time.date (now / 86400000000)
  return Time.padded 4 year ++ "-" ++ Time.padded 2 month

/-- `_get_or_create_locked_ledger`. -/
def getOrCreateLockedLedger (customerId : Uuid) (yearMonth : String) :
    Session AIBudgetLedger := do
  match ← Session.getForUpdate (.aiBudgetLedger customerId yearMonth) with
  | some ledger => return ledger
  | none =>
    if ← Session.tryInsert [⟨.aiBudgetLedger customerId yearMonth, {}⟩] then return {}
    else
      match ← Session.getForUpdate (.aiBudgetLedger customerId yearMonth) with
      | some ledger => return ledger
      | none => throw .assertion

/-- `reserve_budget`. -/
def reserveBudget (customerId : Uuid) (estimatedCents : ℤ) : Session Unit := do
  let yearMonth ← currentYearMonth
  let ledger ← getOrCreateLockedLedger customerId yearMonth
  if ledger.reservedCents + ledger.actualCents + estimatedCents > settings.budgetHardCents then
    throw .budgetExceeded
  Session.update (.aiBudgetLedger customerId yearMonth) fun ledger =>
    { ledger with reservedCents := ledger.reservedCents + estimatedCents }

/-- `reconcile_budget`. -/
def reconcileBudget (customerId : Uuid) (estimatedCents actualCents : ℤ) : Session Unit := do
  let yearMonth ← currentYearMonth
  let _ ← getOrCreateLockedLedger customerId yearMonth
  Session.update (.aiBudgetLedger customerId yearMonth) fun ledger =>
    { reservedCents := max 0 (ledger.reservedCents - estimatedCents)
      actualCents := ledger.actualCents + actualCents }

/-- `record_usage_event`. -/
def recordUsageEvent (customerId workspaceId : Uuid) (conversationId : Option Uuid)
    (traceId : Uuid) (actorId : String) (choice : ResolvedProviderChoice) (mode : ChatMode)
    (usage : GatewayUsage) (estimatedCostCents actualCostCents : ℤ) (status : UsageEventStatus) :
    Session Unit := do
  let id ← Session.uuid4
  let createdAt ← Session.utcnow .created
  Session.insert (.aiUsageEvent id)
    { id, createdAt, customerId, workspaceId, conversationId, traceId, actorId,
      provider := choice.provider, model := choice.model, mode, usage, estimatedCostCents,
      actualCostCents, status }

/-! ## The language of the reply -/

/-- `resolve_effective_language`: the conversation's pin, the message's own
language, the workspace's. -/
def resolveEffectiveLanguage (conversation : Conversation) (content : String)
    (workspaceId : Uuid) : Session (Option String) := do
  match conversation.pinnedLanguage.filter (· ≠ "") <|> Deployment.detectLanguage content with
  | some language => return some language
  | none =>
    let setting ← Session.get (.workspaceLanguage workspaceId)
    return setting.join

/-- `_LANGUAGE_NAMES_UZ`. -/
def languageNamesUz : List (String × String) :=
  [("UZ", "o'zbek"), ("RU", "rus"), ("EN", "ingliz")]

/-- `response_language_instruction`. -/
def responseLanguageInstruction : Option String → Session String
  | none => pure ""
  | some language =>
    match languageNamesUz.lookup language with
    | some name => pure s!"Har doim {name} tilida javob ber."
    | none => throw (.builtin "KeyError")

end Doda
