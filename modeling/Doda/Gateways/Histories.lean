import Doda.Infrastructure.ClaudeGateway
import Doda.Infrastructure.GeminiGateway
import Doda.Infrastructure.OpenaiGateway

/-!
# Converting a history

Each adapter turns the history into its provider's own form.  OpenAI's passes the
arguments of a tool call on as text; the others parse them, and raise where they
cannot.

## Main definitions

* `Provider.convert` — the converter of a provider's adapter.
* `Provider.Takes` — the adapter takes a call's arguments.
* `Provider.converts_iff` — a history is converted just when those of every call are
  taken.
-/

namespace Doda

/-- A history in the form of a provider. -/
inductive NativeHistory where
  | openai (input : List Json)
  | claude (messages : List Json)
  | gemini (contents : List GeminiContent)

variable [JsonText] [GenaiTypes]

/-- The converter of the provider's adapter. -/
def Provider.convert (history : List ChatTurn) : Provider → Except String NativeHistory
  | .OPENAI => return .openai (toOpenaiInput history)
  | .CLAUDE => do return .claude (← toClaudeMessages history)
  | .GEMINI => do return .gemini (← toGeminiContents history)

/-- The converter does not raise. -/
def Provider.Converts (provider : Provider) (history : List ChatTurn) : Prop :=
  ∃ native, provider.convert history = .ok native

/-- The converter takes a tool call with these arguments. -/
def Provider.Takes (argumentsJson : String) : Provider → Prop
  | .OPENAI => True
  | .CLAUDE => (loads argumentsJson).isOk
  | .GEMINI => (loads argumentsJson).isOk ∧ GenaiTypes.acceptsArgs argumentsJson

section

variable {α β : Type} {turn : ChatTurn} {history : List ChatTurn}

omit [JsonText] [GenaiTypes] in
/-- A list is converted where each of its elements is. -/
theorem mapM_ok_iff {f : α → Except String β} {xs : List α} :
    (∃ ys, xs.mapM f = .ok ys) ↔ ∀ x ∈ xs, ∃ y, f x = .ok y := by
  induction xs with
  | nil => exact ⟨fun _ x hx => absurd hx List.not_mem_nil, fun _ => ⟨[], rfl⟩⟩
  | cons x xs ih =>
    rw [List.forall_mem_cons, ← ih, List.mapM_cons]
    cases hx : f x with
    | error e => exact ⟨fun ⟨_, h⟩ => (by cases h), fun ⟨⟨_, h⟩, _⟩ => (by cases h)⟩
    | ok y =>
      cases hxs : xs.mapM f with
      | error e => exact ⟨fun ⟨_, h⟩ => (by cases h), fun ⟨_, _, h⟩ => (by cases h)⟩
      | ok ys => exact ⟨fun _ => ⟨⟨y, rfl⟩, ys, rfl⟩, fun _ => ⟨y :: ys, rfl⟩⟩

omit [JsonText] [GenaiTypes] in
theorem bind_pure_ok_iff {f : α → β} {r : Except String α} :
    (∃ y, (r >>= fun x => pure (f x)) = .ok y) ↔ ∃ x, r = .ok x := by
  cases r with
  | error e => exact ⟨fun ⟨_, h⟩ => (by cases h), fun ⟨_, h⟩ => (by cases h)⟩
  | ok x => exact ⟨fun _ => ⟨x, rfl⟩, fun _ => ⟨f x, rfl⟩⟩

omit [GenaiTypes] in
theorem claudeBlock_ok_iff {call : ToolCallRequest} :
    (∃ block, call.claudeBlock = .ok block) ↔ (loads call.argumentsJson).isOk := by
  unfold ToolCallRequest.claudeBlock
  cases loads call.argumentsJson with
  | error exception => exact ⟨fun ⟨_, h⟩ => (by cases h), fun h => (by cases h)⟩
  | ok input => exact ⟨fun _ => rfl, fun _ => ⟨_, rfl⟩⟩

theorem geminiPart_ok_iff {call : ToolCallRequest} : (∃ part, call.geminiPart = .ok part) ↔
    (loads call.argumentsJson).isOk ∧ GenaiTypes.acceptsArgs call.argumentsJson := by
  unfold ToolCallRequest.geminiPart
  cases loads call.argumentsJson with
  | error exception => exact ⟨fun ⟨_, h⟩ => (by cases h), fun h => (by cases h.1)⟩
  | ok args =>
    cases GenaiTypes.acceptsArgs call.argumentsJson with
    | false => exact ⟨fun ⟨_, h⟩ => (by cases h), fun h => (by cases h.2)⟩
    | true => exact ⟨fun _ => ⟨rfl, rfl⟩, fun _ => ⟨_, rfl⟩⟩

/-- The calls of one turn are taken. -/
def ChatTurn.Taken (provider : Provider) (turn : ChatTurn) : Prop :=
  turn.role ≠ .TOOL → ∀ call ∈ turn.toolCalls, provider.Takes call.argumentsJson

theorem claudeMessage_ok_iff : (∃ message, turn.claudeMessage = .ok message) ↔
    turn.Taken .CLAUDE := by
  unfold ChatTurn.claudeMessage
  by_cases hr : turn.role = .TOOL
  · rw [if_pos hr]
    exact ⟨fun _ h => absurd hr h, fun _ => ⟨_, rfl⟩⟩
  rw [if_neg hr]
  by_cases hc : turn.toolCalls ≠ []
  · rw [if_pos hc]
    rw [bind_pure_ok_iff, mapM_ok_iff]
    simp only [claudeBlock_ok_iff]
    exact ⟨fun h _ => h, fun h => h hr⟩
  · rw [if_neg hc]
    rw [ne_eq, not_not] at hc
    exact ⟨fun _ _ => by simp [hc], fun _ => ⟨_, rfl⟩⟩

theorem geminiContent_ok_iff : (∃ content, turn.geminiContent = .ok content) ↔
    turn.Taken .GEMINI := by
  unfold ChatTurn.geminiContent
  by_cases hr : turn.role = .TOOL
  · rw [if_pos hr]
    exact ⟨fun _ h => absurd hr h, fun _ => ⟨_, rfl⟩⟩
  rw [if_neg hr]
  by_cases hc : turn.toolCalls ≠ []
  · rw [if_pos hc]
    rw [bind_pure_ok_iff, mapM_ok_iff]
    simp only [geminiPart_ok_iff]
    exact ⟨fun h _ => h, fun h => h hr⟩
  · rw [if_neg hc]
    rw [ne_eq, not_not] at hc
    exact ⟨fun _ _ => by simp [hc], fun _ => ⟨_, rfl⟩⟩

/-- **A history is converted** just when the calls of each of its turns are taken. -/
theorem Provider.converts_iff {provider : Provider} :
    provider.Converts history ↔ ∀ turn ∈ history, turn.Taken provider := by
  cases provider with
  | OPENAI => exact ⟨fun _ _ _ _ _ _ => trivial, fun _ => ⟨_, rfl⟩⟩
  | CLAUDE =>
    rw [Provider.Converts, Provider.convert, bind_pure_ok_iff, toClaudeMessages, mapM_ok_iff]
    simp only [claudeMessage_ok_iff]
  | GEMINI =>
    rw [Provider.Converts, Provider.convert, bind_pure_ok_iff, toGeminiContents, mapM_ok_iff]
    simp only [geminiContent_ok_iff]

end

end Doda
