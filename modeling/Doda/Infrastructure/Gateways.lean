import Doda.Domain.Loads
import Doda.Domain.World
import Doda.Lib.Transducer

/-!
# Model gateways

What the adapters of the three providers share.  An adapter translates the events of
its provider's SDK as they arrive, and every exception into an error of its own;
then it ends.

## Main definitions

* `ChatRequest` — the arguments of `stream_chat`.
* `ModelGatewayError` — the errors of a gateway.
* `SdkAnswer` — what an SDK delivers for a request.
* `iterate` — an adapter's loop over it.
-/

namespace Doda

/-- `ToolSpec`. -/
structure ToolSpec where
  name : String
  description : String
  parametersSchema : Json

/-- The arguments of `stream_chat`. -/
structure ChatRequest extends GatewayRequest where
  tools : List ToolSpec := []
  responseSchema : Option Json := none

/-- The subtypes of `ModelGatewayError` that an adapter raises. -/
inductive ModelGatewayError where
  | timeout (message : String)
  | rateLimited (message : String)
  | provider (message : String) (statusCode : Option ℤ := none)
  | authentication (message : String)

/-- The exception, as its handlers tell it from others. -/
def ModelGatewayError.err : ModelGatewayError → Err
  | timeout _ => .modelTimeout
  | rateLimited _ => .modelRateLimited
  | provider _ _ => .modelProvider
  | authentication _ => .modelAuthentication

/-- What an SDK delivers for a request: an exception at once, or events and perhaps
an exception after them. -/
abbrev SdkAnswer (ε χ : Type) := Except χ (List ε × Option χ)

/-- The events of an answer. -/
def SdkAnswer.events {ε χ : Type} : SdkAnswer ε χ → List ε
  | .error _ => []
  | .ok (events, _) => events

/-- The SDK raises, at once or after its events. -/
def SdkAnswer.Fails {ε χ : Type} : SdkAnswer ε χ → Prop
  | .error _ => True
  | .ok (_, exc) => exc.isSome

/-- What an adapter's generator does with an answer: it reads the events, translates
what is raised, and ends. -/
def iterate {σ ε χ : Type} (T : Transducer σ ε GatewayEvent ModelGatewayError)
    (translateError : χ → ModelGatewayError) (finish : σ → GatewayStream) (s : σ) :
    SdkAnswer ε χ → GatewayStream
  | .error exc => ⟨[], some (translateError exc).err⟩
  | .ok (events, exc) =>
    let (yielded, ended) := T.run s events
    match ended with
    | .error e => ⟨yielded, some e.err⟩
    | .ok s' =>
      match exc with
      | some exc => ⟨yielded, some (translateError exc).err⟩
      | none => ⟨yielded ++ (finish s').events, (finish s').error⟩

/-! ## The contract -/

/-- An event that may stand before the last one. -/
def GatewayEvent.Progress : GatewayEvent → Prop
  | .textDelta _ | .toolCallReady _ | .structuredOutputReady _ => True
  | .completed _ _ | .gatewayError => False

/-- **The contract of `stream_chat`**: it raises an error of a gateway, or it ends
with its one `Completed`, and that says so where the provider cut the answer and
called no tool. -/
def StreamContract (cut called : Prop) (s : GatewayStream) : Prop :=
  (∃ e : ModelGatewayError, s.error = some e.err) ∨
    s.error = none ∧ ∃ before usage finishReason,
      s.events = before ++ [.completed usage finishReason] ∧ (∀ ev ∈ before, ev.Progress) ∧
        (cut → ¬ called → finishReason = "length")

section

variable {σ ε χ : Type} {T : Transducer σ ε GatewayEvent ModelGatewayError}
  {translateError : χ → ModelGatewayError} {finish : σ → GatewayStream} {s s' : σ}
  {a : SdkAnswer ε χ} {cut called : Prop} {events : List ε} {ys : List GatewayEvent}

/-- An answer that does not fail is read to its end. -/
theorem SdkAnswer.of_not_fails (h : ¬ a.Fails) : ∃ events, a = .ok (events, none) := by
  match a, h with
  | .ok (events, none), _ => exact ⟨events, rfl⟩
  | .ok (events, some exc), h => exact absurd rfl h
  | .error exc, h => exact absurd trivial h

/-- Where the SDK raises, the adapter raises its own. -/
theorem SdkAnswer.Fails.contract (h : a.Fails) :
    StreamContract cut called (iterate T translateError finish s a) := by
  left
  match a, h with
  | .error exc, _ => exact ⟨translateError exc, rfl⟩
  | .ok (events, some exc), _ =>
    dsimp only [iterate]
    cases (T.run s events).2 with
    | error e => exact ⟨e, rfl⟩
    | ok s' => exact ⟨translateError exc, rfl⟩

/-- Where a step raises, the adapter raises its own. -/
theorem contract_of_raised (h : ∃ x, (T.run s a.events).2 = .error x) :
    StreamContract cut called (iterate T translateError finish s a) := by
  left
  obtain ⟨x, hx⟩ := h
  match a with
  | .error exc => exact ⟨translateError exc, rfl⟩
  | .ok (events, exc) =>
    change (T.run s events).2 = .error x at hx
    dsimp only [iterate]
    rw [hx]
    exact ⟨x, rfl⟩

/-- What an adapter makes of an answer that it reads to its end. -/
theorem iterate_ok (h : T.run s events = (ys, .ok s')) :
    iterate T translateError finish s (.ok (events, none)) =
      ⟨ys ++ (finish s').events, (finish s').error⟩ := by
  dsimp only [iterate]
  rw [h]

end

end Doda
