import Doda.Budget.Course

/-!
# What tokens cost

The budget rests on the prices of the deployment and on the counts that gateways report:
prices are not negative and list the models that may be called, and counts are natural numbers.
So what a turn reports in all is not negative, and it ends on a model with a price.

## Main definitions

* `WellPriced`, `Counted` — what is asked of the configuration, and of the gateways.

## Main results

* `Loop.listed`, `Loop.counted` — the model and the usage that a turn ends with.
-/

namespace Doda

open ReadCommitted

/-! ## Prices -/

section Deployment

variable [Deployment]

/-- The prices of a deployment: they are not negative, outputs are limited to a natural
number, and `MODEL_PRICING` lists the default model of every provider that may stand in,
which its comment asks of whoever changes such a model. -/
structure WellPriced : Prop where
  nonneg : ∀ pricing input output, 0 ≤ input → 0 ≤ output →
    0 ≤ Deployment.costCents pricing input output
  output : ∀ mode, 0 ≤ maxOutputTokens mode
  listed : ∀ provider, settings.configured provider = true →
    (modelPricing provider).lookup (defaultModelFor provider) ≠ none

end Deployment

/-! ## Counts -/

/-- Both counts are natural numbers. -/
def GatewayUsage.Counted (u : GatewayUsage) : Prop := 0 ≤ u.inputTokens ∧ 0 ≤ u.outputTokens

/-- The usage that a stream reports is counted in natural numbers. -/
def GatewayStream.Counted (x : GatewayStream) : Prop :=
  ∀ u reason, .completed u reason ∈ x.events → u.Counted

/-- Every gateway has reported counts. -/
def Counted (h : Hist) : Prop := ∀ p r x, .called p (.streamChat r) x ∈ h → x.Counted

theorem GatewayUsage.Counted.add {u v : GatewayUsage} (hu : u.Counted) (hv : v.Counted) :
    (u.add v).Counted :=
  ⟨add_nonneg hu.1 hv.1, add_nonneg hu.2 hv.2⟩

theorem foldl_addUsage_counted {evs : List GatewayEvent} {u : GatewayUsage} (hu : u.Counted)
    (h : ∀ v reason, .completed v reason ∈ evs → v.Counted) :
    (evs.foldl GatewayEvent.addUsage u).Counted := by
  induction evs generalizing u with
  | nil => exact hu
  | cons ev evs ih =>
    refine ih ?_ fun v reason hv => h v reason (List.mem_cons_of_mem _ hv)
    cases ev with
    | completed v reason => exact hu.add (h v reason List.mem_cons_self)
    | textDelta | toolCallReady | structuredOutputReady | gatewayError => exact hu

theorem GatewayStream.Counted.usage {x : GatewayStream} (h : x.Counted) : x.usage.Counted :=
  foldl_addUsage_counted ⟨le_rfl, le_rfl⟩ h

/-- What is delivered of a stream is of the stream. -/
theorem deliver_subset (error : Option Err) (evs : List GatewayEvent) (ms : List Mark) :
    (deliver error evs ms).events ⊆ evs := by
  induction evs generalizing ms with
  | nil => exact List.Subset.refl _
  | cons ev evs ih =>
    unfold deliver
    split
    · exact List.cons_subset_cons _ (ih _)
    · exact List.cons_subset.2 ⟨List.mem_cons_self, List.nil_subset _⟩
    · exact List.cons_subset_cons _ (ih _)

theorem delivered_counted {ms : List Mark} (h : ∀ q x, .call q x ∈ ms → x.Counted) :
    ∀ y ∈ delivered ms, y.2.Counted := by
  induction ms with
  | nil => exact List.forall_mem_nil _
  | cons m ms ih =>
    have ih := ih fun q x hx => h q x (List.mem_cons_of_mem _ hx)
    cases m with
    | call q x =>
      refine List.forall_mem_cons.2 ⟨fun u reason hu => ?_, ih⟩
      exact h q x List.mem_cons_self u reason (deliver_subset _ _ _ hu)
    | _ => exact ih

theorem billed_counted {l : List (GatewayRequest × GatewayStream)} (h : ∀ y ∈ l, y.2.Counted) :
    (billed l).Counted := by
  induction l with
  | nil => exact ⟨le_rfl, le_rfl⟩
  | cons y l ih =>
    obtain ⟨hy, hl⟩ := List.forall_mem_cons.1 h
    exact hy.usage.add (ih hl)

/-! ## The turn -/

section Turn

variable [Sha256] [JsonText] [Deployment] {e : TurnContext} {s s₁ : Turn} {ms : List Mark}
  {r : Except Err Unit}

omit [Sha256] [JsonText] in
/-- The model a turn ends on is listed. -/
theorem Loop.listed (h : Loop e s ms r s₁) (hw : WellPriced) (hs : s.pricing ≠ none) :
    s₁.pricing ≠ none := by
  cases h with
  | done h | raised h | optedOut h | unpicked h | unread h =>
    rw [Turn.pricing, h.choice_eq]
    exact hs
  | fallback h hm x hx hp h' =>
    obtain ⟨-, hc, -⟩ := hp.first rfl
    rw [Turn.pricing, h'.choice_eq]
    exact hw.listed _ hc

omit [Sha256] [JsonText] in
/-- The usage a turn ends with is of natural numbers, where its streams' are. -/
theorem Loop.counted (h : Loop e s ms r s₁) (hs : s.totalUsage = ⟨0, 0, 0⟩)
    (hms : ∀ q x, .call q x ∈ ms → x.Counted) : s₁.totalUsage.Counted := by
  obtain ⟨l, hl, husage⟩ := h.usage
  rw [husage, hs, GatewayUsage.zero_add]
  exact billed_counted (hl.delivered_eq ▸ delivered_counted hms)

end Turn

end Doda
