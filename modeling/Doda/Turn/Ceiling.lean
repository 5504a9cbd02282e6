import Doda.Turn.Discipline

/-!
# The ceiling of a DEEP turn

The cost of a DEEP turn is held against its ceiling once, for the provider and model
it begins with.  A fallback is not, so the calls of a turn stay within the ceiling just
if the provider that stands in does.

## Main definitions

* `withinCeiling` — the cost of all rounds with a provider and model is within the
  ceiling.
* `StandsIn` — a provider was found to stand in.
* `deep_ceiling_iff` — when every call of a turn is within the ceiling.
-/

namespace Doda

open ReadCommitted

section Deployment

variable [Deployment]

/-- All rounds of the turn, with this provider and model and the history it begins with,
are estimated to cost no more than the ceiling.  A model without a price has no estimate. -/
def withinCeiling (e : TurnContext) (history : List ChatTurn) (choice : ResolvedProviderChoice) :
    Bool :=
  ((modelPricing choice.provider).lookup choice.model).all fun pricing =>
    settings.maxToolRounds * Deployment.costCents pricing
      (estimateInputTokensFromChars (history.map (·.content.length)).sum) e.maxOutputTokens ≤
      settings.deepCeilingCents

/-- The customer has opted in to fallback, and the provider was found enabled to stand in. -/
def StandsIn (customerId : Uuid) (ms : List Mark) (provider : Provider) : Prop :=
  .fallbackSetting customerId (some true) ∈ ms ∧
    (.providerSetting customerId provider none ∈ ms ∨
      .providerSetting customerId provider (some true) ∈ ms)

end Deployment

section Turn

variable [Sha256] [JsonText] [Deployment] {e : TurnContext} {s s' : Turn} {ms : List Mark}
  {r : Except Err Unit}

omit [Sha256] [JsonText] in
/-- The provider and model a DEEP turn begins with are within its ceiling. -/
theorem Begins.withinCeiling {context : WorkspaceContext} {conversation : Conversation}
    {traceId : Uuid} {content : String}
    (h : Begins context conversation traceId content .DEEP ms e s) :
    withinCeiling e s.history s.choice = true := by
  cases h with
  | begun id createdAt hmf choice x hx instructions db history hh hp estimate he hd hr =>
    have := hd rfl
    rw [he, mul_comm] at this
    simpa [Doda.withinCeiling, hp] using this

omit [Sha256] [JsonText] in
/-- Without rounds the ceiling of a DEEP turn is not negative. -/
theorem Begins.ceiling_nonneg {context : WorkspaceContext} {conversation : Conversation}
    {traceId : Uuid} {content : String}
    (h : Begins context conversation traceId content .DEEP ms e s)
    (hn : settings.maxToolRounds = 0) : 0 ≤ settings.deepCeilingCents := by
  cases h with
  | begun id createdAt hmf choice x hx instructions db history hh hp estimate he hd hr =>
    have := hd rfl
    rw [he, hn] at this
    simpa using this

omit [Sha256] [JsonText] in
/-- Only the provider picked is found enabled. -/
theorem Picks.enabled {customerId c : Uuid} {excluding provider : Provider}
    {candidates : List Provider} {o : Option Provider} {x : Option Bool}
    (h : Picks customerId excluding candidates ms o) (hm : .providerSetting c provider x ∈ ms)
    (hx : x.getD true = true) : o = some provider := by
  induction h with
  | none => simp at hm
  | skipped _ _ ih => exact ih hm
  | disabled _ _ _ ih =>
    rcases List.mem_cons.1 hm with heq | hm
    · obtain ⟨-, -, rfl⟩ := Mark.providerSetting.inj heq
      simp at hx
    · exact ih hm
  | picked =>
    obtain ⟨-, rfl, -⟩ := Mark.providerSetting.inj (List.mem_singleton.1 hm)
    rfl

omit [Sha256] [JsonText] in
theorem Rounds.no_setting {n : ℕ} (h : Rounds e n s ms r s') (c : Uuid) (x : Option Bool) :
    .fallbackSetting c x ∉ ms ∧ ∀ provider, .providerSetting c provider x ∉ ms :=
  ⟨fun hm => h.under _ hm, fun _ hm => h.under _ hm⟩

omit [Sha256] [JsonText] in
/-- **The provider that stands in is called**, in a turn that has rounds. -/
theorem Loop.called {customerId : Uuid} {provider : Provider} (h : Loop e s ms r s')
    (hn : settings.maxToolRounds ≠ 0) (hp : StandsIn customerId ms provider) :
    ∃ x ∈ gatewayCalls ms, x.1.provider = provider ∧ x.1.model = defaultModelFor provider := by
  obtain ⟨hopted, henabled⟩ := hp
  cases h with
  | done h | raised h => exact absurd hopted (h.no_setting ..).1
  | optedOut h _ x hx =>
    rcases List.mem_append.1 hopted with hm | hm
    · exact absurd hm (h.no_setting ..).1
    · obtain ⟨-, rfl⟩ := Mark.fallbackSetting.inj (List.mem_singleton.1 hm)
      simp at hx
  | unpicked h _ x _ hp =>
    rcases henabled with hm | hm
    all_goals
      rcases List.mem_append.1 hm with hm | hm
      · exact absurd hm ((h.no_setting ..).2 _)
      · have := hp.enabled ((List.mem_cons.1 hm).resolve_left (by simp)) rfl
        simp at this
  | unread h _ hms =>
    rcases henabled with hm | hm
    all_goals
      rcases List.mem_append.1 hm with hm | hm
      · exact absurd hm ((h.no_setting ..).2 _)
      · exact (hms _ hm).elim
  | @fallback ms err s₁ mp provider' ms' r s' h hm x hx hp h' =>
    have heq : provider' = provider := by
      have hmp : ∀ {y : Option Bool}, y.getD true = true →
          .providerSetting customerId provider y ∈
            ms ++ .fallbackSetting e.context.customerId x :: mp ++ ms' →
          provider' = provider := fun hx hm => by
        rcases List.mem_append.1 hm with hm | hm
        · rcases List.mem_append.1 hm with hm | hm
          · exact absurd hm ((h.no_setting ..).2 _)
          · exact Option.some.inj (hp.enabled ((List.mem_cons.1 hm).resolve_left (by simp)) hx)
        · exact absurd hm ((h'.no_setting ..).2 _)
      exact henabled.elim (hmp rfl) (hmp rfl)
    obtain ⟨-, hc, -⟩ := hp.first rfl
    obtain ⟨x, hx, hprovider⟩ := h'.called hn hc
    refine ⟨x, ?_, heq ▸ hprovider⟩
    rw [gatewayCalls_append]
    exact List.mem_append_right _ hx

omit [Sha256] [JsonText] in
/-- **Within the ceiling**: every call of the rounds is, just if the provider that stands
in is. -/
theorem Loop.withinCeiling_iff (h : Loop e s ms r s')
    (hs : withinCeiling e s.history s.choice = true)
    (hn : settings.maxToolRounds = 0 → 0 ≤ settings.deepCeilingCents) :
    (∀ x ∈ gatewayCalls ms, withinCeiling e s.history ⟨x.1.provider, x.1.model⟩ = true) ↔
      ∀ provider, StandsIn e.context.customerId ms provider →
        withinCeiling e s.history ⟨provider, defaultModelFor provider⟩ = true := by
  constructor
  · intro hcalls provider hp
    by_cases h0 : settings.maxToolRounds = 0
    · rw [withinCeiling]
      cases (modelPricing provider).lookup (defaultModelFor provider) with
      | none => rfl
      | some pricing => simpa [h0] using hn h0
    · obtain ⟨x, hx, rfl, hmodel⟩ := h.called h0 hp
      rw [← hmodel]
      exact hcalls x hx
  · intro hstands x hx
    obtain ⟨m, hm, heq⟩ := List.mem_filterMap.1 hx
    have huses : ∀ {choice : ResolvedProviderChoice}, m.Uses choice →
        choice = ⟨x.1.provider, x.1.model⟩ := fun huse => by
      cases m with
      | call r y =>
        obtain rfl := Option.some.inj heq
        obtain ⟨h₁, h₂⟩ := huse
        rw [h₁, h₂]
      | _ => simp at heq
    rcases h.fallbackSafe with hkept | ⟨ms₁, provider, ms₂, rfl, hf, hms₂⟩
    · rw [← huses (hkept m hm)]
      exact hs
    · rcases List.mem_append.1 hm with hm | hm
      · rw [← huses (hf.uses m hm)]
        exact hs
      · rw [← huses (hms₂ m hm)]
        exact hstands provider ⟨List.mem_append_left _ hf.optedIn,
          hf.enabled.imp (List.mem_append_left _) (List.mem_append_left _)⟩

/-! ## Turns -/

omit [Sha256] [JsonText] in
/-- Nothing stands in once the rounds are over. -/
theorem standsIn_append_settlement {customerId : Uuid} {mr : List Mark} {r₁ : Except Err Unit}
    (h : Settles e s r₁ mr r s') (provider : Provider) :
    StandsIn customerId (ms ++ mr) provider ↔ StandsIn customerId ms provider := by
  have hfallback : ∀ x, .fallbackSetting customerId x ∉ mr := fun x hm => h.ofSettlement _ hm
  have hprovider : ∀ x, .providerSetting customerId provider x ∉ mr :=
    fun x hm => h.ofSettlement _ hm
  simp [StandsIn, hfallback, hprovider]

variable {p : ℕ} {context : WorkspaceContext} {conversation : Conversation} {traceId : Uuid}
  {content : String} {h₀ h evs : Hist}

/-- **When a DEEP turn stays within its ceiling.**  Whatever happens in it, every gateway
call of the turn is within the ceiling just if every provider found to stand in is, with
its default model, for the history the turn begins with. -/
theorem deep_ceiling_iff
    (hb : Runs p (beginTurn context conversation traceId content .DEEP) h₀ (pure (e, s)) h)
    (hr : Runs p (runTurn e s) h (pure (r, s')) (evs ++ h)) :
    (∀ x ∈ gatewayCalls (marks evs),
        withinCeiling e s.history ⟨x.1.provider, x.1.model⟩ = true) ↔
      ∀ provider, StandsIn context.customerId (marks evs) provider →
        withinCeiling e s.history ⟨provider, defaultModelFor provider⟩ = true := by
  obtain ⟨mb, -, hbegins⟩ := (beginTurn_emits ..).runs hb
  have hbegins := Emits.pure_iff.1 hbegins
  rw [After, List.append_nil] at hbegins
  obtain ⟨mt, hmt, hturns⟩ := (runTurn_emits e s).runs hr
  have hturns := Emits.pure_iff.1 hturns
  rw [After, List.append_nil] at hturns
  rw [trace_append, List.append_right_inj] at hmt
  rw [marks, hmt, ← hbegins.context_eq]
  cases hturns with
  | settled hl hs =>
    have hiff := hl.withinCeiling_iff hbegins.withinCeiling hbegins.ceiling_nonneg
    rw [gatewayCalls_append, hs.calls, List.append_nil, hiff]
    simp only [standsIn_append_settlement hs]

end Turn

/-! ## A sample turn -/

section Sample

/-- A ceiling of ten cents. -/
@[reducible] def narrowDeployment : Deployment :=
  { sampleDeployment with settings := { configured := fun _ => true, deepCeilingCents := 10 } }

attribute [local instance] plainSha plainJsonText narrowDeployment

/-- A DEEP turn that moves to Claude. -/
def sampleDeepTurn : Option (TurnContext × Turn × Hist × Hist) :=
  match play (sampleOracle sampleStreams) 0
      (beginTurn sampleContext sampleConversation 9 "Salom" .DEEP) [] with
  | (.ok (e, s), h) => some (e, s, h, (play (sampleOracle sampleStreams) 0 (runTurn e s) h).2)
  | _ => none

/-- **The ceiling does not cover the provider that stands in.**  OpenAI, which the turn
begins with, is within the ceiling of ten cents; Claude, which it moves to, is not. -/
theorem deep_ceiling_exceeded : ∃ e s h h', sampleDeepTurn = some (e, s, h, h') ∧
    ∃ x ∈ gatewayCalls (marks h'),
      withinCeiling e s.history ⟨x.1.provider, x.1.model⟩ = false := by
  have hrun : (sampleDeepTurn.any fun (e, s, _, h') => (gatewayCalls (marks h')).any fun x =>
      !withinCeiling e s.history ⟨x.1.provider, x.1.model⟩) = true := by
    decide +kernel
  obtain ⟨⟨e, s, h, h'⟩, hturn, hany⟩ := (Option.any_eq_true _ _).1 hrun
  obtain ⟨x, hx, hnot⟩ := List.any_eq_true.1 hany
  exact ⟨e, s, h, h', hturn, x, hx, by simpa using hnot⟩

/-- The turn, its two parts run to their ends. -/
theorem deep_ceiling_iff_sample : ∃ e s r s' h evs,
    Runs 0 (beginTurn sampleContext sampleConversation 9 "Salom" .DEEP) [] (pure (e, s)) h ∧
    Runs 0 (runTurn e s) h (pure (r, s')) (evs ++ h) ∧
    ((∀ x ∈ gatewayCalls (marks evs),
        withinCeiling e s.history ⟨x.1.provider, x.1.model⟩ = true) ↔
      ∀ provider, StandsIn 7 (marks evs) provider →
        withinCeiling e s.history ⟨provider, defaultModelFor provider⟩ = true) := by
  have hok : (play (sampleOracle sampleStreams) 0
      (beginTurn sampleContext sampleConversation 9 "Salom" .DEEP) []).1.isOk = true := by
    decide +kernel
  match hb : play (sampleOracle sampleStreams) 0
      (beginTurn sampleContext sampleConversation 9 "Salom" .DEEP) [] with
  | (.error _, _) =>
    rw [hb] at hok
    simp [Except.isOk, Except.toBool] at hok
  | (.ok (e, s), h) =>
    obtain ⟨r, s', evs, hplay, -, -⟩ :=
      play_turn (O := sampleOracle sampleStreams) (runTurn_emits (p := 0) e s) h
    exact ⟨e, s, r, s', h, evs, runs_of_play hb, runs_of_play hplay,
      deep_ceiling_iff (runs_of_play hb) (runs_of_play hplay)⟩

end Sample

end Doda
