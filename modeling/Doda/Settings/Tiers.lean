import Doda.Api.Conversations
import Doda.Lib.Raises
import Doda.Turn.Fallback

/-!
# The tiers of a provider choice

A turn takes provider and model from the first tier that has a choice: the
conversation's pin, the user's saved choice, the workspace's, the system default.  A
saved model is any text, so the pair a turn ends up with need not have a price.

## Main definitions

* `decidingTier` — the first tier that has a choice.
* `AIPreference.Priced` — its model, or the default in its place, has a price.
* `ReadsAs` — what a row is wherever a run reads it.
* `provider_choice_usable_iff` — when a stored choice is usable.
-/

namespace Doda

open ReadCommitted

section Tiers

variable [Deployment]

/-- The choice a conversation is pinned to. -/
def Conversation.pin (conversation : Conversation) : Option AIPreference :=
  conversation.pinnedProvider.map (⟨·, conversation.pinnedModel⟩)

/-- The first tier that has a choice. -/
def decidingTier (conversation : Conversation) (user workspace : Option AIPreference) :
    AIPreference :=
  (conversation.pin <|> user <|> workspace).getD ⟨settings.defaultProvider, none⟩

/-- What a turn makes of a tier: its own provider, with its own model or that provider's
default. -/
def AIPreference.choice (tier : AIPreference) : ResolvedProviderChoice :=
  ⟨tier.provider, modelOr tier.model tier.provider⟩

/-- The tier names a model that is listed under its provider, or names none and the default
model of its provider is listed. -/
def AIPreference.Priced (tier : AIPreference) : Prop :=
  match tier.model.filter (· ≠ "") with
  | some model => model ∈ (modelPricing tier.provider).map (·.1)
  | none => defaultModelFor tier.provider ∈ (modelPricing tier.provider).map (·.1)

omit [Deployment] in
/-- A key is found just if it is listed. -/
theorem isSome_lookup {β : Type} {l : List (String × β)} {x : String} :
    (l.lookup x).isSome = true ↔ x ∈ l.map (·.1) := by
  induction l with
  | nil => simp
  | cons a l ih =>
    rw [List.lookup_cons, List.map_cons, List.mem_cons]
    by_cases hx : x = a.1
    · simp [hx]
    · have hne : (x == a.1) = false := by simpa using hx
      simp [hne, hx, ih]

theorem AIPreference.priced_iff {tier : AIPreference} :
    tier.Priced ↔
      ((modelPricing tier.choice.provider).lookup tier.choice.model).isSome = true := by
  rw [isSome_lookup, Priced, choice, modelOr.eq_def]
  cases tier.model with
  | none => rfl
  | some model =>
    by_cases hm : model = ""
    · rw [Option.filter_some_neg (by simpa using hm)]
      simp [hm]
    · rw [Option.filter_some_pos (by simpa using hm)]
      simp [hm]

end Tiers

/-! ## Reads -/

/-- Wherever the run reads the row, it is this. -/
def ReadsAs (k : Key) (x : Option (Row k)) (evs : Hist) : Prop :=
  ∀ p y, .ran p (.get k) y ∈ evs → y = x

@[simp] theorem readsAs_nil {k : Key} {x : Option (Row k)} : ReadsAs k x [] := by
  simp [ReadsAs]

theorem readsAs_get {k : Key} {x y : Option (Row k)} {p : ℕ} {evs : Hist} :
    ReadsAs k x (.ran p (.get k) y :: evs) ↔ y = x ∧ ReadsAs k x evs := by
  constructor
  · intro h
    exact ⟨h p y List.mem_cons_self, fun q z hz => h q z (List.mem_cons_of_mem _ hz)⟩
  · rintro ⟨rfl, h⟩ q z hz
    rcases List.mem_cons.1 hz with hz | hz
    · cases hz
      rfl
    · exact h q z hz

theorem readsAs_get_ne {k k' : Key} {x : Option (Row k)} {y : Option (Row k')} {p : ℕ}
    {evs : Hist} (hk : k' ≠ k) : ReadsAs k x (.ran p (.get k') y :: evs) ↔ ReadsAs k x evs := by
  refine ⟨fun h q z hz => h q z (List.mem_cons_of_mem _ hz), fun h q z hz => ?_⟩
  rcases List.mem_cons.1 hz with hz | hz
  · cases hz
    exact absurd rfl hk
  · exact h q z hz

theorem ReadsAs.late {k : Key} {x : Option (Row k)} {evs₂ evs₁ : Hist}
    (h : ReadsAs k x (evs₂ ++ evs₁)) : ReadsAs k x evs₂ :=
  fun p y hy => h p y (List.mem_append_left _ hy)

theorem ReadsAs.early {k : Key} {x : Option (Row k)} {evs₂ evs₁ : Hist}
    (h : ReadsAs k x (evs₂ ++ evs₁)) : ReadsAs k x evs₁ :=
  fun p y hy => h p y (List.mem_append_right _ hy)

theorem readsAs_trace {k : Key} {x : Option (Row k)} {evs : Hist} :
    ReadsAs k x (trace some evs) ↔ ReadsAs k x evs := by
  simp [ReadsAs, mem_trace]

section Resolution

variable [Deployment] {p : ℕ} {h : Hist} (conversation : Conversation)
  (customerId userId workspaceId : Uuid) (user workspace : Option AIPreference)

/-- `resolve_provider_choice`, over the events of its run. -/
theorem resolveProviderChoice_emits :
    Emits some p (fun evs choice => ReadsAs (.userAIPreference customerId userId) user evs →
        ReadsAs (.workspaceAIPreference workspaceId) workspace evs →
        choice = (decidingTier conversation user workspace).choice)
      (fun _ e => e = .database)
      (resolveProviderChoice conversation customerId userId workspaceId) := by
  unfold resolveProviderChoice
  cases hpin : conversation.pinnedProvider with
  | some provider =>
    refine Emits.pure_iff.2 fun _ _ => ?_
    simp [decidingTier, Conversation.pin, hpin, AIPreference.choice]
  | none =>
    have hnone : conversation.pin = none := by simp [Conversation.pin, hpin]
    refine Emits.run_bind (fun x => ?_) rfl
    cases x with
    | some preference =>
      refine Emits.pure_iff.2 fun hu _ => ?_
      obtain rfl := hu p (some preference) (by simp)
      simp [decidingTier, hnone, AIPreference.choice]
    | none =>
      refine Emits.run_bind (fun x => ?_) rfl
      cases x with
      | some preference =>
        refine Emits.pure_iff.2 fun hu hw => ?_
        obtain rfl := hu p none (by simp)
        obtain rfl := hw p (some preference) (by simp)
        simp [decidingTier, hnone, AIPreference.choice]
      | none =>
        refine Emits.pure_iff.2 fun hu hw => ?_
        obtain rfl := hu p none (by simp)
        obtain rfl := hw p none (by simp)
        simp [decidingTier, hnone, AIPreference.choice, modelOr]

/-- Every pair of saved choices is read in some run. -/
theorem resolveProviderChoice_runs : ∃ choice evs,
    Runs p (resolveProviderChoice conversation customerId userId workspaceId) h (pure choice)
      (evs ++ h) ∧
    ReadsAs (.userAIPreference customerId userId) user evs ∧
    ReadsAs (.workspaceAIPreference workspaceId) workspace evs := by
  have hne : Key.userAIPreference customerId userId ≠ .workspaceAIPreference workspaceId := nofun
  unfold resolveProviderChoice
  cases conversation.pinnedProvider with
  | some provider => exact ⟨_, [], .refl _ _, readsAs_nil, readsAs_nil⟩
  | none =>
    cases user with
    | some preference =>
      refine ⟨_, [.ran p (.get (.userAIPreference customerId userId)) (some preference)],
        .run_bind (some preference) (.refl _ _), ?_, ?_⟩
      · exact readsAs_get.2 ⟨rfl, readsAs_nil⟩
      · exact (readsAs_get_ne hne).2 readsAs_nil
    | none =>
      refine ⟨(workspace.getD ⟨settings.defaultProvider, none⟩).choice,
        [.ran p (.get (.workspaceAIPreference workspaceId)) workspace,
          .ran p (.get (.userAIPreference customerId userId)) none],
        .run_bind none (.run_bind workspace ?_), ?_, ?_⟩
      · cases workspace <;> exact .refl _ _
      · exact (readsAs_get_ne hne.symm).2 (readsAs_get.2 ⟨rfl, readsAs_nil⟩)
      · exact readsAs_get.2 ⟨rfl, (readsAs_get_ne hne).2 readsAs_nil⟩

end Resolution

/-! ## Turns -/

section Turn

variable [Deployment]

/-- The exception of a model without a price. -/
def unknownModelPricing : Err := .builtin "UnknownModelPricingError"

omit [Deployment] in
theorem addMessage_raises (message : Uuid → Time → Message) :
    Raises (· ≠ unknownModelPricing) (addMessage message) := by
  refine Raises.call_bind fun id => Raises.call_bind fun createdAt => ?_
  exact Raises.run_bind nofun fun _ => Raises.pure _

theorem resolveEffectiveLanguage_raises (conversation : Conversation) (content : String)
    (workspaceId : Uuid) : Raises (· ≠ unknownModelPricing)
      (resolveEffectiveLanguage conversation content workspaceId) := by
  unfold resolveEffectiveLanguage
  split
  · exact Raises.pure _
  · exact Raises.run_bind nofun fun _ => Raises.pure _

omit [Deployment] in
theorem responseLanguageInstruction_raises (language : Option String) :
    Raises (· ≠ unknownModelPricing) (responseLanguageInstruction language) := by
  unfold responseLanguageInstruction
  split
  · exact Raises.pure _
  · split
    · exact Raises.pure _
    · exact Raises.throw_iff.2 (by decide)

omit [Deployment] in
theorem assertProviderEnabled_raises (customerId : Uuid) (provider : Provider) :
    Raises (· ≠ unknownModelPricing) (assertProviderEnabled customerId provider) := by
  refine Raises.bind (Raises.run_bind nofun fun _ => Raises.pure _) fun enabled => ?_
  cases enabled with
  | true => exact Raises.pure _
  | false => exact Raises.throw_iff.2 nofun

theorem reserveBudget_raises (customerId : Uuid) (estimatedCents : ℤ) :
    Raises (· ≠ unknownModelPricing) (reserveBudget customerId estimatedCents) := by
  have hledger : ∀ yearMonth, Raises (· ≠ unknownModelPricing)
      (getOrCreateLockedLedger customerId yearMonth) := fun yearMonth => by
    refine Raises.run_bind nofun fun found => ?_
    cases found with
    | some ledger => exact Raises.pure _
    | none =>
      refine Raises.run_bind nofun fun inserted => ?_
      cases inserted with
      | true => exact Raises.pure _
      | false =>
        refine Raises.run_bind nofun fun found => ?_
        cases found with
        | some ledger => exact Raises.pure _
        | none => exact Raises.throw_iff.2 nofun
  refine Raises.bind (Raises.call_bind fun _ => Raises.pure _) fun yearMonth => ?_
  refine Raises.bind (hledger yearMonth) fun ledger => ?_
  dsimp only
  split
  · exact Raises.bind (Raises.throw_iff.2 nofun) fun _ => Raises.run nofun
  · exact Raises.run nofun

variable {p : ℕ} {context : WorkspaceContext} {conversation : Conversation}
  {user workspace : Option AIPreference} {traceId : Uuid} {content : String} {mode : ChatMode}
  {h evs : Hist} {e : Err}

/-- **A turn with a priced choice** raises no missing price. -/
theorem beginTurn_priced
    (hr : Runs p (beginTurn context conversation traceId content mode) h (throw e) (evs ++ h))
    (hu : ReadsAs (.userAIPreference context.customerId context.userId) user evs)
    (hw : ReadsAs (.workspaceAIPreference context.workspaceId) workspace evs)
    (hp : (decidingTier conversation user workspace).Priced) : e ≠ unknownModelPricing := by
  unfold beginTurn at hr
  split at hr
  · exact hr.raised ((Raises.throw_iff (S := (· ≠ unknownModelPricing))).2 nofun)
  rcases hr.bind_throw with hr | ⟨_, _, evs₁, rfl, -, hr⟩
  · exact hr.raised (addMessage_raises _)
  rcases hr.bind_throw with hr | ⟨_, _, evs₂, rfl, -, hr⟩
  · exact hr.raised (resolveEffectiveLanguage_raises ..)
  rcases hr.bind_throw with hr | ⟨_, _, evs₃, rfl, -, hr⟩
  · exact hr.raised (responseLanguageInstruction_raises _)
  rcases hr.bind_throw with hr | ⟨choice, evs₄, evs₅, rfl, hchoice, hr⟩
  · obtain ⟨_, -, hend⟩ :=
      (resolveProviderChoice_emits _ _ _ _ user workspace).runs hr
    obtain rfl : e = .database := Emits.throw_iff.1 hend
    exact nofun
  · -- the choice is the deciding tier's, and so it has a price
    obtain rfl := (resolveProviderChoice_emits _ _ _ _ user workspace).returned hchoice
      (readsAs_trace.2 hu.late.late.late.early)
      (readsAs_trace.2 hw.late.late.late.early)
    obtain ⟨pricing, hpricing⟩ := Option.isSome_iff_exists.1 (AIPreference.priced_iff.1 hp)
    refine hr.raised (S := (· ≠ unknownModelPricing)) ?_
    refine Raises.bind (assertProviderEnabled_raises _ _) fun _ => ?_
    refine Raises.run_bind nofun fun db => ?_
    simp only [estimateCostCents, hpricing]
    refine Raises.bind (Raises.pure _) fun estimate => ?_
    split
    · exact Raises.bind (Raises.throw_iff.2 nofun) fun _ =>
        Raises.bind (reserveBudget_raises _ _) fun _ => Raises.pure _
    · exact Raises.bind (reserveBudget_raises _ _) fun _ => Raises.pure _

/-- **When a stored choice is usable.**  Whatever the conversation is pinned to and the user
and the workspace have saved: each run that reads them takes provider and model from the
first tier that has a choice, and the pair has a price and no turn raises for the want of one,
just if that tier's model is listed under its provider, or its provider's default is where it
names none. -/
theorem provider_choice_usable_iff (context : WorkspaceContext) (conversation : Conversation)
    (user workspace : Option AIPreference) :
    ((∀ p h evs choice,
        Runs p (resolveProviderChoice conversation context.customerId context.userId
          context.workspaceId) h (pure choice) (evs ++ h) →
        ReadsAs (.userAIPreference context.customerId context.userId) user evs →
        ReadsAs (.workspaceAIPreference context.workspaceId) workspace evs →
        choice = (decidingTier conversation user workspace).choice ∧
          ∀ inputTokens outputTokens, ∃ cents,
            estimateCostCents choice.provider choice.model inputTokens outputTokens =
              pure cents) ∧
      ∀ p h evs traceId content mode e,
        Runs p (beginTurn context conversation traceId content mode) h (throw e) (evs ++ h) →
        ReadsAs (.userAIPreference context.customerId context.userId) user evs →
        ReadsAs (.workspaceAIPreference context.workspaceId) workspace evs →
        e ≠ unknownModelPricing) ↔
      (decidingTier conversation user workspace).Priced := by
  have hresolved : ∀ {p h evs choice},
      Runs p (resolveProviderChoice conversation context.customerId context.userId
        context.workspaceId) h (pure choice) (evs ++ h) →
      ReadsAs (.userAIPreference context.customerId context.userId) user evs →
      ReadsAs (.workspaceAIPreference context.workspaceId) workspace evs →
      choice = (decidingTier conversation user workspace).choice := fun hr hu hw =>
    (resolveProviderChoice_emits _ _ _ _ user workspace).returned hr (readsAs_trace.2 hu)
      (readsAs_trace.2 hw)
  constructor
  · rintro ⟨hchoice, -⟩
    obtain ⟨choice, evs, hr, hu, hw⟩ := resolveProviderChoice_runs (p := 0) (h := [])
      conversation context.customerId context.userId context.workspaceId user workspace
    obtain ⟨rfl, hprice⟩ := hchoice 0 [] evs choice hr hu hw
    obtain ⟨cents, hcents⟩ := hprice 0 0
    rw [AIPreference.priced_iff]
    unfold estimateCostCents at hcents
    split at hcents
    · cases hcents
    · rename_i pricing hpricing
      simp [hpricing]
  · intro hp
    refine ⟨fun p h evs choice hr hu hw => ?_, fun p h evs traceId content mode e hr hu hw =>
      beginTurn_priced hr hu hw hp⟩
    obtain rfl := hresolved hr hu hw
    refine ⟨rfl, fun inputTokens outputTokens => ?_⟩
    obtain ⟨pricing, hpricing⟩ := Option.isSome_iff_exists.1 (AIPreference.priced_iff.1 hp)
    exact ⟨Deployment.costCents pricing inputTokens outputTokens, by
      simp only [estimateCostCents, hpricing]⟩

end Turn

/-! ## A sample pin -/

section Sample

attribute [local instance] plainSha plainJsonText sampleDeployment

/-- A database in which the conversation is there. -/
def conversationOracle : Oracle Row Answer where
  stmt h q := match q with
    | .get (.conversation _) => some (some sampleConversation)
    | .forUpdate (.conversation _) => some (some sampleConversation)
    | q => (sampleOracle sampleStreams).stmt h q
  call := (sampleOracle sampleStreams).call
  commit := (sampleOracle sampleStreams).commit

/-- **A choice that cannot be used.**  The conversation is pinned to Claude with a model of
OpenAI; the next turn raises for the want of a price. -/
theorem pinned_unusable : ∃ pinned,
    (play conversationOracle 0 (switchProvider sampleContext 8 .CLAUDE (some "gpt-5-mini")) []).1 =
      .ok pinned ∧
    (play conversationOracle 1 (streamMessage sampleContext pinned 9 "Salom" .STANDARD) []).1 =
      .error unknownModelPricing := by
  refine ⟨{ sampleConversation with
    pinnedProvider := some .CLAUDE, pinnedModel := some "gpt-5-mini" }, ?_, ?_⟩
  all_goals decide +kernel

end Sample

end Doda
