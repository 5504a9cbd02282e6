import Doda.Turn.Facts

/-!
# Fallback safety

A turn moves to another provider at most once, and only from its first gateway call,
when that call failed before anything came of it, the customer has opted in, and the
other provider is the first that may stand in.  What a turn stores of the assistant
carries the provider and model of the call it came from.

## Main definitions

* `GatewayStream.Barren` — nothing came of a stream.
* `FallsBack` — a turn moves to another provider, as it may.
* `FallbackSafe` — what a turn shows uses one provider, or falls back once.
-/

namespace Doda

open ReadCommitted

/-- Nothing came of the stream: no text and no tool call. -/
def GatewayStream.Barren (x : GatewayStream) : Prop :=
  (∀ text, .textDelta text ∈ x.events → text = "") ∧ ∀ call, .toolCallReady call ∉ x.events

/-- What the mark shows is done under this provider and model, and changes nothing that
they are chosen by. -/
def Mark.Uses (choice : ResolvedProviderChoice) : Mark → Prop
  | .call r _ => r.provider = choice.provider ∧ r.model = choice.model
  | .stored m =>
    m.role = .ASSISTANT → m.provider = some choice.provider ∧ m.model = some choice.model
  | .strange | .preference => False
  | _ => True

theorem Mark.Under.uses {choice : ResolvedProviderChoice} {m : Mark} (h : m.Under choice) :
    m.Uses choice := by
  cases m <;> first | exact h | trivial

/-- The mark is neither a gateway call nor a message, nor a change of what a provider is
chosen by. -/
def Mark.Aside : Mark → Prop
  | .call _ _ | .stored _ | .strange | .preference => False
  | _ => True

theorem Mark.Aside.uses {m : Mark} (h : m.Aside) (choice : ResolvedProviderChoice) :
    m.Uses choice := by
  cases m <;> first | exact h.elim | trivial

section Deployment

variable [Deployment]

/-- The marks up to where a turn of this provider and model moves to `provider`. -/
structure FallsBack (customerId : Uuid) (choice : ResolvedProviderChoice) (ms : List Mark)
    (provider : Provider) : Prop where
  /-- One gateway call was made, nothing came of it, and it failed for the moment. -/
  failed : ∃ r x err, gatewayCalls ms = [(r, x)] ∧ x.Barren ∧ x.error = some err ∧
    (err = .modelTimeout ∨ err = .modelRateLimited ∨ err = .modelProvider)
  uses : ∀ m ∈ ms, m.Uses choice
  optedIn : .fallbackSetting customerId (some true) ∈ ms
  other : provider ≠ choice.provider
  configured : settings.configured provider = true
  enabled : .providerSetting customerId provider none ∈ ms ∨
    .providerSetting customerId provider (some true) ∈ ms
  /-- No provider before it could stand in. -/
  first : ∃ before after, fallbackOrder = before ++ provider :: after ∧
    ∀ candidate ∈ before, candidate = choice.provider ∨ ¬ settings.configured candidate ∨
      .providerSetting customerId candidate (some false) ∈ ms

/-- The marks use one provider and model, or move once to another. -/
def FallbackSafe (customerId : Uuid) (choice : ResolvedProviderChoice) (ms : List Mark) : Prop :=
  (∀ m ∈ ms, m.Uses choice) ∨
    ∃ ms₁ provider ms₂, ms = ms₁ ++ ms₂ ∧ FallsBack customerId choice ms₁ provider ∧
      ∀ m ∈ ms₂, m.Uses ⟨provider, defaultModelFor provider⟩

variable {customerId : Uuid} {choice : ResolvedProviderChoice} {ms ms' : List Mark}

/-- Nothing that a provider is chosen by is changed. -/
theorem FallbackSafe.plain (h : FallbackSafe customerId choice ms) :
    ∀ m ∈ ms, m ≠ .strange ∧ m ≠ .preference := by
  have hplain : ∀ {choice : ResolvedProviderChoice} {m : Mark}, m.Uses choice →
      m ≠ .strange ∧ m ≠ .preference := by
    rintro choice m h
    constructor <;> rintro rfl <;> exact h
  rcases h with h | ⟨ms₁, provider, ms₂, rfl, hf, hms₂⟩
  · exact fun m hm => hplain (h m hm)
  · exact List.forall_mem_append.2 ⟨fun m hm => hplain (hf.uses m hm),
      fun m hm => hplain (hms₂ m hm)⟩

/-- What is safe was safe all along. -/
theorem FallbackSafe.of_append (h : FallbackSafe customerId choice (ms ++ ms')) :
    FallbackSafe customerId choice ms := by
  rcases h with h | ⟨ms₁, provider, ms₂, heq, hf, hms₂⟩
  · exact .inl fun m hm => h m (List.mem_append_left _ hm)
  · rcases List.append_eq_append_iff.1 heq with ⟨as, rfl, rfl⟩ | ⟨bs, rfl, rfl⟩
    · exact .inl fun m hm => hf.uses m (List.mem_append_left _ hm)
    · exact .inr ⟨ms₁, provider, bs, rfl, hf, fun m hm => hms₂ m (List.mem_append_left _ hm)⟩

/-- What follows and neither calls nor stores changes nothing. -/
theorem FallbackSafe.append (h : FallbackSafe customerId choice ms)
    (hms' : ∀ m ∈ ms', m.Aside) : FallbackSafe customerId choice (ms ++ ms') := by
  rcases h with h | ⟨ms₁, provider, ms₂, rfl, hf, hms₂⟩
  · exact .inl (List.forall_mem_append.2 ⟨h, fun m hm => (hms' m hm).uses choice⟩)
  · refine .inr ⟨ms₁, provider, ms₂ ++ ms', List.append_assoc .., hf, ?_⟩
    exact List.forall_mem_append.2 ⟨hms₂, fun m hm => (hms' m hm).uses _⟩

end Deployment

section Turn

variable [Sha256] [JsonText] [Deployment] {e : TurnContext} {s s' : Turn} {ms : List Mark}
  {r : Except Err Unit} {err : Err}

/-! ## Where nothing was produced -/

omit [Sha256] [JsonText] [Deployment] in
/-- The locals show whether anything came of the events of a stream. -/
theorem barren_of_foldl_take (evs : List GatewayEvent) (s : Turn)
    (ht : (evs.foldl Turn.take s).accumulatedText = "")
    (hc : (evs.foldl Turn.take s).toolCallsThisRound = []) :
    s.accumulatedText = "" ∧ s.toolCallsThisRound = [] ∧
      (∀ text, .textDelta text ∈ evs → text = "") ∧ ∀ call, .toolCallReady call ∉ evs := by
  induction evs generalizing s with
  | nil => exact ⟨ht, hc, by simp, by simp⟩
  | cons ev evs ih =>
    obtain ⟨h₁, h₂, h₃, h₄⟩ := ih (s.take ev) ht hc
    cases ev with
    | textDelta text =>
      obtain ⟨hs, rfl⟩ := String.append_eq_empty_iff.1 h₁
      refine ⟨hs, h₂, fun text' hmem => ?_, by simpa using h₄⟩
      rcases List.mem_cons.1 hmem with heq | hmem
      · exact GatewayEvent.textDelta.inj heq
      · exact h₃ text' hmem
    | toolCallReady call => simp [Turn.take] at h₂
    | structuredOutputReady data => exact absurd h₁ data.dumps_ne_empty
    | completed | gatewayError => exact ⟨h₁, h₂, by simpa using h₃, by simpa using h₄⟩

omit [Sha256] [JsonText] [Deployment] in
theorem Answers.calls_eq {calls : List ToolCallRequest} (h : Answers e calls s ms r s') :
    s'.toolCallsThisRound = s.toolCallsThisRound := by
  induction h with
  | nil | failed => rfl
  | cons _ _ _ _ _ ih => exact ih

omit [Sha256] [JsonText] [Deployment] in
theorem Finishes.error {content reason : String}
    (h : Finishes e s content reason ms (.error err) s') : err = .database := by
  cases h
  rfl

omit [Sha256] [JsonText] [Deployment] in
theorem Stores.error {calls : List ToolCallRequest} (h : Stores e s calls ms r)
    (hr : r = .error err) : err = .database := by
  induction h with
  | nil => simp at hr
  | failed => exact (Except.error.inj hr).symm
  | cons _ _ _ ih => exact ih hr

omit [Sha256] [JsonText] in
/-- **A round whose error may fall back** broke off in its gateway call. -/
theorem Round.broke {o : Option (Except Err Unit)} (h : Round e s ms o s')
    (ho : o = some (.error err)) (hm : s'.mayFallBack err) :
    ∃ ma mp x, ms = ma ++ mp ∧ Asks e s ma x ∧ Pulls x s mp (.error err) s' := by
  obtain ⟨herr, -, -, hc⟩ := hm
  cases h with
  | @broken ma mp x err' s ha hp =>
    obtain rfl : err' = err := by simpa using ho
    exact ⟨ma, mp, x, rfl, ha, hp⟩
  | answered ha hp hc hf =>
    obtain rfl := (Option.some.inj ho ▸ hf).error
    simp [Err.mayFallBack] at herr
  | unstored ha hp hc hs =>
    obtain rfl := hs.error (Option.some.inj ho)
    simp [Err.mayFallBack] at herr
  | refused ha hp hc' => exact absurd hc hc'
  | unreported ha hp hc hs hw hmf content hf =>
    obtain rfl := Except.error.inj (Option.some.inj ho)
    obtain rfl := hf.error
    simp [Err.mayFallBack] at herr
  | reported ha hp hc hs hmf hw action hf taken =>
    cases taken with
    | true => simp at ho
    | false =>
      obtain rfl : .generatorExit = err := by simpa using ho
      simp [Err.mayFallBack] at herr
  | unanswered ha hp hc' hs hw hr =>
    rw [hr.calls_eq] at hc
    exact absurd hc hc'
  | next => simp at ho

omit [Sha256] [JsonText] in
/-- The number of the round that an error leaves. -/
theorem Rounds.le_roundIndex {n : ℕ} (h : Rounds e n s ms r s') (hr : r = .error err)
    (hm : err.mayFallBack = true) : settings.maxToolRounds - n ≤ s'.roundIndex := by
  induction h with
  | exhausted hf =>
    obtain rfl := (hr ▸ hf).error
    simp [Err.mayFallBack] at hm
  | ends h => exact h.kept.2.ge
  | next _ _ ih =>
    have := ih hr
    omega

omit [Sha256] [JsonText] in
/-- **Rounds whose error may fall back** are the first alone. -/
theorem Rounds.broke {n : ℕ} (h : Rounds e n s ms r s') (hr : r = .error err)
    (hn : n ≤ settings.maxToolRounds) (hm : s'.mayFallBack err) :
    ∃ i ma mp x, ms = ma ++ mp ∧ Asks e (s.beginRound i) ma x ∧
      Pulls x (s.beginRound i) mp (.error err) s' := by
  cases h with
  | exhausted hf =>
    obtain ⟨herr, -⟩ := hm
    obtain rfl := (hr ▸ hf).error
    simp [Err.mayFallBack] at herr
  | ends h => exact ⟨_, h.broke (by rw [hr]) hm⟩
  | next _ h =>
    have hle := h.le_roundIndex hr hm.1
    have hzero := hm.2.1
    omega

omit [Sha256] [JsonText] in
/-- The one gateway call failed with this error, and nothing came of it. -/
theorem Rounds.barren {n : ℕ} (h : Rounds e n s ms r s') (hr : r = .error err)
    (hn : n ≤ settings.maxToolRounds) (hm : s'.mayFallBack err) :
    ∃ s₀ : Turn, s₀.choice = s.choice ∧ ∃ x,
      ms = .call (e.request s₀) x :: x.events.filterMap GatewayEvent.chunk ∧ x.Barren ∧
        x.error = some err := by
  obtain ⟨i, ma, mp, x, rfl, ha, hp⟩ := h.broke hr hn hm
  obtain ⟨herr, -, ht, hc⟩ := hm
  refine ⟨s.beginRound i, rfl, x, ?_⟩
  generalize hr' : Except.error err = r' at hp
  cases hp with
  | whole =>
    obtain ⟨-, -, hb⟩ := barren_of_foldl_take _ _ ht hc
    have hx : x.error = some err := by
      cases hx : x.error with
      | none => simp [hx] at hr'
      | some err' => simpa [hx] using hr'.symm
    cases ha with
    | configured => exact ⟨rfl, hb, hx⟩
    | null => simp [nullGatewayStream] at hx
  | lost evs evs' text =>
    obtain rfl := Except.error.inj hr'
    simp [Err.mayFallBack] at herr

/-! ## The provider that stands in -/

omit [Sha256] [JsonText] in
theorem Picks.aside {customerId : Uuid} {excluding : Provider} {candidates : List Provider}
    {o : Option Provider} (h : Picks customerId excluding candidates ms o) :
    ∀ m ∈ ms, m.Aside := by
  induction h with
  | none => exact List.forall_mem_nil _
  | skipped _ _ ih => exact ih
  | disabled _ _ _ ih => exact List.forall_mem_cons.2 ⟨trivial, ih⟩
  | picked => exact List.forall_mem_singleton.2 trivial

omit [Sha256] [JsonText] in
theorem Picks.gatewayCalls {customerId : Uuid} {excluding : Provider}
    {candidates : List Provider} {o : Option Provider}
    (h : Picks customerId excluding candidates ms o) (x : Option Bool) :
    Doda.gatewayCalls (.fallbackSetting customerId x :: ms) = [] := by
  refine List.filterMap_eq_nil_iff.2 (List.forall_mem_cons.2 ⟨rfl, fun m hm => ?_⟩)
  have := h.aside m hm
  cases m <;> first | rfl | exact this.elim

omit [Sha256] [JsonText] in
/-- **The provider picked** is the first of the candidates that may stand in. -/
theorem Picks.first {customerId : Uuid} {excluding provider : Provider}
    {candidates : List Provider} {o : Option Provider}
    (h : Picks customerId excluding candidates ms o) (ho : o = some provider) :
    provider ≠ excluding ∧ settings.configured provider = true ∧
      (.providerSetting customerId provider Option.none ∈ ms ∨
        .providerSetting customerId provider (some true) ∈ ms) ∧
      ∃ before after, candidates = before ++ provider :: after ∧
        ∀ candidate ∈ before, candidate = excluding ∨ ¬ settings.configured candidate ∨
          .providerSetting customerId candidate (some false) ∈ ms := by
  induction h with
  | none => simp at ho
  | @skipped candidate rest ms r hs _ ih =>
    obtain ⟨h₁, h₂, h₃, before, after, rfl, h₄⟩ := ih ho
    exact ⟨h₁, h₂, h₃, candidate :: before, after, rfl,
      List.forall_mem_cons.2 ⟨hs.imp_right .inl, h₄⟩⟩
  | @disabled candidate rest ms r hn hc _ ih =>
    obtain ⟨h₁, h₂, h₃, before, after, rfl, h₄⟩ := ih ho
    refine ⟨h₁, h₂, h₃.imp (List.mem_cons_of_mem _) (List.mem_cons_of_mem _),
      candidate :: before, after, rfl, List.forall_mem_cons.2 ⟨.inr (.inr List.mem_cons_self), ?_⟩⟩
    exact fun c hc => (h₄ c hc).imp_right fun h => h.imp_right (List.mem_cons_of_mem _)
  | @picked candidate rest hn hc x hx =>
    obtain rfl := Option.some.inj ho
    refine ⟨hn, hc, ?_, [], rest, rfl, List.forall_mem_nil _⟩
    cases x with
    | none => exact .inl List.mem_cons_self
    | some b =>
      obtain rfl : b = true := hx
      exact .inr List.mem_cons_self

/-! ## The turn -/

omit [Sha256] [JsonText] in
/-- **The rounds with their fallback are safe.** -/
theorem Loop.fallbackSafe (h : Loop e s ms r s') :
    FallbackSafe e.context.customerId s.choice ms := by
  have hrounds : ∀ {s s' : Turn} {ms : List Mark} {r : Except Err Unit},
      Rounds e settings.maxToolRounds s ms r s' → ∀ m ∈ ms, m.Uses s.choice :=
    fun h m hm => (h.under m hm).uses
  cases h with
  | done h | raised h => exact .inl (hrounds h)
  | optedOut h _ x => exact FallbackSafe.append (.inl (hrounds h)) (by simp [Mark.Aside])
  | unpicked h _ x _ hp =>
    exact FallbackSafe.append (.inl (hrounds h)) (List.forall_mem_cons.2 ⟨trivial, hp.aside⟩)
  | unread h _ hms =>
    refine FallbackSafe.append (.inl (hrounds h)) fun m hm => ?_
    have := hms m hm
    cases m <;> trivial
  | @fallback ms₁ err s₁ mp provider ms₂ r s' h hm x hx hp h' =>
    obtain ⟨hne, hc, hen, before, after, horder, hbefore⟩ := hp.first rfl
    rw [h.choice_eq] at hne hbefore
    have huses := hrounds h
    obtain ⟨s₀, hs₀, x', rfl, hb, herr⟩ := h.barren rfl le_rfl hm
    refine .inr ⟨_, provider, ms₂, rfl, ?_, hrounds h'⟩
    have hchunks : gatewayCalls (x'.events.filterMap GatewayEvent.chunk) = [] :=
      gatewayCalls_of_follows (chunk_follows s.choice x'.events)
    refine {
      failed := ⟨e.request s₀, x', err, ?_, hb, herr, ?_⟩
      uses := ?_
      optedIn := ?_
      other := hne
      configured := hc
      enabled := ?_
      first := ⟨before, after, horder, fun c hc => ?_⟩ }
    · rw [gatewayCalls_append, hp.gatewayCalls x, List.append_nil]
      change (e.request s₀, x') :: gatewayCalls (x'.events.filterMap GatewayEvent.chunk) = _
      rw [hchunks]
    · have := hm.1
      cases err <;> simp_all [Err.mayFallBack]
    · exact List.forall_mem_append.2 ⟨huses, List.forall_mem_cons.2
        ⟨trivial, fun m hm => (hp.aside m hm).uses _⟩⟩
    · obtain rfl : x = some true := by
        cases x with
        | none => simp at hx
        | some b => simpa using hx
      exact List.mem_append_right _ List.mem_cons_self
    · exact hen.imp (fun h => List.mem_append_right _ (List.mem_cons_of_mem _ h))
        fun h => List.mem_append_right _ (List.mem_cons_of_mem _ h)
    · exact (hbefore c hc).imp_right fun h => h.imp_right fun h =>
        List.mem_append_right _ (List.mem_cons_of_mem _ h)

omit [Sha256] [JsonText] [Deployment] in
theorem Mark.Reads.aside {m : Mark} (h : m.Reads) : m.Aside := by
  cases m <;> trivial

omit [Sha256] [JsonText] in
theorem Reconciles.aside {status : UsageEventStatus} (h : Reconciles e s status ms r) :
    ∀ m ∈ ms, m.Aside := by
  cases h with
  | settled hp t hl | unrecorded hp t hl =>
    refine List.forall_mem_append.2 ⟨List.forall_mem_cons.2 ⟨trivial, ?_⟩, by simp [Mark.Aside]⟩
    exact fun m hm => (hl.reads m hm).aside
  | unpriced => exact List.forall_mem_nil _
  | missing t => simp [Mark.Aside]
  | failed hf hms => exact fun m hm => (hms m hm).aside

omit [Sha256] [JsonText] in
theorem Turns.fallbackSafe (h : Turns e s ms r s') :
    FallbackSafe e.context.customerId s.choice ms := by
  cases h with
  | settled hl hs =>
    refine hl.fallbackSafe.append ?_
    cases hs with
    | completed hr taken => exact List.forall_mem_append.2 ⟨hr.aside, by simp [Mark.Aside]⟩
    | raised hr | unsettled hr => exact hr.aside

/-! ## The beginning -/

/-- What is seen before a turn's first gateway call: no call, no chunk, and no message but
the user's. -/
def Mark.Beginning : Mark → Prop
  | .stored m => m.role = .USER
  | .call _ _ | .chunk _ _ | .usage _ | .strange | .preference => False
  | _ => True

omit [Sha256] [JsonText] [Deployment] in
theorem Mark.Prelude.beginning {m : Mark} (h : m.Prelude) : m.Beginning := by
  cases m <;> trivial

omit [Sha256] [JsonText] in
theorem Begins.beginning {context : WorkspaceContext} {conversation : Conversation}
    {traceId : Uuid} {content : String} {mode : ChatMode}
    (h : Begins context conversation traceId content mode ms e s) : ∀ m ∈ ms, m.Beginning := by
  cases h with
  | begun id createdAt hmf choice x hx instructions db history hh hp estimate he hd hr =>
    cases hr with
    | reserved t hl hcap =>
      refine List.forall_mem_append.2 ⟨List.forall_mem_cons.2 ⟨rfl, fun m hm => ?_⟩, ?_⟩
      · have := hmf m hm
        cases m <;> trivial
      · refine List.forall_mem_cons.2 ⟨trivial, List.forall_mem_cons.2 ⟨trivial, ?_⟩⟩
        refine List.forall_mem_append.2 ⟨List.forall_mem_cons.2 ⟨trivial, fun m hm => ?_⟩,
          List.forall_mem_singleton.2 trivial⟩
        have := hl.reads m hm
        cases m <;> trivial

omit [Sha256] [JsonText] [Deployment] in
theorem Mark.Beginning.plain {m : Mark} (h : m.Beginning) : m ≠ .strange ∧ m ≠ .preference := by
  constructor <;> rintro rfl <;> exact h

/-! ## Every run -/

omit [Sha256] [JsonText] [Deployment] in
/-- A statement that shows no change of them leaves pins, preferences and settings alone. -/
theorem effect_of_mark {q : Stmt Row} {x : q.Res}
    (hm : ∀ m ∈ stmtMark q x, m ≠ .strange ∧ m ≠ .preference) {k : Key}
    (hk : k.ofChoice = true) (v : Option (Row k)) : q.effect k x v = v := by
  refine Stmt.effect_of_not_touches hk ?_ x v
  fun_cases stmtMark q x
  all_goals simp_all [stmtMark, Stmt.touches, Key.ofChoice]

variable {p : ℕ} {context : WorkspaceContext} {conversation : Conversation} {traceId : Uuid}
  {content : String} {mode : ChatMode}

omit [Sha256] [JsonText] in
theorem beginTurn_beginning :
    Emits mark p (fun ms _ => ∀ m ∈ ms, m.Beginning) (fun ms _ => ∀ m ∈ ms, m.Beginning)
      (beginTurn context conversation traceId content mode) :=
  (beginTurn_emits context conversation traceId content mode).mono (fun _ _ h => h.beginning)
    fun _ _ h m hm => (h m hm).beginning

omit [Sha256] [JsonText] in
theorem Begins.context_eq (h : Begins context conversation traceId content mode ms e s) :
    e.context = context := by
  cases h
  rfl

/-- `stream_message` once the budget is reserved. -/
theorem rest_fallbackSafe (e : TurnContext) (s : Turn) :
    Emits mark p (fun ms _ => FallbackSafe e.context.customerId s.choice ms)
      (fun ms _ => FallbackSafe e.context.customerId s.choice ms) (do
        let (r, s) ← runTurn e s
        match r with
        | .ok _ => pure ()
        | .error err =>
          if err.isException then
            if s.started then
              let _ ← call (Call.send .error)
            else throw err) := by
  refine Emits.bind (Emits.mono (runTurn_emits e s) (fun _ _ h => h.fallbackSafe)
    fun _ _ => False.elim) ?_
  rintro ms ⟨r, s'⟩ h
  have hpure : Emits mark p (After ms fun ms _ => FallbackSafe e.context.customerId s.choice ms)
      (After ms fun ms _ => FallbackSafe e.context.customerId s.choice ms)
      (pure () : Session Unit) := by
    refine Emits.pure_iff.2 ?_
    rw [After, List.append_nil]
    exact h
  cases r with
  | ok u => exact hpure
  | error err =>
    dsimp only
    split
    · split
      · refine Emits.call_bind fun taken => Emits.pure_iff.2 ?_
        exact h.append (by simp [callMark, Mark.Aside])
      · refine Emits.throw_iff.2 ?_
        rw [After, List.append_nil]
        exact h
    · exact hpure

/-- **Fallback safety.**  At any point of any run of `stream_message`, whatever the
database, the gateways and the client answer: no pin, preference or setting was changed;
and the turn is still before its first gateway call, or what it shows since is safe for
the provider and model it began with. -/
theorem stream_message_fallback_safe {h h' : Hist} {m : Session Unit}
    (hr : Runs p (streamMessage context conversation traceId content mode) h m h') :
    ∃ evs, h' = evs ++ h ∧
      (∀ q x, .ran p q x ∈ evs → ∀ k : Key, k.ofChoice = true → ∀ v, q.effect k x v = v) ∧
      ((∀ a ∈ marks evs, a.Beginning) ∨
        ∃ e s evs₀ evs₁, evs = evs₁ ++ evs₀ ∧
          Runs p (beginTurn context conversation traceId content mode) h (pure (e, s))
            (evs₀ ++ h) ∧
          (∀ a ∈ marks evs₀, a.Beginning) ∧
          FallbackSafe context.customerId s.choice (marks evs₁)) := by
  have hkept : ∀ {evs : Hist}, (∀ a ∈ marks evs, a ≠ .strange ∧ a ≠ .preference) →
      ∀ q x, .ran p q x ∈ evs → ∀ k : Key, k.ofChoice = true → ∀ v, q.effect k x v = v :=
    fun hm q x hq k hk v =>
      effect_of_mark (fun a ha => hm a (mem_trace.2 ⟨_, hq, Option.mem_def.1 ha⟩)) hk v
  have hbeginning : ∀ {m : Session (TurnContext × Turn)} {evs : Hist},
      Runs p (beginTurn context conversation traceId content mode) h m (evs ++ h) →
      ∀ a ∈ marks evs, a.Beginning := fun hr =>
    beginTurn_beginning.throughout (fun _ _ h a ha => h a (List.mem_append_left _ ha)) hr
  rcases hr.bind_cases with ⟨m₁, -, hb⟩ | ⟨⟨e, s⟩, h₁, hb, hf⟩
  · obtain ⟨evs, rfl⟩ := hb.suffix
    have := hbeginning hb
    exact ⟨evs, rfl, hkept fun a ha => (this a ha).plain, .inl this⟩
  · obtain ⟨evs₀, rfl⟩ := hb.suffix
    obtain ⟨evs₁, rfl⟩ := hf.suffix
    have hb' := hbeginning hb
    obtain ⟨ms, -, hbegins⟩ := (beginTurn_emits ..).runs hb
    have hcontext := Begins.context_eq (Emits.pure_iff.1 hbegins)
    have hsafe := (rest_fallbackSafe e s).throughout (fun _ _ h => h.of_append) hf
    rw [hcontext] at hsafe
    refine ⟨evs₁ ++ evs₀, by rw [List.append_assoc], hkept ?_,
      .inr ⟨e, s, evs₀, evs₁, rfl, hb, hb', hsafe⟩⟩
    rw [marks, trace_append]
    exact List.forall_mem_append.2 ⟨fun a ha => (hb' a ha).plain, hsafe.plain⟩

end Turn

/-! ## A sample turn -/

section Sample

/-- A digest that leaves its text alone. -/
@[reducible] def plainSha : Sha256 where
  hexdigest := id

/-- Floats as they are written, and the nesting that the interpreter has room for. -/
@[reducible] def plainJsonText : JsonText where
  nesting := 9000
  floatRepr s := if h : s = "" then ⟨"0.0", zero_ne_empty⟩ else ⟨s, h⟩

/-- The default settings with a credential for every provider; prices are rounded to
whole cents. -/
@[reducible] def sampleDeployment : Deployment where
  settings := { configured := fun _ => true }
  costCents pricing input output :=
    (2 * (input * pricing.inputPerMillion + output * pricing.outputPerMillion) + 1000000) / 2000000
  isAlnum _ := true
  detectLanguage _ := none
  listMyOpenTasksArgs _ := .ok 10
  telegramSendMessageArgs _ := .ok ()

attribute [local instance] plainSha plainJsonText sampleDeployment

/-- A database without rows but the ledger's, whose customer has opted in to fallback; a
provider answers `streams`. -/
def sampleOracle (streams : Provider → GatewayStream) : Oracle Row Answer where
  stmt _ q := match q with
    | .get (.customerAIFallbackSetting _) => some (some true)
    | .get _ => some none
    | .view => some []
    | .forUpdate (.aiBudgetLedger _ _) => some (some {})
    | .forUpdate _ => some none
    | .skipLocked _ _ => some []
    | .tryInsert _ => some true
    | .insert _ | .update _ _ | .delete _ => some ()
  call _ e := match e with
    | .streamChat r => streams r.provider
    | e => sampleAnswer e
  commit _ := some []
where
  /-- The other calls. -/
  sampleAnswer : (e : Call) → Answer e
    | .received _ | .authenticates _ | .xack _ | .entryFailed _ => ()
    | .uuid4 => BitVec.ofNat 128 5
    | .tokenUrlsafe => "token"
    | .utcnow _ => (0 : ℕ)
    | .scanOrder rows => ⟨rows, .refl rows⟩
    | .xadd _ => .added
    | .xreadgroup _ => []
    | .post _ _ _ => .connectError
    | .streamChat _ => { events := [] }
    | .send _ => true

/-- OpenAI times out, Claude answers. -/
def sampleStreams : Provider → GatewayStream
  | .OPENAI => { events := [], error := some .modelTimeout }
  | _ => { events := [.textDelta "Salom", .completed ⟨40, 20, 0⟩ "stop"] }

/-- User 3 of customer 7 says something in conversation 8 of workspace 2. -/
def sampleContext : WorkspaceContext := ⟨7, 2, 3, .MEMBER⟩

/-- The conversation. -/
def sampleConversation : Conversation := { id := 8, customerId := 7, workspaceId := 2 }

/-- The rows of a customer with an owner, who is user 3, a workspace and a conversation. -/
def sampleRows : List { v : Version Row // v.1.housekeeping = true } :=
  [⟨⟨.workspaceTenantIndex 2, some (7 : Uuid)⟩, rfl⟩,
    ⟨⟨.workspace 2, some { customerId := 7, name := "main" }⟩, rfl⟩,
    ⟨⟨.customerMembership 11,
      some { customerId := 7, userId := 3, role := .CUSTOMER_OWNER }⟩, rfl⟩,
    ⟨⟨.conversation 8, some sampleConversation⟩, rfl⟩]

/-- The world's `i`-th answer: identifiers and clock readings go on, and a gateway answers
`streams`. -/
def numberedAnswer (streams : GatewayRequest → GatewayStream) (i : ℕ) : (e : Call) → Answer e
  | .uuid4 => BitVec.ofNat 128 (100 + i)
  | .utcnow _ => i
  | .streamChat r => streams r
  | e => sampleOracle.sampleAnswer e

/-- The turn's run: it moves from OpenAI to Claude. -/
theorem stream_message_fallback_safe_sample :
    ∃ evs, (gatewayCalls (marks evs)).map (·.1.provider) = [.OPENAI, .CLAUDE] ∧
      (play (sampleOracle sampleStreams) 0
        (streamMessage sampleContext sampleConversation 9 "Salom" .STANDARD) []).2 = evs ++ [] ∧
      ∃ e s evs₀ evs₁, evs = evs₁ ++ evs₀ ∧
        Runs 0 (beginTurn sampleContext sampleConversation 9 "Salom" .STANDARD) []
          (pure (e, s)) (evs₀ ++ []) ∧
        FallbackSafe 7 s.choice (marks evs₁) := by
  obtain ⟨evs, hevs, -, hsafe⟩ := stream_message_fallback_safe (play_runs
    (O := sampleOracle sampleStreams) (p := 0)
    (streamMessage sampleContext sampleConversation 9 "Salom" .STANDARD) [])
  have hcalls : (gatewayCalls (marks (play (sampleOracle sampleStreams) 0
      (streamMessage sampleContext sampleConversation 9 "Salom" .STANDARD) []).2)).map
      (·.1.provider) = [.OPENAI, .CLAUDE] := by
    decide +kernel
  rw [hevs, List.append_nil] at hcalls
  refine ⟨evs, hcalls, hevs, ?_⟩
  rcases hsafe with hbeginning | ⟨e, s, evs₀, evs₁, rfl, hb, -, hsafe⟩
  · have hnone : gatewayCalls (marks evs) = [] := by
      refine List.filterMap_eq_nil_iff.2 fun m hm => ?_
      have := hbeginning m hm
      cases m <;> first | rfl | exact this.elim
    simp [hnone] at hcalls
  · exact ⟨e, s, evs₀, evs₁, rfl, hb, hsafe⟩

end Sample

end Doda
