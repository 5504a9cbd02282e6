import Doda.Turn.Rounds

/-!
# Whole turns

A turn begins with the user's message and a reservation, runs its rounds, and settles
the budget; the request that runs it commits unless an exception leaves it.  As for
the rounds, each part is a relation that its program is in.

## Main definitions

* `Picks`, `Loop` — the choice of a fallback, and the rounds with it.
* `Locks`, `Reserves`, `Reconciles` — what a turn does to the budget.
* `Begins`, `Turns`, `Streams` — the parts of `stream_message`, and the whole.
* `Serves` — the request; `serve_chat_emits`.
-/

namespace Doda

open ReadCommitted

section Turn

variable [Sha256] [JsonText] [Deployment]

/-! ## Fallback -/

/-- The first of some providers that may stand in for another is looked for. -/
inductive Picks (customerId : Uuid) (excluding : Provider) :
    List Provider → List Mark → Option Provider → Prop where
  | none : Picks customerId excluding [] [] none
  | skipped {candidate rest ms r} (hs : candidate = excluding ∨ ¬ settings.configured candidate)
      (h : Picks customerId excluding rest ms r) :
      Picks customerId excluding (candidate :: rest) ms r
  | disabled {candidate rest ms r} (hn : candidate ≠ excluding)
      (hc : settings.configured candidate) (h : Picks customerId excluding rest ms r) :
      Picks customerId excluding (candidate :: rest)
        (.providerSetting customerId candidate (some false) :: ms) r
  | picked {candidate rest} (hn : candidate ≠ excluding) (hc : settings.configured candidate)
      (x : Option Bool) (hx : x.getD true = true) :
      Picks customerId excluding (candidate :: rest) [.providerSetting customerId candidate x]
        (some candidate)

/-- The error and the locals at which a turn may move to another provider. -/
def Turn.mayFallBack (s : Turn) (err : Err) : Prop :=
  err.mayFallBack ∧ s.roundIndex = 0 ∧ s.accumulatedText = "" ∧ s.toolCallsThisRound = []

/-- The locals of a turn that has moved to another provider. -/
def Turn.moveTo (s : Turn) (provider : Provider) : Turn :=
  { s with choice := ⟨provider, defaultModelFor provider⟩ }

/-- A setting was read and no provider found, or it could not be read. -/
def Mark.Setting : Mark → Prop
  | .fallbackSetting _ _ | .providerSetting _ _ (some false) | .failed => True
  | _ => False

/-- The rounds, and once more with another provider where the first may fall back. -/
inductive Loop (e : TurnContext) (s : Turn) : List Mark → Except Err Unit → Turn → Prop where
  | done {ms s'} (h : Rounds e settings.maxToolRounds s ms (.ok ()) s') : Loop e s ms (.ok ()) s'
  | raised {ms err s'} (h : Rounds e settings.maxToolRounds s ms (.error err) s')
      (hn : ¬ s'.mayFallBack err) : Loop e s ms (.error err) s'
  | optedOut {ms err s'} (h : Rounds e settings.maxToolRounds s ms (.error err) s')
      (hm : s'.mayFallBack err) (x : Option Bool) (hx : x.getD false = false) :
      Loop e s (ms ++ [.fallbackSetting e.context.customerId x]) (.error err) s'
  | unpicked {ms err s' mp} (h : Rounds e settings.maxToolRounds s ms (.error err) s')
      (hm : s'.mayFallBack err) (x : Option Bool) (hx : x.getD false = true)
      (hp : Picks e.context.customerId s'.choice.provider fallbackOrder mp none) :
      Loop e s (ms ++ .fallbackSetting e.context.customerId x :: mp) (.error err) s'
  | unread {ms err s' mf} (h : Rounds e settings.maxToolRounds s ms (.error err) s')
      (hm : s'.mayFallBack err) (hmf : ∀ m ∈ mf, m.Setting) (hf : .failed ∈ mf) :
      Loop e s (ms ++ mf) (.error .database) s'
  | fallback {ms err s₁ mp provider ms' r s'}
      (h : Rounds e settings.maxToolRounds s ms (.error err) s₁) (hm : s₁.mayFallBack err)
      (x : Option Bool) (hx : x.getD false = true)
      (hp : Picks e.context.customerId s₁.choice.provider fallbackOrder mp (some provider))
      (h' : Rounds e settings.maxToolRounds (s₁.moveTo provider) ms' r s') :
      Loop e s (ms ++ .fallbackSetting e.context.customerId x :: mp ++ ms') r s'

/-! ## The budget -/

/-- The month of a clock reading, as the ledger names it. -/
def yearMonth (t : Time) : String :=
  Time.padded 4 (Time.date (t / 86400000000)).1 ++ "-" ++
    Time.padded 2 (Time.date (t / 86400000000)).2.1

/-- What a reservation does to its ledger row. -/
def reserveOp (estimatedCents : ℤ) (ledger : AIBudgetLedger) : AIBudgetLedger :=
  { ledger with reservedCents := ledger.reservedCents + estimatedCents }

/-- What a settlement does to its ledger row. -/
def reconcileOp (estimatedCents actualCents : ℤ) (ledger : AIBudgetLedger) : AIBudgetLedger where
  reservedCents := max 0 (ledger.reservedCents - estimatedCents)
  actualCents := ledger.actualCents + actualCents

/-- A ledger row is found or created, and locked. -/
inductive Locks (customerId : Uuid) (ym : String) : List Mark → AIBudgetLedger → Prop where
  | found (l : AIBudgetLedger) : Locks customerId ym [.seen customerId ym (some l)] l
  | created : Locks customerId ym [.seen customerId ym none, .opened customerId ym true] {}
  /-- Another transaction created it first. -/
  | raced (l : AIBudgetLedger) : Locks customerId ym
      [.seen customerId ym none, .opened customerId ym false, .seen customerId ym (some l)] l

/-- The ledger was looked at, or could not be. -/
def Mark.Reads : Mark → Prop
  | .month _ | .seen _ _ _ | .opened _ _ _ | .failed => True
  | _ => False

/-- A reservation succeeds. -/
inductive Reserves (customerId : Uuid) (estimatedCents : ℤ) : List Mark → Prop where
  | reserved {mk : List Mark} {l : AIBudgetLedger} (t : Time)
      (hl : Locks customerId (yearMonth t) mk l)
      (hcap : l.reservedCents + l.actualCents + estimatedCents ≤ settings.budgetHardCents) :
      Reserves customerId estimatedCents
        (.month t :: mk ++ [.updated customerId (yearMonth t) (reserveOp estimatedCents)])

/-- What the calls of a turn cost at the provider and model it ended on. -/
def Turn.actualCents (s : Turn) (pricing : ModelPricing) : ℤ :=
  Deployment.costCents pricing s.totalUsage.inputTokens s.totalUsage.outputTokens

/-- The price of the provider and model in use. -/
def Turn.pricing (s : Turn) : Option ModelPricing :=
  (modelPricing s.choice.provider).lookup s.choice.model

/-- The usage event of a turn. -/
def TurnContext.usageEvent (e : TurnContext) (s : Turn) (actualCents : ℤ)
    (status : UsageEventStatus) (id : Uuid) (createdAt : Time) : AIUsageEvent where
  id := id
  createdAt := createdAt
  customerId := e.context.customerId
  workspaceId := e.context.workspaceId
  conversationId := some e.conversation.id
  traceId := e.traceId
  actorId := actorOf e.context.userId
  provider := s.choice.provider
  model := s.choice.model
  mode := e.mode
  usage := s.totalUsage
  estimatedCostCents := e.totalEstimateCents
  actualCostCents := actualCents
  status := status

/-- The turn settles its budget and records its usage. -/
inductive Reconciles (e : TurnContext) (s : Turn) (status : UsageEventStatus) :
    List Mark → Except Err Unit → Prop where
  | settled {pricing mk l} (hp : s.pricing = some pricing) (t : Time)
      (hl : Locks e.context.customerId (yearMonth t) mk l) (id : Uuid) (createdAt : Time) :
      Reconciles e s status (.month t :: mk ++
        [.updated e.context.customerId (yearMonth t)
          (reconcileOp e.totalEstimateCents (s.actualCents pricing)),
        .usage (e.usageEvent s (s.actualCents pricing) status id createdAt)]) (.ok ())
  | unpriced (hp : s.pricing = none) :
      Reconciles e s status [] (.error (.builtin "UnknownModelPricingError"))
  /-- The row that an insert found is not there. -/
  | missing (t : Time) : Reconciles e s status
      [.month t, .seen e.context.customerId (yearMonth t) none,
        .opened e.context.customerId (yearMonth t) false,
        .seen e.context.customerId (yearMonth t) none] (.error .assertion)
  /-- The ledger could not be settled. -/
  | failed {ms : List Mark} (hf : .failed ∈ ms) (hms : ∀ m ∈ ms, m.Reads) :
      Reconciles e s status ms (.error .database)
  /-- The usage could not be recorded. -/
  | unrecorded {pricing mk l} (hp : s.pricing = some pricing) (t : Time)
      (hl : Locks e.context.customerId (yearMonth t) mk l) :
      Reconciles e s status (.month t :: mk ++
        [.updated e.context.customerId (yearMonth t)
          (reconcileOp e.totalEstimateCents (s.actualCents pricing)), .failed])
        (.error .database)

/-! ## Turns -/

/-- The part of a turn before its first gateway call succeeds. -/
inductive Begins (context : WorkspaceContext) (conversation : Conversation) (traceId : Uuid)
    (content : String) (mode : ChatMode) : List Mark → TurnContext → Turn → Prop where
  | begun {mf mr : List Mark} {pricing : ModelPricing} (id : Uuid) (createdAt : Time)
      (hmf : ∀ m ∈ mf, m.Slight)
      (choice : ResolvedProviderChoice) (x : Option Bool) (hx : x.getD true = true)
      (instructions : String) (db : Db) (history : List ChatTurn)
      (hh : history =
        messagesToHistory (listMessages db conversation.id) settings.maxContextChars)
      (hp : (modelPricing choice.provider).lookup choice.model = some pricing)
      (estimate : ℤ)
      (he : estimate = Deployment.costCents pricing
        (estimateInputTokensFromChars (history.map (·.content.length)).sum)
        (maxOutputTokens mode) * settings.maxToolRounds)
      (hd : mode = .DEEP → estimate ≤ settings.deepCeilingCents)
      (hr : Reserves context.customerId estimate mr) :
      Begins context conversation traceId content mode
        (.stored
            { id, createdAt, customerId := conversation.customerId,
              conversationId := conversation.id, role := .USER, content } ::
          mf ++ .providerSetting context.customerId choice.provider x :: .viewed db :: mr)
        { context, conversation, traceId, mode, instructions,
          maxOutputTokens := maxOutputTokens mode, totalEstimateCents := estimate }
        { choice, history }

/-- The part of a turn after its rounds, which ended in `r`. -/
def settle (e : TurnContext) (r : Except Err Unit) : TurnM Unit :=
  match r with
  | .ok _ => do
    reconcileAndRecord e .RECONCILED
    let s ← get
    yieldChunk (.done s.finalAssistantMessage)
  | .error err => do
    reconcileAndRecord e .REFUNDED
    throw err

/-- The part of a turn after its rounds. -/
inductive Settles (e : TurnContext) (s₁ : Turn) :
    Except Err Unit → List Mark → Except Err Unit → Turn → Prop where
  | completed {mr} (hr : Reconciles e s₁ .RECONCILED mr (.ok ())) (taken : Bool) :
      Settles e s₁ (.ok ()) (mr ++ [.chunk (.done s₁.finalAssistantMessage) taken])
        (if taken then .ok () else .error .generatorExit) { s₁ with started := true }
  | raised {mr err} (hr : Reconciles e s₁ .REFUNDED mr (.ok ())) :
      Settles e s₁ (.error err) mr (.error err) s₁
  | unsettled {mr r err}
      (hr : Reconciles e s₁ (if r.isOk then .RECONCILED else .REFUNDED) mr (.error err)) :
      Settles e s₁ r mr (.error err) s₁

/-- The part of a turn from its first gateway call on. -/
inductive Turns (e : TurnContext) (s : Turn) : List Mark → Except Err Unit → Turn → Prop where
  | settled {ml r₁ s₁ mr r s'} (hl : Loop e s ml r₁ s₁) (hs : Settles e s₁ r₁ mr r s') :
      Turns e s (ml ++ mr) r s'

/-- What is seen of a turn before its reservation. -/
def Mark.Prelude : Mark → Prop
  | .stored m => m.role = .USER
  | .providerSetting _ _ _ | .viewed _ => True
  | m => m.Reads

/-- `stream_message`, as the request drives it. -/
inductive Streams (context : WorkspaceContext) (conversation : Conversation) (traceId : Uuid)
    (content : String) (mode : ChatMode) : List Mark → Except Err Unit → Prop where
  | unbegun {ms err} (hms : ∀ m ∈ ms, m.Prelude) :
      Streams context conversation traceId content mode ms (.error err)
  | completed {mb mt e s s'} (hb : Begins context conversation traceId content mode mb e s)
      (ht : Turns e s mt (.ok ()) s') :
      Streams context conversation traceId content mode (mb ++ mt) (.ok ())
  /-- The client has gone. -/
  | closed {mb mt e s s' err} (hb : Begins context conversation traceId content mode mb e s)
      (ht : Turns e s mt (.error err) s') (hx : err.isException = false) :
      Streams context conversation traceId content mode (mb ++ mt) (.ok ())
  /-- An error after the first chunk is an error chunk. -/
  | reported {mb mt e s s' err} (hb : Begins context conversation traceId content mode mb e s)
      (ht : Turns e s mt (.error err) s') (hx : err.isException = true)
      (hs : s'.started = true) (taken : Bool) :
      Streams context conversation traceId content mode (mb ++ mt ++ [.chunk .error taken])
        (.ok ())
  /-- An error before it leaves the request. -/
  | raised {mb mt e s s' err} (hb : Begins context conversation traceId content mode mb e s)
      (ht : Turns e s mt (.error err) s') (hx : err.isException = true)
      (hs : s'.started = false) :
      Streams context conversation traceId content mode (mb ++ mt) (.error err)

/-! ## The programs -/

variable {p : ℕ}

omit [Sha256] [JsonText] in
theorem pickFallbackFrom_emits (customerId : Uuid) (excluding : Provider)
    (candidates : List Provider) :
    Emits mark p (fun ms r => Picks customerId excluding candidates ms r)
      (fun ms err => err = .database ∧ .failed ∈ ms ∧ ∀ m ∈ ms, m.Setting)
      (pickFallbackFrom customerId excluding candidates) := by
  induction candidates with
  | nil => exact Emits.pure_iff.2 .none
  | cons candidate rest ih =>
    unfold pickFallbackFrom
    by_cases hs : candidate = excluding ∨ ¬ settings.configured candidate
    · rw [if_pos hs]
      exact ih.mono (fun _ _ h => .skipped hs h) fun _ _ h => h
    · rw [if_neg hs]
      obtain ⟨hn, hc⟩ := not_or.1 hs
      refine Emits.bind (S := fun ms b => ∃ x : Option Bool, b = x.getD true ∧
        ms = [.providerSetting customerId candidate x]) ?_ ?_
      · refine Emits.run_bind (fun x => ?_) ⟨rfl, by simp, by simp [Mark.Setting]⟩
        exact Emits.pure_iff.2 ⟨x, rfl, rfl⟩
      · rintro _ b ⟨x, rfl, rfl⟩
        cases hx : x.getD true with
        | true => exact Emits.pure_iff.2 (.picked hn (not_not.1 hc) x hx)
        | false =>
          obtain rfl : x = some false := by
            cases x with
            | none => simp at hx
            | some b => simpa using hx
          refine ih.mono (fun _ _ h => .disabled hn (not_not.1 hc) h) ?_
          rintro ms err ⟨rfl, hf, hms⟩
          refine ⟨rfl, List.mem_append_right _ hf, fun m hm => ?_⟩
          rcases List.mem_append.1 hm with hm | hm
          · rw [List.mem_singleton.1 hm]
            trivial
          · exact hms m hm

omit [Sha256] [JsonText] [Deployment] in
theorem isFallbackEnabled_emits (customerId : Uuid) :
    Emits mark p (fun ms b => ∃ x : Option Bool, b = x.getD false ∧
        ms = [.fallbackSetting customerId x])
      (fun ms err => err = .database ∧ ms = [.failed]) (isFallbackEnabled customerId) := by
  refine Emits.run_bind (fun x => ?_) ⟨rfl, rfl⟩
  exact Emits.pure_iff.2 ⟨x, rfl, rfl⟩

theorem withFallback_emits (e : TurnContext) (s : Turn) :
    (withFallback e).Emits p (Loop e s) s := by
  refine TurnM.Emits.bind (TurnM.Emits.attempt (rounds_emits e settings.maxToolRounds s)
    (R := fun ms r s' => ∃ r', r = .ok r' ∧ Rounds e settings.maxToolRounds s ms r' s')
    fun _ r' _ h => ⟨r', rfl, h⟩) ?_ ?_
  · rintro ms r' s₁ ⟨_, ⟨⟩, h⟩
    cases r' with
    | ok u =>
      refine TurnM.Emits.pure ?_
      rw [List.append_nil]
      exact .done h
    | error err =>
      refine TurnM.Emits.get_bind ?_
      have hiff : (¬ err.mayFallBack = true ∨ s₁.roundIndex ≠ 0 ∨ s₁.accumulatedText ≠ "" ∨
          s₁.toolCallsThisRound ≠ []) ↔ ¬ s₁.mayFallBack err := by
        simp only [Turn.mayFallBack, not_and_or, ne_eq]
      by_cases hm : s₁.mayFallBack err
      · rw [if_neg (hiff.not.2 (not_not.2 hm))]
        refine TurnM.Emits.bind (TurnM.Emits.lift (isFallbackEnabled_emits e.context.customerId)
          (R := fun ms r s' => s' = s₁ ∧ ((∃ x : Option Bool, r = .ok (x.getD false) ∧
              ms = [.fallbackSetting e.context.customerId x]) ∨
            r = .error .database ∧ ms = [.failed])) ?_ ?_) ?_ ?_
        · rintro _ _ ⟨x, rfl, rfl⟩
          exact ⟨rfl, .inl ⟨x, rfl, rfl⟩⟩
        · rintro _ _ ⟨rfl, rfl⟩
          exact ⟨rfl, .inr ⟨rfl, rfl⟩⟩
        · rintro _ b _ ⟨rfl, ⟨x, hx, rfl⟩ | ⟨hx, -⟩⟩
          · obtain rfl := Except.ok.inj hx
            cases hx : x.getD false with
            | false => exact TurnM.Emits.throw (.optedOut h hm x hx)
            | true =>
              refine TurnM.Emits.bind (TurnM.Emits.lift
                (pickFallbackFrom_emits e.context.customerId _ fallbackOrder)
                (R := fun ms' r s' => s' = _ ∧
                  ((∃ r', r = .ok r' ∧ Picks e.context.customerId s'.choice.provider fallbackOrder
                    ms' r') ∨ r = .error .database ∧ .failed ∈ ms' ∧ ∀ m ∈ ms', m.Setting))
                (fun ms' r' h => ⟨rfl, .inl ⟨r', rfl, h⟩⟩) fun ms' err h => ?_) ?_ ?_
              · obtain ⟨rfl, hf, hms⟩ := h
                exact ⟨rfl, .inr ⟨rfl, hf, hms⟩⟩
              · rintro mp r' _ ⟨rfl, ⟨_, ⟨⟩, hp⟩ | ⟨hr, -⟩⟩
                · cases r' with
                  | none =>
                    refine TurnM.Emits.throw ?_
                    have := Loop.unpicked h hm x hx hp
                    simpa using this
                  | some provider =>
                    refine TurnM.Emits.modify_bind ?_
                    refine (rounds_emits e settings.maxToolRounds _).mono fun ms' r s' h' => ?_
                    have := Loop.fallback h hm x hx hp h'
                    simpa using this
                · simp at hr
              · rintro mp err' _ ⟨rfl, ⟨r', hr, -⟩ | ⟨hr, hf, hms⟩⟩
                · simp at hr
                · obtain rfl := Except.error.inj hr
                  refine .unread h hm ?_ (List.mem_append_right _ hf)
                  intro m hm'
                  rcases List.mem_append.1 hm' with hm' | hm'
                  · rw [List.mem_singleton.1 hm']
                    trivial
                  · exact hms m hm'
          · simp at hx
        · rintro _ err' _ ⟨rfl, ⟨x, hx, -⟩ | ⟨hx, rfl⟩⟩
          · simp at hx
          · obtain rfl := Except.error.inj hx
            exact .unread h hm (by simp [Mark.Setting]) (by simp)
      · rw [if_pos (hiff.2 hm)]
        refine TurnM.Emits.throw ?_
        rw [List.append_nil]
        exact .raised h hm
  · rintro _ err _ ⟨r', hr, -⟩
    simp at hr

/-! ### The budget -/

omit [Sha256] [JsonText] [Deployment] in
theorem currentYearMonth_emits :
    Emits mark p (fun ms ym => ∃ t, ym = yearMonth t ∧ ms = [.month t]) (fun _ _ => False)
      currentYearMonth :=
  Emits.call_bind fun t => Emits.pure_iff.2 ⟨t, rfl, rfl⟩

omit [Sha256] [JsonText] [Deployment] in
theorem getOrCreateLockedLedger_emits (customerId : Uuid) (ym : String) :
    Emits mark p (fun ms l => Locks customerId ym ms l)
      (fun ms err => (∀ m ∈ ms, m.Reads) ∧ ((err = .database ∧ .failed ∈ ms) ∨
        (err = .assertion ∧ ms = [.seen customerId ym none, .opened customerId ym false,
          .seen customerId ym none])))
      (getOrCreateLockedLedger customerId ym) := by
  refine Emits.run_bind (fun x => ?_) (by simp [Mark.Reads]; rfl)
  cases x with
  | some l => exact Emits.pure_iff.2 (.found l)
  | none =>
    refine Emits.run_bind (fun inserted => ?_) (by simp [stmtMark, After, Mark.Reads]; rfl)
    cases inserted with
    | true => exact Emits.pure_iff.2 .created
    | false =>
      refine Emits.run_bind (fun x => ?_) (by simp [stmtMark, After, Mark.Reads]; rfl)
      cases x with
      | some l => exact Emits.pure_iff.2 (.raced l)
      | none => exact Emits.throw_iff.2 (by simp [stmtMark, After, Mark.Reads])

omit [Sha256] [JsonText] [Deployment] in
theorem Locks.reads {customerId : Uuid} {ym : String} {mk : List Mark} {l : AIBudgetLedger}
    (hl : Locks customerId ym mk l) : ∀ m ∈ mk, m.Reads := by
  cases hl <;> simp [Mark.Reads]

omit [Sha256] [JsonText] in
theorem reserveBudget_emits (customerId : Uuid) (estimatedCents : ℤ) :
    Emits mark p (fun ms _ => Reserves customerId estimatedCents ms)
      (fun ms _ => ∀ m ∈ ms, m.Reads) (reserveBudget customerId estimatedCents) := by
  refine Emits.bind (currentYearMonth_emits.mono (fun _ _ h => h) fun _ _ => False.elim) ?_
  rintro _ _ ⟨t, rfl, rfl⟩
  refine Emits.bind ((getOrCreateLockedLedger_emits customerId (yearMonth t)).mono
    (fun _ _ h => h) fun ms _ h => List.forall_mem_cons.2 ⟨trivial, h.1⟩) ?_
  intro mk l hl
  rw [after_after, after_after]
  dsimp only
  by_cases hcap : l.reservedCents + l.actualCents + estimatedCents > settings.budgetHardCents
  · rw [if_pos hcap]
    refine Emits.throw_iff.2 ?_
    rw [After, List.append_nil]
    exact List.forall_mem_cons.2 ⟨trivial, hl.reads⟩
  · rw [if_neg hcap]
    refine Emits.run (fun _ => ?_) ?_
    · exact .reserved t hl (not_lt.1 hcap)
    · exact List.forall_mem_append.2
        ⟨List.forall_mem_cons.2 ⟨trivial, hl.reads⟩, by simp [Mark.Reads]⟩

omit [Sha256] [JsonText] [Deployment] in
theorem reconcileBudget_emits (customerId : Uuid) (estimatedCents actualCents : ℤ) :
    Emits mark p (fun ms _ => ∃ t mk l, Locks customerId (yearMonth t) mk l ∧
        ms = .month t :: mk ++
          [.updated customerId (yearMonth t) (reconcileOp estimatedCents actualCents)])
      (fun ms err => (∀ m ∈ ms, m.Reads) ∧ ((err = .database ∧ .failed ∈ ms) ∨
        (err = .assertion ∧ ∃ t, ms = [.month t, .seen customerId (yearMonth t) none,
          .opened customerId (yearMonth t) false, .seen customerId (yearMonth t) none])))
      (reconcileBudget customerId estimatedCents actualCents) := by
  refine Emits.bind (currentYearMonth_emits.mono (fun _ _ h => h) fun _ _ => False.elim) ?_
  rintro _ _ ⟨t, rfl, rfl⟩
  refine Emits.bind ((getOrCreateLockedLedger_emits customerId (yearMonth t)).mono
    (fun _ _ h => h) ?_) ?_
  · rintro ms err ⟨hms, hend⟩
    refine ⟨List.forall_mem_cons.2 ⟨trivial, hms⟩, ?_⟩
    · rcases hend with ⟨he, hf⟩ | ⟨he, rfl⟩
      · exact .inl ⟨he, List.mem_append_right _ hf⟩
      · exact .inr ⟨he, t, rfl⟩
  · intro mk l hl
    rw [after_after, after_after]
    refine Emits.run (fun _ => ⟨t, mk, l, hl, rfl⟩) ⟨?_, .inl ⟨rfl, by simp⟩⟩
    exact List.forall_mem_append.2
      ⟨List.forall_mem_cons.2 ⟨trivial, hl.reads⟩, by simp [Mark.Reads]⟩

omit [Sha256] [JsonText] [Deployment] in
theorem recordUsageEvent_emits (e : TurnContext) (s : Turn) (actualCents : ℤ)
    (status : UsageEventStatus) :
    Emits mark p (fun ms _ => ∃ id createdAt,
        ms = [.usage (e.usageEvent s actualCents status id createdAt)])
      (fun ms err => err = .database ∧ ms = [.failed])
      (recordUsageEvent e.context.customerId e.context.workspaceId (some e.conversation.id)
        e.traceId (actorOf e.context.userId) s.choice e.mode s.totalUsage e.totalEstimateCents
        actualCents status) :=
  Emits.call_bind fun id => Emits.call_bind fun createdAt =>
    Emits.run (fun _ => ⟨id, createdAt, by simp [stmtMark]; rfl⟩) ⟨rfl, rfl⟩

omit [Sha256] [JsonText] in
theorem reconcileAndRecord_emits (e : TurnContext) (status : UsageEventStatus) (s : Turn) :
    (reconcileAndRecord e status).Emits p
      (fun ms r s' => Reconciles e s status ms r ∧ s = s') s := by
  refine TurnM.Emits.get_bind ?_
  refine TurnM.Emits.lift (Q := fun ms r => Reconciles e s status ms (.ok r))
    (X := fun ms err => Reconciles e s status ms (.error err)) ?_
    (fun _ _ h => ⟨h, rfl⟩) fun _ _ h => ⟨h, rfl⟩
  unfold estimateCostCents
  cases hp : (modelPricing s.choice.provider).lookup s.choice.model with
  | none => exact Emits.throw_iff.2 (.unpriced hp)
  | some pricing =>
    refine Emits.bind (S := fun ms c => ms = [] ∧ c = s.actualCents pricing)
      (Emits.pure_iff.2 ⟨rfl, rfl⟩) ?_
    rintro _ _ ⟨rfl, rfl⟩
    rw [after_nil, after_nil]
    refine Emits.bind ((reconcileBudget_emits e.context.customerId e.totalEstimateCents
      (s.actualCents pricing)).mono (fun _ _ h => h) ?_) ?_
    · rintro ms err ⟨hms, ⟨rfl, hf⟩ | ⟨rfl, t, rfl⟩⟩
      · exact .failed hf hms
      · exact .missing t
    · rintro _ _ ⟨t, mk, l, hl, rfl⟩
      refine (recordUsageEvent_emits e s (s.actualCents pricing) status).mono ?_ ?_
      · rintro _ _ ⟨id, createdAt, rfl⟩
        have : Reconciles e s status _ _ := .settled hp t hl id createdAt
        simpa [After] using this
      · rintro _ err ⟨rfl, rfl⟩
        have : Reconciles e s status _ _ := .unrecorded hp t hl
        simpa [After] using this

/-! ### The beginning -/

omit [Sha256] [JsonText] in
theorem resolveEffectiveLanguage_quiet (conversation : Conversation) (content : String)
    (w : Uuid) : Quiet (resolveEffectiveLanguage conversation content w) := by
  unfold resolveEffectiveLanguage
  split
  · exact Only.pure _
  · exact Only.bind (Quiet.run fun _ _ => rfl) fun _ => Only.pure _

omit [Sha256] [JsonText] [Deployment] in
theorem responseLanguageInstruction_quiet (language : Option String) :
    Quiet (responseLanguageInstruction language) := by
  unfold responseLanguageInstruction
  split
  · exact Only.pure _
  · split
    · exact Only.pure _
    · exact Only.throw _

omit [Sha256] [JsonText] in
theorem resolveProviderChoice_quiet (conversation : Conversation) (c u w : Uuid) :
    Quiet (resolveProviderChoice conversation c u w) := by
  unfold resolveProviderChoice
  split
  · exact Only.pure _
  · refine Only.bind (Quiet.run fun _ _ => rfl) fun preference => ?_
    cases preference with
    | some preference => exact Only.pure _
    | none =>
      refine Only.bind (Quiet.run fun _ _ => rfl) fun preference => ?_
      cases preference with
      | some preference => exact Only.pure _
      | none => exact Only.pure _

omit [Sha256] [JsonText] [Deployment] in
theorem assertProviderEnabled_emits (customerId : Uuid) (provider : Provider) :
    Emits mark p (fun ms _ => ∃ x : Option Bool, x.getD true = true ∧
        ms = [.providerSetting customerId provider x])
      (fun ms _ => ∀ m ∈ ms, m.Prelude) (assertProviderEnabled customerId provider) := by
  refine Emits.bind (S := fun ms b => ∃ x : Option Bool, b = x.getD true ∧
    ms = [.providerSetting customerId provider x]) ?_ ?_
  · refine Emits.run_bind (fun x => ?_) (by simp [Mark.Prelude, Mark.Reads])
    exact Emits.pure_iff.2 ⟨x, rfl, rfl⟩
  · rintro _ _ ⟨x, rfl, rfl⟩
    cases hx : x.getD true with
    | true => exact Emits.pure_iff.2 ⟨x, hx, rfl⟩
    | false => exact Emits.throw_iff.2 (by simp [After, Mark.Prelude])

omit [Sha256] [JsonText] in
theorem beginTurn_emits (context : WorkspaceContext) (conversation : Conversation)
    (traceId : Uuid) (content : String) (mode : ChatMode) :
    Emits mark p (fun ms x => Begins context conversation traceId content mode ms x.1 x.2)
      (fun ms _ => ∀ m ∈ ms, m.Prelude) (beginTurn context conversation traceId content mode) := by
  have hfailed : ∀ {ms : List Mark}, (∀ m ∈ ms, m.Slight) → ∀ m ∈ ms, m.Prelude :=
    fun h m hm => by
      have := h m hm
      cases m <;> trivial
  have hreads : ∀ {ms : List Mark}, (∀ m ∈ ms, m.Reads) → ∀ m ∈ ms, m.Prelude :=
    fun h m hm => by
      have := h m hm
      cases m <;> trivial
  unfold beginTurn
  split
  · exact Emits.throw_iff.2 (by simp)
  · refine Emits.bind ((addMessage_emits _).mono (fun _ _ h => h) ?_) ?_
    · rintro _ _ ⟨rfl, -⟩
      simp [Mark.Prelude, Mark.Reads]
    rintro _ _ ⟨id, createdAt, rfl, rfl⟩
    have huser : Mark.Prelude (.stored
        { id, createdAt, customerId := conversation.customerId, conversationId := conversation.id,
          role := .USER, content }) := rfl
    rw [after_all (List.forall_mem_singleton.2 huser)]
    refine Emits.bind (((resolveEffectiveLanguage_quiet ..).emits p).mono (fun _ _ h => h)
      fun _ _ h => hfailed h) ?_
    intro mf₁ language hmf₁
    rw [after_all (hfailed hmf₁)]
    refine Emits.bind (((responseLanguageInstruction_quiet ..).emits p).mono (fun _ _ h => h)
      fun _ _ h => hfailed h) ?_
    intro mf₂ instructions hmf₂
    rw [after_all (hfailed hmf₂)]
    refine Emits.bind (((resolveProviderChoice_quiet ..).emits p).mono (fun _ _ h => h)
      fun _ _ h => hfailed h) ?_
    intro mf₃ choice hmf₃
    rw [after_all (hfailed hmf₃)]
    refine Emits.bind (assertProviderEnabled_emits ..) ?_
    rintro _ _ ⟨x, hx, rfl⟩
    rw [after_all (List.forall_mem_singleton.2 trivial)]
    refine Emits.run_bind (fun db => ?_) (by simp [Mark.Prelude, Mark.Reads])
    rw [show mark (.ran p .view db) = some (.viewed db) from rfl, Option.toList_some,
      after_all (List.forall_mem_singleton.2 trivial)]
    unfold estimateCostCents
    cases hp : (modelPricing choice.provider).lookup choice.model with
    | none => exact Emits.throw_iff.2 (by simp)
    | some pricing =>
      refine Emits.bind (S := fun ms c => ms = [] ∧ c = Deployment.costCents pricing _ _)
        (Emits.pure_iff.2 ⟨rfl, rfl⟩) ?_
      rintro _ _ ⟨rfl, rfl⟩
      rw [after_nil, after_nil]
      dsimp only
      split
      · exact Emits.throw_iff.2 (by simp)
      · rename_i hdeep
        refine Emits.bind ((reserveBudget_emits context.customerId _).mono (fun _ _ h => h)
          fun _ _ => hreads) ?_
        intro mr _ hr
        refine Emits.pure_iff.2 ?_
        have hmf : ∀ m ∈ mf₁ ++ (mf₂ ++ mf₃), m.Slight := by
          simp only [List.forall_mem_append]
          exact ⟨hmf₁, hmf₂, hmf₃⟩
        have : Begins context conversation traceId content mode _ _ _ :=
          .begun id createdAt hmf choice x hx instructions db _ rfl hp _ rfl
            (fun hm => not_lt.1 fun hlt => hdeep ⟨hm, hlt⟩) hr
        simpa [After] using this

/-! ### The turn -/

omit [Sha256] [JsonText] in
theorem settle_emits (e : TurnContext) (r₁ : Except Err Unit) (s₁ : Turn) :
    (settle e r₁).Emits p (Settles e s₁ r₁) s₁ := by
  cases r₁ with
  | ok u =>
    refine TurnM.Emits.bind (reconcileAndRecord_emits e .RECONCILED s₁) ?_ ?_
    · rintro mr _ _ ⟨hr, rfl⟩
      refine TurnM.Emits.get_bind ((yieldChunk_emits _ _).mono ?_)
      rintro _ r s' ⟨taken, rfl, rfl, rfl⟩
      exact .completed hr taken
    · rintro mr err _ ⟨hr, rfl⟩
      exact .unsettled hr
  | error err =>
    refine TurnM.Emits.bind (reconcileAndRecord_emits e .REFUNDED s₁) ?_ ?_
    · rintro mr _ _ ⟨hr, rfl⟩
      refine TurnM.Emits.throw ?_
      rw [List.append_nil]
      exact .raised hr
    · rintro mr err' _ ⟨hr, rfl⟩
      exact .unsettled hr

theorem runTurn_eq (e : TurnContext) : runTurn e = TurnM.attempt (withFallback e) >>= settle e := by
  funext s
  rfl

theorem runTurn_emits (e : TurnContext) (s : Turn) : (runTurn e).Emits p (Turns e s) s := by
  rw [runTurn_eq]
  refine TurnM.Emits.bind (TurnM.Emits.attempt (withFallback_emits e s)
    (R := fun ms r s' => ∃ r', r = .ok r' ∧ Loop e s ms r' s') fun _ r' _ h => ⟨r', rfl, h⟩) ?_ ?_
  · rintro ml r' s₁ ⟨_, ⟨⟩, hl⟩
    exact (settle_emits e r' s₁).mono fun mr r s' hs => .settled hl hs
  · rintro _ err _ ⟨r', hr, -⟩
    simp at hr

theorem streamMessage_emits (context : WorkspaceContext) (conversation : Conversation)
    (traceId : Uuid) (content : String) (mode : ChatMode) :
    Emits mark p (fun ms u => Streams context conversation traceId content mode ms (.ok u))
      (fun ms err => Streams context conversation traceId content mode ms (.error err))
      (streamMessage context conversation traceId content mode) := by
  refine Emits.bind ((beginTurn_emits context conversation traceId content mode).mono
    (fun _ _ h => h) fun _ _ h => .unbegun h) ?_
  rintro mb ⟨e, s⟩ hb
  refine Emits.bind (Emits.mono (runTurn_emits e s) (fun _ _ h => h) fun _ _ => False.elim) ?_
  rintro mt ⟨r, s'⟩ ht
  rw [after_after, after_after]
  cases r with
  | ok u =>
    refine Emits.pure_iff.2 ?_
    rw [After, List.append_nil]
    exact .completed hb ht
  | error err =>
    dsimp only
    by_cases hx : err.isException = true
    · rw [if_pos hx]
      by_cases hs : s'.started = true
      · rw [if_pos hs]
        exact Emits.call_bind fun taken => Emits.pure_iff.2 (.reported hb ht hx hs taken)
      · rw [if_neg hs]
        refine Emits.throw_iff.2 ?_
        rw [After, List.append_nil]
        exact .raised hb ht hx (by simpa using hs)
    · rw [if_neg hx]
      refine Emits.pure_iff.2 ?_
      rw [After, List.append_nil]
      exact .closed hb ht (by simpa using hx)

end Turn

/-! ## Requests -/

section Requests

variable [Sha256] [JsonText] [Deployment]

/-- What the handler of a chat request shows. -/
inductive Handles (traceId : Uuid) (content : String) (mode : ChatMode) :
    List Mark → Except Err Unit → Prop where
  | refused {ms : List Mark} (hms : ∀ m ∈ ms, m.Slight) (err : Err) :
      Handles traceId content mode ms (.error err)
  | streamed {mf ms : List Mark} {context : WorkspaceContext} {conversation : Conversation}
      {r : Except Err Unit} (hmf : ∀ m ∈ mf, m.Slight)
      (hs : Streams context conversation traceId content mode ms r) :
      Handles traceId content mode (mf ++ ms) r

/-- What a chat request shows.  It looks for the workspace's customer in a transaction
of its own; the handler runs in the next, which is committed unless an exception leaves
it. -/
inductive Serves (traceId : Uuid) (content : String) (mode : ChatMode) : List Mark → Prop where
  | unfound {ms : List Mark} (hms : ∀ m ∈ ms, m.Distant) : Serves traceId content mode ms
  | raised {ms err} (hh : Handles traceId content mode ms (.error err)) :
      Serves traceId content mode (.committed :: ms ++ [.rolledBack])
  | returned {ms me} (hh : Handles traceId content mode ms (.ok ()))
      (hme : me = [.committed] ∨ me = [.committed, .failed, .rolledBack] ∨
        me = [.failed, .rolledBack]) :
      Serves traceId content mode (.committed :: ms ++ me)

omit [Sha256] [JsonText] in
theorem Handles.after {traceId : Uuid} {content : String} {mode : ChatMode} {mf ms : List Mark}
    {r : Except Err Unit} (hmf : ∀ m ∈ mf, m.Slight) (h : Handles traceId content mode ms r) :
    Handles traceId content mode (mf ++ ms) r := by
  cases h with
  | refused hms err => exact .refused (List.forall_mem_append.2 ⟨hmf, hms⟩) err
  | streamed hmf' hs =>
    rw [← List.append_assoc]
    exact .streamed (List.forall_mem_append.2 ⟨hmf, hmf'⟩) hs

variable {p : ℕ}

theorem postConversationMessage_emits (context : WorkspaceContext) (conversationId traceId : Uuid)
    (content : String) (mode : ChatMode) :
    Emits mark p (fun ms _ => Handles traceId content mode ms (.ok ()))
      (fun ms err => Handles traceId content mode ms (.error err))
      (postConversationMessage context conversationId traceId content mode) := by
  refine Emits.bind (((requireRole_quiet ..).emits p).mono (fun _ _ h => h)
    fun _ err h => .refused h err) ?_
  intro mf₁ _ hmf₁
  refine Emits.bind (((getOwnedConversation_quiet ..).emits p).mono (fun _ _ h => h) ?_) ?_
  · exact fun ms err h => (Handles.refused h err).after hmf₁
  intro mf₂ conversation hmf₂
  refine Emits.bind ((streamMessage_emits context conversation traceId content mode).mono
    (fun _ _ h => h) ?_) ?_
  · exact fun ms err h => (Handles.streamed hmf₂ h).after hmf₁
  · intro ms _ h
    refine Emits.pure_iff.2 ?_
    have := (Handles.streamed hmf₂ h).after hmf₁
    simpa [After] using this

theorem serve_chat_emits (who : Identity) (workspaceId conversationId traceId : Uuid)
    (content : String) (mode : ChatMode) :
    Emits mark p (fun ms _ => Serves traceId content mode ms)
      (fun ms _ => Serves traceId content mode ms)
      (serve (.chat who workspaceId conversationId traceId content mode)) := by
  refine Emits.call_bind fun _ => ?_
  refine Emits.bind (S := fun ms index => ms = [.committed]) ?_ ?_
  · refine Emits.atomically (Emits.run (Q := fun ms _ => ms = []) (X := fun ms _ => ms = [.failed])
      (fun _ => rfl) rfl) ?_ ?_
    · rintro _ a rfl
      refine ⟨fun w => ⟨rfl, .unfound ?_⟩, .unfound ?_⟩
      all_goals simp [callMark, Mark.Distant, Mark.Slight]
    · rintro _ err rfl
      exact .unfound (by simp [callMark, Mark.Distant, Mark.Slight])
  · rintro _ index rfl
    cases index with
    | none => exact Emits.throw_iff.2 (.unfound (by simp [callMark, Mark.Distant, Mark.Slight]))
    | some tenant =>
      have hbody : Emits mark p (fun ms _ => Handles traceId content mode ms (.ok ()))
          (fun ms err => Handles traceId content mode ms (.error err)) (do
            let context ← getWorkspaceContext tenant who.userId workspaceId
            postConversationMessage context conversationId traceId content mode) := by
        refine Emits.bind (((getWorkspaceContext_quiet ..).emits p).mono (fun _ _ h => h)
          fun _ err h => .refused h err) ?_
        intro mf context hmf
        exact (postConversationMessage_emits context conversationId traceId content mode).mono
          (fun _ _ h => h.after hmf) fun _ _ h => h.after hmf
      refine Emits.atomically hbody ?_ ?_
      · intro ms _ hh
        exact ⟨fun w => ⟨(Serves.returned hh (.inl rfl) :),
          (Serves.returned hh (.inr (.inl rfl)) :)⟩, (Serves.returned hh (.inr (.inr rfl)) :)⟩
      · exact fun ms err hh => .raised hh

end Requests

end Doda
