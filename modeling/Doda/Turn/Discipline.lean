import Doda.Turn.Fallback

/-!
# Turn discipline

Once its budget is reserved a turn ends, whatever the gateways yield and wherever the
client leaves: after so many gateway calls, one settlement of the budget and one usage
event, whose status says whether the rounds ended well.

The turn is played against an oracle, so that its end is a value; the database of the
oracle works, and everything else is arbitrary.

## Main definitions

* `Works` — the database answers every statement.
* `Disciplined` — what a turn shows.
* `turn_discipline` — every turn is played to its end, and is disciplined.
-/

namespace Doda

open ReadCommitted

/-! ## The database -/

/-- The database answers: no statement fails, and a ledger row that an insert ran into is
there. -/
structure Works (O : Oracle Row Answer) : Prop where
  stmt : ∀ h q, O.stmt h q ≠ none
  commit : ∀ h, O.commit h ≠ none
  found : ∀ h p c ym v, .ran p (.tryInsert [⟨.aiBudgetLedger c ym, v⟩]) false ∈ h →
    O.stmt h (.forUpdate (.aiBudgetLedger c ym)) ≠ some none

section Works

variable {O : Oracle Row Answer} {h evs : Hist}

theorem Works.unfailed (hO : Works O) (hg : O.Gave h evs) : .failed ∉ marks evs := by
  intro hmem
  obtain ⟨ev, hev, hmark⟩ := mem_trace.1 hmem
  obtain ⟨evs₂, evs₁, rfl⟩ := List.append_of_mem hev
  obtain ⟨hg, -⟩ := hg.of_append
  obtain ⟨p, rfl⟩ := shownBy_of_mark hmark
  rcases hg.1 with ⟨q, hq⟩ | hw
  · exact hO.stmt _ q hq
  · exact hO.commit _ hw

theorem Works.seen (hO : Works O) (hg : O.Gave h evs) {ms ms' : List Mark} {c : Uuid}
    {ym : String} (hms : marks evs = ms ++ .seen c ym none :: ms') :
    .opened c ym false ∉ ms := by
  intro hmem
  obtain ⟨evs₁, ev, evs₂, rfl, hev, rfl, rfl⟩ := exists_of_trace_eq hms
  obtain ⟨p, rfl⟩ := shownBy_of_mark hev
  obtain ⟨ev', hev', hmark⟩ := mem_trace.1 hmem
  obtain ⟨p', rfl⟩ := shownBy_of_mark hmark
  obtain ⟨hg, -⟩ := hg.of_append
  exact hO.found _ p' c ym {} (List.mem_append_left _ hev') hg.1

end Works

/-! ## What the loop shows -/

/-- What the rounds and their fallback show. -/
def Mark.OfLoop : Mark → Prop
  | .call _ _ | .stored _ | .chunk (.text _) _ | .chunk (.toolStatus _ _ _) _
  | .fallbackSetting _ _ | .providerSetting _ _ _ | .viewed _ | .failed => True
  | _ => False

theorem Mark.Under.ofLoop {choice : ResolvedProviderChoice} {m : Mark} (h : m.Under choice) :
    m.OfLoop := by
  cases m with
  | chunk c taken => cases c <;> trivial
  | _ => trivial

theorem Mark.Setting.ofLoop {m : Mark} (h : m.Setting) : m.OfLoop := by
  cases m <;> trivial

/-- The chunk is the last of a turn. -/
def TurnChunk.isDone : TurnChunk → Prop
  | .done _ => True
  | _ => False

section OfLoop

variable {ms : List Mark}

theorem ledgerUpdates_of_loop (h : ∀ m ∈ ms, m.OfLoop) : ledgerUpdates ms = [] := by
  refine List.filterMap_eq_nil_iff.2 fun m hm => ?_
  have := h m hm
  cases m <;> first | rfl | exact this.elim

theorem usageEvents_of_loop (h : ∀ m ∈ ms, m.OfLoop) : usageEvents ms = [] := by
  refine List.filterMap_eq_nil_iff.2 fun m hm => ?_
  have := h m hm
  cases m <;> first | rfl | exact this.elim

theorem chunks_of_loop (h : ∀ m ∈ ms, m.OfLoop) : ∀ c ∈ chunks ms, ¬ c.1.isDone := by
  intro c hc
  obtain ⟨m, hm, heq⟩ := List.mem_filterMap.1 hc
  have := h m hm
  cases m with
  | chunk c' taken =>
    obtain rfl := Option.some.inj heq
    cases c' <;> first | exact id | exact this.elim
  | _ => simp at heq

end OfLoop

section Turn

variable [Sha256] [JsonText] [Deployment] {e : TurnContext} {s s' : Turn} {ms : List Mark}
  {r : Except Err Unit}

omit [Sha256] [JsonText] in
theorem Picks.ofLoop {customerId : Uuid} {excluding : Provider} {candidates : List Provider}
    {o : Option Provider} (h : Picks customerId excluding candidates ms o) :
    ∀ m ∈ ms, m.OfLoop := by
  induction h with
  | none => exact List.forall_mem_nil _
  | skipped _ _ ih => exact ih
  | disabled _ _ _ ih => exact List.forall_mem_cons.2 ⟨trivial, ih⟩
  | picked => exact List.forall_mem_singleton.2 trivial

omit [Sha256] [JsonText] in
theorem Loop.ofLoop (h : Loop e s ms r s') : ∀ m ∈ ms, m.OfLoop := by
  have hrounds : ∀ {s s' : Turn} {ms : List Mark} {r : Except Err Unit},
      Rounds e settings.maxToolRounds s ms r s' → ∀ m ∈ ms, m.OfLoop :=
    fun h m hm => (h.under m hm).ofLoop
  cases h with
  | done h | raised h => exact hrounds h
  | optedOut h => exact List.forall_mem_append.2 ⟨hrounds h, by simp [Mark.OfLoop]⟩
  | unpicked h _ x _ hp =>
    exact List.forall_mem_append.2 ⟨hrounds h, List.forall_mem_cons.2 ⟨trivial, hp.ofLoop⟩⟩
  | unread h _ hms =>
    exact List.forall_mem_append.2 ⟨hrounds h, fun m hm => (hms m hm).ofLoop⟩
  | fallback h _ x _ hp h' =>
    simp only [List.forall_mem_append, List.forall_mem_cons]
    exact ⟨⟨hrounds h, trivial, hp.ofLoop⟩, hrounds h'⟩

omit [Sha256] [JsonText] in
/-- **At most one gateway call more than rounds.** -/
theorem Loop.calls_le (h : Loop e s ms r s') :
    (gatewayCalls ms).length ≤ settings.maxToolRounds + 1 := by
  cases h with
  | done h | raised h => exact h.calls_le.trans (Nat.le_succ _)
  | optedOut h =>
    rw [gatewayCalls_append]
    simpa [gatewayCalls] using h.calls_le.trans (Nat.le_succ _)
  | unpicked h _ x _ hp =>
    rw [gatewayCalls_append, hp.gatewayCalls, List.append_nil]
    exact h.calls_le.trans (Nat.le_succ _)
  | @unread ms err s' mf h _ hms =>
    have hmf : gatewayCalls mf = [] := by
      refine List.filterMap_eq_nil_iff.2 fun m hm => ?_
      have := hms m hm
      cases m <;> first | rfl | exact this.elim
    rw [gatewayCalls_append, hmf, List.append_nil]
    exact h.calls_le.trans (Nat.le_succ _)
  | fallback h hm x _ hp h' =>
    obtain ⟨s₀, -, x', rfl, -, -⟩ := h.barren rfl le_rfl hm
    have hchunks : gatewayCalls (x'.events.filterMap GatewayEvent.chunk) = [] :=
      gatewayCalls_of_follows (chunk_follows s.choice x'.events)
    have hle := h'.calls_le
    rw [gatewayCalls_append, gatewayCalls_append, hp.gatewayCalls, List.append_nil]
    change ((_ :: gatewayCalls _) ++ gatewayCalls _).length ≤ _
    rw [hchunks, List.singleton_append, List.length_cons]
    exact Nat.succ_le_succ hle

omit [Sha256] [JsonText] in
/-- **A loop that ends well** ends with a stored message of the assistant. -/
theorem Loop.final (h : Loop e s ms r s') (hr : r = .ok ()) :
    ∃ m, s'.finalAssistantMessage = some m ∧ m.role = .ASSISTANT ∧ .stored m ∈ ms := by
  cases h with
  | done h => exact h.final
  | raised | optedOut | unpicked | unread => simp at hr
  | fallback _ _ x _ _ h' =>
    obtain ⟨m, h₁, h₂, h₃⟩ := (hr ▸ h').final
    exact ⟨m, h₁, h₂, List.mem_append_right _ h₃⟩

/-! ## Prices -/

omit [Sha256] [JsonText] in
/-- With a round to run, a configured provider is called. -/
theorem Rounds.called {n : ℕ} (h : Rounds e n s ms r s') (hn : n ≠ 0)
    (hc : settings.configured s.choice.provider = true) :
    ∃ x ∈ gatewayCalls ms, x.1.provider = s.choice.provider ∧ x.1.model = s.choice.model := by
  have hround : ∀ {s : Turn} {ms : List Mark} {o : Option (Except Err Unit)} {s' : Turn},
      Round e s ms o s' → settings.configured s.choice.provider = true →
      ∃ x ∈ gatewayCalls ms, x.1.provider = s.choice.provider ∧ x.1.model = s.choice.model := by
    intro s ms o s' h hc
    obtain ⟨ma, x, rest, ha, rfl, -⟩ := h.asks
    cases ha with
    | configured _ x => exact ⟨(e.request s, x), by simp [gatewayCalls], rfl, rfl⟩
    | null hn => exact absurd hc hn
  cases h with
  | exhausted => exact absurd rfl hn
  | ends h =>
    have := hround h hc
    exact this
  | next h =>
    obtain ⟨x, hx, hprovider⟩ := hround h hc
    exact ⟨x, by rw [gatewayCalls_append]; exact List.mem_append_left _ hx, hprovider⟩

omit [Sha256] [JsonText] in
/-- The model a turn ends on has a price, if those it began with and called have. -/
theorem Loop.pricing (h : Loop e s ms r s') (hn : settings.maxToolRounds ≠ 0)
    (hs : s.pricing ≠ none) (hms : ∀ x ∈ gatewayCalls ms,
      (modelPricing x.1.provider).lookup x.1.model ≠ none) : s'.pricing ≠ none := by
  have hrounds : ∀ {s' : Turn} {ms : List Mark} {r : Except Err Unit},
      Rounds e settings.maxToolRounds s ms r s' → s'.pricing ≠ none := fun h => by
    rw [Turn.pricing, h.choice_eq]
    exact hs
  cases h with
  | done h | raised h | optedOut h | unpicked h | unread h => exact hrounds h
  | fallback h _ x _ hp h' =>
    obtain ⟨-, hc, -⟩ := hp.first rfl
    obtain ⟨x, hx, hprovider, hmodel⟩ := h'.called hn hc
    have := hms x (by rw [gatewayCalls_append]; exact List.mem_append_right _ hx)
    rw [Turn.pricing, h'.choice_eq, ← hprovider, ← hmodel]
    exact this

/-! ## The settlement -/

/-- What is seen after the rounds. -/
def Mark.OfSettlement : Mark → Prop
  | .updated _ _ _ | .usage _ | .chunk (.done _) _ => True
  | m => m.Reads

omit [Sha256] [JsonText] in
theorem Reconciles.ofSettlement {status : UsageEventStatus} (h : Reconciles e s status ms r) :
    ∀ m ∈ ms, m.OfSettlement := by
  have hreads : ∀ {m : Mark}, m.Reads → m.OfSettlement := fun {m} h => by
    cases m <;> trivial
  cases h with
  | settled hp t hl | unrecorded hp t hl =>
    refine List.forall_mem_append.2 ⟨List.forall_mem_cons.2 ⟨trivial, ?_⟩, ?_⟩
    · exact fun m hm => hreads (hl.reads m hm)
    · simp [Mark.OfSettlement, Mark.Reads]
  | unpriced => exact List.forall_mem_nil _
  | missing t => simp [Mark.OfSettlement, Mark.Reads]
  | failed hf hms => exact fun m hm => hreads (hms m hm)

omit [Sha256] [JsonText] in
theorem Settles.ofSettlement {r₁ : Except Err Unit} (h : Settles e s r₁ ms r s') :
    ∀ m ∈ ms, m.OfSettlement := by
  cases h with
  | completed hr taken =>
    exact List.forall_mem_append.2 ⟨hr.ofSettlement, List.forall_mem_singleton.2 trivial⟩
  | raised hr | unsettled hr => exact hr.ofSettlement

omit [Sha256] [JsonText] in
theorem Settles.calls {r₁ : Except Err Unit} (h : Settles e s r₁ ms r s') :
    gatewayCalls ms = [] := by
  refine List.filterMap_eq_nil_iff.2 fun m hm => ?_
  have := h.ofSettlement m hm
  cases m <;> first | rfl | exact this.elim

omit [Sha256] [JsonText] [Deployment] in
theorem projections_of_reads (h : ∀ m ∈ ms, m.Reads) :
    gatewayCalls ms = [] ∧ ledgerUpdates ms = [] ∧ usageEvents ms = [] ∧ chunks ms = [] := by
  refine ⟨?_, ?_, ?_, ?_⟩
  all_goals
    refine List.filterMap_eq_nil_iff.2 fun m hm => ?_
    have := h m hm
    cases m <;> first | rfl | exact this.elim

/-- What a turn shows from its first gateway call on, its rounds having ended in `r₁` and
the turn in `r`. -/
structure Disciplined (e : TurnContext) (ms : List Mark) (r₁ r : Except Err Unit) : Prop where
  calls : (gatewayCalls ms).length ≤ settings.maxToolRounds + 1
  /-- One settlement and one usage event, with the status of how the rounds ended. -/
  settled : ∃ ym u, ledgerUpdates ms = [(e.context.customerId, ym,
      reconcileOp e.totalEstimateCents u.actualCostCents)] ∧ usageEvents ms = [u] ∧
    u.status = if r₁.isOk then .RECONCILED else .REFUNDED
  raised : ∀ err, r₁ = .error err → r = .error err
  /-- A last chunk is the last, and carries a stored message. -/
  done : ∀ cs m taken cs', chunks ms = cs ++ (.done m, taken) :: cs' → cs' = [] ∧
    ∃ message, m = some message ∧ message.role = .ASSISTANT ∧ .stored message ∈ ms

omit [Sha256] [JsonText] in
/-- The settlement that went well. -/
theorem Reconciles.settled_projections {status : UsageEventStatus}
    (h : Reconciles e s status ms r) (hr : r = .ok ()) :
    gatewayCalls ms = [] ∧ chunks ms = [] ∧ ∃ ym u, ledgerUpdates ms = [(e.context.customerId, ym,
      reconcileOp e.totalEstimateCents u.actualCostCents)] ∧ usageEvents ms = [u] ∧
        u.status = status := by
  cases h with
  | @settled pricing mk l hp t hl id createdAt =>
    have hreads : ∀ m ∈ Mark.month t :: mk, m.Reads :=
      List.forall_mem_cons.2 ⟨trivial, hl.reads⟩
    obtain ⟨h₁, h₂, h₃, h₄⟩ := projections_of_reads hreads
    refine ⟨?_, ?_, yearMonth t, e.usageEvent s (s.actualCents pricing) status id createdAt,
      ?_, ?_, rfl⟩
    · rw [gatewayCalls_append, h₁]
      rfl
    · rw [chunks_append, h₄]
      rfl
    · rw [ledgerUpdates_append, h₂]
      rfl
    · rw [usageEvents_append, h₃]
      rfl
  | unpriced | missing | failed | unrecorded => simp at hr

omit [Sha256] [JsonText] in
/-- **The rounds and a settlement that goes well make a disciplined turn.** -/
theorem disciplined {s₁ : Turn} {ml mr : List Mark} {r₁ : Except Err Unit}
    (hl : Loop e s ml r₁ s₁) (hs : Settles e s₁ r₁ mr r s')
    (hn : ∀ err, ¬ Reconciles e s₁ (if r₁.isOk then .RECONCILED else .REFUNDED) mr (.error err)) :
    Disciplined e (ml ++ mr) r₁ r := by
  have hupdates := ledgerUpdates_of_loop hl.ofLoop
  have husage := usageEvents_of_loop hl.ofLoop
  have hchunks := chunks_of_loop hl.ofLoop
  cases hs with
  | unsettled hr => exact absurd hr (hn _)
  | raised hr =>
    obtain ⟨h₁, h₂, hset⟩ := hr.settled_projections rfl
    refine {
      calls := ?_
      settled := ?_
      raised := fun _ h => h
      done := fun cs m taken cs' heq => ?_ }
    · rw [gatewayCalls_append, h₁, List.append_nil]
      exact hl.calls_le
    · rw [ledgerUpdates_append, hupdates, usageEvents_append, husage]
      exact hset
    · rw [chunks_append, h₂, List.append_nil] at heq
      exact absurd trivial (hchunks (.done m, taken) (by rw [heq]; simp))
  | @completed mr hr taken =>
    obtain ⟨h₁, h₂, hset⟩ := hr.settled_projections rfl
    refine {
      calls := ?_
      settled := ?_
      raised := fun _ h => by simp at h
      done := fun cs m taken' cs' heq => ?_ }
    · rw [gatewayCalls_append, gatewayCalls_append, h₁]
      simpa [gatewayCalls] using hl.calls_le
    · obtain ⟨ym, u, h₃, h₄, hstatus⟩ := hset
      refine ⟨ym, u, ?_, ?_, hstatus⟩
      · rw [ledgerUpdates_append, hupdates, ledgerUpdates_append, h₃]
        rfl
      · rw [usageEvents_append, husage, usageEvents_append, h₄]
        rfl
    · rw [chunks_append, chunks_append, h₂, List.nil_append] at heq
      change chunks ml ++ [(.done s₁.finalAssistantMessage, taken)] = _ at heq
      obtain ⟨message, hm, hrole, hstored⟩ := hl.final rfl
      rcases List.eq_nil_or_concat cs' with rfl | ⟨cs'', c, rfl⟩
      · obtain ⟨-, heq⟩ := List.append_inj' heq rfl
        simp only [List.cons.injEq, Prod.mk.injEq, TurnChunk.done.injEq, and_true] at heq
        exact ⟨rfl, message, heq.1.symm.trans hm, hrole, List.mem_append_left _ hstored⟩
      · rw [List.concat_eq_append, ← List.cons_append, ← List.append_assoc] at heq
        obtain ⟨heq, -⟩ := List.append_inj' heq rfl
        exact absurd trivial (hchunks (.done m, taken') (by rw [heq]; simp))

/-! ## Playing a turn -/

section Play

variable {O : Oracle Row Answer} {p : ℕ} {h h' : Hist}

omit [Sha256] [JsonText] [Deployment] in
theorem play_attempt_bind {α β : Type} {m : TurnM α} {f : Except Err α → TurnM β}
    {r : Except Err α} (hm : play O p (m s) h = (.ok (r, s'), h')) :
    play O p ((TurnM.attempt m >>= f) s) h = play O p (f r s') h' := by
  change play O p ((m s >>= fun x => pure (.ok x.1, x.2)) >>= fun x => ExceptT.bindCont f x.1 x.2)
    h = _
  rw [play_bind, play_bind, hm]
  rfl

omit [Sha256] [JsonText] [Deployment] in
/-- A program over the locals returns, and shows what it is said to. -/
theorem play_turn {α : Type} {R : List Mark → Except Err α → Turn → Prop} {m : TurnM α}
    (H : m.Emits p R s) (h : Hist) :
    ∃ r s' evs, play O p (m s) h = (.ok (r, s'), evs ++ h) ∧ O.Gave h evs ∧
      R (marks evs) r s' := by
  obtain ⟨evs, hevs, hg⟩ := play_gave (O := O) (p := p) (m s) h
  obtain ⟨ms, hms, hend⟩ := play_emits (O := O) H h
  rw [hevs, trace_append, List.append_right_inj] at hms
  cases hx : (play O p (m s) h).1 with
  | error err =>
    rw [hx] at hend
    exact hend.elim
  | ok x =>
    rw [hx, ← hms] at hend
    exact ⟨x.1, x.2, evs, Prod.ext hx hevs, hg, hend⟩

omit [Sha256] [JsonText] in
/-- Against a database that works, a turn with a price is settled. -/
theorem Reconciles.no_error {status : UsageEventStatus} {evs : Hist} {err : Err}
    (hO : Works O) (hg : O.Gave h evs) (hp : s.pricing ≠ none)
    (hr : Reconciles e s status (marks evs) (.error err)) : False := by
  generalize hms : marks evs = ms at hr
  generalize hx : Except.error err = x at hr
  cases hr with
  | settled => simp at hx
  | unpriced hn => exact hp hn
  | missing t =>
    have hms : marks evs = [.month t, .seen e.context.customerId (yearMonth t) none,
        .opened e.context.customerId (yearMonth t) false] ++
        .seen e.context.customerId (yearMonth t) none :: [] := hms
    exact hO.seen hg hms (by simp)
  | failed hf => exact hO.unfailed hg (hms ▸ hf)
  | unrecorded => exact hO.unfailed hg (hms ▸ by simp)

/-- **Turn discipline.**  Once the reservation has succeeded, whatever the gateways yield
and wherever the client leaves, the turn is played to its end; and if the models it calls
have prices, it is disciplined. -/
theorem turn_discipline (hO : Works O) (hn : 1 ≤ settings.maxToolRounds)
    {context : WorkspaceContext} {conversation : Conversation} {traceId : Uuid} {content : String}
    {mode : ChatMode} {h₀ : Hist}
    (hb : play O p (beginTurn context conversation traceId content mode) h₀ = (.ok (e, s), h)) :
    ∃ r₁ s₁ evs₁ r s₂ evs,
      play O p (withFallback e s) h = (.ok (r₁, s₁), evs₁ ++ h) ∧
      play O p (runTurn e s) h = (.ok (r, s₂), evs ++ h) ∧
      ((∀ x ∈ gatewayCalls (marks evs), (modelPricing x.1.provider).lookup x.1.model ≠ none) →
        Disciplined e (marks evs) r₁ r) := by
  obtain ⟨ms, -, hbegins⟩ :=
    play_emits (O := O) (p := p) (beginTurn_emits context conversation traceId content mode) h₀
  rw [hb] at hbegins
  have hpriced : s.pricing ≠ none := by
    cases hbegins with
    | begun id createdAt hmf choice x hx instructions db history hh hp =>
      rw [Turn.pricing, hp]
      simp
  obtain ⟨r₁, s₁, evs₁, hplay₁, hg₁, hl⟩ := play_turn (O := O) (withFallback_emits (p := p) e s) h
  obtain ⟨r, s₂, evs₂, hplay₂, hg₂, hs⟩ :=
    play_turn (O := O) (settle_emits (p := p) e r₁ s₁) (evs₁ ++ h)
  refine ⟨r₁, s₁, evs₁, r, s₂, evs₂ ++ evs₁, hplay₁, ?_, fun hprices => ?_⟩
  · rw [runTurn_eq, play_attempt_bind hplay₁, hplay₂, List.append_assoc]
  · rw [marks, trace_append] at hprices ⊢
    refine disciplined hl hs fun err hr => hr.no_error hO hg₂ ?_
    refine hl.pricing (by omega) hpriced fun x hx => hprices x ?_
    rw [gatewayCalls_append]
    exact List.mem_append_left _ hx

end Play

end Turn

/-! ## A sample turn -/

section Sample

attribute [local instance] plainSha plainJsonText sampleDeployment

theorem works_sampleOracle (streams : Provider → GatewayStream) : Works (sampleOracle streams) where
  stmt h q := by
    cases q with
    | get k => cases k <;> simp [sampleOracle]
    | forUpdate k => cases k <;> simp [sampleOracle]
    | view | skipLocked | insert | tryInsert | update | delete => simp [sampleOracle]
  commit h := by simp [sampleOracle]
  found h p c ym v _ := by simp [sampleOracle]

/-- The turn that moves to Claude calls two gateways, and is disciplined. -/
theorem turn_discipline_sample : ∃ e s h r₁ r s₂ evs,
    play (sampleOracle sampleStreams) 0
      (beginTurn sampleContext sampleConversation 9 "Salom" .STANDARD) [] = (.ok (e, s), h) ∧
    play (sampleOracle sampleStreams) 0 (runTurn e s) h = (.ok (r, s₂), evs ++ h) ∧
    (gatewayCalls (marks (evs ++ h))).length = 2 ∧ Disciplined e (marks evs) r₁ r := by
  have hrun : (match play (sampleOracle sampleStreams) 0
      (beginTurn sampleContext sampleConversation 9 "Salom" .STANDARD) [] with
    | (.ok (e, s), h) =>
      let calls := gatewayCalls (marks (play (sampleOracle sampleStreams) 0 (runTurn e s) h).2)
      calls.length == 2 &&
        calls.all fun x => ((modelPricing x.1.provider).lookup x.1.model).isSome
    | _ => false) = true := by
    decide +kernel
  match hb : play (sampleOracle sampleStreams) 0
      (beginTurn sampleContext sampleConversation 9 "Salom" .STANDARD) [] with
  | (.error _, _) =>
    rw [hb] at hrun
    simp at hrun
  | (.ok (e, s), h) =>
    obtain ⟨r₁, s₁, evs₁, r, s₂, evs, -, hplay, hturn⟩ :=
      turn_discipline (works_sampleOracle sampleStreams) (by decide) hb
    rw [hb] at hrun
    simp only [hplay, Bool.and_eq_true, beq_iff_eq] at hrun
    refine ⟨e, s, h, r₁, r, s₂, evs, rfl, hplay, hrun.1, hturn fun x hx => ?_⟩
    have hmem : x ∈ gatewayCalls (marks (evs ++ h)) := by
      rw [marks, trace_append, gatewayCalls_append]
      exact List.mem_append_right _ hx
    exact Option.isSome_iff_ne_none.1 (List.all_eq_true.1 hrun.2 x hmem)

end Sample

end Doda
