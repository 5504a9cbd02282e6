import Doda.Budget.Ledgers
import Doda.Turn.Delivered

/-!
# The budget of one turn

A turn changes the ledger twice: its reservation, and its settlement with what its calls
cost.  Between the two it holds the row, and what each change makes of it can be said of
the row as it was when the turn began.

## Main definitions

* `months` — the clock readings that name a ledger row.
* `Estimated`, `Course` — a turn that has begun.
* `Updates` — the two changes, and what is seen before each.
* `Course.settles` — what a turn that is settled does to the ledger.
-/

namespace Doda

open ReadCommitted

/-- The clock readings for the current month. -/
def months (ms : List Mark) : List Time :=
  ms.filterMap fun | .month t => some t | _ => none

@[simp] theorem months_append (ms ms' : List Mark) : months (ms ++ ms') = months ms ++ months ms' :=
  List.filterMap_append

/-- A chunk handed to the client. -/
def Mark.IsChunk : Mark → Prop
  | .chunk _ _ => True
  | _ => False

/-- A change of a ledger row. -/
def Mark.IsUpdate : Mark → Prop
  | .updated _ _ _ => True
  | _ => False

theorem Mark.OfLoop.not_update {m : Mark} (h : m.OfLoop) : ¬ m.IsUpdate := by
  cases m <;> first | exact id | exact h.elim

theorem Mark.Reads.not_update {m : Mark} (h : m.Reads) : ¬ m.IsUpdate := by
  cases m <;> first | exact id | exact h.elim

theorem Mark.IsChunk.not_update {m : Mark} (h : m.IsChunk) : ¬ m.IsUpdate := by
  cases m <;> first | exact id | exact h.elim

theorem projections_of_loop {ms : List Mark} (h : ∀ m ∈ ms, m.OfLoop) :
    months ms = [] ∧ ledgerUpdates ms = [] ∧ usageEvents ms = [] := by
  refine ⟨List.filterMap_eq_nil_iff.2 fun m hm => ?_, ledgerUpdates_of_loop h,
    usageEvents_of_loop h⟩
  have := h m hm
  cases m <;> first | rfl | exact this.elim

theorem projections_of_chunks {ms : List Mark} (h : ∀ m ∈ ms, m.IsChunk) :
    months ms = [] ∧ ledgerUpdates ms = [] ∧ usageEvents ms = [] := by
  refine ⟨?_, ?_, ?_⟩
  all_goals
    refine List.filterMap_eq_nil_iff.2 fun m hm => ?_
    have := h m hm
    cases m <;> first | rfl | exact this.elim

theorem Mark.IsChunk.apart {m : Mark} (h : m.IsChunk) : m.Apart := fun v => by
  cases m <;> first | rfl | exact h.elim

/-- The first of two splits of a list at an element of a kind. -/
theorem split_at_first {α : Type} {P : α → Prop} {l l' l₁ l₂ : List α} {a b : α}
    (h : l ++ a :: l' = l₁ ++ b :: l₂) (hl : ∀ x ∈ l, ¬ P x) (hb : P b) :
    (l₁ = l ∧ b = a ∧ l₂ = l') ∨ ∃ l₃, l₁ = l ++ a :: l₃ ∧ l' = l₃ ++ b :: l₂ := by
  rcases List.append_eq_append_iff.1 h with ⟨l₃, rfl, heq⟩ | ⟨l₃, rfl, heq⟩
  · cases l₃ with
    | nil =>
      obtain ⟨rfl, rfl⟩ := List.cons.inj heq
      exact .inl ⟨List.append_nil _, rfl, rfl⟩
    | cons x l₃ =>
      obtain ⟨rfl, rfl⟩ := List.cons.inj heq
      exact .inr ⟨l₃, rfl, rfl⟩
  · cases l₃ with
    | nil =>
      obtain ⟨rfl, rfl⟩ := List.cons.inj heq
      exact .inl ⟨(List.append_nil _).symm, rfl, rfl⟩
    | cons x l₃ =>
      obtain ⟨rfl, -⟩ := List.cons.inj heq
      exact absurd hb (hl b (by simp))

section Turn

variable [Sha256] [JsonText] [Deployment] {e : TurnContext} {s s₁ : Turn} {ms : List Mark}
  {r r₁ r₂ : Except Err Unit} {traceId : Uuid} {content : String} {mode : ChatMode}

/-! ## A turn that has begun -/

/-- The estimate of a turn: the price of all its rounds, each with the history the turn
begins with and as much output as there may be. -/
structure Estimated (e : TurnContext) (s : Turn) : Prop where
  estimate : ∃ pricing, s.pricing = some pricing ∧ e.totalEstimateCents =
    Deployment.costCents pricing
      (estimateInputTokensFromChars (s.history.map (·.content.length)).sum) e.maxOutputTokens *
      settings.maxToolRounds
  output : ∃ mode, e.maxOutputTokens = maxOutputTokens mode
  unused : s.totalUsage = ⟨0, 0, 0⟩

/-- What a turn that has begun shows: its preparation, its reservation, its rounds, its
settlement, and the chunks after. -/
inductive Course (e : TurnContext) (s : Turn) (r₁ : Except Err Unit) (s₁ : Turn)
    (r₂ : Except Err Unit) : List Mark → Prop where
  | course {mb mv ml mr me : List Mark} (hmb : ∀ m ∈ mb, m.Prelude ∧ m.OfLoop)
      (hv : Reserves e.context.customerId e.totalEstimateCents mv) (hl : Loop e s ml r₁ s₁)
      (hr : Reconciles e s₁ (if r₁.isOk then .RECONCILED else .REFUNDED) mr r₂)
      (hme : ∀ m ∈ me, m.IsChunk) : Course e s r₁ s₁ r₂ (mb ++ mv ++ ml ++ mr ++ me)

omit [Sha256] [JsonText] in
theorem Begins.estimated {context : WorkspaceContext} {conversation : Conversation}
    (h : Begins context conversation traceId content mode ms e s) : Estimated e s := by
  cases h with
  | begun id createdAt hmf choice x hx instructions db history hh hp estimate he hd hr =>
    exact ⟨⟨_, hp, he⟩, ⟨mode, rfl⟩, rfl⟩

omit [Sha256] [JsonText] in
theorem Begins.reserves {context : WorkspaceContext} {conversation : Conversation}
    (h : Begins context conversation traceId content mode ms e s) :
    ∃ mb mv, ms = mb ++ mv ∧ (∀ m ∈ mb, m.Prelude ∧ m.OfLoop) ∧
      Reserves e.context.customerId e.totalEstimateCents mv := by
  cases h with
  | @begun mf mr pricing id createdAt hmf choice x hx instructions db history hh hp estimate he hd
      hr =>
    refine ⟨.stored
          { id, createdAt, customerId := conversation.customerId,
            conversationId := conversation.id, role := .USER, content } ::
        mf ++ [.providerSetting context.customerId choice.provider x, .viewed db], mr,
      by simp, ?_, hr⟩
    refine List.forall_mem_append.2 ⟨List.forall_mem_cons.2 ⟨⟨rfl, trivial⟩, fun m hm => ?_⟩, ?_⟩
    · have := hmf m hm
      cases m <;> first | exact ⟨trivial, trivial⟩ | exact this.elim
    · simp [Mark.Prelude, Mark.OfLoop]

omit [Sha256] [JsonText] in
theorem Turns.course {s' : Turn} (h : Turns e s ms r s') :
    ∃ ml mr me r₁ s₁ r₂, ms = ml ++ mr ++ me ∧ Loop e s ml r₁ s₁ ∧
      Reconciles e s₁ (if r₁.isOk then .RECONCILED else .REFUNDED) mr r₂ ∧
      ∀ m ∈ me, m.IsChunk := by
  cases h with
  | settled hl hs =>
    cases hs with
    | completed hr taken =>
      exact ⟨_, _, _, _, _, _, (List.append_assoc ..).symm, hl, hr,
        List.forall_mem_singleton.2 trivial⟩
    | raised hr | unsettled hr =>
      exact ⟨_, _, [], _, _, _, (List.append_nil _).symm, hl, hr, List.forall_mem_nil _⟩

omit [Sha256] [JsonText] in
/-- **What a handler shows**: it raises before a turn has begun, or shows the course of
one. -/
theorem Handles.course (h : Handles traceId content mode ms r) :
    ((∃ err, r = .error err) ∧ ∀ m ∈ ms, m.Prelude) ∨
      ∃ e s r₁ s₁ r₂, Estimated e s ∧ Course e s r₁ s₁ r₂ ms := by
  have hprelude : ∀ {ms : List Mark}, (∀ m ∈ ms, m.Slight) → ∀ m ∈ ms, m.Prelude :=
    fun h m hm => by
      have := h m hm
      cases m <;> trivial
  cases h with
  | refused hms err => exact .inl ⟨⟨err, rfl⟩, hprelude hms⟩
  | @streamed mf ms context conversation r hmf hs =>
    have hbegun : ∀ {mb mt me : List Mark} {e : TurnContext} {s s' : Turn} {r : Except Err Unit},
        Begins context conversation traceId content mode mb e s → Turns e s mt r s' →
        (∀ m ∈ me, m.IsChunk) → ∃ e s r₁ s₁ r₂, Estimated e s ∧
          Course e s r₁ s₁ r₂ (mf ++ (mb ++ mt ++ me)) := by
      intro mb mt me e s s' r hb ht hme
      obtain ⟨mb', mv, rfl, hmb, hv⟩ := hb.reserves
      obtain ⟨ml, mr, me', r₁, s₁, r₂, rfl, hl, hr, hme'⟩ := ht.course
      refine ⟨e, s, r₁, s₁, r₂, hb.estimated, ?_⟩
      have hmf' : ∀ m ∈ mf ++ mb', m.Prelude ∧ m.OfLoop := by
        refine List.forall_mem_append.2 ⟨fun m hm => ?_, hmb⟩
        have := hmf m hm
        cases m <;> first | exact ⟨trivial, trivial⟩ | exact this.elim
      have : Course e s r₁ s₁ r₂ _ :=
        .course hmf' hv hl hr (List.forall_mem_append.2 ⟨hme', hme⟩)
      simpa using this
    cases hs with
    | unbegun hms =>
      exact .inl ⟨⟨_, rfl⟩, List.forall_mem_append.2 ⟨hprelude hmf, hms⟩⟩
    | completed hb ht | closed hb ht | raised hb ht =>
      have := hbegun hb ht (List.forall_mem_nil _)
      rw [List.append_nil] at this
      exact .inr this
    | reported hb ht hx hs taken => exact .inr (hbegun hb ht (List.forall_mem_singleton.2 trivial))

omit [Sha256] [JsonText] in
theorem Course.loop (h : Course e s r₁ s₁ r₂ ms) : ∃ ml, Loop e s ml r₁ s₁ ∧ ml ⊆ ms := by
  cases h with
  | @course _ _ ml _ _ _ _ hl =>
    exact ⟨ml, hl, fun m hm => by simp [hm]⟩

/-! ## The two changes -/

/-- The changes that a turn makes of a ledger row, with what is seen before them. -/
inductive Updates (e : TurnContext) (s : Turn) (r₁ : Except Err Unit) (s₁ : Turn) :
    List Mark → Uuid → String → (AIBudgetLedger → AIBudgetLedger) → Prop where
  | reserve {mb mk : List Mark} {l : AIBudgetLedger} (hmb : ∀ m ∈ mb, m.Prelude ∧ m.OfLoop)
      (t : Time) (hk : Locks e.context.customerId (yearMonth t) mk l)
      (hcap : l.reservedCents + l.actualCents + e.totalEstimateCents ≤ settings.budgetHardCents) :
      Updates e s r₁ s₁ (mb ++ .month t :: mk) e.context.customerId (yearMonth t)
        (reserveOp e.totalEstimateCents)
  | reconcile {mb mv ml mk : List Mark} {l : AIBudgetLedger} {pricing : ModelPricing}
      (hmb : ∀ m ∈ mb, m.Prelude ∧ m.OfLoop)
      (hv : Reserves e.context.customerId e.totalEstimateCents mv) (hl : Loop e s ml r₁ s₁)
      (t : Time) (hk : Locks e.context.customerId (yearMonth t) mk l)
      (hp : s₁.pricing = some pricing) :
      Updates e s r₁ s₁ (mb ++ mv ++ ml ++ .month t :: mk) e.context.customerId (yearMonth t)
        (reconcileOp e.totalEstimateCents (s₁.actualCents pricing))

omit [Sha256] [JsonText] in
/-- **A turn changes the ledger in no other way.** -/
theorem Course.updates {ms₁ ms₂ : List Mark} {c : Uuid} {ym : String}
    {f : AIBudgetLedger → AIBudgetLedger}
    (h : Course e s r₁ s₁ r₂ (ms₁ ++ .updated c ym f :: ms₂)) : Updates e s r₁ s₁ ms₁ c ym f := by
  generalize hms : ms₁ ++ .updated c ym f :: ms₂ = ms at h
  cases h with
  | @course mb mv ml mr me hmb hv hl hr hme =>
    have hv' := hv
    cases hv with
    | @reserved mk l t hk hcap =>
      have hlock : ∀ {t : Time} {mk : List Mark} {l : AIBudgetLedger},
          Locks e.context.customerId (yearMonth t) mk l →
          ∀ m ∈ Mark.month t :: mk, ¬ m.IsUpdate := fun hk =>
        List.forall_mem_cons.2 ⟨id, fun m hm => (hk.reads m hm).not_update⟩
      have hsplit : (mb ++ .month t :: mk) ++ .updated e.context.customerId (yearMonth t)
          (reserveOp e.totalEstimateCents) :: (ml ++ mr ++ me) =
          ms₁ ++ .updated c ym f :: ms₂ := by
        rw [hms]
        simp
      have hfirst : ∀ m ∈ mb ++ .month t :: mk, ¬ m.IsUpdate :=
        List.forall_mem_append.2 ⟨fun m hm => (hmb m hm).2.not_update, hlock hk⟩
      rcases split_at_first hsplit hfirst trivial with ⟨rfl, heq, -⟩ | ⟨ms₃, rfl, hrest⟩
      · obtain ⟨rfl, rfl, rfl⟩ := Mark.updated.inj heq
        exact .reserve hmb t hk hcap
      · -- the second change is the settlement's
        have hloop : ∀ m ∈ ml, ¬ m.IsUpdate := fun m hm => (hl.ofLoop m hm).not_update
        have hchunks : ∀ m ∈ me, ¬ m.IsUpdate := fun m hm => (hme m hm).not_update
        have hnone : (∀ m ∈ ml ++ mr ++ me, ¬ m.IsUpdate) → False := fun h =>
          h (.updated c ym f) (hrest ▸ by simp) trivial
        have hsecond : ∀ {t' : Time} {mk' rest : List Mark} {l' : AIBudgetLedger}
            {pricing : ModelPricing}, s₁.pricing = some pricing →
            Locks e.context.customerId (yearMonth t') mk' l' → (∀ m ∈ rest, ¬ m.IsUpdate) →
            mr = .month t' :: mk' ++ .updated e.context.customerId (yearMonth t')
              (reconcileOp e.totalEstimateCents (s₁.actualCents pricing)) :: rest →
            Updates e s r₁ s₁ (mb ++ .month t :: mk ++ .updated e.context.customerId (yearMonth t)
              (reserveOp e.totalEstimateCents) :: ms₃) c ym f := by
          rintro t' mk' rest l' pricing hp hk' hother rfl
          have hsplit : (ml ++ .month t' :: mk') ++ .updated e.context.customerId (yearMonth t')
              (reconcileOp e.totalEstimateCents (s₁.actualCents pricing)) :: (rest ++ me) =
              ms₃ ++ .updated c ym f :: ms₂ := by
            rw [← hrest]
            simp
          rcases split_at_first hsplit (List.forall_mem_append.2 ⟨hloop, hlock hk'⟩) trivial with
            ⟨rfl, heq, -⟩ | ⟨ms₄, -, hrest⟩
          · obtain ⟨rfl, rfl, rfl⟩ := Mark.updated.inj heq
            have : Updates e s r₁ s₁ _ _ _ _ := .reconcile hmb hv' hl t' hk' hp
            simpa using this
          · have hmem : .updated c ym f ∈ rest ++ me := hrest ▸ by simp
            exact absurd trivial (List.forall_mem_append.2 ⟨hother, hchunks⟩ _ hmem)
        cases hr with
        | settled hp t' hk' | unrecorded hp t' hk' =>
          refine hsecond hp hk' (List.forall_mem_singleton.2 ?_) rfl
          simp [Mark.IsUpdate]
        | unpriced =>
          exact (hnone (List.forall_mem_append.2 ⟨List.forall_mem_append.2
            ⟨hloop, List.forall_mem_nil _⟩, hchunks⟩)).elim
        | missing t' =>
          refine (hnone (List.forall_mem_append.2 ⟨List.forall_mem_append.2 ⟨hloop, ?_⟩,
            hchunks⟩)).elim
          simp [Mark.IsUpdate]
        | failed hf hms =>
          exact (hnone (List.forall_mem_append.2 ⟨List.forall_mem_append.2
            ⟨hloop, fun m hm => (hms m hm).not_update⟩, hchunks⟩)).elim

/-! ## What the changes do -/

section After

variable {v : Ledgers} {c : Uuid} {ym : String}

omit [Sha256] [JsonText] [Deployment] in
/-- A row that is locked is the row as it is; one that was not there is new. -/
theorem Locks.after {mk : List Mark} {l : AIBudgetLedger} (hk : Locks c ym mk l)
    (h : Hold v mk) : l = v.balance c ym ∧ ledgersAfter v mk = v.put c ym l := by
  cases hk with
  | found l =>
    have hrow : v c ym = some l := h.1 rfl
    exact ⟨(Ledgers.balance_eq hrow).symm, (Ledgers.put_eq_self hrow).symm⟩
  | created =>
    have hrow : v c ym = none := h.2.1
    exact ⟨by rw [Ledgers.balance, hrow]; rfl, rfl⟩
  | raced l =>
    have hrow : v c ym = some l := h.2.2.1 rfl
    exact ⟨(Ledgers.balance_eq hrow).symm, (Ledgers.put_eq_self hrow).symm⟩

omit [Sha256] [JsonText] [Deployment] in
theorem Locks.months {mk : List Mark} {l : AIBudgetLedger} (hk : Locks c ym mk l) :
    months mk = [] := by
  cases hk <;> rfl

omit [Sha256] [JsonText] [Deployment] in
/-- A row is locked and changed. -/
theorem Locks.change {mk : List Mark} {l : AIBudgetLedger} (t : Time)
    (f : AIBudgetLedger → AIBudgetLedger) (hk : Locks c ym mk l)
    (h : Hold v (.month t :: mk ++ [.updated c ym f])) :
    l = v.balance c ym ∧
      ledgersAfter v (.month t :: mk ++ [.updated c ym f]) = v.put c ym (f l) := by
  obtain ⟨hl, hafter⟩ := hk.after (v := v) (hold_append.1 h.2).1
  refine ⟨hl, ?_⟩
  rw [List.cons_append, ledgersAfter_cons, ledgersAfter_append]
  change (ledgersAfter v mk).change c ym f = _
  rw [hafter, Ledgers.put_change]

omit [Sha256] [JsonText] in
/-- **A reservation** is within the cap, and adds the estimate to what is reserved. -/
theorem Reserves.after {estimate : ℤ} (hv : Reserves c estimate ms) (h : Hold v ms) :
    ∃ t, months ms = [t] ∧
      ledgerUpdates ms = [(c, yearMonth t, reserveOp estimate)] ∧ usageEvents ms = [] ∧
      (v.balance c (yearMonth t)).reservedCents + (v.balance c (yearMonth t)).actualCents +
        estimate ≤ settings.budgetHardCents ∧
      ledgersAfter v ms =
        v.put c (yearMonth t) (reserveOp estimate (v.balance c (yearMonth t))) := by
  cases hv with
  | @reserved mk l t hk hcap =>
    obtain ⟨rfl, hafter⟩ := hk.change t _ h
    obtain ⟨-, hupdates, husage, -⟩ := projections_of_reads hk.reads
    refine ⟨t, ?_, ?_, ?_, hcap, hafter⟩
    · change months ([.month t] ++ mk ++ [_]) = _
      rw [months_append, months_append, hk.months]
      rfl
    · change ledgerUpdates ([.month t] ++ mk ++ [_]) = _
      rw [ledgerUpdates_append, ledgerUpdates_append, hupdates]
      rfl
    · change usageEvents ([.month t] ++ mk ++ [_]) = _
      rw [usageEvents_append, usageEvents_append, husage]
      rfl

omit [Sha256] [JsonText] in
/-- **A settlement** takes the estimate off what is reserved, and adds the actual cost. -/
theorem Reconciles.after {status : UsageEventStatus} (hr : Reconciles e s₁ status ms (.ok ()))
    (h : Hold v ms) : ∃ t pricing id createdAt, s₁.pricing = some pricing ∧ months ms = [t] ∧
      ledgerUpdates ms = [(e.context.customerId, yearMonth t,
        reconcileOp e.totalEstimateCents (s₁.actualCents pricing))] ∧
      usageEvents ms = [e.usageEvent s₁ (s₁.actualCents pricing) status id createdAt] ∧
      ledgersAfter v ms = v.put e.context.customerId (yearMonth t)
        (reconcileOp e.totalEstimateCents (s₁.actualCents pricing)
          (v.balance e.context.customerId (yearMonth t))) := by
  generalize heq : (Except.ok () : Except Err Unit) = r at hr
  cases hr with
  | @settled pricing mk l hp t hk id createdAt =>
    obtain ⟨-, hupdates, husage, -⟩ := projections_of_reads hk.reads
    refine ⟨t, pricing, id, createdAt, hp, ?_, ?_, ?_, ?_⟩
    · change months ([.month t] ++ mk ++ [_, _]) = _
      rw [months_append, months_append, hk.months]
      rfl
    · change ledgerUpdates ([.month t] ++ mk ++ [_, _]) = _
      rw [ledgerUpdates_append, ledgerUpdates_append, hupdates]
      rfl
    · change usageEvents ([.month t] ++ mk ++ [_, _]) = _
      rw [usageEvents_append, usageEvents_append, husage]
      rfl
    · rw [List.append_cons _ _ [_], ledgersAfter_append]
      rw [List.append_cons _ _ [_], hold_append] at h
      obtain ⟨rfl, hafter⟩ := hk.change t _ h.1
      rw [hafter]
      rfl
  | unpriced | missing | failed | unrecorded => simp at heq

end After

/-! ## The whole turn -/

section Whole

variable {v : Ledgers}

/-- What a turn that is settled does to the ledger rows `v`: it read the clock at `t` for
its reservation and at `t'` for its settlement. -/
structure Accounted (e : TurnContext) (r₁ : Except Err Unit) (s₁ : Turn) (v : Ledgers)
    (ms : List Mark) (t t' : Time) (pricing : ModelPricing) : Prop where
  months : months ms = [t, t']
  priced : s₁.pricing = some pricing
  updates : ledgerUpdates ms =
    [(e.context.customerId, yearMonth t, reserveOp e.totalEstimateCents),
      (e.context.customerId, yearMonth t',
        reconcileOp e.totalEstimateCents (s₁.actualCents pricing))]
  usage : ∃ id createdAt, usageEvents ms = [e.usageEvent s₁ (s₁.actualCents pricing)
    (if r₁.isOk then .RECONCILED else .REFUNDED) id createdAt]
  cap : (v.balance e.context.customerId (yearMonth t)).reservedCents +
    (v.balance e.context.customerId (yearMonth t)).actualCents + e.totalEstimateCents ≤
      settings.budgetHardCents
  after : ∃ v₁, v₁ = v.put e.context.customerId (yearMonth t)
      (reserveOp e.totalEstimateCents (v.balance e.context.customerId (yearMonth t))) ∧
    ledgersAfter v ms = v₁.put e.context.customerId (yearMonth t')
      (reconcileOp e.totalEstimateCents (s₁.actualCents pricing)
        (v₁.balance e.context.customerId (yearMonth t')))

omit [Sha256] [JsonText] in
/-- **A turn that is settled** reserves its estimate, and then gives it back for what its
calls cost. -/
theorem Course.accounted (h : Course e s r₁ s₁ (.ok ()) ms) (hh : Hold v ms) :
    ∃ t t' pricing, Accounted e r₁ s₁ v ms t t' pricing := by
  generalize hr₂ : (Except.ok () : Except Err Unit) = r₂ at h
  cases h with
  | @course mb mv ml mr me hmb hv hl hr hme =>
    subst hr₂
    simp only [hold_append] at hh
    obtain ⟨⟨⟨⟨-, hhv⟩, -⟩, hhr⟩, -⟩ := hh
    have hloop := hl.ofLoop
    have hbefore : ledgersAfter v mb = v := ledgersAfter_of_apart fun m hm => (hmb m hm).2.apart
    have hrounds : ∀ v, ledgersAfter v ml = v :=
      fun v => ledgersAfter_of_apart fun m hm => (hloop m hm).apart
    have hchunks : ∀ v, ledgersAfter v me = v :=
      fun v => ledgersAfter_of_apart fun m hm => (hme m hm).apart
    simp only [ledgersAfter_append, hbefore, hrounds] at hhv hhr
    obtain ⟨t, hmv, huv, hsv, hcap, hav⟩ := hv.after hhv
    obtain ⟨t', pricing, id, createdAt, hp, hmr, hur, hsr, har⟩ := hr.after hhr
    obtain ⟨hmb₁, hmb₂, hmb₃⟩ := projections_of_loop fun m hm => (hmb m hm).2
    obtain ⟨hml₁, hml₂, hml₃⟩ := projections_of_loop hloop
    obtain ⟨hme₁, hme₂, hme₃⟩ := projections_of_chunks hme
    refine ⟨t, t', pricing, ?_, hp, ?_, ⟨id, createdAt, ?_⟩, hcap, _, rfl, ?_⟩
    · simp [hmb₁, hmv, hml₁, hmr, hme₁]
    · simp [hmb₂, huv, hml₂, hur, hme₂]
    · simp [hmb₃, hsv, hml₃, hsr, hme₃]
    · simp only [ledgersAfter_append, hbefore, hrounds, hchunks]
      rw [har, hav]

/-- What is known of a turn that commits: nothing failed, and a row that an insert ran
into was found. -/
structure Sound (ms : List Mark) : Prop where
  unfailed : .failed ∉ ms
  found : ∀ ms₁ ms₂ c ym, ms = ms₁ ++ .seen c ym none :: ms₂ → .opened c ym false ∉ ms₁

omit [Sha256] [JsonText] in
/-- It is settled, if there is a price for what it used. -/
theorem Course.settled (h : Course e s r₁ s₁ r₂ ms) (hs : Sound ms) :
    r₂ = .ok () ∨ s₁.pricing = none := by
  cases h with
  | @course mb mv ml mr me hmb hv hl hr hme =>
    cases hr with
    | settled => exact .inl rfl
    | unpriced hp => exact .inr hp
    | missing t =>
      refine absurd ?_ (hs.found (mb ++ mv ++ ml ++ [.month t,
        .seen e.context.customerId (yearMonth t) none,
        .opened e.context.customerId (yearMonth t) false]) me e.context.customerId (yearMonth t) ?_)
      · simp
      · simp
    | failed hf => exact absurd (by simp [hf]) hs.unfailed
    | unrecorded => exact absurd (by simp) hs.unfailed

variable {h : Hist} {p : ℕ} {w : Db}

omit v in
/-- **A transaction that commits** does nothing to the ledger, or is that of a turn. -/
theorem course_of_commits (hv : (faithful serve).Valid h) (hc : Commits serve h p w) :
    (∀ m ∈ marks (opened p h), m.Distant) ∨ ∃ e s r₁ s₁ r₂, Estimated e s ∧
      Course e s r₁ s₁ r₂ (marks (opened p h)) ∧ (r₂ = .ok () ∨ s₁.pricing = none) := by
  have hwhole := whole_of_commits hc
  have hsound : Sound (marks (opened p h)) := by
    refine ⟨fun hm => ?_, fun ms₁ ms₂ c ym => found_of_answered hv hc.answered
      hwhole.within.not_strange⟩
    obtain ⟨ev, hev, hmark⟩ := mem_trace.1 hm
    obtain ⟨q, rfl⟩ := shownBy_of_mark hmark
    obtain ⟨-, rfl⟩ := mem_opened hev
    exact hc.unfailed hev
  rcases hwhole with hms | ⟨_, _, _, hh⟩
  · exact .inl hms
  · rcases hh.course with ⟨⟨err, herr⟩, -⟩ | ⟨e, s, r₁, s₁, r₂, hest, hcourse⟩
    · simp at herr
    · exact .inr ⟨e, s, r₁, s₁, r₂, hest, hcourse, hcourse.settled hsound⟩

end Whole

end Turn

end Doda
