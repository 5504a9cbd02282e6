import Doda.Turn.Turns

/-!
# Facts about rounds

What every run of the rounds keeps: the provider and model, the marks it may show,
how often it calls a gateway, and the message it ends with.  Each is shown of the
parts of a round first, and then of the loop by induction on it.

## Main definitions

* `gatewayCalls`, `chunks`, `storedMessages`, `ledgerUpdates`, `usageEvents` — the
  marks of one kind.
* `Rounds.choice_eq`, `Rounds.calls_le`, `Rounds.under`, `Rounds.final` — the facts.
-/

namespace Doda

open ReadCommitted

/-! ## Marks of one kind -/

/-- The gateway calls, with what each would yield. -/
def gatewayCalls (ms : List Mark) : List (GatewayRequest × GatewayStream) :=
  ms.filterMap fun | .call r x => some (r, x) | _ => none

/-- The chunks handed to the client, with whether it was there to take them. -/
def chunks (ms : List Mark) : List (TurnChunk × Bool) :=
  ms.filterMap fun | .chunk c taken => some (c, taken) | _ => none

/-- The messages stored. -/
def storedMessages (ms : List Mark) : List Message :=
  ms.filterMap fun | .stored m => some m | _ => none

/-- The changes to ledger rows. -/
def ledgerUpdates (ms : List Mark) :
    List (Uuid × String × (AIBudgetLedger → AIBudgetLedger)) :=
  ms.filterMap fun | .updated c ym f => some (c, ym, f) | _ => none

/-- The usage events recorded. -/
def usageEvents (ms : List Mark) : List AIUsageEvent :=
  ms.filterMap fun | .usage u => some u | _ => none

theorem mem_gatewayCalls {ms : List Mark} {r : GatewayRequest} {x : GatewayStream} :
    (r, x) ∈ gatewayCalls ms ↔ .call r x ∈ ms := by
  simp only [gatewayCalls, List.mem_filterMap]
  constructor
  · rintro ⟨m, hm, heq⟩
    cases m <;> simp_all
  · exact fun h => ⟨_, h, rfl⟩

section Projections

variable (ms ms' : List Mark)

@[simp] theorem gatewayCalls_append :
    gatewayCalls (ms ++ ms') = gatewayCalls ms ++ gatewayCalls ms' := List.filterMap_append
@[simp] theorem chunks_append : chunks (ms ++ ms') = chunks ms ++ chunks ms' :=
  List.filterMap_append
@[simp] theorem storedMessages_append :
    storedMessages (ms ++ ms') = storedMessages ms ++ storedMessages ms' := List.filterMap_append
@[simp] theorem ledgerUpdates_append :
    ledgerUpdates (ms ++ ms') = ledgerUpdates ms ++ ledgerUpdates ms' := List.filterMap_append
@[simp] theorem usageEvents_append :
    usageEvents (ms ++ ms') = usageEvents ms ++ usageEvents ms' := List.filterMap_append

end Projections

/-- What follows a gateway call in its round: chunks of text, reports, and messages,
the assistant's under the provider and model of the call. -/
def Mark.Follows (choice : ResolvedProviderChoice) : Mark → Prop
  | .stored m =>
    m.role = .ASSISTANT → m.provider = some choice.provider ∧ m.model = some choice.model
  | .chunk (.text _) _ | .chunk (.toolStatus _ _ _) _ | .failed | .viewed _ => True
  | _ => False

theorem follows_of_slight {choice : ResolvedProviderChoice} {ms : List Mark}
    (hms : ∀ m ∈ ms, m.Slight) : ∀ m ∈ ms, m.Follows choice := fun m hm => by
  have := hms m hm
  cases m <;> trivial

section Rounds

variable [Sha256] [JsonText] [Deployment] {e : TurnContext} {s s' : Turn} {ms : List Mark}
  {r : Except Err Unit}

/-! ## Locals -/

/-- The locals that a round leaves alone. -/
def Turn.Kept (s s' : Turn) : Prop := s'.choice = s.choice ∧ s'.roundIndex = s.roundIndex

omit [Sha256] [JsonText] [Deployment] in
theorem Turn.Kept.trans {s₁ : Turn} (h : s.Kept s₁) (h' : s₁.Kept s') : s.Kept s' :=
  ⟨h'.1.trans h.1, h'.2.trans h.2⟩

omit [Sha256] [JsonText] [Deployment] in
theorem Turn.Kept.addCalls (h : s.Kept s') : s.Kept s'.addCalls := h

omit [Sha256] [JsonText] [Deployment] in
theorem kept_foldl_take (evs : List GatewayEvent) (s : Turn) : s.Kept (evs.foldl Turn.take s) := by
  induction evs generalizing s with
  | nil => exact ⟨rfl, rfl⟩
  | cons ev evs ih =>
    refine Turn.Kept.trans ?_ (ih (s.take ev))
    cases ev <;> exact ⟨rfl, rfl⟩

omit [Sha256] [JsonText] [Deployment] in
theorem Pulls.kept {x : GatewayStream} (h : Pulls x s ms r s') : s.Kept s' := by
  cases h with
  | whole => exact kept_foldl_take _ _
  | lost evs evs' text hx => exact kept_foldl_take evs s

omit [Sha256] [JsonText] [Deployment] in
theorem Finishes.kept {content reason : String} (h : Finishes e s content reason ms r s') :
    s.Kept s' := by
  cases h <;> exact ⟨rfl, rfl⟩

omit [Sha256] [JsonText] [Deployment] in
theorem Answers.kept {calls : List ToolCallRequest} (h : Answers e calls s ms r s') :
    s.Kept s' := by
  induction h with
  | nil | failed => exact ⟨rfl, rfl⟩
  | cons _ _ _ _ _ ih => exact ih

omit [Sha256] [JsonText] in
theorem Round.kept {o : Option (Except Err Unit)} (h : Round e s ms o s') : s.Kept s' := by
  cases h with
  | broken ha hp | unstored ha hp => exact hp.kept
  | refused ha hp => exact hp.kept.addCalls
  | answered ha hp hc hf => exact hp.kept.trans hf.kept
  | unreported ha hp _ _ _ _ _ hf | reported ha hp _ _ _ _ _ hf =>
    exact hp.kept.addCalls.trans hf.kept
  | unanswered ha hp _ _ _ hr | next ha hp _ _ _ hr => exact hp.kept.addCalls.trans hr.kept

omit [Sha256] [JsonText] in
/-- The rounds keep to one provider and model. -/
theorem Rounds.choice_eq {n : ℕ} (h : Rounds e n s ms r s') : s'.choice = s.choice := by
  induction h with
  | exhausted hf => exact hf.kept.1
  | ends hr => exact hr.kept.1
  | next hr _ ih => exact ih.trans hr.kept.1

/-! ## Marks -/

omit [Sha256] [JsonText] [Deployment] in
theorem chunk_follows (choice : ResolvedProviderChoice) (evs : List GatewayEvent) :
    ∀ m ∈ evs.filterMap GatewayEvent.chunk, m.Follows choice := by
  intro m hm
  obtain ⟨ev, -, hev⟩ := List.mem_filterMap.1 hm
  cases ev with
  | textDelta text =>
    obtain rfl := Option.some.inj hev
    trivial
  | toolCallReady | structuredOutputReady | completed | gatewayError =>
    simp [GatewayEvent.chunk] at hev

omit [Sha256] [JsonText] [Deployment] in
theorem Pulls.follows {x : GatewayStream} (h : Pulls x s ms r s')
    (choice : ResolvedProviderChoice) : ∀ m ∈ ms, m.Follows choice := by
  cases h with
  | whole => exact chunk_follows _ _
  | lost evs evs' text hx =>
    exact List.forall_mem_append.2 ⟨chunk_follows _ _, List.forall_mem_singleton.2 trivial⟩

omit [Sha256] [JsonText] [Deployment] in
theorem Finishes.follows {content reason : String} (h : Finishes e s content reason ms r s') :
    ∀ m ∈ ms, m.Follows s.choice := by
  cases h with
  | stored id createdAt => exact List.forall_mem_singleton.2 fun _ => ⟨rfl, rfl⟩
  | failed => exact List.forall_mem_singleton.2 trivial

omit [Sha256] [JsonText] [Deployment] in
theorem Stores.follows {calls : List ToolCallRequest} (h : Stores e s calls ms r) :
    ∀ m ∈ ms, m.Follows s.choice := by
  induction h with
  | nil => exact List.forall_mem_nil _
  | failed => exact List.forall_mem_singleton.2 trivial
  | cons id createdAt _ ih => exact List.forall_mem_cons.2 ⟨fun _ => ⟨rfl, rfl⟩, ih⟩

omit [Sha256] [JsonText] [Deployment] in
theorem Answers.follows {calls : List ToolCallRequest} (h : Answers e calls s ms r s')
    (choice : ResolvedProviderChoice) : ∀ m ∈ ms, m.Follows choice := by
  induction h with
  | nil => exact List.forall_mem_nil _
  | failed _ _ _ hmf =>
    exact List.forall_mem_append.2
      ⟨follows_of_slight hmf, List.forall_mem_singleton.2 trivial⟩
  | cons hmf text id createdAt _ ih =>
    refine List.forall_mem_append.2 ⟨follows_of_slight hmf, List.forall_mem_cons.2 ⟨?_, ih⟩⟩
    intro hrole
    cases hrole

omit [Sha256] [JsonText] in
/-- **A round is one gateway call and what follows it.** -/
theorem Round.asks {o : Option (Except Err Unit)} (h : Round e s ms o s') :
    ∃ ma x rest, Asks e s ma x ∧ ms = ma ++ rest ∧ ∀ m ∈ rest, m.Follows s.choice := by
  have hfin : ∀ {s₁ : Turn} {ms : List Mark}, s₁.choice = s.choice →
      (∀ m ∈ ms, m.Follows s₁.choice) → ∀ m ∈ ms, m.Follows s.choice := fun h hms => h ▸ hms
  cases h with
  | broken ha hp => exact ⟨_, _, _, ha, rfl, hp.follows _⟩
  | answered ha hp hc hf =>
    refine ⟨_, _, _, ha, List.append_assoc .., List.forall_mem_append.2 ⟨hp.follows _, ?_⟩⟩
    exact hfin hp.kept.1 hf.follows
  | unstored ha hp hc hs =>
    refine ⟨_, _, _, ha, List.append_assoc .., List.forall_mem_append.2 ⟨hp.follows _, ?_⟩⟩
    exact hfin hp.kept.1 hs.follows
  | refused ha hp hc hs hw hmf =>
    refine ⟨_, _, _, ha, by simp only [List.append_assoc]; rfl, ?_⟩
    simp only [List.forall_mem_append]
    exact ⟨hp.follows _, hfin hp.kept.1 hs.follows, follows_of_slight hmf⟩
  | unreported ha hp hc hs hw hmf content hf =>
    refine ⟨_, _, _, ha, by simp only [List.append_assoc]; rfl, ?_⟩
    simp only [List.forall_mem_append]
    exact ⟨hp.follows _, hfin hp.kept.1 hs.follows, follows_of_slight hmf,
      hfin hp.kept.1 hf.follows⟩
  | reported ha hp hc hs hmf hw action hf taken =>
    refine ⟨_, _, _, ha, by simp only [List.append_assoc]; rfl, ?_⟩
    simp only [List.forall_mem_append]
    exact ⟨hp.follows _, hfin hp.kept.1 hs.follows, follows_of_slight hmf,
      hfin hp.kept.1 hf.follows, List.forall_mem_singleton.2 trivial⟩
  | unanswered ha hp hc hs hw hr | next ha hp hc hs hw hr =>
    refine ⟨_, _, _, ha, by simp only [List.append_assoc]; rfl, ?_⟩
    simp only [List.forall_mem_append]
    exact ⟨hp.follows _, hfin hp.kept.1 hs.follows, hr.follows _⟩

omit [Sha256] [JsonText] [Deployment] in
theorem gatewayCalls_of_follows {choice : ResolvedProviderChoice}
    (h : ∀ m ∈ ms, m.Follows choice) : gatewayCalls ms = [] := by
  refine List.filterMap_eq_nil_iff.2 fun m hm => ?_
  have := h m hm
  cases m <;> first | rfl | exact this.elim

/-- What the rounds show: gateway calls to one provider and model, and what follows
them. -/
def Mark.Under (choice : ResolvedProviderChoice) : Mark → Prop
  | .call r _ => r.provider = choice.provider ∧ r.model = choice.model
  | m => m.Follows choice

omit [Sha256] [JsonText] [Deployment] in
theorem Mark.Follows.under {choice : ResolvedProviderChoice} {m : Mark} (h : m.Follows choice) :
    m.Under choice := by
  cases m <;> first | exact h | exact h.elim

omit [Sha256] [JsonText] in
theorem Asks.under {x : GatewayStream} (h : Asks e s ms x) : ∀ m ∈ ms, m.Under s.choice := by
  cases h with
  | configured hc x => exact List.forall_mem_singleton.2 ⟨rfl, rfl⟩
  | null => exact List.forall_mem_nil _

omit [Sha256] [JsonText] in
theorem Round.under {o : Option (Except Err Unit)} (h : Round e s ms o s') :
    ∀ m ∈ ms, m.Under s.choice := by
  obtain ⟨ma, x, rest, ha, rfl, hrest⟩ := h.asks
  exact List.forall_mem_append.2 ⟨ha.under, fun m hm => (hrest m hm).under⟩

omit [Sha256] [JsonText] in
/-- **The rounds call one provider and model, and what they store is its.** -/
theorem Rounds.under {n : ℕ} (h : Rounds e n s ms r s') : ∀ m ∈ ms, m.Under s.choice := by
  induction h with
  | exhausted hf => exact fun m hm => (hf.follows m hm).under
  | ends hr => exact hr.under
  | next hr _ ih => exact List.forall_mem_append.2 ⟨hr.under, (by rw [hr.kept.1] at ih; exact ih)⟩

omit [Sha256] [JsonText] in
theorem Round.calls_le {o : Option (Except Err Unit)} (h : Round e s ms o s') :
    (gatewayCalls ms).length ≤ 1 := by
  obtain ⟨ma, x, rest, ha, rfl, hrest⟩ := h.asks
  rw [gatewayCalls_append, gatewayCalls_of_follows hrest, List.append_nil]
  cases ha <;> simp [gatewayCalls]

omit [Sha256] [JsonText] in
/-- **As many gateway calls as rounds.** -/
theorem Rounds.calls_le {n : ℕ} (h : Rounds e n s ms r s') : (gatewayCalls ms).length ≤ n := by
  induction h with
  | exhausted hf =>
    rw [gatewayCalls_of_follows hf.follows]
    exact Nat.zero_le _
  | ends hr => exact hr.calls_le.trans (Nat.succ_le_succ (Nat.zero_le _))
  | next hr _ ih =>
    have := hr.calls_le
    rw [gatewayCalls_append, List.length_append]
    omega

/-! ## The last message -/

omit [Sha256] [JsonText] [Deployment] in
theorem Finishes.final {content reason : String} (h : Finishes e s content reason ms (.ok ()) s') :
    ∃ m, s'.finalAssistantMessage = some m ∧ m.role = .ASSISTANT ∧ .stored m ∈ ms := by
  cases h with
  | stored id createdAt => exact ⟨_, rfl, rfl, List.mem_singleton.2 rfl⟩

omit [Sha256] [JsonText] in
theorem Round.final {o : Option (Except Err Unit)} (h : Round e s ms o s')
    (ho : o = some (.ok ())) :
    ∃ m, s'.finalAssistantMessage = some m ∧ m.role = .ASSISTANT ∧ .stored m ∈ ms := by
  cases h with
  | broken | unstored | refused | unreported | unanswered | next => simp at ho
  | answered ha hp hc hf =>
    obtain ⟨m, h₁, h₂, h₃⟩ := (Option.some.inj ho ▸ hf).final
    exact ⟨m, h₁, h₂, List.mem_append_right _ h₃⟩
  | reported ha hp hc hs hmf hw action hf taken =>
    obtain ⟨m, h₁, h₂, h₃⟩ := hf.final
    exact ⟨m, h₁, h₂, List.mem_append_left _ (List.mem_append_right _ h₃)⟩

omit [Sha256] [JsonText] in
/-- **Rounds that end well end with a stored message of the assistant.** -/
theorem Rounds.final {n : ℕ} (h : Rounds e n s ms (.ok ()) s') :
    ∃ m, s'.finalAssistantMessage = some m ∧ m.role = .ASSISTANT ∧ .stored m ∈ ms := by
  generalize hr : (Except.ok () : Except Err Unit) = r at h
  induction h with
  | exhausted hf => exact (hr ▸ hf).final
  | ends h => exact h.final (by rw [hr])
  | next _ _ ih =>
    obtain ⟨m, h₁, h₂, h₃⟩ := ih hr
    exact ⟨m, h₁, h₂, List.mem_append_right _ h₃⟩

end Rounds

end Doda
