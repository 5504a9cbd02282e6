import Doda.Turn.Discipline

/-!
# What the gateways delivered

A client that leaves cuts a stream short: what was delivered is the stream up to the
text it did not take.  The marks of a turn tell what was delivered, and what the turn
makes of a stream depends on that alone.

## Main definitions

* `GatewayStream.toolCalls`, `GatewayStream.text`, `GatewayStream.usage` — what a
  stream says.
* `delivered` — the gateway calls of some marks, with what was delivered.
* `Delivers` — the marks of one gateway call.
-/

namespace Doda

open ReadCommitted

/-! ## Streams -/

/-- The tool calls of a stream. -/
def GatewayStream.toolCalls (x : GatewayStream) : List ToolCallRequest :=
  x.events.filterMap fun | .toolCallReady call => some call | _ => none

/-- The text after an event. -/
def GatewayEvent.addText (text : String) : GatewayEvent → String
  | .textDelta t => text ++ t
  | .structuredOutputReady data => data.dumps
  | _ => text

/-- The text of a stream. -/
def GatewayStream.text (x : GatewayStream) : String := x.events.foldl GatewayEvent.addText ""

/-- The usage after an event. -/
def GatewayEvent.addUsage (usage : GatewayUsage) : GatewayEvent → GatewayUsage
  | .completed u _ => usage.add u
  | _ => usage

/-- The usage that the completed events of a stream report. -/
def GatewayStream.usage (x : GatewayStream) : GatewayUsage :=
  x.events.foldl GatewayEvent.addUsage ⟨0, 0, 0⟩

/-- How a stream ends. -/
def GatewayStream.ends (x : GatewayStream) : Except Err Unit :=
  match x.error with
  | some err => .error err
  | none => .ok ()

theorem GatewayStream.ends_eq_ok_iff {x : GatewayStream} : x.ends = .ok () ↔ x.error = none := by
  unfold GatewayStream.ends
  split <;> simp_all

/-- A stream with one more event in front. -/
def GatewayStream.cons (ev : GatewayEvent) (x : GatewayStream) : GatewayStream :=
  { x with events := ev :: x.events }

theorem GatewayUsage.add_assoc (a b c : GatewayUsage) : (a.add b).add c = a.add (b.add c) := by
  simp only [GatewayUsage.add, Int.add_assoc]

@[simp] theorem GatewayUsage.add_zero (a : GatewayUsage) : a.add ⟨0, 0, 0⟩ = a := by
  simp [GatewayUsage.add]

@[simp] theorem GatewayUsage.zero_add (a : GatewayUsage) : GatewayUsage.add ⟨0, 0, 0⟩ a = a := by
  simp [GatewayUsage.add]

theorem foldl_addUsage (evs : List GatewayEvent) (u : GatewayUsage) :
    evs.foldl GatewayEvent.addUsage u = u.add (evs.foldl GatewayEvent.addUsage ⟨0, 0, 0⟩) := by
  induction evs generalizing u with
  | nil => simp
  | cons ev evs ih =>
    rw [List.foldl_cons, List.foldl_cons, ih, ih (ev.addUsage _), ← GatewayUsage.add_assoc]
    cases ev <;> simp [GatewayEvent.addUsage]

theorem foldl_take_usage (evs : List GatewayEvent) (s : Turn) :
    (evs.foldl Turn.take s).totalUsage =
      s.totalUsage.add (evs.foldl GatewayEvent.addUsage ⟨0, 0, 0⟩) := by
  induction evs generalizing s with
  | nil => simp
  | cons ev evs ih =>
    rw [List.foldl_cons, List.foldl_cons, ih, foldl_addUsage evs (ev.addUsage _),
      ← GatewayUsage.add_assoc]
    cases ev <;> simp [GatewayEvent.addUsage, Turn.take]

theorem foldl_take_calls (evs : List GatewayEvent) (s : Turn) :
    (evs.foldl Turn.take s).toolCallsThisRound =
      s.toolCallsThisRound ++
        evs.filterMap fun | .toolCallReady call => some call | _ => none := by
  induction evs generalizing s with
  | nil => simp
  | cons ev evs ih =>
    rw [List.foldl_cons, ih]
    cases ev <;> simp [Turn.take]

theorem foldl_take_text (evs : List GatewayEvent) (s : Turn) :
    (evs.foldl Turn.take s).accumulatedText =
      evs.foldl GatewayEvent.addText s.accumulatedText := by
  induction evs generalizing s with
  | nil => rfl
  | cons ev evs ih =>
    rw [List.foldl_cons, List.foldl_cons, ih]
    cases ev <;> rfl

theorem foldl_take_history (evs : List GatewayEvent) (s : Turn) :
    (evs.foldl Turn.take s).history = s.history := by
  induction evs generalizing s with
  | nil => rfl
  | cons ev evs ih =>
    rw [List.foldl_cons, ih]
    cases ev <;> rfl

/-! ## Delivery -/

/-- A stream of these events and this end, as far as the client took its text. -/
def deliver (error : Option Err) : List GatewayEvent → List Mark → GatewayStream
  | [], _ => ⟨[], error⟩
  | ev :: evs, ms =>
    match ev, ms with
    | .textDelta _, .chunk _ true :: ms => (deliver error evs ms).cons ev
    | .textDelta _, _ => ⟨[ev], some .generatorExit⟩
    | ev, ms => (deliver error evs ms).cons ev

/-- The gateway calls, with what was delivered of each. -/
def delivered : List Mark → List (GatewayRequest × GatewayStream)
  | [] => []
  | .call r x :: ms => (r, deliver x.error x.events ms) :: delivered ms
  | _ :: ms => delivered ms

theorem delivered_append {ms : List Mark} (h : gatewayCalls ms = []) (ms' : List Mark) :
    delivered (ms ++ ms') = delivered ms' := by
  induction ms with
  | nil => rfl
  | cons m ms ih =>
    cases m with
    | call => simp [gatewayCalls] at h
    | _ => exact ih h

theorem deliver_append_call (error : Option Err) (evs : List GatewayEvent) (ms : List Mark)
    (r : GatewayRequest) (x : GatewayStream) (ms' : List Mark) :
    deliver error evs (ms ++ .call r x :: ms') = deliver error evs ms := by
  induction evs generalizing ms with
  | nil => rfl
  | cons ev evs ih =>
    cases ev with
    | textDelta text =>
      cases ms with
      | nil => rfl
      | cons m ms =>
        cases m with
        | chunk c taken =>
          cases taken with
          | true => exact congrArg (GatewayStream.cons _) (ih ms)
          | false => rfl
        | _ => rfl
    | _ => exact congrArg (GatewayStream.cons _) (ih ms)

/-- A call ends what was delivered before it. -/
theorem delivered_append_call (ms : List Mark) (r : GatewayRequest) (x : GatewayStream)
    (ms' : List Mark) :
    delivered (ms ++ .call r x :: ms') = delivered ms ++ delivered (.call r x :: ms') := by
  induction ms with
  | nil => rfl
  | cons m ms ih =>
    cases m with
    | call r' x' =>
      rw [List.cons_append, delivered, delivered, deliver_append_call, ih]
      rfl
    | _ => exact ih

/-- Of the marks `ms`, whatever follows them, `l` is delivered. -/
def Accounts (ms : List Mark) (l : List (GatewayRequest × GatewayStream)) : Prop :=
  ∀ ms', delivered (ms ++ ms') = l ++ delivered ms'

namespace Accounts

variable {ms ms' : List Mark} {l l' : List (GatewayRequest × GatewayStream)}

theorem of_no_calls (h : gatewayCalls ms = []) : Accounts ms [] := delivered_append h

theorem append (h : Accounts ms l) (h' : Accounts ms' l') : Accounts (ms ++ ms') (l ++ l') := by
  intro ms''
  rw [List.append_assoc, h, h', List.append_assoc]

/-- What follows makes no gateway call. -/
theorem append_right (h : Accounts ms l) (h' : gatewayCalls ms' = []) : Accounts (ms ++ ms') l := by
  simpa using h.append (of_no_calls h')

theorem delivered_eq (h : Accounts ms l) : delivered ms = l := by
  simpa [delivered] using h []

end Accounts

/-- The usage of some gateway calls together. -/
def billed : List (GatewayRequest × GatewayStream) → GatewayUsage
  | [] => ⟨0, 0, 0⟩
  | x :: l => x.2.usage.add (billed l)

theorem billed_append (l l' : List (GatewayRequest × GatewayStream)) :
    billed (l ++ l') = (billed l).add (billed l') := by
  induction l with
  | nil => simp [billed]
  | cons x l ih => rw [List.cons_append, billed, billed, ih, GatewayUsage.add_assoc]

private theorem deliver_whole (error : Option Err) (evs : List GatewayEvent) (ms' : List Mark) :
    deliver error evs (evs.filterMap GatewayEvent.chunk ++ ms') = ⟨evs, error⟩ := by
  induction evs with
  | nil => rfl
  | cons ev evs ih =>
    cases ev <;>
      simp [deliver, List.filterMap_cons, GatewayEvent.chunk, GatewayStream.cons, ih]

private theorem deliver_lost (error : Option Err) (evs evs' : List GatewayEvent) (text : String)
    (ms' : List Mark) :
    deliver error (evs ++ .textDelta text :: evs')
        (evs.filterMap GatewayEvent.chunk ++ .chunk (.text text) false :: ms') =
      ⟨evs ++ [.textDelta text], some .generatorExit⟩ := by
  induction evs with
  | nil => rfl
  | cons ev evs ih =>
    cases ev <;>
      simp [deliver, List.filterMap_cons, GatewayEvent.chunk, GatewayStream.cons, ih]

/-- What the turn takes of a stream is what is delivered. -/
theorem Pulls.delivered {x : GatewayStream} {s s' : Turn} {mp : List Mark} {r : Except Err Unit}
    (h : Pulls x s mp r s') : ∃ y : GatewayStream,
      (∀ ms', deliver x.error x.events (mp ++ ms') = y) ∧ s' = y.events.foldl Turn.take s ∧
        r = y.ends := by
  cases h with
  | whole => exact ⟨x, deliver_whole x.error x.events, rfl, rfl⟩
  | lost evs evs' text hx =>
    refine ⟨⟨evs ++ [.textDelta text], some .generatorExit⟩, fun ms' => ?_, ?_, rfl⟩
    · rw [hx, List.append_assoc]
      exact deliver_lost x.error evs evs' text ms'
    · rw [List.foldl_append]
      rfl

section Turn

variable [Sha256] [JsonText] [Deployment]

/-- The marks `ms` are of one gateway call: the stream `y` was delivered, and the call, if
any left the process, is `l`. -/
structure Delivers (e : TurnContext) (s : Turn) (ms : List Mark)
    (l : List (GatewayRequest × GatewayStream)) (y : GatewayStream) : Prop where
  accounts : Accounts ms l
  call : l = [(e.request s, y)] ∨ l = [] ∧ y.toolCalls = [] ∧ y.usage = ⟨0, 0, 0⟩
  stored : storedMessages ms = []
  calls : gatewayCalls ms = [] ∧ l = [] ∨ ∃ x, gatewayCalls ms = [(e.request s, x)]

omit [Sha256] [JsonText] in
/-- **One gateway call**: what the turn takes is what is delivered. -/
theorem Asks.delivers {e : TurnContext} {s s' : Turn} {ma mp : List Mark} {x : GatewayStream}
    {r : Except Err Unit} (ha : Asks e s ma x) (hp : Pulls x s mp r s') :
    ∃ l y, Delivers e s (ma ++ mp) l y ∧ s' = y.events.foldl Turn.take s ∧ r = y.ends := by
  obtain ⟨y, hy, hs', hr⟩ := hp.delivered
  have hcalls : gatewayCalls mp = [] := gatewayCalls_of_follows (hp.follows s.choice)
  have hstored : storedMessages mp = [] := by
    refine List.filterMap_eq_nil_iff.2 fun m hm => ?_
    cases hp with
    | whole =>
      obtain ⟨ev, -, hev⟩ := List.mem_filterMap.1 hm
      cases ev <;> simp [GatewayEvent.chunk] at hev
      simp [← hev]
    | lost evs evs' text hx =>
      rcases List.mem_append.1 hm with hm | hm
      · obtain ⟨ev, -, hev⟩ := List.mem_filterMap.1 hm
        cases ev <;> simp [GatewayEvent.chunk] at hev
        simp [← hev]
      · rw [List.mem_singleton.1 hm]
  cases ha with
  | configured hc =>
    refine ⟨[(e.request s, y)], y, ⟨fun ms' => ?_, .inl rfl, hstored, .inr ⟨x, ?_⟩⟩, hs', hr⟩
    · rw [List.append_assoc, List.singleton_append, delivered, hy, delivered_append hcalls]
      rfl
    · rw [gatewayCalls_append, hcalls]
      rfl
  | null hn =>
    refine ⟨[], y, ⟨.of_no_calls hcalls, .inr ⟨rfl, ?_⟩, hstored,
      .inl ⟨hcalls, rfl⟩⟩, hs', hr⟩
    rw [← hy []]
    have hnull : ∀ ms : List Mark,
        (deliver nullGatewayStream.error nullGatewayStream.events ms).toolCalls = [] ∧
        (deliver nullGatewayStream.error nullGatewayStream.events ms).usage = ⟨0, 0, 0⟩ := by
      intro ms
      unfold nullGatewayStream deliver
      split <;> simp_all [deliver, GatewayStream.toolCalls, GatewayStream.usage,
        GatewayStream.cons, GatewayEvent.addUsage, GatewayUsage.add]
    exact hnull _

/-! ## Usage -/

variable {e : TurnContext} {s s' : Turn} {ms : List Mark} {r : Except Err Unit}

omit [Sha256] [JsonText] [Deployment] in
theorem Delivers.usage {l : List (GatewayRequest × GatewayStream)} {y : GatewayStream}
    (h : Delivers e s ms l y) : y.usage = billed l := by
  rcases h.call with rfl | ⟨rfl, -, hu⟩
  · simp [billed]
  · exact hu

omit [Sha256] [JsonText] [Deployment] in
theorem Finishes.usage_eq {content reason : String} (h : Finishes e s content reason ms r s') :
    s'.totalUsage = s.totalUsage := by
  cases h <;> rfl

omit [Sha256] [JsonText] [Deployment] in
theorem Answers.usage_eq {calls : List ToolCallRequest} (h : Answers e calls s ms r s') :
    s'.totalUsage = s.totalUsage := by
  induction h with
  | nil | failed => rfl
  | cons _ _ _ _ _ ih => exact ih

omit [Sha256] [JsonText] in
/-- **A round bills what its gateway delivered.** -/
theorem Round.usage {o : Option (Except Err Unit)} (h : Round e s ms o s') :
    ∃ l, Accounts ms l ∧ s'.totalUsage = s.totalUsage.add (billed l) := by
  have hround : ∀ {ma mp : List Mark} {x : GatewayStream} {s₁ : Turn} {r : Except Err Unit}
      {rest : List Mark}, Asks e s ma x → Pulls x s mp r s₁ → ms = ma ++ mp ++ rest →
      gatewayCalls rest = [] → s'.totalUsage = s₁.totalUsage →
      ∃ l, Accounts ms l ∧ s'.totalUsage = s.totalUsage.add (billed l) := by
    rintro ma mp x s₁ r rest ha hp rfl hrest hs'
    obtain ⟨l, y, hd, rfl, -⟩ := ha.delivers hp
    refine ⟨l, hd.accounts.append_right hrest, ?_⟩
    rw [hs', ← hd.usage]
    exact foldl_take_usage _ _
  have hslight : ∀ {ms : List Mark}, (∀ m ∈ ms, m.Slight) → gatewayCalls ms = [] :=
    fun h => gatewayCalls_of_follows (@follows_of_slight s.choice _ h)
  cases h with
  | broken ha hp => exact hround ha hp (List.append_nil _).symm rfl rfl
  | answered ha hp hc hf => exact hround ha hp rfl (gatewayCalls_of_follows hf.follows) hf.usage_eq
  | unstored ha hp hc hs => exact hround ha hp rfl (gatewayCalls_of_follows hs.follows) rfl
  | refused ha hp hc hs hw hmf =>
    refine hround ha hp (List.append_assoc ..) ?_ rfl
    rw [gatewayCalls_append, gatewayCalls_of_follows hs.follows, hslight hmf]
    rfl
  | unreported ha hp hc hs hw hmf content hf =>
    refine hround ha hp (by simp only [List.append_assoc]; rfl) ?_ hf.usage_eq
    simp only [gatewayCalls_append, gatewayCalls_of_follows hs.follows, hslight hmf,
      gatewayCalls_of_follows hf.follows]
    rfl
  | reported ha hp hc hs hmf hw action hf taken =>
    refine hround ha hp (by simp only [List.append_assoc]; rfl) ?_ hf.usage_eq
    simp only [gatewayCalls_append, gatewayCalls_of_follows hs.follows, hslight hmf,
      gatewayCalls_of_follows hf.follows]
    rfl
  | unanswered ha hp hc hs hw hr | next ha hp hc hs hw hr =>
    refine hround ha hp (List.append_assoc ..) ?_ hr.usage_eq
    rw [gatewayCalls_append, gatewayCalls_of_follows hs.follows,
      gatewayCalls_of_follows (hr.follows s.choice)]
    rfl

omit [Sha256] [JsonText] in
theorem Rounds.usage {n : ℕ} (h : Rounds e n s ms r s') :
    ∃ l, Accounts ms l ∧ s'.totalUsage = s.totalUsage.add (billed l) := by
  induction h with
  | exhausted hf =>
    refine ⟨[], .of_no_calls (gatewayCalls_of_follows hf.follows), ?_⟩
    rw [hf.usage_eq, billed, GatewayUsage.add_zero]
  | ends hr => exact hr.usage
  | next hr _ ih =>
    obtain ⟨l, hl, hs⟩ := hr.usage
    obtain ⟨l', hl', hs'⟩ := ih
    refine ⟨l ++ l', hl.append hl', ?_⟩
    rw [hs', hs, billed_append, GatewayUsage.add_assoc]
    rfl

omit [Sha256] [JsonText] in
/-- **The rounds bill what the gateways delivered**, whichever provider they end on. -/
theorem Loop.usage (h : Loop e s ms r s') :
    ∃ l, Accounts ms l ∧ s'.totalUsage = s.totalUsage.add (billed l) := by
  have hsettings : ∀ {ms : List Mark}, (∀ m ∈ ms, m.Setting) → gatewayCalls ms = [] := by
    intro ms h
    refine List.filterMap_eq_nil_iff.2 fun m hm => ?_
    have := h m hm
    cases m <;> first | rfl | exact this.elim
  cases h with
  | done h | raised h => exact h.usage
  | optedOut h =>
    obtain ⟨l, hl, hs⟩ := h.usage
    exact ⟨l, hl.append_right rfl, hs⟩
  | unpicked h _ x _ hp =>
    obtain ⟨l, hl, hs⟩ := h.usage
    exact ⟨l, hl.append_right (hp.gatewayCalls x), hs⟩
  | unread h _ hms =>
    obtain ⟨l, hl, hs⟩ := h.usage
    exact ⟨l, hl.append_right (hsettings hms), hs⟩
  | fallback h _ x _ hp h' =>
    obtain ⟨l, hl, hs⟩ := h.usage
    obtain ⟨l', hl', hs'⟩ := h'.usage
    refine ⟨l ++ l', (hl.append_right (hp.gatewayCalls x)).append hl', ?_⟩
    rw [hs', billed_append, ← GatewayUsage.add_assoc, ← hs]
    rfl

end Turn

end Doda
