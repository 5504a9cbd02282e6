import Doda.Lib.Versions
import Doda.Turn.Dialogue
import Doda.Turn.Requests

/-!
# Where stored tool calls come from

A message that stores a tool call of the model is written after a gateway has
yielded that call, in the same transaction.  So the arguments of every tool call
that any transaction reads in the database were yielded by a gateway.

## Main definitions

* `Sourced` — each tool call in the marks follows the gateway's.
* `Yielded` — a gateway has yielded the call.
* `message_sourced` — every message that holds a tool call holds a yielded one.
-/

namespace Doda

open ReadCommitted

/-- The message stores a tool call of the model. -/
def Message.HoldsCall (m : Message) : Prop := m.role = .ASSISTANT ∧ m.toolName ≠ none

/-- Each message that stores a tool call follows a gateway call that yielded one with its
arguments. -/
def Sourced (ms : List Mark) : Prop :=
  ∀ pre m post, ms = pre ++ .stored m :: post → m.HoldsCall →
    ∃ r x call, .call r x ∈ pre ∧ call ∈ x.toolCalls ∧
      m.toolArgumentsJson = some call.argumentsJson

/-- The messages stored hold no other tool calls than these. -/
def HoldOnly (calls : List ToolCallRequest) (ms : List Mark) : Prop :=
  ∀ m, .stored m ∈ ms → m.HoldsCall →
    ∃ call ∈ calls, m.toolArgumentsJson = some call.argumentsJson

/-- The gateways called yielded these tool calls. -/
def Offers (ms : List Mark) (calls : List ToolCallRequest) : Prop :=
  ∀ call ∈ calls, ∃ r x, .call r x ∈ ms ∧ call ∈ x.toolCalls

namespace HoldOnly

variable {calls : List ToolCallRequest} {ms ms' : List Mark}

theorem append (h : HoldOnly calls ms) (h' : HoldOnly calls ms') : HoldOnly calls (ms ++ ms') := by
  intro m hm
  rcases List.mem_append.1 hm with hm | hm
  · exact h m hm
  · exact h' m hm

theorem of_none (h : ∀ m, .stored m ∈ ms → ¬ m.HoldsCall) : HoldOnly calls ms :=
  fun m hm hc => absurd hc (h m hm)

theorem of_slight (h : ∀ m ∈ ms, m.Slight) : HoldOnly calls ms :=
  of_none fun _ hm _ => h _ hm

theorem of_no_stored (h : storedMessages ms = []) : HoldOnly calls ms := by
  refine of_none fun m hm => ?_
  have hmem : m ∈ storedMessages ms := List.mem_filterMap.2 ⟨.stored m, hm, rfl⟩
  rw [h] at hmem
  exact absurd hmem List.not_mem_nil

end HoldOnly

namespace Sourced

variable {calls : List ToolCallRequest} {ms ms' : List Mark}

theorem of_prefix (h : Sourced ms') (hp : ms <+: ms') : Sourced ms := by
  obtain ⟨ms₁, rfl⟩ := hp
  intro pre m post heq
  exact h pre m (post ++ ms₁) (by rw [heq, List.append_assoc, List.cons_append])

/-- Tool calls that were yielded are stored. -/
theorem append (h : Sourced ms) (ho : Offers ms calls) (h' : HoldOnly calls ms') :
    Sourced (ms ++ ms') := by
  intro pre m post heq hm
  rcases List.append_eq_append_iff.1 heq with ⟨as, rfl, hms'⟩ | ⟨as, rfl, has⟩
  · obtain ⟨call, hcall, hargs⟩ := h' m (by rw [hms']; simp) hm
    obtain ⟨r, x, hr, hx⟩ := ho call hcall
    exact ⟨r, x, call, List.mem_append_left _ hr, hx, hargs⟩
  · cases as with
    | nil =>
      obtain ⟨call, hcall, hargs⟩ := h' m (by rw [← List.nil_append ms', ← has]; simp) hm
      obtain ⟨r, x, hr, hx⟩ := ho call hcall
      exact ⟨r, x, call, by simpa using hr, hx, hargs⟩
    | cons a as =>
      obtain ⟨rfl, -⟩ := List.cons.inj has
      exact h pre m as rfl hm

/-- What came before takes nothing away. -/
theorem after (h' : Sourced ms') (h : Sourced ms) : Sourced (ms ++ ms') := by
  intro pre m post heq hm
  rcases List.append_eq_append_iff.1 heq with ⟨as, rfl, hms'⟩ | ⟨as, rfl, has⟩
  · obtain ⟨r, x, call, hr, hx, hargs⟩ := h' as m post hms' hm
    exact ⟨r, x, call, List.mem_append_right _ hr, hx, hargs⟩
  · cases as with
    | nil =>
      obtain ⟨r, x, call, hr, -⟩ := h' [] m post has.symm hm
      simp at hr
    | cons a as =>
      obtain ⟨rfl, -⟩ := List.cons.inj has
      exact h pre m as rfl hm

theorem of_none (h : ∀ m, .stored m ∈ ms → ¬ m.HoldsCall) : Sourced ms := by
  rintro pre m post rfl hm
  exact absurd hm (h m (by simp))

/-- Nothing of the model is stored. -/
theorem append_none (h : Sourced ms) (h' : HoldOnly [] ms') : Sourced (ms ++ ms') :=
  h.append (by simp [Offers]) h'

end Sourced

section Turn

variable [Sha256] [JsonText] [Deployment] {e : TurnContext} {s s' : Turn} {ms : List Mark}
  {r : Except Err Unit} {calls : List ToolCallRequest}

omit [Sha256] [JsonText] [Deployment] in
theorem Finishes.holdOnly {content reason : String} (h : Finishes e s content reason ms r s') :
    HoldOnly calls ms := by
  cases h with
  | stored id createdAt =>
    refine .of_none fun m hm hc => ?_
    cases List.mem_singleton.1 hm
    exact hc.2 rfl
  | failed => exact .of_slight (by simp [Mark.Slight])

omit [Sha256] [JsonText] [Deployment] in
theorem Stores.holdOnly (h : Stores e s calls ms r) : HoldOnly calls ms := by
  induction h with
  | nil | failed => exact .of_slight (by simp [Mark.Slight])
  | @cons call calls ms r id createdAt h ih =>
    intro m hm hc
    rcases List.mem_cons.1 hm with heq | hm
    · cases heq
      exact ⟨call, List.mem_cons_self .., rfl⟩
    · obtain ⟨call', hcall', hargs⟩ := ih m hm hc
      exact ⟨call', List.mem_cons_of_mem _ hcall', hargs⟩

omit [Sha256] [JsonText] [Deployment] in
theorem Answers.holdOnly {answered : List ToolCallRequest} (h : Answers e answered s ms r s') :
    HoldOnly calls ms := by
  induction h with
  | nil => exact .of_slight (by simp)
  | failed call _ s hmf =>
    exact (HoldOnly.of_slight hmf).append (.of_slight (by simp [Mark.Slight]))
  | cons hmf text id createdAt h ih =>
    refine (HoldOnly.of_slight hmf).append ?_
    refine HoldOnly.append (.of_none fun m (hm : _ ∈ [_]) hc => ?_) ih
    cases List.mem_singleton.1 hm
    cases hc.1

omit [Sha256] [JsonText] [Deployment] in
theorem Pulls.no_stored {x : GatewayStream} (h : Pulls x s ms r s') (m : Message) :
    .stored m ∉ ms := by
  have hchunk : ∀ evs : List GatewayEvent, .stored m ∉ evs.filterMap GatewayEvent.chunk := by
    intro evs hm
    obtain ⟨ev, -, hev⟩ := List.mem_filterMap.1 hm
    cases ev <;> simp [GatewayEvent.chunk] at hev
  cases h with
  | whole => exact hchunk _
  | lost evs evs' text hx => simpa using hchunk evs

omit [Sha256] [JsonText] in
/-- What a round takes of a stream was yielded by its gateway. -/
theorem Asks.offers {s₁ : Turn} {ma mp : List Mark} {x : GatewayStream}
    (ha : Asks e s ma x) (hp : Pulls x s mp r s₁) :
    Sourced (ma ++ mp) ∧
      (s.toolCallsThisRound = [] → r = .ok () → Offers (ma ++ mp) s₁.toolCallsThisRound) := by
  constructor
  · refine .of_none fun m hm => ?_
    rcases List.mem_append.1 hm with hm | hm
    · cases ha <;> simp at hm
    · exact absurd hm (hp.no_stored m)
  · intro hs hr call hcall
    cases hp with
    | lost => simp at hr
    | whole =>
      rw [foldl_take_calls, hs, List.nil_append] at hcall
      cases ha with
      | configured hc x => exact ⟨e.request s, x, by simp, hcall⟩
      | null hc => simp [nullGatewayStream] at hcall

omit [Sha256] [JsonText] in
/-- **A round stores what its gateway yielded.** -/
theorem Round.sourced {o : Option (Except Err Unit)} (h : Round e s ms o s')
    (hs : s.toolCallsThisRound = []) : Sourced ms := by
  cases h with
  | broken ha hp => exact (ha.offers hp).1
  | answered ha hp hc hf => exact (ha.offers hp).1.append_none hf.holdOnly
  | unstored ha hp hc hst => exact (ha.offers hp).1.append ((ha.offers hp).2 hs rfl) hst.holdOnly
  | refused ha hp hc hst hw hmf =>
    have hcalls := (ha.offers hp).1.append ((ha.offers hp).2 hs rfl) hst.holdOnly
    exact hcalls.append_none (.of_slight hmf)
  | unreported ha hp hc hst hw hmf content hf =>
    have hcalls := (ha.offers hp).1.append ((ha.offers hp).2 hs rfl) hst.holdOnly
    exact (hcalls.append_none (.of_slight hmf)).append_none hf.holdOnly
  | reported ha hp hc hst hmf hw action hf taken =>
    have hcalls := (ha.offers hp).1.append ((ha.offers hp).2 hs rfl) hst.holdOnly
    exact ((hcalls.append_none (.of_slight hmf)).append_none hf.holdOnly).append_none
      (.of_none (by simp))
  | unanswered ha hp hc hst hw hr | next ha hp hc hst hw hr =>
    have hcalls := (ha.offers hp).1.append ((ha.offers hp).2 hs rfl) hst.holdOnly
    exact hcalls.append_none hr.holdOnly

omit [Sha256] [JsonText] in
theorem Rounds.sourced {n : ℕ} (h : Rounds e n s ms r s') : Sourced ms := by
  induction h with
  | exhausted hf => exact (Sourced.of_none (by simp) : Sourced []).append_none hf.holdOnly
  | ends h => exact h.sourced rfl
  | next h _ ih => exact ih.after (h.sourced rfl)

omit [Sha256] [JsonText] in
theorem Loop.sourced (h : Loop e s ms r s') : Sourced ms := by
  have hpicks : ∀ {customerId : Uuid} {excluding : Provider} {candidates : List Provider}
      {mp : List Mark} {o : Option Provider} (c : Uuid) (x : Option Bool),
      Picks customerId excluding candidates mp o →
        HoldOnly [] (.fallbackSetting c x :: mp) := fun c x hp =>
    .of_no_stored (storedMessages_of_aside (List.forall_mem_cons.2 ⟨trivial, hp.aside⟩))
  cases h with
  | done h | raised h => exact h.sourced
  | optedOut h => exact h.sourced.append_none (.of_none (by simp))
  | unpicked h _ x _ hp => exact h.sourced.append_none (hpicks _ x hp)
  | unread h _ hms =>
    refine h.sourced.append_none (.of_none fun m hm => ?_)
    exact (hms _ hm).elim
  | fallback h _ x _ hp h' => exact h'.sourced.after (h.sourced.append_none (hpicks _ x hp))

variable {context : WorkspaceContext} {conversation : Conversation} {traceId : Uuid}
  {content : String} {mode : ChatMode}

omit [Sha256] [JsonText] in
theorem Turns.sourced (h : Turns e s ms r s') : Sourced ms := by
  cases h with
  | settled hl hs => exact hl.sourced.append_none (.of_no_stored hs.stored)

omit [Sha256] [JsonText] in
theorem Begins.sourced (h : Begins context conversation traceId content mode ms e s) :
    Sourced ms := by
  cases h with
  | @begun mf mr _ id createdAt hmf choice x hx _ db _ _ _ _ _ _ hr =>
    have hrest : storedMessages (mf ++ .providerSetting context.customerId choice.provider x ::
        .viewed db :: mr) = [] := by
      rw [storedMessages_append, storedMessages_of_slight hmf]
      exact hr.stored
    refine .of_none fun m hm hc => ?_
    rcases List.mem_cons.1 hm with heq | hm
    · cases heq
      cases hc.1
    · have hold : HoldOnly [] _ := .of_no_stored hrest
      obtain ⟨_, h, -⟩ := hold m hm hc
      simp at h

omit [Sha256] [JsonText] in
theorem Streams.sourced (h : Streams context conversation traceId content mode ms r) :
    Sourced ms := by
  cases h with
  | unbegun hms =>
    refine .of_none fun m hm hc => ?_
    have : m.role = .USER := hms _ hm
    cases this.symm.trans hc.1
  | completed hb ht | closed hb ht | raised hb ht => exact ht.sourced.after hb.sourced
  | reported hb ht => exact (ht.sourced.after hb.sourced).append_none (.of_none (by simp))

omit [Sha256] [JsonText] in
/-- **A handler stores what gateways yielded.** -/
theorem Handles.sourced (h : Handles traceId content mode ms r) : Sourced ms := by
  cases h with
  | refused hms => exact .of_none fun m hm _ => hms _ hm
  | streamed hmf hs => exact hs.sourced.after (.of_none fun m hm _ => hmf _ hm)

omit [Sha256] [JsonText] in
theorem Within.sourced (h : Within ms) : Sourced ms := by
  rcases h with h | ⟨traceId, content, mode, ms₀, r, hh, hp⟩
  · exact .of_none fun m hm _ => h _ hm
  · exact Sourced.of_prefix (hh.sourced.append_none (.of_none (by simp))) hp

end Turn

/-! ## Messages of the database -/

/-- A gateway has yielded the tool call. -/
def Yielded (h : Hist) (call : ToolCallRequest) : Prop :=
  ∃ p r x, .called p (.streamChat r) x ∈ h ∧ call ∈ x.toolCalls

/-- A tool call that a message holds was yielded, with these arguments. -/
def CallYielded (h : Hist) : Version Row → Prop
  | ⟨.message _, some m⟩ => (m : Message).HoldsCall →
      ∃ call, Yielded h call ∧ (m : Message).toolArgumentsJson = some call.argumentsJson
  | _ => True

theorem CallYielded.mono {h h' : Hist} {v : Version Row} (hs : h <:+ h')
    (H : CallYielded h v) : CallYielded h' v := by
  obtain ⟨k, v⟩ := v
  cases k with
  | message id =>
    cases v with
    | none => trivial
    | some m =>
      intro hc
      obtain ⟨call, ⟨p, r, x, hx, hcall⟩, hargs⟩ := H hc
      exact ⟨call, ⟨p, r, x, hs.subset hx, hcall⟩, hargs⟩
  | _ => trivial

theorem callYielded_of_not_message {h : Hist} {k : Key} (hk : ∀ id, k ≠ .message id)
    (v : Option (Row k)) : CallYielded h ⟨k, v⟩ := by
  cases k with
  | message id => exact absurd rfl (hk id)
  | _ => trivial

/-- What a statement with its mark writes. -/
theorem puts_of_mark {q : Stmt Row} {x : q.Res} {old new : Version Row → Prop}
    (hnew : ∀ k v, (∀ id, k ≠ .message id) → new ⟨k, v⟩)
    (hstored : ∀ id m, stmtMark q x = some (.stored m) → new ⟨.message id, some m⟩)
    (hstrange : stmtMark q x ≠ some .strange) : q.Puts old new x := by
  revert hstored hstrange
  fun_cases stmtMark q x with
  | case1 id m => exact fun hstored _ => List.forall_mem_singleton.2 (hstored id m rfl)
  | case2 => exact fun _ _ => List.forall_mem_singleton.2 (hnew _ _ (by simp))
  | case7 => exact fun _ _ _ => List.forall_mem_singleton.2 (hnew _ _ (by simp))
  | case9 => exact fun _ _ v _ => hnew _ _ (by simp)
  | case4 | case5 | case6 | case10 => exact fun _ _ => trivial
  | case3 | case8 | case11 => exact fun _ h => absurd rfl h
  | case12 | case13 =>
    have ht : q.touches Key.ofTurns = false := by
      simpa using ‹¬ q.touches Key.ofTurns = true›
    refine fun _ _ => Stmt.puts_of_not_touches ht (fun k v hk => ?_) x
    refine hnew k v fun id heq => ?_
    rw [heq] at hk
    cases hk

section Reach

variable [Sha256] [JsonText] [Deployment] {st : Sys Row Answer Err Reply Request}

/-- **Every tool call that a message holds was yielded by a gateway**, in every reachable
state, for every committed message and every message read. -/
theorem message_sourced (hs : Reachable serve st) :
    VersionsAre (CallYielded st.hist) st := by
  refine hs.versions (P := CallYielded) (fun _ _ _ => CallYielded.mono) ?_
  intro st p q x h hs hh
  have hwithin := within_of_reachable hs p
  rw [hh, opened_ran, marks_cons, mark_ran] at hwithin
  refine puts_of_mark (fun k v hk => callYielded_of_not_message hk v) ?_ ?_
  · intro id m hm hc
    rw [hm] at hwithin
    obtain ⟨r, y, call, hr, hcall, hargs⟩ := hwithin.sourced _ m [] rfl hc
    obtain ⟨ev, hev, hmark⟩ := mem_trace.1 hr
    obtain ⟨p', rfl⟩ := shownBy_of_mark hmark
    have hmem := (mem_opened hev).1
    exact ⟨call, ⟨p', r, y, hh ▸ List.mem_cons_of_mem _ hmem, hcall⟩, hargs⟩
  · intro hm
    rw [hm] at hwithin
    rcases hwithin with hd | ⟨traceId, content, mode, ms₀, r, hhandles, hp⟩
    · exact hd .strange (by simp)
    · have hmem := hp.subset (show Mark.strange ∈ _ by simp)
      rcases List.mem_append.1 hmem with hmem | hmem
      · exact hhandles.ofTurn _ hmem
      · simp at hmem

end Reach

end Doda
