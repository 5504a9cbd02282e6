import Doda.Lifecycle.Raises
import Doda.Turn.Dialogue
import Doda.Turn.Refusals
import Mathlib.Data.List.TakeWhile

/-!
# Tool calls with invalid arguments

What a model asks for is validated by the tool.  A round of read calls answers each of
them, invalid arguments with what is wrong, and the turn goes on.  Nothing else answers a
call that something is wrong with: not one of an unknown tool, not a write call, and no
other call of a round with a write call.  If the first write call is invalid, the turn ends
in an exception that nothing handles, and the reservation is refunded.  Nor is a call
answered where the database refuses what is stored of its round.

## Main definitions

* `Err.OfArguments` — the exceptions of a tool's arguments.
* `ToolCallRequest.Invalid`, `AnsweredIn` — a call with something wrong, and what is to become
  of it.
* `Answerable` — the streams whose calls are answered.
* `Absorbed` — the turn has answered its invalid calls, and they have not aborted it.

## Main results

* `arguments_absorbed_iff` — the turns that do.
-/

namespace Doda

open ReadCommitted

/-- `ToolArgumentsInvalidError`, `ToolNotFoundError`, and the errors of text that is not JSON. -/
def Err.OfArguments : Err → Prop
  | .toolArgumentsInvalid _ _ | .toolNotFound _ => True
  | .builtin exception => exception ∈ jsonErrors
  | _ => False

theorem Err.Proposing.not_ofArguments {err : Err} (h : err.Proposing) : ¬ err.OfArguments := by
  cases err <;> first | exact id | exact h.elim

/-! ## A round's marks -/

/-- The mark is a gateway call. -/
def Mark.isCall : Mark → Bool
  | .call _ _ => true
  | _ => false

/-- What is seen before the next gateway call. -/
def untilCall (ms : List Mark) : List Mark := ms.takeWhile (!·.isCall)

/-- The client has gone while text was sent. -/
def LeftIn (ms : List Mark) : Prop := ∃ text, .chunk (.text text) false ∈ ms

/-- A status message tells of the call. -/
def ReportsCall (ms : List Mark) (call : ToolCallRequest) : Prop :=
  ∃ text action taken, .chunk (.toolStatus text call action) taken ∈ ms

section Turn

variable [Sha256] [JsonText] [Deployment]

/-- The arguments of a write call validate, and are JSON. -/
def ToolCallRequest.Valid (call : ToolCallRequest) : Prop :=
  (∃ args, Deployment.telegramSendMessageArgs call.argumentsJson = .ok args) ∧
    ∃ payload, loads call.argumentsJson = .ok payload

/-- Something is wrong with the call: its name, or its arguments. -/
inductive ToolCallRequest.Invalid (call : ToolCallRequest) : Prop where
  | unknown (hread : ¬ isReadTool call.name) (hwrite : ¬ isWriteTool call.name)
  | read (hread : isReadTool call.name) (reason : String)
      (hargs : Deployment.listMyOpenTasksArgs call.argumentsJson = .error reason)
  | write (hwrite : isWriteTool call.name) (hvalid : ¬ call.Valid)

/-- A call of the stream is reported by a status message, or has its tool result: the calls of the
stream are answered one by one.  Where one answer is refused, the transaction keeps none. -/
def AnsweredIn (x : GatewayStream) (ms : List Mark) (call : ToolCallRequest) : Prop :=
  ReportsCall ms call ∨ List.Forall₂ AnsweredBy x.toolCalls (toolMessages ms)

/-- What follows its gateway call answers the invalid calls of the stream. -/
def Absorbs (x : GatewayStream) (ms : List Mark) : Prop :=
  ∀ call ∈ x.toolCalls, call.Invalid → AnsweredIn x ms call

/-- The calls of the stream are all of read tools, and what is stored of the round goes into its
columns. -/
structure Answerable (q : GatewayRequest) (x : GatewayStream) : Prop where
  read : ∀ call ∈ x.toolCalls, isReadTool call.name
  fits : ∀ call ∈ x.toolCalls, call.Fits
  arguments : ∀ call ∈ x.toolCalls, Storable call.argumentsJson
  text : Storable x.text
  model : FitsIn 64 q.model

/-- If something is wrong with a call of the stream, the calls are answerable. -/
def Tame (q : GatewayRequest) (x : GatewayStream) : Prop :=
  (∃ call ∈ x.toolCalls, call.Invalid) → Answerable q x

/-- A turn with these marks that ends so has absorbed its invalid calls: those of the streams
that ended well, with the client there to take their text, are answered or reported; the turn
does not raise an exception of a tool's arguments, other than one that a gateway raised; and
its usage is recorded as reconciled, unless another exception has ended it. -/
structure Absorbed (ms : List Mark) (r : Except Err Unit) : Prop where
  answered : ∀ q x after, .call q x :: after <:+ ms → x.error = none →
    ¬ LeftIn (untilCall after) → Absorbs x (untilCall after)
  raised : ∀ err, r = .error err → err.OfArguments →
    ∃ x ∈ gatewayCalls ms, x.2.error = some err
  reconciled : (∃ u, usageEvents ms = [u] ∧ u.status = .RECONCILED) ∨
    ∃ err, r = .error err ∧ (err.OfArguments → ∃ x ∈ gatewayCalls ms, x.2.error = some err)

/-! ## One call -/

section Calls

variable {call : ToolCallRequest} {context : WorkspaceContext} {traceId : Uuid} {key : String}

/-- A write call with invalid arguments is refused before anything is done. -/
theorem proposeWriteToolAction_invalid (context : WorkspaceContext) (traceId : Uuid) (key : String)
    (hwrite : isWriteTool call.name) (h : ¬ call.Valid) :
    ∃ err, err.OfArguments ∧
      proposeWriteToolAction call.name call.argumentsJson context traceId key = throw err := by
  rw [proposeWriteToolAction, if_neg (not_not.2 hwrite)]
  cases hargs : Deployment.telegramSendMessageArgs call.argumentsJson with
  | error reason => exact ⟨.toolArgumentsInvalid call.name reason, trivial, rfl⟩
  | ok args =>
    have hname : writeToolActionName.lookup call.name = some telegramSendMessage := by
      have hmem : call.name ∈ writeTools := by simpa [isWriteTool] using hwrite
      rw [List.mem_singleton.1 hmem]
      rfl
    cases hloads : loads call.argumentsJson with
    | ok payload => exact absurd ⟨⟨args, hargs⟩, payload, hloads⟩ h
    | error exception =>
      refine ⟨.builtin exception, loads_raises _ _ hloads, ?_⟩
      simp only [hname]

/-- A write call with valid arguments raises none of these exceptions. -/
theorem proposeWriteToolAction_valid (hwrite : isWriteTool call.name) (h : call.Valid) :
    Raises (fun err => ¬ err.OfArguments)
      (proposeWriteToolAction call.name call.argumentsJson context traceId key) := by
  obtain ⟨⟨args, hargs⟩, payload, hpayload⟩ := h
  rw [proposeWriteToolAction, if_neg (not_not.2 hwrite), hargs]
  dsimp only
  split
  · simp [Err.OfArguments, jsonErrors]
  · rw [hpayload]
    refine Raises.mono (S := Err.Proposing) ?_ fun _ => Err.Proposing.not_ofArguments
    refine Raises.bind (proposeAction_raises _ _ _ _ _ _ _ _ _) fun x => ?_
    obtain ⟨action, created⟩ := x
    dsimp only
    split
    · exact submitActionForExecution_raises _ _
    · exact Raises.bind (resolveReplayApproval_raises _ _) fun _ => Raises.pure _

end Calls

/-! ## Marks that change nothing -/

/-- The mark is no gateway call, and neither answers nor reports a call, nor sends text. -/
def Mark.Inert : Mark → Prop
  | .call _ _ | .chunk (.text _) _ | .chunk (.toolStatus _ _ _) _ => False
  | .stored m => m.role ≠ .TOOL
  | _ => True

section Marks

variable {ms ms' rest after : List Mark} {q : GatewayRequest} {x : GatewayStream}
  {call : ToolCallRequest} {r : Except Err Unit}

omit [Sha256] [JsonText] [Deployment] in
theorem toolMessages_of_inert (h : ∀ m ∈ ms, m.Inert) : toolMessages ms = [] := by
  refine List.filter_eq_nil_iff.2 fun m hm => ?_
  obtain ⟨mk, hmk, heq⟩ := List.mem_filterMap.1 hm
  have := h mk hmk
  cases mk with
  | stored m' =>
    obtain rfl := Option.some.inj heq
    simpa [Mark.Inert] using this
  | _ => cases heq

omit [Sha256] [JsonText] [Deployment] in
theorem leftIn_append_inert (h : ∀ m ∈ ms', m.Inert) : LeftIn (ms ++ ms') ↔ LeftIn ms := by
  refine exists_congr fun text => ?_
  rw [List.mem_append, or_iff_left]
  exact fun hm => h _ hm

omit [Sha256] in
theorem absorbs_append_inert (h : ∀ m ∈ ms', m.Inert) :
    Absorbs x (ms ++ ms') ↔ Absorbs x ms := by
  have hreported : ∀ call, ReportsCall (ms ++ ms') call ↔ ReportsCall ms call := by
    intro call
    refine exists_congr fun text => exists_congr fun action => exists_congr fun taken => ?_
    rw [List.mem_append, or_iff_left]
    exact fun hm => h _ hm
  simp only [Absorbs, AnsweredIn, hreported, toolMessages_append, toolMessages_of_inert h,
    List.append_nil]

omit [Sha256] [JsonText] [Deployment] in
/-- What is appended and inert up to its first gateway call adds inert marks at most. -/
theorem exists_untilCall_append (ms : List Mark) (h : ∀ m ∈ untilCall ms', m.Inert) :
    ∃ ms'', (∀ m ∈ ms'', m.Inert) ∧ untilCall (ms ++ ms') = untilCall ms ++ ms'' := by
  rw [untilCall, List.takeWhile_append]
  split
  · rename_i hlength
    have hall : untilCall ms = ms :=
      (List.takeWhile_prefix _).eq_of_length hlength
    exact ⟨untilCall ms', h, by rw [hall]; rfl⟩
  · exact ⟨[], List.forall_mem_nil _, by rw [List.append_nil]; rfl⟩

omit [Sha256] [JsonText] [Deployment] in
theorem untilCall_eq_self (h : gatewayCalls ms = []) : untilCall ms = ms := by
  refine List.takeWhile_eq_self_iff.2 fun m hm => ?_
  have := List.filterMap_eq_nil_iff.1 h m hm
  cases m <;> first | rfl | cases this

omit [Sha256] [JsonText] [Deployment] in
theorem call_suffix_append (h : .call q x :: after <:+ ms ++ ms') :
    .call q x :: after <:+ ms' ∨ ∃ after₁, after = after₁ ++ ms' ∧ .call q x :: after₁ <:+ ms := by
  obtain ⟨before, h⟩ := h
  rcases List.append_eq_append_iff.1 h with ⟨as, rfl, heq⟩ | ⟨bs, rfl, heq⟩
  · rcases List.cons_eq_append_iff.1 heq with ⟨rfl, rfl⟩ | ⟨after₁, rfl, rfl⟩
    · exact .inl (List.suffix_refl _)
    · exact .inr ⟨after₁, rfl, before, rfl⟩
  · exact .inl ⟨bs, heq.symm⟩

/-- Each stream that ended well, with the client there to take its text, is absorbed just if it is
tame. -/
def Called (ms : List Mark) : Prop :=
  ∀ q x after, .call q x :: after <:+ ms → x.error = none → ¬ LeftIn (untilCall after) →
    (Absorbs x (untilCall after) ↔ Tame q x)

/-- An exception of a tool's arguments comes from a gateway, or from a stream that is not tame. -/
def Blamed (ms : List Mark) (r : Except Err Unit) : Prop :=
  ∀ err, r = .error err → err.OfArguments → (∃ x ∈ gatewayCalls ms, x.2.error = some err) ∨
    ∃ q x after, .call q x :: after <:+ ms ∧ x.error = none ∧ ¬ LeftIn (untilCall after) ∧
      ¬ Tame q x

/-- What the rounds show of their calls, and how they end. -/
structure Judged (ms : List Mark) (r : Except Err Unit) : Prop where
  called : Called ms
  blamed : Blamed ms r

omit [Sha256] in
theorem Called.append (h : Called ms) (h' : Called ms') (hms' : ∀ m ∈ untilCall ms', m.Inert) :
    Called (ms ++ ms') := by
  intro q x after hsuffix hx hleft
  rcases call_suffix_append hsuffix with hcall | ⟨after₁, rfl, hcall⟩
  · exact h' q x after hcall hx hleft
  · obtain ⟨ms'', hinert, heq⟩ := exists_untilCall_append after₁ hms'
    rw [heq, leftIn_append_inert hinert] at hleft
    rw [heq, absorbs_append_inert hinert]
    exact h q x after₁ hcall hx hleft

omit [Sha256] in
/-- Streams that broke off decide nothing. -/
theorem Called.append_of_errors (h : ∀ x ∈ gatewayCalls ms, x.2.error ≠ none)
    (h' : Called ms') : Called (ms ++ ms') := by
  intro q x after hsuffix hx hleft
  rcases call_suffix_append hsuffix with hcall | ⟨after₁, rfl, hcall⟩
  · exact h' q x after hcall hx hleft
  · exact absurd hx (h (q, x) (mem_gatewayCalls.2 (hcall.subset List.mem_cons_self)))

omit [Sha256] in
theorem Called.of_no_calls (h : gatewayCalls ms = []) : Called ms := by
  intro q x after hcall
  have : (q, x) ∈ gatewayCalls ms := mem_gatewayCalls.2 (hcall.subset List.mem_cons_self)
  rw [h] at this
  cases this

omit [Sha256] in
theorem Blamed.append_right (h : Blamed ms r) (hms' : ∀ m ∈ untilCall ms', m.Inert) :
    Blamed (ms ++ ms') r := by
  intro err hr herr
  rcases h err hr herr with ⟨x, hx, hxerr⟩ | ⟨q, x, after, hcall, hx, hleft, htame⟩
  · exact .inl ⟨x, by rw [gatewayCalls_append]; exact List.mem_append_left _ hx, hxerr⟩
  · obtain ⟨before, rfl⟩ := hcall
    obtain ⟨ms'', hinert, heq⟩ := exists_untilCall_append after hms'
    refine .inr ⟨q, x, after ++ ms', ⟨before, by simp⟩, hx, ?_, htame⟩
    rwa [heq, leftIn_append_inert hinert]

omit [Sha256] in
theorem Blamed.append_left (ms : List Mark) (h : Blamed ms' r) : Blamed (ms ++ ms') r := by
  intro err hr herr
  rcases h err hr herr with ⟨x, hx, hxerr⟩ | ⟨q, x, after, hcall, hx⟩
  · exact .inl ⟨x, by rw [gatewayCalls_append]; exact List.mem_append_right _ hx, hxerr⟩
  · exact .inr ⟨q, x, after, hcall.trans (List.suffix_append ..), hx⟩

omit [Sha256] in
theorem Blamed.of_not (h : ∀ err, r = .error err → ¬ err.OfArguments) : Blamed ms r :=
  fun err hr herr => absurd herr (h err hr)

end Marks

/-! ## One stream -/

section Streams

variable {e : TurnContext} {s s₀ s' : Turn} {x : GatewayStream} {ma mp ms ms' rest : List Mark}
  {r : Except Err Unit} {err : Err} {call : ToolCallRequest} {calls : List ToolCallRequest}

omit [Sha256] in
/-- **One stream and what follows it.** -/
theorem Judged.ofStream (ha : Asks e s ma x) (hrest : gatewayCalls rest = [])
    (hcalled : x.error = none → ¬ LeftIn rest → (Absorbs x rest ↔ Tame (e.request s) x))
    (hblamed : ∀ err, r = .error err → err.OfArguments → x.error = some err ∨
      x.error = none ∧ ¬ LeftIn rest ∧ ¬ Tame (e.request s) x) : Judged (ma ++ rest) r := by
  have huntil := untilCall_eq_self hrest
  cases ha with
  | configured hc x =>
    constructor
    · intro q y after hsuffix hy hleft
      rcases List.suffix_cons_iff.1 hsuffix with heq | hcall
      · obtain ⟨hmark, rfl⟩ := List.cons_eq_cons.1 heq
        obtain ⟨rfl, rfl⟩ := Mark.call.inj hmark
        rw [huntil] at hleft ⊢
        exact hcalled hy hleft
      · exact Called.of_no_calls hrest q y after hcall hy hleft
    · intro err hr herr
      rcases hblamed err hr herr with hx | ⟨hx, hleft, htame⟩
      · exact .inl ⟨(e.request s, x), mem_gatewayCalls.2 List.mem_cons_self, hx⟩
      · exact .inr ⟨_, x, rest, List.suffix_refl _, hx, huntil.symm ▸ hleft, htame⟩
  | null hc =>
    refine ⟨.of_no_calls hrest, fun err hr herr => ?_⟩
    rcases hblamed err hr herr with hx | ⟨-, -, htame⟩
    · cases hx
    · refine absurd (fun hinvalid => ?_) htame
      obtain ⟨call, hcall, -⟩ := hinvalid
      cases hcall

omit [Sha256] in
/-- A stream whose invalid calls are all dropped, and which is not answerable. -/
theorem absorbs_iff_of_dropped (hnot : ¬ Answerable (e.request s) x)
    (hdropped : ∀ call ∈ x.toolCalls, call.Invalid → ¬ AnsweredIn x rest call) :
    Absorbs x rest ↔ Tame (e.request s) x := by
  constructor
  · rintro h ⟨call, hcall, hinvalid⟩
    exact absurd (h call hcall hinvalid) (hdropped call hcall hinvalid)
  · intro h call hcall hinvalid
    exact absurd (h ⟨call, hcall, hinvalid⟩) hnot

omit [Sha256] [JsonText] in
/-- Fewer messages than calls do not answer them. -/
theorem not_answeredIn_of_length (hlength : (toolMessages ms).length < x.toolCalls.length)
    (hreported : ¬ ReportsCall ms call) : ¬ AnsweredIn x ms call := by
  rintro (h | h)
  · exact hreported h
  · exact absurd h.length_eq (Nat.ne_of_gt hlength)

omit [Sha256] [JsonText] [Deployment] in
theorem Pulls.of_ok (h : Pulls x s₀ mp r s) (hr : r = .ok ()) :
    x.error = none ∧ s = x.events.foldl Turn.take s₀ ∧ ¬ LeftIn mp := by
  cases h with
  | whole =>
    refine ⟨?_, rfl, ?_⟩
    · cases hx : x.error with
      | none => rfl
      | some err => simp [hx] at hr
    · rintro ⟨text, htext⟩
      obtain ⟨ev, -, hev⟩ := List.mem_filterMap.1 htext
      cases ev <;> simp [GatewayEvent.chunk] at hev
  | lost => simp at hr

omit [Sha256] [JsonText] [Deployment] in
theorem Pulls.of_error (h : Pulls x s₀ mp r s) (hr : r = .error err) :
    x.error = some err ∨ (err = .generatorExit ∧ LeftIn mp) := by
  cases h with
  | whole =>
    cases hx : x.error with
    | none => simp [hx] at hr
    | some err' => exact .inl (by simpa [hx] using hr)
  | lost evs evs' text hx =>
    obtain rfl : Err.generatorExit = err := by simpa using hr
    exact .inr ⟨rfl, text, List.mem_append_right _ List.mem_cons_self⟩

omit [Sha256] [JsonText] [Deployment] in
/-- What the client takes of a stream is inert but for its text. -/
theorem Pulls.silent (h : Pulls x s₀ mp r s) :
    toolMessages mp = [] ∧ (∀ call, ¬ ReportsCall mp call) ∧ .failed ∉ mp := by
  have hchunk : ∀ evs : List GatewayEvent, ∀ m ∈ evs.filterMap GatewayEvent.chunk,
      ∃ text taken, m = .chunk (.text text) taken := by
    intro evs m hm
    obtain ⟨ev, -, hev⟩ := List.mem_filterMap.1 hm
    cases ev with
    | textDelta text => exact ⟨text, true, (Option.some.inj hev).symm⟩
    | toolCallReady | structuredOutputReady | completed | gatewayError => cases hev
  have hms : ∀ m ∈ mp, ∃ text taken, m = .chunk (.text text) taken := by
    cases h with
    | whole => exact hchunk _
    | lost evs evs' text hx =>
      exact List.forall_mem_append.2 ⟨hchunk _, List.forall_mem_singleton.2 ⟨text, false, rfl⟩⟩
  refine ⟨?_, ?_, ?_⟩
  · rw [toolMessages, storedMessages, List.filterMap_eq_nil_iff.2]
    · rfl
    · intro m hm
      obtain ⟨text, taken, rfl⟩ := hms m hm
      rfl
  · rintro call ⟨text, action, taken, hm⟩
    obtain ⟨_, _, heq⟩ := hms _ hm
    cases heq
  · intro hm
    obtain ⟨_, _, heq⟩ := hms _ hm
    cases heq

omit [Sha256] [JsonText] [Deployment] in
theorem Finishes.inert {content reason : String} (h : Finishes e s content reason ms r s') :
    ∀ m ∈ ms, m.Inert := by
  cases h with
  | stored => exact List.forall_mem_singleton.2 (by simp [Mark.Inert, TurnContext.assistantMessage])
  | failed => exact List.forall_mem_singleton.2 trivial

omit [Sha256] [JsonText] [Deployment] in
theorem Finishes.raises {content reason : String} (h : Finishes e s content reason ms r s') :
    ∀ err, r = .error err → ¬ err.OfArguments := by
  cases h with
  | stored => nofun
  | failed =>
    rintro err ⟨⟩
    exact id

omit [Sha256] [JsonText] [Deployment] in
theorem Stores.inert (h : Stores e s calls ms r) : ∀ m ∈ ms, m.Inert := by
  induction h with
  | nil => exact List.forall_mem_nil _
  | failed => exact List.forall_mem_singleton.2 trivial
  | cons _ _ _ ih =>
    exact List.forall_mem_cons.2 ⟨by simp [Mark.Inert, TurnContext.assistantMessage], ih⟩

omit [Sha256] [JsonText] [Deployment] in
/-- The calls that are stored are stored each. -/
theorem Stores.stored (h : Stores e s calls ms r) (hr : r = .ok ()) : .failed ∉ ms ∧
    ∀ call ∈ calls, ∃ id createdAt,
      .stored (e.assistantMessage s s.accumulatedText "tool_calls" (some call) id createdAt) ∈
        ms := by
  induction h with
  | nil => exact ⟨List.not_mem_nil, List.forall_mem_nil _⟩
  | failed => cases hr
  | cons id createdAt _ ih =>
    obtain ⟨hfailed, hstored⟩ := ih hr
    refine ⟨by simpa using hfailed, List.forall_mem_cons.2 ⟨⟨id, createdAt,
      List.mem_cons_self⟩, fun call hcall => ?_⟩⟩
    obtain ⟨id', createdAt', hmem⟩ := hstored call hcall
    exact ⟨id', createdAt', List.mem_cons_of_mem _ hmem⟩

omit [Sha256] [JsonText] [Deployment] in
/-- The answers to read calls report nothing. -/
theorem Answers.silent (h : Answers e calls s ms r s') :
    (∀ call, ¬ ReportsCall ms call) ∧ ¬ LeftIn ms := by
  have hslight : ∀ {mf : List Mark} {c : TurnChunk} {taken : Bool}, (∀ m ∈ mf, m.Slight) →
      .chunk c taken ∉ mf := fun hmf hm => hmf _ hm
  have hchunk : ∀ c taken, .chunk c taken ∉ ms := by
    induction h with
    | nil => exact fun _ _ => List.not_mem_nil
    | failed _ _ _ hmf =>
      intro c taken hm
      rcases List.mem_append.1 hm with hm | hm
      · exact hslight hmf hm
      · simp at hm
    | cons hmf _ _ _ _ ih =>
      intro c taken hm
      rcases List.mem_append.1 hm with hm | hm
      · exact hslight hmf hm
      · exact ih c taken (by simpa using hm)
  constructor
  · rintro call ⟨_, _, _, hm⟩
    exact hchunk _ _ hm
  · rintro ⟨_, hm⟩
    exact hchunk _ _ hm

end Streams

/-! ## One round -/

section Rounds

variable {e : TurnContext} {s s₀ s' : Turn} {x : GatewayStream} {ma mp mf ms mt mr : List Mark}
  {r : Except Err Unit} {err : Err} {call : ToolCallRequest} {calls : List ToolCallRequest}

/-- The turn has asked for a stream and taken it to its end. -/
structure Took (e : TurnContext) (s₀ : Turn) (ma mp : List Mark) (x : GatewayStream) (s : Turn) :
    Prop where
  asks : Asks e s₀ ma x
  pulls : Pulls x s₀ mp (.ok ()) s
  error : x.error = none
  calls : s.toolCallsThisRound = x.toolCalls
  text : s.accumulatedText = x.text
  choice : s.choice = s₀.choice
  there : ¬ LeftIn mp

omit [Sha256] [JsonText] in
theorem Took.begin {i : ℕ} (ha : Asks e (s₀.beginRound i) ma x)
    (hp : Pulls x (s₀.beginRound i) mp (.ok ()) s) : Took e (s₀.beginRound i) ma mp x s := by
  obtain ⟨hx, hs, hleft⟩ := hp.of_ok rfl
  refine ⟨ha, hp, hx, ?_, ?_, hp.kept.1, hleft⟩
  · rw [hs, foldl_take_calls]
    rfl
  · rw [hs, foldl_take_text]
    rfl

omit [Sha256] [JsonText] in
theorem Took.gatewayCalls (h : Took e s₀ ma mp x s) : gatewayCalls mp = [] :=
  gatewayCalls_of_follows (h.pulls.follows s₀.choice)

omit [Sha256] in
/-- The stream broke off, or the client left. -/
theorem Judged.broken (ha : Asks e s₀ ma x) (hp : Pulls x s₀ mp (.error err) s) :
    Judged (ma ++ mp) (.error err) := by
  refine .ofStream ha (gatewayCalls_of_follows (hp.follows s₀.choice)) ?_ ?_
  · intro hx hleft
    rcases hp.of_error rfl with hx' | ⟨-, hleft'⟩
    · rw [hx] at hx'
      cases hx'
    · exact absurd hleft' hleft
  · rintro _ ⟨⟩ herr
    rcases hp.of_error rfl with hx | ⟨rfl, -⟩
    · exact .inl hx
    · exact herr.elim

omit [Sha256] in
/-- No calls: nothing is wrong with any. -/
theorem Judged.answered (ht : Took e s₀ ma mp x s) (hc : s.toolCallsThisRound = [])
    {content reason : String} (hf : Finishes e s content reason mf r s') :
    Judged (ma ++ (mp ++ mf)) r := by
  rw [ht.calls] at hc
  refine .ofStream ht.asks ?_ ?_ fun err hr herr => absurd herr (hf.raises err hr)
  · rw [gatewayCalls_append, ht.gatewayCalls, gatewayCalls_of_follows hf.follows]
    rfl
  · intro _ _
    simp [Absorbs, Tame, hc]

omit [Sha256] in
/-- The calls are not stored: none is answered. -/
theorem Judged.unstored (ht : Took e s₀ ma mp x s) (hc : s.toolCallsThisRound ≠ [])
    (hs : Stores e s s.toolCallsThisRound ms (.error err))
    (hnot : ¬ Answerable (e.request s₀) x) : Judged (ma ++ (mp ++ ms)) (.error err) := by
  obtain rfl := hs.error rfl
  rw [ht.calls] at hc
  refine .ofStream ht.asks ?_ ?_ ?_
  · rw [gatewayCalls_append, ht.gatewayCalls, gatewayCalls_of_follows hs.follows]
    rfl
  · intro _ _
    rw [absorbs_append_inert hs.inert]
    refine absorbs_iff_of_dropped hnot fun call _ _ => not_answeredIn_of_length ?_ ?_
    · rw [ht.pulls.silent.1]
      exact List.length_pos_of_ne_nil hc
    · exact ht.pulls.silent.2.1 call
  · rintro _ ⟨⟩ herr
    exact herr.elim

omit [Sha256] in
/-- A write call among the calls: it is reported if it is valid, and all else is dropped. -/
theorem Judged.written (ht : Took e s₀ ma mp x s) (hs : Stores e s s.toolCallsThisRound ms (.ok ()))
    (hcall : call ∈ s.writeCalls) (hmt : Doda.gatewayCalls mt = [] ∧ toolMessages mt = [] ∧
      ¬ LeftIn mt ∧ (∀ call', ReportsCall mt call' → call' = call ∧ call.Valid) ∧
      ∀ err, r = .error err → err.OfArguments → ¬ call.Valid) :
    Judged (ma ++ (mp ++ (ms ++ mt))) r := by
  obtain ⟨hcalls, htools, hleft, hreported, hraised⟩ := hmt
  obtain ⟨hmem, hwrite⟩ := List.mem_filter.1 hcall
  rw [ht.calls] at hmem
  have hnot : ¬ Answerable (e.request s₀) x := fun h => by
    rw [isWriteTool_of_read (h.read call hmem)] at hwrite
    cases hwrite
  refine .ofStream ht.asks ?_ ?_ ?_
  · rw [gatewayCalls_append, ht.gatewayCalls, gatewayCalls_append,
      gatewayCalls_of_follows hs.follows, hcalls]
    rfl
  · intro _ _
    refine absorbs_iff_of_dropped hnot fun call' hcall' hinvalid => not_answeredIn_of_length ?_ ?_
    · rw [toolMessages_append, toolMessages_append, ht.pulls.silent.1,
        toolMessages_of_inert hs.inert, htools]
      exact List.length_pos_of_mem hmem
    · rintro ⟨text, action, taken, hm⟩
      rcases List.mem_append.1 hm with hm | hm
      · exact ht.pulls.silent.2.1 call' ⟨text, action, taken, hm⟩
      rcases List.mem_append.1 hm with hm | hm
      · exact hs.inert _ hm
      obtain ⟨rfl, hvalid⟩ := hreported call' ⟨text, action, taken, hm⟩
      -- a call that is reported is a valid write call
      cases hinvalid with
      | unknown _ hunknown => exact hunknown hwrite
      | read hread =>
        rw [isWriteTool_of_read hread] at hwrite
        cases hwrite
      | write _ hinvalid => exact hinvalid hvalid
  · intro err hr herr
    refine .inr ⟨ht.error, ?_, fun htame => hnot (htame ⟨call, hmem,
      .write hwrite (hraised err hr herr)⟩)⟩
    rintro ⟨text, hm⟩
    rcases List.mem_append.1 hm with hm | hm
    · exact ht.there ⟨text, hm⟩
    rcases List.mem_append.1 hm with hm | hm
    · exact hs.inert _ hm
    · exact hleft ⟨text, hm⟩

omit [Sha256] in
/-- An answer is not stored. -/
theorem Judged.unanswered (ht : Took e s₀ ma mp x s)
    (hs : Stores e s s.toolCallsThisRound ms (.ok ()))
    (hr : Answers e s.readCalls s.addCalls mr (.error err) s')
    (hlength : (toolMessages mr).length < s.readCalls.length) (herr : err = .database)
    (hnot : ¬ Answerable (e.request s₀) x) :
    Judged (ma ++ (mp ++ (ms ++ mr))) (.error err) := by
  subst herr
  refine .ofStream ht.asks ?_ ?_ ?_
  · rw [gatewayCalls_append, ht.gatewayCalls, gatewayCalls_append,
      gatewayCalls_of_follows hs.follows, gatewayCalls_of_follows (hr.follows s₀.choice)]
    rfl
  · intro _ _
    refine absorbs_iff_of_dropped hnot fun call' _ _ => not_answeredIn_of_length ?_ ?_
    · rw [toolMessages_append, toolMessages_append, ht.pulls.silent.1,
        toolMessages_of_inert hs.inert, ← ht.calls]
      exact hlength.trans_le (List.length_filter_le ..)
    · rintro ⟨text, action, taken, hm⟩
      rcases List.mem_append.1 hm with hm | hm
      · exact ht.pulls.silent.2.1 call' ⟨text, action, taken, hm⟩
      rcases List.mem_append.1 hm with hm | hm
      · exact hs.inert _ hm
      · exact hr.silent.1 call' ⟨text, action, taken, hm⟩
  · rintro _ ⟨⟩ herr
    exact herr.elim

omit [Sha256] [JsonText] [Deployment] in
theorem stored_of_toolMessages {m : Message} (h : m ∈ toolMessages ms) : .stored m ∈ ms := by
  obtain ⟨mk, hmk, heq⟩ := List.mem_filterMap.1 (List.mem_of_mem_filter h)
  cases mk with
  | stored m' => exact Option.some.inj heq ▸ hmk
  | _ => cases heq

omit [Sha256] [JsonText] [Deployment] in
theorem exists_of_forall₂ {α β : Type} {R : α → β → Prop} {l : List α} {l' : List β}
    (h : List.Forall₂ R l l') {a : α} (ha : a ∈ l) : ∃ b ∈ l', R a b := by
  induction h with
  | nil => cases ha
  | cons hab _ ih =>
    rcases List.mem_cons.1 ha with rfl | ha
    · exact ⟨_, List.mem_cons_self, hab⟩
    · obtain ⟨b, hb, hab⟩ := ih ha
      exact ⟨b, List.mem_cons_of_mem _ hb, hab⟩

omit [Sha256] in
/-- **A round of read calls**: its calls are answered one by one, and what was stored fits. -/
theorem Called.answers (ht : Took e s₀ ma mp x s)
    (hs : Stores e s s.toolCallsThisRound ms (.ok ()))
    (hr : Answers e s.readCalls s.addCalls mr (.ok ()) s')
    (hall : List.Forall₂ AnsweredBy s.readCalls (toolMessages mr))
    (hfits : ∀ m, .stored m ∈ ms ∨ .stored m ∈ mr → m.Fits) :
    Called (ma ++ (mp ++ (ms ++ mr))) := by
  refine (Judged.ofStream (r := .ok ()) ht.asks ?_ ?_ nofun).called
  · rw [gatewayCalls_append, ht.gatewayCalls, gatewayCalls_append,
      gatewayCalls_of_follows hs.follows, gatewayCalls_of_follows (hr.follows s₀.choice)]
    rfl
  · intro _ _
    have htools : toolMessages (mp ++ (ms ++ mr)) = toolMessages mr := by
      rw [toolMessages_append, toolMessages_append, ht.pulls.silent.1,
        toolMessages_of_inert hs.inert]
      rfl
    have hreported : ∀ call, ¬ ReportsCall (mp ++ (ms ++ mr)) call := by
      rintro call ⟨text, action, taken, hm⟩
      rcases List.mem_append.1 hm with hm | hm
      · exact ht.pulls.silent.2.1 call ⟨text, action, taken, hm⟩
      rcases List.mem_append.1 hm with hm | hm
      · exact hs.inert _ hm
      · exact hr.silent.1 call ⟨text, action, taken, hm⟩
    constructor
    · rintro h ⟨call, hcall, hinvalid⟩
      have hanswered := (h call hcall hinvalid).resolve_left (hreported call)
      rw [htools] at hanswered
      -- as many calls as read calls: all are
      have hread : ∀ call ∈ x.toolCalls, isReadTool call.name := by
        refine List.length_filter_eq_length_iff.1 ?_
        rw [hanswered.length_eq, ← hall.length_eq, Turn.readCalls, ht.calls]
      have hstored : ∀ call ∈ x.toolCalls, ∃ m : Message, m.Fits ∧ m.content = x.text ∧
          m.toolCallId = some call.callId ∧ m.toolArgumentsJson = some call.argumentsJson ∧
          m.model = some (e.request s₀).model := by
        intro call hcall
        obtain ⟨id, createdAt, hm⟩ := (hs.stored rfl).2 call (ht.calls ▸ hcall)
        refine ⟨_, hfits _ (.inl hm), ht.text, rfl, rfl, ?_⟩
        rw [TurnContext.assistantMessage, ht.choice]
        rfl
      obtain ⟨m, hm, htext, -, -, hmodel⟩ := hstored call hcall
      refine ⟨hread, fun c hc => ?_, fun c hc => ?_, htext ▸ hm.content, hm.model _ hmodel⟩
      · obtain ⟨m, hm, -, hid, -, -⟩ := hstored c hc
        refine ⟨hm.toolCallId _ hid, fun reason hargs => ?_⟩
        obtain ⟨m, hmem, hby⟩ := exists_of_forall₂ hanswered hc
        have hcontent := (hfits m (.inr (stored_of_toolMessages hmem))).content
        rw [hby.invalid (hread c hc) reason hargs, storable_append, storable_append,
          storable_append] at hcontent
        exact hcontent.2.2
      · obtain ⟨m, hm, -, -, hargs, -⟩ := hstored c hc
        exact hm.toolArgumentsJson _ hargs
    · intro h call hcall hinvalid
      have hanswerable := h ⟨call, hcall, hinvalid⟩
      refine .inr ?_
      rwa [htools, ← List.filter_eq_self.2 hanswerable.read, ← ht.calls]

end Rounds

/-! ## The program -/

section Programs

variable {O : Oracle Row Answer} {p : ℕ} {h : Hist} {e : TurnContext}

omit [Sha256] [JsonText] [Deployment] in
theorem gatewayCalls_of_slight {ms : List Mark} (h : ∀ m ∈ ms, m.Slight) :
    gatewayCalls ms = [] := by
  have hfollows : ∀ m ∈ ms, m.Follows ⟨.OPENAI, ""⟩ := follows_of_slight h
  exact gatewayCalls_of_follows hfollows

omit [Sha256] [JsonText] [Deployment] in
theorem inert_of_slight {ms : List Mark} (hms : ∀ m ∈ ms, m.Slight) : ∀ m ∈ ms, m.Inert := by
  intro m hm
  cases m <;> first | trivial | exact (hms _ hm).elim

omit [Sha256] [JsonText] [Deployment] in
/-- Inert marks show nothing of a call. -/
theorem silent_of_inert {ms : List Mark} (hms : ∀ m ∈ ms, m.Inert) :
    toolMessages ms = [] ∧ ¬ LeftIn ms ∧ ∀ call, ¬ ReportsCall ms call := by
  refine ⟨toolMessages_of_inert hms, ?_, ?_⟩
  · rintro ⟨text, hm⟩
    exact hms _ hm
  · rintro call ⟨text, action, taken, hm⟩
    exact hms _ hm

/-- Whether a write call is reported, and whether the turn raises an exception of its
arguments. -/
theorem reportWriteCall_judged (call : ToolCallRequest) (hwrite : isWriteTool call.name)
    (s : Turn) :
    (reportWriteCall e call).Emits p (fun ms r _ => gatewayCalls ms = [] ∧ toolMessages ms = [] ∧
      ¬ LeftIn ms ∧ (∀ call', ReportsCall ms call' → call' = call ∧ call.Valid) ∧
      ∀ err, r = .error err → err.OfArguments → ¬ call.Valid) s := by
  have hquiet : ∀ {ms : List Mark}, (∀ m ∈ ms, m.Inert) → toolMessages ms = [] ∧ ¬ LeftIn ms ∧
      ∀ call', ReportsCall ms call' → call' = call ∧ call.Valid := by
    intro ms hms
    obtain ⟨htools, hleft, hreported⟩ := silent_of_inert hms
    exact ⟨htools, hleft, fun call' h => absurd h (hreported call')⟩
  by_cases hvalid : call.Valid
  · refine TurnM.Emits.bind (TurnM.Emits.lift (((proposeWriteToolAction_quiet ..).emits p).raises
      (proposeWriteToolAction_valid hwrite hvalid))
      (R := fun ms r s' => s' = s ∧ (∀ m ∈ ms, m.Slight) ∧
        ∀ err, r = .error err → ¬ err.OfArguments) ?_ ?_) ?_ ?_
    · intro ms a hms
      exact ⟨rfl, hms, nofun⟩
    · rintro ms err ⟨hms, herr⟩
      refine ⟨rfl, hms, ?_⟩
      rintro _ ⟨⟩
      exact herr
    · rintro mf ⟨action, approval⟩ s' ⟨rfl, hmf, -⟩
      refine TurnM.Emits.bind (finish_emits e _ _ s') ?_ ?_
      · intro mr _ s₁ hf
        refine (yieldChunk_emits _ s₁).mono ?_
        rintro _ r s₂ ⟨taken, rfl, rfl, rfl⟩
        have hinert : ∀ m ∈ mf ++ mr, m.Inert :=
          List.forall_mem_append.2 ⟨inert_of_slight hmf, hf.inert⟩
        obtain ⟨htools, hleft, hreported⟩ := silent_of_inert hinert
        rw [← List.append_assoc]
        refine ⟨?_, ?_, ?_, ?_, ?_⟩
        · rw [gatewayCalls_append, gatewayCalls_append, gatewayCalls_of_slight hmf,
            gatewayCalls_of_follows hf.follows]
          rfl
        · rw [toolMessages_append, htools]
          rfl
        · rintro ⟨text, hm⟩
          rcases List.mem_append.1 hm with hm | hm
          · exact hleft ⟨text, hm⟩
          · simp at hm
        · rintro call' ⟨text, action', taken', hm⟩
          rcases List.mem_append.1 hm with hm | hm
          · exact absurd ⟨text, action', taken', hm⟩ (hreported call')
          · simp only [List.mem_singleton, Mark.chunk.injEq, TurnChunk.toolStatus.injEq] at hm
            exact ⟨hm.1.2.1, hvalid⟩
        · intro err hr herr
          cases taken with
          | true => cases hr
          | false =>
            obtain rfl := Except.error.inj hr
            exact herr.elim
      · intro mr err s₁ hf
        have hinert : ∀ m ∈ mf ++ mr, m.Inert :=
          List.forall_mem_append.2 ⟨inert_of_slight hmf, hf.inert⟩
        obtain ⟨htools, hleft, hreported⟩ := hquiet hinert
        refine ⟨?_, htools, hleft, hreported, fun err hr herr => absurd herr (hf.raises err hr)⟩
        rw [gatewayCalls_append, gatewayCalls_of_slight hmf, gatewayCalls_of_follows hf.follows]
        rfl
    · rintro mf err s' ⟨-, hmf, herr⟩
      obtain ⟨htools, hleft, hreported⟩ := hquiet (inert_of_slight hmf)
      refine ⟨gatewayCalls_of_slight hmf, htools, hleft, hreported, ?_⟩
      rintro _ ⟨⟩ hargs
      exact absurd hargs (herr err rfl)
  · obtain ⟨err, -, hthrow⟩ := proposeWriteToolAction_invalid e.context e.traceId
      (chatIdempotencyKey e.conversation.id call.callId) hwrite hvalid
    unfold reportWriteCall
    rw [hthrow]
    refine TurnM.Emits.bind (TurnM.Emits.lift (Q := fun _ _ => False)
      (X := fun ms e => ms = [] ∧ e = err) (Emits.throw_iff.2 ⟨rfl, rfl⟩)
      (R := fun ms r _ => ms = [] ∧ r = .error err) ?_ ?_) ?_ ?_
    · exact fun _ _ => False.elim
    · rintro _ _ ⟨rfl, rfl⟩
      exact ⟨rfl, rfl⟩
    · rintro _ _ _ ⟨-, h⟩
      cases h
    · rintro _ _ _ ⟨rfl, -⟩
      obtain ⟨htools, hleft, hreported⟩ := @hquiet [] (List.forall_mem_nil _)
      exact ⟨rfl, htools, hleft, hreported, fun _ _ _ => hvalid⟩

omit [Sha256] [JsonText] in
theorem Asks.unfailed {s : Turn} {ma : List Mark} {x : GatewayStream} (h : Asks e s ma x) :
    .failed ∉ ma := by
  cases h <;> simp

omit [Sha256] [JsonText] in
/-- Only a provider that is configured calls tools. -/
theorem Asks.configured_of_calls {s : Turn} {ma : List Mark} {x : GatewayStream} (h : Asks e s ma x)
    (hx : x.toolCalls ≠ []) : settings.configured s.choice.provider := by
  cases h with
  | configured hc => exact hc
  | null => exact absurd rfl hx

omit [Sha256] [JsonText] in
/-- The rounds of a configured provider begin with a gateway call, or send nothing more than the
last message. -/
theorem Rounds.untilCall_inert {n : ℕ} {s s' : Turn} {ms : List Mark} {r : Except Err Unit}
    (h : Rounds e n s ms r s') (hc : settings.configured s.choice.provider) :
    ∀ m ∈ untilCall ms, m.Inert := by
  have hround : ∀ (s₀ : Turn) (ms' : List Mark) {o : Option (Except Err Unit)} {ms : List Mark}
      {s' : Turn}, settings.configured s₀.choice.provider → Round e s₀ ms o s' →
        untilCall (ms ++ ms') = [] := by
    intro s₀ ms' o ms s' hc h
    obtain ⟨ma, x, rest, ha, rfl, -⟩ := h.asks
    cases ha with
    | configured => rfl
    | null hn => exact absurd hc hn
  cases h with
  | exhausted hf =>
    exact fun m hm => hf.inert m ((List.takeWhile_sublist _).subset hm)
  | ends h =>
    have := hround (s.beginRound _) [] hc h
    rw [List.append_nil] at this
    rw [this]
    exact List.forall_mem_nil _
  | next h =>
    rw [hround (s.beginRound _) _ hc h]
    exact List.forall_mem_nil _

omit [Sha256] [JsonText] in
/-- An answerable stream is stored. -/
theorem Answerable.message_fits {s s₀ : Turn} {ma mp : List Mark} {x : GatewayStream}
    (h : Answerable (e.request s₀) x) (ht : Took e s₀ ma mp x s) {call : ToolCallRequest}
    (hcall : call ∈ s.toolCallsThisRound) (id : Uuid) (createdAt : Time) :
    (e.assistantMessage s s.accumulatedText "tool_calls" (some call) id createdAt).Fits := by
  rw [ht.calls] at hcall
  refine ⟨ht.text ▸ h.text, ?_, ?_, ?_, ?_, ?_⟩
  · rintro _ ⟨⟩
    exact (h.fits call hcall).callId
  · rintro _ ⟨⟩
    change FitsIn 128 call.name
    rw [name_of_read (h.read call hcall)]
    decide
  · rintro _ ⟨⟩
    exact h.arguments call hcall
  · rintro _ ⟨⟩
    rw [ht.choice]
    exact h.model
  · rintro _ ⟨⟩
    decide

/-- **The rounds are judged.** -/
theorem rounds_judged (hO : Obliging O p) (e : TurnContext) (n : ℕ) (s : Turn)
    (hs : Intact p h) : (rounds e n).Plays O p h (fun evs r _ => Judged (marks evs) r) s := by
  induction n generalizing h s with
  | zero =>
    refine (TurnM.Plays.of_emits (finish_emits e _ _ s)).mono ?_
    rintro evs r s' ⟨-, hf⟩
    exact ⟨.of_no_calls (gatewayCalls_of_follows hf.follows), .of_not hf.raises⟩
  | succ n ih =>
    refine TurnM.Plays.modify_bind (TurnM.Plays.get_bind ?_)
    let s₀ := s.beginRound (settings.maxToolRounds - (n + 1))
    refine TurnM.Plays.bind (TurnM.Plays.of_emits (TurnM.Emits.lift (streamChat_emits e s₀)
      (R := fun ms r s' => s' = s₀ ∧ ∃ x, r = .ok x ∧ Asks e s₀ ms x)
      (fun ms x h => ⟨rfl, x, rfl, h⟩) fun _ _ => False.elim)) ?_ ?_
    · rintro evs₁ x _ ⟨-, rfl, _, ⟨⟩, ha⟩
      have hs₁ := hs.append ha.unfailed
      refine TurnM.Plays.bind
        (TurnM.Plays.of_emits (consumeEvents_emits x.error x.events s₀)) ?_ ?_
      · rintro evs₂ _ s ⟨-, hp⟩
        have hs₂ := hs₁.append hp.silent.2.2
        have ht : Took e s₀ (marks evs₁) (marks evs₂) x s := Took.begin ha hp
        refine TurnM.Plays.get_bind ?_
        by_cases hc : s.toolCallsThisRound = []
        · rw [if_pos hc]
          refine (TurnM.Plays.of_emits (finish_emits e _ _ s)).mono ?_
          rintro evs₃ r s' ⟨-, hf⟩
          rw [marks_append, marks_append]
          exact .answered ht hc hf
        · rw [if_neg hc]
          have hstores : (storeToolCalls e s.toolCallsThisRound).Plays O p (evs₂ ++ (evs₁ ++ h))
              (fun evs r s' => (Answerable (e.request s₀) x → r = .ok ()) ∧
                O.Gave (evs₂ ++ (evs₁ ++ h)) evs ∧
                  Stores e s s.toolCallsThisRound (marks evs) r ∧ s = s') s := by
            by_cases hanswerable : Answerable (e.request s₀) x
            · refine (TurnM.Plays.and_emits (storeToolCalls_plays hO (fun call hcall =>
                hanswerable.message_fits ht hcall) hs₂) (storeToolCalls_emits e _ s)).mono ?_
              exact fun _ _ _ h => ⟨fun _ => h.1, h.2⟩
            · refine (TurnM.Plays.of_emits (storeToolCalls_emits e _ s)).mono ?_
              exact fun _ _ _ h => ⟨fun h' => absurd h' hanswerable, h⟩
          refine TurnM.Plays.bind hstores ?_ ?_
          · rintro evs₃ _ _ ⟨-, hg₃, hst, rfl⟩
            have hs₃ := hs₂.append (hst.stored rfl).1
            refine TurnM.Plays.modify_bind ?_
            change TurnM.Plays O p _ _ _ s.addCalls
            split
            · rename_i call calls hw
              have hcall : call ∈ s.writeCalls := by
                rw [Turn.writeCalls, hw]
                exact List.mem_cons_self
              refine (TurnM.Plays.of_emits (reportWriteCall_judged call
                (List.mem_filter.1 hcall).2 s.addCalls)).mono ?_
              rintro evs₄ r s' ⟨-, hmt⟩
              rw [marks_append, marks_append, marks_append]
              exact .written ht hst hcall hmt
            · rename_i hw
              have hread : ∀ call ∈ s.readCalls, isReadTool call.name :=
                fun call hcall => (List.mem_filter.1 hcall).2
              refine TurnM.Plays.bind (((answerReadCalls_plays (e := e) (s := s.addCalls) hO hread
                hs₃).and_emits (answerReadCalls_emits e _ s.addCalls)).and_emits
                (answerReadCalls_answered e _ s.addCalls)) ?_ ?_
              · rintro evs₄ _ s₁ ⟨⟨⟨hok, -⟩, -, hr⟩, hg₄, hall | ⟨⟨⟩, -⟩⟩
                have hs₄ := hs₃.append (hok rfl)
                have hcalled := Called.answers ht hst hr hall.2 fun m hm =>
                  hm.elim (hO.fits hg₃) (hO.fits hg₄)
                refine ((ih s₁ hs₄).and_emits (rounds_emits e n s₁)).mono ?_
                rintro evs₅ r s' ⟨hj, -, hrounds⟩
                have hconfigured : settings.configured s₁.choice.provider := by
                  rw [hr.kept.1]
                  change settings.configured s.choice.provider
                  rw [ht.choice]
                  exact ha.configured_of_calls (ht.calls ▸ hc)
                rw [marks_append, marks_append, marks_append, marks_append]
                rw [← List.append_assoc, ← List.append_assoc, ← List.append_assoc]
                simp only [List.append_assoc] at hcalled ⊢
                have := hcalled.append hj.called (hrounds.untilCall_inert hconfigured)
                refine ⟨by simpa only [List.append_assoc] using this, ?_⟩
                have hblamed := hj.blamed.append_left
                  (marks evs₁ ++ (marks evs₂ ++ (marks evs₃ ++ marks evs₄)))
                simpa only [List.append_assoc] using hblamed
              · rintro evs₄ err s₁ ⟨⟨⟨-, hfits⟩, -, hr⟩, -, ⟨⟨⟩, -⟩ | ⟨herr, hlength⟩⟩
                rw [marks_append, marks_append, marks_append]
                refine .unanswered ht hst hr hlength (Except.error.inj herr) fun hanswerable => ?_
                have hfits := hfits fun call hcall =>
                  hanswerable.fits call (ht.calls ▸ List.mem_of_mem_filter hcall)
                cases hfits
          · rintro evs₃ err _ ⟨hanswerable, -, hst, rfl⟩
            rw [marks_append, marks_append]
            refine .unstored ht hc hst fun h => ?_
            cases hanswerable h
      · rintro evs₂ err s ⟨-, hp⟩
        rw [marks_append]
        exact .broken ha hp
    · rintro _ err s' ⟨-, -, _, ⟨⟩, -⟩

omit [Sha256] in
/-- Streams that all broke off have nothing to absorb. -/
theorem Judged.vain {ms : List Mark} {err : Err} (h : ∀ x ∈ gatewayCalls ms, x.2.error ≠ none)
    (herr : ¬ err.OfArguments) : Judged ms (.error err) := by
  constructor
  · have := Called.append_of_errors h (.of_no_calls rfl : Called [])
    rwa [List.append_nil] at this
  · refine Blamed.of_not ?_
    rintro _ ⟨⟩
    exact herr

omit [Sha256] [JsonText] in
theorem Picks.unfailed {customerId : Uuid} {excluding : Provider} {candidates : List Provider}
    {ms : List Mark} {o : Option Provider} (h : Picks customerId excluding candidates ms o) :
    .failed ∉ ms := by
  induction h with
  | none => exact List.not_mem_nil
  | skipped _ _ ih => exact ih
  | disabled _ _ _ ih => simpa using ih
  | picked => simp

omit [Sha256] [JsonText] in
theorem Asks.gatewayCalls_eq {s : Turn} {ma : List Mark} {x : GatewayStream} {err : Err}
    (h : Asks e s ma x) (hx : x.error = some err) : ∀ y ∈ gatewayCalls ma, y.2 = x := by
  cases h with
  | configured => exact List.forall_mem_singleton.2 rfl
  | null => cases hx

/-- What is seen of a step that asks no gateway, and raises only where a statement fails. -/
structure CallsNone {α : Type} (ms : List Mark) (r : Except Err α) : Prop where
  calls : gatewayCalls ms = []
  unfailed : r.isOk = true → .failed ∉ ms
  database : ∀ err, r = .error err → err = .database

omit [Sha256] [JsonText] [Deployment] in
theorem CallsNone.failed {α : Type} {ms : List Mark} (h : gatewayCalls ms = []) :
    CallsNone ms (.error .database : Except Err α) := by
  refine ⟨h, by simp [Except.isOk, Except.toBool], ?_⟩
  rintro _ ⟨⟩
  rfl

omit [Sha256] [JsonText] [Deployment] in
theorem isFallbackEnabled_callsNone (customerId : Uuid) (s : Turn) :
    (TurnM.lift (isFallbackEnabled customerId)).Emits p (fun ms r _ => CallsNone ms r) s := by
  refine TurnM.Emits.lift (isFallbackEnabled_emits customerId) ?_ ?_
  · rintro _ _ ⟨b, rfl, rfl⟩
    exact ⟨rfl, by simp, by simp⟩
  · rintro _ _ ⟨rfl, rfl⟩
    exact .failed rfl

omit [Sha256] [JsonText] in
theorem pickFallbackFrom_callsNone (customerId : Uuid) (excluding : Provider)
    (candidates : List Provider) (s : Turn) :
    (TurnM.lift (pickFallbackFrom customerId excluding candidates)).Emits p
      (fun ms r _ => CallsNone ms r) s := by
  refine TurnM.Emits.lift (pickFallbackFrom_emits customerId excluding candidates) ?_ ?_
  · intro ms o hp
    exact ⟨hp.gatewayCalls none, fun _ => hp.unfailed, by simp⟩
  · rintro ms _ ⟨rfl, -, hms⟩
    refine .failed (List.filterMap_eq_nil_iff.2 fun m hm => ?_)
    have := hms m hm
    cases m <;> first | rfl | exact this.elim

/-- **The rounds and their fallback are judged.** -/
theorem withFallback_judged (hO : Obliging O p) (e : TurnContext) (s : Turn) (hs : Intact p h) :
    (withFallback e).Plays O p h (fun evs r _ => Judged (marks evs) r) s := by
  refine TurnM.Plays.attempt_bind ((rounds_judged hO e settings.maxToolRounds s hs).and_emits
    (rounds_emits e _ s)) ?_
  rintro evs₁ r₁ s₁ ⟨hj, -, hrounds⟩
  cases r₁ with
  | ok u => exact TurnM.Plays.pure hj
  | error err =>
    refine TurnM.Plays.get_bind ?_
    have hiff : (¬ err.mayFallBack = true ∨ s₁.roundIndex ≠ 0 ∨ s₁.accumulatedText ≠ "" ∨
        s₁.toolCallsThisRound ≠ []) ↔ ¬ s₁.mayFallBack err := by
      simp only [Turn.mayFallBack, not_and_or, ne_eq]
    by_cases hm : s₁.mayFallBack err
    · rw [if_neg (hiff.not.2 (not_not.2 hm))]
      obtain ⟨i, ma, mp, x, hms, ha, hp⟩ := hrounds.broke rfl le_rfl hm
      have herr : ¬ err.OfArguments := by
        have := hm.1
        cases err <;> first | exact id | cases this
      have hx : x.error = some err := by
        rcases hp.of_error rfl with hx | ⟨rfl, -⟩
        · exact hx
        · cases hm.1
      have hsound : Intact p (evs₁ ++ h) := by
        refine hs.append ?_
        rw [hms, List.mem_append, not_or]
        exact ⟨ha.unfailed, hp.silent.2.2⟩
      -- what is seen after the stream, as long as it asks for no other
      have hbroken : ∀ {md : List Mark}, gatewayCalls md = [] →
          ∀ y ∈ gatewayCalls (marks evs₁ ++ md), y.2.error ≠ none := by
        intro md hmd y hy
        rw [gatewayCalls_append, hmd, List.append_nil, hms, gatewayCalls_append,
          gatewayCalls_of_follows (hp.follows s.choice), List.append_nil] at hy
        rw [ha.gatewayCalls_eq hx y hy, hx]
        exact Option.some_ne_none _
      refine TurnM.Plays.bind (TurnM.Plays.of_emits
        (isFallbackEnabled_callsNone e.context.customerId s₁)) ?_ ?_
      · rintro evs₂ b s₂ ⟨-, hcalls₂, hfailed₂, -⟩
        have hsound₂ := hsound.append (hfailed₂ rfl)
        cases b with
        | false =>
          refine TurnM.Plays.throw ?_
          rw [List.nil_append, marks_append]
          exact .vain (hbroken hcalls₂) herr
        | true =>
          refine TurnM.Plays.bind (TurnM.Plays.of_emits
            (pickFallbackFrom_callsNone e.context.customerId _ fallbackOrder s₂)) ?_ ?_
          · rintro evs₃ o s₃ ⟨-, hcalls₃, hfailed₃, -⟩
            have hcalls : gatewayCalls (marks evs₂ ++ marks evs₃) = [] := by
              rw [gatewayCalls_append, hcalls₂, hcalls₃]
              rfl
            cases o with
            | none =>
              refine TurnM.Plays.throw ?_
              rw [List.nil_append, marks_append, marks_append]
              exact .vain (hbroken hcalls) herr
            | some provider =>
              refine TurnM.Plays.modify_bind ((rounds_judged hO e settings.maxToolRounds _
                (hsound₂.append (hfailed₃ rfl))).mono ?_)
              intro evs₄ r s' hj'
              rw [marks_append, marks_append, marks_append]
              have hcalled := Called.append_of_errors (hbroken hcalls) hj'.called
              have hblamed := hj'.blamed.append_left
                (marks evs₁ ++ (marks evs₂ ++ marks evs₃))
              rw [List.append_assoc, List.append_assoc] at hcalled hblamed
              exact ⟨hcalled, hblamed⟩
          · rintro evs₃ err' _ ⟨-, hcalls₃, -, hdatabase⟩
            rw [hdatabase err' rfl, marks_append, marks_append]
            refine .vain (hbroken ?_) id
            rw [gatewayCalls_append, hcalls₂, hcalls₃]
            rfl
      · rintro evs₂ err' _ ⟨-, hcalls₂, -, hdatabase⟩
        rw [hdatabase err' rfl, marks_append]
        exact .vain (hbroken hcalls₂) id
    · rw [if_pos (hiff.2 hm)]
      exact TurnM.Plays.throw hj

end Programs

/-! ## The turn -/

section Play

variable {O : Oracle Row Answer} {p : ℕ} {e : TurnContext} {s s₁ s' : Turn} {h h₀ evs : Hist}
  {ms ms' : List Mark} {r r₁ : Except Err Unit}

omit [Sha256] [JsonText] [Deployment] in
theorem inert_of_settlement (hms : ∀ m ∈ ms, m.OfSettlement) : ∀ m ∈ ms, m.Inert := by
  intro m hm
  have := hms m hm
  cases m with
  | chunk c _ => cases c <;> first | exact this.elim | trivial
  | _ => first | exact this.elim | trivial

omit [Sha256] [JsonText] in
/-- What a settlement fails with is no matter of a tool's arguments. -/
theorem Reconciles.not_ofArguments {status : UsageEventStatus} {err : Err}
    (h : Reconciles e s status ms r) (hr : r = .error err) : ¬ err.OfArguments := by
  cases h with
  | settled => cases hr
  | unpriced =>
    obtain rfl := Except.error.inj hr
    simp [Err.OfArguments, jsonErrors]
  | missing | failed | unrecorded =>
    obtain rfl := Except.error.inj hr
    exact id

omit [Sha256] in
/-- **A turn that is judged** absorbs its invalid calls just if its streams are tame. -/
theorem absorbed_iff_of_judged (hl : Loop e s ms r₁ s₁) (hj : Judged ms r₁)
    (hs : Settles e s₁ r₁ ms' r s') :
    Absorbed (ms ++ ms') r ↔ ∀ q x after, .call q x :: after <:+ ms ++ ms' → x.error = none →
      ¬ LeftIn (untilCall after) → Tame q x := by
  have hinert : ∀ m ∈ untilCall ms', m.Inert := fun m hm =>
    inert_of_settlement hs.ofSettlement m ((List.takeWhile_sublist _).subset hm)
  have hcalled : Called (ms ++ ms') := hj.called.append (.of_no_calls hs.calls) hinert
  constructor
  · intro h q x after hcall hx hleft
    exact (hcalled q x after hcall hx hleft).1 (h.answered q x after hcall hx hleft)
  · intro htame
    have hblamed : ∀ err, r₁ = .error err → err.OfArguments →
        ∃ x ∈ gatewayCalls (ms ++ ms'), x.2.error = some err := by
      intro err hr herr
      rcases hj.blamed.append_right hinert err hr herr with
        hx | ⟨q, x, after, hcall, hx, hleft, hn⟩
      · exact hx
      · exact absurd (htame q x after hcall hx hleft) hn
    have hraised : ∀ err, r = .error err → err.OfArguments →
        ∃ x ∈ gatewayCalls (ms ++ ms'), x.2.error = some err := by
      intro err hr herr
      cases hs with
      | completed _ taken =>
        cases taken with
        | true => cases hr
        | false =>
          obtain rfl := Except.error.inj hr
          exact herr.elim
      | raised => exact hblamed err hr herr
      | unsettled hrec => exact absurd herr (hrec.not_ofArguments hr)
    refine ⟨fun q x after hcall hx hleft =>
      (hcalled q x after hcall hx hleft).2 (htame q x after hcall hx hleft), hraised, ?_⟩
    cases hs with
    | @completed mr hrec taken =>
      obtain ⟨-, -, ym, u, -, husage, hstatus⟩ := hrec.settled_projections rfl
      refine .inl ⟨u, ?_, hstatus⟩
      rw [usageEvents_append, usageEvents_of_loop hl.ofLoop, usageEvents_append, husage]
      rfl
    | raised | unsettled => exact .inr ⟨_, rfl, hraised _ rfl⟩

omit [Sha256] [JsonText] [Deployment] in
theorem ran_of_updated {ev : Event Row Answer} {customerId : Uuid} {ym : String}
    {op : AIBudgetLedger → AIBudgetLedger} (h : mark ev = some (.updated customerId ym op)) :
    ∃ p, ∃ q : Stmt Row, ∃ x, ev = .ran p q x := by
  cases ev with
  | ran p q x => exact ⟨p, q, x, rfl⟩
  | called p e x =>
    rw [mark_called] at h
    fun_cases callMark e x
    all_goals simp_all [callMark]
  | failed | committed | rolledBack => cases h
  | crashed => cases h

omit [Sha256] [JsonText] in
/-- A reservation is answered, so its transaction is intact after it. -/
theorem Reserves.intact (hO : Obliging O p) {customerId : Uuid} {estimatedCents : ℤ}
    (hr : Reserves customerId estimatedCents ms') (hg : O.Gave h₀ evs)
    (hms : marks evs = ms ++ ms') : Intact p (evs ++ h₀) := by
  cases hr with
  | @reserved mk l t hl hcap =>
    rw [← List.append_assoc] at hms
    obtain ⟨h₁, ev, h₂, rfl, hev, -, hnone⟩ := exists_of_trace_eq hms
    obtain ⟨p', q, x, rfl⟩ := ran_of_updated hev
    rw [List.append_cons, List.append_assoc]
    refine (hO.intact hg.of_append.1.1).append ?_
    rw [marks_append, marks, marks, hnone, trace_cons, hev]
    simp

/-- **Which turns absorb the invalid calls of a model**: those whose streams, where they end well
and the client takes their text, have an invalid call only among calls of read tools, with all
that is stored of them going into its columns. -/
theorem arguments_absorbed_iff (hO : Obliging O p)
    {context : WorkspaceContext} {conversation : Conversation} {traceId : Uuid} {content : String}
    {mode : ChatMode} {h₀ : Hist}
    (hb : play O p (beginTurn context conversation traceId content mode) h₀ = (.ok (e, s), h)) :
    ∃ r s' evs, play O p (runTurn e s) h = (.ok (r, s'), evs ++ h) ∧
      (Absorbed (marks evs) r ↔ ∀ q x after, .call q x :: after <:+ marks evs → x.error = none →
        ¬ LeftIn (untilCall after) → Tame q x) := by
  have hsound : Intact p h := by
    obtain ⟨evs, hevs, hg⟩ :=
      play_gave (O := O) (p := p) (beginTurn context conversation traceId content mode) h₀
    obtain ⟨ms, hms, hbegins⟩ := play_emits (O := O) (p := p)
      (beginTurn_emits context conversation traceId content mode) h₀
    rw [hb] at hevs hms hbegins
    obtain rfl : h = evs ++ h₀ := hevs
    obtain rfl : marks evs = ms := by
      have := hms
      rw [trace_append] at this
      exact List.append_cancel_left this
    generalize hm : marks evs = ms at hbegins
    cases hbegins with
    | begun _ _ _ _ _ _ _ _ _ _ _ _ _ _ hr =>
      rw [List.append_cons, List.append_cons] at hm
      exact hr.intact hO hg hm
  obtain ⟨r₁, s₁, evs₁, hplay₁, -, hj, -, hl⟩ :=
    (withFallback_judged hO e s hsound).and_emits (withFallback_emits e s)
  obtain ⟨r, s₂, evs₂, hplay₂, -, hs⟩ :=
    play_turn (O := O) (settle_emits (p := p) e r₁ s₁) (evs₁ ++ h)
  refine ⟨r, s₂, evs₂ ++ evs₁, ?_, ?_⟩
  · rw [runTurn_eq, play_attempt_bind hplay₁, hplay₂, List.append_assoc]
  · rw [marks_append]
    exact absorbed_iff_of_judged hl hj hs

end Play

end Turn

/-! ## Sample turns -/

section Sample

/-- The sample deployment; the samples' arguments fit no tool. -/
@[reducible] private def strictDeployment : Deployment :=
  { sampleDeployment with
    listMyOpenTasksArgs := fun _ => .error "Extra inputs are not permitted"
    telegramSendMessageArgs := fun _ => .error "Field required" }

attribute [local instance] plainSha plainJsonText strictDeployment

/-- Every round asks for one call of a tool. -/
private def callsTool (name argumentsJson : String) : Provider → GatewayStream := fun _ =>
  { events := [.toolCallReady ⟨"call-1", name, argumentsJson⟩,
      .completed ⟨40, 20, 0⟩ "tool_calls"] }

/-- A database without rows that refuses what does not fit, and a model that calls the tool. -/
private def toolOracle (name argumentsJson : String) : Oracle Row Answer :=
  refusing (sampleOracle (callsTool name argumentsJson)) 0

private theorem toolOracle_obliging (name argumentsJson : String) :
    Obliging (toolOracle name argumentsJson) 0 := by
  refine refusing_obliging 0 (works_sampleOracle _).stmt ?_
  rintro _ _ ⟨⟩ _ _ ⟨⟩

/-- A turn as it is played: how it ends, and its events. -/
private def playTool (name argumentsJson : String) :
    Option (TurnContext × Turn × Hist × Except Err Unit × Turn × Hist) :=
  match play (toolOracle name argumentsJson) 0
      (beginTurn sampleContext sampleConversation 9 "Salom" .STANDARD) [] with
  | (.ok (e, s), h) =>
    match play (toolOracle name argumentsJson) 0 (runTurn e s) h with
    | (.ok (r, s'), h') => some (e, s, h, r, s', h'.take (h'.length - h.length))
    | _ => none
  | _ => none

private theorem playTool_plays {name argumentsJson : String} {e : TurnContext} {s s' : Turn}
    {h evs : Hist} {r : Except Err Unit}
    (hturn : playTool name argumentsJson = some (e, s, h, r, s', evs)) :
    play (toolOracle name argumentsJson) 0
        (beginTurn sampleContext sampleConversation 9 "Salom" .STANDARD) [] = (.ok (e, s), h) ∧
      play (toolOracle name argumentsJson) 0 (runTurn e s) h = (.ok (r, s'), evs ++ h) := by
  unfold playTool at hturn
  split at hturn
  · rename_i e₁ s₁ h₁ hb
    split at hturn
    · rename_i r₁ s₂ h₂ ht
      obtain ⟨rfl, rfl, rfl, rfl, rfl, rfl⟩ : e₁ = e ∧ s₁ = s ∧ h₁ = h ∧ r₁ = r ∧ s₂ = s' ∧
          h₂.take (h₂.length - h₁.length) = evs := by
        simpa using hturn
      obtain ⟨evs, hevs, -⟩ := play_gave (O := toolOracle name argumentsJson) (p := 0)
        (runTurn e₁ s₁) h₁
      rw [ht] at hevs
      obtain rfl : h₂ = evs ++ h₁ := hevs
      refine ⟨hb, ?_⟩
      rw [List.length_append, Nat.add_sub_cancel, List.take_left]
      exact ht
    · cases hturn
  · cases hturn

/-- The turn has raised a tool's refusal. -/
private def isRefusal : Except Err Unit → Bool
  | .error (.toolArgumentsInvalid _ _) => true
  | _ => false

/-- The model sends a Telegram message without a text: the turn is aborted and refunded. -/
theorem write_call_aborts : ∃ e s h r s' evs,
    play (toolOracle "telegram_send_message" "\x7b\x7d") 0
      (beginTurn sampleContext sampleConversation 9 "Salom" .STANDARD) [] = (.ok (e, s), h) ∧
    play (toolOracle "telegram_send_message" "\x7b\x7d") 0 (runTurn e s) h =
      (.ok (r, s'), evs ++ h) ∧
    (usageEvents (marks evs)).map (·.status) = [.REFUNDED] ∧ ¬ Absorbed (marks evs) r := by
  have hrun : ((playTool "telegram_send_message" "\x7b\x7d").any fun (_, _, _, r, _, evs) =>
      decide ((usageEvents (marks evs)).map (·.status) = [.REFUNDED]) &&
      (gatewayCalls (marks evs)).all (·.2.error.isNone) && isRefusal r) = true := by
    decide +kernel
  obtain ⟨⟨e, s, h, r, s', evs⟩, hplay, hr⟩ := (Option.any_eq_true _ _).1 hrun
  obtain ⟨hbegin, hturn⟩ := playTool_plays hplay
  simp only [Bool.and_eq_true, decide_eq_true_eq, List.all_eq_true] at hr
  obtain ⟨⟨husage, herrors⟩, hr⟩ := hr
  refine ⟨e, s, h, r, s', evs, hbegin, hturn, husage, ?_⟩
  intro habsorbed
  unfold isRefusal at hr
  split at hr
  · rename_i name reason
    obtain ⟨x, hx, herr⟩ := habsorbed.raised _ rfl trivial
    have := herrors x hx
    rw [herr] at this
    cases this
  · cases hr

/-- Every round lists tasks with arguments that the tool refuses; each call is answered with the
refusal, and the turn ends normally. -/
theorem arguments_absorbed_iff_sample : ∃ e s h r s' evs,
    play (toolOracle "list_my_open_tasks" "[]") 0
      (beginTurn sampleContext sampleConversation 9 "Salom" .STANDARD) [] = (.ok (e, s), h) ∧
    play (toolOracle "list_my_open_tasks" "[]") 0 (runTurn e s) h = (.ok (r, s'), evs ++ h) ∧
    (toolMessages (marks evs)).map (·.content) = List.replicate settings.maxToolRounds
      "Tool error: list_my_open_tasks: Extra inputs are not permitted" ∧
    Absorbed (marks evs) r := by
  have hrun : ((playTool "list_my_open_tasks" "[]").any fun (_, _, _, _, _, evs) =>
      decide ((toolMessages (marks evs)).map (·.content) = List.replicate settings.maxToolRounds
        "Tool error: list_my_open_tasks: Extra inputs are not permitted") &&
      (gatewayCalls (marks evs)).all fun x => decide (FitsIn 64 x.1.model) &&
        decide (x.2.text = "") &&
        decide (x.2.toolCalls = [⟨"call-1", "list_my_open_tasks", "[]"⟩])) = true := by
    decide +kernel
  obtain ⟨⟨e, s, h, r, s', evs⟩, hplay, hr⟩ := (Option.any_eq_true _ _).1 hrun
  obtain ⟨hbegin, hturn⟩ := playTool_plays hplay
  simp only [Bool.and_eq_true, decide_eq_true_eq, List.all_eq_true] at hr
  obtain ⟨hanswers, hall⟩ := hr
  obtain ⟨r', s'', evs', hturn', hiff⟩ :=
    arguments_absorbed_iff (toolOracle_obliging _ _) hbegin
  rw [hturn] at hturn'
  simp only [Prod.mk.injEq, Except.ok.injEq, List.append_cancel_right_eq] at hturn'
  obtain ⟨⟨rfl, rfl⟩, rfl⟩ := hturn'
  refine ⟨e, s, h, r, s', evs, hbegin, hturn, hanswers, hiff.2 ?_⟩
  intro q x after hcall _ _ _
  obtain ⟨⟨hmodel, htext⟩, hcalls⟩ :=
    hall (q, x) (mem_gatewayCalls.2 (hcall.subset List.mem_cons_self))
  dsimp only at hmodel htext hcalls
  refine ⟨?_, ?_, ?_, ?_, hmodel⟩
  · rw [hcalls]
    exact List.forall_mem_singleton.2 (by decide)
  · rw [hcalls]
    refine List.forall_mem_singleton.2 ⟨by decide, ?_⟩
    rintro _ ⟨⟩
    decide
  · rw [hcalls]
    exact List.forall_mem_singleton.2 (by decide)
  · rw [htext]
    decide

end Sample

end Doda
