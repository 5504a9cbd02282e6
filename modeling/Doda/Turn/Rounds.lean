import Doda.Turn.Quiet

/-!
# The rounds of a turn

What a turn shows, said without its program: one relation for each part of it,
between the locals before, the marks, how the part ends, and the locals after.  The
program is in these relations whatever the database, the gateways and the client
answer, so what holds of every turn is proved by induction on them.

## Main definitions

* `Asks`, `Pulls` — a gateway call, and what is taken from its stream.
* `Finishes`, `Stores`, `Answers` — the messages a round stores.
* `Round`, `Rounds` — one round, and the loop over them.
* `Picks`, `Loop` — the choice of a fallback, and the loop with it.
* `withFallback_emits` — the program is in the relation.
-/

namespace Doda

open ReadCommitted

section Turn

variable [Sha256] [JsonText] [Deployment]

/-! ## One gateway call -/

/-- The locals at the start of a round. -/
def Turn.beginRound (s : Turn) (i : ℕ) : Turn :=
  { s with roundIndex := i, accumulatedText := "", toolCallsThisRound := [], finishReason := "stop" }

/-- The arguments of a gateway call. -/
def TurnContext.request (e : TurnContext) (s : Turn) : GatewayRequest where
  provider := s.choice.provider
  model := s.choice.model
  mode := e.mode
  instructions := e.instructions
  history := s.history
  maxOutputTokens := e.maxOutputTokens

/-- The turn calls its gateway. -/
inductive Asks (e : TurnContext) (s : Turn) : List Mark → GatewayStream → Prop where
  | configured (hc : settings.configured s.choice.provider) (x : GatewayStream) :
      Asks e s [.call (e.request s) x] x
  /-- Nothing leaves the process. -/
  | null (hc : ¬ settings.configured s.choice.provider) : Asks e s [] nullGatewayStream

/-- The locals after an event of the stream. -/
def Turn.take (s : Turn) : GatewayEvent → Turn
  | .textDelta text => { s with accumulatedText := s.accumulatedText ++ text, started := true }
  | .toolCallReady call => { s with toolCallsThisRound := s.toolCallsThisRound ++ [call] }
  | .structuredOutputReady data => { s with accumulatedText := data.dumps }
  | .completed usage finishReason =>
    { s with finishReason := finishReason, totalUsage := s.totalUsage.add usage }
  | .gatewayError => s

/-- The chunk an event of the stream is passed on as. -/
def GatewayEvent.chunk : GatewayEvent → Option Mark
  | .textDelta text => some (.chunk (.text text) true)
  | _ => none

/-- The turn takes the events of a stream, all of them or up to the text at which the
client has gone. -/
inductive Pulls (x : GatewayStream) (s : Turn) : List Mark → Except Err Unit → Turn → Prop where
  | whole : Pulls x s (x.events.filterMap GatewayEvent.chunk)
      (match x.error with | some err => .error err | none => .ok ()) (x.events.foldl Turn.take s)
  | lost (evs evs' : List GatewayEvent) (text : String)
      (hx : x.events = evs ++ .textDelta text :: evs') :
      Pulls x s (evs.filterMap GatewayEvent.chunk ++ [.chunk (.text text) false])
        (.error .generatorExit) ((evs.foldl Turn.take s).take (.textDelta text))

/-! ## Messages -/

/-- The assistant's message. -/
def TurnContext.assistantMessage (e : TurnContext) (s : Turn) (content finishReason : String)
    (call : Option ToolCallRequest) (id : Uuid) (createdAt : Time) : Message where
  id := id
  createdAt := createdAt
  customerId := e.conversation.customerId
  conversationId := e.conversation.id
  role := .ASSISTANT
  content := content
  toolCallId := call.map (·.callId)
  toolName := call.map (·.name)
  toolArgumentsJson := call.map (·.argumentsJson)
  provider := some s.choice.provider
  model := some s.choice.model
  finishReason := some finishReason

/-- A tool's answer. -/
def TurnContext.toolMessage (e : TurnContext) (call : ToolCallRequest) (text : String) (id : Uuid)
    (createdAt : Time) : Message where
  id := id
  createdAt := createdAt
  customerId := e.conversation.customerId
  conversationId := e.conversation.id
  role := .TOOL
  content := text
  toolCallId := some call.callId

/-- The locals once the last message is stored. -/
def Turn.finish (s : Turn) (message : Message) : Turn :=
  { s with finalAssistantMessage := some message }

/-- The turn stores its last message. -/
inductive Finishes (e : TurnContext) (s : Turn) (content finishReason : String) :
    List Mark → Except Err Unit → Turn → Prop where
  | stored (id : Uuid) (createdAt : Time) :
      Finishes e s content finishReason
        [.stored (e.assistantMessage s content finishReason none id createdAt)] (.ok ())
        (s.finish (e.assistantMessage s content finishReason none id createdAt))
  | failed : Finishes e s content finishReason [.failed] (.error .database) s

/-- The turn stores tool calls. -/
inductive Stores (e : TurnContext) (s : Turn) :
    List ToolCallRequest → List Mark → Except Err Unit → Prop where
  | nil : Stores e s [] [] (.ok ())
  | failed (call : ToolCallRequest) (calls : List ToolCallRequest) :
      Stores e s (call :: calls) [.failed] (.error .database)
  | cons {call : ToolCallRequest} {calls : List ToolCallRequest} {ms r} (id : Uuid)
      (createdAt : Time) (h : Stores e s calls ms r) :
      Stores e s (call :: calls)
        (.stored (e.assistantMessage s s.accumulatedText "tool_calls" (some call) id createdAt) ::
          ms) r

/-- The locals once a tool's answer is in the history. -/
def Turn.addAnswer (s : Turn) (call : ToolCallRequest) (text : String) : Turn :=
  { s with
    history := s.history ++ [{ role := .TOOL, content := text, toolCallId := some call.callId }] }

/-- Read calls are answered. -/
inductive Answers (e : TurnContext) :
    List ToolCallRequest → Turn → List Mark → Except Err Unit → Turn → Prop where
  | nil (s : Turn) : Answers e [] s [] (.ok ()) s
  | failed (call : ToolCallRequest) (calls : List ToolCallRequest) (s : Turn) {mf : List Mark}
      (hmf : ∀ m ∈ mf, m.Slight) :
      Answers e (call :: calls) s (mf ++ [.failed]) (.error .database) s
  | cons {call : ToolCallRequest} {calls : List ToolCallRequest} {s : Turn} {mf ms r s'}
      (hmf : ∀ m ∈ mf, m.Slight) (text : String) (id : Uuid) (createdAt : Time)
      (h : Answers e calls (s.addAnswer call text) ms r s') :
      Answers e (call :: calls) s (mf ++ .stored (e.toolMessage call text id createdAt) :: ms) r s'

/-! ## Rounds -/

/-- The locals once the assistant's tool calls are in the history. -/
def Turn.addCalls (s : Turn) : Turn :=
  { s with
    history := s.history ++
      [{ role := .ASSISTANT, content := s.accumulatedText, toolCalls := s.toolCallsThisRound }] }

/-- The write calls of a round. -/
def Turn.writeCalls (s : Turn) : List ToolCallRequest :=
  s.toolCallsThisRound.filter (isWriteTool ·.name)

/-- The read calls of a round. -/
def Turn.readCalls (s : Turn) : List ToolCallRequest :=
  s.toolCallsThisRound.filter (isReadTool ·.name)

/-- One round from the locals `s₀` at its start: it ends the loop, or lets it go on
(`none`). -/
inductive Round (e : TurnContext) (s₀ : Turn) :
    List Mark → Option (Except Err Unit) → Turn → Prop where
  /-- The stream ends in an error, or the client has gone. -/
  | broken {ma mp x err s} (ha : Asks e s₀ ma x) (hp : Pulls x s₀ mp (.error err) s) :
      Round e s₀ (ma ++ mp) (some (.error err)) s
  /-- No tool call: the text is the answer. -/
  | answered {ma mp mf x s r s'} (ha : Asks e s₀ ma x) (hp : Pulls x s₀ mp (.ok ()) s)
      (hc : s.toolCallsThisRound = [])
      (hf : Finishes e s s.accumulatedText s.finishReason mf r s') :
      Round e s₀ (ma ++ mp ++ mf) (some r) s'
  | unstored {ma mp ms x s err} (ha : Asks e s₀ ma x) (hp : Pulls x s₀ mp (.ok ()) s)
      (hc : s.toolCallsThisRound ≠ []) (hs : Stores e s s.toolCallsThisRound ms (.error err)) :
      Round e s₀ (ma ++ mp ++ ms) (some (.error err)) s
  /-- A write call that cannot be proposed. -/
  | refused {ma mp ms mf x s err} (ha : Asks e s₀ ma x) (hp : Pulls x s₀ mp (.ok ()) s)
      (hc : s.toolCallsThisRound ≠ []) (hs : Stores e s s.toolCallsThisRound ms (.ok ()))
      (hw : s.writeCalls ≠ []) (hmf : ∀ m ∈ mf, m.Slight) :
      Round e s₀ (ma ++ mp ++ ms ++ mf) (some (.error err)) s.addCalls
  /-- A write call is proposed; the report is not stored. -/
  | unreported {ma mp ms mf mr x s err s'} (ha : Asks e s₀ ma x) (hp : Pulls x s₀ mp (.ok ()) s)
      (hc : s.toolCallsThisRound ≠ []) (hs : Stores e s s.toolCallsThisRound ms (.ok ()))
      (hw : s.writeCalls ≠ []) (hmf : ∀ m ∈ mf, m.Slight) (content : String)
      (hf : Finishes e s.addCalls content "tool_calls" mr (.error err) s') :
      Round e s₀ (ma ++ mp ++ ms ++ mf ++ mr) (some (.error err)) s'
  /-- A write call is proposed and reported; this ends the loop. -/
  | reported {ma mp ms mf mr x s s'} (ha : Asks e s₀ ma x) (hp : Pulls x s₀ mp (.ok ()) s)
      (hc : s.toolCallsThisRound ≠ []) (hs : Stores e s s.toolCallsThisRound ms (.ok ()))
      (hmf : ∀ m ∈ mf, m.Slight) {call : ToolCallRequest} (hw : call ∈ s.writeCalls)
      (action : Action)
      (hf : Finishes e s.addCalls (statusText call action) "tool_calls" mr (.ok ()) s')
      (taken : Bool) :
      Round e s₀ (ma ++ mp ++ ms ++ mf ++ mr ++
          [.chunk (.toolStatus (statusText call action) call action) taken])
        (some (if taken then .ok () else .error .generatorExit)) { s' with started := true }
  /-- No write call: the read calls are answered. -/
  | unanswered {ma mp ms mr x s err s'} (ha : Asks e s₀ ma x) (hp : Pulls x s₀ mp (.ok ()) s)
      (hc : s.toolCallsThisRound ≠ []) (hs : Stores e s s.toolCallsThisRound ms (.ok ()))
      (hw : s.writeCalls = []) (hr : Answers e s.readCalls s.addCalls mr (.error err) s') :
      Round e s₀ (ma ++ mp ++ ms ++ mr) (some (.error err)) s'
  | next {ma mp ms mr x s s'} (ha : Asks e s₀ ma x) (hp : Pulls x s₀ mp (.ok ()) s)
      (hc : s.toolCallsThisRound ≠ []) (hs : Stores e s s.toolCallsThisRound ms (.ok ()))
      (hw : s.writeCalls = []) (hr : Answers e s.readCalls s.addCalls mr (.ok ()) s') :
      Round e s₀ (ma ++ mp ++ ms ++ mr) none s'

/-- What a turn says when its rounds are used up. -/
def exhaustedText : String := "Juda ko'p vosita chaqiruvidan so'ng yakuniy javob topilmadi."

/-- The loop, with so many rounds left. -/
inductive Rounds (e : TurnContext) : ℕ → Turn → List Mark → Except Err Unit → Turn → Prop where
  | exhausted {s ms r s'} (hf : Finishes e s exhaustedText "length" ms r s') :
      Rounds e 0 s ms r s'
  | ends {n s ms r s'}
      (hr : Round e (s.beginRound (settings.maxToolRounds - (n + 1))) ms (some r) s') :
      Rounds e (n + 1) s ms r s'
  | next {n s ms ms' s₁ r s'}
      (hr : Round e (s.beginRound (settings.maxToolRounds - (n + 1))) ms none s₁)
      (h : Rounds e n s₁ ms' r s') : Rounds e (n + 1) s (ms ++ ms') r s'

/-! ## The program -/

variable {p : ℕ}

omit [Sha256] [JsonText] [Deployment] in
theorem addMessage_emits (f : Uuid → Time → Message) :
    Emits mark p (fun ms m => ∃ id createdAt, m = f id createdAt ∧ ms = [.stored m])
      (fun ms err => ms = [.failed] ∧ err = .database) (addMessage f) := by
  refine Emits.call_bind fun id => Emits.call_bind fun createdAt => ?_
  refine Emits.run_bind (fun _ => ?_) ⟨rfl, rfl⟩
  exact Emits.pure_iff.2 ⟨id, createdAt, rfl, rfl⟩

omit [Sha256] [JsonText] [Deployment] in
theorem yieldChunk_emits (c : TurnChunk) (s : Turn) :
    (yieldChunk c).Emits p (fun ms r s' => ∃ taken, ms = [.chunk c taken] ∧
      r = (if taken then .ok () else .error .generatorExit) ∧
      s' = { s with started := true }) s := by
  refine TurnM.Emits.modify_bind ?_
  refine TurnM.Emits.bind (TurnM.Emits.call fun taken => ⟨taken, rfl, rfl, rfl⟩)
    (S := fun ms r s' => ∃ taken, r = .ok taken ∧ ms = [.chunk c taken] ∧
      s' = { s with started := true }) ?_ ?_
  · rintro _ b s' ⟨_, ⟨⟩, rfl, rfl⟩
    cases b with
    | true => exact TurnM.Emits.pure ⟨true, rfl, rfl, rfl⟩
    | false => exact TurnM.Emits.throw ⟨false, rfl, rfl, rfl⟩
  · rintro _ e s' ⟨_, ⟨⟩, -⟩

omit [Sha256] [JsonText] [Deployment] in
/-- A stream with one more event in front. -/
theorem Pulls.cons {evs : List GatewayEvent} {error : Option Err} {s : Turn} {ms : List Mark}
    {r : Except Err Unit} {s' : Turn} (ev : GatewayEvent)
    (h : Pulls ⟨evs, error⟩ (s.take ev) ms r s') :
    Pulls ⟨ev :: evs, error⟩ s (ev.chunk.toList ++ ms) r s' := by
  cases h with
  | whole =>
    have hms : ev.chunk.toList ++ evs.filterMap GatewayEvent.chunk =
        (ev :: evs).filterMap GatewayEvent.chunk := by
      cases hev : ev.chunk <;> simp [hev]
    rw [hms]
    exact .whole (x := ⟨ev :: evs, error⟩)
  | lost evs₁ evs₂ text hx =>
    have hms : ev.chunk.toList ++ (evs₁.filterMap GatewayEvent.chunk ++
        [.chunk (.text text) false]) =
        (ev :: evs₁).filterMap GatewayEvent.chunk ++ [.chunk (.text text) false] := by
      cases hev : ev.chunk <;> simp [hev]
    rw [hms]
    exact .lost (x := ⟨ev :: evs, error⟩) (ev :: evs₁) evs₂ text (by simpa using hx)

omit [Sha256] [JsonText] [Deployment] in
theorem consumeEvents_emits (error : Option Err) (evs : List GatewayEvent) (s : Turn) :
    (consumeEvents error evs).Emits p (Pulls ⟨evs, error⟩ s) s := by
  induction evs generalizing s with
  | nil =>
    cases error with
    | none => exact TurnM.Emits.pure (.whole (x := ⟨[], none⟩))
    | some err => exact TurnM.Emits.throw (.whole (x := ⟨[], some err⟩))
  | cons ev evs ih =>
    cases ev with
    | textDelta text =>
      refine TurnM.Emits.modify_bind ?_
      refine TurnM.Emits.bind (yieldChunk_emits _ _) ?_ ?_
      · rintro _ b s' ⟨taken, rfl, hr, rfl⟩
        cases taken with
        | true => exact (ih (s.take (.textDelta text))).mono fun _ _ _ h => h.cons _
        | false => simp at hr
      · rintro _ err s' ⟨taken, rfl, hr, rfl⟩
        cases taken with
        | true => simp at hr
        | false =>
          obtain rfl : err = .generatorExit := by simpa using hr
          exact .lost (x := ⟨.textDelta text :: evs, error⟩) [] evs text rfl
    | toolCallReady call =>
      exact TurnM.Emits.modify_bind
        ((ih (s.take (.toolCallReady call))).mono fun _ _ _ h => h.cons _)
    | structuredOutputReady data =>
      exact TurnM.Emits.modify_bind
        ((ih (s.take (.structuredOutputReady data))).mono fun _ _ _ h => h.cons _)
    | completed usage finishReason =>
      exact TurnM.Emits.modify_bind
        ((ih (s.take (.completed usage finishReason))).mono fun _ _ _ h => h.cons _)
    | gatewayError => exact (ih s).mono fun _ _ _ h => h.cons .gatewayError

omit [Sha256] [JsonText] [Deployment] in
theorem addAssistantMessage_emits (e : TurnContext) (content finishReason : String)
    (call : Option ToolCallRequest) (s : Turn) :
    (addAssistantMessage e content finishReason call).Emits p (fun ms r s' =>
      s' = s ∧ ((∃ id createdAt,
          r = .ok (e.assistantMessage s content finishReason call id createdAt) ∧
          ms = [.stored (e.assistantMessage s content finishReason call id createdAt)]) ∨
        (r = .error .database ∧ ms = [.failed]))) s := by
  refine TurnM.Emits.get_bind (TurnM.Emits.lift (addMessage_emits _) ?_ ?_)
  · rintro _ _ ⟨id, createdAt, rfl, rfl⟩
    exact ⟨rfl, .inl ⟨id, createdAt, rfl, rfl⟩⟩
  · rintro _ _ ⟨rfl, rfl⟩
    exact ⟨rfl, .inr ⟨rfl, rfl⟩⟩

omit [Sha256] [JsonText] [Deployment] in
theorem finish_emits (e : TurnContext) (content finishReason : String) (s : Turn) :
    (finish e content finishReason).Emits p (Finishes e s content finishReason) s := by
  refine TurnM.Emits.bind (addAssistantMessage_emits e content finishReason none s) ?_ ?_
  · rintro _ m s' ⟨rfl, ⟨id, createdAt, hr, rfl⟩ | ⟨hr, -⟩⟩
    · obtain rfl := Except.ok.inj hr
      exact TurnM.Emits.modify (.stored id createdAt)
    · simp at hr
  · rintro _ err s' ⟨rfl, ⟨id, createdAt, hr, -⟩ | ⟨hr, rfl⟩⟩
    · simp at hr
    · obtain rfl := Except.error.inj hr
      exact .failed

omit [Sha256] [JsonText] [Deployment] in
theorem storeToolCalls_emits (e : TurnContext) (calls : List ToolCallRequest) (s : Turn) :
    (storeToolCalls e calls).Emits p (fun ms r s' => Stores e s calls ms r ∧ s = s') s := by
  induction calls with
  | nil => exact TurnM.Emits.pure ⟨.nil, rfl⟩
  | cons call calls ih =>
    refine TurnM.Emits.get_bind ?_
    refine TurnM.Emits.bind (addAssistantMessage_emits e s.accumulatedText "tool_calls"
      (some call) s) ?_ ?_
    · rintro _ m s' ⟨rfl, ⟨id, createdAt, hr, rfl⟩ | ⟨hr, -⟩⟩
      · exact ih.mono fun _ _ _ ⟨h, hs⟩ => ⟨h.cons id createdAt, hs⟩
      · simp at hr
    · rintro _ err s' ⟨rfl, ⟨id, createdAt, hr, -⟩ | ⟨hr, rfl⟩⟩
      · simp at hr
      · obtain rfl := Except.error.inj hr
        exact ⟨.failed call calls, rfl⟩

omit [Sha256] [JsonText] in
/-- What a read tool raises is an exception. -/
theorem dispatchReadTool_emits (call : ToolCallRequest) (w : Uuid) :
    Emits mark p (fun ms _ => ∀ a ∈ ms, Mark.Slight a)
      (fun ms err => (∀ a ∈ ms, Mark.Slight a) ∧ err.isException = true)
      (dispatchReadTool call.name call.argumentsJson w) := by
  unfold dispatchReadTool
  split
  · exact Emits.throw_iff.2 ⟨List.forall_mem_nil _, rfl⟩
  · split
    · exact Emits.throw_iff.2 ⟨List.forall_mem_nil _, rfl⟩
    · have hview : ∀ db : Db, ∀ a ∈ [Mark.viewed db], a.Slight :=
        fun db => List.forall_mem_singleton.2 trivial
      refine Emits.run_bind (fun db => ?_) ⟨List.forall_mem_singleton.2 trivial, rfl⟩
      refine Emits.run_bind (fun db' => ?_)
        ⟨List.forall_mem_append.2 ⟨hview db, List.forall_mem_singleton.2 trivial⟩, rfl⟩
      have hms := List.forall_mem_append.2 ⟨hview db, hview db'⟩
      dsimp only
      split <;> exact Emits.pure_iff.2 hms

omit [Sha256] [JsonText] in
theorem readToolAnswer_emits (call : ToolCallRequest) (w : Uuid) :
    Emits mark p (fun ms _ => ∀ a ∈ ms, Mark.Slight a) (fun _ _ => False)
      (tryCatch (dispatchReadTool call.name call.argumentsJson w) fun err =>
        if err.isException then pure ("Tool error: " ++ err.text) else throw err) := by
  refine Emits.tryCatch _ (dispatchReadTool_emits call w) ?_
  rintro ms err ⟨hms, hx⟩
  rw [if_pos hx]
  refine Emits.pure_iff.2 ?_
  rw [After, List.append_nil]
  exact hms

omit [Sha256] [JsonText] in
theorem answerReadCalls_emits (e : TurnContext) (calls : List ToolCallRequest) (s : Turn) :
    (answerReadCalls e calls).Emits p (Answers e calls s) s := by
  induction calls generalizing s with
  | nil => exact TurnM.Emits.pure (.nil s)
  | cons call calls ih =>
    refine TurnM.Emits.bind (TurnM.Emits.lift (readToolAnswer_emits call _)
      (R := fun ms r s' => s' = s ∧ r.isOk ∧ ∀ a ∈ ms, Mark.Slight a)
      (fun ms a h => ⟨rfl, rfl, h⟩) fun ms a => False.elim) ?_ ?_
    · rintro mf text s' ⟨rfl, -, hmf⟩
      refine TurnM.Emits.bind (TurnM.Emits.lift (addMessage_emits _)
        (R := fun ms r s'' => s'' = s' ∧
          ((∃ id createdAt, ms = [.stored (e.toolMessage call text id createdAt)] ∧ r.isOk) ∨
            (r = .error .database ∧ ms = [.failed])))
        ?_ ?_) ?_ ?_
      · rintro _ _ ⟨id, createdAt, rfl, rfl⟩
        exact ⟨rfl, .inl ⟨id, createdAt, rfl, rfl⟩⟩
      · rintro _ _ ⟨rfl, rfl⟩
        exact ⟨rfl, .inr ⟨rfl, rfl⟩⟩
      · rintro _ _ s'' ⟨rfl, ⟨id, createdAt, rfl, -⟩ | ⟨hr, -⟩⟩
        · refine TurnM.Emits.modify_bind ?_
          refine (ih (s''.addAnswer call text)).mono fun ms r s₂ h => ?_
          exact .cons hmf text id createdAt h
        · simp at hr
      · rintro _ err s'' ⟨rfl, ⟨id, createdAt, -, hr⟩ | ⟨hr, rfl⟩⟩
        · simp [Except.isOk, Except.toBool] at hr
        · obtain rfl := Except.error.inj hr
          exact .failed call calls s'' hmf
    · rintro mf err s' ⟨-, hr, -⟩
      simp [Except.isOk, Except.toBool] at hr

omit [Sha256] [JsonText] in
theorem streamChat_emits (e : TurnContext) (s : Turn) :
    Emits mark p (Asks e s) (fun _ _ => False) (streamChat e s) := by
  unfold streamChat
  by_cases hc : settings.configured s.choice.provider = true
  · rw [if_pos hc]
    exact Emits.call fun x => .configured hc x
  · rw [if_neg hc]
    exact Emits.pure_iff.2 (.null hc)

theorem reportWriteCall_emits (e : TurnContext) (call : ToolCallRequest) (s : Turn) :
    (reportWriteCall e call).Emits p (fun ms r s' => ∃ mf, (∀ a ∈ mf, Mark.Slight a) ∧
      ((ms = mf ∧ (∃ err, r = .error err) ∧ s' = s) ∨
        ∃ action mr r' s₁,
          Finishes e s (statusText call action) "tool_calls" mr r' s₁ ∧
          ((∃ err, r' = .error err ∧ r = .error err ∧ ms = mf ++ mr ∧ s' = s₁) ∨
            ∃ taken, r' = .ok () ∧
              ms = mf ++ mr ++ [.chunk (.toolStatus (statusText call action) call action) taken] ∧
              r = (if taken then .ok () else .error .generatorExit) ∧
              s' = { s₁ with started := true }))) s := by
  refine TurnM.Emits.bind (TurnM.Emits.lift ((proposeWriteToolAction_quiet ..).emits p)
    (R := fun ms r s' => s' = s ∧ ∀ a ∈ ms, Mark.Slight a)
    (fun ms a h => ⟨rfl, h⟩) fun ms a h => ⟨rfl, h⟩) ?_ ?_
  · rintro mf ⟨action, approval⟩ s' ⟨rfl, hmf⟩
    refine TurnM.Emits.bind (finish_emits e _ _ s') ?_ ?_
    · intro mr _ s₁ hf
      refine (yieldChunk_emits _ s₁).mono ?_
      rintro _ r s₂ ⟨taken, rfl, hr, rfl⟩
      refine ⟨mf, hmf, .inr ⟨action, mr, _, s₁, hf, .inr ⟨taken, rfl, ?_, hr, rfl⟩⟩⟩
      rw [List.append_assoc]
    · intro mr err s₁ hf
      exact ⟨mf, hmf, .inr ⟨action, mr, _, s₁, hf, .inl ⟨err, rfl, rfl, rfl, rfl⟩⟩⟩
  · rintro mf err s' ⟨rfl, hmf⟩
    exact ⟨mf, hmf, .inl ⟨rfl, ⟨err, rfl⟩, rfl⟩⟩

theorem rounds_emits (e : TurnContext) (n : ℕ) (s : Turn) :
    (rounds e n).Emits p (Rounds e n s) s := by
  induction n generalizing s with
  | zero => exact (finish_emits e _ _ s).mono fun _ _ _ hf => .exhausted hf
  | succ n ih =>
    refine TurnM.Emits.modify_bind (TurnM.Emits.get_bind ?_)
    let s₀ := s.beginRound (settings.maxToolRounds - (n + 1))
    refine TurnM.Emits.bind (TurnM.Emits.lift (streamChat_emits e s₀)
      (R := fun ms r s' => s' = s₀ ∧ ∃ x, r = .ok x ∧ Asks e s₀ ms x)
      (fun ms x h => ⟨rfl, x, rfl, h⟩) fun _ _ => False.elim) ?_ ?_
    · rintro ma x _ ⟨rfl, _, ⟨⟩, ha⟩
      refine TurnM.Emits.bind (consumeEvents_emits x.error x.events s₀) ?_ ?_
      · rintro mp _ s hp
        refine TurnM.Emits.get_bind ?_
        by_cases hc : s.toolCallsThisRound = []
        · rw [if_pos hc]
          refine (finish_emits e _ _ s).mono fun mf r s' hf => ?_
          rw [← List.append_assoc]
          exact .ends (.answered ha hp hc hf)
        · rw [if_neg hc]
          refine TurnM.Emits.bind (storeToolCalls_emits e s.toolCallsThisRound s) ?_ ?_
          · rintro ms _ _ ⟨hs, rfl⟩
            refine TurnM.Emits.modify_bind ?_
            change TurnM.Emits p _ _ s.addCalls
            split
            · rename_i call rest hw
              refine (reportWriteCall_emits e call s.addCalls).mono ?_
              have hmem : call ∈ s.writeCalls := by
                rw [Turn.writeCalls, hw]
                exact List.mem_cons_self
              rintro mt r s' ⟨mf, hmf, ⟨rfl, ⟨err, rfl⟩, rfl⟩ | ⟨action, mr, r', s₁, hf, hend⟩⟩
              · rw [← List.append_assoc, ← List.append_assoc]
                exact .ends (.refused ha hp hc hs (List.ne_nil_of_mem hmem) hmf)
              · rcases hend with ⟨err, rfl, rfl, rfl, rfl⟩ | ⟨taken, rfl, rfl, rfl, rfl⟩
                · simp only [← List.append_assoc]
                  exact .ends (.unreported ha hp hc hs (List.ne_nil_of_mem hmem) hmf _ hf)
                · simp only [← List.append_assoc]
                  exact .ends (.reported ha hp hc hs hmf hmem action hf taken)
            · rename_i hw
              refine TurnM.Emits.bind (answerReadCalls_emits e _ s.addCalls) ?_ ?_
              · intro mr _ s₁ hr
                refine (ih s₁).mono fun ms' r s' h => ?_
                have := Rounds.next (.next ha hp hc hs hw hr) h
                simpa only [List.append_assoc] using this
              · intro mr err s₁ hr
                have := Rounds.ends (n := n) (.unanswered ha hp hc hs hw hr)
                simpa only [List.append_assoc] using this
          · rintro ms err _ ⟨hs, rfl⟩
            have := Rounds.ends (n := n) (.unstored ha hp hc hs)
            simpa only [List.append_assoc] using this
      · intro mp err s hp
        exact .ends (.broken ha hp)
    · rintro _ err s' ⟨-, _, ⟨⟩, -⟩

end Turn

end Doda
