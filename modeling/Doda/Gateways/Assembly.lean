import Doda.Gateways.Contract

/-!
# Putting Claude's streams together

The pieces of a tool call's arguments arrive between the events of other blocks.  The
adapter keeps them by the index of their block, so a call that stops has its own id and
name and its own pieces, in the order they came.  The tool that stands for structured
output is no call: its block yields the data instead.

## Main definitions

* `Blockwise` — each block is started once, and its deltas and its stop come after that.
* `claudeCalls` — the calls that a stream's blocks spell.
* `Assembles` — what `stream_chat` yields for a stream.

## Main results

* `claude_assembles` — every well-formed stream is put together so.
-/

namespace Doda

/-! ## Streams -/

namespace ClaudeEvent

/-- The index of the block that an event starts. -/
def starts : ClaudeEvent → Option ℕ
  | contentBlockStart index _ => some index
  | _ => none

/-- The index of the block that an event stops. -/
def stops : ClaudeEvent → Option ℕ
  | contentBlockStop index => some index
  | _ => none

/-- The id and name of the tool block that an event starts at an index. -/
def toolBlock (index : ℕ) : ClaudeEvent → Option (String × String)
  | contentBlockStart i (.toolUse id name) => if i = index then some (id, name) else none
  | _ => none

/-- The piece of JSON that an event adds to the block of an index. -/
def jsonPiece (index : ℕ) : ClaudeEvent → Option String
  | contentBlockDelta i (.inputJsonDelta partialJson) => if i = index then some partialJson else none
  | _ => none

/-- The text of a text delta. -/
def text : ClaudeEvent → Option String
  | contentBlockDelta _ (.textDelta text) => some text
  | _ => none

/-- The input tokens of a `message_start`. -/
def inputTokens : ClaudeEvent → Option ℤ
  | messageStart inputTokens _ => some inputTokens
  | _ => none

/-- The output tokens of a `message_delta`. -/
def outputTokens : ClaudeEvent → Option ℤ
  | messageDelta outputTokens _ => some outputTokens
  | _ => none

end ClaudeEvent

/-- Each block is started once, and its deltas and its one stop come after its start and not
after its stop. -/
structure Blockwise (events : List ClaudeEvent) : Prop where
  startedOnce : (events.filterMap ClaudeEvent.starts).Nodup
  delta : ∀ p index delta q, events = p ++ .contentBlockDelta index delta :: q →
    index ∈ p.filterMap ClaudeEvent.starts ∧ index ∉ p.filterMap ClaudeEvent.stops
  stop : ∀ p index q, events = p ++ .contentBlockStop index :: q →
    index ∈ p.filterMap ClaudeEvent.starts ∧ index ∉ p.filterMap ClaudeEvent.stops

/-- The id and name of the tool block at an index. -/
def blockOf (events : List ClaudeEvent) (index : ℕ) : Option (String × String) :=
  (events.filterMap (ClaudeEvent.toolBlock index)).head?

/-- The pieces of JSON of the block at an index, together. -/
def jsonOf (events : List ClaudeEvent) (index : ℕ) : String :=
  String.join (events.filterMap (ClaudeEvent.jsonPiece index))

/-- The call that the tool block at an index spells. -/
def callOf (events : List ClaudeEvent) (index : ℕ) : Option ToolCallRequest :=
  (blockOf events index).map fun block =>
    ⟨block.1, block.2, if jsonOf events index = "" then "\x7b\x7d" else jsonOf events index⟩

/-- The calls of the tool blocks that are stopped, in the order of their stops. -/
def claudeCalls (events : List ClaudeEvent) : List ToolCallRequest :=
  (events.filterMap ClaudeEvent.stops).filterMap (callOf events)

/-- The call of the tool that stands for structured output. -/
def ToolCallRequest.structured (call : ToolCallRequest) : Bool :=
  call.name = claudeStructuredOutputToolName

/-- A call that is yielded. -/
def GatewayEvent.call? : GatewayEvent → Option ToolCallRequest
  | .toolCallReady call => some call
  | _ => none

/-- A text that is yielded. -/
def GatewayEvent.text? : GatewayEvent → Option String
  | .textDelta text => some text
  | _ => none

/-- The input tokens of the last `message_start` and the output tokens of the last
`message_delta` after it. -/
def UsageOf (events : List ClaudeEvent) (usage : GatewayUsage) : Prop :=
  ∀ p inputTokens cached q, events = p ++ .messageStart inputTokens cached :: q →
    q.filterMap ClaudeEvent.inputTokens = [] → usage.inputTokens = inputTokens ∧
      usage.outputTokens = (q.filterMap ClaudeEvent.outputTokens).getLast?.getD 0

/-- A stream yields these calls, in order, and the texts of the events, and ends with the one
`Completed`, which has the usage of the events. -/
def Assembles (events : List ClaudeEvent) (calls : List ToolCallRequest) (stream : GatewayStream) :
    Prop :=
  ∃ yielded usage finishReason, stream = ⟨yielded ++ [.completed usage finishReason], none⟩ ∧
    (∀ y ∈ yielded, y.Progress) ∧ yielded.filterMap GatewayEvent.call? = calls ∧
    String.join (yielded.filterMap GatewayEvent.text?) =
      String.join (events.filterMap ClaudeEvent.text) ∧
    UsageOf events usage

section

variable [JsonText]

/-- The request is sent, and answered with these events. -/
def AnsweredWith (create : Json → SdkAnswer ClaudeEvent ClaudeException) (request : ChatRequest)
    (events : List ClaudeEvent) : Prop :=
  ∃ messages, toClaudeMessages request.history = .ok messages ∧
    create (claudeCreateKwargs request messages) = .ok (events, none)

/-- `json.loads` reads the structured output. -/
def StructuredReadable (events : List ClaudeEvent) : Prop :=
  ∀ call ∈ claudeCalls events, call.structured = true → (loads call.argumentsJson).isOk

/-! ## What a well-formed stream says of its parts -/

namespace Blockwise

variable {events p q : List ClaudeEvent} {index : ℕ} {e : ClaudeEvent}

omit [JsonText] in
/-- A block is not started again. -/
theorem not_started_again (hwf : Blockwise events) (hes : events = p ++ q)
    (hp : index ∈ p.filterMap ClaudeEvent.starts) : index ∉ q.filterMap ClaudeEvent.starts := by
  have hnodup := hwf.startedOnce
  rw [hes, List.filterMap_append, List.nodup_append] at hnodup
  exact fun hq => hnodup.2.2 index hp index hq rfl

omit [JsonText] in
/-- A tool block is a block. -/
theorem starts_of_toolBlock {block : String × String} (h : e.toolBlock index = some block) :
    e.starts = some index := by
  cases e with
  | contentBlockStart i block' =>
    cases block' with
    | toolUse id name =>
      rw [ClaudeEvent.toolBlock] at h
      split at h
      · rename_i hi
        rw [ClaudeEvent.starts, hi]
      · cases h
    | other => cases h
  | _ => cases h

omit [JsonText] in
/-- A piece of JSON is a delta. -/
theorem eq_delta_of_jsonPiece {piece : String} (h : e.jsonPiece index = some piece) :
    e = .contentBlockDelta index (.inputJsonDelta piece) := by
  cases e with
  | contentBlockDelta i delta =>
    cases delta with
    | inputJsonDelta partialJson =>
      rw [ClaudeEvent.jsonPiece] at h
      split at h
      · rename_i hi
        cases h
        rw [hi]
      · cases h
    | _ => cases h
  | _ => cases h

omit [JsonText] in
theorem toolBlocks_eq_nil (h : index ∉ q.filterMap ClaudeEvent.starts) :
    q.filterMap (ClaudeEvent.toolBlock index) = [] := by
  rw [List.filterMap_eq_nil_iff]
  intro e he
  rw [Option.eq_none_iff_forall_ne_some]
  intro block hblock
  exact h (List.mem_filterMap.2 ⟨e, he, starts_of_toolBlock hblock⟩)

omit [JsonText] in
/-- No piece comes before its block is started. -/
theorem jsonOf_eq_empty (hwf : Blockwise events) (hes : events = p ++ q)
    (hp : index ∉ p.filterMap ClaudeEvent.starts) : jsonOf p index = "" := by
  have hnil : p.filterMap (ClaudeEvent.jsonPiece index) = [] := by
    rw [List.filterMap_eq_nil_iff]
    intro e he
    rw [Option.eq_none_iff_forall_ne_some]
    intro piece hpiece
    obtain ⟨p₁, p₂, rfl⟩ := List.append_of_mem he
    rw [eq_delta_of_jsonPiece hpiece, List.append_assoc, List.cons_append] at hes
    have hstarted := (hwf.delta p₁ index _ _ hes).1
    exact hp (by rw [List.filterMap_append]; exact List.mem_append_left _ hstarted)
  rw [jsonOf, hnil]
  rfl

omit [JsonText] in
/-- **A block that stops is complete**: its call is spelled by what came before. -/
theorem callOf_eq (hwf : Blockwise events) (hes : events = p ++ .contentBlockStop index :: q) :
    callOf events index = callOf p index := by
  obtain ⟨hstarted, -⟩ := hwf.stop p index q hes
  have hblock : blockOf events index = blockOf p index := by
    have hnil := toolBlocks_eq_nil (hwf.not_started_again hes hstarted)
    rw [blockOf, hes, List.filterMap_append, hnil, List.append_nil]
    rfl
  have hjson : (ClaudeEvent.contentBlockStop index :: q).filterMap
      (ClaudeEvent.jsonPiece index) = [] := by
    rw [List.filterMap_eq_nil_iff]
    intro e he
    rw [Option.eq_none_iff_forall_ne_some]
    intro piece hpiece
    rcases List.mem_cons.1 he with rfl | he
    · cases hpiece
    · -- a delta after the stop
      obtain ⟨q₁, q₂, rfl⟩ := List.append_of_mem he
      rw [eq_delta_of_jsonPiece hpiece] at hes
      have hstopped := (hwf.delta (p ++ .contentBlockStop index :: q₁) index (.inputJsonDelta piece)
        q₂ (by simp [hes])).2
      exact hstopped (by simp [ClaudeEvent.stops])
  have hpieces : jsonOf events index = jsonOf p index := by
    rw [jsonOf, hes, List.filterMap_append, hjson, List.append_nil]
    rfl
  rw [callOf, callOf, hblock, hpieces]

end Blockwise

/-! ## The loop -/

/-- What an event does to the usage. -/
def countUsage (usage : GatewayUsage) : ClaudeEvent → GatewayUsage
  | .messageStart inputTokens cacheReadInputTokens =>
    ⟨inputTokens, 0, cacheReadInputTokens.getD 0⟩
  | .messageDelta outputTokens _ => ⟨usage.inputTokens, outputTokens, usage.cachedInputTokens⟩
  | _ => usage

/-- What the loop has kept and yielded after the events `p` of a stream. -/
structure Assembled (events p : List ClaudeEvent) (s : ClaudeState) (zs : List GatewayEvent) :
    Prop where
  blocks : ∀ index, s.blockInfo.lookup index = blockOf p index
  pieces : ∀ index, s.pieces index = jsonOf p index
  usage : s.usage = p.foldl countUsage ⟨0, 0, 0⟩
  progress : ∀ y ∈ zs, y.Progress
  calls : zs.filterMap GatewayEvent.call? =
    ((p.filterMap ClaudeEvent.stops).filterMap (callOf events)).filter (!·.structured)
  texts : zs.filterMap GatewayEvent.text? = p.filterMap ClaudeEvent.text

variable {events p q : List ClaudeEvent} {s : ClaudeState} {zs : List GatewayEvent}

omit [JsonText] in
theorem blockOf_concat {e : ClaudeEvent} {index : ℕ} (h : e.toolBlock index = none) :
    blockOf (p ++ [e]) index = blockOf p index := by
  simp [blockOf, h]

omit [JsonText] in
theorem jsonOf_concat {e : ClaudeEvent} {index : ℕ} (h : e.jsonPiece index = none) :
    jsonOf (p ++ [e]) index = jsonOf p index := by
  simp [jsonOf, h]

omit [JsonText] in
/-- An event that neither starts a tool block, nor adds to one, nor yields. -/
theorem Assembled.silent (H : Assembled events p s zs) {e : ClaudeEvent} {s' : ClaudeState}
    (hblock : ∀ index, e.toolBlock index = none) (hpiece : ∀ index, e.jsonPiece index = none)
    (hstops : e.stops = none) (htext : e.text = none) (hinfo : s'.blockInfo = s.blockInfo)
    (hkept : ∀ index, s'.pieces index = s.pieces index)
    (husage : s'.usage = countUsage s.usage e) : Assembled events (p ++ [e]) s' (zs ++ []) where
  blocks := by
    intro index
    rw [hinfo, H.blocks, blockOf_concat (hblock index)]
  pieces := by
    intro index
    rw [hkept, H.pieces, jsonOf_concat (hpiece index)]
  usage := by
    rw [husage, H.usage, List.foldl_append]
    rfl
  progress := by
    rw [List.append_nil]
    exact H.progress
  calls := by
    rw [List.append_nil, H.calls, List.filterMap_append, List.filterMap_cons_none hstops]
    simp
  texts := by
    rw [List.append_nil, H.texts, List.filterMap_append, List.filterMap_cons_none htext]
    simp

omit [JsonText] in
/-- A tool block is started. -/
theorem Assembled.start (hwf : Blockwise events) {index : ℕ} {id name : String}
    (hes : events = p ++ .contentBlockStart index (.toolUse id name) :: q)
    (H : Assembled events p s zs) :
    Assembled events (p ++ [.contentBlockStart index (.toolUse id name)])
      { s with blockInfo := (index, id, name) :: s.blockInfo
               toolJsonAccumulator := (index, "") :: s.toolJsonAccumulator } (zs ++ []) := by
  have hfirst : index ∉ p.filterMap ClaudeEvent.starts := by
    intro hmem
    exact hwf.not_started_again hes hmem (List.mem_filterMap.2 ⟨_, List.mem_cons_self, rfl⟩)
  constructor
  · intro i
    by_cases hi : i = index
    · subst hi
      have hnone := Blockwise.toolBlocks_eq_nil hfirst
      simp [blockOf, hnone, ClaudeEvent.toolBlock]
    · have hother : (ClaudeEvent.contentBlockStart index (.toolUse id name)).toolBlock i = none :=
        if_neg (Ne.symm hi)
      rw [blockOf_concat hother, ← H.blocks, List.lookup_cons, beq_false_of_ne hi]
  · intro i
    rw [jsonOf_concat rfl]
    by_cases hi : i = index
    · subst hi
      rw [hwf.jsonOf_eq_empty hes hfirst]
      simp [ClaudeState.pieces]
    · rw [← H.pieces, ClaudeState.pieces, List.lookup_cons, beq_false_of_ne hi]
      rfl
  · rw [H.usage, List.foldl_append]
    rfl
  · rw [List.append_nil]
    exact H.progress
  · rw [List.append_nil, H.calls, List.filterMap_append]
    simp [ClaudeEvent.stops]
  · rw [List.append_nil, H.texts, List.filterMap_append]
    simp [ClaudeEvent.text]

omit [JsonText] in
/-- A piece of JSON arrives. -/
theorem Assembled.piece {index : ℕ} {partialJson : String} (H : Assembled events p s zs) :
    Assembled events (p ++ [.contentBlockDelta index (.inputJsonDelta partialJson)])
      { s with toolJsonAccumulator :=
        (index, s.pieces index ++ partialJson) :: s.toolJsonAccumulator } (zs ++ []) := by
  constructor
  · intro i
    rw [blockOf_concat rfl]
    exact H.blocks i
  · intro i
    by_cases hi : i = index
    · subst hi
      have hjoin : jsonOf (p ++ [.contentBlockDelta i (.inputJsonDelta partialJson)]) i =
          jsonOf p i ++ partialJson := by
        simp [jsonOf, ClaudeEvent.jsonPiece, String.join]
      rw [hjoin, ← H.pieces, ClaudeState.pieces, List.lookup_cons_self]
      rfl
    · have hother : (ClaudeEvent.contentBlockDelta index
          (.inputJsonDelta partialJson)).jsonPiece i = none := if_neg (Ne.symm hi)
      rw [jsonOf_concat hother, ← H.pieces, ClaudeState.pieces, List.lookup_cons,
        beq_false_of_ne hi]
      rfl
  · rw [H.usage, List.foldl_append]
    rfl
  · rw [List.append_nil]
    exact H.progress
  · rw [List.append_nil, H.calls, List.filterMap_append]
    simp [ClaudeEvent.stops]
  · rw [List.append_nil, H.texts, List.filterMap_append]
    simp [ClaudeEvent.text]

omit [JsonText] in
/-- A text arrives. -/
theorem Assembled.text {index : ℕ} {text : String} (H : Assembled events p s zs) :
    Assembled events (p ++ [.contentBlockDelta index (.textDelta text)]) s
      (zs ++ [.textDelta text]) where
  blocks := by
    intro i
    rw [blockOf_concat rfl]
    exact H.blocks i
  pieces := by
    intro i
    rw [jsonOf_concat rfl]
    exact H.pieces i
  usage := by
    rw [H.usage, List.foldl_append]
    rfl
  progress := by
    intro y hy
    rcases List.mem_append.1 hy with hy | hy
    · exact H.progress y hy
    · rw [List.mem_singleton.1 hy]
      trivial
  calls := by
    rw [List.filterMap_append, H.calls, List.filterMap_append, List.filterMap_append,
      List.filter_append]
    rfl
  texts := by
    rw [List.filterMap_append, H.texts, List.filterMap_append]
    rfl

omit [JsonText] in
/-- A block is stopped, which spells a call or none. -/
theorem Assembled.stopped {index : ℕ} {ys : List GatewayEvent} (H : Assembled events p s zs)
    (hprogress : ∀ y ∈ ys, y.Progress) (htexts : ys.filterMap GatewayEvent.text? = [])
    (hcalls : ys.filterMap GatewayEvent.call? =
      (callOf events index).toList.filter (!·.structured)) :
    Assembled events (p ++ [.contentBlockStop index]) s (zs ++ ys) where
  blocks := by
    intro i
    rw [blockOf_concat rfl]
    exact H.blocks i
  pieces := by
    intro i
    rw [jsonOf_concat rfl]
    exact H.pieces i
  usage := by
    rw [H.usage, List.foldl_append]
    rfl
  progress := by
    intro y hy
    rcases List.mem_append.1 hy with hy | hy
    · exact H.progress y hy
    · exact hprogress y hy
  calls := by
    have hstops : (p ++ [ClaudeEvent.contentBlockStop index]).filterMap ClaudeEvent.stops =
        p.filterMap ClaudeEvent.stops ++ [index] := by simp [ClaudeEvent.stops]
    have hone : [index].filterMap (callOf events) = (callOf events index).toList := by
      cases h : callOf events index <;> simp [h]
    rw [List.filterMap_append, H.calls, hcalls, hstops, List.filterMap_append, List.filter_append,
      hone]
  texts := by
    rw [List.filterMap_append, H.texts, htexts, List.filterMap_append]
    rfl

/-- A block is stopped. -/
theorem Assembled.stop (hwf : Blockwise events) (hjson : StructuredReadable events) {index : ℕ}
    (hes : events = p ++ .contentBlockStop index :: q) (H : Assembled events p s zs) :
    ∃ s' ys, claudeReader.step s (.contentBlockStop index) = .ok (s', ys) ∧
      Assembled events (p ++ [.contentBlockStop index]) s' (zs ++ ys) := by
  have hcall := hwf.callOf_eq hes
  rw [callOf] at hcall
  have hlookup := H.blocks index
  cases hblock : blockOf p index with
  | none =>
    rw [hblock] at hlookup
    have hnone : callOf events index = none := by rw [hwf.callOf_eq hes, callOf, hblock]; rfl
    refine ⟨s, [], ?_, H.stopped (by simp) rfl (by rw [hnone]; rfl)⟩
    simp only [claudeReader, hlookup]
    rfl
  | some block =>
    obtain ⟨id, name⟩ := block
    rw [hblock] at hlookup
    obtain ⟨call, hspelled, hname⟩ : ∃ call : ToolCallRequest,
        callOf events index = some call ∧ call =
          ⟨id, name, if s.pieces index = "" then "\x7b\x7d" else s.pieces index⟩ := by
      refine ⟨_, ?_, rfl⟩
      rw [hwf.callOf_eq hes, callOf, hblock, H.pieces]
      rfl
    have hstep : claudeReader.step s (.contentBlockStop index) =
        (claudeToolUse call.callId call.name call.argumentsJson).map fun ys => (s, ys) := by
      rw [hname]
      simp only [claudeReader, hlookup]
      rfl
    have hmem : call ∈ claudeCalls events := by
      have hstop : ClaudeEvent.contentBlockStop index ∈ events := by
        rw [hes]
        exact List.mem_append_right _ List.mem_cons_self
      exact List.mem_filterMap.2 ⟨index, List.mem_filterMap.2 ⟨_, hstop, rfl⟩, hspelled⟩
    by_cases hstructured : call.structured = true
    · obtain ⟨data, hdata⟩ := isOk_iff.1 (hjson call hmem hstructured)
      have hyields : claudeToolUse call.callId call.name call.argumentsJson =
          .ok [.structuredOutputReady data] := by
        rw [claudeToolUse, if_pos (of_decide_eq_true hstructured), hdata]
        rfl
      rw [hstep, hyields]
      refine ⟨s, _, rfl, H.stopped (by simp [GatewayEvent.Progress]) rfl ?_⟩
      rw [hspelled]
      simp [GatewayEvent.call?, hstructured]
    · have hyields : claudeToolUse call.callId call.name call.argumentsJson =
          .ok [.toolCallReady call] := by
        rw [claudeToolUse, if_neg fun h => hstructured (decide_eq_true h)]
        rfl
      rw [hstep, hyields]
      refine ⟨s, _, rfl, H.stopped (by simp [GatewayEvent.Progress]) rfl ?_⟩
      rw [hspelled]
      simp [GatewayEvent.call?, hstructured]

/-- **One event.** -/
theorem Assembled.step (hwf : Blockwise events) (hjson : StructuredReadable events)
    {e : ClaudeEvent} (hes : events = p ++ e :: q) (H : Assembled events p s zs) :
    ∃ s' ys, claudeReader.step s e = .ok (s', ys) ∧ Assembled events (p ++ [e]) s' (zs ++ ys) := by
  have hsame : ∀ index, s.pieces index = s.pieces index := fun _ => rfl
  cases e with
  | messageStart | messageDelta | other =>
    exact ⟨_, _, rfl, H.silent (fun _ => rfl) (fun _ => rfl) rfl rfl rfl hsame rfl⟩
  | contentBlockStart index block =>
    cases block with
    | toolUse id name => exact ⟨_, _, rfl, H.start hwf hes⟩
    | other => exact ⟨_, _, rfl, H.silent (fun _ => rfl) (fun _ => rfl) rfl rfl rfl hsame rfl⟩
  | contentBlockDelta index delta =>
    cases delta with
    | textDelta text => exact ⟨_, _, rfl, H.text⟩
    | inputJsonDelta partialJson => exact ⟨_, _, rfl, H.piece⟩
    | other => exact ⟨_, _, rfl, H.silent (fun _ => rfl) (fun _ => rfl) rfl rfl rfl hsame rfl⟩
  | contentBlockStop index => exact H.stop hwf hjson hes

/-! ## The usage -/

omit [JsonText] in
/-- Events without a `message_start` keep the input tokens and report the output tokens. -/
theorem foldl_countUsage {usage : GatewayUsage} (hq : q.filterMap ClaudeEvent.inputTokens = []) :
    (q.foldl countUsage usage).inputTokens = usage.inputTokens ∧
      (q.foldl countUsage usage).outputTokens =
        (q.filterMap ClaudeEvent.outputTokens).getLast?.getD usage.outputTokens := by
  induction q generalizing usage with
  | nil => exact ⟨rfl, rfl⟩
  | cons e q ih =>
    cases e with
    | messageStart => cases hq
    | messageDelta outputTokens stopReason =>
      obtain ⟨hin, hout⟩ := @ih (countUsage usage (.messageDelta outputTokens stopReason)) hq
      refine ⟨hin, ?_⟩
      have hcons : (ClaudeEvent.messageDelta outputTokens stopReason :: q).filterMap
          ClaudeEvent.outputTokens = outputTokens :: q.filterMap ClaudeEvent.outputTokens := rfl
      rw [List.foldl_cons, hout, hcons, List.getLast?_cons]
      rfl
    | _ => exact ih hq

omit [JsonText] in
theorem usageOf_foldl : UsageOf events (events.foldl countUsage ⟨0, 0, 0⟩) := by
  rintro p inputTokens cached q rfl hq
  rw [List.foldl_append, List.foldl_cons]
  exact foldl_countUsage hq

end

/-- **Every well-formed stream is put together**: the calls of its blocks but for structured
output, its texts and its usage. -/
theorem claude_assembles [JsonText] {create : Json → SdkAnswer ClaudeEvent ClaudeException}
    {request : ChatRequest} {events : List ClaudeEvent}
    (hanswers : AnsweredWith create request events) (hwf : Blockwise events)
    (hjson : StructuredReadable events) :
    Assembles events ((claudeCalls events).filter (!·.structured))
      (claudeStreamChat create request) := by
  obtain ⟨messages, hmessages, hcreate⟩ := hanswers
  have hempty : Assembled events [] {} [] :=
    ⟨fun _ => rfl, fun _ => rfl, rfl, by simp, rfl, rfl⟩
  obtain ⟨s', zs, hrun, H⟩ := Transducer.run_of_steps (T := claudeReader)
    (fun p e q s zs hes H => H.step hwf hjson hes) hempty
  rw [claudeStreamChat, hmessages]
  dsimp only
  rw [hcreate, iterate_ok hrun]
  refine ⟨zs, _, _, rfl, H.progress, H.calls, by rw [H.texts], ?_⟩
  rw [H.usage]
  exact usageOf_foldl

/-! ## Some streams -/

/-- The index of the block that an event adds to or stops. -/
def ClaudeEvent.continues : ClaudeEvent → Option ℕ
  | contentBlockDelta index _ | contentBlockStop index => some index
  | _ => none

/-- Each event finds its block started and not stopped. -/
theorem blockwise_of_continues {events : List ClaudeEvent}
    (hstarts : (events.filterMap ClaudeEvent.starts).Nodup)
    (hopen : ∀ i : Fin events.length, ∀ index ∈ events[i].continues,
      index ∈ (events.take i).filterMap ClaudeEvent.starts ∧
        index ∉ (events.take i).filterMap ClaudeEvent.stops) : Blockwise events := by
  have hat : ∀ p e q index, events = p ++ e :: q → e.continues = some index →
      index ∈ p.filterMap ClaudeEvent.starts ∧ index ∉ p.filterMap ClaudeEvent.stops := by
    rintro p e q index rfl hindex
    have hopen := hopen ⟨p.length, by simp⟩ index (by simpa using hindex)
    simpa using hopen
  exact ⟨hstarts, fun p index delta q hes => hat p _ q index hes rfl,
    fun p index q hes => hat p _ q index hes rfl⟩

section

attribute [local instance] zeroJsonText

private def structuredStream : List ClaudeEvent :=
  [.contentBlockStart 0 (.toolUse "t1" claudeStructuredOutputToolName), .contentBlockStop 0]

/-- A text, two calls and structured output, whose pieces come between each other. -/
private def interleavedStream : List ClaudeEvent :=
  [.messageStart 30 (some 10),
    .contentBlockStart 0 .other,
    .contentBlockDelta 0 (.textDelta "Let me "),
    .contentBlockStart 1 (.toolUse "t1" "list_my_open_tasks"),
    .contentBlockStart 2 (.toolUse "t2" claudeStructuredOutputToolName),
    .contentBlockDelta 1 (.inputJsonDelta "\x7b\"limit\""),
    .contentBlockDelta 2 (.inputJsonDelta "\x7b\"titles\": ["),
    .contentBlockDelta 0 (.textDelta "see."),
    .contentBlockStart 3 (.toolUse "t3" "list_my_open_tasks"),
    .contentBlockDelta 1 (.inputJsonDelta ": 5\x7d"),
    .contentBlockDelta 2 (.inputJsonDelta "\"rent\"]\x7d"),
    .contentBlockStop 2, .contentBlockStop 0, .contentBlockStop 3, .contentBlockStop 1,
    .messageDelta 12 (some "tool_use")]

private def lateStart : List ClaudeEvent := [.messageDelta 5 none, .messageStart 3 none]

private theorem answers_sample (events : List ClaudeEvent) :
    AnsweredWith (fun _ => .ok (events, none)) sampleChatRequest events :=
  ⟨_, rfl, rfl⟩

/-- The calls come as their blocks stop, not as they start. -/
theorem claude_assembles_sample :
    Assembles interleavedStream
      [⟨"t3", "list_my_open_tasks", "\x7b\x7d"⟩,
        ⟨"t1", "list_my_open_tasks", "\x7b\"limit\": 5\x7d"⟩]
      (claudeStreamChat (fun _ => .ok (interleavedStream, none)) sampleChatRequest) := by
  have hjson : StructuredReadable interleavedStream := by
    unfold StructuredReadable
    decide +kernel
  have hcalls : (claudeCalls interleavedStream).filter (!·.structured) =
      [⟨"t3", "list_my_open_tasks", "\x7b\x7d"⟩,
        ⟨"t1", "list_my_open_tasks", "\x7b\"limit\": 5\x7d"⟩] := by decide +kernel
  have hwf : Blockwise interleavedStream :=
    blockwise_of_continues (by decide +kernel) (by decide +kernel)
  rw [← hcalls]
  exact claude_assembles (answers_sample interleavedStream) hwf hjson

/-- Structured output is no call, and a `message_start` that comes late resets the output
tokens. -/
theorem claude_stream_exceptions :
    (¬ ∀ create request events, AnsweredWith create request events → Blockwise events →
      ∃ yielded usage finishReason, claudeStreamChat create request =
        ⟨yielded ++ [.completed usage finishReason], none⟩ ∧
          yielded.filterMap GatewayEvent.call? = claudeCalls events) ∧
    ¬ ∀ create request events, AnsweredWith create request events → Blockwise events →
      ∃ yielded usage finishReason, claudeStreamChat create request =
        ⟨yielded ++ [.completed usage finishReason], none⟩ ∧
          usage.outputTokens = (events.filterMap ClaudeEvent.outputTokens).getLast?.getD 0 := by
  constructor
  · intro h
    obtain ⟨yielded, usage, finishReason, hstream, hcalls⟩ :=
      h _ _ _ (answers_sample structuredStream)
        (blockwise_of_continues (by decide) (by decide))
    have hyields := congrArg (fun s : GatewayStream => s.events.filterMap GatewayEvent.call?)
      hstream
    have hnone : (claudeStreamChat (fun _ => .ok (structuredStream, none))
        sampleChatRequest).events.filterMap GatewayEvent.call? = [] := by decide
    rw [hnone] at hyields
    simp only [List.filterMap_append, hcalls] at hyields
    cases hyields
  · intro h
    obtain ⟨yielded, usage, finishReason, hstream, husage⟩ :=
      h _ _ _ (answers_sample lateStart) (blockwise_of_continues (by decide) (by decide))
    have hlast := congrArg (fun s : GatewayStream => s.events.getLast?) hstream
    have hcompleted : (claudeStreamChat (fun _ => .ok (lateStart, none))
        sampleChatRequest).events.getLast? = some (.completed ⟨3, 0, 0⟩ "stop") := rfl
    rw [hcompleted] at hlast
    simp only [List.getLast?_append, List.getLast?_singleton, Option.some_or, Option.some.injEq,
      GatewayEvent.completed.injEq] at hlast
    rw [← hlast.1] at husage
    exact absurd husage (by decide)

end

end Doda
