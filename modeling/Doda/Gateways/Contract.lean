import Doda.Gateways.Histories

/-!
# The contract of the model gateways

A stream of an adapter ends with one `Completed`, or it raises an error of a
gateway.  Claude's adapter always keeps to that.  OpenAI's yields `Completed` for
each `response.completed` and for nothing else, so a stream that ends in another way,
such as with `response.incomplete`, just stops.  Gemini's parses structured output
outside of its `try`.

## Main definitions

* `SdkRun` — an adapter and the SDK under it.
* `SdkRun.ReportsCut`, `SdkRun.CallsTool` — what the provider says.
* `SdkRun.Concludes` — when the adapter keeps the contract.
* `stream_contract_iff` — that it is then and only then.
-/

namespace Doda

section Adapters

variable [JsonText]

/-! ## OpenAI -/

/-- The provider says that the answer was cut at the limit on output tokens. -/
def OpenaiEvent.ReportsCut : OpenaiEvent → Prop
  | .completed response | .incomplete response =>
    response.status = some "incomplete" ∧ response.incompleteReason = some "max_output_tokens"
  | _ => False

/-- The model calls a tool. -/
def OpenaiEvent.CallsTool : OpenaiEvent → Prop
  | .completed response | .incomplete response => response.hasToolCalls
  | .outputItemAdded (.functionCall ..) => True
  | _ => False

/-- The adapter raises at the event. -/
def OpenaiEvent.Raises (responseSchema : Option Json) : OpenaiEvent → Prop
  | .error _ => True
  | .completed response =>
    responseSchema.isSome ∧ ¬ response.hasToolCalls ∧ response.text ≠ "" ∧
      ¬ (loads response.text).isOk
  | _ => False

/-- A function call was announced under this id. -/
def Announced (before : List OpenaiEvent) (itemId : String) : Prop :=
  ∃ callId name, .outputItemAdded (.functionCall (some itemId) callId name) ∈ before

/-- The adapter yields something for the event, after those before it. -/
def OpenaiEvent.Yields (before : List OpenaiEvent) : OpenaiEvent → Prop
  | .outputTextDelta _ | .completed _ => True
  | .functionCallArgumentsDone itemId _ => Announced before itemId
  | _ => False

/-- The stream has one `response.completed`, nothing is yielded after it, and it is
the event that reports a cut. -/
def OpenaiConcludes (events : List OpenaiEvent) : Prop :=
  ∃ pre response post, events = pre ++ .completed response :: post ∧
    (∀ r, .completed r ∉ pre) ∧
    (∀ p e q, post = p ++ e :: q → ¬ e.Yields (pre ++ .completed response :: p)) ∧
    ((∃ e ∈ events, e.ReportsCut) → (¬ ∃ e ∈ events, e.CallsTool) →
      response.status = some "incomplete")

/-! ### The reader -/

/-- The reader knows the calls that were announced. -/
def Announces (before : List OpenaiEvent) (info : List (String × String × String)) : Prop :=
  ∀ itemId, (info.lookup itemId).isSome ↔ Announced before itemId

section

variable {schema : Option Json} {e : OpenaiEvent} {es p : List OpenaiEvent}
  {response : OpenaiResponse} {s s' : List (String × String × String)} {ys : List GatewayEvent}

/-- What structured output a response gives. -/
theorem structured_ok (h : response.structured schema = .ok ys) : ∀ y ∈ ys, y.Progress := by
  unfold OpenaiResponse.structured at h
  split_ifs at h
  · cases hl : loads response.text with
    | error exception => rw [hl] at h; cases h
    | ok data =>
      rw [hl] at h
      cases h
      simp [GatewayEvent.Progress]
  · cases h
    simp

theorem structured_error_iff : (∃ x, response.structured schema = .error x) ↔
    (OpenaiEvent.completed response).Raises schema := by
  unfold OpenaiResponse.structured OpenaiEvent.Raises
  by_cases hs : schema.isSome ∧ ¬ response.hasToolCalls ∧ response.text ≠ ""
  · rw [if_pos hs]
    cases hl : loads response.text with
    | error exception =>
      exact ⟨fun _ => ⟨hs.1, hs.2.1, hs.2.2, by simp [isOk_iff, hl]⟩, fun _ => ⟨_, rfl⟩⟩
    | ok data =>
      constructor
      · intro ⟨x, hx⟩
        cases hx
      · intro h
        exact absurd (isOk_iff.2 ⟨data, hl⟩) h.2.2.2
  · rw [if_neg hs]
    constructor
    · intro ⟨x, hx⟩
      cases hx
    · intro h
      exact absurd ⟨h.1, h.2.1, h.2.2.1⟩ hs

/-- The step for `response.completed`. -/
theorem openai_completed_step (h : (openaiReader schema).step s (.completed response) =
    .ok (s', ys)) : s' = s ∧ ∃ zs, (∀ z ∈ zs, z.Progress) ∧
      ys = zs ++ [.completed response.gatewayUsage response.finishReason] := by
  change (response.structured schema >>= fun structured => _) = _ at h
  cases hr : response.structured schema with
  | error x => rw [hr] at h; cases h
  | ok zs =>
    rw [hr] at h
    cases h
    exact ⟨rfl, zs, structured_ok hr, rfl⟩

/-- The adapter raises at an event or not, whatever it has read. -/
theorem openai_raises_iff (s : List (String × String × String)) (e : OpenaiEvent) :
    (∃ x, (openaiReader schema).step s e = .error x) ↔ e.Raises schema := by
  cases e with
  | completed response =>
    rw [← structured_error_iff]
    change (∃ x, (response.structured schema >>= fun structured => _) = _) ↔ _
    cases response.structured schema with
    | error x => exact ⟨fun _ => ⟨x, rfl⟩, fun _ => ⟨x, rfl⟩⟩
    | ok zs => exact ⟨fun ⟨_, hx⟩ => (by cases hx), fun ⟨_, hx⟩ => (by cases hx)⟩
  | error message => exact ⟨fun _ => trivial, fun _ => ⟨_, rfl⟩⟩
  | functionCallArgumentsDone itemId arguments =>
    refine ⟨fun ⟨x, hx⟩ => ?_, False.elim⟩
    simp only [openaiReader] at hx
    split at hx <;> cases hx
  | outputItemAdded item =>
    refine ⟨fun ⟨x, hx⟩ => ?_, False.elim⟩
    simp only [openaiReader] at hx
    rcases item with ⟨_ | id, callId, name⟩ | _ | _ <;> cases hx
  | outputTextDelta | incomplete | other => exact ⟨fun ⟨_, hx⟩ => (by cases hx), False.elim⟩

/-- Everything but `response.completed` yields progress. -/
theorem openai_progress_step (he : ∀ r, e ≠ .completed r)
    (h : (openaiReader schema).step s e = .ok (s', ys)) : ∀ y ∈ ys, y.Progress := by
  cases e with
  | completed response => exact absurd rfl (he response)
  | error message => cases h
  | functionCallArgumentsDone itemId arguments =>
    simp only [openaiReader] at h
    split at h <;> cases h <;> simp [GatewayEvent.Progress]
  | outputItemAdded item =>
    simp only [openaiReader] at h
    rcases item with ⟨_ | id, callId, name⟩ | _ | _ <;> cases h <;> simp
  | outputTextDelta | incomplete | other => cases h; simp [GatewayEvent.Progress]

/-- Where the adapter yields nothing. -/
theorem openai_silent_iff (ha : Announces p s)
    (h : (openaiReader schema).step s e = .ok (s', ys)) : ys = [] ↔ ¬ e.Yields p := by
  cases e with
  | completed response =>
    obtain ⟨-, zs, -, rfl⟩ := openai_completed_step h
    simp [OpenaiEvent.Yields]
  | error message => cases h
  | functionCallArgumentsDone itemId arguments =>
    rw [OpenaiEvent.Yields, ← ha itemId]
    simp only [openaiReader] at h
    cases hl : s.lookup itemId with
    | none => rw [hl] at h; cases h; simp
    | some call => rw [hl] at h; cases h; simp
  | outputItemAdded item =>
    simp only [openaiReader] at h
    rcases item with ⟨_ | id, callId, name⟩ | _ | _ <;> cases h <;> simp [OpenaiEvent.Yields]
  | outputTextDelta | incomplete | other => cases h; simp [OpenaiEvent.Yields]

omit [JsonText] in
theorem announced_concat {itemId : String} : Announced (p ++ [e]) itemId ↔
    Announced p itemId ∨
      ∃ callId name, e = .outputItemAdded (.functionCall itemId callId name) := by
  simp only [Announced, List.mem_append, List.mem_singleton, exists_or, eq_comm (a := e)]

/-- The reader keeps up with the calls that are announced. -/
theorem openai_announces (p : List OpenaiEvent) (s : List (String × String × String))
    (e : OpenaiEvent) (s' : List (String × String × String)) (ys : List GatewayEvent)
    (ha : Announces p s) (h : (openaiReader schema).step s e = .ok (s', ys)) :
    Announces (p ++ [e]) s' := by
  intro itemId
  rw [announced_concat, ← ha itemId]
  cases e with
  | completed response =>
    obtain ⟨rfl, -⟩ := openai_completed_step h
    simp
  | error message => cases h
  | functionCallArgumentsDone itemId arguments =>
    simp only [openaiReader] at h
    split at h <;> cases h <;> simp
  | outputItemAdded item =>
    simp only [openaiReader] at h
    rcases item with ⟨_ | id, callId, name⟩ | _ | _ <;> cases h
    · simp
    · by_cases hid : itemId = id
      · simp [hid]
      · have : (itemId == id) = false := by simpa using hid
        simp [List.lookup_cons, this, Ne.symm hid]
    all_goals simp
  | outputTextDelta | incomplete | other => cases h; simp

/-- The yields of a reading that raises nothing end with their one `Completed` just
when the stream concludes. -/
theorem openai_concludes_iff (h : (openaiReader schema).run [] es = (ys, .ok s')) :
    (∃ before usage finishReason, ys = before ++ [.completed usage finishReason] ∧
        (∀ ev ∈ before, ev.Progress) ∧ ((∃ e ∈ es, e.ReportsCut) →
          (¬ ∃ e ∈ es, e.CallsTool) → finishReason = "length")) ↔ OpenaiConcludes es := by
  have h₀ : Announces [] [] := fun itemId => by simp [Announced]
  constructor
  · rintro ⟨before, usage, finishReason, rfl, hprogress, hcut⟩
    obtain ⟨pre, e, post, s₁, s₂, us, us', rfl, hpre, hstep, hpost, rfl⟩ :=
      Transducer.run_concat h
    -- the event that the last output comes from
    obtain ⟨response, rfl⟩ : ∃ response, e = .completed response := by
      by_contra he
      exact openai_progress_step (not_exists.1 he) hstep (.completed usage finishReason) (by simp)
    obtain ⟨rfl, zs, -, hz⟩ := openai_completed_step hstep
    obtain ⟨-, hlast⟩ := List.append_inj' hz rfl
    cases hlast
    refine ⟨pre, response, post, rfl, fun r hr => ?_, fun p' e q hq => ?_, fun hc ht => ?_⟩
    · obtain ⟨p₁, p₂, rfl⟩ := List.append_of_mem hr
      obtain ⟨s₃, ws, ws', -, h₂, rfl⟩ := Transducer.run_append_inv hpre
      obtain ⟨s₄, vs, vs', h₃, -, rfl⟩ := Transducer.run_cons_inv h₂
      obtain ⟨-, zs, -, rfl⟩ := openai_completed_step h₃
      exact hprogress (.completed r.gatewayUsage r.finishReason) (by simp)
    · obtain ⟨s₃, s₄, h₁, h₂⟩ := Transducer.run_silent hpost p' e q hq
      obtain ⟨vs, hread⟩ : ∃ vs,
          (openaiReader schema).run s₂ (.completed response :: p') = (vs, .ok s₃) :=
        ⟨_, by rw [Transducer.run_cons_ok hstep, h₁]⟩
      have ha : Announces (pre ++ .completed response :: p') s₃ :=
        Transducer.run_inv openai_announces
          (Transducer.run_inv openai_announces h₀ hpre) hread
      exact (openai_silent_iff ha h₂).1 rfl
    · have hf := hcut hc ht
      unfold OpenaiResponse.finishReason at hf
      split_ifs at hf with h₁ h₂
      · exact absurd hf (by decide)
      · exact h₂
      · exact absurd hf (by decide)
  · rintro ⟨pre, response, post, rfl, hpre, hpost, hcut⟩
    obtain ⟨s₁, us, us', h₁, h₂, rfl⟩ := Transducer.run_append_inv h
    obtain ⟨s₂, ws, ws', h₃, h₄, rfl⟩ := Transducer.run_cons_inv h₂
    have ha₁ := Transducer.run_inv openai_announces h₀ h₁
    have ha₂ := openai_announces _ _ _ _ _ ha₁ h₃
    have hw : ws' = [] := by
      apply Transducer.run_eq_nil openai_announces ha₂ h₄
      intro p' e q hq s s' ys ha hstep
      rw [List.nil_append, List.append_assoc] at ha
      exact (openai_silent_iff ha hstep).2 (hpost p' e q hq)
    obtain ⟨-, zs, hzs, rfl⟩ := openai_completed_step h₃
    refine ⟨us ++ zs, response.gatewayUsage, response.finishReason, ?_, ?_, fun hc ht => ?_⟩
    · rw [hw, List.append_nil, List.append_assoc]
    · rw [List.forall_mem_append]
      refine ⟨?_, hzs⟩
      have hus : us = ((openaiReader schema).run [] pre).1 := by rw [h₁]
      rw [hus]
      apply Transducer.run_all
      intro e he s s' ys hstep
      exact openai_progress_step (fun r hr => hpre r (hr ▸ he)) hstep
    · have hn : response.hasToolCalls = false := by
        by_contra hn
        exact ht ⟨.completed response, by simp, by simpa [OpenaiEvent.CallsTool] using hn⟩
      rw [OpenaiResponse.finishReason, hn, if_neg (by simp), if_pos (hcut hc ht)]

/-- **OpenAI's adapter keeps the contract** just when the SDK raises, an event makes
the adapter raise, or the stream concludes. -/
theorem openai_contract_iff (a : SdkAnswer OpenaiEvent OpenaiException) :
    StreamContract (∃ e ∈ a.events, e.ReportsCut) (∃ e ∈ a.events, e.CallsTool)
        (iterate (openaiReader schema) OpenaiException.translate (fun _ => ⟨[], none⟩) [] a) ↔
      a.Fails ∨ (∃ e ∈ a.events, e.Raises schema) ∨ OpenaiConcludes a.events := by
  by_cases hf : a.Fails
  · exact ⟨fun _ => .inl hf, fun _ => hf.contract⟩
  by_cases hr : ∃ e ∈ a.events, e.Raises schema
  · refine ⟨fun _ => .inr (.inl hr), fun _ => contract_of_raised ?_⟩
    exact (Transducer.run_raises_iff openai_raises_iff).2 hr
  simp only [hf, hr, false_or]
  obtain ⟨events, rfl⟩ := SdkAnswer.of_not_fails hf
  change ¬ ∃ e ∈ events, e.Raises schema at hr
  obtain ⟨ys, s', hrun⟩ : ∃ ys s', (openaiReader schema).run [] events = (ys, .ok s') := by
    cases hs : ((openaiReader schema).run [] events).2 with
    | error x => exact absurd ((Transducer.run_raises_iff openai_raises_iff).1 ⟨x, hs⟩) hr
    | ok s' => exact ⟨_, s', Prod.ext rfl hs⟩
  rw [iterate_ok hrun, List.append_nil]
  change StreamContract (∃ e ∈ events, e.ReportsCut) (∃ e ∈ events, e.CallsTool) _ ↔
    OpenaiConcludes events
  rw [← openai_concludes_iff hrun]
  simp [StreamContract]

end

/-! ## Claude -/

/-- The stop reason an event reports. -/
def ClaudeEvent.stopReason : ClaudeEvent → Option String
  | .messageDelta _ stopReason => stopReason
  | _ => none

/-- The message ends with the stop reason of an answer cut at the limit on output
tokens. -/
def ClaudeReportsCut (events : List ClaudeEvent) : Prop :=
  (events.filterMap ClaudeEvent.stopReason).getLast? = some "max_tokens"

/-- The model calls a tool. -/
def ClaudeEvent.CallsTool : ClaudeEvent → Prop
  | .contentBlockStart _ (.toolUse _ name) => name ≠ claudeStructuredOutputToolName
  | _ => False

section

variable {s s' : ClaudeState} {e : ClaudeEvent} {ys : List GatewayEvent}

/-- What a finished tool block yields. -/
theorem claudeToolUse_ok {callId name argumentsJson : String}
    (h : claudeToolUse callId name argumentsJson = .ok ys) : ∀ y ∈ ys, y.Progress := by
  unfold claudeToolUse at h
  split_ifs at h
  · cases hl : loads argumentsJson with
    | error exception => rw [hl] at h; cases h
    | ok data =>
      rw [hl] at h
      cases h
      simp [GatewayEvent.Progress]
  · cases h
    simp [GatewayEvent.Progress]

/-- What the reader yields, and the stop reason it keeps. -/
theorem claude_step (h : claudeReader.step s e = .ok (s', ys)) :
    (∀ y ∈ ys, y.Progress) ∧ s'.stopReason = e.stopReason.orElse fun _ => s.stopReason := by
  cases e with
  | contentBlockStop index =>
    simp only [claudeReader] at h
    cases hl : s.blockInfo.lookup index with
    | none => rw [hl] at h; cases h; simp [ClaudeEvent.stopReason]
    | some block =>
      rw [hl] at h
      dsimp only at h
      cases hu : claudeToolUse block.1 block.2
          (if s.pieces index = "" then "\x7b\x7d" else s.pieces index) with
      | error x => rw [hu] at h; cases h
      | ok zs =>
        rw [hu] at h
        cases h
        exact ⟨claudeToolUse_ok hu, rfl⟩
  | contentBlockStart index block =>
    cases block <;> cases h <;> simp [ClaudeEvent.stopReason]
  | contentBlockDelta index delta =>
    cases delta <;> cases h <;> simp [ClaudeEvent.stopReason, GatewayEvent.Progress]
  | messageStart | messageDelta | other => cases h; simp [ClaudeEvent.stopReason]

/-- The reader keeps the last stop reason. -/
theorem claude_stopReason (p : List ClaudeEvent) (s : ClaudeState) (e : ClaudeEvent)
    (s' : ClaudeState) (ys : List GatewayEvent)
    (hp : s.stopReason = (p.filterMap ClaudeEvent.stopReason).getLast?)
    (h : claudeReader.step s e = .ok (s', ys)) :
    s'.stopReason = ((p ++ [e]).filterMap ClaudeEvent.stopReason).getLast? := by
  rw [(claude_step h).2, hp, List.filterMap_append]
  cases hr : e.stopReason with
  | none => simp [hr]
  | some reason => simp [hr]

/-- **Claude's adapter keeps the contract.** -/
theorem claude_contract (a : SdkAnswer ClaudeEvent ClaudeException) (called : Prop) :
    StreamContract (ClaudeReportsCut a.events) called
      (iterate claudeReader ClaudeException.translate
        (fun s => ⟨[.completed s.usage (claudeFinishReason s.stopReason)], none⟩) {} a) := by
  by_cases hf : a.Fails
  · exact hf.contract
  obtain ⟨events, rfl⟩ := SdkAnswer.of_not_fails hf
  cases hs : (claudeReader.run {} events).2 with
  | error x => exact contract_of_raised ⟨x, hs⟩
  | ok s' =>
    have hrun : claudeReader.run {} events = ((claudeReader.run {} events).1, .ok s') :=
      Prod.ext rfl hs
    rw [iterate_ok hrun]
    refine .inr ⟨rfl, _, _, _, rfl, ?_, fun hc _ => ?_⟩
    · apply Transducer.run_all
      intro e _ s s' ys hstep
      exact (claude_step hstep).1
    · have hlast : s'.stopReason = (events.filterMap ClaudeEvent.stopReason).getLast? :=
        Transducer.run_inv (p := []) claude_stopReason rfl hrun
      rw [hlast, show (events.filterMap ClaudeEvent.stopReason).getLast? = _ from hc]
      rfl

end

/-! ## Gemini -/

/-- The text of the chunks. -/
def geminiText (chunks : List GeminiChunk) : String := String.join (chunks.map (·.text.getD ""))

/-- Structured output was asked for and there is text, no tool call, and `json.loads`
refuses the text. -/
def GeminiUnreadable (responseSchema : Option Json) (chunks : List GeminiChunk) : Prop :=
  responseSchema.isSome ∧ (¬ ∃ c ∈ chunks, c.functionCalls ≠ []) ∧ geminiText chunks ≠ "" ∧
    ¬ (loads (geminiText chunks)).isOk

/-- What the locals of the loop are after the chunks. -/
structure GeminiRead (responseSchema : Option Json) (chunks : List GeminiChunk)
    (s : GeminiState) : Prop where
  sawToolCall : s.sawToolCall = true ↔ ∃ c ∈ chunks, c.functionCalls ≠ []
  structuredText : responseSchema.isSome → s.structuredText = geminiText chunks
  finishReason : (∃ c ∈ chunks, c.cut = true) → s.finishReason = "length"

section

variable {schema : Option Json} {s s' : GeminiState} {c : GeminiChunk} {p : List GeminiChunk}
  {ys : List GatewayEvent}

omit [JsonText] in
theorem gemini_progress (h : (geminiReader schema).step s c = .ok (s', ys)) :
    ∀ y ∈ ys, y.Progress := by
  cases h
  rw [List.forall_mem_append, List.forall_mem_map]
  refine ⟨fun _ _ => trivial, ?_⟩
  split_ifs <;> simp [GatewayEvent.Progress]

omit [JsonText] in
/-- The locals keep up with the chunks. -/
theorem gemini_read (p : List GeminiChunk) (s : GeminiState) (c : GeminiChunk)
    (s' : GeminiState) (ys : List GatewayEvent) (hp : GeminiRead schema p s)
    (h : (geminiReader schema).step s c = .ok (s', ys)) : GeminiRead schema (p ++ [c]) s' := by
  cases h
  constructor
  · simp only [Bool.or_eq_true, hp.sawToolCall]
    simp [or_and_right, exists_or]
  · intro hs
    simp [hs, hp.structuredText hs, geminiText, String.join]
  · rintro ⟨c', hc', hcut⟩
    dsimp only
    split_ifs with hc
    · rfl
    · refine hp.finishReason ⟨c', ?_, hcut⟩
      rcases List.mem_append.1 hc' with hc' | hc'
      · exact hc'
      · exact absurd hcut (List.mem_singleton.1 hc' ▸ hc)

omit [JsonText] in
/-- The loop raises nothing. -/
theorem gemini_run (s : GeminiState) (chunks : List GeminiChunk) :
    ∃ ys s', (geminiReader schema).run s chunks = (ys, .ok s') := by
  cases hs : ((geminiReader schema).run s chunks).2 with
  | error x =>
    obtain ⟨s₁, c, -, hstep⟩ := Transducer.run_error hs
    cases hstep
  | ok s' => exact ⟨_, s', Prod.ext rfl hs⟩

/-- **Gemini's adapter keeps the contract** just when the SDK raises or the structured
output can be read. -/
theorem gemini_contract_iff (a : SdkAnswer GeminiChunk GeminiException) :
    StreamContract (∃ c ∈ a.events, c.cut = true) (∃ c ∈ a.events, c.functionCalls ≠ [])
        (iterate (geminiReader schema) GeminiException.translate (geminiFinish schema) {} a) ↔
      a.Fails ∨ ¬ GeminiUnreadable schema a.events := by
  by_cases hf : a.Fails
  · exact ⟨fun _ => .inl hf, fun _ => hf.contract⟩
  obtain ⟨chunks, rfl⟩ := SdkAnswer.of_not_fails hf
  simp only [hf, false_or]
  change StreamContract (∃ c ∈ chunks, c.cut = true) (∃ c ∈ chunks, c.functionCalls ≠ []) _ ↔
    ¬ GeminiUnreadable schema chunks
  obtain ⟨ys, s', hrun⟩ := @gemini_run schema {} chunks
  have hys : ∀ y ∈ ys, y.Progress := by
    have hy : ys = ((geminiReader schema).run {} chunks).1 := by rw [hrun]
    rw [hy]
    apply Transducer.run_all
    intro c _ s s' ys hstep
    exact gemini_progress hstep
  have h₀ : GeminiRead schema [] {} := ⟨by simp, fun _ => rfl, by simp⟩
  have hread : GeminiRead schema chunks s' := Transducer.run_inv gemini_read h₀ hrun
  rw [iterate_ok hrun]
  have hlength : (∃ c ∈ chunks, c.cut = true) → (¬ ∃ c ∈ chunks, c.functionCalls ≠ []) →
      (if s'.sawToolCall = true then "tool_calls" else s'.finishReason) = "length" := by
    intro hc ht
    rw [if_neg (mt hread.sawToolCall.1 ht)]
    exact hread.finishReason hc
  unfold geminiFinish
  by_cases hs : schema.isSome ∧ s'.structuredText ≠ "" ∧ ¬ s'.sawToolCall
  · obtain ⟨hsome, htext, hsaw⟩ := hs
    rw [if_pos ⟨hsome, htext, hsaw⟩]
    rw [hread.structuredText hsome] at htext ⊢
    rw [hread.sawToolCall] at hsaw
    cases hl : loads (geminiText chunks) with
    | error exception =>
      constructor
      · rintro (⟨e, he⟩ | ⟨he, -⟩)
        · cases e <;> cases he
        · cases he
      · intro h
        exact absurd ⟨hsome, hsaw, htext, by simp [isOk_iff, hl]⟩ h
    | ok data =>
      constructor
      · rintro _ ⟨-, -, -, hunread⟩
        exact hunread (isOk_iff.2 ⟨data, hl⟩)
      · intro _
        refine .inr ⟨rfl, ys ++ [.structuredOutputReady data], s'.usage, _, ?_, ?_, hlength⟩
        · rw [List.append_assoc]
          rfl
        · rw [List.forall_mem_append]
          exact ⟨hys, by simp [GatewayEvent.Progress]⟩
  · rw [if_neg hs]
    constructor
    · intro _ h
      apply hs
      rw [hread.structuredText h.1, hread.sawToolCall]
      exact ⟨h.1, h.2.2.1, h.2.1⟩
    · intro _
      exact .inr ⟨rfl, ys, _, _, rfl, hys, hlength⟩

end

/-! ## The three adapters -/

/-- An adapter, and what its provider's SDK delivers. -/
inductive SdkRun where
  | openai (answer : SdkAnswer OpenaiEvent OpenaiException)
  | claude (answer : SdkAnswer ClaudeEvent ClaudeException)
  | gemini (answer : SdkAnswer GeminiChunk GeminiException)

namespace SdkRun

/-- The provider says that the answer was cut at the limit on output tokens. -/
def ReportsCut : SdkRun → Prop
  | openai answer => ∃ e ∈ answer.events, e.ReportsCut
  | claude answer => ClaudeReportsCut answer.events
  | gemini answer => ∃ c ∈ answer.events, c.cut = true

/-- The model calls a tool. -/
def CallsTool : SdkRun → Prop
  | openai answer => ∃ e ∈ answer.events, e.CallsTool
  | claude answer => ∃ e ∈ answer.events, e.CallsTool
  | gemini answer => ∃ c ∈ answer.events, c.functionCalls ≠ []

/-- The adapter keeps the contract on what the SDK delivers. -/
def Concludes (responseSchema : Option Json) : SdkRun → Prop
  | openai answer => answer.Fails ∨ (∃ e ∈ answer.events, e.Raises responseSchema) ∨
      OpenaiConcludes answer.events
  | claude _ => True
  | gemini answer => answer.Fails ∨ ¬ GeminiUnreadable responseSchema answer.events

/-- The provider of the adapter. -/
def provider : SdkRun → Provider
  | openai _ => .OPENAI
  | claude _ => .CLAUDE
  | gemini _ => .GEMINI

variable [GenaiTypes]

/-- `stream_chat`. -/
def streamChat (request : ChatRequest) : SdkRun → GatewayStream
  | openai answer => openaiStreamChat (fun _ => answer) request
  | claude answer => claudeStreamChat (fun _ => answer) request
  | gemini answer => geminiStreamChat (fun _ => answer) request

end SdkRun

/-- **The contract of the gateways** holds of a stream just when it concludes: the SDK
or an event raises; or, for OpenAI, the stream has one `response.completed` that
reports the cut if there is one, and yields nothing more; or, for Gemini, the
structured output is read by `json.loads`. -/
theorem stream_contract_iff [GenaiTypes] (run : SdkRun) (request : ChatRequest)
    (hc : run.provider.Converts request.history) :
    StreamContract run.ReportsCut run.CallsTool (run.streamChat request) ↔
      run.Concludes request.responseSchema := by
  cases run with
  | openai answer => exact openai_contract_iff answer
  | claude answer =>
    rw [SdkRun.provider, Provider.Converts, Provider.convert, bind_pure_ok_iff] at hc
    obtain ⟨messages, hm⟩ := hc
    simp only [SdkRun.streamChat, claudeStreamChat, hm]
    exact ⟨fun _ => trivial, fun _ => claude_contract answer _⟩
  | gemini answer =>
    rw [SdkRun.provider, Provider.Converts, Provider.convert, bind_pure_ok_iff] at hc
    obtain ⟨contents, hm⟩ := hc
    simp only [SdkRun.streamChat, geminiStreamChat, hm]
    exact gemini_contract_iff answer

end Adapters

/-! ## A cut answer -/

section

/-- Floats are not read. -/
@[reducible] def zeroJsonText : JsonText where
  floatRepr _ := ⟨"0.0", zero_ne_empty⟩
  nesting := 9000

/-- Objects are accepted, in the form that has no blank before its brace. -/
@[reducible] def objectArgs : GenaiTypes where
  acceptsArgs text := "\x7b".toList.isPrefixOf text.toList

attribute [local instance] zeroJsonText objectArgs

/-- A request without tools. -/
def sampleChatRequest : ChatRequest where
  provider := .OPENAI
  model := "gpt-5-mini"
  mode := .STANDARD
  instructions := ""
  history := [{ role := .USER, content := "salom" }]
  maxOutputTokens := 256

/-- An answer that OpenAI cuts after its first words. -/
def cutAnswer : SdkRun :=
  .openai (.ok ([.outputTextDelta "Salom", .incomplete
    { status := some "incomplete", incompleteReason := some "max_output_tokens", output := [],
      usage := some ⟨10, 256, 0⟩ }], none))

/-- The adapter passes over the end of the answer: it yields the words, and stops. -/
theorem cut_answer_just_stops : cutAnswer.provider.Converts sampleChatRequest.history ∧
    cutAnswer.ReportsCut ∧ ¬ cutAnswer.CallsTool ∧
    ¬ StreamContract cutAnswer.ReportsCut cutAnswer.CallsTool
      (cutAnswer.streamChat sampleChatRequest) := by
  have hs : cutAnswer.streamChat sampleChatRequest = ⟨[.textDelta "Salom"], none⟩ := rfl
  refine ⟨⟨_, rfl⟩, ?_, ?_, ?_⟩
  · simp [cutAnswer, SdkRun.ReportsCut, SdkAnswer.events, OpenaiEvent.ReportsCut]
  · simp [cutAnswer, SdkRun.CallsTool, SdkAnswer.events, OpenaiEvent.CallsTool,
      OpenaiResponse.hasToolCalls]
  · rw [hs]
    rintro (⟨e, he⟩ | ⟨-, before, usage, finishReason, he, -⟩)
    · cases he
    · rcases before with _ | ⟨_, _ | ⟨_, before⟩⟩ <;> cases he

/-- An answer that OpenAI ends. -/
def endedAnswer : SdkRun :=
  .openai (.ok ([.outputTextDelta "Salom", .completed
    { status := some "completed", output := [], usage := some ⟨10, 5, 0⟩ }], none))

theorem stream_contract_iff_sample :
    endedAnswer.provider.Converts sampleChatRequest.history ∧
      StreamContract endedAnswer.ReportsCut endedAnswer.CallsTool
        (endedAnswer.streamChat sampleChatRequest) := by
  refine ⟨⟨_, rfl⟩, (stream_contract_iff endedAnswer sampleChatRequest ⟨_, rfl⟩).2 ?_⟩
  refine .inr (.inr ⟨[.outputTextDelta "Salom"], _, [], rfl, by simp, ?_, ?_⟩)
  · intro p e q hq
    simp at hq
  · simp [SdkAnswer.events, OpenaiEvent.ReportsCut]

end

end Doda
