import Doda.Gateways.Histories
import Doda.Turn.Sources
import Doda.Turn.Window

/-!
# Tool calls that are stored

The arguments of a tool call are stored as the gateway yielded them.  Every later
turn converts them again, for whichever provider it calls.  A history rebuilt from
the database is converted as long as the converter takes the arguments of every tool
call that a gateway has yielded; one call that it does not take is enough for it to
raise in every later turn.

## Main definitions

* `stored_calls_convert` — what the converter of a provider does with a rebuilt
  history.
* `bad_call_poisons` — a call that is stored once, and not converted again.
-/

namespace Doda

open ReadCommitted

section

variable [Sha256] [JsonText] [Deployment] [GenaiTypes] {st : Sys Row Answer Err Reply Request}

/-- The text that stands for the arguments of a stored call. -/
def Message.argumentsText (m : Message) : String := orElseText m.toolArgumentsJson "\x7b\x7d"

omit [Sha256] [Deployment] in
theorem Message.taken_toTurn_iff {provider : Provider} {m : Message} :
    m.toTurn.Taken provider ↔ (m.HoldsCall → provider.Takes m.argumentsText) := by
  unfold Message.toTurn Message.HoldsCall ChatTurn.Taken
  cases m.role with
  | USER => simp
  | TOOL => simp
  | ASSISTANT =>
    cases m.toolName with
    | none => simp
    | some name => simp [Message.argumentsText]

omit [Sha256] [Deployment] in
/-- **A rebuilt history is converted** just when the calls of the messages it is made of
are taken. -/
theorem rebuilt_converts_iff {provider : Provider} {maxChars : ℕ} {ms : List Message} :
    provider.Converts (messagesToHistory ms maxChars) ↔
      ∀ m ∈ kept maxChars ms, m.HoldsCall → provider.Takes m.argumentsText := by
  rw [Provider.converts_iff, messagesToHistory, ← kept, List.forall_mem_map]
  simp only [Message.taken_toTurn_iff]

omit [Sha256] [JsonText] [Deployment] [GenaiTypes] in
/-- The messages of a page are rows. -/
theorem mem_listMessages {db : Db} {conversationId : Uuid} {m : Message}
    (hm : m ∈ listMessages db conversationId) : ∃ id, row db (.message id) = some m := by
  have hmem := (List.mem_insertionSort _).1 ((List.take_subset _ _) hm)
  obtain ⟨k, v, hv, hf⟩ := mem_collect.1 hmem
  cases k with
  | message id =>
    simp only [Option.ite_none_right_eq_some] at hf
    obtain ⟨-, heq⟩ := hf
    cases heq
    exact ⟨id, hv⟩
  | _ => simp at hf

/-- **Every later turn converts what is stored**, for any provider, where the converter
takes the arguments of every tool call that a gateway has yielded. -/
theorem stored_calls_convert (hs : Reachable serve st) (provider : Provider)
    (hc : ∀ call, Yielded st.hist call →
      provider.Takes (orElseText (some call.argumentsJson) "\x7b\x7d"))
    {db : Db} (hdb : db = committed st.hist ∨ ∃ p, .ran p .view db ∈ st.hist)
    (conversationId : Uuid) : provider.Converts
      (messagesToHistory (listMessages db conversationId) settings.maxContextChars) := by
  rw [rebuilt_converts_iff]
  intro m hm hcall
  obtain ⟨id, hid⟩ := mem_listMessages ((kept_suffix _ _).subset hm)
  have hyielded : ∀ v ∈ db, CallYielded st.hist v := by
    have hall := message_sourced hs
    rcases hdb with rfl | ⟨p, hp⟩
    · exact hall.committed
    · exact hall.viewed p db hp
  obtain ⟨call, hy, hargs⟩ := hyielded _ (mem_of_row hid) hcall
  rw [Message.argumentsText, hargs]
  exact hc call hy

end

/-! ## A call that is stored once -/

section Sample

/-- A read tool that refuses its arguments. -/
@[reducible] def refusingDeployment : Deployment :=
  { freeDeployment with listMyOpenTasksArgs := fun _ => .error "Invalid JSON" }

/-- Every value is accepted. -/
@[reducible] def anyArgs : GenaiTypes where
  acceptsArgs _ := true

attribute [local instance] plainSha plainJsonText refusingDeployment anyArgs

/-- A gateway that calls a read tool with these arguments, and answers in text then. -/
def callsWith (argumentsJson : String) (r : GatewayRequest) : GatewayStream where
  events :=
    if r.history.length ≤ 1 then
      [.toolCallReady ⟨"call-1", "list_my_open_tasks", argumentsJson⟩,
        .completed ⟨40, 20, 0⟩ "tool_calls"]
    else [.textDelta "Xo'p.", .completed ⟨40, 20, 0⟩ "stop"]

/-- The rows are written; then a message is posted. -/
def postOnce (argumentsJson : String) : Option (Sys Row Answer Err Reply Request) :=
  runAll serve {} (.start (.housekeeping sampleRows) ::
    Act.runs 0 (numberedAnswer (callsWith argumentsJson)) 0 6 ++
    .start (.chat ⟨3, .AAL1⟩ 2 8 9 "Salom" .STANDARD) ::
    Act.runs 1 (numberedAnswer (callsWith argumentsJson)) 6 38)

/-- The messages of the conversation. -/
def postedMessages (st : Sys Row Answer Err Reply Request) : List Message :=
  listMessages (committed st.hist) 8

/-- The history of the next turn. -/
def nextHistory (st : Sys Row Answer Err Reply Request) : List ChatTurn :=
  messagesToHistory (postedMessages st) settings.maxContextChars

/-- **A malformed call makes every later turn fail**: OpenAI yields it, the turn is
completed, and Claude's converter raises on what is stored. -/
theorem bad_call_poisons : ∃ st, postOnce "not json" = some st ∧ Reachable serve st ∧
    ¬ Provider.CLAUDE.Converts (nextHistory st) := by
  have hrun : ((postOnce "not json").any fun st =>
      (Provider.CLAUDE.convert (nextHistory st)).isOk == false) = true := by
    decide +kernel
  obtain ⟨st, hst, hr⟩ := (Option.any_eq_true _ _).1 hrun
  refine ⟨st, hst, Reachable.init.runAll hst, fun ⟨native, h⟩ => ?_⟩
  simp [h, Except.isOk, Except.toBool] at hr

/-- The tool calls that gateways have yielded. -/
def yieldedCalls (h : Hist) : List ToolCallRequest :=
  h.flatMap fun
    | .called _ (.streamChat _) x => x.toolCalls
    | _ => []

theorem Yielded.mem {h : Hist} {call : ToolCallRequest} (hy : Yielded h call) :
    call ∈ yieldedCalls h := by
  obtain ⟨p, r, x, hx, hcall⟩ := hy
  exact List.mem_flatMap.2 ⟨_, hx, hcall⟩

/-- A call with an object. -/
theorem stored_calls_convert_sample : ∃ st, postOnce "\x7b\x7d" = some st ∧
    (postedMessages st).length = 4 ∧ Provider.CLAUDE.Converts (nextHistory st) := by
  have hrun : ((postOnce "\x7b\x7d").any fun st => (postedMessages st).length == 4 &&
      (yieldedCalls st.hist).all (·.argumentsJson == "\x7b\x7d")) = true := by
    decide +kernel
  obtain ⟨st, hst, hr⟩ := (Option.any_eq_true _ _).1 hrun
  rw [Bool.and_eq_true, beq_iff_eq, List.all_eq_true] at hr
  refine ⟨st, hst, hr.1, ?_⟩
  refine stored_calls_convert (Reachable.init.runAll hst) .CLAUDE (fun call hy => ?_) (.inl rfl) 8
  have hargs := hr.2 call hy.mem
  rw [beq_iff_eq] at hargs
  rw [hargs]
  change (loads _).isOk = true
  decide +kernel

end Sample

end Doda
