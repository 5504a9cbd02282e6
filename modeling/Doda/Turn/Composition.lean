import Doda.Api.Conversations
import Doda.Lib.Composition
import Doda.Turn.Marks

/-!
# What a turn is put together from

A compositional property holds of a whole turn once it holds of the turn's own
reads and writes, of its calls, and of the proposal a write call makes.

## Main definitions

* `Call.ofTurn` — the calls of a turn.
* `TurnSteps P` — what `P` has to hold of.
* `postConversationMessage_composed` — the walk through the turn.
-/

namespace Doda

open ReadCommitted

/-- The calls of a turn. -/
def Call.ofTurn : Call → Prop
  | .uuid4 | .utcnow _ | .streamChat _ | .send _ => True
  | _ => False

variable [Sha256] [JsonText] [Deployment]

/-- What a compositional property has to hold of to hold of a turn in the context, with the trace
id. -/
structure TurnSteps (context : WorkspaceContext) (traceId : Uuid)
    (P : ∀ {α : Type}, Session α → Prop) : Prop where
  composes : Compositional P
  stmt : ∀ q : Stmt Row, q.WritesOnly (·.ofTurns = true) → P (run q : Session q.Res)
  call : ∀ e : Call, e.ofTurn → P (call e : Session (Answer e))
  propose : ∀ toolName argumentsJson idempotencyKey,
    P (proposeWriteToolAction toolName argumentsJson context traceId idempotencyKey)

/-- The property, of a program over the locals of a turn. -/
def TurnM.Has (P : ∀ {α : Type}, Session α → Prop) {α : Type} (m : TurnM α) : Prop :=
  ∀ s : Turn, P (m s)

namespace TurnSteps

variable {context : WorkspaceContext} {traceId : Uuid} {P : ∀ {α : Type}, Session α → Prop}
  (H : TurnSteps context traceId P) {α β : Type} {e : TurnContext}

include H

/-! ## Programs over the locals -/

theorem turn_pure (a : α) : TurnM.Has P (pure a : TurnM α) :=
  fun _ => H.composes.pure _

theorem turn_throw (e : Err) : TurnM.Has P (throw e : TurnM α) :=
  fun _ => H.composes.pure _

theorem turn_bind {m : TurnM β} {f : β → TurnM α} (hm : TurnM.Has P m)
    (hf : ∀ b, TurnM.Has P (f b)) : TurnM.Has P (m >>= f) := by
  intro s
  change P (m s >>= fun x => ExceptT.bindCont f x.1 x.2)
  refine H.composes.bind (hm s) fun ⟨r, s'⟩ => ?_
  cases r with
  | ok a => exact hf a s'
  | error e => exact H.composes.pure _

theorem turn_lift {m : Session α} (hm : P m) : TurnM.Has P (TurnM.lift m) :=
  fun _ => H.composes.tryCatch (H.composes.bind hm fun _ => H.composes.pure _)
    fun _ => H.composes.pure _

theorem turn_attempt {m : TurnM α} (hm : TurnM.Has P m) : TurnM.Has P (TurnM.attempt m) :=
  fun s => H.composes.bind (hm s) fun _ => H.composes.pure _

theorem turn_get : TurnM.Has P (get : TurnM Turn) := fun _ => H.composes.pure _

theorem turn_modify (f : Turn → Turn) : TurnM.Has P (modify f : TurnM Unit) :=
  fun _ => H.composes.pure _

/-! ## Operations -/

theorem uuid4 : P Session.uuid4 := H.call _ trivial
theorem utcnow (c : Clock) : P (Session.utcnow c) := H.call _ trivial
theorem read (k : Key) : P (Session.get k) := H.stmt _ trivial
theorem select : P Session.select := H.stmt _ trivial

theorem addMessage (message : Uuid → Time → Message) : P (addMessage message) := by
  refine H.composes.bind H.uuid4 fun id => H.composes.bind (H.utcnow _) fun createdAt => ?_
  refine H.composes.bind (H.stmt _ ?_) fun _ => H.composes.pure _
  exact List.forall_mem_singleton.2 rfl

theorem yieldChunk (chunk : TurnChunk) : TurnM.Has P (yieldChunk chunk) := by
  refine H.turn_bind (H.turn_modify _) fun _ => ?_
  refine H.turn_bind (H.turn_lift (H.call _ trivial)) fun taken => ?_
  split
  · exact H.turn_pure _
  · exact H.turn_throw _

theorem finish (e : TurnContext) (content finishReason : String) :
    TurnM.Has P (finish e content finishReason) := by
  refine H.turn_bind ?_ fun message => H.turn_modify _
  exact H.turn_bind H.turn_get fun s => H.turn_lift (H.addMessage _)

theorem consumeEvents (error : Option Err) (evs : List GatewayEvent) :
    TurnM.Has P (consumeEvents error evs) := by
  induction evs with
  | nil =>
    cases error with
    | none => exact H.turn_pure _
    | some e => exact H.turn_throw _
  | cons ev evs ih =>
    cases ev with
    | textDelta text =>
      refine H.turn_bind (H.turn_modify _) fun _ => ?_
      exact H.turn_bind (H.yieldChunk _) fun _ => ih
    | toolCallReady | structuredOutputReady | completed =>
      exact H.turn_bind (H.turn_modify _) fun _ => ih
    | gatewayError => exact ih

/-! ## Tool calls -/

theorem storeToolCalls (e : TurnContext) (calls : List ToolCallRequest) :
    TurnM.Has P (storeToolCalls e calls) := by
  induction calls with
  | nil => exact H.turn_pure _
  | cons call calls ih =>
    refine H.turn_bind H.turn_get fun s => H.turn_bind ?_ fun _ => ih
    exact H.turn_bind H.turn_get fun s => H.turn_lift (H.addMessage _)

theorem dispatchReadTool (toolName argumentsJson : String) (w : Uuid) :
    P (dispatchReadTool toolName argumentsJson w) := by
  unfold Doda.dispatchReadTool
  split
  · exact H.composes.throw _
  · split
    · exact H.composes.throw _
    · refine H.composes.bind H.select fun db => H.composes.bind H.select fun db' => ?_
      dsimp only
      split <;> exact H.composes.pure _

theorem answerReadCalls (e : TurnContext) (calls : List ToolCallRequest) :
    TurnM.Has P (answerReadCalls e calls) := by
  induction calls with
  | nil => exact H.turn_pure _
  | cons call calls ih =>
    refine H.turn_bind (H.turn_lift ?_) fun text => ?_
    · refine H.composes.tryCatch (H.dispatchReadTool _ _ _) fun err => ?_
      split
      · exact H.composes.pure _
      · exact H.composes.throw _
    · refine H.turn_bind (H.turn_lift (H.addMessage _)) fun _ => ?_
      exact H.turn_bind (H.turn_modify _) fun _ => ih

theorem reportWriteCall (he : e.context = context ∧ e.traceId = traceId) (call : ToolCallRequest) :
    TurnM.Has P (reportWriteCall e call) := by
  refine H.turn_bind (H.turn_lift (he.1 ▸ he.2 ▸ H.propose ..)) fun x => ?_
  exact H.turn_bind (H.finish e _ _) fun _ => H.yieldChunk _

/-! ## Rounds -/

theorem streamChat (e : TurnContext) (s : Turn) : P (streamChat e s) := by
  unfold Doda.streamChat
  split
  · exact H.call _ trivial
  · exact H.composes.pure _

theorem rounds (he : e.context = context ∧ e.traceId = traceId) (n : ℕ) :
    TurnM.Has P (rounds e n) := by
  induction n with
  | zero => exact H.finish e _ _
  | succ n ih =>
    refine H.turn_bind (H.turn_modify _) fun _ => H.turn_bind H.turn_get fun s => ?_
    refine H.turn_bind (H.turn_lift (H.streamChat e s)) fun stream => ?_
    refine H.turn_bind (H.consumeEvents _ _) fun _ => H.turn_bind H.turn_get fun s => ?_
    split
    · exact H.finish e _ _
    · refine H.turn_bind (H.storeToolCalls e _) fun _ => H.turn_bind (H.turn_modify _) fun _ => ?_
      split
      · exact H.reportWriteCall he _
      · exact H.turn_bind (H.answerReadCalls e _) fun _ => ih

theorem isProviderEnabled (c : Uuid) (provider : Provider) : P (isProviderEnabled c provider) :=
  H.composes.bind (H.read _) fun _ => H.composes.pure _

theorem pickFallbackFrom (c : Uuid) (excluding : Provider) (candidates : List Provider) :
    P (pickFallbackFrom c excluding candidates) := by
  induction candidates with
  | nil => exact H.composes.pure _
  | cons candidate rest ih =>
    unfold Doda.pickFallbackFrom
    split
    · exact ih
    · refine H.composes.bind (H.isProviderEnabled c _) fun enabled => ?_
      split
      · exact H.composes.pure _
      · exact ih

theorem withFallback (he : e.context = context ∧ e.traceId = traceId) :
    TurnM.Has P (withFallback e) := by
  refine H.turn_bind (H.turn_attempt (H.rounds he _)) fun r => ?_
  cases r with
  | ok _ => exact H.turn_pure _
  | error err =>
    refine H.turn_bind H.turn_get fun s => ?_
    split
    · exact H.turn_throw _
    · refine H.turn_bind (H.turn_lift ?_) fun enabled => ?_
      · exact H.composes.bind (H.read _) fun _ => H.composes.pure _
      · split
        · exact H.turn_throw _
        · refine H.turn_bind (H.turn_lift (H.pickFallbackFrom _ _ _)) fun found => ?_
          cases found with
          | none => exact H.turn_throw _
          | some provider => exact H.turn_bind (H.turn_modify _) fun _ => H.rounds he _

/-! ## The budget -/

theorem estimateCostCents (provider : Provider) (model : String) (i o : ℤ) :
    P (estimateCostCents provider model i o) := by
  unfold Doda.estimateCostCents
  split
  · exact H.composes.throw _
  · exact H.composes.pure _

theorem currentYearMonth : P currentYearMonth :=
  H.composes.bind (H.utcnow _) fun _ => H.composes.pure _

theorem getOrCreateLockedLedger (c : Uuid) (ym : String) :
    P (getOrCreateLockedLedger c ym) := by
  refine H.composes.bind (H.stmt _ trivial) fun found => ?_
  cases found with
  | some ledger => exact H.composes.pure _
  | none =>
    refine H.composes.bind (H.stmt _ (List.forall_mem_singleton.2 rfl)) fun inserted => ?_
    split
    · exact H.composes.pure _
    · refine H.composes.bind (H.stmt _ trivial) fun found => ?_
      cases found with
      | some ledger => exact H.composes.pure _
      | none => exact H.composes.throw _

theorem reserveBudget (c : Uuid) (cents : ℤ) : P (reserveBudget c cents) := by
  refine H.composes.bind H.currentYearMonth fun ym => ?_
  refine H.composes.bind (H.getOrCreateLockedLedger c ym) fun ledger => ?_
  split
  · exact H.composes.throw _
  · exact H.stmt _ rfl

theorem reconcileBudget (c : Uuid) (estimated actual : ℤ) :
    P (reconcileBudget c estimated actual) := by
  refine H.composes.bind H.currentYearMonth fun ym => ?_
  exact H.composes.bind (H.getOrCreateLockedLedger c ym) fun _ => H.stmt _ rfl

theorem reconcileAndRecord (e : TurnContext) (status : UsageEventStatus) :
    TurnM.Has P (reconcileAndRecord e status) := by
  refine H.turn_bind H.turn_get fun s => H.turn_lift ?_
  refine H.composes.bind (H.estimateCostCents _ _ _ _) fun actualCents => ?_
  refine H.composes.bind (H.reconcileBudget _ _ _) fun _ => ?_
  refine H.composes.bind H.uuid4 fun id => H.composes.bind (H.utcnow _) fun createdAt => ?_
  exact H.stmt _ (List.forall_mem_singleton.2 rfl)

/-! ## The turn -/

theorem resolveProviderChoice (conversation : Conversation) (c u w : Uuid) :
    P (resolveProviderChoice conversation c u w) := by
  unfold Doda.resolveProviderChoice
  split
  · exact H.composes.pure _
  · refine H.composes.bind (H.read _) fun preference => ?_
    split
    · exact H.composes.pure _
    · refine H.composes.bind (H.read _) fun preference => ?_
      split <;> exact H.composes.pure _

theorem resolveEffectiveLanguage (conversation : Conversation) (content : String) (w : Uuid) :
    P (resolveEffectiveLanguage conversation content w) := by
  unfold Doda.resolveEffectiveLanguage
  split
  · exact H.composes.pure _
  · exact H.composes.bind (H.read _) fun _ => H.composes.pure _

theorem responseLanguageInstruction (language : Option String) :
    P (responseLanguageInstruction language) := by
  unfold Doda.responseLanguageInstruction
  split
  · exact H.composes.pure _
  · split
    · exact H.composes.pure _
    · exact H.composes.throw _

/-- What follows a turn's beginning knows the context and the trace id. -/
theorem beginTurn_bind (conversation : Conversation) (content : String) (mode : ChatMode)
    {f : TurnContext × Turn → Session α}
    (hf : ∀ x : TurnContext × Turn, x.1.context = context ∧ x.1.traceId = traceId → P (f x)) :
    P (beginTurn context conversation traceId content mode >>= f) := by
  unfold Doda.beginTurn
  split
  · exact H.composes.throw _
  · rw [Prog.bind_assoc]
    refine H.composes.bind (H.addMessage _) fun _ => ?_
    rw [Prog.bind_assoc]
    refine H.composes.bind (H.resolveEffectiveLanguage _ _ _) fun language => ?_
    rw [Prog.bind_assoc]
    refine H.composes.bind (H.responseLanguageInstruction _) fun instructions => ?_
    rw [Prog.bind_assoc]
    refine H.composes.bind (H.resolveProviderChoice _ _ _ _) fun choice => ?_
    rw [Prog.bind_assoc]
    refine H.composes.bind (H.composes.bind (H.isProviderEnabled _ _) fun enabled => ?_)
      fun _ => ?_
    · split
      · exact H.composes.throw _
      · exact H.composes.pure _
    · rw [Prog.bind_assoc]
      refine H.composes.bind H.select fun db => ?_
      rw [Prog.bind_assoc]
      refine H.composes.bind (H.estimateCostCents _ _ _ _) fun perRoundCents => ?_
      dsimp only
      split
      · exact H.composes.throw _
      · rw [Prog.bind_assoc]
        exact H.composes.bind (H.reserveBudget _ _) fun _ => hf _ ⟨rfl, rfl⟩

theorem runTurn (he : e.context = context ∧ e.traceId = traceId) : TurnM.Has P (runTurn e) := by
  refine H.turn_bind (H.turn_attempt (H.withFallback he)) fun r => ?_
  cases r with
  | ok _ =>
    refine H.turn_bind (H.reconcileAndRecord e _) fun _ => ?_
    exact H.turn_bind H.turn_get fun s => H.yieldChunk _
  | error err => exact H.turn_bind (H.reconcileAndRecord e _) fun _ => H.turn_throw _

theorem streamMessage (conversation : Conversation) (content : String) (mode : ChatMode) :
    P (streamMessage context conversation traceId content mode) := by
  refine H.beginTurn_bind conversation content mode fun x he => ?_
  refine H.composes.bind (H.runTurn he _) fun ⟨r, s'⟩ => ?_
  cases r with
  | ok _ => exact H.composes.pure _
  | error err =>
    dsimp only
    split
    · split
      · exact H.composes.bind (H.call _ trivial) fun _ => H.composes.pure _
      · exact H.composes.throw _
    · exact H.composes.pure _

end TurnSteps

/-- **A turn has every compositional property that its steps have**, if the caller may use the
chat. -/
theorem postConversationMessage_composed {P : ∀ {α : Type}, Session α → Prop}
    (hP : Compositional P) {context : WorkspaceContext} {traceId : Uuid}
    (H : context.role ∈ rolesThatMayProposeActions → TurnSteps context traceId P)
    (conversationId : Uuid) (content : String) (mode : ChatMode) :
    P (postConversationMessage context conversationId traceId content mode) := by
  unfold postConversationMessage authorizeUseChat requireRole
  split
  · rename_i hrole
    have H := H (of_decide_eq_true hrole)
    refine H.composes.bind (H.composes.pure _) fun _ => H.composes.bind ?_ fun conversation => ?_
    · refine H.composes.bind (H.read _) fun found => ?_
      dsimp only
      split
      · split
        · exact H.composes.throw _
        · exact H.composes.pure _
      · exact H.composes.throw _
    · exact H.composes.bind (H.streamMessage ..) fun _ => H.composes.pure _
  · exact hP.throw _

end Doda
