import Doda.Infrastructure.Telegram
import Doda.Lifecycle.Alone

/-!
# What a Telegram send ends in

A ready action is processed where nobody interferes, and the Bot API may answer anything
out of a set of outcomes.  The entry is settled, with the action committed as succeeded or
failed, unless an outcome is read as what it is not: a JSON body that is no object, or an
object that says `ok` and has no message id.  Then another exception leaves the processing,
and the action stays running.

## Main definitions

* `HttpOutcome.Regular` — the outcomes that `send_message` makes its own of.
* `Concluded` — the action succeeded, with a receipt on record, or failed.
* `EntryConcludes` — every run of `process_entry` ends so.

## Main results

* `concludes_iff` — when it does.
-/

namespace Doda

open ReadCommitted

/-- `response.is_success`. -/
def isSuccess (status : ℕ) : Prop := 200 ≤ status ∧ status < 300

/-- The outcome is an `httpx` error of the expected kind, a refusal, a body that is not JSON, or an
object which, where it says `ok`, has a result with a message id. -/
def HttpOutcome.Regular : HttpOutcome → Prop
  | .raised _ => False
  | .response status (some body) =>
    status ≠ 429 → body.isObj ∧ (isSuccess status → (body.get? "ok").any Json.truthy →
      ∃ result, body.get? "result" = some result ∧ result.isObj ∧
        (result.get? "message_id").isSome)
  | _ => True

/-- `TelegramSendError`, which the relay handles. -/
def Err.isSendError : Err → Prop
  | .telegramSend _ _ => True
  | _ => False

/-- The outcomes of which `send_message` makes a result or its own exception. -/
theorem regular_iff {outcome : HttpOutcome} :
    outcome.Regular ↔ ∀ err, sendResult outcome = .error err → err.isSendError := by
  cases outcome with
  | connectError | connectTimeout | poolTimeout | httpError =>
    refine ⟨?_, fun _ => trivial⟩
    rintro - err ⟨⟩
    trivial
  | raised name =>
    refine ⟨False.elim, fun h => ?_⟩
    exact h _ rfl
  | response status body =>
    cases body with
    | none =>
      refine ⟨fun _ err herr => ?_, fun _ => trivial⟩
      rw [sendResult] at herr
      split at herr
      · cases herr
        trivial
      · cases herr
        trivial
    | some body =>
      rw [HttpOutcome.Regular, sendResult]
      by_cases htoomany : status = 429
      · rw [if_pos htoomany]
        refine ⟨?_, fun _ h => absurd htoomany h⟩
        rintro - err ⟨⟩
        trivial
      rw [if_neg htoomany]
      by_cases hobj : body.isObj
      swap
      · refine ⟨fun h => absurd (h htoomany).1 hobj, fun h => ?_⟩
        by_cases hs : 200 ≤ status ∧ status < 300
        · rw [if_neg (not_not.2 hs), if_pos hobj] at h
          exact (h _ rfl).elim
        · rw [if_pos hs, if_neg hobj] at h
          exact (h _ rfl).elim
      by_cases hs : 200 ≤ status ∧ status < 300
      swap
      · rw [if_pos hs, if_pos hobj]
        refine ⟨?_, fun _ _ => ⟨hobj, fun h => absurd h hs⟩⟩
        rintro - err ⟨⟩
        trivial
      rw [if_neg (not_not.2 hs), if_neg (not_not.2 hobj)]
      by_cases hok : (body.get? "ok").any Json.truthy = true
      swap
      · rw [if_pos hok]
        refine ⟨?_, fun _ _ => ⟨hobj, fun _ h => absurd h hok⟩⟩
        rintro - err ⟨⟩
        trivial
      rw [if_neg (not_not.2 hok)]
      constructor
      · intro h err herr
        obtain ⟨result, hresult, hresultObj, hid⟩ := (h htoomany).2 hs hok
        obtain ⟨messageId, hmessage⟩ := Option.isSome_iff_exists.1 hid
        rw [hresult] at herr
        dsimp only at herr
        rw [if_neg (not_not.2 hresultObj), hmessage] at herr
        cases herr
      · intro h _
        refine ⟨hobj, fun _ _ => ?_⟩
        cases hresult : body.get? "result" with
        | none =>
          rw [hresult] at h
          exact (h _ rfl).elim
        | some result =>
          rw [hresult] at h
          dsimp only at h
          by_cases hresultObj : result.isObj
          swap
          · rw [if_pos hresultObj] at h
            exact (h _ rfl).elim
          rw [if_neg (not_not.2 hresultObj)] at h
          refine ⟨result, rfl, hresultObj, ?_⟩
          cases hmessage : result.get? "message_id" with
          | none =>
            rw [hmessage] at h
            exact (h _ rfl).elim
          | some messageId => rfl

/-! ## The attempts -/

/-- The Bot API's answers are in `P`, and a new id is nobody's. -/
def GivesOutcome (P : HttpOutcome → Prop) (db : Db) : (e : Call) → Answer e → Prop
  | .post _ _ _, outcome => P outcome
  | .uuid4, id => row db (.auditEvent id) = none ∧ row db (.notification id) = none
  | _, _ => True

section Sending

variable {P : HttpOutcome → Prop} {c : Db} {t : DbTx} {i : Uuid} {chatId text : String}

/-- **The attempts** end in a message id or in the client's own exception. -/
theorem sendAttempts_alone {Q : Json → Db → DbTx → Prop} {X : Err → Db → DbTx → Prop}
    (hP : ∀ outcome, P outcome → outcome.Regular) {n : ℕ} {last : Err}
    (hlast : last.isSendError ∨ n ≠ 0)
    (hQ : ∀ outcome messageId, P outcome → sendResult outcome = .ok messageId → Q messageId c t)
    (hX : ∀ err, err.isSendError → X err c t) :
    Alone (GivesOutcome P) Q X (sendAttempts i chatId text n last) c t := by
  induction n generalizing last with
  | zero => exact hX last (hlast.resolve_right fun h => h rfl)
  | succ n ih =>
    rw [sendAttempts, alone_tryCatch, sendMessage]
    refine alone_bind.2 (alone_call.2 fun outcome houtcome => ?_)
    have hregular := regular_iff.1 (hP outcome houtcome)
    split
    · rename_i messageId hmessage
      exact hQ outcome messageId houtcome hmessage
    · rename_i err herr
      rw [alone_throw]
      split
      · exact ih (.inl (hregular err herr))
      · exact hX err (hregular err herr)

/-- An outcome that is none of them leaves the attempts. -/
theorem not_sendAttempts {Q : Json → Db → DbTx → Prop} {X : Err → Db → DbTx → Prop}
    {outcome : HttpOutcome} (houtcome : P outcome) (hirregular : ¬ outcome.Regular) {n : ℕ}
    {last : Err} (H : Alone (GivesOutcome P) Q X (sendAttempts i chatId text (n + 1) last) c t) :
    ∃ err, ¬ err.isSendError ∧ X err c t := by
  obtain ⟨err, herr, hother⟩ : ∃ err, sendResult outcome = .error err ∧ ¬ err.isSendError := by
    by_contra hnone
    refine hirregular (regular_iff.2 fun err herr => ?_)
    by_contra hother
    exact hnone ⟨err, herr, hother⟩
  rw [sendAttempts, alone_tryCatch, sendMessage, alone_bind, alone_call] at H
  have H := H outcome houtcome
  rw [herr] at H
  dsimp only at H
  rw [alone_throw] at H
  have htransient : ¬ err.isTransient := by
    cases err <;> first | exact (hother trivial).elim | simp [Err.isTransient]
  rw [if_neg htransient] at H
  exact ⟨err, hother, H⟩

end Sending

/-! ## The transactions -/

section Transactions

variable [Sha256] {P : HttpOutcome → Prop} {A : Db → (e : Call) → Answer e → Prop} {c : Db}
  {action : Action} {customerId : Uuid} {X : Err → Db → DbTx → Prop}

/-- The first transaction starts a ready action. -/
theorem alone_driveToRunning {Q : Option Action → Db → DbTx → Prop}
    (hrow : row c (.action action.id) = some action) (hcustomer : action.customerId = customerId)
    (hready : action.status = .READY) (htool : action.toolName = telegramSendMessage) :
    Alone A Q X (driveToRunning customerId action.id) c {} ↔
      Alone A (fun _ c t => if t.failed then X .database c {}
          else Q (some (action.setStatus .RUNNING)) (t.writes ++ c) {})
        (fun e c _ => X e c {})
        (recordAuditEvent action.customerId (some action.workspaceId) action.traceId
          telegramActor ActionStatus.RUNNING.eventType
          (transitionMetadata (action.setStatus .RUNNING) action.status .RUNNING none)) c
        ((Tx.lock {} [.action action.id]).write
          [⟨.action action.id, some (action.setStatus .RUNNING)⟩]) := by
  rw [driveToRunning, alone_atomically_iff, alone_bind, getAction, alone_bind]
  refine (alone_get rfl).trans ?_
  have hview : row (Tx.view {} c) (.action action.id) = some action := hrow
  rw [hview, alone_pure]
  have hfilter : (some action).filter (fun a => decide (a.customerId = customerId)) =
      some action := by
    simp [hcustomer]
  rw [hfilter]
  dsimp only
  rw [if_neg (not_not.2 htool), if_neg (not_not.2 hready), alone_bind,
    alone_quietTransition rfl hview (by simp) (by rw [hready]; simp [allowedTransitions])]
  exact Iff.rfl

/-- The second transaction resolves a running one. -/
theorem alone_resolve {Q : Unit → Db → DbTx → Prop} {target : ActionStatus}
    {receipt : Option Json} (hrow : row c (.action action.id) = some action)
    (hcustomer : action.customerId = customerId) (hrunning : action.status = .RUNNING)
    (htarget : target ∈ [ActionStatus.SUCCEEDED, .FAILED])
    (hreceipt : target = .SUCCEEDED → receipt.isSome) :
    Alone A Q X (resolve customerId action.id target receipt) c {} ↔
      Alone A
        (fun _ c t => Alone A (fun _ c t => if t.failed then X .database c {}
            else Q () (t.writes ++ c) {})
          (fun e c _ => X e c {}) (notifyTransition (action.setStatus target) target) c t)
        (fun e c _ => X e c {})
        (recordAuditEvent action.customerId (some action.workspaceId) action.traceId
          telegramActor target.eventType
          (transitionMetadata (action.setStatus target) action.status target receipt)) c
        ((Tx.lock {} [.action action.id]).write
          [⟨.action action.id, some (action.setStatus target)⟩]) := by
  have hview : row (Tx.view {} c) (.action action.id) = some action := hrow
  have hfilter : (some action).filter (fun a => decide (a.customerId = customerId)) =
      some action := by
    simp [hcustomer]
  have hallowed : target ∈ allowedTransitions action.status := by
    rw [hrunning]
    rcases List.mem_pair.1 htarget with rfl | rfl
    · simp [allowedTransitions]
    · simp [allowedTransitions]
  rw [resolve, alone_atomically_iff, alone_bind, getAction, alone_bind]
  refine (alone_get rfl).trans ?_
  rw [hview, alone_pure, hfilter]
  dsimp only
  rw [alone_bind, alone_applyTransition rfl hview hreceipt hallowed]
  exact Iff.rfl

end Transactions

/-! ## The entry -/

/-- The action has failed, or it has succeeded on an outcome in `P`, with the receipt in an
audit event. -/
inductive Concluded (P : HttpOutcome → Prop) (action : Action) (db : Db) : Prop where
  | failed (stored : row db (.action action.id) = some (action.setStatus .FAILED))
  | succeeded (outcome : HttpOutcome) (messageId : Json) (event : AuditEvent)
    (given : P outcome) (sent : sendResult outcome = .ok messageId)
    (stored : row db (.action action.id) = some (action.setStatus .SUCCEEDED))
    (recorded : row db (.auditEvent event.id) = some event)
    (type : event.eventType = ActionStatus.SUCCEEDED.eventType)
    (metadata : event.safeMetadata = transitionMetadata (action.setStatus .SUCCEEDED) .RUNNING
      .SUCCEEDED (some (.obj [("message_id", messageId)])))

/-- **Every run of `process_entry`**, on a ready action with the payload, returns with the action
concluded in the committed store. -/
def EntryConcludes [Sha256] (P : HttpOutcome → Prop) (payload : Json) (botToken : Option String) :
    Prop :=
  ∀ (db : Db) (action : Action) (entry : StreamEntry),
    row db (.action action.id) = some action → action.status = .READY →
    action.toolName = telegramSendMessage → action.payload = payload →
    entry.aggregateId = action.id → entry.customerId = action.customerId →
    Alone (GivesOutcome P) (fun _ c t => t = {} ∧ Concluded P action c) (fun _ _ _ => False)
      (processEntry entry botToken) db {}

section Entries

variable [Sha256] {P : HttpOutcome → Prop} {c : Db} {action : Action} {customerId : Uuid}
  {Q : Unit → Db → DbTx → Prop} {X : Err → Db → DbTx → Prop}

/-- **Failing** a running action, alone. -/
theorem resolve_failed (action : Action) (hrow : row c (.action action.id) = some action)
    (hcustomer : action.customerId = customerId) (hrunning : action.status = .RUNNING)
    (hQ : ∀ c, row c (.action action.id) = some (action.setStatus .FAILED) → Q () c {}) :
    Alone (GivesOutcome P) Q X (resolve customerId action.id .FAILED) c {} := by
  have hreceipt : ActionStatus.FAILED = .SUCCEEDED → (none : Option Json).isSome := by simp
  rw [alone_resolve hrow hcustomer hrunning (by simp) hreceipt]
  refine recordAuditEvent_alone (fun _ _ h => h.1) rfl ?_
  intro event t hf hrecorded
  rw [notifyTransition, alone_bind]
  refine createNotification_alone (fun _ _ h => h) hf ?_
  intro _ t' hf' hundisturbed
  rw [alone_pure, if_neg (by simp [hf'])]
  refine hQ _ ?_
  calc row (t'.view c) (.action action.id)
      = row (t.view c) (.action action.id) :=
        hundisturbed (.action action.id) (by simp) (by simp) (by simp)
    _ = some (action.setStatus .FAILED) :=
      (hrecorded.others (.action action.id) (by simp) (by simp)).trans (row_cons_self _ _ _)

/-- **Succeeding**, with the receipt. -/
theorem resolve_succeeded (action : Action) {outcome : HttpOutcome} {messageId : Json}
    (houtcome : P outcome) (hsent : sendResult outcome = .ok messageId)
    (hrow : row c (.action action.id) = some action)
    (hcustomer : action.customerId = customerId) (hrunning : action.status = .RUNNING)
    (hQ : ∀ c, Concluded P action c → Q () c {}) :
    Alone (GivesOutcome P) Q X (resolve customerId action.id .SUCCEEDED
      (some (.obj [("message_id", messageId)]))) c {} := by
  rw [alone_resolve hrow hcustomer hrunning (by simp) fun _ => rfl]
  refine recordAuditEvent_alone (fun _ _ h => h.1) rfl ?_
  intro event t hf hrecorded
  have hquiet : notifyTransition (action.setStatus .SUCCEEDED) .SUCCEEDED = pure () := rfl
  rw [hquiet, alone_pure, if_neg (by simp [hf])]
  refine hQ _ (.succeeded outcome messageId event houtcome hsent ?_ hrecorded.stored
    hrecorded.type ?_)
  · exact (hrecorded.others (.action action.id) (by simp) (by simp)).trans (row_cons_self _ _ _)
  · rw [hrecorded.metadata, hrunning]

omit [Sha256] in
theorem Concluded.of_running (h : Concluded P (action.setStatus .RUNNING) c) :
    Concluded P action c := by
  cases h with
  | failed stored => exact .failed stored
  | succeeded outcome messageId event given sent stored recorded type metadata =>
    exact .succeeded outcome messageId event given sent stored recorded type metadata

/-- Entries conclude where every outcome that is asked for is regular. -/
theorem concludes_of_regular {payload : Json} {botToken : Option String}
    (H : botToken = none ∨ telegramPayload payload = none ∨
      ∀ outcome, P outcome → outcome.Regular) :
    EntryConcludes P payload botToken := by
  rintro db action entry hrow hready htool rfl haggregate hcustomer
  rw [processEntry, alone_bind, haggregate,
    alone_driveToRunning hrow hcustomer.symm hready htool]
  refine recordAuditEvent_alone (fun _ _ h => h.1) rfl ?_
  intro event t hf hrecorded
  rw [if_neg (by simp [hf])]
  let running : Action := action.setStatus .RUNNING
  have hrunning : row (t.writes ++ db) (.action running.id) = some running :=
    (hrecorded.others (.action action.id) (by simp) (by simp)).trans (row_cons_self _ _ _)
  have hfailed : ∀ c : Db, row c (.action running.id) = some (running.setStatus .FAILED) →
      (({} : DbTx) = {} ∧ Concluded P action c) := fun c hc => ⟨rfl, .failed hc⟩
  dsimp only
  by_cases htoken : botToken.isNone = true
  · rw [if_pos htoken]
    exact resolve_failed running hrunning hcustomer.symm rfl hfailed
  rw [if_neg htoken]
  cases hpayload : telegramPayload running.payload with
  | none => exact resolve_failed running hrunning hcustomer.symm rfl hfailed
  | some message =>
    obtain ⟨chatId, text⟩ := message
    have hP : ∀ outcome, P outcome → outcome.Regular := by
      rcases H with rfl | hnone | hP
      · exact absurd rfl htoken
      · rw [show telegramPayload action.payload = some (chatId, text) from hpayload] at hnone
        cases hnone
      · exact hP
    dsimp only
    rw [alone_bind, alone_tryCatch]
    refine alone_bind.2 (sendAttempts_alone hP (.inr (by decide)) ?_ ?_)
    · intro outcome messageId houtcome hsent
      exact resolve_succeeded running houtcome hsent hrunning hcustomer.symm rfl fun c hc =>
        ⟨rfl, Concluded.of_running hc⟩
    · intro err herr
      cases err with
      | telegramSend name transient =>
        rw [alone_bind]
        exact resolve_failed running hrunning hcustomer.symm rfl hfailed
      | _ => exact herr.elim

/-- A ready action with the payload. -/
def readyAction (payload : Json) : Action :=
  { id := 1, customerId := 2, workspaceId := 3, traceId := 4, actorId := "user:5",
    toolName := telegramSendMessage, riskLevel := .R3, payload, payloadHash := "hash",
    idempotencyKey := "key", status := .READY }

/-- Where an entry concludes whatever the outcomes, they are regular. -/
theorem regular_of_concludes {payload : Json} {botToken : Option String}
    (H : EntryConcludes P payload botToken) (htoken : botToken ≠ none)
    (hpayload : telegramPayload payload ≠ none) {outcome : HttpOutcome} (houtcome : P outcome) :
    outcome.Regular := by
  obtain ⟨⟨chatId, text⟩, hpayload⟩ := Option.ne_none_iff_exists'.1 hpayload
  by_contra hirregular
  let action : Action := readyAction payload
  let db : Db := [⟨.action action.id, some action⟩]
  have hrow : row db (.action action.id) = some action := row_cons_self _ _ _
  have hempty : ∀ k : Key, k ≠ .action action.id → row db k = none :=
    fun k hk => row_cons_ne _ _ hk.symm
  obtain ⟨entry, haggregate, hcustomer⟩ : ∃ entry : StreamEntry,
      entry.aggregateId = action.id ∧ entry.customerId = action.customerId :=
    ⟨⟨0, 2, "action", action.id, actionReadyEvent, payload⟩, rfl, rfl⟩
  have H := H db action entry hrow rfl rfl rfl haggregate hcustomer
  rw [processEntry, alone_bind, haggregate,
    alone_driveToRunning hrow hcustomer.symm rfl rfl] at H
  let writes : DbTx := (Tx.lock {} [.action action.id]).write
    [⟨.action action.id, some (action.setStatus .RUNNING)⟩]
  -- every id is free
  have hview : ∀ k : Key, k ≠ .action action.id → k ≠ .auditChainTip action.customerId →
      row ((tipLocked action.customerId db writes).view db) k = none := by
    intro k haction htip
    rw [tipLocked_view action.customerId db writes htip]
    exact (row_cons_ne _ _ haction.symm).trans (hempty k haction)
  have hfree : ∃ id, GivesOutcome P ((tipLocked action.customerId db writes).view db) .uuid4 id :=
    ⟨0, hview (.auditEvent 0) (by simp) (by simp), hview (.notification 0) (by simp) (by simp)⟩
  obtain ⟨event, t, hf, -, H⟩ := recordAuditEvent_returns (t := writes) H (fun _ _ h => h.1) rfl
    ⟨0, trivial⟩ hfree ⟨0, trivial⟩
  rw [if_neg (by simp [hf])] at H
  dsimp only at H
  have hpayload : telegramPayload (action.setStatus .RUNNING).payload = some (chatId, text) :=
    hpayload
  rw [if_neg (by simpa using htoken), hpayload] at H
  dsimp only at H
  rw [alone_bind, alone_tryCatch] at H
  obtain ⟨err, hother, H⟩ := not_sendAttempts houtcome hirregular (alone_bind.1 H)
  cases err with
  | telegramSend name transient => exact hother trivial
  | _ => exact H

/-- **An entry concludes** whatever the outcomes, exactly if none is asked for or each is
regular. -/
theorem concludes_iff (P : HttpOutcome → Prop) (payload : Json) (botToken : Option String) :
    EntryConcludes P payload botToken ↔
      botToken = none ∨ telegramPayload payload = none ∨
        ∀ outcome, P outcome → outcome.Regular := by
  refine ⟨fun H => ?_, concludes_of_regular⟩
  by_cases htoken : botToken = none
  · exact .inl htoken
  by_cases hpayload : telegramPayload payload = none
  · exact .inr (.inl hpayload)
  · exact .inr (.inr fun outcome => regular_of_concludes H htoken hpayload)

end Entries

/-- Telegram says `ok` and no more. -/
theorem bare_ok_unconcluded :
    let _ : Sha256 := ⟨id⟩
    ¬ EntryConcludes (· = .response 200 (some (.obj [("ok", .bool true)])))
      (.obj [("chat_id", .str "1"), ("text", .str "hi")]) (some "token") := by
  intro _ H
  have hregular := regular_of_concludes H (by simp) (by decide) rfl
  obtain ⟨-, hok⟩ := hregular (by decide)
  obtain ⟨result, hresult, -⟩ := hok ⟨by decide, by decide⟩ (by decide)
  cases hresult

end Doda
