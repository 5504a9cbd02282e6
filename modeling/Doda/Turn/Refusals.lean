import Doda.Turn.Delivered

/-!
# What the database refuses

A gateway's words are stored as they come, and the columns of a message do not hold all of
them: a text with a NUL is refused, and so is a name that is too long.  A statement that
fails aborts its transaction, which then refuses everything.

## Main definitions

* `Message.Fits` — what the columns of a message hold.
* `Obliging` — the database stores the messages that fit, and no others.
* `refusing` — an oracle made so.
* `TurnM.Plays` — how a program over the locals ends when it is played, with its rules.

## Main results

* `storeToolCalls_plays`, `answerReadCalls_plays` — what fits is stored.
-/

namespace Doda

open ReadCommitted

/-! ## Columns -/

/-- A text that PostgreSQL keeps: one without NUL. -/
def Storable (s : String) : Prop := ∀ c ∈ s.toList, c ≠ Char.ofNat 0

instance (s : String) : Decidable (Storable s) := List.decidableBAll _ _

/-- The text goes into a column `String(n)`. -/
def FitsIn (n : ℕ) (s : String) : Prop := Storable s ∧ s.length ≤ n

instance (n : ℕ) (s : String) : Decidable (FitsIn n s) := inferInstanceAs (Decidable (_ ∧ _))

/-- What the columns of `conversation_messages` hold. -/
structure Message.Fits (m : Message) : Prop where
  content : Storable m.content
  toolCallId : ∀ s ∈ m.toolCallId, FitsIn 128 s
  toolName : ∀ s ∈ m.toolName, FitsIn 128 s
  toolArgumentsJson : ∀ s ∈ m.toolArgumentsJson, Storable s
  model : ∀ s ∈ m.model, FitsIn 64 s
  finishReason : ∀ s ∈ m.finishReason, FitsIn 16 s

theorem Message.fits_iff {m : Message} : m.Fits ↔ Storable m.content ∧
    (∀ s ∈ m.toolCallId, FitsIn 128 s) ∧ (∀ s ∈ m.toolName, FitsIn 128 s) ∧
    (∀ s ∈ m.toolArgumentsJson, Storable s) ∧ (∀ s ∈ m.model, FitsIn 64 s) ∧
    ∀ s ∈ m.finishReason, FitsIn 16 s :=
  ⟨fun h => ⟨h.content, h.toolCallId, h.toolName, h.toolArgumentsJson, h.model, h.finishReason⟩,
    fun h => ⟨h.1, h.2.1, h.2.2.1, h.2.2.2.1, h.2.2.2.2.1, h.2.2.2.2.2⟩⟩

instance (m : Message) : Decidable m.Fits := decidable_of_iff' _ Message.fits_iff

theorem storable_append {s t : String} : Storable (s ++ t) ↔ Storable s ∧ Storable t := by
  simp only [Storable, String.toList_append, List.forall_mem_append]

theorem storable_intercalate {sep : String} (hsep : Storable sep) {l : List String}
    (hl : ∀ s ∈ l, Storable s) : Storable (sep.intercalate l) := by
  induction l with
  | nil =>
    rw [String.intercalate_nil]
    decide
  | cons s l ih =>
    obtain ⟨hs, hl⟩ := List.forall_mem_cons.1 hl
    cases l with
    | nil => rwa [String.intercalate_singleton]
    | cons t l =>
      rw [String.intercalate_cons_cons, storable_append, storable_append]
      exact ⟨⟨hs, hsep⟩, ih hl⟩

theorem hexDigit_ne_nul {n : ℕ} (hn : n < 16) : hexDigit n ≠ Char.ofNat 0 := by
  have key : ∀ a : Fin 16, hexDigit a ≠ Char.ofNat 0 := by decide
  exact key ⟨n, hn⟩

theorem hex_ne_nul (n x : ℕ) : ∀ c ∈ hex n x, c ≠ Char.ofNat 0 := by
  induction n generalizing x with
  | zero => exact List.forall_mem_nil _
  | succ n ih =>
    exact List.forall_mem_append.2 ⟨ih _,
      List.forall_mem_singleton.2 (hexDigit_ne_nul (Nat.mod_lt _ (by decide)))⟩

theorem storable_str (u : Uuid) : Storable u.str := by
  simp only [Storable, Uuid.str, String.toList_ofList, List.forall_mem_append,
    List.forall_mem_cons]
  have hdash : '-' ≠ Char.ofNat 0 := by decide
  exact ⟨hex_ne_nul _ _, hdash, hex_ne_nul _ _, hdash, hex_ne_nul _ _, hdash,
    hex_ne_nul _ _, hdash, hex_ne_nul _ _⟩

theorem storable_taskLine {t : Task} (ht : Storable t.title) : Storable (taskLine t) := by
  have hstatus : Storable t.status.value := by
    cases t.status <;> decide
  simp only [taskLine, toString, storable_append]
  exact ⟨⟨⟨⟨⟨⟨by decide, hstatus⟩, by decide⟩, ht⟩, by decide⟩, storable_str _⟩, by decide⟩

/-- The statement that stores a message. -/
theorem ran_of_stored {ev : Event Row Answer} {m : Message} (h : mark ev = some (.stored m)) :
    ∃ p id, ∃ x : (Stmt.insert [⟨.message id, m⟩] : Stmt Row).Res,
      ev = .ran p (.insert [⟨.message id, m⟩]) x := by
  cases ev with
  | ran p q x =>
    rw [mark_ran] at h
    fun_cases stmtMark q x
    all_goals simp_all [stmtMark]
  | called p e x =>
    rw [mark_called] at h
    fun_cases callMark e x
    all_goals simp_all [callMark]
  | failed | committed | rolledBack => cases h
  | crashed => cases h

/-! ## The database -/

/-- No statement of the open transaction of `p` has failed. -/
def Intact (p : ℕ) (h : Hist) : Prop := Event.failed p ∉ opened p h

/-- A transaction in which a statement has failed refuses every other.  Otherwise a message is
stored just where it fits, and the database can be read; no title in it has a NUL. -/
structure Obliging (O : Oracle Row Answer) (p : ℕ) : Prop where
  aborted : ∀ h q, ¬ Intact p h → O.stmt h q = none
  stores : ∀ h id m, Intact p h → (O.stmt h (.insert [⟨.message id, m⟩]) ≠ none ↔ m.Fits)
  views : ∀ h, Intact p h → O.stmt h .view ≠ none
  titles : ∀ h db, O.stmt h .view = some db → ∀ i t, row db (.task i) = some t →
    Storable t.title

theorem Obliging.storable_title {O : Oracle Row Answer} {p : ℕ} (hO : Obliging O p) {h : Hist}
    {db : Db} (hdb : O.stmt h .view = some db) {workspaceId : Uuid} {status : TaskStatus}
    {limit : ℕ} {t : Task} (ht : t ∈ listTasks db workspaceId status limit) :
    Storable t.title := by
  have ht := (List.mem_insertionSort _).1 (List.mem_of_mem_take ht)
  obtain ⟨k, v, hrow, hv⟩ := mem_collect.1 ht
  split at hv
  · rename_i i task
    split at hv
    · obtain rfl := Option.some.inj hv
      exact hO.titles h db hdb i _ hrow
    · cases hv
  · cases hv

theorem Intact.append {p : ℕ} {h evs : Hist} (hs : Intact p h) (hevs : .failed ∉ marks evs) :
    Intact p (evs ++ h) := by
  have hown : Event.failed p ∉ own p evs := fun hmem =>
    hevs (mem_trace.2 ⟨_, (mem_own.1 hmem).1, rfl⟩)
  intro hmem
  rw [opened, own_append, List.takeWhile_append] at hmem
  split at hmem
  · rcases List.mem_append.1 hmem with hmem | hmem
    · exact hown hmem
    · exact hs hmem
  · exact hown ((List.takeWhile_sublist _).subset hmem)

theorem Intact.cons {p : ℕ} {h : Hist} {ev : Event Row Answer} (hs : Intact p h)
    (hev : mark ev ≠ some .failed) : Intact p (ev :: h) := by
  have hmarks : .failed ∉ marks [ev] := by simpa [trace, eq_comm] using hev
  exact hs.append hmarks

/-- A statement that was answered found the transaction intact. -/
theorem Obliging.intact {O : Oracle Row Answer} {p : ℕ} (hO : Obliging O p) {h : Hist}
    {q : Stmt Row} {x : q.Res} (hx : O.stmt h q = some x) : Intact p h := by
  by_contra hs
  rw [hO.aborted h q hs] at hx
  cases hx

/-- **What is stored fits.** -/
theorem Obliging.fits {O : Oracle Row Answer} {p : ℕ} (hO : Obliging O p) {h evs : Hist}
    (hg : O.Gave h evs) {m : Message} (hm : .stored m ∈ marks evs) : m.Fits := by
  obtain ⟨ev, hev, hmark⟩ := mem_trace.1 hm
  obtain ⟨evs₂, evs₁, rfl⟩ := List.append_of_mem hev
  obtain ⟨hg, -⟩ := hg.of_append
  obtain ⟨p', id, x, rfl⟩ := ran_of_stored hmark
  refine (hO.stores _ id m (hO.intact hg.1)).1 ?_
  rw [hg.1]
  simp

/-- The event is a failed statement of the transaction. -/
def isFailed (p : ℕ) : Event Row Answer → Bool
  | .failed p' => p' = p
  | _ => false

theorem isFailed_iff {p : ℕ} {ev : Event Row Answer} : isFailed p ev = true ↔ ev = .failed p := by
  cases ev <;> simp [isFailed]

instance (p : ℕ) (h : Hist) : Decidable (Intact p h) :=
  decidable_of_iff ((opened p h).all (!isFailed p ·)) (by
    simp only [Intact, List.all_eq_true, Bool.not_eq_true', Bool.eq_false_iff, ne_eq, isFailed_iff]
    exact ⟨fun H hmem => H _ hmem rfl, fun H ev hev heq => H (heq ▸ hev)⟩)

/-- The message that the statement stores. -/
def storedMessage : Stmt Row → Option Message
  | .insert [⟨.message _, m⟩] => some m
  | _ => none

/-- The oracle's database, as one that refuses what does not fit, and all that follows a failure. -/
def refusing (O : Oracle Row Answer) (p : ℕ) : Oracle Row Answer :=
  { O with
    stmt := fun h q => if Intact p h ∧ ∀ m ∈ storedMessage q, m.Fits then O.stmt h q else none }

theorem refusing_obliging {O : Oracle Row Answer} (p : ℕ) (hO : ∀ h q, O.stmt h q ≠ none)
    (htitles : ∀ h db, O.stmt h .view = some db → ∀ i t, row db (.task i) = some t →
      Storable t.title) : Obliging (refusing O p) p where
  aborted h q hs := if_neg fun H => hs H.1
  stores h id m hs := by
    simp only [refusing, storedMessage, Option.mem_some_iff, forall_eq', hs, true_and]
    split
    · rename_i hfits
      exact iff_of_true (hO _ _) hfits
    · rename_i hfits
      exact iff_of_false (not_not.2 rfl) hfits
  views h hs := by
    have hfits : ∀ m ∈ storedMessage .view, m.Fits := fun m hm =>
      absurd hm (Option.not_mem_none m)
    simp only [refusing, if_pos (And.intro hs hfits)]
    exact hO _ _
  titles h db hdb := by
    simp only [refusing] at hdb
    split at hdb
    · exact htitles h db hdb
    · cases hdb

/-! ## Playing a program over the locals -/

/-- Played after the history `h`, the program ends with `R` of its events, how it ends, and the
locals it leaves. -/
def TurnM.Plays {α : Type} (O : Oracle Row Answer) (p : ℕ) (h : Hist)
    (R : Hist → Except Err α → Turn → Prop) (m : TurnM α) (s : Turn) : Prop :=
  ∃ r s' evs, play O p (m s) h = (.ok (r, s'), evs ++ h) ∧ O.Gave h evs ∧ R evs r s'

namespace TurnM.Plays

variable {α β : Type} {O : Oracle Row Answer} {p : ℕ} {h : Hist}
  {R : Hist → Except Err α → Turn → Prop} {s : Turn}

theorem mono {m : TurnM α} {R' : Hist → Except Err α → Turn → Prop} (H : m.Plays O p h R' s)
    (hR : ∀ evs r s', R' evs r s' → R evs r s') : m.Plays O p h R s := by
  obtain ⟨r, s', evs, hm, hg, hr⟩ := H
  exact ⟨r, s', evs, hm, hg, hR _ _ _ hr⟩

/-- What a program shows, it shows when it is played. -/
theorem and_emits {m : TurnM α} {R' : List Mark → Except Err α → Turn → Prop}
    (H : m.Plays O p h R s) (H' : m.Emits p R' s) :
    m.Plays O p h (fun evs r s' => R evs r s' ∧ O.Gave h evs ∧ R' (marks evs) r s') s := by
  obtain ⟨r, s', evs, hm, hg, hr⟩ := H
  obtain ⟨r₁, s₁, evs₁, hm₁, -, hr₁⟩ := play_turn (O := O) H' h
  rw [hm] at hm₁
  simp only [Prod.mk.injEq, Except.ok.injEq, List.append_cancel_right_eq] at hm₁
  obtain ⟨⟨rfl, rfl⟩, rfl⟩ := hm₁
  exact ⟨r, s', evs, hm, hg, hr, hg, hr₁⟩

theorem of_emits {m : TurnM α} {R' : List Mark → Except Err α → Turn → Prop}
    (H : m.Emits p R' s) :
    m.Plays O p h (fun evs r s' => O.Gave h evs ∧ R' (marks evs) r s') s := by
  obtain ⟨r, s', evs, hm, hg, hr⟩ := play_turn (O := O) H h
  exact ⟨r, s', evs, hm, hg, hg, hr⟩

theorem pure {a : α} (H : R [] (.ok a) s) : (Pure.pure a : TurnM α).Plays O p h R s :=
  ⟨.ok a, s, [], rfl, trivial, H⟩

theorem throw {e : Err} (H : R [] (.error e) s) :
    (MonadExcept.throw e : TurnM α).Plays O p h R s :=
  ⟨.error e, s, [], rfl, trivial, H⟩

/-- **Sequencing.** -/
theorem bind {m : TurnM β} {f : β → TurnM α} {S : Hist → Except Err β → Turn → Prop}
    (H : m.Plays O p h S s)
    (hf : ∀ evs b s', S evs (.ok b) s' →
      (f b).Plays O p (evs ++ h) (fun evs' => R (evs' ++ evs)) s')
    (he : ∀ evs e s', S evs (.error e) s' → R evs (.error e) s') : (m >>= f).Plays O p h R s := by
  obtain ⟨r, s', evs, hm, hg, hr⟩ := H
  have hplay : play O p ((m >>= f) s) h = play O p (ExceptT.bindCont f r s') (evs ++ h) := by
    change play O p (m s >>= fun x => ExceptT.bindCont f x.1 x.2) h = _
    rw [play_bind, hm]
  cases r with
  | ok b =>
    obtain ⟨r', s'', evs', hf', hg', hr'⟩ := hf evs b s' hr
    refine ⟨r', s'', evs' ++ evs, ?_, hg.append hg', hr'⟩
    rw [hplay, List.append_assoc]
    exact hf'
  | error e => exact ⟨.error e, s', evs, hplay, hg, he evs e s' hr⟩

theorem attempt_bind {m : TurnM β} {f : Except Err β → TurnM α}
    {S : Hist → Except Err β → Turn → Prop} (H : m.Plays O p h S s)
    (hf : ∀ evs r s', S evs r s' →
      (f r).Plays O p (evs ++ h) (fun evs' => R (evs' ++ evs)) s') :
    (TurnM.attempt m >>= f).Plays O p h R s := by
  obtain ⟨r, s', evs, hm, hg, hr⟩ := H
  obtain ⟨r', s'', evs', hf', hg', hr'⟩ := hf evs r s' hr
  refine ⟨r', s'', evs' ++ evs, ?_, hg.append hg', hr'⟩
  rw [play_attempt_bind hm, List.append_assoc]
  exact hf'

theorem get_bind {f : Turn → TurnM α} (H : (f s).Plays O p h R s) :
    (get >>= f).Plays O p h R s := H

theorem modify_bind {g : Turn → Turn} {f : Unit → TurnM α} (H : (f ()).Plays O p h R (g s)) :
    (modify g >>= f).Plays O p h R s := H

/-- A program on the database that returns. -/
theorem lift {m : Session α} {a : α} {evs : Hist} (hm : play O p m h = (.ok a, evs ++ h))
    (H : R evs (.ok a) s) : (TurnM.lift m).Plays O p h R s := by
  obtain ⟨evs', hevs, hg⟩ := play_gave (O := O) (p := p) m h
  rw [hm, List.append_cancel_right_eq] at hevs
  subst hevs
  refine ⟨.ok a, s, evs, ?_, hg, H⟩
  change play O p (tryCatch (m >>= fun a => Pure.pure (Except.ok a, s)) fun e =>
    Pure.pure (.error e, s)) h = _
  rw [play_tryCatch, play_bind, hm]
  rfl

end TurnM.Plays

/-! ## Messages that fit -/

section Turn

variable {O : Oracle Row Answer} {p : ℕ} {h : Hist} {e : TurnContext} {s : Turn}

theorem play_run {q : Stmt Row} {x : q.Res} (hx : O.stmt h q = some x) :
    play O p (run q : Session q.Res) h = (.ok x, .ran p q x :: h) := by
  simp only [run, play, hx]

theorem addMessage_plays (hO : Obliging O p) (hs : Intact p h) {f : Uuid → Time → Message}
    (hf : ∀ id createdAt, (f id createdAt).Fits) :
    ∃ m evs, play O p (addMessage f) h = (.ok m, evs ++ h) := by
  let id := O.call h .uuid4
  let createdAt := O.call (.called p .uuid4 id :: h) (.utcnow .created)
  have hs' : Intact p (.called p (.utcnow .created) createdAt :: .called p .uuid4 id :: h) :=
    (hs.cons (by simp [callMark])).cons (by simp [callMark])
  obtain ⟨x, hx⟩ := Option.ne_none_iff_exists'.1 ((hO.stores _ id _ hs').2 (hf id createdAt))
  refine ⟨f id createdAt, [.ran p _ x, .called p (.utcnow .created) createdAt,
    .called p .uuid4 id], ?_⟩
  change play O p (run (.insert [⟨.message id, f id createdAt⟩]) >>= fun _ =>
    pure (f id createdAt)) _ = _
  rw [play_bind, play_run hx]
  rfl

theorem storeToolCalls_plays (hO : Obliging O p) {calls : List ToolCallRequest}
    (hfits : ∀ call ∈ calls, ∀ id createdAt,
      (e.assistantMessage s s.accumulatedText "tool_calls" (some call) id createdAt).Fits)
    (hs : Intact p h) :
    (storeToolCalls e calls).Plays O p h (fun _ r _ => r = .ok ()) s := by
  induction calls generalizing h with
  | nil => exact TurnM.Plays.pure rfl
  | cons call calls ih =>
    obtain ⟨hcall, hcalls⟩ := List.forall_mem_cons.1 hfits
    obtain ⟨m, evs, hplay⟩ := addMessage_plays hO hs hcall
    refine TurnM.Plays.get_bind (TurnM.Plays.bind (TurnM.Plays.and_emits (TurnM.Plays.lift
      (R := fun _ r s' => s' = s ∧ r.isOk = true) hplay ⟨rfl, rfl⟩)
      (addAssistantMessage_emits e s.accumulatedText "tool_calls" (some call) s)) ?_ ?_)
    · rintro evs b s' ⟨⟨rfl, -⟩, -, -, ⟨id, createdAt, -, hms⟩ | ⟨hr, -⟩⟩
      · exact ih hcalls (hs.append (by simp [hms]))
      · cases hr
    · rintro evs err s' ⟨⟨-, hr⟩, -⟩
      cases hr

/-! ## Answers -/

variable [Deployment]

/-- The message answers the call; invalid arguments are answered with what is wrong. -/
structure AnsweredBy (call : ToolCallRequest) (m : Message) : Prop where
  toolCallId : m.toolCallId = some call.callId
  invalid : isReadTool call.name → ∀ reason,
    Deployment.listMyOpenTasksArgs call.argumentsJson = .error reason →
      m.content = "Tool error: " ++ (call.name ++ ": " ++ reason)

omit [Deployment] in
theorem name_of_read {name : String} (h : isReadTool name) : name = "list_my_open_tasks" := by
  simpa [isReadTool, readTools] using h

/-- The messages of tools. -/
def toolMessages (ms : List Mark) : List Message := (storedMessages ms).filter (·.role = .TOOL)

omit [Deployment] in
@[simp] theorem toolMessages_append (ms ms' : List Mark) :
    toolMessages (ms ++ ms') = toolMessages ms ++ toolMessages ms' := by
  rw [toolMessages, storedMessages_append, List.filter_append, toolMessages, toolMessages]

/-- What a read tool says of invalid arguments is its answer. -/
theorem readToolAnswer_invalid {call : ToolCallRequest} {reason : String}
    (hread : isReadTool call.name)
    (hargs : Deployment.listMyOpenTasksArgs call.argumentsJson = .error reason)
    (workspaceId : Uuid) :
    (tryCatch (dispatchReadTool call.name call.argumentsJson workspaceId) fun err =>
      if err.isException then pure ("Tool error: " ++ err.text) else throw err) =
      (pure ("Tool error: " ++ (call.name ++ ": " ++ reason)) : Session String) := by
  rw [dispatchReadTool, if_neg (not_not.2 hread), hargs]
  simp only [Err.text, toString]
  rfl

/-- **The read calls are answered one by one**, until an answer is not stored. -/
theorem answerReadCalls_answered (e : TurnContext) (calls : List ToolCallRequest) (s : Turn) :
    (answerReadCalls e calls).Emits p (fun ms r _ =>
      (r = .ok () ∧ List.Forall₂ AnsweredBy calls (toolMessages ms)) ∨
        (r = .error .database ∧ (toolMessages ms).length < calls.length)) s := by
  induction calls generalizing s with
  | nil => exact TurnM.Emits.pure (.inl ⟨rfl, .nil⟩)
  | cons call calls ih =>
    have hanswer : (TurnM.lift (tryCatch (dispatchReadTool call.name call.argumentsJson
        e.context.workspaceId) fun err =>
          if err.isException then pure ("Tool error: " ++ err.text) else throw err)).Emits p
        (fun ms r s' => s' = s ∧ toolMessages ms = [] ∧ ∃ text, r = .ok text ∧
          AnsweredBy call (e.toolMessage call text 0 0)) s := by
      by_cases hinvalid : isReadTool call.name ∧ ∃ reason,
          Deployment.listMyOpenTasksArgs call.argumentsJson = .error reason
      · obtain ⟨hread, reason, hargs⟩ := hinvalid
        rw [readToolAnswer_invalid hread hargs]
        refine TurnM.Emits.lift (Q := fun ms text => ms = [] ∧
          text = "Tool error: " ++ (call.name ++ ": " ++ reason)) (X := fun _ _ => False)
          (Emits.pure_iff.2 ⟨rfl, rfl⟩) ?_ fun _ _ => False.elim
        rintro _ _ ⟨rfl, rfl⟩
        refine ⟨rfl, rfl, _, rfl, rfl, fun _ reason' hargs' => ?_⟩
        obtain rfl := Except.error.inj (hargs.symm.trans hargs')
        rfl
      · refine TurnM.Emits.lift (readToolAnswer_emits call _) ?_ fun _ _ => False.elim
        intro ms text hms
        refine ⟨rfl, ?_, text, rfl, rfl, fun hread reason hargs => ?_⟩
        · rw [toolMessages, storedMessages, List.filterMap_eq_nil_iff.2]
          · rfl
          · intro m hm
            have := hms m hm
            cases m <;> first | rfl | exact this.elim
        · exact absurd ⟨hread, reason, hargs⟩ hinvalid
    refine TurnM.Emits.bind hanswer ?_ ?_
    · rintro mf text _ ⟨rfl, hmf, _, ⟨⟩, hby⟩
      refine TurnM.Emits.bind (TurnM.Emits.lift (addMessage_emits _)
        (R := fun ms r _ =>
          (∃ id createdAt, ms = [.stored (e.toolMessage call text id createdAt)] ∧ r.isOk) ∨
            (r = .error .database ∧ ms = [.failed])) ?_ ?_) ?_ ?_
      · rintro _ _ ⟨id, createdAt, rfl, rfl⟩
        exact .inl ⟨id, createdAt, rfl, rfl⟩
      · rintro _ _ ⟨rfl, rfl⟩
        exact .inr ⟨rfl, rfl⟩
      · rintro _ _ s' (⟨id, createdAt, rfl, -⟩ | ⟨hr, -⟩)
        · refine TurnM.Emits.modify_bind ((ih _).mono fun ms r s'' h => ?_)
          have htools : toolMessages (mf ++ ([.stored (e.toolMessage call text id createdAt)] ++
              ms)) = e.toolMessage call text id createdAt :: toolMessages ms := by
            rw [toolMessages_append, hmf, toolMessages_append]
            rfl
          rw [htools]
          rcases h with ⟨rfl, h⟩ | ⟨rfl, h⟩
          · exact .inl ⟨rfl, .cons ⟨hby.1, hby.2⟩ h⟩
          · exact .inr ⟨rfl, Nat.succ_lt_succ h⟩
        · cases hr
      · rintro _ err _ (⟨id, createdAt, -, hr⟩ | ⟨hr, rfl⟩)
        · cases hr
        · obtain rfl := Except.error.inj hr
          refine .inr ⟨rfl, ?_⟩
          rw [toolMessages_append, hmf]
          exact Nat.succ_pos _
    · rintro mf err _ ⟨-, -, _, hr, -⟩
      cases hr

/-- A read tool answers, and its answer can be stored if the complaint can. -/
theorem readToolAnswer_plays (hO : Obliging O p) (hs : Intact p h) {call : ToolCallRequest}
    (hread : isReadTool call.name) (workspaceId : Uuid) :
    ∃ text evs, play O p (tryCatch (dispatchReadTool call.name call.argumentsJson workspaceId)
      fun err => if err.isException then pure ("Tool error: " ++ err.text) else throw err) h =
        (.ok text, evs ++ h) ∧ .failed ∉ marks evs ∧
      ((∀ reason, Deployment.listMyOpenTasksArgs call.argumentsJson = .error reason →
        Storable reason) → Storable text) := by
  cases hargs : Deployment.listMyOpenTasksArgs call.argumentsJson with
  | error reason =>
    rw [readToolAnswer_invalid hread hargs]
    refine ⟨_, [], rfl, List.not_mem_nil, fun hreason => ?_⟩
    rw [name_of_read hread, storable_append, storable_append, storable_append]
    exact ⟨by decide, ⟨by decide, by decide⟩, hreason reason rfl⟩
  | ok limit =>
    obtain ⟨db, hdb⟩ := Option.ne_none_iff_exists'.1 (hO.views h hs)
    have hs' : Intact p (.ran p .view db :: h) := hs.cons (by simp [stmtMark])
    obtain ⟨db', hdb'⟩ := Option.ne_none_iff_exists'.1 (hO.views _ hs')
    have htitle : ∀ t ∈ ((listTasks db workspaceId .TODO limit ++
        listTasks db' workspaceId .IN_PROGRESS limit).take limit), Storable t.title := by
      intro t ht
      rcases List.mem_append.1 (List.mem_of_mem_take ht) with ht | ht
      · exact hO.storable_title hdb ht
      · exact hO.storable_title hdb' ht
    have hplay : ∃ text, play O p (dispatchReadTool call.name call.argumentsJson workspaceId) h =
        (.ok text, [.ran p .view db', .ran p .view db] ++ h) ∧ Storable text := by
      rw [dispatchReadTool, if_neg (not_not.2 hread), hargs]
      dsimp only
      rw [play_bind, play_run hdb]
      dsimp only
      rw [play_bind, play_run hdb']
      dsimp only
      split
      · exact ⟨_, rfl, by decide⟩
      · refine ⟨_, rfl, storable_intercalate (by decide) ?_⟩
        rintro _ hline
        obtain ⟨t, ht, rfl⟩ := List.mem_map.1 hline
        exact storable_taskLine (htitle t ht)
    obtain ⟨text, hplay, htext⟩ := hplay
    refine ⟨text, [.ran p .view db', .ran p .view db], ?_, by simp [marks, trace, stmtMark],
      fun _ => htext⟩
    rw [play_tryCatch, hplay]

/-- The answer to a read call goes into its columns. -/
structure ToolCallRequest.Fits (call : ToolCallRequest) : Prop where
  callId : FitsIn 128 call.callId
  complaint : ∀ reason, Deployment.listMyOpenTasksArgs call.argumentsJson = .error reason →
    Storable reason

/-- Calls of read tools whose answers fit are answered; and where all are, no statement has
failed. -/
theorem answerReadCalls_plays (hO : Obliging O p) {calls : List ToolCallRequest}
    (hread : ∀ call ∈ calls, isReadTool call.name) (hs : Intact p h) :
    (answerReadCalls e calls).Plays O p h (fun evs r _ =>
      (r = .ok () → .failed ∉ marks evs) ∧ ((∀ call ∈ calls, call.Fits) → r = .ok ())) s := by
  induction calls generalizing h s with
  | nil => exact TurnM.Plays.pure ⟨fun _ => List.not_mem_nil, fun _ => rfl⟩
  | cons call calls ih =>
    rw [List.forall_mem_cons] at hread
    obtain ⟨text, evs, hplay, hevs, htext⟩ :=
      readToolAnswer_plays hO hs hread.1 e.context.workspaceId
    refine TurnM.Plays.bind (TurnM.Plays.lift
      (R := fun evs r _ => r = .ok text ∧ .failed ∉ marks evs) hplay ⟨rfl, hevs⟩) ?_ ?_
    · rintro evs _ s' ⟨⟨⟩, hevs⟩
      have hs' := hs.append hevs
      have hstore : (TurnM.lift (addMessage (e.toolMessage call text))).Plays O p (evs ++ h)
          (fun evs' r _ => (r.isOk = true → .failed ∉ marks evs') ∧
            (call.Fits → r.isOk = true)) s' := by
        have hemits : (TurnM.lift (addMessage (e.toolMessage call text))).Emits p
            (fun ms r _ => r.isOk = true → .failed ∉ ms) s' := by
          refine TurnM.Emits.lift (addMessage_emits (e.toolMessage call text)) ?_ ?_
          · rintro _ _ ⟨id, createdAt, -, rfl⟩ -
            simp
          · rintro _ _ - hr
            cases hr
        by_cases hfits : call.Fits
        · obtain ⟨m, evs', hplay'⟩ := addMessage_plays hO hs'
            (f := e.toolMessage call text) fun id createdAt => {
              content := htext hfits.complaint
              toolCallId := by rintro _ ⟨⟩; exact hfits.callId
              toolName := by rintro _ ⟨⟩
              toolArgumentsJson := by rintro _ ⟨⟩
              model := by rintro _ ⟨⟩
              finishReason := by rintro _ ⟨⟩ }
          refine (TurnM.Plays.and_emits (TurnM.Plays.lift (R := fun _ r _ => r.isOk = true)
            hplay' rfl) hemits).mono ?_
          rintro _ _ _ ⟨hr, -, hfailed⟩
          exact ⟨hfailed, fun _ => hr⟩
        · refine (TurnM.Plays.of_emits hemits).mono ?_
          rintro _ _ _ ⟨-, hfailed⟩
          exact ⟨hfailed, fun h => absurd h hfits⟩
      refine TurnM.Plays.bind hstore ?_ ?_
      · rintro evs' _ s'' ⟨hfailed, -⟩
        have hevs' := hfailed rfl
        refine TurnM.Plays.modify_bind ((ih hread.2 (hs'.append hevs')).mono ?_)
        rintro evs'' r _ ⟨hok, hfits⟩
        refine ⟨fun hr => ?_, fun h => hfits fun c hc => h c (List.mem_cons_of_mem _ hc)⟩
        rw [marks_append, marks_append]
        simp [hevs, hevs', hok hr]
      · rintro _ err _ ⟨-, hfits⟩
        refine ⟨nofun, fun h => ?_⟩
        cases hfits (h call List.mem_cons_self)
    · rintro _ _ _ ⟨hr, -⟩
      cases hr

end Turn

end Doda
