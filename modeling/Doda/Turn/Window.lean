import Doda.Turn.Dialogue

/-!
# The window of a history

Of a long conversation a turn sends its newest messages only, as many as a number of
characters allows.  The messages are listed by a query with a limit of its own, oldest
first; so what is sent is the newest of the conversation where the query lists all of it.

## Main definitions

* `NewestWithin` — the longest suffix within a budget.
* `FirstRound` — the gateway calls of round 0.
* `newest_messages_sent_iff` — when a turn sends the newest messages.
-/

namespace Doda

open ReadCommitted

/-! ## The longest suffix within a budget -/

/-- `w` is the longest suffix of `l` that costs at most `budget`, with the last element
whatever it costs. -/
structure NewestWithin {α : Type} (cost : α → ℕ) (budget : ℕ) (l w : List α) : Prop where
  suffix : w <:+ l
  newest : l ≠ [] → w ≠ []
  within : (w.map cost).sum ≤ budget ∨ w.length = 1
  longest : ∀ w', w <:+ w' → w' <:+ l → w' ≠ w → budget < (w'.map cost).sum

section Window

variable {maxChars total : ℕ} {ms : List Message}

/-- What is taken after the first message fits. -/
theorem sum_takeWithin_le (h : total ≤ maxChars) :
    total + ((takeWithin maxChars total false ms).map Message.chars).sum ≤ maxChars := by
  induction ms generalizing total with
  | nil => simpa [takeWithin] using h
  | cons m ms ih =>
    rw [takeWithin]
    by_cases hm : total + m.chars > maxChars
    · rw [if_pos ⟨by simp, hm⟩]
      simpa using h
    · rw [if_neg fun hc => hm hc.2, List.map_cons, List.sum_cons, ← Nat.add_assoc]
      exact ih (Nat.not_lt.1 hm)

/-- Nothing fits any more. -/
theorem takeWithin_eq_nil (h : maxChars < total) : takeWithin maxChars total false ms = [] := by
  cases ms with
  | nil => rfl
  | cons m ms =>
    rw [takeWithin, if_pos]
    refine ⟨by simp, ?_⟩
    omega

/-- Taking more would be too much. -/
theorem lt_sum_of_takeWithin_prefix {w : List Message}
    (hw : takeWithin maxChars total false ms <+: w) (hms : w <+: ms)
    (hne : w ≠ takeWithin maxChars total false ms) :
    maxChars < total + (w.map Message.chars).sum := by
  induction ms generalizing total w with
  | nil =>
    rw [List.prefix_nil.1 hms] at hne
    exact absurd rfl hne
  | cons m ms ih =>
    rw [takeWithin] at hw hne
    rcases List.prefix_cons_iff.1 hms with rfl | ⟨w, rfl, hrest⟩
    · rw [List.prefix_nil.1 hw] at hne
      exact absurd rfl hne
    · rw [List.map_cons, List.sum_cons, ← Nat.add_assoc]
      by_cases hm : total + m.chars > maxChars
      · omega
      · rw [if_neg fun hc => hm hc.2] at hw hne
        refine ih ((List.prefix_cons_inj m).1 hw) hrest fun heq => hne ?_
        rw [heq]
        rfl

/-- **What is kept** of the messages of a list is the newest of them. -/
theorem kept_newestWithin (maxChars : ℕ) (ms : List Message) :
    NewestWithin Message.chars maxChars ms (kept maxChars ms) := by
  rcases List.eq_nil_or_concat ms with rfl | ⟨ms, m, rfl⟩
  · refine ⟨List.suffix_refl _, fun h => absurd rfl h, .inl ?_, fun w' _ hw' hne => ?_⟩
    · simp [kept, takeWithin]
    · exact absurd (List.suffix_nil.1 hw') hne
  · rw [List.concat_eq_append]
    have hkept : (kept maxChars (ms ++ [m])).reverse =
        m :: takeWithin maxChars m.chars false ms.reverse := by
      rw [kept, List.reverse_reverse, List.reverse_append, List.reverse_singleton,
        List.singleton_append, takeWithin, if_neg (by simp), Nat.zero_add]
      rfl
    have hsum : ∀ w : List Message, (w.map Message.chars).sum =
        (w.reverse.map Message.chars).sum := fun w => by
      rw [List.map_reverse, List.sum_reverse]
    refine ⟨kept_suffix .., fun _ => kept_concat _ _ _, ?_, ?_⟩
    · rw [hsum, ← List.length_reverse, hkept, List.map_cons, List.sum_cons]
      by_cases hm : m.chars ≤ maxChars
      · exact .inl (sum_takeWithin_le hm)
      · rw [takeWithin_eq_nil (Nat.not_le.1 hm)]
        exact .inr rfl
    · intro w hw hms hne
      rw [hsum]
      rw [← List.reverse_prefix, hkept] at hw
      rw [← List.reverse_prefix, List.reverse_append, List.reverse_singleton,
        List.singleton_append] at hms
      have hne' : w.reverse ≠ m :: takeWithin maxChars m.chars false ms.reverse := by
        rw [← hkept]
        exact fun h => hne (List.reverse_injective h)
      generalize w.reverse = w at hw hms hne' ⊢
      obtain ⟨w, rfl⟩ : ∃ w', w = m :: w' := by
        obtain ⟨u, rfl⟩ := hw
        exact ⟨_, rfl⟩
      rw [List.map_cons, List.sum_cons]
      refine lt_sum_of_takeWithin_prefix ((List.prefix_cons_inj m).1 hw)
        ((List.prefix_cons_inj m).1 hms) fun h => hne' ?_
      rw [h]

/-- Of a longer list, the messages kept of its first `n` are not the newest. -/
theorem not_newestWithin_take {n : ℕ} (hnodup : ms.Nodup) (hn : 0 < n) (hlen : n < ms.length) :
    ¬ NewestWithin Message.chars maxChars ms (kept maxChars (ms.take n)) := by
  intro h
  have hne : ms.take n ≠ [] := by
    intro hnil
    have := congrArg List.length hnil
    rw [List.length_take, List.length_nil] at this
    omega
  have hkept := (kept_newestWithin maxChars (ms.take n)).newest hne
  -- the last of them would be the last of the list too
  obtain ⟨w, m, hw⟩ := (List.eq_nil_or_concat _).resolve_left hkept
  rw [List.concat_eq_append] at hw
  have hmem : m ∈ ms.take n :=
    (kept_newestWithin maxChars (ms.take n)).suffix.subset (hw ▸ by simp)
  obtain ⟨u, hu⟩ := h.suffix
  have hlast : m ∈ ms.drop n := by
    have hdrop : ms.drop n ≠ [] := by
      intro hnil
      have := List.drop_eq_nil_iff.1 hnil
      omega
    have heq : ms.getLast? = some m := by
      rw [← hu, hw, ← List.append_assoc, List.getLast?_concat]
    rw [← List.take_append_drop n ms, List.getLast?_append_of_ne_nil _ hdrop] at heq
    exact List.mem_of_getLast? heq
  have hdisj := List.disjoint_take_drop hnodup (le_refl n)
  exact hdisj hmem hlast

end Window

/-! ## Round 0 -/

section Turn

variable [Sha256] [JsonText] [Deployment] {e : TurnContext} {s s' : Turn} {ms ms' : List Mark}
  {r : Except Err Unit} {history : List ChatTurn}

/-- Every call of round 0, before which no message of the turn is stored, is sent this
history. -/
def FirstRound (history : List ChatTurn) (ms : List Mark) : Prop :=
  ∀ ms₁ q x ms₂, ms = ms₁ ++ .call q x :: ms₂ → storedMessages ms₁ = [] → q.history = history

omit [Sha256] [JsonText] [Deployment] in
theorem FirstRound.of_append (h : FirstRound history (ms ++ ms')) : FirstRound history ms := by
  rintro ms₁ q x ms₂ rfl hstored
  exact h ms₁ q x (ms₂ ++ ms') (by simp) hstored

omit [Sha256] [JsonText] [Deployment] in
theorem FirstRound.append (h : FirstRound history ms)
    (h' : storedMessages ms = [] → FirstRound history ms') : FirstRound history (ms ++ ms') := by
  intro ms₁ q x ms₂ heq hstored
  rcases List.append_eq_append_iff.1 heq with ⟨u, rfl, hu⟩ | ⟨u, rfl, hu⟩
  · rw [storedMessages_append, List.append_eq_nil_iff] at hstored
    exact h' hstored.1 u q x ms₂ hu hstored.2
  · cases u with
    | nil => exact h' (by rwa [List.append_nil]) [] q x ms₂ hu.symm rfl
    | cons m u =>
      obtain ⟨rfl, -⟩ := List.cons.inj hu
      exact h ms₁ q x u rfl hstored

omit [Sha256] [JsonText] [Deployment] in
theorem FirstRound.of_calls (h : ∀ x ∈ gatewayCalls ms, x.1.history = history) :
    FirstRound history ms := by
  rintro ms₁ q x ms₂ rfl -
  exact h (q, x) (mem_gatewayCalls.2 (by simp))

omit [Sha256] [JsonText] [Deployment] in
theorem FirstRound.append_right (h : FirstRound history ms) (h' : gatewayCalls ms' = []) :
    FirstRound history (ms ++ ms') :=
  h.append fun _ => .of_calls (h' ▸ List.forall_mem_nil _)

omit [Sha256] [JsonText] in
/-- A round makes one call, with the history it begins with. -/
theorem Round.calls_history {o : Option (Except Err Unit)} (h : Round e s ms o s') :
    ∀ x ∈ gatewayCalls ms, x.1.history = s.history := by
  obtain ⟨ma, x, rest, ha, rfl, hrest⟩ := h.asks
  rw [gatewayCalls_append, gatewayCalls_of_follows hrest, List.append_nil]
  cases ha <;> simp [gatewayCalls, TurnContext.request]

omit [Sha256] [JsonText] in
/-- A round after which the loop goes on has stored its tool calls. -/
theorem Round.stored_ne_nil (h : Round e s ms none s') : storedMessages ms ≠ [] := by
  cases h with
  | @next ma mp ms mr x s₁ s' ha hp hc hs hw hr =>
    intro hnil
    rw [storedMessages_append, storedMessages_append, List.append_eq_nil_iff,
      List.append_eq_nil_iff] at hnil
    have hlen := hs.rows.length_eq
    rw [hnil.1.2, List.length_nil] at hlen
    exact hc (List.length_eq_zero_iff.1 hlen)

omit [Sha256] [JsonText] in
theorem Rounds.firstRound {n : ℕ} (h : Rounds e n s ms r s') : FirstRound s.history ms := by
  cases h with
  | exhausted hf =>
    refine .of_calls ?_
    rw [gatewayCalls_of_follows hf.follows]
    exact List.forall_mem_nil _
  | ends h => exact .of_calls h.calls_history
  | next h hrest =>
    exact (FirstRound.of_calls h.calls_history).append fun hnil => absurd hnil h.stored_ne_nil

omit [Sha256] [JsonText] in
/-- **Round 0** is sent the history that the turn begins with, by whichever provider it is
run. -/
theorem Loop.firstRound (h : Loop e s ms r s') : FirstRound s.history ms := by
  cases h with
  | done h | raised h => exact h.firstRound
  | optedOut h => exact h.firstRound.append_right rfl
  | unpicked h _ x _ hp => exact h.firstRound.append_right (hp.gatewayCalls x)
  | unread h _ hmf => exact h.firstRound.append_right (Mark.Setting.no_calls hmf)
  | @fallback ms err s₁ mp provider ms' r s' h hm x hx hp h' =>
    obtain ⟨hhist, -⟩ := h.broke_off le_rfl hm
    have hmoved : (s₁.moveTo provider).history = s.history := hhist
    refine (h.firstRound.append_right (hp.gatewayCalls x)).append fun _ => ?_
    exact hmoved ▸ h'.firstRound

omit [Sha256] [JsonText] in
theorem Turns.firstRound (h : Turns e s ms r s') : FirstRound s.history ms := by
  cases h with
  | settled hl hs => exact hl.firstRound.append_right hs.calls

/-! ## What a turn sends -/

variable {p : ℕ} {context : WorkspaceContext} {conversation : Conversation} {traceId : Uuid}
  {content : String} {mode : ChatMode}

/-- What a turn reads and sends, of a conversation with the messages `all`: the rows kept
of the page that is listed. -/
structure SendsWindow (maxChars : ℕ) (all rows : List Message) (history : List ChatTurn) :
    Prop where
  rows_eq : rows = kept maxChars (all.take maxPageSize)
  history_eq : history = rows.map Message.toTurn

/-- **The newest messages are sent**: the rows that the history stands for are the longest
suffix of the conversation within the budget, and the history ends with the message
posted. -/
structure SendsNewest (maxChars : ℕ) (content : String) (all rows : List Message)
    (history : List ChatTurn) : Prop where
  window : NewestWithin Message.chars maxChars all rows
  last : history.getLast? = some { role := .USER, content }

omit [Sha256] [JsonText] [Deployment] in
theorem SendsWindow.newest_iff {maxChars : ℕ} {msgs rows : List Message} {m : Message}
    (h : SendsWindow maxChars (msgs ++ [m]) rows history) (hord : InOrder (msgs ++ [m]))
    (hm : m.toTurn = { role := .USER, content }) :
    SendsNewest maxChars content (msgs ++ [m]) rows history ↔
      (msgs ++ [m]).length ≤ maxPageSize := by
  obtain ⟨rfl, rfl⟩ := h
  constructor
  · intro h
    by_contra hlen
    have hnodup : (msgs ++ [m]).Nodup := hord.imp fun hlt heq => by
      rw [heq] at hlt
      exact lt_irrefl _ hlt
    exact not_newestWithin_take hnodup (by decide) (Nat.not_le.1 hlen) h.window
  · intro hlen
    rw [List.take_of_length_le hlen]
    have hnew := kept_newestWithin maxChars (msgs ++ [m])
    refine ⟨hnew, ?_⟩
    obtain ⟨u, hu⟩ := hnew.suffix
    have hne := hnew.newest (by simp)
    obtain ⟨w, m', hw⟩ := (List.eq_nil_or_concat _).resolve_left hne
    rw [List.concat_eq_append] at hw
    rw [hw, ← List.append_assoc] at hu
    obtain ⟨-, heq⟩ := List.append_inj' hu rfl
    obtain rfl := List.singleton_inj.1 heq
    rw [hw, List.map_append, List.map_singleton, List.getLast?_concat, hm]

/-- **When the newest messages are sent.**  A turn reads the page of the oldest messages of
its conversation, and sends what it keeps of them to every gateway call of round 0; these
are the newest messages, and end with the one just posted, if and only if the conversation
is no longer than the page. -/
theorem newest_messages_sent_iff {h evs₀ evs₁ : Hist} {msgs : List Message}
    {m : Session (Except Err Unit × Turn)}
    (hb : Runs p (beginTurn context conversation traceId content mode) h (pure (e, s))
      (evs₀ ++ h))
    (hr : Runs p (runTurn e s) (evs₀ ++ h) m (evs₁ ++ (evs₀ ++ h)))
    (hrec : TurnRecorded conversation.id msgs (marks evs₀)) :
    FirstRound s.history (marks evs₁) ∧ ∃ posted rows,
      storedMessages (marks evs₀) = [posted] ∧
      SendsWindow settings.maxContextChars (msgs ++ [posted]) rows s.history ∧
      (SendsNewest settings.maxContextChars content (msgs ++ [posted]) rows s.history ↔
        (msgs ++ [posted]).length ≤ maxPageSize) := by
  have hbegins : Begins context conversation traceId content mode (marks evs₀) e s :=
    (beginTurn_emits ..).returned hb
  obtain ⟨posted, hposted, hturn, hhist⟩ := hbegins.history_eq hrec
  have hwindow : SendsWindow settings.maxContextChars (msgs ++ [posted])
      (kept settings.maxContextChars ((msgs ++ [posted]).take maxPageSize)) s.history :=
    ⟨rfl, hhist⟩
  refine ⟨?_, posted, _, hposted, hwindow, hwindow.newest_iff (hposted ▸ hrec.ordered) hturn⟩
  exact (Emits.mono (runTurn_emits e s) (fun _ _ h => h.firstRound)
    fun _ _ => False.elim).throughout (fun _ _ h => h.of_append) hr

end Turn

/-! ## Sample turns -/

section Rows

/-- A database that holds these messages. -/
def messageRows (ms : List Message) : Db := ms.map fun m => ⟨.message m.id, some m⟩

/-- The message of a version, filed under its identifier. -/
def versionMessage : Version Row → Option Message
  | ⟨.message id, some (m : Message)⟩ => if m.id = id then some m else none
  | _ => none

theorem eq_of_versionMessage {v : Version Row} {m : Message} (h : versionMessage v = some m) :
    v = ⟨.message m.id, some m⟩ := by
  obtain ⟨k, v⟩ := v
  cases k with
  | message id =>
    cases v with
    | none => simp [versionMessage] at h
    | some v =>
      rw [versionMessage] at h
      split at h
      · rename_i hid
        obtain rfl := Option.some.inj h
        rw [hid]
      · simp at h
  | _ => simp [versionMessage] at h

/-- The messages of a database that holds nothing else. -/
def rowMessages (db : Db) : List (Option Message) := db.map versionMessage

theorem eq_messageRows {db : Db} {ms : List Message} (h : rowMessages db = ms.map some) :
    db = messageRows ms := by
  induction db generalizing ms with
  | nil =>
    rw [List.map_eq_nil_iff.1 h.symm]
    rfl
  | cons v db ih =>
    cases ms with
    | nil => simp [rowMessages] at h
    | cons m ms =>
      obtain ⟨hm, hrest⟩ := List.cons.inj h
      rw [eq_of_versionMessage hm, ih hrest]
      rfl

/-- They are the messages of their conversation. -/
theorem messagesOf_messageRows {ms : List Message} {conversationId : Uuid}
    (hids : (ms.map (·.id)).Nodup) (hconv : ∀ m ∈ ms, m.conversationId = conversationId) :
    (messagesOf (messageRows ms) conversationId).Perm ms := by
  have hkeys : (keys (messageRows ms)).Nodup := by
    have : keys (messageRows ms) = (ms.map (·.id)).map Key.message := by
      simp [messageRows, keys, Function.comp_def]
    rw [this]
    exact hids.map fun _ _ h => Key.message.inj h
  refine (collect_perm_logged (P := fun _ => true) (fun _ _ _ _ => rfl) (hkeys.filter _)).trans ?_
  rw [logged, messageRows, ← List.map_reverse, List.filterMap_map]
  have hall : ∀ l : List Message, (∀ m ∈ l, m.conversationId = conversationId) →
      l.filterMap (fun m => if m.conversationId = conversationId then some m else none) = l := by
    intro l hl
    induction l with
    | nil => rfl
    | cons m l ih =>
      rw [List.filterMap_cons, if_pos (hl m (List.mem_cons_self ..))]
      exact congrArg _ (ih fun m' hm' => hl m' (List.mem_cons_of_mem _ hm'))
  exact (List.Perm.of_eq (hall _ fun m hm => hconv m (List.mem_reverse.1 hm))).trans
    (List.reverse_perm ms)

end Rows

section Sample

attribute [local instance] plainSha plainJsonText

theorem views_of_viewed {conversationId : Uuid} {msgs : List Message} {ms : List Mark}
    (hstored : storedMessages ms = [])
    (hviews : ∀ db, .viewed db ∈ ms → (messagesOf db conversationId).Perm msgs) :
    Views conversationId msgs ms := by
  induction ms with
  | nil => trivial
  | cons a ms ih =>
    have hrest := fun db hdb => hviews db (List.mem_cons_of_mem _ hdb)
    cases a with
    | stored m => simp [storedMessages] at hstored
    | viewed db => exact ⟨hviews db (List.mem_cons_self ..), ih hstored hrest⟩
    | _ => exact ih hstored hrest

theorem Begins.recorded [Deployment] {context : WorkspaceContext} {conversation : Conversation}
    {traceId : Uuid} {content : String} {mode : ChatMode} {ms : List Mark} {e : TurnContext}
    {s : Turn} {msgs : List Message} (h : Begins context conversation traceId content mode ms e s)
    (hviews : ∀ db, .viewed db ∈ ms →
      (messagesOf db conversation.id).Perm (msgs ++ storedMessages ms))
    (hord : InOrder (msgs ++ storedMessages ms)) : TurnRecorded conversation.id msgs ms := by
  refine ⟨?_, hord⟩
  cases h with
  | @begun mf mr _ id createdAt hmf choice x hx _ db _ _ _ _ _ _ hr =>
    have hrest : storedMessages (mf ++ .providerSetting context.customerId choice.provider x ::
        .viewed db :: mr) = [] := by
      rw [storedMessages_append, storedMessages_of_slight hmf]
      exact hr.stored
    have hsince : ∀ m : Message, Views conversation.id (msgs ++ [m]) (mf ++
          .providerSetting context.customerId choice.provider x :: .viewed db :: mr) ↔
        Views conversation.id msgs (.stored m :: mf ++
          .providerSetting context.customerId choice.provider x :: .viewed db :: mr) :=
      fun _ => Iff.rfl
    refine (hsince _).1 (views_of_viewed hrest fun db hdb => ?_)
    have hperm := hviews db (List.mem_cons_of_mem _ hdb)
    exact hperm.trans (.of_eq (congrArg (fun l => msgs ++ _ :: l) hrest))

/-- A database that held these messages before, and a clock that goes on. -/
def oracleAfter (msgs : List Message) : Oracle Row Answer where
  stmt h q := match q with
    | .view => some (storedRows h ++ messageRows msgs)
    | q => (sampleOracle fun _ => ⟨[], none⟩).stmt h q
  call h e := match e with
    | .uuid4 => BitVec.ofNat 128 h.length
    | .utcnow .created => msgs.length + h.length
    | .streamChat _ => ⟨[.textDelta "Xo'p.", .completed ⟨40, 20, 0⟩ "stop"], none⟩
    | e => sampleOracle.sampleAnswer e
  commit _ := some []

/-- A turn after these messages: its context and locals at the first round, its events
before and after. -/
def playAfter [Deployment] (msgs : List Message) : Option (TurnContext × Turn × Hist × Hist) :=
  match play (oracleAfter msgs) 0 (beginTurn sampleContext sampleConversation 9 "Salom" .STANDARD)
      [] with
  | (.ok (e, s), h) =>
    let h' := (play (oracleAfter msgs) 0 (runTurn e s) h).2
    some (e, s, h, h'.take (h'.length - h.length))
  | _ => none

theorem playAfter_runs [Deployment] {msgs : List Message} {e : TurnContext} {s : Turn}
    {h evs : Hist} (hturn : playAfter msgs = some (e, s, h, evs)) :
    Runs 0 (beginTurn sampleContext sampleConversation 9 "Salom" .STANDARD) [] (pure (e, s))
        (h ++ []) ∧
      ∃ m, Runs 0 (runTurn e s) (h ++ []) m (evs ++ (h ++ [])) := by
  rw [List.append_nil]
  unfold playAfter at hturn
  split at hturn
  · rename_i e₁ s₁ h₁ hb
    obtain ⟨rfl, rfl, rfl, rfl⟩ := by simpa only [Option.some.injEq, Prod.mk.injEq] using hturn
    obtain ⟨m, hrun⟩ : ∃ m, Runs 0 (runTurn e₁ s₁) h₁ m
        (play (oracleAfter msgs) 0 (runTurn e₁ s₁) h₁).2 := ⟨_, play_runs ..⟩
    obtain ⟨evs, hevs⟩ := hrun.suffix
    refine ⟨runs_of_play hb, m, ?_⟩
    rw [← hevs] at hrun ⊢
    rwa [List.length_append, Nat.add_sub_cancel, List.take_left]
  · simp at hturn

section Long

/-- Models that cost nothing. -/
@[reducible] def freeDeployment : Deployment :=
  { sampleDeployment with costCents := fun _ _ _ => 0 }

attribute [local instance] freeDeployment

/-- As many messages as a page holds. -/
def longConversation : List Message :=
  (List.range maxPageSize).map fun i =>
    { id := BitVec.ofNat 128 (i + 1), createdAt := i, customerId := 7, conversationId := 8,
      role := .USER, content := "" }

/-- The message posted after them. -/
def postedMessage : Message :=
  { id := 0, createdAt := maxPageSize + 1, customerId := 7, conversationId := 8, role := .USER,
    content := "Salom" }

/-- The databases read. -/
def viewedRows (ms : List Mark) : List (List (Option Message)) :=
  ms.filterMap fun
    | .viewed db => some (rowMessages db)
    | _ => none

theorem longConversation_recorded {h : Hist} {e : TurnContext} {s : Turn}
    (hb : Begins sampleContext sampleConversation 9 "Salom" .STANDARD (marks h) e s)
    (hstored : storedMessages (marks h) = [postedMessage])
    (hviewed : ∀ rows ∈ viewedRows (marks h),
      rows = (postedMessage :: longConversation).map some) :
    TurnRecorded 8 longConversation (marks h) := by
  have hids : ((postedMessage :: longConversation).map (·.id)).Nodup := by
    have : (postedMessage :: longConversation).map (·.id) =
        (List.range (maxPageSize + 1)).map (BitVec.ofNat 128) := by
      rw [List.range_succ_eq_map]
      simp [postedMessage, longConversation, Function.comp_def]
    rw [this]
    refine List.nodup_range.map_on fun a ha b hb heq => ?_
    have := congrArg BitVec.toNat heq
    rw [List.mem_range, maxPageSize] at ha hb
    rw [BitVec.toNat_ofNat, BitVec.toNat_ofNat, Nat.mod_eq_of_lt (by omega),
      Nat.mod_eq_of_lt (by omega)] at this
    exact this
  refine hb.recorded (fun db hdb => ?_) ?_
  · have hrows := hviewed (rowMessages db) (List.mem_filterMap.2 ⟨_, hdb, rfl⟩)
    rw [eq_messageRows hrows, hstored]
    refine (messagesOf_messageRows hids ?_).trans (List.perm_append_singleton ..).symm
    simp [postedMessage, longConversation, sampleConversation]
  · rw [hstored, InOrder, List.pairwise_append]
    refine ⟨?_, List.pairwise_singleton .., ?_⟩
    · rw [longConversation, List.pairwise_map]
      exact List.pairwise_lt_range
    · simp only [longConversation, List.forall_mem_map, List.mem_range, List.mem_singleton,
        forall_eq, postedMessage]
      intro i hi
      exact hi.trans (Nat.lt_succ_self _)

/-- The first mark is a gateway call. -/
def callsAtOnce : List Mark → Bool
  | .call _ _ :: _ => true
  | _ => false

/-- **A long conversation loses the message posted**: what is sent to the gateway ends with
the last message of the first page. -/
theorem posted_message_not_sent : ∃ e s h evs,
    playAfter longConversation = some (e, s, h, evs) ∧
    TurnRecorded 8 longConversation (marks h) ∧ storedMessages (marks h) = [postedMessage] ∧
    ∃ x ∈ gatewayCalls (marks evs), postedMessage.toTurn ∉ x.1.history := by
  have hrun : ((playAfter longConversation).any fun (_, _, h, evs) =>
      decide (storedMessages (marks h) = [postedMessage]) &&
      decide (∀ rows ∈ viewedRows (marks h), rows = (postedMessage :: longConversation).map some) &&
      callsAtOnce (marks evs)) = true := by
    decide +kernel
  obtain ⟨⟨e, s, h, evs⟩, hturn, hr⟩ := (Option.any_eq_true _ _).1 hrun
  simp only [Bool.and_eq_true, decide_eq_true_eq] at hr
  obtain ⟨⟨hstored, hviewed⟩, hcalls⟩ := hr
  obtain ⟨hb, m, hm⟩ := playAfter_runs hturn
  have hbegins : Begins sampleContext sampleConversation 9 "Salom" .STANDARD (marks h) e s :=
    (beginTurn_emits ..).returned hb
  have hrec := longConversation_recorded hbegins hstored hviewed
  refine ⟨e, s, h, evs, hturn, hrec, hstored, ?_⟩
  have hfirst : FirstRound s.history (marks evs) :=
    (Emits.mono (runTurn_emits e s) (fun _ _ h => h.firstRound)
      fun _ _ => False.elim).throughout (fun _ _ h => h.of_append) hm
  cases hms : marks evs with
  | nil => simp [hms, callsAtOnce] at hcalls
  | cons a ms =>
    cases a with
    | call q x =>
      refine ⟨(q, x), by simp [gatewayCalls], ?_⟩
      obtain ⟨posted, hposted, -, hhist⟩ := hbegins.history_eq hrec
      obtain rfl : postedMessage = posted := by simpa using hstored.symm.trans hposted
      rw [hfirst [] q x ms hms rfl, hhist]
      intro hmem
      obtain ⟨m', hm', heq⟩ := List.mem_map.1 hmem
      have hold := (kept_suffix _ _).subset hm'
      rw [List.take_left' (by simp [longConversation])] at hold
      obtain ⟨i, -, rfl⟩ := List.mem_map.1 hold
      simp [Message.toTurn, postedMessage] at heq
    | _ => simp [hms, callsAtOnce] at hcalls

end Long

section Brief

/-- A history may have 20 characters. -/
@[reducible] def briefDeployment : Deployment :=
  { sampleDeployment with
    settings := { configured := fun _ => true, maxContextChars := 20 }
    costCents := fun _ _ _ => 0 }

attribute [local instance] briefDeployment

/-- Three messages with 14, 8 and 7 characters. -/
def briefConversation : List Message :=
  [{ id := 101, createdAt := 0, customerId := 7, conversationId := 8, role := .USER,
     content := "Ob-havo qalay?" },
   { id := 102, createdAt := 1, customerId := 7, conversationId := 8, role := .ASSISTANT,
     content := "Bulutli." },
   { id := 103, createdAt := 2, customerId := 7, conversationId := 8, role := .USER,
     content := "Rahmat." }]

/-- A turn whose history has room for the last three of four messages. -/
theorem newest_messages_sent_iff_sample : ∃ e s h evs posted rows,
    playAfter briefConversation = some (e, s, h, evs) ∧
    FirstRound s.history (marks evs) ∧ storedMessages (marks h) = [posted] ∧
    rows = briefConversation.tail ++ [posted] ∧
    SendsNewest settings.maxContextChars "Salom" (briefConversation ++ [posted]) rows
      s.history := by
  have hrun : ((playAfter briefConversation).any fun (_, _, h, _) =>
      decide (TurnRecorded 8 briefConversation (marks h)) &&
      decide (∀ posted ∈ storedMessages (marks h),
        kept settings.maxContextChars (briefConversation ++ [posted]) =
          briefConversation.tail ++ [posted])) = true := by
    decide +kernel
  obtain ⟨⟨e, s, h, evs⟩, hturn, hr⟩ := (Option.any_eq_true _ _).1 hrun
  simp only [Bool.and_eq_true, decide_eq_true_eq] at hr
  obtain ⟨hrec, hcut⟩ := hr
  obtain ⟨hb, m, hm⟩ := playAfter_runs hturn
  obtain ⟨hfirst, posted, rows, hposted, hwindow, hiff⟩ := newest_messages_sent_iff hb hm hrec
  have hlen : (briefConversation ++ [posted]).length ≤ maxPageSize := by
    rw [List.length_append, List.length_singleton]
    decide
  refine ⟨e, s, h, evs, posted, rows, hturn, hfirst, hposted, ?_, hiff.2 hlen⟩
  rw [hwindow.rows_eq, List.take_of_length_le hlen]
  exact hcut posted (hposted ▸ List.mem_singleton_self posted)

end Brief

end Sample

end Doda
