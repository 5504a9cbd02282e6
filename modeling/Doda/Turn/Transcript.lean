import Doda.Turn.Delivered

/-!
# The transcript

A turn keeps its transcript twice: in its own history, and as rows of which the next
turn makes its history again.  The two agree on a stream of at most one tool call,
which comes without text and with its identifier and arguments.

## Main definitions

* `messagesOf` — the messages of a conversation, in any order.
* `TurnRecorded` — a turn reads back what was stored.
* `GatewayStream.Replayable` — the streams on which the two agree.
* `history_replays_iff` — when the history rebuilt is the history of the turn.
-/

namespace Doda

open ReadCommitted

/-! ## Reading messages back -/

/-- The messages of a conversation. -/
def messagesOf (db : Db) (conversationId : Uuid) : List Message :=
  collect (fun k v => match k, v with
    | .message _, (m : Message) => if m.conversationId = conversationId then some m else none
    | _, _ => none) db

/-- The messages are in the order of their creation. -/
def InOrder (ms : List Message) : Prop := ms.Pairwise fun a b => a.createdAt < b.createdAt

instance (ms : List Message) : Decidable (InOrder ms) :=
  inferInstanceAs (Decidable (ms.Pairwise fun a b => a.createdAt < b.createdAt))

theorem InOrder.eq_of_createdAt {ms : List Message} (hord : InOrder ms) :
    ∀ a ∈ ms, ∀ b ∈ ms, a.createdAt = b.createdAt → a = b := by
  refine List.Pairwise.forall_of_forall_of_flip (fun _ _ _ => rfl) ?_ ?_
  · exact hord.imp fun hlt heq => absurd heq (Nat.ne_of_lt hlt)
  · exact hord.imp fun hlt heq => absurd heq (Nat.ne_of_gt hlt)

/-- **Messages are listed in the order of their creation.** -/
theorem listMessages_eq_take {db : Db} {conversationId : Uuid} {ms : List Message}
    (hperm : (messagesOf db conversationId).Perm ms) (hord : InOrder ms) :
    listMessages db conversationId = ms.take maxPageSize := by
  have : Std.Total (fun a b : Message => a.createdAt ≤ b.createdAt) :=
    ⟨fun a b => Nat.le_total a.createdAt b.createdAt⟩
  have : IsTrans Message (fun a b => a.createdAt ≤ b.createdAt) := ⟨fun _ _ _ => Nat.le_trans⟩
  have hsorted : (messagesOf db conversationId).insertionSort (·.createdAt ≤ ·.createdAt) = ms := by
    have hp := (List.perm_insertionSort (fun a b : Message => a.createdAt ≤ b.createdAt)
      (messagesOf db conversationId)).trans hperm
    refine hp.eq_of_pairwise ?_ (List.pairwise_insertionSort _ _) (hord.imp Nat.le_of_lt)
    intro a b ha hb hab hba
    exact hord.eq_of_createdAt a (hp.mem_iff.1 ha) b hb (Nat.le_antisymm hab hba)
  rw [← hsorted]
  rfl

/-- The characters of a message that count against the budget. -/
def Message.chars (m : Message) : ℕ := m.content.length + (m.toolArgumentsJson.getD "").length

/-- The list, or what a listing shows of it, is whole and fits. -/
structure Uncut (maxChars : ℕ) (ms : List Message) : Prop where
  length_le : ms.length ≤ maxPageSize
  chars_le : (ms.map Message.chars).sum ≤ maxChars

instance (maxChars : ℕ) (ms : List Message) : Decidable (Uncut maxChars ms) :=
  decidable_of_iff (ms.length ≤ maxPageSize ∧ (ms.map Message.chars).sum ≤ maxChars)
    ⟨fun h => ⟨h.1, h.2⟩, fun h => ⟨h.1, h.2⟩⟩

theorem Uncut.of_append {maxChars : ℕ} {ms ms' : List Message} (h : Uncut maxChars (ms ++ ms')) :
    Uncut maxChars ms := by
  obtain ⟨hlen, hchars⟩ := h
  rw [List.length_append] at hlen
  rw [List.map_append, List.sum_append] at hchars
  exact ⟨by omega, by omega⟩

theorem takeWithin_eq_self {maxChars total : ℕ} {first : Bool} {ms : List Message}
    (h : total + (ms.map Message.chars).sum ≤ maxChars) :
    takeWithin maxChars total first ms = ms := by
  induction ms generalizing total first with
  | nil => rfl
  | cons m ms ih =>
    rw [List.map_cons, List.sum_cons] at h
    have hm : ¬ total + m.chars > maxChars := by omega
    rw [takeWithin, if_neg fun hc => hm hc.2, ih]
    change total + m.chars + _ ≤ _
    omega

/-- **What is not cut is replayed whole.** -/
theorem Uncut.messagesToHistory_eq {maxChars : ℕ} {ms : List Message} (h : Uncut maxChars ms) :
    messagesToHistory (ms.take maxPageSize) maxChars = ms.map Message.toTurn := by
  have hrev : 0 + (ms.reverse.map Message.chars).sum ≤ maxChars := by
    rw [List.map_reverse, List.sum_reverse, Nat.zero_add]
    exact h.chars_le
  rw [List.take_of_length_le h.length_le, messagesToHistory, takeWithin_eq_self hrev,
    List.reverse_reverse]

/-- Whenever the database is read, it holds the messages `msgs` and those stored since. -/
def Views (conversationId : Uuid) : List Message → List Mark → Prop
  | _, [] => True
  | msgs, .stored m :: ms => Views conversationId (msgs ++ [m]) ms
  | msgs, .viewed db :: ms =>
    (messagesOf db conversationId).Perm msgs ∧ Views conversationId msgs ms
  | msgs, _ :: ms => Views conversationId msgs ms

theorem views_append {conversationId : Uuid} {msgs : List Message} {ms ms' : List Mark} :
    Views conversationId msgs (ms ++ ms') ↔
      Views conversationId msgs ms ∧ Views conversationId (msgs ++ storedMessages ms) ms' := by
  induction ms generalizing msgs with
  | nil => simp [Views, storedMessages]
  | cons m ms ih =>
    cases m with
    | stored m =>
      rw [List.cons_append, Views, ih, Views]
      simp [storedMessages]
    | viewed db =>
      rw [List.cons_append, Views, ih, Views, and_assoc]
      rfl
    | _ => exact ih

instance decidableViews (conversationId : Uuid) :
    ∀ msgs ms, Decidable (Views conversationId msgs ms)
  | _, [] => isTrue trivial
  | msgs, .stored m :: ms => decidableViews conversationId (msgs ++ [m]) ms
  | msgs, .viewed db :: ms =>
    have := decidableViews conversationId msgs ms
    inferInstanceAs (Decidable ((messagesOf db conversationId).Perm msgs ∧ _))
  | msgs, .call _ _ :: ms | msgs, .chunk _ _ :: ms | msgs, .fallbackSetting _ _ :: ms
  | msgs, .providerSetting _ _ _ :: ms | msgs, .month _ :: ms | msgs, .seen _ _ _ :: ms
  | msgs, .opened _ _ _ :: ms | msgs, .updated _ _ _ :: ms | msgs, .usage _ :: ms
  | msgs, .strange :: ms | msgs, .preference :: ms | msgs, .failed :: ms
  | msgs, .committed :: ms | msgs, .rolledBack :: ms => decidableViews conversationId msgs ms

/-- A turn reads back what was stored: the messages `msgs` before it, and its own, in the
order of their creation. -/
structure TurnRecorded (conversationId : Uuid) (msgs : List Message) (ms : List Mark) : Prop where
  views : Views conversationId msgs ms
  ordered : InOrder (msgs ++ storedMessages ms)

instance (conversationId : Uuid) (msgs : List Message) (ms : List Mark) :
    Decidable (TurnRecorded conversationId msgs ms) :=
  decidable_of_iff (Views conversationId msgs ms ∧ InOrder (msgs ++ storedMessages ms))
    ⟨fun h => ⟨h.1, h.2⟩, fun h => ⟨h.1, h.2⟩⟩

theorem TurnRecorded.of_append {conversationId : Uuid} {msgs : List Message} {ms ms' : List Mark}
    (h : TurnRecorded conversationId msgs (ms ++ ms')) : TurnRecorded conversationId msgs ms where
  views := (views_append.1 h.views).1
  ordered := by
    have := h.ordered
    rw [storedMessages_append, ← List.append_assoc] at this
    exact this.sublist (List.sublist_append_left _ _)

theorem storedMessages_of_slight {ms : List Mark} (h : ∀ m ∈ ms, m.Slight) :
    storedMessages ms = [] := by
  refine List.filterMap_eq_nil_iff.2 fun m hm => ?_
  have := h m hm
  cases m <;> first | rfl | exact this.elim

theorem storedMessages_of_aside {ms : List Mark} (h : ∀ m ∈ ms, m.Aside) :
    storedMessages ms = [] := by
  refine List.filterMap_eq_nil_iff.2 fun m hm => ?_
  have := h m hm
  cases m <;> first | rfl | exact this.elim

/-- A reservation stores no message. -/
theorem Reserves.stored [Deployment] {customerId : Uuid} {estimate : ℤ} {ms : List Mark}
    (h : Reserves customerId estimate ms) : storedMessages ms = [] := by
  cases h with
  | reserved t hl hcap =>
    refine storedMessages_of_aside (List.forall_mem_append.2
      ⟨List.forall_mem_cons.2 ⟨trivial, fun m hm => (hl.reads m hm).aside⟩, ?_⟩)
    exact List.forall_mem_singleton.2 trivial

/-! ## Rows and turns -/

/-- A stream that its rows replay: no tool call, or one, with its identifier and
arguments, and no text. -/
def GatewayStream.Replayable (x : GatewayStream) : Prop :=
  x.toolCalls = [] ∨
    ∃ call, x.toolCalls = [call] ∧ x.text = "" ∧ call.callId ≠ "" ∧ call.argumentsJson ≠ ""

/-- Of the gateway calls `l` with the marks `ms`, the messages `rows` are stored and the
turns `ts` appended to the history. -/
structure Transcribes (ms : List Mark) (l : List (GatewayRequest × GatewayStream))
    (rows : List Message) (ts : List ChatTurn) : Prop where
  accounts : Accounts ms l
  length_le : ts.length ≤ rows.length
  replays : rows.map Message.toTurn = ts ↔ ∀ x ∈ l, x.2.Replayable

namespace Transcribes

variable {ms ms' : List Mark} {l l' : List (GatewayRequest × GatewayStream)}
  {rows rows' : List Message} {ts ts' : List ChatTurn}

/-- Nothing is stored of streams without tool calls. -/
theorem nothing (ha : Accounts ms l) (hl : ∀ x ∈ l, x.2.toolCalls = []) :
    Transcribes ms l [] [] where
  accounts := ha
  length_le := le_rfl
  replays := ⟨fun _ x hx => .inl (hl x hx), fun _ => rfl⟩

theorem append (h : Transcribes ms l rows ts) (h' : Transcribes ms' l' rows' ts') :
    Transcribes (ms ++ ms') (l ++ l') (rows ++ rows') (ts ++ ts') where
  accounts := h.accounts.append h'.accounts
  length_le := by
    rw [List.length_append, List.length_append]
    exact Nat.add_le_add h.length_le h'.length_le
  replays := by
    rw [List.forall_mem_append, ← h.replays, ← h'.replays, List.map_append]
    constructor
    · intro heq
      have hlen := congrArg List.length heq
      have hle := h.length_le
      have hle' := h'.length_le
      simp only [List.length_append, List.length_map] at hlen
      exact List.append_inj heq (by rw [List.length_map]; omega)
    · rintro ⟨h₁, h₂⟩
      rw [h₁, h₂]

/-- What follows and makes no gateway call. -/
theorem append_right (h : Transcribes ms l rows ts) (h' : gatewayCalls ms' = []) :
    Transcribes (ms ++ ms') l rows ts :=
  ⟨h.accounts.append_right h', h.length_le, h.replays⟩

end Transcribes

theorem Uuid.str_ne_empty (id : Uuid) : id.str ≠ "" := by
  intro h
  have hlen := congrArg String.length h
  simp [Uuid.str, String.length_ofList] at hlen

theorem orElseText_eq_self_iff {s d : String} (hd : d ≠ "") :
    orElseText (some s) d = s ↔ s ≠ "" := by
  by_cases hs : s = ""
  · simp [orElseText, hs, hd]
  · simp [orElseText, hs]

section Turn

variable [Sha256] [JsonText] [Deployment] {e : TurnContext} {s s' : Turn} {ms : List Mark}

omit [Sha256] [JsonText] [Deployment] in
/-- Each tool call is stored, and the row stands for that call. -/
theorem Stores.rows {calls : List ToolCallRequest} (h : Stores e s calls ms (.ok ())) :
    List.Forall₂ (fun (call : ToolCallRequest) (m : Message) => m.toTurn =
      { role := .ASSISTANT, content := "", toolCalls := [⟨orElseText (some call.callId) m.id.str,
        call.name, orElseText (some call.argumentsJson) "\x7b\x7d"⟩] }) calls
      (storedMessages ms) := by
  generalize hr : (Except.ok () : Except Err Unit) = r at h
  induction h with
  | nil => exact .nil
  | failed => simp at hr
  | cons id createdAt _ ih => exact .cons rfl (ih hr)

omit [Sha256] [JsonText] [Deployment] in
/-- **The rows of tool calls** replay the turn they are of just where there is one call, with
its identifier and arguments, and no text. -/
theorem Stores.replays_iff {calls : List ToolCallRequest} {text : String}
    (h : Stores e s calls ms (.ok ())) (hc : calls ≠ []) :
    (storedMessages ms).map Message.toTurn =
        [{ role := .ASSISTANT, content := text, toolCalls := calls }] ↔
      ∃ call, calls = [call] ∧ text = "" ∧ call.callId ≠ "" ∧ call.argumentsJson ≠ "" := by
  have hrows := h.rows
  generalize storedMessages ms = rows at hrows
  cases hrows with
  | nil => exact absurd rfl hc
  | @cons call m calls rows hm hrest =>
    cases hrest with
    | nil =>
      obtain ⟨callId, name, argumentsJson⟩ := call
      have hid := orElseText_eq_self_iff (s := callId) (Uuid.str_ne_empty m.id)
      have hargs := orElseText_eq_self_iff (s := argumentsJson) (d := "\x7b\x7d") (by decide)
      rw [List.map_singleton, hm, List.singleton_inj, ChatTurn.mk.injEq]
      simp [hid, hargs, eq_comm (a := "")]
    | cons => simp

omit [Sha256] [JsonText] [Deployment] in
/-- **The rows of answers** replay the turns they are of. -/
theorem Answers.rows {calls : List ToolCallRequest} (h : Answers e calls s ms (.ok ()) s') :
    s'.history = s.history ++ (storedMessages ms).map Message.toTurn := by
  generalize hr : (Except.ok () : Except Err Unit) = r at h
  induction h with
  | nil => simp [storedMessages]
  | failed => simp at hr
  | @cons call calls s mf ms r s' hmf text id createdAt _ ih =>
    have hmf' : storedMessages mf = [] := storedMessages_of_slight hmf
    rw [ih hr, storedMessages_append, hmf', Turn.addAnswer, List.append_assoc]
    rfl

omit [Sha256] [JsonText] [Deployment] in
/-- The last message stands for its text. -/
theorem Finishes.row {content reason : String} (h : Finishes e s content reason ms (.ok ()) s') :
    s'.history = s.history ∧ ∃ final, storedMessages ms = [final] ∧
      s'.finalAssistantMessage = some final ∧
      final.toTurn = { role := .ASSISTANT, content := final.content } := by
  cases h with
  | stored id createdAt => exact ⟨rfl, _, rfl, rfl, rfl⟩

omit [Sha256] [JsonText] in
/-- **What a round takes of its gateway call** is what is delivered. -/
theorem Asks.taken {s₁ : Turn} {ma mp : List Mark} {x : GatewayStream} {r : Except Err Unit}
    (hs : s.toolCallsThisRound = []) (ht : s.accumulatedText = "") (ha : Asks e s ma x)
    (hp : Pulls x s mp r s₁) : ∃ l y, Delivers e s (ma ++ mp) l y ∧ r = y.ends ∧
      s₁.history = s.history ∧ s₁.toolCallsThisRound = y.toolCalls ∧
        s₁.accumulatedText = y.text := by
  obtain ⟨l, y, hd, rfl, hr⟩ := ha.delivers hp
  refine ⟨l, y, hd, hr, foldl_take_history _ _, ?_, ?_⟩
  · rw [foldl_take_calls, hs, List.nil_append]
    rfl
  · rw [foldl_take_text, ht]
    rfl

omit [Sha256] [JsonText] [Deployment] in
/-- A gateway call with tool calls has left the process. -/
theorem Delivers.call_of_calls {l : List (GatewayRequest × GatewayStream)} {y : GatewayStream}
    (h : Delivers e s ms l y) (hy : y.toolCalls ≠ []) : l = [(e.request s, y)] := by
  rcases h.call with hl | ⟨-, hnil, -⟩
  · exact hl
  · exact absurd hnil hy

omit [Sha256] [JsonText] in
/-- **A gateway call without tool calls** writes nothing. -/
theorem Asks.writes_nothing {s₁ : Turn} {ma mp : List Mark} {x : GatewayStream}
    {r : Except Err Unit} (hs : s.toolCallsThisRound = []) (ht : s.accumulatedText = "")
    (ha : Asks e s ma x) (hp : Pulls x s mp r s₁) (hc : s₁.toolCallsThisRound = []) :
    s₁.history = s.history ∧ storedMessages (ma ++ mp) = [] ∧
      ∃ l, Transcribes (ma ++ mp) l [] [] := by
  obtain ⟨l, y, hd, -, hhist, hcalls, -⟩ := ha.taken hs ht hp
  refine ⟨hhist, hd.stored, l, .nothing hd.accounts fun z hz => ?_⟩
  rcases hd.call with rfl | ⟨rfl, -⟩
  · rw [List.mem_singleton.1 hz]
    exact hcalls.symm.trans hc
  · simp at hz

omit [Sha256] [JsonText] in
/-- **A gateway call and the rows of its tool calls.** -/
theorem Asks.writes_calls {s₁ : Turn} {ma mp mr : List Mark} {x : GatewayStream}
    (hs : s.toolCallsThisRound = []) (ht : s.accumulatedText = "") (ha : Asks e s ma x)
    (hp : Pulls x s mp (.ok ()) s₁) (hc : s₁.toolCallsThisRound ≠ [])
    (hr : Stores e s₁ s₁.toolCallsThisRound mr (.ok ())) :
    storedMessages (ma ++ mp ++ mr) = storedMessages mr ∧ ∃ l t,
      s₁.addCalls.history = s.history ++ [t] ∧
        Transcribes (ma ++ mp ++ mr) l (storedMessages mr) [t] := by
  obtain ⟨l, y, hd, -, hhist, hcalls, htext⟩ := ha.taken hs ht hp
  rw [hcalls] at hc hr
  refine ⟨by rw [storedMessages_append, hd.stored, List.nil_append], l, _,
    congrArg (· ++ _) hhist, ?_⟩
  refine {
    accounts := hd.accounts.append_right (gatewayCalls_of_follows hr.follows)
    length_le := ?_
    replays := ?_ }
  · have := hr.rows.length_eq
    rw [← this]
    exact List.length_pos_of_ne_nil hc
  · rw [hd.call_of_calls hc, List.forall_mem_singleton, hcalls, htext, hr.replays_iff hc,
      GatewayStream.Replayable, or_iff_right hc]

omit [Sha256] [JsonText] in
/-- **What a round writes**, if the next begins. -/
theorem Round.writes {o : Option (Except Err Unit)} (h : Round e s ms o s') (ho : o = none)
    (hs : s.toolCallsThisRound = []) (ht : s.accumulatedText = "") :
    ∃ l ts, s'.history = s.history ++ ts ∧ Transcribes ms l (storedMessages ms) ts := by
  cases h with
  | @next _ _ _ mr _ _ _ ha hp hc hr hw hans =>
    obtain ⟨hrows, l, t, hhist, hwrites⟩ := ha.writes_calls hs ht hp hc hr
    refine ⟨l, [t] ++ (storedMessages mr).map Message.toTurn, ?_, ?_⟩
    · rw [hans.rows, hhist, List.append_assoc]
    · rw [storedMessages_append, hrows, ← List.append_nil l]
      exact hwrites.append {
        accounts := .of_no_calls (gatewayCalls_of_follows (hans.follows s.choice))
        length_le := by rw [List.length_map]
        replays := ⟨fun _ => List.forall_mem_nil _, fun _ => rfl⟩ }
  | _ => simp at ho

/-- What rounds that end well write: rows and turns, and a last message. -/
def Concludes (s s' : Turn) (ms : List Mark) : Prop :=
  ∃ l ts rows final, s'.history = s.history ++ ts ∧ Transcribes ms l rows ts ∧
    storedMessages ms = rows ++ [final] ∧ s'.finalAssistantMessage = some final ∧
    final.toTurn = { role := .ASSISTANT, content := final.content }

omit [Sha256] [JsonText] in
/-- **What the last round writes.** -/
theorem Round.concludes {o : Option (Except Err Unit)} (h : Round e s ms o s')
    (ho : o = some (.ok ())) (hs : s.toolCallsThisRound = []) (ht : s.accumulatedText = "") :
    Concludes s s' ms := by
  cases h with
  | broken | unstored | refused | unreported | unanswered | next => simp at ho
  | answered ha hp hc hf =>
    obtain rfl := Option.some.inj ho
    obtain ⟨hhist, hrows, l, hwrites⟩ := ha.writes_nothing hs ht hp hc
    obtain ⟨hhist', final, hfinal, hlast, hturn⟩ := hf.row
    refine ⟨l, [], [], final, ?_, hwrites.append_right (gatewayCalls_of_follows hf.follows), ?_,
      hlast, hturn⟩
    · rw [hhist', hhist, List.append_nil]
    · rw [storedMessages_append, hrows, hfinal]
  | @reported ma mp mr mf mr' x s₁ s₂ ha hp hc hr hmf call hw action hf taken =>
    obtain ⟨hrows, l, t, hhist, hwrites⟩ := ha.writes_calls hs ht hp hc hr
    obtain ⟨hhist', final, hfinal, hlast, hturn⟩ := hf.row
    refine ⟨l, [t], storedMessages mr, final, hhist'.trans hhist, ?_, ?_, hlast, hturn⟩
    · rw [List.append_assoc, List.append_assoc]
      refine hwrites.append_right ?_
      rw [gatewayCalls_append, gatewayCalls_append, gatewayCalls_of_follows hf.follows,
        gatewayCalls_of_follows (@follows_of_slight s.choice _ hmf)]
      rfl
    · simp only [storedMessages_append, hrows, hfinal, storedMessages_of_slight hmf,
        List.append_nil]
      exact List.append_nil _

omit [Sha256] [JsonText] in
/-- **What the rounds write.** -/
theorem Rounds.concludes {n : ℕ} {r : Except Err Unit} (h : Rounds e n s ms r s')
    (hr : r = .ok ()) : Concludes s s' ms := by
  induction h with
  | exhausted hf =>
    obtain ⟨hhist, final, hfinal, hlast, hturn⟩ := (hr ▸ hf).row
    refine ⟨[], [], [], final, by rw [hhist, List.append_nil], ?_, hfinal, hlast, hturn⟩
    exact .nothing (.of_no_calls (gatewayCalls_of_follows hf.follows)) (List.forall_mem_nil _)
  | ends h => exact h.concludes (by rw [hr]) rfl rfl
  | next h _ ih =>
    obtain ⟨l, ts, hhist, hwrites⟩ := h.writes rfl rfl rfl
    obtain ⟨l', ts', rows, final, hhist', hwrites', hrows, hlast, hturn⟩ := ih hr
    refine ⟨l ++ l', ts ++ ts', _ ++ rows, final, ?_, hwrites.append hwrites', ?_, hlast, hturn⟩
    · rw [hhist', hhist, List.append_assoc]
      rfl
    · rw [storedMessages_append, hrows, List.append_assoc]

omit [Sha256] [JsonText] in
/-- **What a loop that ends well writes**, whichever provider it ends on. -/
theorem Loop.concludes {r : Except Err Unit} (h : Loop e s ms r s') (hr : r = .ok ()) :
    Concludes s s' ms := by
  cases h with
  | raised | optedOut | unpicked | unread => simp at hr
  | done h => exact h.concludes rfl
  | @fallback ms err s₁ mp provider ms' r s' h hm x hx hp h' =>
    -- the first attempt broke off before it wrote anything
    obtain ⟨i, ma, mp', x', rfl, ha, hpull⟩ := h.broke rfl le_rfl hm
    obtain ⟨hhist, hrows, l, hwrites⟩ := ha.writes_nothing rfl rfl hpull hm.2.2.2
    obtain ⟨l', ts, rows, final, hhist', hwrites', hrows', hlast, hturn⟩ := h'.concludes hr
    have haside : storedMessages (.fallbackSetting e.context.customerId x :: mp) = [] :=
      storedMessages_of_aside (List.forall_mem_cons.2 ⟨trivial, hp.aside⟩)
    refine ⟨l ++ l', ts, rows, final, ?_,
      (hwrites.append_right (hp.gatewayCalls x)).append hwrites', ?_, hlast, hturn⟩
    · exact hhist'.trans (congrArg (· ++ ts) hhist)
    · rw [storedMessages_append, storedMessages_append, hrows, haside, hrows']
      rfl

omit [Sha256] [JsonText] in
/-- **What a turn that ends well writes.** -/
theorem Turns.concludes {r : Except Err Unit} (h : Turns e s ms r s') (hr : r = .ok ()) :
    Concludes s s' ms := by
  cases h with
  | @settled ml r₁ s₁ mr r s' hl hs =>
    have hcalls := hs.calls
    have hset := hs.ofSettlement
    have hstored : storedMessages mr = [] := by
      refine List.filterMap_eq_nil_iff.2 fun m hm => ?_
      have := hset m hm
      cases m <;> first | rfl | exact this.elim
    cases hs with
    | raised | unsettled => simp at hr
    | completed hrec taken =>
      obtain ⟨l, ts, rows, final, hhist, hwrites, hrows, hlast, hturn⟩ := hl.concludes rfl
      refine ⟨l, ts, rows, final, hhist, hwrites.append_right hcalls, ?_, hlast, hturn⟩
      rw [storedMessages_append, hstored, List.append_nil, hrows]

omit [Sha256] [JsonText] in
/-- **The history a turn begins with**: the messages before it and the user's, where
nothing is cut. -/
theorem Begins.history_eq {context : WorkspaceContext} {conversation : Conversation}
    {traceId : Uuid} {content : String} {mode : ChatMode} {msgs : List Message}
    (h : Begins context conversation traceId content mode ms e s)
    (hrec : TurnRecorded conversation.id msgs ms) : ∃ m, storedMessages ms = [m] ∧
      m.toTurn = { role := .USER, content } ∧
      s.history = messagesToHistory ((msgs ++ [m]).take maxPageSize) settings.maxContextChars := by
  cases h with
  | @begun mf mr pricing id createdAt hmf choice x hx instructions db history hh hp estimate he hd
      hr =>
    have hmr : storedMessages mr = [] := by
      cases hr with
      | reserved t hl hcap =>
        refine storedMessages_of_aside (List.forall_mem_append.2
          ⟨List.forall_mem_cons.2 ⟨trivial, fun m hm => (hl.reads m hm).aside⟩, ?_⟩)
        exact List.forall_mem_singleton.2 trivial
    have hbefore := storedMessages_of_slight hmf
    refine ⟨
      { id, createdAt, customerId := conversation.customerId,
        conversationId := conversation.id, role := .USER, content }, ?_, rfl, ?_⟩
    · rw [List.cons_append]
      change _ :: storedMessages (mf ++ .providerSetting _ _ _ :: .viewed db :: mr) = _
      rw [storedMessages_append, hbefore]
      exact congrArg _ hmr
    · have hviews := hrec.views
      rw [List.cons_append, Views, views_append, hbefore, List.append_nil] at hviews
      have hord := hrec.ordered
      rw [List.cons_append] at hord
      refine hh.trans (congrArg (messagesToHistory · _) (listMessages_eq_take hviews.2.1 ?_))
      refine hord.sublist (List.Sublist.append_left ?_ _)
      exact List.singleton_sublist.2 List.mem_cons_self

variable {p : ℕ} {context : WorkspaceContext} {conversation : Conversation} {traceId : Uuid}
  {content : String} {mode : ChatMode}

/-- **When stored history replays a turn.**  Where a turn ends well and nothing is cut, the
history that the next turn begins with is that of this turn and its last message, if and
only if every stream that was delivered to it is replayable. -/
theorem history_replays_iff {h evs₀ evs₁ : Hist} {msgs : List Message} {db : Db}
    (hb : Runs p (beginTurn context conversation traceId content mode) h (pure (e, s))
      (evs₀ ++ h))
    (hr : Runs p (runTurn e s) (evs₀ ++ h) (pure (.ok (), s')) (evs₁ ++ (evs₀ ++ h)))
    (hrec : TurnRecorded conversation.id msgs (marks (evs₁ ++ evs₀)))
    (hdb : (messagesOf db conversation.id).Perm
      (msgs ++ storedMessages (marks (evs₁ ++ evs₀))))
    (hcut : Uncut settings.maxContextChars (messagesOf db conversation.id)) :
    ∃ final, s'.finalAssistantMessage = some final ∧
      (messagesToHistory (listMessages db conversation.id) settings.maxContextChars =
          s'.history ++ [{ role := .ASSISTANT, content := final.content }] ↔
        ∀ x ∈ delivered (marks evs₁), x.2.Replayable) := by
  have hbegins : Begins context conversation traceId content mode (marks evs₀) e s :=
    (beginTurn_emits ..).returned hb
  have hturns : Turns e s (marks evs₁) (.ok ()) s' := Emits.returned (runTurn_emits e s) hr
  rw [marks_append] at hrec hdb
  obtain ⟨m, hm, -, hhist⟩ := hbegins.history_eq hrec.of_append
  obtain ⟨l, ts, rows, final, hhist', hwrites, hrows, hlast, hturn⟩ := hturns.concludes rfl
  have hall : msgs ++ storedMessages (marks evs₀ ++ marks evs₁) =
      msgs ++ [m] ++ (rows ++ [final]) := by
    rw [storedMessages_append, hm, hrows, ← List.append_assoc]
  have hord := hrec.ordered
  rw [hall] at hdb hord
  have huncut : Uncut settings.maxContextChars (msgs ++ [m] ++ (rows ++ [final])) :=
    ⟨hdb.length_eq ▸ hcut.length_le, (hdb.map Message.chars).sum_nat ▸ hcut.chars_le⟩
  refine ⟨final, hlast, ?_⟩
  rw [hwrites.accounts.delivered_eq, ← hwrites.replays, listMessages_eq_take hdb hord,
    huncut.messagesToHistory_eq, hhist', hhist, huncut.of_append.messagesToHistory_eq,
    List.map_append, List.append_assoc, List.append_right_inj]
  have hlast' : (rows ++ [final]).map Message.toTurn = rows.map Message.toTurn ++
      [{ role := .ASSISTANT, content := final.content }] := by
    rw [List.map_append, List.map_singleton, hturn]
  rw [hlast', List.append_left_inj]

end Turn

/-! ## Sample turns -/

section Sample

attribute [local instance] plainSha plainJsonText sampleDeployment

/-- The messages that were inserted. -/
def storedRows (h : Hist) : Db :=
  h.filterMap fun
    | .ran _ (.insert [⟨.message id, m⟩]) _ => some ⟨.message id, some m⟩
    | _ => none

/-- A database that keeps messages, and a clock that goes on. -/
def recordingOracle (streams : GatewayRequest → GatewayStream) : Oracle Row Answer where
  stmt h q := match q with
    | .view => some (storedRows h)
    | q => (sampleOracle fun _ => ⟨[], none⟩).stmt h q
  call h e := match e with
    | .streamChat r => streams r
    | .uuid4 => BitVec.ofNat 128 h.length
    | .utcnow .created => h.length
    | e => sampleOracle.sampleAnswer e
  commit _ := some []

/-- A gateway that asks for these calls, and answers once a tool has. -/
def callsFirst (calls : List ToolCallRequest) (r : GatewayRequest) : GatewayStream where
  events :=
    if r.history.any (·.role = .TOOL) then
      [.textDelta "Vazifalar yo'q.", .completed ⟨80, 10, 0⟩ "stop"]
    else calls.map .toolCallReady ++ [.completed ⟨40, 20, 0⟩ "tool_calls"]

/-- A turn that ended well: its context, its locals and events at the first round, its
locals and events after. -/
def playTurn (O : Oracle Row Answer) : Option (TurnContext × Turn × Hist × Turn × Hist) :=
  match play O 0 (beginTurn sampleContext sampleConversation 9 "Salom" .STANDARD) [] with
  | (.ok (e, s), h) =>
    match play O 0 (runTurn e s) h with
    | (.ok (.ok (), s'), h') => some (e, s, h, s', h'.take (h'.length - h.length))
    | _ => none
  | _ => none

theorem playTurn_runs {O : Oracle Row Answer} {e : TurnContext} {s s' : Turn} {h evs : Hist}
    (hturn : playTurn O = some (e, s, h, s', evs)) :
    Runs 0 (beginTurn sampleContext sampleConversation 9 "Salom" .STANDARD) [] (pure (e, s))
        (h ++ []) ∧
      Runs 0 (runTurn e s) (h ++ []) (pure (.ok (), s')) (evs ++ (h ++ [])) := by
  rw [List.append_nil]
  unfold playTurn at hturn
  split at hturn
  · rename_i e₁ s₁ h₁ hb
    split at hturn
    · rename_i s₂ h₂ hr
      simp only [Option.some.injEq, Prod.mk.injEq] at hturn
      obtain ⟨rfl, rfl, rfl, rfl, rfl⟩ := hturn
      have hrun := runs_of_play hr
      obtain ⟨evs, rfl⟩ := hrun.suffix
      refine ⟨runs_of_play hb, ?_⟩
      rwa [List.length_append, Nat.add_sub_cancel, List.take_left]
    · simp at hturn
  · simp at hturn

/-- What the samples share: nothing is cut, and whether the history is replayed. -/
def replaysTo (b : Bool) : TurnContext × Turn × Hist × Turn × Hist → Bool
  | (_, _, h, s', evs) =>
    decide (TurnRecorded 8 [] (marks (evs ++ h))) &&
      decide ((messagesOf (storedRows (evs ++ h)) 8).Perm (storedMessages (marks (evs ++ h)))) &&
      decide (Uncut settings.maxContextChars (messagesOf (storedRows (evs ++ h)) 8)) &&
      s'.finalAssistantMessage.any fun final =>
        decide (messagesToHistory (listMessages (storedRows (evs ++ h)) 8)
          settings.maxContextChars =
            s'.history ++ [{ role := .ASSISTANT, content := final.content }]) = b

/-- **Two tool calls are not replayed.**  The turn keeps them as one turn of its history,
and its rows as two. -/
theorem parallel_calls_not_replayed : ∃ e s h s' evs final,
    playTurn (recordingOracle (callsFirst [⟨"call-1", "list_my_open_tasks", "\x7b\x7d"⟩,
      ⟨"call-2", "list_my_open_tasks", "\x7b\x7d"⟩])) = some (e, s, h, s', evs) ∧
    TurnRecorded 8 [] (marks (evs ++ h)) ∧
    (messagesOf (storedRows (evs ++ h)) 8).Perm (storedMessages (marks (evs ++ h))) ∧
    Uncut settings.maxContextChars (messagesOf (storedRows (evs ++ h)) 8) ∧
    s'.finalAssistantMessage = some final ∧
    messagesToHistory (listMessages (storedRows (evs ++ h)) 8) settings.maxContextChars ≠
      s'.history ++ [{ role := .ASSISTANT, content := final.content }] := by
  have hrun : (playTurn (recordingOracle (callsFirst
      [⟨"call-1", "list_my_open_tasks", "\x7b\x7d"⟩,
        ⟨"call-2", "list_my_open_tasks", "\x7b\x7d"⟩]))).any (replaysTo false) = true := by
    decide +kernel
  obtain ⟨⟨e, s, h, s', evs⟩, hturn, hr⟩ := (Option.any_eq_true _ _).1 hrun
  simp only [replaysTo, Bool.and_eq_true, decide_eq_true_eq, Option.any_eq_true] at hr
  obtain ⟨⟨⟨hrec, hperm⟩, hcut⟩, final, hfinal, hne⟩ := hr
  exact ⟨e, s, h, s', evs, final, hturn, hrec, hperm, hcut, hfinal, by simpa using hne⟩

/-- One call is replayed. -/
theorem history_replays_iff_sample : ∃ e s h s' evs final,
    playTurn (recordingOracle (callsFirst [⟨"call-1", "list_my_open_tasks", "\x7b\x7d"⟩])) =
      some (e, s, h, s', evs) ∧
    s'.finalAssistantMessage = some final ∧
    messagesToHistory (listMessages (storedRows (evs ++ h)) 8) settings.maxContextChars =
        s'.history ++ [{ role := .ASSISTANT, content := final.content }] ∧
      ∀ x ∈ delivered (marks evs), x.2.Replayable := by
  have hrun : (playTurn (recordingOracle (callsFirst
      [⟨"call-1", "list_my_open_tasks", "\x7b\x7d"⟩]))).any (replaysTo true) = true := by
    decide +kernel
  obtain ⟨⟨e, s, h, s', evs⟩, hturn, hr⟩ := (Option.any_eq_true _ _).1 hrun
  simp only [replaysTo, Bool.and_eq_true, decide_eq_true_eq, Option.any_eq_true] at hr
  obtain ⟨⟨⟨hrec, hperm⟩, hcut⟩, final, hfinal, heq⟩ := hr
  obtain ⟨hb, hr⟩ := playTurn_runs hturn
  have hperm : (messagesOf _ _).Perm ([] ++ _) := hperm
  obtain ⟨final', hfinal', hiff⟩ := history_replays_iff hb hr hrec hperm hcut
  obtain rfl : final = final' := Option.some.inj (hfinal.symm.trans hfinal')
  have heq' : messagesToHistory (listMessages (storedRows (evs ++ h)) 8)
      settings.maxContextChars =
        s'.history ++ [{ role := .ASSISTANT, content := final.content }] := by simpa using heq
  exact ⟨e, s, h, s', evs, final, hturn, hfinal, heq', hiff.1 heq'⟩

end Sample

end Doda
