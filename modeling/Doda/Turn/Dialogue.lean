import Doda.Turn.Transcript

/-!
# Dialogues

A transcript is well formed if every tool call is answered, once, before the dialogue
goes on, and every answer is of the call before it.  A dialogue is a sequence of turns,
each of which reads back what was stored before it.

A transcript is well formed if it is made of blocks: a plain turn, or a tool call with
its answer right after it.  A turn appends blocks where every stream asks for at most
one read, under an identifier of its own, and what it stores is blocks again.

## Main definitions

* `WellFormed` — well-formed transcripts.
* `Block`, `Distinct` — the blocks of a transcript.
* `Paired`, `Uncleft` — the streams of a turn, and the cut of its history, that keep
  transcripts well formed.
* `Dialogue` — sequences of turns; `dialogue_well_formed`.
-/

namespace Doda

open ReadCommitted

/-! ## Well-formed transcripts -/

/-- A turn of the user's, or of the assistant's without tool calls. -/
def ChatTurn.isPlain (t : ChatTurn) : Bool :=
  t.role = .USER ∨ t.role = .ASSISTANT ∧ t.toolCalls = []

/-- A turn of the assistant's with tool calls. -/
def ChatTurn.isCalls (t : ChatTurn) : Bool := t.role = .ASSISTANT ∧ t.toolCalls ≠ []

/-- An answer to the call with this identifier. -/
def ChatTurn.answers (callId : String) (t : ChatTurn) : Bool :=
  t.role = .TOOL ∧ t.toolCallId = some callId

/-- Every call of a turn is answered by one turn before the next plain one, and every
answer names a call of the nearest turn with calls before it. -/
structure WellFormed (ts : List ChatTurn) : Prop where
  answered : ∀ before t after, ts = before ++ t :: after → t.isCalls = true →
    ∀ call ∈ t.toolCalls,
      ((after.takeWhile (!·.isPlain)).filter (·.answers call.callId)).length = 1
  named : ∀ before t after, ts = before ++ t :: after → t.role = .TOOL →
    ∃ t', before.reverse.find? ChatTurn.isCalls = some t' ∧
      ∃ call ∈ t'.toolCalls, t.toolCallId = some call.callId

/-- A plain turn, or a call with its answer. -/
inductive Block where
  | plain (t : ChatTurn) (h : t.isPlain = true)
  | exchange (call : ToolCallRequest) (content text : String)

namespace Block

/-- The turn of a call. -/
def callTurn (call : ToolCallRequest) (content : String) : ChatTurn :=
  { role := .ASSISTANT, content, toolCalls := [call] }

/-- The turn of its answer. -/
def answerTurn (call : ToolCallRequest) (text : String) : ChatTurn :=
  { role := .TOOL, content := text, toolCallId := some call.callId }

/-- The turns of a block. -/
def turns : Block → List ChatTurn
  | .plain t _ => [t]
  | .exchange call content text => [callTurn call content, answerTurn call text]

/-- The identifiers of the calls with which blocks begin. -/
def openIds : List Block → List String
  | .exchange call _ _ :: bs => call.callId :: openIds bs
  | _ => []

/-- Between two plain turns, no identifier is used twice. -/
def Distinct : List Block → Prop
  | [] => True
  | .plain _ _ :: bs => Distinct bs
  | .exchange call _ _ :: bs => call.callId ∉ openIds bs ∧ Distinct bs

theorem Distinct.of_append {bs bs' : List Block} (h : Distinct (bs ++ bs')) : Distinct bs' := by
  induction bs with
  | nil => exact h
  | cons b bs ih =>
    cases b with
    | plain => exact ih h
    | exchange => exact ih h.2

theorem openIds_append_plain (bs bs' : List Block) (t : ChatTurn) (ht : t.isPlain = true) :
    openIds (bs ++ .plain t ht :: bs') = openIds bs := by
  induction bs with
  | nil => rfl
  | cons b bs ih =>
    cases b with
    | plain => rfl
    | exchange call => exact congrArg (call.callId :: ·) ih

/-- **A plain turn separates.** -/
theorem distinct_append_plain {bs bs' : List Block} {t : ChatTurn} {ht : t.isPlain = true} :
    Distinct (bs ++ .plain t ht :: bs') ↔ Distinct bs ∧ Distinct bs' := by
  induction bs with
  | nil => exact (and_iff_right trivial).symm
  | cons b bs ih =>
    cases b with
    | plain => exact ih
    | exchange =>
      rw [List.cons_append, Distinct, openIds_append_plain, ih, Distinct, and_assoc]

/-- A turn stands in the turns of some blocks, between these. -/
inductive At : List Block → List ChatTurn → ChatTurn → List ChatTurn → Prop where
  | plain (t : ChatTurn) (ht : t.isPlain = true) (bs : List Block) :
      At (.plain t ht :: bs) [] t (bs.flatMap turns)
  | call (call : ToolCallRequest) (content text : String) (bs : List Block) :
      At (.exchange call content text :: bs) [] (callTurn call content)
        (answerTurn call text :: bs.flatMap turns)
  | answer (call : ToolCallRequest) (content text : String) (bs : List Block) :
      At (.exchange call content text :: bs) [callTurn call content] (answerTurn call text)
        (bs.flatMap turns)
  | next (b : Block) {bs : List Block} {before : List ChatTurn} {t : ChatTurn}
      {after : List ChatTurn} (h : At bs before t after) :
      At (b :: bs) (b.turns ++ before) t after

theorem at_of_eq {bs : List Block} {before after : List ChatTurn} {t : ChatTurn}
    (h : bs.flatMap turns = before ++ t :: after) : At bs before t after := by
  induction bs generalizing before with
  | nil => simp at h
  | cons b bs ih =>
    cases b with
    | plain t' ht' =>
      cases before with
      | nil =>
        simp only [List.flatMap_cons, turns, List.cons_append, List.nil_append,
          List.cons.injEq] at h
        obtain ⟨rfl, rfl⟩ := h
        exact .plain _ _ _
      | cons t'' before =>
        simp only [List.flatMap_cons, turns, List.cons_append, List.nil_append,
          List.cons.injEq] at h
        obtain ⟨rfl, hrest⟩ := h
        exact .next (.plain _ ht') (ih hrest)
    | exchange call content text =>
      match before, h with
      | [], h =>
        simp only [List.flatMap_cons, turns, List.cons_append, List.nil_append,
          List.cons.injEq] at h
        obtain ⟨rfl, rfl⟩ := h
        exact .call _ _ _ _
      | [t₁], h =>
        simp only [List.flatMap_cons, turns, List.cons_append, List.nil_append,
          List.cons.injEq] at h
        obtain ⟨rfl, rfl, rfl⟩ := h
        exact .answer _ _ _ _
      | t₁ :: t₂ :: before, h =>
        simp only [List.flatMap_cons, turns, List.cons_append, List.nil_append,
          List.cons.injEq] at h
        obtain ⟨rfl, rfl, hrest⟩ := h
        exact .next (.exchange _ _ _) (ih hrest)

/-- The answers before the next plain turn are those of the calls that blocks begin with. -/
theorem filter_answers_eq_nil {bs : List Block} {callId : String} (h : callId ∉ openIds bs) :
    ((bs.flatMap turns).takeWhile (!·.isPlain)).filter (·.answers callId) = [] := by
  induction bs with
  | nil => rfl
  | cons b bs ih =>
    cases b with
    | plain t ht => simp [turns, ht]
    | exchange call content text =>
      rw [openIds, List.mem_cons, not_or] at h
      have hne : ¬ call.callId = callId := fun heq => h.1 heq.symm
      have := ih h.2
      simp_all [turns, callTurn, answerTurn, ChatTurn.isPlain, ChatTurn.answers]

/-- An answer stands after its call. -/
theorem At.named {bs : List Block} {before after : List ChatTurn} {t : ChatTurn}
    (h : At bs before t after) (ht : t.role = .TOOL) :
    ∃ t', before.reverse.find? ChatTurn.isCalls = some t' ∧
      ∃ call ∈ t'.toolCalls, t.toolCallId = some call.callId := by
  induction h with
  | plain t ht' => simp [ChatTurn.isPlain, ht] at ht'
  | call => simp [callTurn] at ht
  | answer call content text bs =>
    exact ⟨callTurn call content, rfl, call, List.mem_singleton.2 rfl, rfl⟩
  | next b _ ih =>
    obtain ⟨t', hfind, hcall⟩ := ih ht
    exact ⟨t', by rw [List.reverse_append, List.find?_append, hfind, Option.some_or], hcall⟩

/-- A call stands before its answer, and no other answers it. -/
theorem At.answered {bs : List Block} {before after : List ChatTurn} {t : ChatTurn}
    (h : At bs before t after) (hd : Distinct bs) (ht : t.isCalls = true) :
    ∀ call ∈ t.toolCalls,
      ((after.takeWhile (!·.isPlain)).filter (·.answers call.callId)).length = 1 := by
  induction h with
  | plain t ht' =>
    simp only [ChatTurn.isPlain, ChatTurn.isCalls, decide_eq_true_eq] at ht' ht
    rcases ht' with hrole | ⟨-, hnil⟩
    · simp [hrole] at ht
    · exact absurd hnil ht.2
  | call call content text bs =>
    intro call' hcall'
    obtain rfl := List.mem_singleton.1 hcall'
    have hnone := filter_answers_eq_nil hd.1
    have hanswer : (answerTurn call' text).isPlain = false := by simp [answerTurn, ChatTurn.isPlain]
    rw [List.takeWhile_cons_of_pos (by simp [hanswer]), List.filter_cons_of_pos, hnone]
    · rfl
    · simp [answerTurn, ChatTurn.answers]
  | answer => simp [answerTurn, ChatTurn.isCalls] at ht
  | next b _ ih => exact ih (@Distinct.of_append [b] _ hd) ht

/-- **Blocks make a well-formed transcript.** -/
theorem Distinct.wellFormed {bs : List Block} (h : Distinct bs) :
    WellFormed (bs.flatMap turns) where
  answered _ _ _ heq := (at_of_eq heq).answered h
  named _ _ _ heq := (at_of_eq heq).named

/-- A call with its answer, as a block. -/
def ofCall (x : ToolCallRequest × String × String) : Block := .exchange x.1 x.2.1 x.2.2

theorem distinct_ofCall {xs : List (ToolCallRequest × String × String)} :
    Distinct (xs.map ofCall) ↔ (xs.map (·.1.callId)).Nodup := by
  have hids : ∀ xs : List (ToolCallRequest × String × String),
      openIds (xs.map ofCall) = xs.map (·.1.callId) := fun xs => by
    induction xs with
    | nil => rfl
    | cons x xs ih => exact congrArg (x.1.callId :: ·) ih
  induction xs with
  | nil => simp [Distinct]
  | cons x xs ih =>
    rw [List.map_cons, List.map_cons, List.nodup_cons]
    exact and_congr (by rw [hids]) ih

end Block

open Block (turns callTurn answerTurn openIds Distinct ofCall distinct_append_plain distinct_ofCall)

/-- A transcript of blocks, after whose last plain turn the identifiers `used` are used. -/
def Continues (used : List String) (ts : List ChatTurn) : Prop :=
  ∃ (bs : List Block) (t : ChatTurn) (ht : t.isPlain = true)
    (xs : List (ToolCallRequest × String × String)), Distinct bs ∧
      xs.map (·.1.callId) = used ∧ ts = (bs ++ .plain t ht :: xs.map ofCall).flatMap turns

namespace Continues

variable {used : List String} {ts : List ChatTurn}

theorem wellFormed (h : Continues used ts) (hu : used.Nodup) : WellFormed ts := by
  obtain ⟨bs, t, ht, xs, hd, rfl, rfl⟩ := h
  exact (distinct_append_plain.2 ⟨hd, distinct_ofCall.2 hu⟩).wellFormed

theorem exchange (h : Continues used ts) (call : ToolCallRequest) (content text : String) :
    Continues (used ++ [call.callId]) (ts ++ (Block.exchange call content text).turns) := by
  obtain ⟨bs, t, ht, xs, hd, rfl, rfl⟩ := h
  refine ⟨bs, t, ht, xs ++ [(call, content, text)], hd, by simp, ?_⟩
  simp [ofCall]

end Continues

/-! ## Rows -/

/-- Messages stand for blocks. -/
inductive Stand : List Message → List Block → Prop where
  | nil : Stand [] []
  | plain {m ms bs} (ht : m.toTurn.isPlain = true) (h : Stand ms bs) :
      Stand (m :: ms) (.plain m.toTurn ht :: bs)
  | exchange {m m' ms bs} {call : ToolCallRequest} {text : String}
      (hm : m.toTurn = callTurn call "") (hm' : m'.toTurn = answerTurn call text)
      (h : Stand ms bs) : Stand (m :: m' :: ms) (.exchange call "" text :: bs)

@[simp] theorem Message.toTurn_role (m : Message) : m.toTurn.role = m.role := by
  unfold Message.toTurn
  split <;> simp_all

namespace Stand

variable {ms ms' : List Message} {bs bs' : List Block}

theorem turns_eq (h : Stand ms bs) : ms.map Message.toTurn = bs.flatMap turns := by
  induction h with
  | nil => rfl
  | plain ht _ ih => exact congrArg _ ih
  | exchange hm hm' _ ih => simp [hm, hm', ih, turns]

theorem append (h : Stand ms bs) (h' : Stand ms' bs') : Stand (ms ++ ms') (bs ++ bs') := by
  induction h with
  | nil => exact h'
  | plain ht _ ih => exact .plain ht ih
  | exchange hm hm' _ ih => exact .exchange hm hm' ih

/-- **A suffix stands for blocks** unless it begins with an answer. -/
theorem of_append {pre : List Message} (h : Stand (pre ++ ms') bs)
    (hhead : ∀ m ∈ ms'.head?, m.role ≠ .TOOL) : ∃ bs₁ bs₂, bs = bs₁ ++ bs₂ ∧ Stand ms' bs₂ := by
  generalize heq : pre ++ ms' = ms at h
  induction h generalizing pre with
  | nil =>
    obtain ⟨-, rfl⟩ := List.append_eq_nil_iff.1 heq
    exact ⟨[], [], rfl, .nil⟩
  | @plain m ms bs ht h ih =>
    cases pre with
    | nil =>
      obtain rfl : ms' = m :: ms := heq
      exact ⟨[], _, rfl, .plain ht h⟩
    | cons m' pre =>
      obtain ⟨bs₁, bs₂, rfl, hs⟩ := ih (List.cons.inj heq).2
      exact ⟨_ :: bs₁, bs₂, rfl, hs⟩
  | @exchange m m' ms bs call text hm hm' h ih =>
    match pre, heq with
    | [], heq =>
      obtain rfl : ms' = m :: m' :: ms := heq
      exact ⟨[], _, rfl, .exchange hm hm' h⟩
    | [_], heq =>
      obtain rfl : ms' = m' :: ms := (List.cons.inj heq).2
      have hrole : m'.toTurn.role = .TOOL := by rw [hm', answerTurn]
      exact absurd ((Message.toTurn_role m').symm.trans hrole) (hhead m' rfl)
    | _ :: _ :: pre, heq =>
      obtain ⟨bs₁, bs₂, rfl, hs⟩ := ih (List.cons.inj (List.cons.inj heq).2).2
      exact ⟨_ :: bs₁, bs₂, rfl, hs⟩

end Stand

/-- The messages of a list that its history is made of. -/
def kept (maxChars : ℕ) (ms : List Message) : List Message :=
  (takeWithin maxChars 0 true ms.reverse).reverse

theorem takeWithin_prefix (maxChars total : ℕ) (first : Bool) (ms : List Message) :
    takeWithin maxChars total first ms <+: ms := by
  induction ms generalizing total first with
  | nil => exact List.prefix_refl _
  | cons m ms ih =>
    rw [takeWithin]
    split
    · exact List.nil_prefix
    · exact (List.prefix_cons_inj m).2 (ih _ _)

theorem kept_suffix (maxChars : ℕ) (ms : List Message) : kept maxChars ms <:+ ms := by
  rw [kept, ← List.reverse_prefix, List.reverse_reverse]
  exact takeWithin_prefix ..

/-- The newest message is always kept. -/
theorem kept_concat (maxChars : ℕ) (ms : List Message) (m : Message) :
    kept maxChars (ms ++ [m]) ≠ [] := by
  simp [kept, takeWithin]

/-- No limit cuts the newest messages off, nor a tool's answer from its call. -/
structure Uncleft (maxChars : ℕ) (ms : List Message) : Prop where
  length_le : ms.length ≤ maxPageSize
  head : ∀ m ∈ (kept maxChars ms).head?, m.role ≠ .TOOL

instance (maxChars : ℕ) (ms : List Message) : Decidable (Uncleft maxChars ms) :=
  decidable_of_iff (ms.length ≤ maxPageSize ∧ ∀ m ∈ (kept maxChars ms).head?, m.role ≠ .TOOL)
    ⟨fun h => ⟨h.1, h.2⟩, fun h => ⟨h.1, h.2⟩⟩

/-- **The history of an uncleft dialogue** continues it. -/
theorem Uncleft.continues {maxChars : ℕ} {ms : List Message} {m : Message} {bs : List Block}
    (hu : Uncleft maxChars (ms ++ [m])) (hs : Stand ms bs) (hd : Distinct bs)
    (hm : m.toTurn.isPlain = true) :
    Continues [] (messagesToHistory ((ms ++ [m]).take maxPageSize) maxChars) := by
  rw [List.take_of_length_le hu.length_le]
  change Continues [] ((kept maxChars (ms ++ [m])).map Message.toTurn)
  obtain ⟨pre, hpre⟩ := kept_suffix maxChars (ms ++ [m])
  have hall : Stand (pre ++ kept maxChars (ms ++ [m])) (bs ++ [.plain m.toTurn hm]) := by
    rw [hpre]
    exact hs.append (.plain hm .nil)
  obtain ⟨bs₁, bs₂, hbs, hkept⟩ := hall.of_append hu.head
  rcases List.eq_nil_or_concat bs₂ with rfl | ⟨bs₃, b, rfl⟩
  · generalize hk : kept maxChars (ms ++ [m]) = k at hkept
    cases hkept
    exact absurd hk (kept_concat maxChars ms m)
  · rw [List.concat_eq_append] at hbs hkept
    rw [← List.append_assoc] at hbs
    obtain ⟨rfl, hb⟩ := List.append_inj' hbs rfl
    obtain rfl := List.singleton_inj.1 hb
    exact ⟨bs₃, m.toTurn, hm, [], hd.of_append, rfl, hkept.turns_eq⟩

/-! ## Turns -/

/-- The tool calls of the streams that ended well. -/
def asked (l : List (GatewayRequest × GatewayStream)) : List ToolCallRequest :=
  l.flatMap fun x => if x.2.error.isNone then x.2.toolCalls else []

/-- The identifiers of the tool calls. -/
def askedIds (l : List (GatewayRequest × GatewayStream)) : List String :=
  (asked l).map (·.callId)

/-- Each stream asks for at most one read, under an identifier of its own that is not among
`used`. -/
structure Paired (used : List String) (l : List (GatewayRequest × GatewayStream)) : Prop where
  single : ∀ x ∈ l, x.2.error.isNone = true → x.2.toolCalls.length ≤ 1
  read : ∀ call ∈ asked l, isReadTool call.name = true ∧ call.callId ≠ ""
  distinct : (used ++ askedIds l).Nodup

instance (used : List String) (l : List (GatewayRequest × GatewayStream)) :
    Decidable (Paired used l) :=
  decidable_of_iff ((∀ x ∈ l, x.2.error.isNone = true → x.2.toolCalls.length ≤ 1) ∧
      (∀ call ∈ asked l, isReadTool call.name = true ∧ call.callId ≠ "") ∧
        (used ++ askedIds l).Nodup)
    ⟨fun h => ⟨h.1, h.2.1, h.2.2⟩, fun h => ⟨h.1, h.2, h.3⟩⟩

theorem asked_append (l l' : List (GatewayRequest × GatewayStream)) :
    asked (l ++ l') = asked l ++ asked l' := List.flatMap_append

theorem askedIds_append (l l' : List (GatewayRequest × GatewayStream)) :
    askedIds (l ++ l') = askedIds l ++ askedIds l' := by
  rw [askedIds, asked_append, List.map_append]
  rfl

namespace Paired

variable {used : List String} {l l' : List (GatewayRequest × GatewayStream)}

theorem left (h : Paired used (l ++ l')) : Paired used l where
  single x hx := h.single x (List.mem_append_left _ hx)
  read call hc := h.read call (by rw [asked_append]; exact List.mem_append_left _ hc)
  distinct := by
    have := h.distinct
    rw [askedIds_append, ← List.append_assoc] at this
    exact this.of_append_left

theorem right (h : Paired used (l ++ l')) : Paired (used ++ askedIds l) l' where
  single x hx := h.single x (List.mem_append_right _ hx)
  read call hc := h.read call (by rw [asked_append]; exact List.mem_append_right _ hc)
  distinct := by
    have := h.distinct
    rwa [askedIds_append, ← List.append_assoc] at this

theorem nodup (h : Paired used l) : used.Nodup := h.distinct.of_append_left

/-- A stream that ended well and asks for something asks for one read. -/
theorem one {r : GatewayRequest} {y : GatewayStream} (h : Paired used [(r, y)])
    (hy : y.error = none) (hc : y.toolCalls ≠ []) :
    ∃ call, y.toolCalls = [call] ∧ asked [(r, y)] = [call] ∧ isReadTool call.name = true ∧
      call.callId ≠ "" := by
  have hasked : asked [(r, y)] = y.toolCalls := by simp [asked, hy]
  have hle := h.single (r, y) (List.mem_singleton.2 rfl) (by rw [hy]; rfl)
  obtain ⟨call, hcall⟩ := List.length_eq_one_iff.1
    (Nat.le_antisymm hle (List.length_pos_of_ne_nil hc))
  refine ⟨call, hcall, hasked.trans hcall, h.read call ?_⟩
  rw [hasked, hcall]
  exact List.mem_singleton.2 rfl

end Paired

/-- What a turn stores after its user's message: calls under these identifiers with their
answers, and perhaps a last message. -/
inductive Wrote : List String → List Message → Prop where
  | nothing : Wrote [] []
  | last {m} (ht : m.toTurn.isPlain = true) : Wrote [] [m]
  | exchange {m m' ids ms} {call : ToolCallRequest} {text : String}
      (hm : m.toTurn = callTurn call "") (hm' : m'.toTurn = answerTurn call text)
      (h : Wrote ids ms) : Wrote (call.callId :: ids) (m :: m' :: ms)

theorem Wrote.stand {ids : List String} {ms : List Message} (h : Wrote ids ms) :
    ∃ bs, Stand ms bs ∧ openIds bs = ids ∧ (ids.Nodup → Distinct bs) := by
  induction h with
  | nothing => exact ⟨[], .nil, rfl, fun _ => trivial⟩
  | last ht => exact ⟨_, .plain ht .nil, rfl, fun _ => trivial⟩
  | exchange hm hm' _ ih =>
    obtain ⟨bs, hs, rfl, hd⟩ := ih
    exact ⟨_, .exchange hm hm' hs, rfl, fun hn =>
      ⟨(List.nodup_cons.1 hn).1, hd (List.nodup_cons.1 hn).2⟩⟩

/-- Every gateway call is sent a well-formed history, while the streams before it are paired. -/
def Sends (used : List String) (ms : List Mark) : Prop :=
  ∀ ms₁ r x ms₂, ms = ms₁ ++ .call r x :: ms₂ → Paired used (delivered ms₁) → WellFormed r.history

namespace Sends

variable {used : List String} {ms ms' : List Mark} {l : List (GatewayRequest × GatewayStream)}

theorem of_no_calls (h : gatewayCalls ms = []) : Sends used ms := by
  rintro ms₁ r x ms₂ rfl
  simp [gatewayCalls] at h

theorem append_right (h : Sends used ms) (h' : gatewayCalls ms' = []) :
    Sends used (ms ++ ms') := by
  intro ms₁ r x ms₂ heq hp
  rcases List.append_eq_append_iff.1 heq with ⟨as, rfl, rfl⟩ | ⟨as, rfl, has⟩
  · simp [gatewayCalls] at h'
  · cases as with
    | nil =>
      rw [List.nil_append] at has
      rw [← has] at h'
      simp [gatewayCalls] at h'
    | cons m as =>
      obtain ⟨rfl, -⟩ := List.cons.inj has
      exact h ms₁ r x as rfl hp

/-- **Sequencing.** -/
theorem append (h : Sends used ms) (ha : Accounts ms l)
    (h' : Paired used l → Sends (used ++ askedIds l) ms') : Sends used (ms ++ ms') := by
  intro ms₁ r x ms₂ heq hp
  rcases List.append_eq_append_iff.1 heq with ⟨as, rfl, has⟩ | ⟨as, rfl, has⟩
  · rw [ha] at hp
    exact h' hp.left as r x ms₂ has hp.right
  · cases as with
    | nil =>
      rw [List.append_nil] at ha
      have hl : Paired used (l ++ []) := by rwa [List.append_nil, ← ha.delivered_eq]
      exact h' hl.left [] r x ms₂ has.symm hl.right
    | cons m as =>
      obtain ⟨rfl, -⟩ := List.cons.inj has
      exact h ms₁ r x as rfl hp

end Sends

section Turn

variable [Sha256] [JsonText] [Deployment] {e : TurnContext} {s s' : Turn} {ms : List Mark}
  {used : List String}

omit [Sha256] [JsonText] in
theorem Round.sends {o : Option (Except Err Unit)} (h : Round e s ms o s')
    (hs : used.Nodup → WellFormed s.history) : Sends used ms := by
  obtain ⟨ma, x, rest, ha, rfl, hrest⟩ := h.asks
  have hno : ∀ {ms₁ r x ms₂}, rest = ms₁ ++ .call r x :: ms₂ → False := fun {_ r x _} heq =>
    hrest (.call r x) (by rw [heq]; exact List.mem_append_right _ List.mem_cons_self)
  intro ms₁ r x' ms₂ heq hp
  cases ha with
  | configured hc x =>
    cases ms₁ with
    | nil =>
      obtain ⟨hcall, -⟩ := List.cons.inj heq
      obtain ⟨rfl, -⟩ := Mark.call.inj hcall
      exact hs hp.nodup
    | cons m ms₁ =>
      exact (hno (List.cons.inj heq).2).elim
  | null => exact (hno heq).elim

omit [Sha256] [JsonText] [Deployment] in
/-- One call is stored. -/
theorem Stores.one {call : ToolCallRequest} (h : Stores e s [call] ms (.ok ()))
    (hid : call.callId ≠ "") : ∃ m call', storedMessages ms = [m] ∧
      m.toTurn = callTurn call' "" ∧ call'.callId = call.callId := by
  have hrows := h.rows
  generalize storedMessages ms = rows at hrows
  cases hrows with
  | @cons call m calls rows hm hrest =>
    cases hrest
    exact ⟨m, _, rfl, hm, (orElseText_eq_self_iff (Uuid.str_ne_empty m.id)).2 hid⟩

omit [Sha256] [JsonText] [Deployment] in
/-- One call is answered. -/
theorem Answers.one {call : ToolCallRequest} (h : Answers e [call] s ms (.ok ()) s') :
    ∃ m text, storedMessages ms = [m] ∧ m.toTurn = answerTurn call text ∧
      s'.history = s.history ++ [answerTurn call text] := by
  have hhist := h.rows
  cases h with
  | @cons call calls s mf ms r s' hmf text id createdAt h =>
    cases h
    rw [storedMessages_append, storedMessages_of_slight hmf] at hhist ⊢
    exact ⟨_, text, rfl, rfl, hhist⟩

omit [Sha256] [JsonText] in
/-- **A round of paired streams is an exchange**, if the next begins. -/
theorem Round.exchange {o : Option (Except Err Unit)} (h : Round e s ms o s') (ho : o = none)
    (hs : s.toolCallsThisRound = []) (ht : s.accumulatedText = "") :
    ∃ l, Accounts ms l ∧ ∀ used, Paired used l → ∃ call content text,
      askedIds l = [call.callId] ∧
      s'.history = s.history ++ (Block.exchange call content text).turns ∧
        ∀ ids rows, Wrote ids rows → Wrote (call.callId :: ids) (storedMessages ms ++ rows) := by
  cases h with
  | @next ma mp mr ma' x s₁ s' ha hp hc hr hw hans =>
    obtain ⟨l, y, hd, hend, hhist, hcalls, -⟩ := ha.taken hs ht hp
    have hno := gatewayCalls_of_follows hr.follows
    have hno' := gatewayCalls_of_follows (hans.follows s.choice)
    refine ⟨l, (hd.accounts.append_right hno).append_right hno', fun used hpair => ?_⟩
    have hy := GatewayStream.ends_eq_ok_iff.1 hend.symm
    rw [hcalls] at hc hr
    rw [hd.call_of_calls hc] at hpair ⊢
    obtain ⟨call, hcall, hasked, hread, hid⟩ := hpair.one hy hc
    rw [Turn.readCalls, hcalls, hcall, List.filter_singleton, hread] at hans
    rw [hcall] at hr
    obtain ⟨m, call', hm, hturn, hid'⟩ := hr.one hid
    obtain ⟨m', text, hm', hturn', hhist'⟩ := hans.one
    refine ⟨call, s₁.accumulatedText, text, ?_, ?_, fun ids rows hrows => ?_⟩
    · rw [askedIds, hasked]
      rfl
    · rw [hhist', Turn.addCalls, hcalls, hcall, hhist, List.append_assoc]
      rfl
    · rw [storedMessages_append, storedMessages_append, hd.stored, hm, hm', ← hid']
      have hanswer : m'.toTurn = answerTurn call' text := by
        rw [hturn', answerTurn, answerTurn, hid']
      exact .exchange hturn hanswer hrows
  | _ => simp at ho

omit [Sha256] [JsonText] [Deployment] in
theorem isWriteTool_of_read {name : String} (h : isReadTool name = true) :
    isWriteTool name = false := by
  have hname : name = "list_my_open_tasks" := by simpa [isReadTool, readTools] using h
  rw [hname]
  decide

omit [Sha256] [JsonText] [Deployment] in
theorem Stores.failed_mem {calls : List ToolCallRequest} {err : Err} {r : Except Err Unit}
    (h : Stores e s calls ms r) (hr : r = .error err) : .failed ∈ ms := by
  induction h with
  | nil => simp at hr
  | failed => exact List.mem_singleton.2 rfl
  | cons _ _ _ ih => exact List.mem_cons_of_mem _ (ih hr)

omit [Sha256] [JsonText] [Deployment] in
theorem Answers.failed_mem {calls : List ToolCallRequest} {err : Err} {r : Except Err Unit}
    (h : Answers e calls s ms r s') (hr : r = .error err) : .failed ∈ ms := by
  induction h with
  | nil => simp at hr
  | failed => exact List.mem_append_right _ (List.mem_singleton.2 rfl)
  | cons _ _ _ _ _ ih => exact List.mem_append_right _ (List.mem_cons_of_mem _ (ih hr))

omit [Sha256] [JsonText] [Deployment] in
/-- The last message is plain. -/
theorem Finishes.wrote {content reason : String} {r : Except Err Unit}
    (h : Finishes e s content reason ms r s') (hf : .failed ∉ ms) :
    Wrote [] (storedMessages ms) := by
  cases h with
  | stored id createdAt => exact .last rfl
  | failed => exact absurd (List.mem_singleton.2 rfl) hf

omit [Sha256] [JsonText] in
/-- **The last round of paired streams** stores a last message, or nothing. -/
theorem Round.wrote {o : Option (Except Err Unit)} {r : Except Err Unit} (h : Round e s ms o s')
    (ho : o = some r) (hf : .failed ∉ ms) (hs : s.toolCallsThisRound = [])
    (ht : s.accumulatedText = "") :
    ∃ l, Accounts ms l ∧ ∀ used, Paired used l →
      askedIds l = [] ∧ Wrote [] (storedMessages ms) := by
  -- a write call is no read
  have hwrites : ∀ {ma mp mr rest x s₁}, Asks e s ma x → Pulls x s mp (.ok ()) s₁ →
      s₁.toolCallsThisRound ≠ [] → s₁.writeCalls ≠ [] →
      Stores e s₁ s₁.toolCallsThisRound mr (.ok ()) → gatewayCalls rest = [] →
      ∃ l, Accounts (ma ++ mp ++ mr ++ rest) l ∧ ∀ used, Paired used l → askedIds l = [] ∧
        Wrote [] (storedMessages (ma ++ mp ++ mr ++ rest)) := by
    intro ma mp mr rest x s₁ ha hp hc hw hr hrest
    obtain ⟨l, y, hd, hend, -, hcalls, -⟩ := ha.taken hs ht hp
    refine ⟨l, (hd.accounts.append_right (gatewayCalls_of_follows hr.follows)).append_right hrest,
      fun used hpair => ?_⟩
    have hy := GatewayStream.ends_eq_ok_iff.1 hend.symm
    rw [hcalls] at hc
    rw [hd.call_of_calls hc] at hpair
    obtain ⟨call, hcall, -, hread, -⟩ := hpair.one hy hc
    exact absurd (by simp [Turn.writeCalls, hcalls, hcall, isWriteTool_of_read hread]) hw
  cases h with
  | next => simp at ho
  | @broken ma mp x err s ha hp =>
    obtain ⟨l, y, hd, hend, -⟩ := ha.taken hs ht hp
    refine ⟨l, hd.accounts, fun _ _ => ⟨?_, by rw [hd.stored]; exact .nothing⟩⟩
    have hy : y.error ≠ none := fun hnone => by
      rw [GatewayStream.ends_eq_ok_iff.2 hnone] at hend
      simp at hend
    rcases hd.call with rfl | ⟨rfl, -⟩
    · simp [askedIds, asked, hy]
    · rfl
  | @answered ma mp mf x s r s' ha hp hc hfin =>
    obtain ⟨l, y, hd, -, -, hcalls, -⟩ := ha.taken hs ht hp
    refine ⟨l, hd.accounts.append_right (gatewayCalls_of_follows hfin.follows), fun _ _ => ⟨?_, ?_⟩⟩
    · rw [hcalls] at hc
      rcases hd.call with rfl | ⟨rfl, -⟩
      · simp [askedIds, asked, hc]
      · rfl
    · rw [storedMessages_append, hd.stored]
      exact hfin.wrote fun hmem => hf (List.mem_append_right _ hmem)
  | unstored ha hp hc hr =>
    exact absurd (List.mem_append_right _ (hr.failed_mem rfl)) hf
  | unanswered ha hp hc hr hw hans =>
    exact absurd (List.mem_append_right _ (hans.failed_mem rfl)) hf
  | refused ha hp hc hr hw hmf =>
    exact hwrites ha hp hc hw hr (gatewayCalls_of_follows (@follows_of_slight s.choice _ hmf))
  | unreported ha hp hc hr hw hmf content hfin =>
    refine absurd (List.mem_append_right _ ?_) hf
    cases hfin
    exact List.mem_singleton.2 rfl
  | reported ha hp hc hr hmf hw action hfin taken =>
    rw [List.append_assoc, List.append_assoc]
    refine hwrites ha hp hc (List.ne_nil_of_mem hw) hr ?_
    simp only [gatewayCalls_append, gatewayCalls_of_follows hfin.follows,
      gatewayCalls_of_follows (@follows_of_slight s.choice _ hmf)]
    rfl

omit [Sha256] [JsonText] in
/-- **The rounds send well-formed histories.** -/
theorem Rounds.sends {n : ℕ} {r : Except Err Unit} (h : Rounds e n s ms r s')
    (hs : Continues used s.history) : Sends used ms := by
  induction h generalizing used with
  | exhausted hf => exact .of_no_calls (gatewayCalls_of_follows hf.follows)
  | ends h => exact h.sends hs.wellFormed
  | next h _ ih =>
    obtain ⟨l, ha, hexchange⟩ := h.exchange rfl rfl rfl
    refine (h.sends hs.wellFormed).append ha fun hpair => ?_
    obtain ⟨call, content, text, hids, hhist, -⟩ := hexchange used hpair
    rw [hids]
    refine ih ?_
    rw [hhist]
    exact hs.exchange call content text

omit [Sha256] [JsonText] in
/-- **What the rounds store.** -/
theorem Rounds.wrote {n : ℕ} {r : Except Err Unit} (h : Rounds e n s ms r s')
    (hf : .failed ∉ ms) :
    ∃ l, Accounts ms l ∧ ∀ used, Paired used l → Wrote (askedIds l) (storedMessages ms) := by
  induction h with
  | exhausted hfin =>
    exact ⟨[], .of_no_calls (gatewayCalls_of_follows hfin.follows), fun _ _ => hfin.wrote hf⟩
  | ends h =>
    obtain ⟨l, ha, hwrote⟩ := h.wrote rfl hf rfl rfl
    refine ⟨l, ha, fun used hpair => ?_⟩
    obtain ⟨hids, hrows⟩ := hwrote used hpair
    rwa [hids]
  | next h _ ih =>
    obtain ⟨l, ha, hexchange⟩ := h.exchange rfl rfl rfl
    obtain ⟨l', ha', hwrote⟩ := ih fun hmem => hf (List.mem_append_right _ hmem)
    refine ⟨l ++ l', ha.append ha', fun used hpair => ?_⟩
    obtain ⟨call, content, text, hids, -, hrows⟩ := hexchange used hpair.left
    rw [storedMessages_append, askedIds_append, hids]
    exact hrows _ _ (hwrote _ hpair.right)

omit [Sha256] [JsonText] in
/-- **Rounds whose error may fall back** ask for nothing and store nothing. -/
theorem Rounds.broke_off {n : ℕ} {err : Err} (h : Rounds e n s ms (.error err) s')
    (hn : n ≤ settings.maxToolRounds) (hm : s'.mayFallBack err) :
    s'.history = s.history ∧ storedMessages ms = [] ∧ ∃ l, Accounts ms l ∧ askedIds l = [] := by
  obtain ⟨i, ma, mp, x, rfl, ha, hp⟩ := h.broke rfl hn hm
  obtain ⟨l, y, hd, -, hhist, hcalls, -⟩ := ha.taken rfl rfl hp
  refine ⟨hhist, hd.stored, l, hd.accounts, ?_⟩
  have hy : y.toolCalls = [] := hcalls.symm.trans hm.2.2.2
  rcases hd.call with rfl | ⟨rfl, -⟩
  · simp [askedIds, asked, hy]
  · rfl

omit [Sha256] [JsonText] [Deployment] in
theorem Mark.Setting.no_calls (h : ∀ m ∈ ms, m.Setting) : gatewayCalls ms = [] := by
  refine List.filterMap_eq_nil_iff.2 fun m hm => ?_
  have := h m hm
  cases m <;> first | rfl | exact this.elim

omit [Sha256] [JsonText] in
/-- **A loop sends well-formed histories**, whichever provider it ends on. -/
theorem Loop.sends {r : Except Err Unit} (h : Loop e s ms r s') (hs : Continues used s.history) :
    Sends used ms := by
  cases h with
  | done h | raised h => exact h.sends hs
  | optedOut h => exact (h.sends hs).append_right rfl
  | unpicked h _ x _ hp => exact (h.sends hs).append_right (hp.gatewayCalls x)
  | unread h _ hms => exact (h.sends hs).append_right (Mark.Setting.no_calls hms)
  | @fallback ms err s₁ mp provider ms' r s' h hm x hx hp h' =>
    obtain ⟨hhist, -, l, ha, hids⟩ := h.broke_off le_rfl hm
    have hno := hp.gatewayCalls x
    refine ((h.sends hs).append_right hno).append (ha.append_right hno) fun _ => ?_
    rw [hids, List.append_nil]
    refine h'.sends ?_
    rw [Turn.moveTo, hhist]
    exact hs

omit [Sha256] [JsonText] in
/-- **What a loop stores.** -/
theorem Loop.wrote {r : Except Err Unit} (h : Loop e s ms r s') (hf : .failed ∉ ms) :
    ∃ l, Accounts ms l ∧ ∀ used, Paired used l → Wrote (askedIds l) (storedMessages ms) := by
  have hrest : ∀ {ms ms' : List Mark}, storedMessages ms' = [] → gatewayCalls ms' = [] →
      (∃ l, Accounts ms l ∧ ∀ used, Paired used l → Wrote (askedIds l) (storedMessages ms)) →
      ∃ l, Accounts (ms ++ ms') l ∧ ∀ used, Paired used l →
        Wrote (askedIds l) (storedMessages (ms ++ ms')) := by
    rintro ms ms' hstored hno ⟨l, ha, hw⟩
    refine ⟨l, ha.append_right hno, fun used hp => ?_⟩
    rw [storedMessages_append, hstored, List.append_nil]
    exact hw used hp
  have hleft : ∀ {ms ms' : List Mark}, .failed ∉ ms ++ ms' → .failed ∉ ms :=
    fun hf hmem => hf (List.mem_append_left _ hmem)
  cases h with
  | done h | raised h => exact h.wrote hf
  | optedOut h => exact hrest rfl rfl (h.wrote (hleft hf))
  | unpicked h _ x _ hp =>
    exact hrest (storedMessages_of_aside (List.forall_mem_cons.2 ⟨trivial, hp.aside⟩))
      (hp.gatewayCalls x) (h.wrote (hleft hf))
  | unread _ _ _ hmem => exact absurd (List.mem_append_right _ hmem) hf
  | @fallback ms err s₁ mp provider ms' r s' h hm x hx hp h' =>
    obtain ⟨-, hstored, l, ha, hids⟩ := h.broke_off le_rfl hm
    obtain ⟨l', ha', hw⟩ := h'.wrote fun hmem => hf (List.mem_append_right _ hmem)
    refine ⟨l ++ l', (ha.append_right (hp.gatewayCalls x)).append ha', fun used hpair => ?_⟩
    have haside : storedMessages (.fallbackSetting e.context.customerId x :: mp) = [] :=
      storedMessages_of_aside (List.forall_mem_cons.2 ⟨trivial, hp.aside⟩)
    rw [storedMessages_append, storedMessages_append, hstored, haside, askedIds_append, hids]
    exact hw _ hpair.right

omit [Sha256] [JsonText] in
theorem Settles.stored {r₁ r : Except Err Unit} (h : Settles e s r₁ ms r s') :
    storedMessages ms = [] := by
  refine List.filterMap_eq_nil_iff.2 fun m hm => ?_
  have := h.ofSettlement m hm
  cases m <;> first | rfl | exact this.elim

omit [Sha256] [JsonText] in
theorem Turns.sends {r : Except Err Unit} (h : Turns e s ms r s') (hs : Continues used s.history) :
    Sends used ms := by
  cases h with
  | settled hl hset => exact (hl.sends hs).append_right hset.calls

omit [Sha256] [JsonText] in
theorem Turns.wrote {r : Except Err Unit} (h : Turns e s ms r s') (hf : .failed ∉ ms) :
    ∃ l, Accounts ms l ∧ ∀ used, Paired used l → Wrote (askedIds l) (storedMessages ms) := by
  cases h with
  | settled hl hset =>
    obtain ⟨l, ha, hw⟩ := hl.wrote fun hmem => hf (List.mem_append_left _ hmem)
    refine ⟨l, ha.append_right hset.calls, fun used hp => ?_⟩
    rw [storedMessages_append, hset.stored, List.append_nil]
    exact hw used hp

/-! ## Dialogues -/

/-- What keeps the transcripts of a turn well formed, of the messages before it and what is
seen of it. -/
structure Orderly (msgs : List Message) (ms : List Mark) : Prop where
  uncleft : Uncleft settings.maxContextChars (msgs ++ (storedMessages ms).take 1)
  paired : Paired [] (delivered ms)

instance (msgs : List Message) (ms : List Mark) : Decidable (Orderly msgs ms) :=
  decidable_of_iff (Uncleft settings.maxContextChars (msgs ++ (storedMessages ms).take 1) ∧
      Paired [] (delivered ms))
    ⟨fun h => ⟨h.1, h.2⟩, fun h => ⟨h.1, h.2⟩⟩

omit [Sha256] [JsonText] in
/-- A turn that is orderly was so at each of its gateway calls. -/
theorem Orderly.before_call {msgs : List Message} {ms ms' : List Mark} {r : GatewayRequest}
    {x : GatewayStream} (h : Orderly msgs (ms ++ .call r x :: ms')) (hne : storedMessages ms ≠ []) :
    Orderly msgs ms where
  uncleft := by
    have := h.uncleft
    rwa [storedMessages_append, List.take_append_of_le_length (List.length_pos_of_ne_nil hne)]
      at this
  paired := by
    have := h.paired
    rw [delivered_append_call] at this
    exact this.left

/-- The messages of a conversation between turns stand for distinct blocks. -/
def Coherent (msgs : List Message) : Prop := ∃ bs, Stand msgs bs ∧ Distinct bs

variable {context : WorkspaceContext} {conversation : Conversation} {traceId : Uuid}
  {content : String} {mode : ChatMode} {msgs : List Message}

omit [Sha256] [JsonText] in
/-- **The history a turn begins with** continues the dialogue. -/
theorem Begins.continues {mb : List Mark}
    (h : Begins context conversation traceId content mode mb e s)
    (hrec : TurnRecorded conversation.id msgs mb) (hmsgs : Coherent msgs) :
    ∃ m, storedMessages mb = [m] ∧ m.toTurn.isPlain = true ∧
      (Uncleft settings.maxContextChars (msgs ++ [m]) → Continues [] s.history) := by
  obtain ⟨m, hm, hturn, hhist⟩ := h.history_eq hrec
  obtain ⟨bs, hs, hd⟩ := hmsgs
  have hplain : m.toTurn.isPlain = true := by simp [ChatTurn.isPlain, hturn]
  refine ⟨m, hm, hplain, fun hu => ?_⟩
  rw [hhist]
  exact hu.continues hs hd hplain

omit [Sha256] [JsonText] in
theorem Begins.stored_ne_nil {mb : List Mark}
    (h : Begins context conversation traceId content mode mb e s) : storedMessages mb ≠ [] := by
  cases h
  simp [storedMessages]

/-- Every gateway call of a turn is made after its user's message is stored, and with a
well-formed history while the turn is orderly. -/
def Speaks (conversationId : Uuid) (msgs : List Message) (ms : List Mark) : Prop :=
  ∀ ms₁ q x ms₂, ms = ms₁ ++ .call q x :: ms₂ → storedMessages ms₁ ≠ [] ∧
    (TurnRecorded conversationId msgs ms₁ → Orderly msgs ms₁ → WellFormed q.history)

omit [Sha256] [JsonText] in
theorem Speaks.of_append {conversationId : Uuid} {ms ms' : List Mark}
    (h : Speaks conversationId msgs (ms ++ ms')) : Speaks conversationId msgs ms :=
  fun ms₁ q x ms₂ heq => h ms₁ q x (ms₂ ++ ms') (by rw [heq]; simp)

omit [Sha256] [JsonText] in
theorem Begins.speaks {mb mt : List Mark}
    (hb : Begins context conversation traceId content mode mb e s)
    (ht : Continues [] s.history → Sends [] mt) (hmsgs : Coherent msgs) :
    Speaks conversation.id msgs (mb ++ mt) := by
  have hno : gatewayCalls mb = [] := by
    refine List.filterMap_eq_nil_iff.2 fun m hm => ?_
    have := hb.beginning m hm
    cases m <;> first | rfl | exact this.elim
  intro ms₁ q x ms₂ heq
  rcases List.append_eq_append_iff.1 heq with ⟨as, rfl, has⟩ | ⟨as, rfl, has⟩
  · have hne : storedMessages (mb ++ as) ≠ [] := by
      rw [storedMessages_append]
      exact fun hnil => hb.stored_ne_nil (List.append_eq_nil_iff.1 hnil).1
    refine ⟨hne, fun hrec hord => ?_⟩
    obtain ⟨m, hm, -, hcont⟩ := hb.continues hrec.of_append hmsgs
    have huncleft := hord.uncleft
    rw [storedMessages_append, hm] at huncleft
    have hpaired := hord.paired
    rw [delivered_append hno] at hpaired
    exact ht (hcont huncleft) as q x ms₂ has hpaired
  · cases as with
    | nil =>
      rw [List.append_nil] at hb hno
      refine ⟨hb.stored_ne_nil, fun hrec hord => ?_⟩
      obtain ⟨m, hm, -, hcont⟩ := hb.continues hrec hmsgs
      have huncleft := hord.uncleft
      rw [hm] at huncleft
      exact ht (hcont huncleft) [] q x ms₂ has.symm
        ⟨by simp [delivered], by simp [delivered, asked], by simp [askedIds, asked, delivered]⟩
    | cons m as =>
      obtain ⟨rfl, -⟩ := List.cons.inj has
      simp [gatewayCalls] at hno

omit [Sha256] [JsonText] in
/-- **A turn sends well-formed histories.** -/
theorem Streams.speaks {r : Except Err Unit}
    (h : Streams context conversation traceId content mode ms r) (hmsgs : Coherent msgs) :
    Speaks conversation.id msgs ms := by
  cases h with
  | unbegun hms =>
    rintro ms₁ q x ms₂ rfl
    exact (hms (.call q x) (List.mem_append_right _ List.mem_cons_self)).elim
  | completed hb ht | closed hb ht | raised hb ht => exact hb.speaks ht.sends hmsgs
  | reported hb ht =>
    rw [List.append_assoc]
    exact hb.speaks (fun hs => (ht.sends hs).append_right rfl) hmsgs

omit [Sha256] [JsonText] in
/-- **What a turn stores** settles the dialogue again. -/
theorem Begins.settled {mb mt : List Mark} {l : List (GatewayRequest × GatewayStream)}
    (hb : Begins context conversation traceId content mode mb e s) (ha : Accounts mt l)
    (hw : ∀ used, Paired used l → Wrote (askedIds l) (storedMessages mt)) (hmsgs : Coherent msgs)
    (hrec : TurnRecorded conversation.id msgs (mb ++ mt)) (hord : Orderly msgs (mb ++ mt)) :
    Coherent (msgs ++ storedMessages (mb ++ mt)) := by
  have hno : gatewayCalls mb = [] := by
    refine List.filterMap_eq_nil_iff.2 fun m hm => ?_
    have := hb.beginning m hm
    cases m <;> first | rfl | exact this.elim
  have hpaired := hord.paired
  rw [delivered_append hno, ha.delivered_eq] at hpaired
  obtain ⟨m, hm, hplain, -⟩ := hb.continues hrec.of_append hmsgs
  obtain ⟨bs, hs, hd⟩ := hmsgs
  obtain ⟨bs', hs', -, hd'⟩ := (hw [] hpaired).stand
  refine ⟨bs ++ .plain m.toTurn hplain :: bs', ?_, distinct_append_plain.2 ⟨hd, hd' ?_⟩⟩
  · rw [storedMessages_append, hm]
    exact hs.append (.plain hplain hs')
  · simpa using hpaired.distinct

omit [Sha256] [JsonText] in
theorem Streams.settled {r : Except Err Unit}
    (h : Streams context conversation traceId content mode ms r) (hr : r = .ok ())
    (hf : .failed ∉ ms) (hmsgs : Coherent msgs) (hrec : TurnRecorded conversation.id msgs ms)
    (hord : Orderly msgs ms) : Coherent (msgs ++ storedMessages ms) := by
  cases h with
  | unbegun | raised => simp at hr
  | completed hb ht | closed hb ht =>
    obtain ⟨l, ha, hw⟩ := ht.wrote fun hmem => hf (List.mem_append_right _ hmem)
    exact hb.settled ha hw hmsgs hrec hord
  | @reported mb mt e s s' err hb ht _ _ taken =>
    rw [List.append_assoc] at hf hrec hord ⊢
    obtain ⟨l, ha, hw⟩ := ht.wrote fun hmem =>
      hf (List.mem_append_right _ (List.mem_append_left _ hmem))
    have hchunk : gatewayCalls [.chunk .error taken] = [] := rfl
    refine hb.settled (ha.append_right hchunk) (fun used hp => ?_) hmsgs hrec hord
    rw [storedMessages_append]
    simpa [storedMessages] using hw used hp

/-- A conversation after a sequence of turns, each of which satisfies `P`: its messages, and
what was sent to the gateways.  A turn may be unfinished, or its transaction rolled back;
then its messages are not kept. -/
inductive Dialogue (conversationId : Uuid) (P : List Message → List Mark → Prop) :
    List Message → List GatewayRequest → Prop where
  | new : Dialogue conversationId P [] []
  | turn {msgs reqs p context conversation traceId content mode h m evs msgs'}
      (hd : Dialogue conversationId P msgs reqs)
      (hr : Runs p (streamMessage context conversation traceId content mode) h m (evs ++ h))
      (hid : conversation.id = conversationId)
      (hrec : TurnRecorded conversationId msgs (marks evs)) (hP : P msgs (marks evs))
      (hmsgs : msgs' = msgs ∨ m = pure () ∧ .failed ∉ marks evs ∧
        msgs' = msgs ++ storedMessages (marks evs)) :
      Dialogue conversationId P msgs' (reqs ++ (gatewayCalls (marks evs)).map (·.1))

/-- **Transcripts are well formed** in every dialogue of orderly turns. -/
theorem dialogue_well_formed {conversationId : Uuid} {reqs : List GatewayRequest}
    (h : Dialogue conversationId Orderly msgs reqs) : ∀ r ∈ reqs, WellFormed r.history := by
  suffices hboth : Coherent msgs ∧ ∀ r ∈ reqs, WellFormed r.history from hboth.2
  induction h with
  | new => exact ⟨⟨[], .nil, trivial⟩, List.forall_mem_nil _⟩
  | @turn msgs reqs p context conversation traceId content mode h m evs msgs' hd hr hid hrec hP
      hmsgs ih =>
    subst hid
    obtain ⟨hset, hreqs⟩ := ih
    refine ⟨?_, List.forall_mem_append.2 ⟨hreqs, fun q hq => ?_⟩⟩
    · rcases hmsgs with rfl | ⟨rfl, hf, rfl⟩
      · exact hset
      · exact ((streamMessage_emits ..).returned hr).settled rfl hf hset hrec hP
    · have hspeaks : Speaks conversation.id msgs (marks evs) :=
        ((streamMessage_emits context conversation traceId content mode).mono
          (fun _ _ hst => hst.speaks hset) fun _ _ hst => hst.speaks hset).throughout
          (fun _ _ hs => hs.of_append) hr
      obtain ⟨⟨q, x⟩, hx, rfl⟩ := List.mem_map.1 hq
      obtain ⟨ms₁, ms₂, heq⟩ := List.append_of_mem (mem_gatewayCalls.1 hx)
      obtain ⟨hne, hwell⟩ := hspeaks ms₁ q x ms₂ heq
      rw [heq] at hrec hP
      exact hwell hrec.of_append (hP.before_call hne)

end Turn

/-! ## Sample dialogues -/

section Sample

attribute [local instance] plainSha plainJsonText sampleDeployment

/-- The mark is no failure. -/
def Mark.isFine : Mark → Bool
  | .failed => false
  | _ => true

/-- A turn after this history, if it ended well and nothing failed: its events. -/
def playMessage (O : Oracle Row Answer) (content : String) (h : Hist) : Option Hist :=
  match play O 0 (streamMessage sampleContext sampleConversation 9 content .STANDARD) h with
  | (.ok _, h') =>
    if (marks (h'.take (h'.length - h.length))).all Mark.isFine then
      some (h'.take (h'.length - h.length))
    else none
  | _ => none

theorem Dialogue.playMessage {O : Oracle Row Answer} {content : String} {h evs : Hist}
    {P : List Message → List Mark → Prop} {msgs : List Message} {reqs : List GatewayRequest}
    (hd : Dialogue 8 P msgs reqs) (hplay : playMessage O content h = some evs)
    (hrec : TurnRecorded 8 msgs (marks evs)) (hP : P msgs (marks evs)) :
    Dialogue 8 P (msgs ++ storedMessages (marks evs))
      (reqs ++ (gatewayCalls (marks evs)).map (·.1)) := by
  unfold Doda.playMessage at hplay
  split at hplay
  · rename_i u h' hrun
    split at hplay
    · rename_i hfine
      obtain rfl := Option.some.inj hplay
      have hr := runs_of_play hrun
      obtain ⟨evs, rfl⟩ := hr.suffix
      rw [List.length_append, Nat.add_sub_cancel, List.take_left] at hfine hrec hP ⊢
      refine .turn hd hr rfl hrec hP (.inr ⟨rfl, fun hf => ?_, rfl⟩)
      exact absurd (List.all_eq_true.1 hfine _ hf) (by decide)
    · simp at hplay
  · simp at hplay

/-- **A call of an unknown tool is never answered**: the second round of the turn is sent
the call without an answer. -/
theorem unknown_tool_unanswered : ∃ msgs reqs, Dialogue 8 (fun _ _ => True) msgs reqs ∧
    ∃ r ∈ reqs, ¬ WellFormed r.history := by
  have hrun : ((playMessage (recordingOracle (callsFirst [⟨"call-1", "search_web", "\x7b\x7d"⟩]))
      "Salom" []).any fun evs => decide (TurnRecorded 8 [] (marks evs)) &&
        (gatewayCalls (marks evs)).any fun x => decide (x.1.history =
          [{ role := .USER, content := "Salom" },
            { role := .ASSISTANT, content := "",
              toolCalls := [⟨"call-1", "search_web", "\x7b\x7d"⟩] }])) = true := by
    decide +kernel
  obtain ⟨evs, hplay, hr⟩ := (Option.any_eq_true _ _).1 hrun
  simp only [Bool.and_eq_true, decide_eq_true_eq, List.any_eq_true] at hr
  obtain ⟨hrec, x, hx, hhist⟩ := hr
  refine ⟨_, _, Dialogue.new.playMessage hplay hrec trivial, x.1,
    List.mem_append_right _ (List.mem_map_of_mem hx), fun hwell => ?_⟩
  rw [hhist] at hwell
  have := hwell.answered [_] _ [] rfl rfl _ (List.mem_singleton.2 rfl)
  simp at this

/-- A dialogue of two turns, with a tool call in the first: three gateway calls. -/
theorem dialogue_well_formed_sample : ∃ msgs reqs, Dialogue 8 Orderly msgs reqs ∧
    reqs.length = 3 ∧ ∀ r ∈ reqs, WellFormed r.history := by
  have hrun : ((playMessage (recordingOracle (callsFirst
      [⟨"call-1", "list_my_open_tasks", "\x7b\x7d"⟩])) "Salom" []).any fun evs =>
        decide (TurnRecorded 8 [] (marks evs)) && decide (Orderly [] (marks evs)) &&
        (playMessage (recordingOracle (callsFirst
          [⟨"call-1", "list_my_open_tasks", "\x7b\x7d"⟩])) "Yana" evs).any fun evs' =>
            decide (TurnRecorded 8 (storedMessages (marks evs)) (marks evs')) &&
            decide (Orderly (storedMessages (marks evs)) (marks evs')) &&
            decide ((gatewayCalls (marks evs)).length + (gatewayCalls (marks evs')).length = 3)) =
      true := by
    decide +kernel
  obtain ⟨evs, hplay, hr⟩ := (Option.any_eq_true _ _).1 hrun
  simp only [Bool.and_eq_true, decide_eq_true_eq, Option.any_eq_true] at hr
  obtain ⟨⟨hrec, hord⟩, evs', hplay', ⟨hrec', hord'⟩, hlen⟩ := hr
  have hd := (Dialogue.new.playMessage hplay hrec hord).playMessage hplay' hrec' hord'
  refine ⟨_, _, hd, ?_, dialogue_well_formed hd⟩
  simpa using hlen

end Sample

end Doda
