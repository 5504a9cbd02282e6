import Doda.Lib.Replay
import Doda.Service

/-!
# What a chat turn shows

A turn's marks are its gateway calls, the chunks it sends, the messages it stores,
the settings it reads for a fallback, and everything it does to the budget; reads of
the whole database, failures and the ends of transactions are marks as well.  The rest
of the service shows no mark but these last.

## Main definitions

* `Mark`, `mark` — what is seen of an event.
* `Quiet`, `Distant` — programs that show nothing while they succeed, or but for the
  ends of their transactions.
* `TurnM.Emits` — what a program over the locals of a turn shows, with its rules.
-/

namespace Doda

open ReadCommitted

/-- A row that only turns write. -/
def Key.ofTurns : Key → Bool
  | .message _ | .aiBudgetLedger _ _ | .aiUsageEvent _ => true
  | _ => false

/-- A row that a turn's provider is chosen by: the conversation with its pin, the
preferences, and the customer's settings. -/
def Key.ofChoice : Key → Bool
  | .conversation _ | .userAIPreference _ _ | .workspaceAIPreference _
  | .customerAIProviderSetting _ _ | .customerAIFallbackSetting _ => true
  | _ => false

/-- What is seen of a turn. -/
inductive Mark where
  | call (r : GatewayRequest) (x : GatewayStream)
  | chunk (c : TurnChunk) (taken : Bool)
  | stored (m : Message)
  | fallbackSetting (customerId : Uuid) (x : Option Bool)
  | providerSetting (customerId : Uuid) (provider : Provider) (x : Option Bool)
  /-- The clock was read for the current month. -/
  | month (t : Time)
  /-- A ledger row was selected for update. -/
  | seen (customerId : Uuid) (yearMonth : String) (x : Option AIBudgetLedger)
  /-- A ledger row was inserted, or found there. -/
  | opened (customerId : Uuid) (yearMonth : String) (inserted : Bool)
  | updated (customerId : Uuid) (yearMonth : String) (f : AIBudgetLedger → AIBudgetLedger)
  | usage (u : AIUsageEvent)
  | viewed (db : Db)
  /-- Any other statement that writes a message, a ledger row or a usage event. -/
  | strange
  /-- A write to what a turn's provider is chosen by. -/
  | preference
  | failed
  | committed
  | rolledBack

/-- The mark of a statement with this answer. -/
def stmtMark : (q : Stmt Row) → q.Res → Option Mark
  | .insert [⟨.message _, m⟩], _ => some (.stored m)
  | .insert [⟨.aiUsageEvent id, u⟩], _ => if id = u.id then some (.usage u) else some .strange
  | .get (.customerAIFallbackSetting c), x => some (.fallbackSetting c x)
  | .get (.customerAIProviderSetting c provider), x => some (.providerSetting c provider x)
  | .forUpdate (.aiBudgetLedger c ym), x => some (.seen c ym x)
  | .tryInsert [⟨.aiBudgetLedger c ym, v⟩], b =>
    if v = {} then some (.opened c ym b) else some .strange
  | .update (.aiBudgetLedger c ym) f, _ => some (.updated c ym f)
  | .view, db => some (.viewed db)
  | q, _ =>
    if q.touches Key.ofTurns then some .strange
    else if q.touches Key.ofChoice then some .preference
    else none

/-- The mark of a call with this answer. -/
def callMark : (e : Call) → Answer e → Option Mark
  | .streamChat r, x => some (.call r x)
  | .send c, taken => some (.chunk c taken)
  | .utcnow .month, t => some (.month t)
  | _, _ => none

/-- The mark of an event. -/
def mark : Event Row Answer → Option Mark
  | .ran _ q x => stmtMark q x
  | .called _ e x => callMark e x
  | .failed _ => some .failed
  | .committed _ _ => some .committed
  | .rolledBack _ => some .rolledBack
  | .crashed _ => none

@[simp] theorem mark_ran (p : ℕ) (q : Stmt Row) (x : q.Res) : mark (.ran p q x) = stmtMark q x :=
  rfl
@[simp] theorem mark_called (p : ℕ) (e : Call) (x : Answer e) :
    mark (.called p e x) = callMark e x := rfl
@[simp] theorem mark_failed (p : ℕ) : mark (.failed p) = some .failed := rfl
@[simp] theorem mark_committed (p : ℕ) (w : Db) : mark (.committed p w) = some .committed := rfl
@[simp] theorem mark_rolledBack (p : ℕ) : mark (.rolledBack p) = some .rolledBack := rfl

/-- What happened to a process, oldest first, as far as it is seen. -/
abbrev marks (h : Hist) : List Mark := trace mark h

theorem marks_cons (ev : Event Row Answer) (h : Hist) :
    marks (ev :: h) = marks h ++ (mark ev).toList := trace_cons ..

theorem marks_append (h' h : Hist) : marks (h' ++ h) = marks h ++ marks h' := trace_append ..

/-- The event that a mark shows. -/
def Mark.ShownBy (ev : Event Row Answer) : Mark → Prop
  | .call r x => ∃ p, ev = .called p (.streamChat r) x
  | .month t => ∃ p, ev = .called p (.utcnow .month) t
  | .seen c ym x => ∃ p, ev = .ran p (.forUpdate (.aiBudgetLedger c ym)) x
  | .opened c ym b => ∃ p, ev = .ran p (.tryInsert [⟨.aiBudgetLedger c ym, {}⟩]) b
  | .failed => ∃ p, ev = .failed p
  | _ => True

theorem shownBy_of_mark {ev : Event Row Answer} {m : Mark} (h : mark ev = some m) :
    m.ShownBy ev := by
  cases ev with
  | ran p q x =>
    rw [mark_ran] at h
    fun_cases stmtMark q x
    all_goals simp_all [stmtMark]
    all_goals
      subst h
      simp [Mark.ShownBy]
  | called p e x =>
    rw [mark_called] at h
    fun_cases callMark e x
    all_goals simp_all [callMark]
    all_goals
      subst h
      simp [Mark.ShownBy]
  | failed p =>
    cases Option.some.inj h
    exact ⟨p, rfl⟩
  | committed | rolledBack =>
    cases Option.some.inj h
    trivial
  | crashed => simp [mark] at h

/-- The world can answer every call. -/
instance : ∀ e : Call, Nonempty (Answer e)
  | .received _ | .authenticates _ | .xack _ | .entryFailed _ => ⟨()⟩
  | .uuid4 => ⟨(0 : Uuid)⟩
  | .tokenUrlsafe => ⟨""⟩
  | .utcnow _ => ⟨(0 : ℕ)⟩
  | .scanOrder rows => ⟨⟨rows, .refl rows⟩⟩
  | .xadd _ => ⟨.added⟩
  | .xreadgroup _ => ⟨[]⟩
  | .post _ _ _ => ⟨.connectError⟩
  | .streamChat _ => ⟨⟨[], none⟩⟩
  | .send _ => ⟨true⟩

/-! ## Quiet programs -/

/-- A failure, or a read of the whole database. -/
def Mark.Slight : Mark → Prop
  | .failed | .viewed _ => True
  | _ => False

/-- The program shows nothing but that it reads, while it succeeds. -/
abbrev Quiet {α : Type} (m : Session α) : Prop :=
  Only (fun q => ∀ p x, ∀ a ∈ mark (.ran p q x), a.Slight)
    (fun e => ∀ p x, mark (.called p e x) = none) False m

namespace Quiet

variable {α β : Type}

theorem run {q : Stmt Row} (hq : ∀ p x, mark (.ran p q x) = none) : Quiet (ReadCommitted.run q) :=
  Only.run fun p x => by simp [hq p x]

theorem call {e : Call} (he : ∀ p x, mark (.called p e x) = none) :
    Quiet (ReadCommitted.call e) :=
  Only.call he

theorem uuid4 : Quiet Session.uuid4 := call fun _ _ => rfl

theorem select : Quiet Session.select := Only.run fun p x => by simp [stmtMark, Mark.Slight]

/-- Its marks are slight. -/
theorem emits {m : Session α} (hm : Quiet m) (p : ℕ) :
    Emits mark p (fun ms _ => ∀ a ∈ ms, Mark.Slight a) (fun ms _ => ∀ a ∈ ms, Mark.Slight a) m :=
  Emits.only (hm.mono (fun q hq x => hq p x) (fun e he x => by simp [he p x]) id)
    (by simp [Mark.Slight]) False.elim

end Quiet

/-- A slight mark, a change of preferences, or the end of a transaction. -/
def Mark.Distant : Mark → Prop
  | .preference | .committed | .rolledBack => True
  | m => m.Slight

/-- The program shows none of what a turn shows. -/
abbrev Distant {α : Type} (m : Session α) : Prop :=
  Only (fun q => ∀ p x, ∀ a ∈ mark (.ran p q x), a.Distant)
    (fun e => ∀ p x, mark (.called p e x) = none) True m

theorem Mark.Slight.distant {m : Mark} (h : m.Slight) : m.Distant := by
  cases m <;> first | exact h | trivial

namespace Distant

variable {α : Type} {m : Session α}

theorem emits (hm : Distant m) (p : ℕ) :
    Emits mark p (fun ms _ => ∀ a ∈ ms, a.Distant) (fun ms _ => ∀ a ∈ ms, a.Distant) m :=
  Emits.only (hm.mono (fun q hq x => hq p x) (fun e he x => by simp [he p x]) id)
    (by simp [Mark.Distant, Mark.Slight]) fun _ => by simp [Mark.Distant]

end Distant

theorem Quiet.distant {α : Type} {m : Session α} (hm : Quiet m) : Distant m :=
  hm.mono (fun _ hq p x a ha => (hq p x a ha).distant) (fun _ => id) False.elim

/-! ## Programs over the locals -/

/-- What the program shows, with how it ends and the locals it leaves, is in `R`. -/
def TurnM.Emits {α : Type} (p : ℕ) (R : List Mark → Except Err α → Turn → Prop) (m : TurnM α)
    (s : Turn) : Prop :=
  ReadCommitted.Emits mark p (fun ms x => R ms x.1 x.2) (fun _ _ => False) (m s)

namespace TurnM.Emits

variable {α β : Type} {p : ℕ} {R : List Mark → Except Err α → Turn → Prop} {s : Turn}

theorem pure {a : α} (H : R [] (.ok a) s) : TurnM.Emits p R (Pure.pure a) s :=
  Emits.pure_iff.2 H

theorem throw {e : Err} (H : R [] (.error e) s) :
    TurnM.Emits p R (MonadExcept.throw e : TurnM α) s :=
  Emits.pure_iff.2 H

theorem mono {m : TurnM α} {R' : List Mark → Except Err α → Turn → Prop} (H : m.Emits p R' s)
    (hR : ∀ ms r s', R' ms r s' → R ms r s') : m.Emits p R s :=
  ReadCommitted.Emits.mono H (fun _ _ => hR _ _ _) fun _ _ => id

/-- **Sequencing.** -/
theorem bind {m : TurnM β} {f : β → TurnM α} {S : List Mark → Except Err β → Turn → Prop}
    (H : m.Emits p S s)
    (hf : ∀ ms b s', S ms (.ok b) s' → (f b).Emits p (fun ms' => R (ms ++ ms')) s')
    (he : ∀ ms e s', S ms (.error e) s' → R ms (.error e) s') : (m >>= f).Emits p R s := by
  refine ReadCommitted.Emits.bind H ?_
  rintro ms ⟨r, s'⟩ hr
  cases r with
  | ok b => exact ReadCommitted.Emits.mono (hf ms b s' hr) (fun _ _ h => h) fun _ _ => False.elim
  | error e =>
    refine Emits.pure_iff.2 ?_
    rw [After, List.append_nil]
    exact he ms e s' hr

/-- **Programs on the database.** -/
theorem lift {m : Session α} {Q : List Mark → α → Prop} {X : List Mark → Err → Prop}
    (H : ReadCommitted.Emits mark p Q X m) (hQ : ∀ ms a, Q ms a → R ms (.ok a) s)
    (hX : ∀ ms e, X ms e → R ms (.error e) s) : (TurnM.lift m).Emits p R s := by
  refine ReadCommitted.Emits.tryCatch X ?_ fun ms e he => ?_
  · refine ReadCommitted.Emits.bind H fun ms a ha => ?_
    refine Emits.pure_iff.2 ?_
    rw [After, List.append_nil]
    exact hQ ms a ha
  · refine Emits.pure_iff.2 ?_
    rw [After, List.append_nil]
    exact hX ms e he

theorem call {e : Call} {R : List Mark → Except Err (Answer e) → Turn → Prop}
    (H : ∀ x, R (mark (.called p e x)).toList (.ok x) s) :
    (TurnM.lift (ReadCommitted.call e)).Emits p R s :=
  lift (Q := fun ms x => R ms (.ok x) s) (X := fun _ _ => False) (ReadCommitted.Emits.call H)
    (fun _ _ h => h) fun _ _ => False.elim

theorem attempt {m : TurnM α} {R : List Mark → Except Err (Except Err α) → Turn → Prop}
    {R' : List Mark → Except Err α → Turn → Prop} (H : m.Emits p R' s)
    (hR : ∀ ms r s', R' ms r s' → R ms (.ok r) s') : (TurnM.attempt m).Emits p R s := by
  refine ReadCommitted.Emits.bind H ?_
  rintro ms ⟨r, s'⟩ hr
  refine Emits.pure_iff.2 ?_
  rw [After, List.append_nil]
  exact hR ms r s' hr

theorem get_bind {f : Turn → TurnM α} (H : (f s).Emits p R s) : (get >>= f).Emits p R s := H

theorem modify_bind {g : Turn → Turn} {f : Unit → TurnM α} (H : (f ()).Emits p R (g s)) :
    (modify g >>= f).Emits p R s := H

theorem modify {g : Turn → Turn} {R : List Mark → Except Err Unit → Turn → Prop}
    (H : R [] (.ok ()) (g s)) : (modify g : TurnM Unit).Emits p R s :=
  Emits.pure_iff.2 H

end TurnM.Emits

end Doda
