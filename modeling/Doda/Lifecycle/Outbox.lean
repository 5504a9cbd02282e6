import Doda.Lib.Locks
import Doda.Lifecycle.Idempotency

/-!
# The outbox loses nothing

A message leaves the outbox in two steps that no transaction joins: its entry is added to the
stream, and its row is marked and committed.  So an entry can be added again, but a message is
not lost, nor taken by two workers at once, and an entry is added again only when the
transaction that added it before did not commit.

## Main definitions

* `Publishes` — what holds of a worker that adds an entry.
* `publishing` — the contract: entries are added so, and what was added is marked.

## Main results

* `keeps_message_of_valid`, `added_of_valid` — what holds of every history.
* `outbox_delivers` — every run.
-/

namespace Doda

open ReadCommitted

/-! ## What becomes of a message -/

section Messages

variable [Sha256] {p : ℕ} {h : Hist} {s : Db} {d : Deed} {k : Uuid} {m : OutboxMessage}

/-- A message that was there was left to publish, and is the same message. -/
theorem Deed.Fits.leavesMessage_eq (H : d.Fits p h s) {m' : OutboxMessage}
    (hm : row s (.outboxMessage k) = some m) (hd : d.leavesMessage k = some m') :
    m.publishedAt = none ∧ m'.entry = m.entry := by
  cases d with
  | proposed a target e e₁ e₂ beside =>
    have hfresh := H.freshBeside (.outboxMessage k) (mem_keys_of_row hd)
    rw [hfresh] at hm
    cases hm
  | consumed id approvalId source before actor e new =>
    simp only [leavesMessage, Option.ite_none_right_eq_some, Option.some.injEq] at hd
    obtain ⟨rfl, rfl⟩ := hd
    have hfresh := Deed.FitsConsumed.fresh H
    rw [hfresh] at hm
    cases hm
  | moved => cases hd
  | published id old now =>
    simp only [leavesMessage, Option.ite_none_right_eq_some, Option.some.injEq] at hd
    obtain ⟨rfl, rfl⟩ := hd
    have hfound := Deed.FitsPublished.found H
    obtain rfl := Option.some.inj (hfound.symm.trans hm)
    exact ⟨Deed.FitsPublished.pending H, rfl⟩

/-- Deeds keep a message, and a published one as it is. -/
theorem Fit.keeps_message {ds : List Deed} (H : Fit p h s ds)
    (hm : row s (.outboxMessage k) = some m) :
    ∃ m', row (versionsOf ds ++ s) (.outboxMessage k) = some m' ∧ m'.entry = m.entry ∧
      (m.publishedAt ≠ none → m' = m) := by
  induction ds with
  | nil => exact ⟨m, hm, rfl, fun _ => rfl⟩
  | cons d ds ih =>
    obtain ⟨m₁, hm₁, hentry, hpublished⟩ := ih H.2
    rw [versionsOf_cons, List.append_assoc, H.1.row_message]
    cases hd : d.leavesMessage k with
    | none => exact ⟨m₁, hm₁, hentry, hpublished⟩
    | some m₂ =>
      obtain ⟨hpending, hsame⟩ := H.1.leavesMessage_eq hm₁ hd
      refine ⟨m₂, rfl, hsame.trans hentry, fun hp => ?_⟩
      rw [hpublished hp] at hpending
      exact absurd hpending hp

/-- **A message is never lost**, its entry never changes, and once published it stays so. -/
theorem keeps_message_of_valid {h' : Hist} (hv : lifecycle.Valid h') (hle : h <:+ h')
    (hm : row (committed h) (.outboxMessage k) = some m) :
    ∃ m', row (committed h') (.outboxMessage k) = some m' ∧ m'.entry = m.entry ∧
      (m.publishedAt ≠ none → m' = m) := by
  obtain ⟨evs, rfl⟩ := hle
  induction evs with
  | nil => exact ⟨m, hm, rfl, fun _ => rfl⟩
  | cons ev evs ih =>
    obtain ⟨m₁, hm₁, hentry, hpublished⟩ := ih hv.2
    cases ev with
    | committed p w =>
      obtain ⟨-, ds, hcore, hfit⟩ := hv.1
      obtain ⟨m₂, hm₂, hentry₂, hpublished₂⟩ := hfit.keeps_message hm₁
      refine ⟨m₂, (row_of_core_eq hcore rfl).trans hm₂, hentry₂.trans hentry, fun hp => ?_⟩
      have hsame := hpublished hp
      rw [hsame] at hpublished₂
      exact hpublished₂ hp
    | ran | called | rolledBack | failed | crashed => exact ⟨m₁, hm₁, hentry, hpublished⟩

/-- Every message is left to publish, or its entry has been added. -/
def MessagesAdded (h : Hist) (s : Db) : Prop :=
  ∀ k m, row s (.outboxMessage k) = some m →
    m.publishedAt = none ∨ ∃ p, Event.called p (.xadd m.entry) .added ∈ h

theorem MessagesAdded.deed (H : MessagesAdded h s) (hfits : d.Fits p h s) :
    MessagesAdded h (d.versions ++ s) := by
  intro k m hm
  rw [hfits.row_message] at hm
  cases hd : d.leavesMessage k with
  | none =>
    rw [hd, Option.none_or] at hm
    exact H k m hm
  | some m' =>
    rw [hd, Option.some_or] at hm
    obtain rfl := Option.some.inj hm
    cases d with
    | proposed a target e e₁ e₂ beside =>
      have hroute := hfits.route
      cases hroute with
      | ready new hr hm' =>
        by_cases hk : new.id = k
        · subst hk
          simp only [Deed.leavesMessage, row_cons_self, Option.some.injEq] at hd
          exact .inl (hd ▸ hm'.publishedAt)
        · simp [Deed.leavesMessage, row, hk] at hd
      | approval ap hr ha => simp [Deed.leavesMessage, row] at hd
    | consumed id approvalId source before actor e new =>
      simp only [Deed.leavesMessage, Option.ite_none_right_eq_some, Option.some.injEq] at hd
      obtain ⟨-, rfl⟩ := hd
      exact .inl (Deed.FitsConsumed.message hfits).publishedAt
    | moved => cases hd
    | published id old now =>
      simp only [Deed.leavesMessage, Option.ite_none_right_eq_some, Option.some.injEq] at hd
      obtain ⟨-, rfl⟩ := hd
      have hadded : Event.called p (.xadd old.entry) .added ∈ h := Deed.FitsPublished.added hfits
      exact .inr ⟨p, hadded⟩

/-- **What is marked was added.** -/
theorem added_of_valid (hv : lifecycle.Valid h) : MessagesAdded h (committed h) := by
  refine holds_of_valid (I := MessagesAdded) ?_ ?_ ?_ ?_ hv
  · intro k m hm
    simp at hm
  · intro h s s' _ hcore H k m hm
    exact H k m ((row_of_core hcore rfl).symm.trans hm)
  · intro ev h s H k m hm
    rcases H k m hm with hnone | ⟨p, hadded⟩
    · exact .inl hnone
    · exact .inr ⟨p, List.mem_cons_of_mem _ hadded⟩
  · intro p h ds d _ _ hfits H
    exact H.deed hfits

end Messages


/-! ## The contract of a worker -/

/-- What holds of a worker that adds an entry: it holds the message, which is left to publish, and
has not added it in this transaction yet. -/
structure Publishes (p : ℕ) (h : Hist) (entry : StreamEntry) : Prop where
  pending : ∃ m, row (committed h) (.outboxMessage entry.messageId) = some m ∧
    m.publishedAt = none ∧ m.entry = entry
  held : .outboxMessage entry.messageId ∈ held (opened p h)
  first : ∀ entry' x, Event.called p (.xadd entry') x ∈ opened p h →
    entry'.messageId ≠ entry.messageId

/-- The commit marks what its transaction has added. -/
def Marks (p : ℕ) (h : Hist) (w : Db) : Prop :=
  ∀ entry x, Event.called p (.xadd entry) x ∈ opened p h →
    ∃ m, row w (.outboxMessage entry.messageId) = some m ∧ m.publishedAt ≠ none

/-- **The contract of the outbox**, in histories that keep the lifecycle's. -/
def publishing [Sha256] : Contract Row Answer where
  commitOk h p w := lifecycle.Valid h → Marks p h w
  callOk h p e := match e with
    | .xadd entry => lifecycle.Valid h → Publishes p h entry
    | _ => True

/-! ## One batch -/

/-- A worker has added and marked some messages, with `rows` left; one at most is not marked. -/
structure Publishing (p : ℕ) (h : Hist) (t : DbTx) (added : Option Uuid)
    (rows : List (Entry Row)) : Prop where
  once : (rows.map Sigma.fst).Nodup
  locked : ∀ e ∈ rows, e.1 ∈ t.locks ∧ e.1 ∈ held (opened p h)
  row : ∀ e ∈ rows, row (committed h) e.1 = some e.2
  pending : ∀ i (m : OutboxMessage), (⟨.outboxMessage i, m⟩ : Entry Row) ∈ rows →
    m.id = i ∧ m.publishedAt = none
  fresh : ∀ entry x, Event.called p (.xadd entry) x ∈ opened p h →
    .outboxMessage entry.messageId ∉ rows.map Sigma.fst
  marked : ∀ entry x, Event.called p (.xadd entry) x ∈ opened p h →
    entry.messageId ∈ added ∨
      ∃ m, ReadCommitted.row t.writes (.outboxMessage entry.messageId) = some m ∧
        m.publishedAt ≠ none

section Batch

variable {p : ℕ} {h h' : Hist} {t t' : DbTx} {adding : Option Uuid} {rows : List (Entry Row)}

/-- Going on inside the transaction adds no entry. -/
theorem mem_opened_of_onward (ho : ReadCommitted.Onward Call.Minor p h t h' t')
    {entry : StreamEntry} {x : XaddOutcome} (hx : Event.called p (.xadd entry) x ∈ opened p h') :
    Event.called p (.xadd entry) x ∈ opened p h := by
  obtain ⟨evs, hopened, hinside⟩ := ho.opened
  rw [hopened] at hx
  rcases List.mem_append.1 hx with hx | hx
  · exact (hinside _ hx).elim
  · exact hx

theorem held_of_onward (ho : ReadCommitted.Onward Call.Minor p h t h' t') {k : Key}
    (hk : k ∈ held (opened p h)) : k ∈ held (opened p h') := by
  obtain ⟨evs, hopened, -⟩ := ho.opened
  rw [hopened, held_append]
  exact List.mem_append_right _ hk

/-- The batch waits. -/
theorem Publishing.wait (H : Publishing p h t adding rows)
    (ho : ReadCommitted.Onward Call.Minor p h t h' t) : Publishing p h' t adding rows where
  once := H.once
  locked e he := ⟨(H.locked e he).1, held_of_onward ho (H.locked e he).2⟩
  row e he := by rw [ho.row_eq (H.locked e he).1, H.row e he]
  pending := H.pending
  fresh entry x hx := H.fresh entry x (mem_opened_of_onward ho hx)
  marked entry x hx := H.marked entry x (mem_opened_of_onward ho hx)

/-- What adding the next message asks for. -/
theorem Publishing.publishes {i : Uuid} {m : OutboxMessage}
    (H : Publishing p h t none (⟨.outboxMessage i, m⟩ :: rows)) : Publishes p h m.entry := by
  have hmem : (⟨.outboxMessage i, m⟩ : Entry Row) ∈
      (⟨.outboxMessage i, m⟩ :: rows : List (Entry Row)) := List.mem_cons_self ..
  obtain ⟨rfl, hpending⟩ := H.pending i m hmem
  refine ⟨⟨m, H.row _ hmem, hpending, rfl⟩, (H.locked _ hmem).2, fun entry x hx heq => ?_⟩
  refine H.fresh entry x hx ?_
  rw [heq]
  exact List.mem_cons_self ..

/-- The next message is added. -/
theorem Publishing.add {i : Uuid} {m : OutboxMessage}
    (H : Publishing p h t none (⟨.outboxMessage i, m⟩ :: rows)) (x : XaddOutcome) :
    Publishing p (.called p (.xadd m.entry) x :: h) t (some m.id) rows where
  once := (List.nodup_cons.1 H.once).2
  locked e he := by
    rw [opened_called]
    exact H.locked e (List.mem_cons_of_mem _ he)
  row e he := H.row e (List.mem_cons_of_mem _ he)
  pending i m hm := H.pending i m (List.mem_cons_of_mem _ hm)
  fresh entry y hy := by
    rw [opened_called] at hy
    rcases List.mem_cons.1 hy with heq | hy
    · cases heq
      obtain ⟨hid, -⟩ := H.pending i m (List.mem_cons_self ..)
      have hnot := (List.nodup_cons.1 H.once).1
      rw [← hid] at hnot
      exact hnot
    · exact fun hmem => H.fresh entry y hy (List.mem_cons_of_mem _ hmem)
  marked entry y hy := by
    rw [opened_called] at hy
    rcases List.mem_cons.1 hy with heq | hy
    · cases heq
      exact .inl rfl
    · exact .inr ((H.marked entry y hy).resolve_left (by simp))

/-- The added message is marked. -/
theorem Publishing.mark {i : Uuid} (H : Publishing p h t (some i) rows) {m : OutboxMessage}
    (hm : m.publishedAt ≠ none) {v : Version Row} (hv : v = ⟨.outboxMessage i, some m⟩)
    (ho : ReadCommitted.Onward Call.Minor p h t h' (t.write [v])) :
    Publishing p h' (t.write [v]) none rows where
  once := H.once
  locked e he := ⟨ho.locks _ (H.locked e he).1, held_of_onward ho (H.locked e he).2⟩
  row e he := by rw [ho.row_eq (H.locked e he).1, H.row e he]
  pending := H.pending
  fresh entry x hx := H.fresh entry x (mem_opened_of_onward ho hx)
  marked entry x hx := by
    subst hv
    have hwrites : (t.write [⟨.outboxMessage i, some m⟩]).writes =
        ⟨.outboxMessage i, some m⟩ :: t.writes := rfl
    rw [hwrites]
    refine .inr ?_
    by_cases heq : i = entry.messageId
    · subst heq
      exact ⟨m, row_cons_self .., hm⟩
    · have hne : Key.outboxMessage i ≠ .outboxMessage entry.messageId := by simpa using heq
      rw [row_cons_ne _ _ hne]
      refine (H.marked entry x (mem_opened_of_onward ho hx)).resolve_left ?_
      simpa using heq

end Batch

/-! ## The worker -/

section Worker

variable [Sha256] {p : ℕ} {h : Hist} {t : DbTx}

/-- **Publishing a batch** adds each entry while its message is held, and marks it. -/
theorem publishAll_publishes {rows : List (Entry Row)}
    (H : lifecycle.Valid h → Publishing p h t none rows) :
    Safe publishing p (fun _ h' t' => lifecycle.Valid h' → Publishing p h' t' none []) Whatever
      (publishAll rows) h t := by
  induction rows generalizing h t with
  | nil => exact H
  | cons e rows ih =>
    obtain ⟨k, v⟩ := e
    cases k with
    | outboxMessage i =>
      obtain ⟨m, rfl⟩ : ∃ m : OutboxMessage, m = v := ⟨v, rfl⟩
      refine Safe.bind (B := fun _ h' t' => lifecycle.Valid h' → Publishing p h' t' none rows)
        (Safe.bind (B := fun outcome h' t' => t' = t ∧
          (lifecycle.Valid h' → Publishing p h' t (some m.id) rows)) ?_ ?_) ?_
      · refine Safe.call fun h₁ ho _ _ => ⟨fun hv => ?_, fun x => ⟨rfl, fun hv => ?_⟩⟩
        · exact ((H (hv.suffix ho.suffix)).wait (.others ho)).publishes
        · exact ((H (hv.2.suffix ho.suffix)).wait (.others ho)).add x
      · rintro outcome h₁ t₁ ⟨rfl, H₁⟩
        cases outcome with
        | unacknowledged | refused => trivial
        | added =>
          refine Safe.bind (B := fun now h' t' => t' = t₁ ∧
            (lifecycle.Valid h' → Publishing p h' t₁ (some m.id) rows)) ?_ ?_
          · refine Safe.call fun h₂ ho _ _ => ⟨trivial, fun x => ⟨rfl, fun hv => ?_⟩⟩
            refine (H₁ (hv.2.suffix ho.suffix)).wait (.trans (.others ho) ?_)
            exact .own trivial (fun _ hk => hk) (List.suffix_refl _)
          · rintro now h₂ _ ⟨rfl, H₂⟩
            refine (Safe.update (M := Call.Minor) _ _).mono ?_ fun _ _ _ _ => trivial
            rintro - h₃ t₃ ⟨-, ho, v, -, rfl⟩ hv
            exact (H₂ (hv.suffix ho.suffix)).mark (by simp) rfl ho
      · rintro - h₁ t₁ H₁
        exact Safe.bind (ih H₁) fun _ _ _ hdone => hdone
    | _ =>
      refine ih fun hv => ?_
      have H := H hv
      exact {
        once := (List.nodup_cons.1 H.once).2
        locked := fun e he => H.locked e (List.mem_cons_of_mem _ he)
        row := fun e he => H.row e (List.mem_cons_of_mem _ he)
        pending := fun i m hm => H.pending i m (List.mem_cons_of_mem _ hm)
        fresh := fun entry x hx hmem => H.fresh entry x hx (List.mem_cons_of_mem _ hmem)
        marked := H.marked }

/-- The process has added no entry. -/
def AddsNone (p : ℕ) (h : Hist) : Prop :=
  ∀ entry x, Event.called p (.xadd entry) x ∉ own p h

omit [Sha256] in
theorem AddsNone.others {L : List Key} {h' : Hist} (H : AddsNone p h) (ho : Others p L h h') :
    AddsNone p h' := by
  unfold AddsNone
  rw [ho.own_eq]
  exact H

omit [Sha256] in
theorem AddsNone.cons (H : AddsNone p h) {ev : Event Row Answer}
    (hev : ∀ entry x, ev ≠ .called p (.xadd entry) x) : AddsNone p (ev :: h) := by
  intro entry x hx
  obtain ⟨hmem, hpid⟩ := mem_own.1 hx
  rcases List.mem_cons.1 hmem with heq | hmem
  · exact hev entry x heq.symm
  · exact H entry x (mem_own.2 ⟨hmem, hpid⟩)

omit [Sha256] in
theorem AddsNone.opened (H : AddsNone p h) (entry : StreamEntry) (x : XaddOutcome) :
    Event.called p (.xadd entry) x ∉ opened p h := by
  intro hx
  exact H entry x (mem_own.2 (mem_opened hx))

omit [Sha256] in
/-- What a worker locks is left to publish, each message once. -/
theorem publishing_of_skipLocked {n : ℕ} {busy : Key → Bool} {rows : List (Entry Row)}
    (hkeyed : Keyed (committed h)) (hnone : AddsNone p h)
    (hx : (Stmt.skipLocked pendingMessages n).exec (committed h) busy {} = some (rows, t)) :
    Publishing p (.ran p (.skipLocked pendingMessages n) rows :: h) t none rows := by
  simp only [Stmt.exec, Option.some.injEq, Prod.mk.injEq] at hx
  obtain ⟨hrows, rfl⟩ := hx
  have hview : (({} : DbTx).view (committed h)) = committed h := rfl
  simp only [hview] at hrows ⊢
  set ks := ((pendingMessages (committed h)).filter (!busy ·)).take n with hks
  have hsub : ks.Sublist (pendingMessages (committed h)) :=
    (List.take_sublist _ _).trans List.filter_sublist
  have hmem : ∀ e ∈ rows, e.1 ∈ ks ∧ row (committed h) e.1 = some e.2 := by
    intro e he
    rw [← hrows] at he
    obtain ⟨k, hk, hke⟩ := List.mem_filterMap.1 he
    obtain ⟨v, hv, rfl⟩ := Option.map_eq_some_iff.1 hke
    exact ⟨hk, hv⟩
  have hnot : ∀ entry x, Event.called p (.xadd entry) x ∉
      opened p (.ran p (.skipLocked pendingMessages n) rows :: h) := by
    intro entry x hx
    rw [opened_ran] at hx
    rcases List.mem_cons.1 hx with heq | hx
    · cases heq
    · exact hnone.opened entry x hx
  refine ⟨?_, fun e he => ⟨?_, ?_⟩, fun e he => (hmem e he).2, fun i m hm => ?_, ?_, ?_⟩
  · have hfst : rows.map Sigma.fst = ks.filter fun k => (row (committed h) k).isSome := by
      rw [← hrows, List.map_filterMap, ← List.filterMap_eq_filter]
      refine List.filterMap_congr fun k _ => ?_
      cases hk : row (committed h) k <;> simp [Option.guard, hk]
    rw [hfst]
    exact ((nodup_pendingMessages hkeyed).sublist hsub).filter _
  · exact List.mem_append_left _ (hmem e he).1
  · rw [opened_ran, held, Stmt.locked]
    exact List.mem_append_left _ (List.mem_map_of_mem he)
  · obtain ⟨hk, hrow⟩ := hmem _ hm
    obtain ⟨m', hkey, hpending, j, hj⟩ := mem_pendingMessages (hsub.subset hk)
    obtain rfl : i = m'.id := by simpa using hkey
    obtain rfl : m'.id = j := hkeyed _ _ hj _ rfl
    obtain rfl : m = m' := Option.some.inj (hrow.symm.trans hj)
    exact ⟨rfl, hpending⟩
  · exact fun entry x hx => absurd hx (hnot entry x)
  · exact fun entry x hx => absurd hx (hnot entry x)

/-- **A poll of the outbox** keeps the contract. -/
theorem outboxRelayOnce_publishes (hnone : AddsNone p h) (n : ℕ) :
    Safe publishing p (fun _ _ _ => True) Whatever (outboxRelayOnce n) h {} := by
  refine Safe.atomically (fun _ h' t' => lifecycle.Valid h' → Publishing p h' t' none []) Whatever
    (Safe.bind (B := fun rows h' t' => lifecycle.Valid h' → Publishing p h' t' none rows) ?_
      fun rows h₁ t₁ => publishAll_publishes) ?_ fun _ _ _ _ _ _ _ => trivial
  · refine Safe.run (q := .skipLocked pendingMessages n) fun h₁ ho _ _ =>
      ⟨fun busy rows t' _ hx hv => ?_, trivial⟩
    exact publishing_of_skipLocked (keyed_of_valid hv.2) (hnone.others ho) hx
  · intro count h₁ t₁ H h₂ ho _ _
    refine ⟨fun _ => ⟨fun hv entry x hx => ?_, trivial, fun _ _ _ => trivial⟩,
      fun _ _ _ => trivial⟩
    rw [ho.opened_eq] at hx
    exact ((H (hv.suffix ho.suffix)).marked entry x hx).resolve_left (by simp)

end Worker

/-! ## The other requests -/

/-- The call adds nothing to a stream. -/
def Call.offStream : Call → Prop
  | .xadd _ => False
  | _ => True

/-- The program adds nothing to a stream. -/
abbrev OffStream {α : Type} (m : Session α) : Prop := Only (fun _ => True) Call.offStream True m

section Requests

variable [Sha256]

/-- Who adds no entry keeps the contract. -/
theorem addsNone_steady (p : ℕ) :
    Steady publishing p (fun _ => True) Call.offStream True fun h _ => AddsNone p h where
  others H ho _ := H.others ho
  exec _ _ _ _ H _ := H.cons fun _ _ => by simp
  failed _ H := H.cons fun _ _ => by simp
  called {e h t} he _ H := by
    refine ⟨?_, fun x => H.cons fun entry y heq => ?_⟩
    · cases e with
      | xadd entry => exact he.elim
      | _ => trivial
    · cases heq
      exact he
  committed _ _ _ _ H := by
    refine ⟨fun _ entry x hx => absurd hx (H.opened entry x), H.cons fun _ _ => by simp, ?_⟩
    exact (H.cons fun _ _ => by simp).cons fun _ _ => by simp
  rolledBack _ _ H := H.cons fun _ _ => by simp

omit [Sha256] in
theorem Call.Minor.offStream {e : Call} (he : e.Minor) : e.offStream := by
  cases e <;> trivial

omit [Sha256] in
theorem offStream_of_inside {α : Type} {m : Session α}
    (hm : Only (fun _ => True) Call.Minor False m) : OffStream m :=
  hm.mono (fun _ hq => hq) (fun _ => Call.Minor.offStream) False.elim

omit [Sha256] in
theorem Lives.offStream {α : Type} {m : Session α} (hm : Lives m) : OffStream m :=
  offStream_of_inside hm.inside

omit [Sha256] in
theorem sendAttempts_offStream (i : Uuid) (chat text : String) (n : ℕ) (last : Err) :
    OffStream (sendAttempts i chat text n last) := by
  induction n generalizing last with
  | zero => exact Only.throw _
  | succ n ih =>
    refine Only.tryCatch (Only.bind (Only.call trivial) fun outcome => ?_) fun e => ?_
    · split
      · exact Only.pure _
      · exact Only.throw _
    · split
      · exact ih e
      · exact Only.throw _

theorem driveToRunning_offStream (c i : Uuid) : OffStream (driveToRunning c i) := by
  refine Only.atomically trivial ?_
  refine Only.bind (getAction_lives ..).offStream fun a => ?_
  cases a with
  | none => exact Only.pure _
  | some a =>
    dsimp only
    split
    · exact Only.pure _
    · split
      · exact Only.pure _
      · exact Only.bind (applyTransition_lives ..).offStream fun _ => Only.pure _

theorem resolve_offStream (c i : Uuid) (s : ActionStatus) (receipt : Option Json) :
    OffStream (resolve c i s receipt) := by
  refine Only.atomically trivial ?_
  refine Only.bind (getAction_lives ..).offStream fun a => ?_
  cases a with
  | none => exact Only.throw _
  | some a => exact Only.bind (applyTransition_lives ..).offStream fun _ => Only.pure _

theorem processEntry_offStream (entry : StreamEntry) (token : Option String) :
    OffStream (processEntry entry token) := by
  refine Only.bind (driveToRunning_offStream ..) fun running => ?_
  cases running with
  | none => exact Only.pure _
  | some a =>
    dsimp only
    split
    · exact resolve_offStream ..
    · split
      · exact resolve_offStream ..
      · refine Only.bind ?_ fun result => ?_
        · refine Only.tryCatch (Only.map _ (sendAttempts_offStream ..)) fun e => ?_
          split
          · exact Only.bind (resolve_offStream ..) fun _ => Only.pure _
          · exact Only.throw _
        · split
          · exact Only.pure _
          · exact resolve_offStream ..

theorem processBatch_offStream (token : Option String) (ds : List Delivery) :
    OffStream (processBatch token ds) := by
  induction ds with
  | nil => exact Only.pure _
  | cons d ds ih =>
    refine Only.bind (Only.tryCatch ?_ fun e => ?_) fun ok => ?_
    · exact Only.bind (processEntry_offStream ..) fun _ => Only.pure _
    · exact Only.bind (Only.call trivial) fun _ => Only.pure _
    · split
      · exact Only.bind (Only.call trivial) fun _ => Only.bind ih fun _ => Only.pure _
      · exact ih

omit [Sha256] in
theorem withRequestContext_offStream {α : Type} (who : Identity) (w : Uuid)
    {handler : WorkspaceContext → Session α} (hh : ∀ context, OffStream (handler context)) :
    OffStream (withRequestContext who w handler) := by
  refine Only.bind (Only.atomically trivial (Only.run trivial)) fun index => ?_
  cases index with
  | none => exact Only.throw _
  | some tenant =>
    refine Only.atomically trivial ?_
    exact Only.bind (getWorkspaceContext_lives ..).offStream fun context => hh context

variable [JsonText] [Deployment]

theorem proposeWriteToolAction_offStream (tool args : String) (context : WorkspaceContext)
    (traceId : Uuid) (key : String) :
    OffStream (proposeWriteToolAction tool args context traceId key) := by
  unfold proposeWriteToolAction
  dsimp only
  split
  · exact Only.throw _
  · split
    · exact Only.throw _
    · split
      · exact Only.throw _
      · split
        · exact Only.throw _
        · refine Only.bind (offStream_of_inside (proposeAction_minor ..)) fun x => ?_
          obtain ⟨a, created⟩ := x
          cases created with
          | true => exact (submitActionForExecution_lives ..).offStream
          | false =>
            exact Only.bind (resolveReplayApproval_lives ..).offStream fun _ => Only.pure _

theorem turn_offStream (context : WorkspaceContext) (traceId : Uuid) :
    TurnSteps context traceId fun m => OffStream m where
  composes := Only.compositional _ _ _
  stmt _ _ := Only.run trivial
  call e he := by
    refine Only.call ?_
    cases e <;> trivial
  propose tool args key := proposeWriteToolAction_offStream tool args context traceId key

/-- **Only the outbox relay adds entries.** -/
theorem serve_offStream {r : Request} (hr : ∀ n, r ≠ .outboxRelay n) : OffStream (serve r) := by
  refine Only.bind (Only.call trivial) fun _ => ?_
  cases r with
  | outboxRelay n => exact absurd rfl (hr n)
  | propose who w traceId body key =>
    exact withRequestContext_offStream _ _ fun _ =>
      offStream_of_inside (proposeAndSubmitAction_inside ..)
  | consume who w i nonce =>
    exact withRequestContext_offStream _ _ fun _ => (consumeActionApproval_lives ..).offStream
  | cancel who w i =>
    exact withRequestContext_offStream _ _ fun _ => (cancelAction_lives ..).offStream
  | completeCompensation who w i outcome =>
    exact withRequestContext_offStream _ _ fun _ => (completeActionCompensation_lives ..).offStream
  | chat who w conversation traceId content mode =>
    exact withRequestContext_offStream _ _ fun _ =>
      postConversationMessage_composed (Only.compositional _ _ _) (fun _ => turn_offStream ..) _ _ _
  | telegramRelay token =>
    exact Only.map _ (Only.bind (Only.call trivial) fun _ => processBatch_offStream ..)
  | processEntry entry token =>
    exact Only.bind (processEntry_offStream ..) fun _ => Only.pure _
  | housekeeping rows =>
    refine Only.bind (Only.atomically trivial ?_) fun _ => Only.pure _
    exact (keepHouseAll_writes rows).mono (fun _ _ => trivial) (fun _ => Call.Minor.offStream)
      False.elim

/-- **Every request keeps the contract of the outbox.** -/
theorem serve_publishes (r : Request) (p : ℕ) {h : Hist} (hnone : AddsNone p h) :
    Safe publishing p (fun _ _ _ => True) Whatever (serve r) h {} := by
  by_cases hr : ∃ n, r = .outboxRelay n
  · obtain ⟨n, rfl⟩ := hr
    refine Safe.bind (B := fun _ h' t' => t' = {} ∧ AddsNone p h')
      (Safe.call fun h₁ ho _ _ => ⟨trivial, fun _ => ⟨rfl, ?_⟩⟩) ?_
    · exact (hnone.others ho).cons fun _ _ => by simp
    · rintro - h₁ _ ⟨rfl, hnone₁⟩
      exact Safe.bind (outboxRelayOnce_publishes hnone₁ n) fun _ _ _ _ => trivial
  · have hoff : OffStream (serve r) := serve_offStream fun n hn => hr ⟨n, hn⟩
    exact (hoff.safe (addsNone_steady p) hnone).mono (fun _ _ _ _ => trivial)
      fun _ _ _ _ => trivial

/-- **Every history of the service keeps it.** -/
theorem publishing_of_reachable {s : Sys Row Answer Err Reply Request}
    (hs : Reachable serve s) : publishing.Valid s.hist :=
  (hs.safe fun r p h _ hfresh => serve_publishes r p (h := h) fun _ _ hx =>
    absurd (hfresh _ (mem_own.1 hx).1) (Nat.lt_irrefl p)).valid

end Requests


/-! ## Every run -/

section Runs

variable [Sha256] [JsonText] [Deployment] {s : Sys Row Answer Err Reply Request}

/-- Whoever adds an entry holds its message, which is left to publish. -/
theorem publishes_of_reachable (hs : Reachable serve s) {p : ℕ} {entry : StreamEntry}
    {x : XaddOutcome} {h : Hist} (hle : .called p (.xadd entry) x :: h <:+ s.hist) :
    Publishes p h entry := by
  have hok : publishing.callOk h p (.xadd entry) :=
    ((publishing_of_reachable hs).suffix hle).1
  exact hok (((valid_of_reachable hs).suffix hle).2)

omit [Sha256] [JsonText] [Deployment] in
/-- The process has added the message in a transaction that is still open. -/
theorem opened_of_added {p : ℕ} {entry : StreamEntry} {x : XaddOutcome} {h between evs : Hist}
    (hopened : opened p (between ++ .called p (.xadd entry) x :: h) =
      evs ++ opened p (.called p (.xadd entry) x :: h)) :
    Event.called p (.xadd entry) x ∈ opened p (between ++ .called p (.xadd entry) x :: h) ∧
      ∀ k ∈ held (opened p h), k ∈ held (opened p (between ++ .called p (.xadd entry) x :: h)) := by
  rw [hopened, opened_called]
  refine ⟨by simp, fun k hk => ?_⟩
  rw [held_append]
  exact List.mem_append_right _ hk

/-- **An entry is added again only after its transaction was given up.** -/
theorem added_again (hs : Reachable serve s) {p q : ℕ} {entry entry' : StreamEntry}
    {x x' : XaddOutcome} {h between : Hist}
    (hle : .called q (.xadd entry') x' :: (between ++ .called p (.xadd entry) x :: h) <:+ s.hist)
    (hid : entry'.messageId = entry.messageId) :
    entry' = entry ∧ (Event.rolledBack p ∈ between ∨ Event.crashed p ∈ between) := by
  have hv := valid_of_reachable hs
  have hle₂ : between ++ .called p (.xadd entry) x :: h <:+ s.hist :=
    (List.suffix_cons ..).trans hle
  have hle₁ : .called p (.xadd entry) x :: h <:+ s.hist := (List.suffix_append ..).trans hle₂
  have hfirst := publishes_of_reachable hs hle₁
  have hagain := publishes_of_reachable hs hle
  obtain ⟨m, hm, -, hentry⟩ := hfirst.pending
  obtain ⟨m', hm', hpending, hentry'⟩ := hagain.pending
  rw [hid] at hm'
  refine ⟨?_, ?_⟩
  · obtain ⟨m₂, hm₂, hsame, -⟩ := keeps_message_of_valid (hv.suffix hle₂)
      ((List.suffix_cons ..).trans (List.suffix_append ..)) hm
    obtain rfl := Option.some.inj (hm'.symm.trans hm₂)
    rw [← hentry', hsame, hentry]
  rcases opened_append_cases p between (.called p (.xadd entry) x :: h) with
    ⟨evs, hopened⟩ | ⟨later, ev, earlier, evs, rfl, hpid, hends, hopened⟩
  · -- the first transaction is still open, and holds the message
    obtain ⟨hadded, hheld⟩ := opened_of_added hopened
    by_cases hpq : p = q
    · subst hpq
      exact absurd hid.symm (hagain.first entry x hadded)
    · refine .inr (by_contra fun hcrash => ?_)
      have hq : .crashed q ∉ between ++ .called p (.xadd entry) x :: h := hs.not_crashed hle
      have hp : .crashed p ∉ between ++ .called p (.xadd entry) x :: h := by
        have hbefore := hs.not_crashed hle₁
        rw [List.mem_append, List.mem_cons]
        rintro (hmem | heq | hmem)
        · exact hcrash hmem
        · cases heq
        · exact hbefore hmem
      refine hs.held_apart hle₂ hpq hp hq (hheld _ hfirst.held) ?_
      rw [← hid]
      exact hagain.held
  · -- its transaction has ended, and a commit would have marked the message
    cases ev with
    | committed p' w =>
      obtain rfl : p' = p := hpid
      have hle₃ : .committed p' w :: (earlier ++ .called p' (.xadd entry) x :: h) <:+
          later ++ .committed p' w :: earlier ++ .called p' (.xadd entry) x :: h :=
        ⟨later, by simp⟩
      have hmarks : Marks p' (earlier ++ .called p' (.xadd entry) x :: h) w := by
        have hok := ((publishing_of_reachable hs).suffix (hle₃.trans hle₂)).1
        exact hok ((hv.suffix (hle₃.trans hle₂)).2)
      obtain ⟨m₁, hm₁, hpublished⟩ := hmarks entry x (opened_of_added hopened).1
      have hrow : row (committed (.committed p' w :: (earlier ++
          .called p' (.xadd entry) x :: h))) (.outboxMessage entry.messageId) = some m₁ := by
        rw [committed_cons, Event.writes_committed, row_append_of_mem _ (mem_keys_of_row hm₁), hm₁]
      obtain ⟨m₂, hm₂, -, hkept⟩ := keeps_message_of_valid (hv.suffix hle₂) hle₃ hrow
      obtain rfl := Option.some.inj (hm'.symm.trans hm₂)
      rw [hkept hpublished] at hpending
      exact absurd hpending hpublished
    | rolledBack p' =>
      obtain rfl : p' = p := hpid
      exact .inl (by simp)
    | ran | called | failed | crashed => simp [Event.ends] at hends

/-- **The outbox loses nothing.**  A committed message stays, with its entry, and is left to
publish until its entry has been added; an entry is added by a worker that holds the message,
with what the row says; no two workers hold a message; and an entry is added again only after
the worker that added it before has rolled back or crashed. -/
theorem outbox_delivers (hs : Reachable serve s) :
    (∀ h k m, h <:+ s.hist → row (committed h) (.outboxMessage k) = some m →
      ∃ m', row (committed s.hist) (.outboxMessage k) = some m' ∧ m'.entry = m.entry ∧
        (m.publishedAt ≠ none → m' = m) ∧
        (m'.publishedAt = none ∨ ∃ p, Event.called p (.xadd m.entry) .added ∈ s.hist)) ∧
    (∀ p entry x h, .called p (.xadd entry) x :: h <:+ s.hist → Publishes p h entry) ∧
    (∀ h p q, h <:+ s.hist → p ≠ q → .crashed p ∉ h → .crashed q ∉ h →
      ∀ k ∈ held (opened p h), k ∉ held (opened q h)) ∧
    ∀ p q entry entry' x x' h between,
      .called q (.xadd entry') x' :: (between ++ .called p (.xadd entry) x :: h) <:+ s.hist →
      entry'.messageId = entry.messageId →
      entry' = entry ∧ (Event.rolledBack p ∈ between ∨ Event.crashed p ∈ between) := by
  have hv := valid_of_reachable hs
  refine ⟨?_, fun p entry x h => publishes_of_reachable hs, ?_, ?_⟩
  · intro h k m hle hm
    obtain ⟨m', hm', hentry, hkept⟩ := keeps_message_of_valid hv hle hm
    refine ⟨m', hm', hentry, hkept, ?_⟩
    rw [← hentry]
    exact added_of_valid hv k m' hm'
  · exact fun h p q hle hpq hp hq k hk => hs.held_apart hle hpq hp hq hk
  · exact fun p q entry entry' x x' h between => added_again hs

end Runs

/-! ## A sample run -/

section Sample

attribute [local instance] plainSha plainJsonText sampleDeployment

/-- A worker adds the entry of action 112 and crashes; another adds it and commits. -/
def republished : Option (Sys Row Answer Err Reply Request) :=
  runAll serve {} (startedAction ++ (.start (.outboxRelay 10) :: Act.runs 4 sampleAnswer 191 3) ++
    .crash 4 :: .start (.outboxRelay 10) :: Act.runs 5 sampleAnswer 194 6)

/-- The history ends with the two entries. -/
def addedTwice : Hist → Bool
  | _ :: _ :: _ :: .called 5 (.xadd entry') _ :: _ :: _ :: _ :: .called 4 (.xadd entry) _ :: _ =>
    entry'.messageId = entry.messageId
  | _ => false

theorem addedTwice_eq_true {h : Hist} (H : addedTwice h = true) :
    ∃ entry entry' x x' between h', .called 5 (.xadd entry') x' ::
        (between ++ .called 4 (.xadd entry) x :: h') <:+ h ∧
      entry'.messageId = entry.messageId := by
  unfold addedTwice at H
  split at H
  · rename_i ev₁ ev₂ ev₃ entry' x' ev₄ ev₅ ev₆ entry x h'
    have hid := of_decide_eq_true H
    exact ⟨entry, entry', x, x', [ev₄, ev₅, ev₆], h', ⟨[ev₁, ev₂, ev₃], rfl⟩, hid⟩
  · cases H

/-- The second worker adds the entry that the first had added. -/
theorem outbox_delivers_sample : ∃ s, republished = some s ∧
    ∃ entry x x', Event.called 4 (.xadd entry) x ∈ s.hist ∧
      Event.called 5 (.xadd entry) x' ∈ s.hist ∧
      (Event.rolledBack 4 ∈ s.hist ∨ Event.crashed 4 ∈ s.hist) := by
  have hrun : (republished.any fun s => addedTwice s.hist) = true := by decide +kernel
  obtain ⟨s, hst, hs⟩ := (Option.any_eq_true _ _).1 hrun
  obtain ⟨entry, entry', x, x', between, h, hle, hid⟩ := addedTwice_eq_true hs
  obtain ⟨rfl, hgiven⟩ := (outbox_delivers (Reachable.init.runAll hst)).2.2.2
    4 5 entry entry' x x' h between hle hid
  have hsub : ∀ ev ∈ between, ev ∈ s.hist := fun ev hev =>
    hle.subset (List.mem_cons_of_mem _ (List.mem_append_left _ hev))
  exact ⟨s, hst, entry', x, x', hle.subset (by simp), hle.subset (by simp),
    hgiven.imp (hsub _) (hsub _)⟩

end Sample

end Doda
