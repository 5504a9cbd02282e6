import Doda.Lib.System

/-!
# Rely and guarantee for interleaved transactions

A contract says what a process may commit and which calls it may make, each
against the history at that moment.  `Safe` is the weakest precondition of a
program under a contract: at every operation the other processes may first have
extended the history by anything the contract lets them do, as long as they left
alone the rows this process has locked.

`Reachable.safe` is the soundness theorem: when every program is safe from the
moment its request arrives, every reachable history keeps the contract.  What
holds over all runs then follows by induction on histories, without looking at
programs again.

## Main definitions

* `Contract`, `Contract.Valid` — contracts, and the histories that keep one.
* `Extends`, `Others` — later histories, and those made by others alone.
* `Safe` — the weakest precondition.
* `Safe.bind`, `Safe.tryCatch`, `Safe.run`, `Safe.call`, `Safe.atomically` — its rules.
* `Reachable.safe` — soundness.
-/

namespace ReadCommitted

variable {K : Type} {V : K → Type} {E : Type} {R : E → Type} {ε α β Req : Type}

/-! ## Later histories -/

/-- `h'` is `h` followed by events that all satisfy `P`. -/
def Extends (P : Event V R → Prop) (h h' : History V R) : Prop :=
  ∃ evs, h' = evs ++ h ∧ ∀ ev ∈ evs, P ev

namespace Extends

variable {P P' : Event V R → Prop} {h h' h'' : History V R}

@[refl] theorem refl (h : History V R) : Extends P h h := ⟨[], rfl, by simp⟩

theorem trans (h₁ : Extends P h h') (h₂ : Extends P h' h'') : Extends P h h'' := by
  obtain ⟨evs, rfl, H⟩ := h₁
  obtain ⟨evs', rfl, H'⟩ := h₂
  refine ⟨evs' ++ evs, by simp, ?_⟩
  intro ev hev
  rcases List.mem_append.1 hev with hev | hev
  · exact H' ev hev
  · exact H ev hev

theorem mono (hP : ∀ ev, P ev → P' ev) (h₁ : Extends P h h') : Extends P' h h' := by
  obtain ⟨evs, rfl, H⟩ := h₁
  exact ⟨evs, rfl, fun ev hev => hP ev (H ev hev)⟩

theorem cons {ev : Event V R} (h₁ : Extends P h h') (hev : P ev) : Extends P h (ev :: h') := by
  obtain ⟨evs, rfl, H⟩ := h₁
  refine ⟨ev :: evs, rfl, ?_⟩
  intro e he
  rcases List.mem_cons.1 he with rfl | he
  · exact hev
  · exact H e he

theorem append {evs : History V R} (h₁ : Extends P h h') (hev : ∀ ev ∈ evs, P ev) :
    Extends P h (evs ++ h') :=
  h₁.trans ⟨evs, rfl, hev⟩

theorem suffix (h₁ : Extends P h h') : h <:+ h' := by
  obtain ⟨evs, rfl, -⟩ := h₁
  exact List.suffix_append evs h

/-- A row that no new event writes is unchanged. -/
theorem row_eq [DecidableEq K] {k : K} (h₁ : Extends P h h')
    (hP : ∀ ev, P ev → k ∉ keys ev.writes) : row (committed h') k = row (committed h) k := by
  obtain ⟨evs, rfl, H⟩ := h₁
  induction evs with
  | nil => rfl
  | cons ev evs ih =>
    rw [List.cons_append, committed_cons, row_append_of_notMem _ (hP ev (H ev (by simp)))]
    exact ih fun e he => H e (by simp [he])

end Extends

/-- The event is another process's and leaves the rows `L` alone. -/
def Event.Elsewhere (p : ℕ) (L : List K) (ev : Event V R) : Prop :=
  ev.pid ≠ p ∧ ∀ k ∈ L, k ∉ keys ev.writes

/-- `h'` is `h` and then what processes other than `p` may do while `p` holds `L`. -/
abbrev Others (p : ℕ) (L : List K) (h h' : History V R) : Prop :=
  Extends (Event.Elsewhere p L) h h'

/-- A locked row is unchanged. -/
theorem Others.row_eq [DecidableEq K] {p : ℕ} {L : List K} {h h' : History V R} {k : K}
    (h₁ : Others p L h h') (hk : k ∈ L) : row (committed h') k = row (committed h) k :=
  Extends.row_eq h₁ fun _ hev => hev.2 k hk

/-! ## Going on within a transaction

`M` are the calls that matter to no contract, such as reading a clock. -/

/-- An event a process causes while it works inside a transaction. -/
def Event.Inside (M : E → Prop) : Event V R → Prop
  | .ran _ _ _ | .failed _ => True
  | .called _ e _ => M e
  | _ => False

/-- Process `p` went on from `h`, `t` to `h'`, `t'` inside one transaction: it made
minor calls only, kept its locks and its writes, and nobody wrote a row it held. -/
structure Onward (M : E → Prop) (p : ℕ) (h : History V R) (t : Tx V) (h' : History V R)
    (t' : Tx V) : Prop where
  later : Extends (fun ev => (∀ k ∈ t.locks, k ∉ keys ev.writes) ∧
    (ev.pid = p → ev.Inside M)) h h'
  locks : ∀ k ∈ t.locks, k ∈ t'.locks
  writes : t.writes <:+ t'.writes

namespace Onward

variable {M : E → Prop} {p : ℕ} {h h' h'' : History V R} {t t' t'' : Tx V}

theorem refl (h : History V R) (t : Tx V) : Onward M p h t h t :=
  ⟨.refl h, fun _ hk => hk, List.suffix_refl _⟩

theorem trans (h₁ : Onward M p h t h' t') (h₂ : Onward M p h' t' h'' t'') :
    Onward M p h t h'' t'' where
  later := h₁.later.trans
    (h₂.later.mono fun _ hev => ⟨fun k hk => hev.1 k (h₁.locks k hk), hev.2⟩)
  locks k hk := h₂.locks k (h₁.locks k hk)
  writes := h₁.writes.trans h₂.writes

/-- Others move. -/
theorem others (h₁ : Others p t.locks h h') : Onward M p h t h' t :=
  ⟨h₁.mono fun _ hev => ⟨hev.2, fun hp => absurd hp hev.1⟩, fun _ hk => hk, List.suffix_refl _⟩

/-- The process itself does something that commits nothing. -/
theorem own {ev : Event V R} (hev : ev.Inside M) (hl : ∀ k ∈ t.locks, k ∈ t'.locks)
    (hw : t.writes <:+ t'.writes) : Onward M p h t (ev :: h) t' := by
  refine ⟨(Extends.refl h).cons ⟨fun k _ => ?_, fun _ => hev⟩, hl, hw⟩
  cases ev <;> simp [Event.Inside] at hev ⊢

/-- A locked row is unchanged. -/
theorem row_eq [DecidableEq K] (h₁ : Onward M p h t h' t') {k : K} (hk : k ∈ t.locks) :
    row (committed h') k = row (committed h) k :=
  Extends.row_eq h₁.later fun _ hev => hev.1 k hk

theorem suffix (h₁ : Onward M p h t h' t') : h <:+ h' := h₁.later.suffix

end Onward

/-- After `h`, `p` saw a statement or a commit fail. -/
def FailedSince (p : ℕ) (h h' : History V R) : Prop :=
  ∃ evs, h' = evs ++ h ∧ Event.failed p ∈ evs

theorem FailedSince.of_suffix {p : ℕ} {h h₁ h₂ h' : History V R} (H : FailedSince p h₁ h₂)
    (hs : h <:+ h₁) (hs' : h₂ <:+ h') : FailedSince p h h' := by
  obtain ⟨evs, rfl, hev⟩ := H
  obtain ⟨u, rfl⟩ := hs
  obtain ⟨v, rfl⟩ := hs'
  exact ⟨v ++ (evs ++ u), by simp, by simp [hev]⟩

/-! ## Contracts -/

/-- What processes promise each other: which commits and which calls they make,
given the history so far. -/
structure Contract (V : K → Type) {E : Type} (R : E → Type) where
  commitOk : History V R → ℕ → Store V → Prop
  callOk : History V R → ℕ → E → Prop

namespace Contract

variable (C : Contract V R)

/-- The event keeps the contract, after the history `h`. -/
def ok (h : History V R) : Event V R → Prop
  | .committed p w => C.commitOk h p w
  | .called p e _ => C.callOk h p e
  | _ => True

/-- Every event of the history kept the contract. -/
def Valid : History V R → Prop
  | [] => True
  | ev :: h => C.ok h ev ∧ Valid h

@[simp] theorem valid_nil : C.Valid [] := trivial
@[simp] theorem valid_cons {ev : Event V R} {h : History V R} :
    C.Valid (ev :: h) ↔ C.ok h ev ∧ C.Valid h := Iff.rfl

variable {C}

theorem Valid.suffix {h h' : History V R} (H : C.Valid h') (hs : h <:+ h') : C.Valid h := by
  obtain ⟨evs, rfl⟩ := hs
  induction evs with
  | nil => exact H
  | cons ev evs ih => exact ih H.2

/-- No commit deletes the row. -/
def Keeps (C : Contract V R) (k : K) : Prop :=
  ∀ h p w, C.commitOk h p w → (⟨k, none⟩ : Version V) ∉ w

theorem Keeps.notMem_committed {k : K} (hk : C.Keeps k) {h : History V R} (hv : C.Valid h) :
    (⟨k, none⟩ : Version V) ∉ committed h := by
  induction h with
  | nil => simp
  | cons ev h ih =>
    rw [committed_cons, List.mem_append, not_or]
    refine ⟨?_, ih hv.2⟩
    cases ev with
    | committed q w => exact hk _ _ _ hv.1
    | ran | called | rolledBack | failed | crashed => simp

/-- A row that is never deleted stays. -/
theorem Keeps.isSome_row [DecidableEq K] {k : K} (hk : C.Keeps k) {h h' : History V R}
    (hs : h <:+ h') (hv : C.Valid h') (hrow : (row (committed h) k).isSome) :
    (row (committed h') k).isSome := by
  obtain ⟨evs, rfl⟩ := hs
  induction evs with
  | nil => exact hrow
  | cons ev evs ih =>
    rw [List.cons_append, committed_cons]
    refine isSome_row_append ?_ (ih hv.2)
    cases ev with
    | committed q w => exact hk _ _ _ hv.1
    | ran | called | rolledBack | failed | crashed => simp

/-- A transaction that sees such a row goes on seeing it. -/
theorem Keeps.isSome_view [DecidableEq K] {k : K} (hk : C.Keeps k) {h h' : History V R}
    {t : Tx V} (hs : h <:+ h') (hv : C.Valid h') (hrow : (row (t.view (committed h)) k).isSome) :
    (row (t.view (committed h')) k).isSome := by
  by_cases hw : k ∈ keys t.writes
  · rw [Tx.view, row_append_of_mem _ hw] at hrow ⊢
    exact hrow
  · rw [Tx.view, row_append_of_notMem _ hw] at hrow ⊢
    exact hk.isSome_row hs hv hrow

end Contract

/-! ## Weakest preconditions -/

variable [DecidableEq K]

/-- **`Safe C p Q X m h t`**: run by process `p` after history `h` in transaction
`t`, the program `m` keeps the contract, and ends in `Q` when it returns and in
`X` when it raises. -/
def Safe (C : Contract V R) (p : ℕ) (Q : α → History V R → Tx V → Prop)
    (X : ε → History V R → Tx V → Prop) : Prog V R ε α → History V R → Tx V → Prop
  | .pure a, h, t => Q a h t
  | .throw e, h, t => X e h t
  | .stmt q k, h, t => ∀ h', Others p t.locks h h' → C.Valid h' → t.Sound →
      (∀ busy x t', t.failed = false → q.exec (committed h') busy t = some (x, t') →
        Safe C p Q X (k (some x)) (.ran p q x :: h') t') ∧
      Safe C p Q X (k none) (.failed p :: h') { t with failed := true }
  | .call e k, h, t => ∀ h', Others p t.locks h h' → C.Valid h' → t.Sound →
      C.callOk h' p e ∧ ∀ x, Safe C p Q X (k x) (.called p e x :: h') t
  | .commit k, h, t => ∀ h', Others p t.locks h h' → C.Valid h' → t.Sound →
      (t.failed = false → C.commitOk h' p t.writes ∧
        Safe C p Q X (k true) (.committed p t.writes :: h') {} ∧
        Safe C p Q X (k false) (.failed p :: .committed p t.writes :: h') { failed := true }) ∧
      Safe C p Q X (k false) (.failed p :: h') { t with failed := true }
  | .rollback k, h, t => ∀ h', Others p t.locks h h' → C.Valid h' → t.Sound →
      Safe C p Q X k (.rolledBack p :: h') {}

namespace Safe

variable {C : Contract V R} {p : ℕ} {Q : α → History V R → Tx V → Prop}
  {X : ε → History V R → Tx V → Prop} {h : History V R} {t : Tx V}

@[simp] theorem pure_iff {a : α} : Safe C p Q X (pure a) h t ↔ Q a h t := Iff.rfl
@[simp] theorem throw_iff {e : ε} : Safe C p Q X (throw e) h t ↔ X e h t := Iff.rfl

/-- Weaken what a program ends in. -/
theorem mono {m : Prog V R ε α} {Q' : α → History V R → Tx V → Prop}
    {X' : ε → History V R → Tx V → Prop} (H : Safe C p Q' X' m h t)
    (hQ : ∀ a h t, Q' a h t → Q a h t) (hX : ∀ e h t, X' e h t → X e h t) :
    Safe C p Q X m h t := by
  induction m generalizing h t with
  | pure a => exact hQ _ _ _ H
  | throw e => exact hX _ _ _ H
  | stmt q k ih =>
    intro h' ho hv hs
    obtain ⟨h₁, h₂⟩ := H h' ho hv hs
    exact ⟨fun busy x t' hf hx => ih _ (h₁ busy x t' hf hx), ih _ h₂⟩
  | call e k ih =>
    intro h' ho hv hs
    obtain ⟨h₁, h₂⟩ := H h' ho hv hs
    exact ⟨h₁, fun x => ih _ (h₂ x)⟩
  | commit k ih =>
    intro h' ho hv hs
    obtain ⟨h₁, h₂⟩ := H h' ho hv hs
    exact ⟨fun hf => ⟨(h₁ hf).1, ih _ (h₁ hf).2.1, ih _ (h₁ hf).2.2⟩, ih _ h₂⟩
  | rollback k ih =>
    intro h' ho hv hs
    exact ih (H h' ho hv hs)

/-- **Conjunction.** -/
theorem and {m : Prog V R ε α} {Q' : α → History V R → Tx V → Prop}
    {X' : ε → History V R → Tx V → Prop} (H : Safe C p Q X m h t) (H' : Safe C p Q' X' m h t) :
    Safe C p (fun a h t => Q a h t ∧ Q' a h t) (fun e h t => X e h t ∧ X' e h t) m h t := by
  induction m generalizing h t with
  | pure a => exact ⟨H, H'⟩
  | throw e => exact ⟨H, H'⟩
  | stmt q k ih =>
    intro h' ho hv hs
    obtain ⟨h₁, h₂⟩ := H h' ho hv hs
    obtain ⟨h₁', h₂'⟩ := H' h' ho hv hs
    exact ⟨fun busy x t' hf hx => ih _ (h₁ busy x t' hf hx) (h₁' busy x t' hf hx), ih _ h₂ h₂'⟩
  | call e k ih =>
    intro h' ho hv hs
    obtain ⟨h₁, h₂⟩ := H h' ho hv hs
    exact ⟨h₁, fun x => ih _ (h₂ x) ((H' h' ho hv hs).2 x)⟩
  | commit k ih =>
    intro h' ho hv hs
    obtain ⟨h₁, h₂⟩ := H h' ho hv hs
    obtain ⟨h₁', h₂'⟩ := H' h' ho hv hs
    refine ⟨fun hf => ⟨(h₁ hf).1, ?_, ?_⟩, ih _ h₂ h₂'⟩
    · exact ih _ (h₁ hf).2.1 (h₁' hf).2.1
    · exact ih _ (h₁ hf).2.2 (h₁' hf).2.2
  | rollback k ih =>
    intro h' ho hv hs
    exact ih (H h' ho hv hs) (H' h' ho hv hs)

/-- Forget what is raised. -/
theorem forget {m : Prog V R ε α} (H : Safe C p Q X m h t) :
    Safe C p Q (fun _ _ _ => True) m h t :=
  H.mono (fun _ _ _ => id) fun _ _ _ _ => trivial

/-- **Sequencing.** -/
theorem bind {m : Prog V R ε β} {f : β → Prog V R ε α} {B : β → History V R → Tx V → Prop}
    (H : Safe C p B X m h t) (hf : ∀ b h t, B b h t → Safe C p Q X (f b) h t) :
    Safe C p Q X (m >>= f) h t := by
  change Safe C p Q X (m.bind f) h t
  induction m generalizing h t with
  | pure a => exact hf _ _ _ H
  | throw e => exact H
  | stmt q k ih =>
    intro h' ho hv hs
    obtain ⟨h₁, h₂⟩ := H h' ho hv hs
    exact ⟨fun busy x t' hf hx => ih _ (h₁ busy x t' hf hx), ih _ h₂⟩
  | call e k ih =>
    intro h' ho hv hs
    obtain ⟨h₁, h₂⟩ := H h' ho hv hs
    exact ⟨h₁, fun x => ih _ (h₂ x)⟩
  | commit k ih =>
    intro h' ho hv hs
    obtain ⟨h₁, h₂⟩ := H h' ho hv hs
    exact ⟨fun hf => ⟨(h₁ hf).1, ih _ (h₁ hf).2.1, ih _ (h₁ hf).2.2⟩, ih _ h₂⟩
  | rollback k ih =>
    intro h' ho hv hs
    exact ih (H h' ho hv hs)

/-- A run only adds to the history. -/
theorem later {m : Prog V R ε α} (H : Safe C p Q X m h t) {h₀ : History V R} (hh : h₀ <:+ h) :
    Safe C p (fun a h' t' => Q a h' t' ∧ h₀ <:+ h') (fun e h' t' => X e h' t' ∧ h₀ <:+ h')
      m h t := by
  induction m generalizing h t with
  | pure a => exact ⟨H, hh⟩
  | throw e => exact ⟨H, hh⟩
  | stmt q k ih =>
    intro h' ho hv hs
    obtain ⟨h₁, h₂⟩ := H h' ho hv hs
    have hle := hh.trans ho.suffix
    exact ⟨fun busy x t' hf hx => ih _ (h₁ busy x t' hf hx) (hle.trans (List.suffix_cons _ _)),
      ih _ h₂ (hle.trans (List.suffix_cons _ _))⟩
  | call e k ih =>
    intro h' ho hv hs
    obtain ⟨h₁, h₂⟩ := H h' ho hv hs
    exact ⟨h₁, fun x => ih _ (h₂ x) ((hh.trans ho.suffix).trans (List.suffix_cons _ _))⟩
  | commit k ih =>
    intro h' ho hv hs
    obtain ⟨h₁, h₂⟩ := H h' ho hv hs
    have hle := hh.trans ho.suffix
    have hle' := hle.trans (List.suffix_cons (.committed p t.writes) h')
    exact ⟨fun hf => ⟨(h₁ hf).1, ih _ (h₁ hf).2.1 hle',
      ih _ (h₁ hf).2.2 (hle'.trans (List.suffix_cons _ _))⟩,
      ih _ h₂ (hle.trans (List.suffix_cons _ _))⟩
  | rollback k ih =>
    intro h' ho hv hs
    exact ih (H h' ho hv hs) ((hh.trans ho.suffix).trans (List.suffix_cons _ _))

/-- **Exception handlers.** -/
theorem tryCatch {m : Prog V R ε α} {f : ε → Prog V R ε α}
    (X' : ε → History V R → Tx V → Prop) (H : Safe C p Q X' m h t)
    (hf : ∀ e h t, X' e h t → Safe C p Q X (f e) h t) :
    Safe C p Q X (MonadExcept.tryCatch m f) h t := by
  change Safe C p Q X (m.tryCatch f) h t
  induction m generalizing h t with
  | pure a => exact H
  | throw e => exact hf _ _ _ H
  | stmt q k ih =>
    intro h' ho hv hs
    obtain ⟨h₁, h₂⟩ := H h' ho hv hs
    exact ⟨fun busy x t' hf hx => ih _ (h₁ busy x t' hf hx), ih _ h₂⟩
  | call e k ih =>
    intro h' ho hv hs
    obtain ⟨h₁, h₂⟩ := H h' ho hv hs
    exact ⟨h₁, fun x => ih _ (h₂ x)⟩
  | commit k ih =>
    intro h' ho hv hs
    obtain ⟨h₁, h₂⟩ := H h' ho hv hs
    exact ⟨fun hf => ⟨(h₁ hf).1, ih _ (h₁ hf).2.1, ih _ (h₁ hf).2.2⟩, ih _ h₂⟩
  | rollback k ih =>
    intro h' ho hv hs
    exact ih (H h' ho hv hs)

variable [DatabaseError ε]

/-- **A statement.** -/
theorem run {q : Stmt V} {Q : q.Res → History V R → Tx V → Prop}
    (H : ∀ h', Others p t.locks h h' → C.Valid h' → t.Sound →
      (∀ busy x t', t.failed = false → q.exec (committed h') busy t = some (x, t') →
        Q x (.ran p q x :: h') t') ∧
      X databaseError (.failed p :: h') { t with failed := true }) :
    Safe C p Q X (run q) h t := H

omit [DatabaseError ε] in
/-- **A call.** -/
theorem call {e : E} {Q : R e → History V R → Tx V → Prop}
    (H : ∀ h', Others p t.locks h h' → C.Valid h' → t.Sound →
      C.callOk h' p e ∧ ∀ x, Q x (.called p e x :: h') t) :
    Safe C p Q X (call e) h t := H

/-- **A transaction block.** -/
theorem atomically {m : Prog V R ε α} (Q' : α → History V R → Tx V → Prop)
    (X' : ε → History V R → Tx V → Prop) (H : Safe C p Q' X' m h t)
    (hQ : ∀ a h t, Q' a h t → ∀ h', Others p t.locks h h' → C.Valid h' → t.Sound →
      (t.failed = false → C.commitOk h' p t.writes ∧ Q a (.committed p t.writes :: h') {} ∧
        ∀ h'', Others p [] (.failed p :: .committed p t.writes :: h') h'' → C.Valid h'' →
          X databaseError (.rolledBack p :: h'') {}) ∧
      ∀ h'', Others p t.locks (.failed p :: h') h'' → C.Valid h'' →
        X databaseError (.rolledBack p :: h'') {})
    (hX : ∀ e h t, X' e h t → ∀ h', Others p t.locks h h' → C.Valid h' →
      X e (.rolledBack p :: h') {}) :
    Safe C p Q X (atomically m) h t := by
  let Xb : ε → History V R → Tx V → Prop := fun e h t =>
    ∀ h', Others p t.locks h h' → C.Valid h' → X e (.rolledBack p :: h') {}
  refine tryCatch Xb (bind (H.mono (fun _ _ _ => id) hX) ?_) ?_
  · intro a h t ha h' ho hv hs
    obtain ⟨h₁, h₂⟩ := hQ a h t ha h' ho hv hs
    exact ⟨fun hf => ⟨(h₁ hf).1, (h₁ hf).2.1, (h₁ hf).2.2⟩, h₂⟩
  · intro e h t he h' ho hv _
    exact he h' ho hv

end Safe

/-! ## Soundness -/

/-- No row is locked by two processes, and every row written is locked. -/
structure Exclusive (s : Sys V R ε α Req) : Prop where
  sound : ∀ (p : ℕ) (r : Proc V R ε α Req), s.procs[p]? = some (some r) → r.tx.Sound
  disjoint : ∀ (p q : ℕ) (r r' : Proc V R ε α Req), p ≠ q → s.procs[p]? = some (some r) →
    s.procs[q]? = some (some r') → ∀ k ∈ r.tx.locks, k ∉ r'.tx.locks

/-- What is known of every reachable state: the history keeps the contract, and
each process is safe from some point since which only others have moved. -/
structure Kept (C : Contract V R) (Q : Req → ℕ → α → History V R → Tx V → Prop)
    (X : Req → ℕ → ε → History V R → Tx V → Prop) (s : Sys V R ε α Req) : Prop where
  valid : C.Valid s.hist
  exclusive : Exclusive s
  fresh : ∀ ev ∈ s.hist, ev.pid < s.procs.length
  safe : ∀ (p : ℕ) (r : Proc V R ε α Req), s.procs[p]? = some (some r) →
    ∃ h, Others p r.tx.locks h s.hist ∧ Safe C p (Q r.req p) (X r.req p) r.prog h r.tx

section Soundness

variable {C : Contract V R} {Q : Req → ℕ → α → History V R → Tx V → Prop}
  {X : Req → ℕ → ε → History V R → Tx V → Prop} {s : Sys V R ε α Req}

omit [DecidableEq K] in
theorem put_procs_self {p : ℕ} {r : Proc V R ε α Req} {r' : Option (Proc V R ε α Req)}
    {evs : History V R} (hp : s.procs[p]? = some (some r)) :
    (s.put p r' evs).procs[p]? = some r' := by
  have : p < s.procs.length := (List.getElem?_eq_some_iff.1 hp).1
  simp [Sys.put, this]

omit [DecidableEq K] in
theorem put_procs_ne {p q : ℕ} {r' : Option (Proc V R ε α Req)} {evs : History V R}
    (h : p ≠ q) : (s.put p r' evs).procs[q]? = s.procs[q]? := by
  simp [Sys.put, List.getElem?_set_ne h]

/-- A row that a live process holds is busy for the others. -/
theorem busy_of_mem {p q : ℕ} {r : Proc V R ε α Req} {k : K} (hpq : p ≠ q)
    (hq : s.procs[q]? = some (some r)) (hk : k ∈ r.tx.locks) : s.busy p k = true := by
  simp only [Sys.busy, List.any_eq_true]
  refine ⟨some r, ?_, by simpa using hk⟩
  exact List.mem_eraseIdx_iff_getElem?.2 ⟨q, Ne.symm hpq, hq⟩

/-- A move writes only rows its process has locked. -/
theorem Moves.keys_mem {p : ℕ} {r : Proc V R ε α Req} {r' : Option (Proc V R ε α Req)}
    {evs : History V R} (H : Moves s p r r' evs) (hr : r.tx.Sound) {ev : Event V R}
    (hev : ev ∈ evs) {k : K} (hk : k ∈ keys ev.writes) : k ∈ r.tx.locks := by
  cases H with
  | committed hp hf =>
    simp only [List.mem_singleton] at hev
    subst hev
    exact hr k hk
  | commitLost hp hf =>
    simp only [List.mem_cons, List.not_mem_nil, or_false] at hev
    rcases hev with rfl | rfl
    · simp at hk
    · exact hr k hk
  | ran | failed | called | commitFailed | rolledBack | crashed =>
    simp only [List.mem_singleton] at hev
    subst hev
    simp at hk

/-- A move locks no row another process holds, and keeps written rows locked. -/
theorem Moves.locks {p : ℕ} {r r' : Proc V R ε α Req} {evs : History V R}
    (H : Moves s p r (some r') evs) (hr : r.tx.Sound) :
    r'.tx.Sound ∧ ∀ k ∈ r'.tx.locks, k ∈ r.tx.locks ∨ s.busy p k = false := by
  cases H with
  | ran hk hf hx =>
    exact ⟨Stmt.exec_sound hx hr, fun k hk => Stmt.exec_locks hx hk⟩
  | failed | commitFailed => exact ⟨hr, fun k hk => .inl hk⟩
  | called => exact ⟨hr, fun k hk => .inl hk⟩
  | committed | rolledBack => exact ⟨Tx.sound_empty, by simp⟩
  | commitLost => exact ⟨by simp [Tx.Sound], by simp⟩

theorem Exclusive.put {p : ℕ} {r : Proc V R ε α Req} {r' : Option (Proc V R ε α Req)}
    {evs : History V R} (he : Exclusive s) (hp : s.procs[p]? = some (some r))
    (H : Moves s p r r' evs) : Exclusive (s.put p r' evs) := by
  have hself : (s.put p r' evs).procs[p]? = some r' := put_procs_self hp
  have hlock : ∀ r₁, r' = some r₁ → r₁.tx.Sound ∧ ∀ q r₂, p ≠ q →
      s.procs[q]? = some (some r₂) → ∀ k ∈ r₁.tx.locks, k ∉ r₂.tx.locks := by
    rintro r₁ rfl
    obtain ⟨hs, hl⟩ := H.locks (he.sound p r hp)
    refine ⟨hs, fun q r₂ hpq hq k hk hk' => ?_⟩
    rcases hl k hk with h | h
    · exact he.disjoint p q r r₂ hpq hp hq k h hk'
    · simp [busy_of_mem hpq hq hk'] at h
  constructor
  · intro q r₁ hq
    by_cases hpq : p = q
    · subst hpq
      rw [hself] at hq
      exact (hlock r₁ (by simpa using hq)).1
    · rw [put_procs_ne hpq] at hq
      exact he.sound q r₁ hq
  · intro q q' r₁ r₂ hne hq hq' k hk hk'
    by_cases h₁ : p = q
    · subst h₁
      rw [hself] at hq
      rw [put_procs_ne hne] at hq'
      exact (hlock r₁ (by simpa using hq)).2 q' r₂ hne hq' k hk hk'
    · by_cases h₂ : p = q'
      · subst h₂
        rw [hself] at hq'
        rw [put_procs_ne h₁] at hq
        exact (hlock r₂ (by simpa using hq')).2 q r₁ h₁ hq k hk' hk
      · rw [put_procs_ne h₁] at hq
        rw [put_procs_ne h₂] at hq'
        exact he.disjoint q q' r₁ r₂ hne hq hq' k hk hk'

/-- A safe process's move keeps the contract, and leaves it safe. -/
theorem Moves.safe {p : ℕ} {r : Proc V R ε α Req} {r' : Option (Proc V R ε α Req)}
    {evs : History V R} (H : Moves s p r r' evs) (hv : C.Valid s.hist) (hr : r.tx.Sound)
    {h : History V R} (ho : Others p r.tx.locks h s.hist)
    (hsafe : Safe C p (Q r.req p) (X r.req p) r.prog h r.tx) :
    C.Valid (evs ++ s.hist) ∧ ∀ r₁, r' = some r₁ →
      Safe C p (Q r₁.req p) (X r₁.req p) r₁.prog (evs ++ s.hist) r₁.tx := by
  cases H with
  | ran hk hf hx =>
    rw [hk] at hsafe
    refine ⟨⟨trivial, hv⟩, ?_⟩
    rintro _ ⟨rfl⟩
    exact (hsafe _ ho hv hr).1 _ _ _ hf hx
  | failed hk =>
    rw [hk] at hsafe
    refine ⟨⟨trivial, hv⟩, ?_⟩
    rintro _ ⟨rfl⟩
    exact (hsafe _ ho hv hr).2
  | called hk x =>
    rw [hk] at hsafe
    obtain ⟨h₁, h₂⟩ := hsafe _ ho hv hr
    refine ⟨⟨h₁, hv⟩, ?_⟩
    rintro _ ⟨rfl⟩
    exact h₂ x
  | committed hk hf =>
    rw [hk] at hsafe
    obtain ⟨h₁, h₂, -⟩ := (hsafe _ ho hv hr).1 hf
    refine ⟨⟨h₁, hv⟩, ?_⟩
    rintro _ ⟨rfl⟩
    exact h₂
  | commitLost hk hf =>
    rw [hk] at hsafe
    obtain ⟨h₁, -, h₂⟩ := (hsafe _ ho hv hr).1 hf
    refine ⟨⟨trivial, h₁, hv⟩, ?_⟩
    rintro _ ⟨rfl⟩
    exact h₂
  | commitFailed hk =>
    rw [hk] at hsafe
    refine ⟨⟨trivial, hv⟩, ?_⟩
    rintro _ ⟨rfl⟩
    exact (hsafe _ ho hv hr).2
  | rolledBack hk =>
    rw [hk] at hsafe
    refine ⟨⟨trivial, hv⟩, ?_⟩
    rintro _ ⟨rfl⟩
    exact hsafe _ ho hv hr
  | crashed =>
    exact ⟨⟨trivial, hv⟩, by simp⟩

theorem Kept.put {p : ℕ} {r : Proc V R ε α Req} {r' : Option (Proc V R ε α Req)}
    {evs : History V R} (hs : Kept C Q X s) (hp : s.procs[p]? = some (some r))
    (H : Moves s p r r' evs) : Kept C Q X (s.put p r' evs) := by
  obtain ⟨h, ho, hsafe⟩ := hs.safe p r hp
  have hr := hs.exclusive.sound p r hp
  obtain ⟨hv, hnext⟩ := H.safe hs.valid hr ho hsafe
  refine ⟨hv, hs.exclusive.put hp H, ?_, ?_⟩
  · intro ev hev
    have hlt : p < s.procs.length := (List.getElem?_eq_some_iff.1 hp).1
    simp only [Sys.put, List.length_set]
    rcases List.mem_append.1 hev with hev | hev
    · rw [H.pid hev]; exact hlt
    · exact hs.fresh ev hev
  · intro q r₁ hq
    by_cases hpq : p = q
    · subst hpq
      rw [put_procs_self hp] at hq
      exact ⟨_, .refl _, hnext r₁ (by simpa using hq)⟩
    · rw [put_procs_ne hpq] at hq
      obtain ⟨h₁, ho₁, hsafe₁⟩ := hs.safe q r₁ hq
      refine ⟨h₁, Extends.append ho₁ ?_, hsafe₁⟩
      intro ev hev
      refine ⟨by rw [H.pid hev]; exact hpq, fun k hk hk' => ?_⟩
      exact hs.exclusive.disjoint p q r r₁ hpq hp hq k (H.keys_mem hr hev hk') hk

omit [DecidableEq K] in
/-- The processes after a request has arrived. -/
theorem getElem?_procs_start {r : Req} {m : Prog V R ε α} {q : ℕ} {r₁ : Proc V R ε α Req}
    (hq : (s.procs ++ [some { req := r, prog := m }])[q]? = some (some r₁)) :
    s.procs[q]? = some (some r₁) ∨ (q = s.procs.length ∧ r₁ = { req := r, prog := m }) := by
  rcases Nat.lt_trichotomy q s.procs.length with hlt | heq | hgt
  · rw [List.getElem?_append_left hlt] at hq
    exact .inl hq
  · subst heq
    exact .inr ⟨rfl, by simpa [eq_comm] using hq⟩
  · rw [List.getElem?_eq_none (by simp; omega)] at hq
    simp at hq

theorem Kept.start {r : Req} {m : Prog V R ε α} (hs : Kept C Q X s)
    (hm : Safe C s.procs.length (Q r s.procs.length) (X r s.procs.length) m s.hist {}) :
    Kept C Q X { s with procs := s.procs ++ [some { req := r, prog := m }] } := by
  refine ⟨hs.valid, ⟨?_, ?_⟩, ?_, ?_⟩
  · intro q r₁ hq
    rcases getElem?_procs_start hq with hq | ⟨-, rfl⟩
    · exact hs.exclusive.sound q r₁ hq
    · exact Tx.sound_empty
  · intro q q' r₁ r₂ hne hq hq'
    rcases getElem?_procs_start hq with hq | ⟨-, rfl⟩
    · rcases getElem?_procs_start hq' with hq' | ⟨-, rfl⟩
      · exact hs.exclusive.disjoint q q' r₁ r₂ hne hq hq'
      · simp
    · simp
  · intro ev hev
    have := hs.fresh ev hev
    simp only [List.length_append, List.length_singleton]
    omega
  · intro q r₁ hq
    rcases getElem?_procs_start hq with hq | ⟨rfl, rfl⟩
    · exact hs.safe q r₁ hq
    · exact ⟨_, .refl _, hm⟩

/-- **Soundness.**  When every request's program is safe from the history it
starts in, every reachable history keeps the contract. -/
theorem Reachable.safe {program : Req → Prog V R ε α} (hs : Reachable program s)
    (hprog : ∀ r p h, C.Valid h → (∀ ev ∈ h, ev.pid < p) →
      Safe C p (Q r p) (X r p) (program r) h {}) : Kept C Q X s := by
  induction hs with
  | init => exact ⟨trivial, ⟨by simp, by simp⟩, by simp, by simp⟩
  | step a _ hstep ih =>
    rcases step_cases hstep with ⟨r, rfl⟩ | ⟨p, r, r', evs, hp, H, rfl⟩
    · exact ih.start (hprog r _ _ ih.valid ih.fresh)
    · exact ih.put hp H

end Soundness

end ReadCommitted
