import Doda.Lib.Frame
import Doda.Lib.Replay

/-!
# What a program has done when it commits

What a commit writes can be read off the committer's own events (`Commits`).  So it is
enough to know, of each program, which events of its own it has had whenever it
commits, and that is a matter of the program's text alone.

## Main definitions

* `AtCommits p Q P m` — whenever `m` commits, `Q` holds of its events; `P` where it
  returns.
* `Once P h`, `Always P h` — a commit in `h` had `P`; every one had.
* `Inside p Q m` — `m` works inside a transaction and returns with `Q`; `Inside.bind`,
  `Inside.run`, `Inside.call` are its rules.
* `Neat S M m` — the operations of a program that raises when a statement fails.
* `Went p S M` — the events of such a program.

## Main results

* `AtCommits.atomically` — transaction blocks.
* `Commits.ran` — the events of a process that commits.
* `Once.exists_commit` — the commit that had a property.
-/

namespace ReadCommitted

variable {K : Type} {V : K → Type} {E : Type} {R : E → Type} {ε α β Req : Type}

/-- The events of the open transaction, of a process's own events. -/
def openOf (evs : History V R) : History V R := evs.takeWhile (!·.ends)

theorem opened_eq (p : ℕ) (h : History V R) : opened p h = openOf (own p h) := rfl

@[simp] theorem openOf_nil : openOf ([] : History V R) = [] := rfl
@[simp] theorem openOf_ran (p : ℕ) (q : Stmt V) (x : q.Res) (evs : History V R) :
    openOf (.ran p q x :: evs) = .ran p q x :: openOf evs := rfl
@[simp] theorem openOf_called (p : ℕ) (e : E) (x : R e) (evs : History V R) :
    openOf (.called p e x :: evs) = .called p e x :: openOf evs := rfl
@[simp] theorem openOf_failed (p : ℕ) (evs : History V R) :
    openOf (.failed p :: evs) = .failed p :: openOf evs := rfl
@[simp] theorem openOf_committed (p : ℕ) (w : Store V) (evs : History V R) :
    openOf (.committed p w :: evs) = [] := rfl
@[simp] theorem openOf_rolledBack (p : ℕ) (evs : History V R) :
    openOf (.rolledBack p :: evs) = [] := rfl

/-! ## Commits -/

/-- Whenever process `p`, which has had the events `evs`, commits while it runs the program, and no
statement of the transaction has failed, `Q` holds of its events; where the program returns,
`P` does. -/
def AtCommits (p : ℕ) (Q : History V R → Prop) :
    (α → History V R → Prop) → Prog V R ε α → History V R → Prop
  | P, .pure a, evs => P a evs
  | _, .throw _, _ => True
  | P, .stmt q k, evs => (∀ x, AtCommits p Q P (k (some x)) (.ran p q x :: evs)) ∧
      AtCommits p Q P (k none) (.failed p :: evs)
  | P, .call e k, evs => ∀ x, AtCommits p Q P (k x) (.called p e x :: evs)
  | P, .commit k, evs => (.failed p ∉ openOf evs → Q evs) ∧
      (∀ w, AtCommits p Q P (k true) (.committed p w :: evs)) ∧
      (∀ w, AtCommits p Q P (k false) (.failed p :: .committed p w :: evs)) ∧
      AtCommits p Q P (k false) (.failed p :: evs)
  | P, .rollback k, evs => AtCommits p Q P k (.rolledBack p :: evs)

namespace AtCommits

variable {p : ℕ} {Q : History V R → Prop} {P : α → History V R → Prop} {evs evs' : History V R}

theorem bind {m : Prog V R ε β} {f : β → Prog V R ε α} {B : β → History V R → Prop}
    (H : AtCommits p Q B m evs) (hf : ∀ b evs', B b evs' → AtCommits p Q P (f b) evs') :
    AtCommits p Q P (m >>= f) evs := by
  change AtCommits p Q P (m.bind f) evs
  induction m generalizing evs with
  | pure a => exact hf _ _ H
  | throw e => trivial
  | stmt q k ih => exact ⟨fun x => ih _ (H.1 x), ih _ H.2⟩
  | call e k ih => exact fun x => ih _ (H x)
  | commit k ih =>
    exact ⟨H.1, fun w => ih _ (H.2.1 w), fun w => ih _ (H.2.2.1 w), ih _ H.2.2.2⟩
  | rollback k ih => exact ih H

theorem call_bind {e : E} {f : R e → Prog V R ε α}
    (H : ∀ x, AtCommits p Q P (f x) (.called p e x :: evs)) :
    AtCommits p Q P (ReadCommitted.call e >>= f) evs :=
  H

theorem mono {m : Prog V R ε α} {P' : α → History V R → Prop} (H : AtCommits p Q P' m evs)
    (hP : ∀ a evs', P' a evs' → P a evs') : AtCommits p Q P m evs := by
  induction m generalizing evs with
  | pure a => exact hP _ _ H
  | throw e => trivial
  | stmt q k ih => exact ⟨fun x => ih _ (H.1 x), ih _ H.2⟩
  | call e k ih => exact fun x => ih _ (H x)
  | commit k ih =>
    exact ⟨H.1, fun w => ih _ (H.2.1 w), fun w => ih _ (H.2.2.1 w), ih _ H.2.2.2⟩
  | rollback k ih => exact ih H

/-- What holds of a program holds of what is left of it. -/
theorem runs {m m' : Prog V R ε α} (H : AtCommits p Q P m evs) (hr : Runs p m evs m' evs') :
    AtCommits p Q P m' evs' := by
  induction hr with
  | refl => exact H
  | ran x _ ih => exact ih (H.1 x)
  | failed _ ih => exact ih H.2
  | called x _ ih => exact ih (H x)
  | committed w _ ih => exact ih (H.2.1 w)
  | commitLost w _ ih => exact ih (H.2.2.1 w)
  | commitFailed _ ih => exact ih H.2.2.2
  | rolledBack _ ih => exact ih H

end AtCommits

/-- **The events of a process that commits.** -/
theorem Commits.ran [DecidableEq K] {program : Req → Prog V R ε α} {h : History V R} {p : ℕ}
    {w : Store V} (hc : Commits program h p w) {Q : Req → History V R → Prop}
    {P : α → History V R → Prop} (H : ∀ r, AtCommits p (Q r) P (program r) []) :
    ∃ r, Q r (own p h) := by
  obtain ⟨r, k, hrun⟩ := hc.run
  exact ⟨r, ((H r).runs hrun).1 hc.unfailed⟩

/-- **A process that is still there was running its request when it committed.** -/
theorem Reachable.committing [DecidableEq K] {program : Req → Prog V R ε α} {s : Sys V R ε α Req}
    (hs : Reachable program s) {p : ℕ} {r : Proc V R ε α Req} (hp : s.procs[p]? = some (some r))
    {w : Store V} {h : History V R} (hw : .committed p w :: h <:+ s.hist) :
    ∃ k, Runs p (program r.req) [] (.commit k) (own p h) := by
  induction hs generalizing r with
  | init => simp at hp
  | @step s₀ s₁ a hs hstep ih =>
    rcases step_cases hstep with ⟨r₀, rfl⟩ | ⟨q, r₀, r', evs, hq, H, rfl⟩
    · rcases getElem?_procs_start hp with hp | ⟨rfl, rfl⟩
      · exact ih hp hw
      · exact absurd (hs.runs.1 _ (hw.subset List.mem_cons_self)) (Nat.lt_irrefl _)
    · have hmoved : ∀ k, r₀.prog = .commit k → r' = some r → q = p →
          Runs p (program r.req) [] (.commit k) (own p s₀.hist) := by
        intro k hk hr' hqp
        subst hqp hr'
        have hrun := hs.runs.2.1 q r₀ hq
        rwa [hk, ← (H.runs []).2] at hrun
      have hbefore : .committed p w :: h <:+ s₀.hist →
          ∃ k, Runs p (program r.req) [] (.commit k) (own p h) := by
        intro hold
        by_cases hqp : q = p
        · subst hqp
          rw [put_procs_self hq] at hp
          obtain rfl : r' = some r := by simpa using hp
          exact (H.runs []).2 ▸ ih hq hold
        · rw [put_procs_ne hqp] at hp
          exact ih hp hold
      have hr' : q = p → r' = some r := by
        rintro rfl
        rw [put_procs_self hq] at hp
        simpa using hp
      cases H with
      | committed hk hf =>
        rcases List.suffix_cons_iff.1 hw with heq | hw
        · obtain ⟨hev, rfl⟩ := List.cons_eq_cons.1 heq
          obtain ⟨rfl, rfl⟩ := Event.committed.inj hev
          exact ⟨_, hmoved _ hk (hr' rfl) rfl⟩
        · exact hbefore hw
      | commitLost hk hf =>
        rcases List.suffix_cons_iff.1 hw with heq | hw
        · cases heq
        rcases List.suffix_cons_iff.1 hw with heq | hw
        · obtain ⟨hev, rfl⟩ := List.cons_eq_cons.1 heq
          obtain ⟨rfl, rfl⟩ := Event.committed.inj hev
          exact ⟨_, hmoved _ hk (hr' rfl) rfl⟩
        · exact hbefore hw
      | ran | failed | called | commitFailed | rolledBack | crashed =>
        rcases List.suffix_cons_iff.1 hw with heq | hw
        · cases heq
        · exact hbefore hw

/-- A commit so far had `P`, of the committer, its writes and the history then. -/
def Once (P : ℕ → Store V → History V R → Prop) : History V R → Prop
  | [] => False
  | .committed p w :: h => P p w h ∨ Once P h
  | _ :: h => Once P h

namespace Once

variable {P : ℕ → Store V → History V R → Prop}

instance decide [∀ p w h, Decidable (P p w h)] : (h : History V R) → Decidable (Once P h)
  | [] => .isFalse id
  | .committed p w :: h => @instDecidableOr (P p w h) (Once P h) _ (decide h)
  | .ran .. :: h | .called .. :: h | .failed _ :: h | .rolledBack _ :: h | .crashed _ :: h =>
    decide h

theorem cons {h : History V R} (H : Once P h) (ev : Event V R) : Once P (ev :: h) := by
  cases ev with
  | committed p w => exact .inr H
  | ran | called | failed | rolledBack | crashed => exact H

theorem of_suffix {h h' : History V R} (H : Once P h) (hs : h <:+ h') : Once P h' := by
  obtain ⟨evs, rfl⟩ := hs
  induction evs with
  | nil => exact H
  | cons ev evs ih => exact ih.cons ev

theorem exists_commit {h : History V R} (H : Once P h) :
    ∃ p w h', .committed p w :: h' <:+ h ∧ P p w h' := by
  induction h with
  | nil => exact H.elim
  | cons ev h ih =>
    have hold : Once P h → ∃ p w h', .committed p w :: h' <:+ ev :: h ∧ P p w h' := fun H => by
      obtain ⟨p, w, h', hs, hP⟩ := ih H
      exact ⟨p, w, h', hs.trans (List.suffix_cons ..), hP⟩
    cases ev with
    | committed p w =>
      rcases H with hP | H
      · exact ⟨p, w, h, List.suffix_refl _, hP⟩
      · exact hold H
    | ran | called | failed | rolledBack | crashed => exact hold H

end Once

/-- Every commit so far had `P`. -/
def Always (P : ℕ → Store V → History V R → Prop) : History V R → Prop
  | [] => True
  | .committed p w :: h => P p w h ∧ Always P h
  | _ :: h => Always P h

instance Always.decide {P : ℕ → Store V → History V R → Prop} [∀ p w h, Decidable (P p w h)] :
    (h : History V R) → Decidable (Always P h)
  | [] => .isTrue trivial
  | .committed p w :: h => @instDecidableAnd (P p w h) (Always P h) _ (decide h)
  | .ran .. :: h | .called .. :: h | .failed _ :: h | .rolledBack _ :: h | .crashed _ :: h =>
    decide h

/-! ## Inside a transaction -/

/-- The program, run by process `p` after its events `evs`, raises when a statement fails, ends no
transaction, and returns with `Q`. -/
def Inside (p : ℕ) : (α → History V R → Prop) → Prog V R ε α → History V R → Prop
  | Q, .pure a, evs => Q a evs
  | _, .throw _, _ => True
  | Q, .stmt q k, evs => (∀ x, Inside p Q (k (some x)) (.ran p q x :: evs)) ∧
      ∃ e, k none = .throw e
  | Q, .call e k, evs => ∀ x, Inside p Q (k x) (.called p e x :: evs)
  | _, .commit _, _ | _, .rollback _, _ => False

namespace Inside

variable {p : ℕ} {Q : α → History V R → Prop} {evs : History V R}

@[simp] theorem pure_iff {a : α} : Inside p Q (pure a : Prog V R ε α) evs ↔ Q a evs := Iff.rfl

theorem throw {e : ε} : Inside p Q (MonadExcept.throw e : Prog V R ε α) evs := trivial

theorem mono {m : Prog V R ε α} {Q' : α → History V R → Prop} (H : Inside p Q' m evs)
    (hQ : ∀ a evs, Q' a evs → Q a evs) : Inside p Q m evs := by
  induction m generalizing evs with
  | pure a => exact hQ _ _ H
  | throw e => trivial
  | stmt q k ih => exact ⟨fun x => ih _ (H.1 x), H.2⟩
  | call e k ih => exact fun x => ih _ (H x)
  | commit | rollback => exact H

theorem bind {m : Prog V R ε β} {f : β → Prog V R ε α} {B : β → History V R → Prop}
    (H : Inside p B m evs) (hf : ∀ b evs', B b evs' → Inside p Q (f b) evs') :
    Inside p Q (m >>= f) evs := by
  change Inside p Q (m.bind f) evs
  induction m generalizing evs with
  | pure a => exact hf _ _ H
  | throw e => trivial
  | stmt q k ih =>
    obtain ⟨e, he⟩ := H.2
    exact ⟨fun x => ih _ (H.1 x), e, congrArg (·.bind f) he⟩
  | call e k ih => exact fun x => ih _ (H x)
  | commit | rollback => exact H.elim

theorem call {e : E} {Q : R e → History V R → Prop} (H : ∀ x, Q x (.called p e x :: evs)) :
    Inside p Q (ReadCommitted.call e : Prog V R ε _) evs := H

theorem run [DatabaseError ε] {q : Stmt V} {Q : q.Res → History V R → Prop}
    (H : ∀ x, Q x (.ran p q x :: evs)) : Inside p Q (ReadCommitted.run q : Prog V R ε _) evs :=
  ⟨H, databaseError, rfl⟩

theorem call_bind {e : E} {f : R e → Prog V R ε α}
    (H : ∀ x, Inside p Q (f x) (.called p e x :: evs)) :
    Inside p Q (ReadCommitted.call e >>= f) evs :=
  H

theorem run_bind [DatabaseError ε] {q : Stmt V} {f : q.Res → Prog V R ε α}
    (H : ∀ x, Inside p Q (f x) (.ran p q x :: evs)) :
    Inside p Q (ReadCommitted.run q >>= f) evs :=
  ⟨H, databaseError, rfl⟩

end Inside

/-- **A transaction block**, of which the commit and what follows know how its body returned. -/
theorem AtCommits.atomically_of [DatabaseError ε] {p : ℕ} {Q : History V R → Prop}
    {P : α → History V R → Prop} {B : α → History V R → Prop} {m : Prog V R ε α}
    {evs : History V R} (H : Inside p B m evs) (hQ : ∀ a evs', B a evs' → Q evs')
    (hP : ∀ a w evs', B a evs' → P a (.committed p w :: evs')) :
    AtCommits p Q P (ReadCommitted.atomically m) evs := by
  have hthrow : ∀ (e : ε) evs', AtCommits p Q P
      (((.throw e : Prog V R ε α).bind fun a => (commit.bind fun _ => .pure a)).tryCatch
        fun e => .rollback (.throw e)) evs' := fun _ _ => trivial
  change AtCommits p Q P ((m.bind fun a => (commit.bind fun _ => .pure a)).tryCatch
    fun e => .rollback (.throw e)) evs
  induction m generalizing evs with
  | pure a => exact ⟨fun _ => hQ a evs H, fun w => hP a w evs H, fun _ => trivial, trivial⟩
  | throw e => trivial
  | stmt q k ih =>
    obtain ⟨e, he⟩ := H.2
    refine ⟨fun x => ih _ (H.1 x), ?_⟩
    dsimp only
    rw [he]
    exact hthrow e _
  | call e k ih => exact fun x => ih _ (H x)
  | commit | rollback => exact H.elim

/-- **A transaction block commits after what its body has done.** -/
theorem AtCommits.atomically [DatabaseError ε] {p : ℕ} {Q : History V R → Prop}
    {P : α → History V R → Prop} {m : Prog V R ε α} {evs : History V R}
    (H : Inside p (fun _ => Q) m evs) (hP : ∀ a w evs', P a (.committed p w :: evs')) :
    AtCommits p Q P (atomically m) evs :=
  .atomically_of H (fun _ _ hb => hb) fun a w evs' _ => hP a w evs'

/-- A transaction block and what comes after it. -/
theorem AtCommits.atomically_bind [DatabaseError ε] {p : ℕ} {Q : History V R → Prop}
    {P : α → History V R → Prop} {m : Prog V R ε β} {f : β → Prog V R ε α} {evs : History V R}
    (H : Inside p (fun _ => Q) m evs)
    (hf : ∀ b w evs', AtCommits p Q P (f b) (.committed p w :: evs')) :
    AtCommits p Q P (ReadCommitted.atomically m >>= f) evs :=
  (AtCommits.atomically (P := fun b => AtCommits p Q P (f b)) H hf).bind fun _ _ h => h

/-! ## Work on other rows -/

/-- The program runs statements of `S` and makes calls of `M`, inside a transaction, and raises when
a statement fails. -/
def Neat (S : Stmt V → Prop) (M : E → Prop) : Prog V R ε α → Prop
  | .pure _ | .throw _ => True
  | .stmt q k => S q ∧ (∃ e, k none = .throw e) ∧ ∀ x, Neat S M (k (some x))
  | .call e k => M e ∧ ∀ x, Neat S M (k x)
  | .commit _ | .rollback _ => False

namespace Neat

variable {S S' : Stmt V → Prop} {M M' : E → Prop}

@[simp] theorem pure (a : α) : Neat S M (Pure.pure a : Prog V R ε α) := trivial
@[simp] theorem throw (e : ε) : Neat S M (MonadExcept.throw e : Prog V R ε α) := trivial

theorem bind {m : Prog V R ε β} {f : β → Prog V R ε α} (hm : Neat S M m)
    (hf : ∀ b, Neat S M (f b)) : Neat S M (m >>= f) := by
  change Neat S M (m.bind f)
  induction m with
  | pure a => exact hf a
  | throw e => trivial
  | stmt q k ih =>
    obtain ⟨hq, ⟨e, he⟩, hk⟩ := hm
    exact ⟨hq, ⟨e, congrArg (·.bind f) he⟩, fun x => ih _ (hk x)⟩
  | call e k ih => exact ⟨hm.1, fun x => ih x (hm.2 x)⟩
  | commit | rollback => exact hm.elim

theorem mono {m : Prog V R ε α} (hm : Neat S M m) (hS : ∀ q, S q → S' q) (hM : ∀ e, M e → M' e) :
    Neat S' M' m := by
  induction m with
  | pure a => trivial
  | throw e => trivial
  | stmt q k ih => exact ⟨hS q hm.1, hm.2.1, fun x => ih _ (hm.2.2 x)⟩
  | call e k ih => exact ⟨hM e hm.1, fun x => ih x (hm.2 x)⟩
  | commit | rollback => exact hm.elim

theorem call {e : E} (he : M e) : Neat S M (ReadCommitted.call e : Prog V R ε _) :=
  ⟨he, fun _ => trivial⟩

theorem run [DatabaseError ε] {q : Stmt V} (hq : S q) :
    Neat S M (ReadCommitted.run q : Prog V R ε _) :=
  ⟨hq, ⟨databaseError, rfl⟩, fun _ => trivial⟩

/-- The same operations, without what happens on a failure. -/
theorem only {m : Prog V R ε α} (hm : Neat S M m) : Only S M False m := by
  induction m with
  | pure a => trivial
  | throw e => trivial
  | stmt q k ih =>
    obtain ⟨hq, ⟨e, he⟩, hk⟩ := hm
    refine ⟨hq, fun x => ?_⟩
    cases x with
    | none =>
      rw [he]
      trivial
    | some x => exact ih _ (hk x)
  | call e k ih => exact ⟨hm.1, fun x => ih x (hm.2 x)⟩
  | commit | rollback => exact hm.elim

end Neat

/-- **What a program shows, and what it leaves in its transaction.** -/
theorem Emits.inside {S : Stmt V → Prop} {M : E → Prop} {p : ℕ} {m : Prog V R ε α}
    {Q : List (Event V R) → α → Prop} {X : List (Event V R) → ε → Prop} {evs : History V R}
    (H : Emits some p Q X m) (hm : Neat S M m) :
    Inside p (fun a evs' => ∃ ms, Q ms a ∧ evs' = ms.reverse ++ evs) m evs := by
  induction m generalizing Q X evs with
  | pure a => exact ⟨[], H, rfl⟩
  | throw e => trivial
  | stmt q k ih =>
    refine ⟨fun x => (ih _ (H.1 x) (hm.2.2 x)).mono fun a evs' => ?_, hm.2.1⟩
    rintro ⟨ms, hQ, rfl⟩
    exact ⟨_, hQ, by simp⟩
  | call e k ih =>
    refine fun x => (ih _ (H x) (hm.2 x)).mono fun a evs' => ?_
    rintro ⟨ms, hQ, rfl⟩
    exact ⟨_, hQ, by simp⟩
  | commit | rollback => exact hm.elim

/-- An event of a program that runs statements of `S` and makes calls of `M`. -/
def Event.Of (p : ℕ) (S : Stmt V → Prop) (M : E → Prop) : Event V R → Prop
  | .ran q s _ => q = p ∧ S s
  | .called q e _ => q = p ∧ M e
  | _ => False

theorem Event.Of.mono {p : ℕ} {S S' : Stmt V → Prop} {M M' : E → Prop} {ev : Event V R}
    (h : ev.Of p S M) (hS : ∀ q, S q → S' q) (hM : ∀ e, M e → M' e) : ev.Of p S' M' := by
  cases ev with
  | ran q s x => exact ⟨h.1, hS s h.2⟩
  | called q e x => exact ⟨h.1, hM e h.2⟩
  | committed | rolledBack | failed | crashed => exact h

/-- From the events `evs` to `evs'`, such a program ran. -/
def Went (p : ℕ) (S : Stmt V → Prop) (M : E → Prop) (evs evs' : History V R) : Prop :=
  ∃ new, evs' = new ++ evs ∧ ∀ ev ∈ new, ev.Of p S M

section Frame

variable [DecidableEq K]

theorem Told.of_append {c : Store V} {new evs : History V R} (ht : Told c (new ++ evs)) :
    Told c evs := by
  induction new with
  | nil => exact ht
  | cons ev new ih =>
    cases ev with
    | ran => exact ih ht.2
    | called | failed | committed | rolledBack | crashed => exact ih ht

theorem Stmt.effect_of_writesOnly {P : K → Prop} {q : Stmt V} (hq : q.WritesOnly P) {k : K}
    (hk : ¬ P k) (x : q.Res) (v : Option (V k)) : q.effect k x v = v := by
  have hne : ∀ k', P k' → k' ≠ k := fun k' hk' heq => hk (heq ▸ hk')
  have hself : decide (k = k) = true := by simp
  refine Stmt.effect_of_not_touches (P := fun k' => decide (k' = k)) hself ?_ x v
  cases q with
  | get | view | forUpdate | skipLocked => rfl
  | insert rows | tryInsert rows =>
    rw [Stmt.touches, List.any_eq_false]
    intro e he
    simpa using hne e.1 (hq e he)
  | update k' f | delete k' => simpa [Stmt.touches] using hne k' hq

omit [DecidableEq K] in
theorem Stmt.wrote_of_writesOnly {P : K → Prop} {q : Stmt V} (hq : q.WritesOnly P)
    (value : (k : K) → Option (V k)) (x : q.Res) : ∀ k ∈ keys (q.wrote value x), P k := by
  have hrows : ∀ rows : List (Entry V), (∀ e ∈ rows, P e.1) →
      ∀ k ∈ keys (rows.map Entry.version).reverse, P k := by
    intro rows hP k hk
    rw [keys, List.map_reverse, List.mem_reverse, ← keys, keys_version] at hk
    obtain ⟨e, he, rfl⟩ := List.mem_map.1 hk
    exact hP e he
  cases q with
  | get | view | forUpdate | skipLocked => simp [Stmt.wrote]
  | insert rows => exact hrows rows hq
  | tryInsert rows =>
    rw [Stmt.wrote]
    split
    · exact hrows rows hq
    · simp
  | update k' f =>
    intro k hk
    simp only [Stmt.wrote, keys, List.map_map, List.mem_map, Function.comp_apply] at hk
    obtain ⟨v, -, rfl⟩ := hk
    exact hq
  | delete k' =>
    intro k hk
    obtain rfl := List.mem_singleton.1 hk
    exact hq

end Frame

namespace Went

variable {p : ℕ} {S : Stmt V → Prop} {M : E → Prop} {evs evs' evs'' : History V R}

theorem refl (evs : History V R) : Went p S M evs evs := ⟨[], rfl, by simp⟩

theorem trans (h : Went p S M evs evs') (h' : Went p S M evs' evs'') : Went p S M evs evs'' := by
  obtain ⟨new, rfl, H⟩ := h
  obtain ⟨new', rfl, H'⟩ := h'
  exact ⟨new' ++ new, by simp, List.forall_mem_append.2 ⟨H', H⟩⟩

theorem ran {q : Stmt V} {x : q.Res} (h : Went p S M evs evs') (hq : S q) :
    Went p S M evs (.ran p q x :: evs') :=
  h.trans ⟨[.ran p q x], rfl, by simpa [Event.Of] using hq⟩

theorem called {e : E} {x : R e} (h : Went p S M evs evs') (he : M e) :
    Went p S M evs (.called p e x :: evs') :=
  h.trans ⟨[.called p e x], rfl, by simpa [Event.Of] using he⟩

theorem of_called {e : E} {x : R e} (h : Went p S M (.called p e x :: evs) evs') (he : M e) :
    Went p S M evs evs' :=
  ((refl evs).called he).trans h

theorem of_ran {q : Stmt V} {x : q.Res} (h : Went p S M (.ran p q x :: evs) evs') (hq : S q) :
    Went p S M evs evs' :=
  ((refl evs).ran hq).trans h

theorem suffix (h : Went p S M evs evs') : evs <:+ evs' := by
  obtain ⟨new, rfl, -⟩ := h
  exact List.suffix_append ..

/-- The transaction stays open. -/
theorem openOf (h : Went p S M evs evs') : Went p S M (openOf evs) (openOf evs') := by
  obtain ⟨new, rfl, H⟩ := h
  refine ⟨new, ?_, H⟩
  refine List.takeWhile_append_of_pos fun ev hev => ?_
  have := H ev hev
  cases ev <;> simp_all [Event.Of, Event.ends]

theorem mono {S' : Stmt V → Prop} {M' : E → Prop} (h : Went p S M evs evs')
    (hS : ∀ q, S q → S' q) (hM : ∀ e, M e → M' e) : Went p S' M' evs evs' := by
  obtain ⟨new, rfl, H⟩ := h
  exact ⟨new, rfl, fun ev hev => (H ev hev).mono hS hM⟩

variable [DecidableEq K]

theorem told (h : Went p S M evs evs') {c : Store V} (ht : Told c evs') : Told c evs := by
  obtain ⟨new, rfl, -⟩ := h
  exact ht.of_append

/-- Rows that it does not write are what they were. -/
theorem replay_eq {P : K → Prop} (h : Went p (·.WritesOnly P) M evs evs') {k : K} (hk : ¬ P k)
    (c : Store V) : replay c evs' k = replay c evs k := by
  obtain ⟨new, rfl, H⟩ := h
  induction new with
  | nil => rfl
  | cons ev new ih =>
    have ih := ih fun ev hev => H ev (List.mem_cons_of_mem _ hev)
    cases ev with
    | ran q s x =>
      have hs : s.WritesOnly P := (H _ (List.mem_cons_self ..)).2
      rw [List.cons_append, replay, ih, Stmt.effect_of_writesOnly hs hk]
    | called | failed | committed | rolledBack | crashed => exact ih

/-- It writes rows of `P` only. -/
theorem written_eq {P : K → Prop} (h : Went p (·.WritesOnly P) M evs evs') (c : Store V) :
    ∃ ws, written c evs' = ws ++ written c evs ∧ ∀ k ∈ keys ws, P k := by
  obtain ⟨new, rfl, H⟩ := h
  induction new with
  | nil => exact ⟨[], rfl, by simp⟩
  | cons ev new ih =>
    obtain ⟨ws, hws, hP⟩ := ih fun ev hev => H ev (List.mem_cons_of_mem _ hev)
    cases ev with
    | ran q s x =>
      have hs : s.WritesOnly P := (H _ (List.mem_cons_self ..)).2
      refine ⟨s.wrote (replay c (new ++ evs)) x ++ ws, ?_, ?_⟩
      · rw [List.cons_append, written, hws, List.append_assoc]
      · rw [keys_append, List.forall_mem_append]
        exact ⟨Stmt.wrote_of_writesOnly hs _ x, hP⟩
    | called | failed | committed | rolledBack | crashed => exact ⟨ws, hws, hP⟩

/-- Of the rows that `sel` chooses it writes none. -/
theorem filter_written {sel : K → Bool} (h : Went p (·.WritesOnly (sel · = false)) M evs evs')
    (c : Store V) :
    (written c evs').filter (sel ·.1) = (written c evs).filter (sel ·.1) := by
  obtain ⟨ws, hws, hP⟩ := h.written_eq c
  rw [hws, List.filter_append, List.filter_eq_nil_iff.2, List.nil_append]
  intro v hv
  simpa using hP v.1 (List.mem_map_of_mem hv)

end Went

theorem Neat.inside {S : Stmt V → Prop} {M : E → Prop} {m : Prog V R ε α} (hm : Neat S M m)
    (p : ℕ) (evs : History V R) : Inside p (fun _ => Went p S M evs) m evs := by
  suffices ∀ evs', Went p S M evs evs' → Inside p (fun _ => Went p S M evs) m evs' from
    this evs (.refl evs)
  induction m with
  | pure a => exact fun _ h => h
  | throw e => exact fun _ _ => trivial
  | stmt q k ih => exact fun evs' h => ⟨fun x => ih _ (hm.2.2 x) _ (h.ran hm.1), hm.2.1⟩
  | call e k ih => exact fun evs' h x => ih _ (hm.2 x) _ (h.called hm.1)
  | commit | rollback => exact hm.elim

theorem Neat.inside_bind {S : Stmt V → Prop} {M : E → Prop} {m : Prog V R ε β}
    {f : β → Prog V R ε α} {p : ℕ} {Q : α → History V R → Prop} {evs : History V R}
    (hm : Neat S M m) (H : ∀ b evs', Went p S M evs evs' → Inside p Q (f b) evs') :
    Inside p Q (m >>= f) evs :=
  (hm.inside p evs).bind H

end ReadCommitted
