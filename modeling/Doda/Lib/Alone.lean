import Doda.Lib.System

/-!
# Programs that run alone

`Alone A Q X m c t` is the weakest precondition of a program that nobody interferes
with, in the transaction `t` over the committed store `c`: each statement sees what the
program itself has done, and fails only where it cannot complete.  The world answers
its calls with anything that `A` admits.

## Main definitions

* `Alone` — the weakest precondition, with rules `Alone.mono`, `alone_bind`, ….
* `Alone.runAll` — soundness: what it promises holds where the process alone has moved.
-/

namespace ReadCommitted

variable {K : Type} {V : K → Type} {E : Type} {R : E → Type} {ε α β Req : Type} [DecidableEq K]

/-- **The weakest precondition of a program that runs alone.** -/
def Alone (A : Store V → (e : E) → R e → Prop) (Q : α → Store V → Tx V → Prop)
    (X : ε → Store V → Tx V → Prop) : Prog V R ε α → Store V → Tx V → Prop
  | .pure a, c, t => Q a c t
  | .throw e, c, t => X e c t
  | .stmt q k, c, t =>
    match if t.failed then none else q.exec c (fun _ => false) t with
    | some (x, t') => Alone A Q X (k (some x)) c t'
    | none => Alone A Q X (k none) c { t with failed := true }
  | .call e k, c, t => ∀ x, A (t.view c) e x → Alone A Q X (k x) c t
  | .commit k, c, t =>
    if t.failed then Alone A Q X (k false) c t else Alone A Q X (k true) (t.writes ++ c) {}
  | .rollback k, c, _ => Alone A Q X k c {}

variable {A : Store V → (e : E) → R e → Prop} {Q Q' : α → Store V → Tx V → Prop}
  {X X' : ε → Store V → Tx V → Prop} {c : Store V} {t : Tx V}

@[simp] theorem alone_pure {a : α} : Alone A Q X (pure a : Prog V R ε α) c t ↔ Q a c t := Iff.rfl

@[simp] theorem alone_throw {e : ε} :
    Alone A Q X (throw e : Prog V R ε α) c t ↔ X e c t := Iff.rfl

theorem Alone.mono {m : Prog V R ε α} (H : Alone A Q' X' m c t)
    (hQ : ∀ a c t, Q' a c t → Q a c t) (hX : ∀ e c t, X' e c t → X e c t) :
    Alone A Q X m c t := by
  induction m generalizing c t with
  | pure a => exact hQ _ _ _ H
  | throw e => exact hX _ _ _ H
  | stmt q k ih =>
    rw [Alone] at H ⊢
    split at H
    · exact ih _ H
    · exact ih _ H
  | call e k ih => exact fun x hx => ih _ (H x hx)
  | commit k ih =>
    rw [Alone] at H ⊢
    by_cases hf : t.failed = true
    · rw [if_pos hf] at H ⊢
      exact ih _ H
    · rw [if_neg hf] at H ⊢
      exact ih _ H
  | rollback k ih => exact ih H

/-- **Sequencing.** -/
theorem alone_bind {m : Prog V R ε β} {f : β → Prog V R ε α} :
    Alone A Q X (m >>= f) c t ↔ Alone A (fun b c t => Alone A Q X (f b) c t) X m c t := by
  change Alone A Q X (m.bind f) c t ↔ _
  induction m generalizing c t with
  | pure b => exact Iff.rfl
  | throw e => exact Iff.rfl
  | stmt q k ih =>
    rw [Prog.bind, Alone, Alone]
    split <;> exact ih _
  | call e k ih => exact forall_congr' fun x => forall_congr' fun _ => ih _
  | commit k ih =>
    rw [Prog.bind, Alone, Alone]
    split <;> exact ih _
  | rollback k ih => exact ih

/-- **Exception handlers.** -/
theorem alone_tryCatch {m : Prog V R ε α} {f : ε → Prog V R ε α} :
    Alone A Q X (tryCatch m f) c t ↔ Alone A Q (fun e c t => Alone A Q X (f e) c t) m c t := by
  change Alone A Q X (m.tryCatch f) c t ↔ _
  induction m generalizing c t with
  | pure a => exact Iff.rfl
  | throw e => exact Iff.rfl
  | stmt q k ih =>
    rw [Prog.tryCatch, Alone, Alone]
    split <;> exact ih _
  | call e k ih => exact forall_congr' fun x => forall_congr' fun _ => ih _
  | commit k ih =>
    rw [Prog.tryCatch, Alone, Alone]
    split <;> exact ih _
  | rollback k ih => exact ih

theorem alone_call {e : E} {Q : R e → Store V → Tx V → Prop} :
    Alone A Q X (call e) c t ↔ ∀ x, A (t.view c) e x → Q x c t := Iff.rfl

section Statements

variable [DatabaseError ε]

/-- **A statement that completes.** -/
theorem alone_run {q : Stmt V} {Q : q.Res → Store V → Tx V → Prop} {x : q.Res} {t' : Tx V}
    (hf : t.failed = false) (hq : q.exec c (fun _ => false) t = some (x, t')) :
    Alone A Q X (run q) c t ↔ Q x c t' := by
  rw [run, Alone, hf]
  simp only [Bool.false_eq_true, if_false, hq]
  exact Iff.rfl

theorem alone_get {k : K} {Q : Option (V k) → Store V → Tx V → Prop} (hf : t.failed = false) :
    Alone A Q X (run (.get k)) c t ↔ Q (row (t.view c) k) c t :=
  alone_run (q := .get k) hf rfl

theorem alone_view {Q : Store V → Store V → Tx V → Prop} (hf : t.failed = false) :
    Alone A Q X (run .view) c t ↔ Q (t.view c) c t :=
  alone_run (q := .view) hf rfl

/-- A row is locked if it is there. -/
theorem alone_forUpdate {k : K} {Q : Option (V k) → Store V → Tx V → Prop}
    (hf : t.failed = false) :
    Alone A Q X (run (.forUpdate k)) c t ↔
      Q (row (t.view c) k) c (if (row (t.view c) k).isSome then t.lock [k] else t) :=
  alone_run (q := .forUpdate k) hf (by simp [Stmt.exec])

/-- A row is inserted that is not there. -/
theorem alone_insert {k : K} {v : V k} {Q : Unit → Store V → Tx V → Prop} (hf : t.failed = false)
    (hk : row (t.view c) k = none) :
    Alone A Q X (run (.insert [⟨k, v⟩])) c t ↔ Q () c (t.write [⟨k, some v⟩]) :=
  alone_run (q := .insert [⟨k, v⟩]) hf (by simp [Stmt.exec, hk, Entry.version])

theorem alone_tryInsert {k : K} {v : V k} {Q : Bool → Store V → Tx V → Prop}
    (hf : t.failed = false) :
    Alone A Q X (run (.tryInsert [⟨k, v⟩])) c t ↔
      if (row (t.view c) k).isSome then Q false c t else Q true c (t.write [⟨k, some v⟩]) := by
  by_cases hk : (row (t.view c) k).isSome = true
  · rw [if_pos hk]
    exact alone_run (q := .tryInsert [⟨k, v⟩]) hf (by simp [Stmt.exec, hk])
  · rw [if_neg hk]
    exact alone_run (q := .tryInsert [⟨k, v⟩]) hf (by simp [Stmt.exec, hk, Entry.version])

/-- A row is changed that is there. -/
theorem alone_update {k : K} {f : V k → V k} {v : V k} {Q : Unit → Store V → Tx V → Prop}
    (hf : t.failed = false) (hk : row (t.view c) k = some v) :
    Alone A Q X (run (.update k f)) c t ↔ Q () c (t.write [⟨k, some (f v)⟩]) :=
  alone_run (q := .update k f) hf (by simp [Stmt.exec, hk])

/-- **A transaction block**: its writes are committed, unless a statement has failed. -/
theorem alone_atomically_iff {m : Prog V R ε α} :
    Alone A Q X (atomically m) c t ↔
      Alone A (fun a c t => if t.failed then X databaseError c {} else Q a (t.writes ++ c) {})
        (fun e c _ => X e c {}) m c t := by
  rw [atomically, alone_tryCatch, alone_bind]
  have hcommit : ∀ (a : α) (c : Store V) (t : Tx V),
      Alone A Q (fun e c t => Alone A Q X (.rollback (.throw e)) c t)
        (do
          commit
          return a) c t ↔
        if t.failed then X databaseError c {} else Q a (t.writes ++ c) {} := by
    intro a c t
    rw [alone_bind, commit, Alone]
    split <;> exact Iff.rfl
  constructor
  · intro H
    exact H.mono (fun a c t => (hcommit a c t).1) fun _ _ _ h => h
  · intro H
    exact H.mono (fun a c t => (hcommit a c t).2) fun _ _ _ h => h

/-- A transaction block none of whose statements fails. -/
theorem alone_atomically {m : Prog V R ε α} {P : α → Store V → Tx V → Prop}
    (H : Alone A P (fun e c _ => X e c {}) m c t)
    (hQ : ∀ a c t, P a c t → t.failed = false ∧ Q a (t.writes ++ c) {}) :
    Alone A Q X (atomically m) c t := by
  refine alone_atomically_iff.2 (H.mono (fun a c t ha => ?_) fun _ _ _ h => h)
  obtain ⟨hf, ha⟩ := hQ a c t ha
  rw [if_neg (by simp [hf])]
  exact ha

end Statements

/-! ## Soundness -/

section Soundness

variable {program : Req → Prog V R ε α} {s s' : Sys V R ε α Req} {p : ℕ}

/-- Process `p` is there, nobody else holds a lock, and its program keeps the promise. -/
def Promises (A : Store V → (e : E) → R e → Prop) (Q : α → Store V → Tx V → Prop)
    (X : ε → Store V → Tx V → Prop) (s : Sys V R ε α Req) (p : ℕ) : Prop :=
  ∃ r, s.procs[p]? = some (some r) ∧ (∀ k, s.busy p k = false) ∧
    Alone A Q X r.prog (committed s.hist) r.tx

/-- **One operation** of the process. -/
theorem Promises.step (H : Promises A Q X s p) {answer : (e : E) → R e}
    (hA : ∀ r, s.procs[p]? = some (some r) → ∀ e, A (r.tx.view (committed s.hist)) e (answer e))
    (hs : step program s (.run p answer) = some s') : Promises A Q X s' p := by
  obtain ⟨r, hp, hbusy, H⟩ := H
  have hput : ∀ (r' : Proc V R ε α Req) (evs : History V R),
      Alone A Q X r'.prog (committed (evs ++ s.hist)) r'.tx →
      Promises A Q X (s.put p (some r') evs) p := fun r' evs H' => by
    refine ⟨r', ?_, fun k => ?_, H'⟩
    · simp only [Sys.put, List.getElem?_set_self (List.getElem?_eq_some_iff.1 hp).1]
    · have := hbusy k
      simpa only [Sys.busy, Sys.put, List.eraseIdx_set_eq] using this
  rw [ReadCommitted.step, hp] at hs
  simp only [Option.join_some, Option.bind_some, Sys.runProc] at hs
  have hnobody : s.busy p = fun _ => false := funext hbusy
  cases hprog : r.prog with
  | pure a | throw e => simp [hprog] at hs
  | stmt q k =>
    rw [hprog, Alone] at H
    simp only [hprog, hnobody] at hs
    split at hs
    · cases hs
    · rename_i hf
      rw [if_neg hf] at H
      obtain ⟨⟨x, t⟩, hx, rfl⟩ := Option.map_eq_some_iff.1 hs
      rw [hx] at H
      exact hput _ _ H
  | call e k =>
    rw [hprog, Alone] at H
    simp only [hprog, Option.some.injEq] at hs
    subst hs
    exact hput _ _ (H _ (hA r hp e))
  | commit k =>
    rw [hprog, Alone] at H
    simp only [hprog] at hs
    split at hs
    · cases hs
    · rename_i hf
      rw [if_neg hf] at H
      simp only [Option.some.injEq] at hs
      subst hs
      exact hput _ _ H
  | rollback k =>
    rw [hprog, Alone] at H
    simp only [hprog, Option.some.injEq] at hs
    subst hs
    exact hput _ _ H

/-- **Soundness.**  Where a process has come to, by itself and answered as `A` admits, its
program keeps the promise; where it has ended, the promise holds. -/
theorem Promises.runAll {answers : List ((e : E) → R e)} (H : Promises A Q X s p)
    (hA : ∀ c, ∀ answer ∈ answers, ∀ e, A c e (answer e))
    (hs : runAll program s (answers.map (.run p)) = some s') : Promises A Q X s' p := by
  induction answers generalizing s with
  | nil =>
    obtain rfl : s = s' := Option.some.inj hs
    exact H
  | cons answer answers ih =>
    simp only [List.map_cons, ReadCommitted.runAll, Option.bind_eq_some_iff] at hs
    obtain ⟨s₁, hstep, hs⟩ := hs
    exact ih (H.step (fun r _ => hA _ answer List.mem_cons_self) hstep)
      (fun c a ha => hA c a (List.mem_cons_of_mem _ ha)) hs

end Soundness

end ReadCommitted
