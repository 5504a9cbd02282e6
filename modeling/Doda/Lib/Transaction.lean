import Doda.Lib.RowStore

/-!
# Transactions under READ COMMITTED

A transaction is its own writes, the rows it has locked, and whether one of its
statements has failed.  Each statement sees the store as committed when the
statement runs, under the transaction's own writes; a row that a transaction
writes or selects for update stays locked until the transaction ends.

`Stmt.exec` runs one statement against the committed store `c`, the rows `busy`
that other transactions hold, and the transaction.  It answers `none` where the
statement cannot complete now: it waits for another transaction, or violates a
constraint and so can only fail.

## Main definitions

* `Tx V`, `Tx.view` — a transaction, and the store as it sees it.
* `Stmt V`, `Stmt.Res`, `Stmt.exec` — statements and what they do.
* `Tx.Sound` — every written row is locked.
* `Stmt.exec_sound`, `Stmt.exec_locks` — a statement keeps that, and locks no
  row another transaction holds.
-/

namespace ReadCommitted

variable {K : Type} {V : K → Type}

/-- A row to insert. -/
abbrev Entry (V : K → Type) := (k : K) × V k

/-- An open transaction. -/
structure Tx (V : K → Type) where
  /-- Uncommitted versions, newest first. -/
  writes : Store V := []
  /-- The rows this transaction has locked. -/
  locks : List K := []
  /-- A statement has failed; only a rollback is possible. -/
  failed : Bool := false

/-- The store as the transaction's next statement sees it. -/
def Tx.view (t : Tx V) (c : Store V) : Store V := t.writes ++ c

@[simp] theorem Tx.view_mk (w : Store V) (l : List K) (b : Bool) (c : Store V) :
    (Tx.mk w l b).view c = w ++ c := rfl

/-- Hold a lock. -/
def Tx.lock (t : Tx V) (ks : List K) : Tx V := { t with locks := ks ++ t.locks }

/-- Write versions, oldest first, and lock their rows. -/
def Tx.write (t : Tx V) (vs : List (Version V)) : Tx V :=
  { t with writes := vs.reverse ++ t.writes, locks := keys vs ++ t.locks }

@[simp] theorem Tx.lock_writes (t : Tx V) (ks : List K) : (t.lock ks).writes = t.writes := rfl
@[simp] theorem Tx.lock_locks (t : Tx V) (ks : List K) : (t.lock ks).locks = ks ++ t.locks := rfl
@[simp] theorem Tx.lock_failed (t : Tx V) (ks : List K) : (t.lock ks).failed = t.failed := rfl
@[simp] theorem Tx.write_writes (t : Tx V) (vs : List (Version V)) :
    (t.write vs).writes = vs.reverse ++ t.writes := rfl
@[simp] theorem Tx.write_locks (t : Tx V) (vs : List (Version V)) :
    (t.write vs).locks = keys vs ++ t.locks := rfl
@[simp] theorem Tx.write_failed (t : Tx V) (vs : List (Version V)) :
    (t.write vs).failed = t.failed := rfl

/-- Every row the transaction has written is locked. -/
def Tx.Sound (t : Tx V) : Prop := ∀ k ∈ keys t.writes, k ∈ t.locks

@[simp] theorem Tx.sound_empty : ({} : Tx V).Sound := by simp [Tx.Sound]

theorem Tx.Sound.lock {t : Tx V} (h : t.Sound) (ks : List K) : (t.lock ks).Sound := by
  intro k hk
  exact List.mem_append_right _ (h k hk)

theorem Tx.Sound.write {t : Tx V} (h : t.Sound) (vs : List (Version V)) : (t.write vs).Sound := by
  intro k hk
  simp only [Tx.write_writes, keys_append, List.mem_append] at hk
  rcases hk with hk | hk
  · exact List.mem_append_left _ (by simpa [keys] using hk)
  · exact List.mem_append_right _ (h k hk)

/-- The statements a transaction runs. -/
inductive Stmt (V : K → Type) where
  /-- Read one row. -/
  | get (k : K)
  /-- Read everything; a query is a function of the answer. -/
  | view
  /-- `SELECT … FOR UPDATE` on one row. -/
  | forUpdate (k : K)
  /-- `SELECT … LIMIT n FOR UPDATE SKIP LOCKED`, over the rows `sel` chooses. -/
  | skipLocked (sel : Store V → List K) (n : ℕ)
  /-- Insert rows; a duplicate key is an error. -/
  | insert (rows : List (Entry V))
  /-- Insert rows under a savepoint: `false` and nothing written on a duplicate key. -/
  | tryInsert (rows : List (Entry V))
  /-- Change one row that exists. -/
  | update (k : K) (f : V k → V k)
  /-- Delete one row. -/
  | delete (k : K)

/-- What a statement answers. -/
@[reducible] def Stmt.Res : Stmt V → Type
  | .get k | .forUpdate k => Option (V k)
  | .view => Store V
  | .skipLocked _ _ => List (Entry V)
  | .tryInsert _ => Bool
  | .insert _ | .update _ _ | .delete _ => Unit

/-- The version an inserted row becomes. -/
def Entry.version (e : Entry V) : Version V := ⟨e.1, some e.2⟩

variable [DecidableEq K]

/-- Run a statement over the committed store `c` and the rows `busy` that other
transactions hold. -/
def Stmt.exec (c : Store V) (busy : K → Bool) (t : Tx V) :
    (q : Stmt V) → Option (q.Res × Tx V)
  | .get k => some (row (t.view c) k, t)
  | .view => some (t.view c, t)
  | .forUpdate k =>
    -- a row that is not there is not waited for
    if (row (t.view c) k).isSome ∧ busy k then none
    else some (row (t.view c) k, if (row (t.view c) k).isSome then t.lock [k] else t)
  | .skipLocked sel n =>
    let ks := ((sel (t.view c)).filter (!busy ·)).take n
    some (ks.filterMap fun k => (row (t.view c) k).map (⟨k, ·⟩), t.lock ks)
  | .insert rows =>
    if rows.any (busy ·.1) ∨ rows.any (fun e => (row (t.view c) e.1).isSome) then none
    else some ((), t.write (rows.map Entry.version))
  | .tryInsert rows =>
    if rows.any (fun e => (row (t.view c) e.1).isSome) then some (false, t)
    else if rows.any (busy ·.1) then none
    else some (true, t.write (rows.map Entry.version))
  | .update k f =>
    if busy k then none
    else (row (t.view c) k).map fun v => ((), t.write [⟨k, some (f v)⟩])
  | .delete k => if busy k then none else some ((), t.write [⟨k, none⟩])

section Exec

variable {c : Store V} {busy : K → Bool} {t t' : Tx V}

omit [DecidableEq K] in
theorem keys_version (rows : List (Entry V)) :
    keys (rows.map Entry.version) = rows.map Sigma.fst := by
  simp [keys, Entry.version, Function.comp_def]

/-- What a completed statement leaves: the transaction with rows locked, or with
rows written. -/
theorem Stmt.exec_cases {q : Stmt V} {x : q.Res} (h : q.exec c busy t = some (x, t')) :
    (∃ ks, (∀ k ∈ ks, busy k = false) ∧ t' = t.lock ks) ∨
    (∃ vs, (∀ k ∈ keys vs, busy k = false) ∧ t' = t.write vs) := by
  cases q with
  | get k | view =>
    simp only [exec, Option.some.injEq, Prod.mk.injEq] at h
    exact .inl ⟨[], by simp, h.2.symm⟩
  | forUpdate k =>
    simp only [exec] at h
    split at h
    · simp at h
    · rename_i hb
      simp only [Option.some.injEq, Prod.mk.injEq] at h
      rcases h with ⟨-, rfl⟩
      split
      · rename_i hsome
        refine .inl ⟨[k], fun k' hk' => ?_, rfl⟩
        rw [List.mem_singleton.1 hk']
        simpa [hsome] using hb
      · exact .inl ⟨[], by simp, rfl⟩
  | skipLocked sel n =>
    simp only [exec, Option.some.injEq, Prod.mk.injEq] at h
    refine .inl ⟨_, ?_, h.2.symm⟩
    intro k hk
    simpa using (List.mem_filter.1 (List.mem_of_mem_take hk)).2
  | insert rows =>
    simp only [exec] at h
    split at h
    · simp at h
    · rename_i hb
      simp only [Option.some.injEq, Prod.mk.injEq] at h
      refine .inr ⟨_, ?_, h.2.symm⟩
      rw [keys_version]
      simpa using (not_or.1 hb).1
  | tryInsert rows =>
    simp only [exec] at h
    split at h
    · simp only [Option.some.injEq, Prod.mk.injEq] at h
      exact .inl ⟨[], by simp, h.2.symm⟩
    · split at h
      · simp at h
      · rename_i hb
        simp only [Option.some.injEq, Prod.mk.injEq] at h
        refine .inr ⟨_, ?_, h.2.symm⟩
        rw [keys_version]
        simpa using hb
  | update k f =>
    simp only [exec] at h
    split at h
    · simp at h
    · simp only [Option.map_eq_some_iff, Prod.mk.injEq] at h
      obtain ⟨v, -, -, rfl⟩ := h
      exact .inr ⟨_, by simp_all, rfl⟩
  | delete k =>
    simp only [exec] at h
    split at h
    · simp at h
    · simp only [Option.some.injEq, Prod.mk.injEq] at h
      exact .inr ⟨_, by simp_all, h.2.symm⟩

/-- A statement keeps every written row locked. -/
theorem Stmt.exec_sound {q : Stmt V} {x : q.Res} (h : q.exec c busy t = some (x, t'))
    (ht : t.Sound) : t'.Sound := by
  rcases exec_cases h with ⟨ks, -, rfl⟩ | ⟨vs, -, rfl⟩
  · exact ht.lock ks
  · exact ht.write vs

/-- A statement locks no row that another transaction holds. -/
theorem Stmt.exec_locks {q : Stmt V} {x : q.Res} (h : q.exec c busy t = some (x, t')) {k : K}
    (hk : k ∈ t'.locks) : k ∈ t.locks ∨ busy k = false := by
  rcases exec_cases h with ⟨ks, hb, rfl⟩ | ⟨vs, hb, rfl⟩
  all_goals
    rcases List.mem_append.1 hk with hk | hk
    · exact .inr (hb k hk)
    · exact .inl hk

/-- A statement gives up no lock. -/
theorem Stmt.exec_locks_mono {q : Stmt V} {x : q.Res} (h : q.exec c busy t = some (x, t')) {k : K}
    (hk : k ∈ t.locks) : k ∈ t'.locks := by
  rcases exec_cases h with ⟨ks, -, rfl⟩ | ⟨vs, -, rfl⟩
  all_goals exact List.mem_append_right _ hk

theorem Stmt.exec_failed {q : Stmt V} {x : q.Res} (h : q.exec c busy t = some (x, t')) :
    t'.failed = t.failed := by
  rcases exec_cases h with ⟨ks, -, rfl⟩ | ⟨vs, -, rfl⟩ <;> rfl

end Exec

end ReadCommitted
