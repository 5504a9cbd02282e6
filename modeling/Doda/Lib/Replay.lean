import Doda.Lib.Trace

/-!
# Replaying a transaction

A transaction's own events tell what it makes of every row: replayed over the
committed store as it is at any moment, they give the row as the transaction sees
it, and what they were told about rows they locked is still true.  So what a commit
writes can be read off the committer's own events and the store before.

## Main definitions

* `opened p h` — the events of the open transaction of `p`.
* `replay c h` — the rows that a transaction's events make of the store `c`.
* `written c h` — the versions that a transaction's events write over the store `c`.
* `Told c h` — what the events were told is true over `c`.
* `Follows`, `Wrote` — a transaction and its events agree, whatever the others commit.
* `faithful` — the contract of every system: `Reachable.faithful`.
-/

namespace ReadCommitted

variable {K : Type} {V : K → Type} {E : Type} {R : E → Type} {ε α Req : Type}

/-- A commit or a rollback. -/
def Event.ends : Event V R → Bool
  | .committed _ _ | .rolledBack _ => true
  | _ => false

/-- The events of the open transaction of `p`, newest first. -/
def opened (p : ℕ) (h : History V R) : History V R := (own p h).takeWhile (!·.ends)

theorem opened_cons {p : ℕ} {ev : Event V R} (hp : ev.pid = p) (h : History V R) :
    opened p (ev :: h) = if ev.ends then [] else ev :: opened p h := by
  rw [opened, own_cons_self hp, List.takeWhile_cons]
  cases hev : ev.ends <;> simp [opened]

@[simp] theorem opened_ran (p : ℕ) (q : Stmt V) (x : q.Res) (h : History V R) :
    opened p (.ran p q x :: h) = .ran p q x :: opened p h :=
  opened_cons rfl h
@[simp] theorem opened_called (p : ℕ) (e : E) (x : R e) (h : History V R) :
    opened p (.called p e x :: h) = .called p e x :: opened p h :=
  opened_cons rfl h
@[simp] theorem opened_failed (p : ℕ) (h : History V R) :
    opened p (.failed p :: h) = .failed p :: opened p h :=
  opened_cons rfl h
@[simp] theorem opened_committed (p : ℕ) (w : Store V) (h : History V R) :
    opened p (.committed p w :: h) = [] :=
  opened_cons rfl h
@[simp] theorem opened_rolledBack (p : ℕ) (h : History V R) :
    opened p (.rolledBack p :: h) = [] :=
  opened_cons rfl h

theorem opened_append_ne {p q : ℕ} {evs h : History V R} (hp : ∀ ev ∈ evs, ev.pid = p)
    (hne : p ≠ q) : opened q (evs ++ h) = opened q h := by
  rw [opened, own_append_ne hp hne, opened]

theorem mem_opened {p : ℕ} {ev : Event V R} {h : History V R} (hev : ev ∈ opened p h) :
    ev ∈ h ∧ ev.pid = p :=
  mem_own.1 ((List.takeWhile_prefix _).subset hev)

variable [DecidableEq K]

/-- What a statement with this answer makes of the row under `k`. -/
def Stmt.effect (k : K) : (q : Stmt V) → q.Res → Option (V k) → Option (V k)
  | .insert rows, _, v => row ((rows.map Entry.version).reverse ++ [⟨k, v⟩]) k
  | .tryInsert rows, b, v =>
    if b then row ((rows.map Entry.version).reverse ++ [⟨k, v⟩]) k else v
  | .update k' f, _, v => if h : k' = k then v.map (h ▸ f) else v
  | .delete k', _, v => if k' = k then none else v
  | _, _, v => v

@[simp] theorem Stmt.effect_insert_self {k : K} (v' : V k) (x : Unit) (v : Option (V k)) :
    (Stmt.insert [⟨k, v'⟩] : Stmt V).effect k x v = some v' :=
  row_cons_self ..

theorem Stmt.effect_insert_ne {k k' : K} (hk : k' ≠ k) (v' : V k') (x : Unit)
    (v : Option (V k)) : (Stmt.insert [⟨k', v'⟩] : Stmt V).effect k x v = v :=
  (row_cons_ne _ _ hk).trans (row_cons_self ..)

@[simp] theorem Stmt.effect_update_self {k : K} (f : V k → V k) (x : Unit) (v : Option (V k)) :
    (Stmt.update k f : Stmt V).effect k x v = v.map f :=
  dif_pos rfl

theorem Stmt.effect_update_ne {k k' : K} (hk : k' ≠ k) (f : V k' → V k') (x : Unit)
    (v : Option (V k)) : (Stmt.update k' f : Stmt V).effect k x v = v :=
  dif_neg hk

/-- The statement writes a row that `sel` chooses. -/
def Stmt.touches (sel : K → Bool) : Stmt V → Bool
  | .insert rows | .tryInsert rows => rows.any (sel ·.1)
  | .update k _ | .delete k => sel k
  | _ => false

/-- Rows it does not write stay as they are. -/
theorem Stmt.effect_of_not_touches {P : K → Bool} {k : K} (hk : P k = true) {q : Stmt V}
    (hq : q.touches P = false) (x : q.Res) (v : Option (V k)) : q.effect k x v = v := by
  have hne : ∀ {k'}, P k' = false → k' ≠ k := fun h he => by simp [he, hk] at h
  have hins : ∀ rows : List (Entry V), rows.any (P ·.1) = false →
      row ((rows.map Entry.version).reverse ++ [⟨k, v⟩]) k = v := fun rows h => by
    rw [row_append_of_notMem _ fun hmem => ?_, row_cons_self]
    rw [keys, List.map_reverse, List.mem_reverse, ← keys, keys_version] at hmem
    obtain ⟨e, he, rfl⟩ := List.mem_map.1 hmem
    simp [List.any_eq_false.1 h e he] at hk
  cases q with
  | get | view | forUpdate | skipLocked => rfl
  | insert rows => exact hins rows hq
  | tryInsert rows =>
    rw [Stmt.effect]
    split
    · exact hins rows hq
    · rfl
  | update k' f => rw [Stmt.effect, dif_neg (hne hq)]
  | delete k' => rw [Stmt.effect, if_neg (hne hq)]

/-- What a statement was told is true of the rows it was told of, where it keeps them
locked. -/
def Stmt.Told (value : (k : K) → Option (V k)) : (q : Stmt V) → q.Res → Prop
  | .forUpdate k, x => x.isSome → value k = x
  | .insert rows, _ => ∀ e ∈ rows, value e.1 = none
  | .tryInsert rows, b => b = true → ∀ e ∈ rows, value e.1 = none
  | .update k _, _ => (value k).isSome
  | _, _ => True

/-- The answer is the right one where the rows are `value`. -/
def Stmt.Right (value : (k : K) → Option (V k)) : (q : Stmt V) → q.Res → Prop
  | .get k, x | .forUpdate k, x => x = value k
  | .view, x => ∀ k, row x k = value k
  | .tryInsert rows, b => b = false → ∃ e ∈ rows, (value e.1).isSome
  | _, _ => True

/-- The rows that a transaction's events make of a store. -/
def replay (c : Store V) : History V R → (k : K) → Option (V k)
  | [], k => row c k
  | .ran _ q x :: h, k => q.effect k x (replay c h k)
  | _ :: h, k => replay c h k

/-- What a transaction's events were told is true over a store. -/
def Told (c : Store V) : History V R → Prop
  | [] => True
  | .ran _ q x :: h => q.Told (replay c h) x ∧ Told c h
  | _ :: h => Told c h

/-- The versions that a statement with this answer writes where the rows are `value`. -/
def Stmt.wrote (value : (k : K) → Option (V k)) : (q : Stmt V) → q.Res → Store V
  | .insert rows, _ => (rows.map Entry.version).reverse
  | .tryInsert rows, b => if b then (rows.map Entry.version).reverse else []
  | .update k f, _ => (value k).toList.map fun v => ⟨k, some (f v)⟩
  | .delete k, _ => [⟨k, none⟩]
  | _, _ => []

/-- The versions that a transaction's events write over a store, newest first. -/
def written (c : Store V) : History V R → Store V
  | [] => []
  | .ran _ q x :: h => q.wrote (replay c h) x ++ written c h
  | _ :: h => written c h

/-- An update of a row that is there. -/
theorem written_update {c : Store V} {k : K} {f : V k → V k} {v : V k} {h : History V R}
    (hv : replay c h k = some v) (p : ℕ) :
    written c (.ran p (.update k f) () :: h) = ⟨k, some (f v)⟩ :: written c h := by
  rw [written, Stmt.wrote, hv]
  rfl

/-- Each answer was right over the store as it was then, at which all that was told before
was true; the history is `h` now. -/
def Answered (h : History V R) : History V R → Prop
  | [] => True
  | .ran p q x :: evs => ∃ h₁, .ran p q x :: h₁ <:+ h ∧ opened p h₁ = evs ∧
      Told (committed h₁) evs ∧ q.Right (replay (committed h₁) evs) x ∧ Answered h₁ evs
  | _ :: evs => Answered h evs

theorem Answered.mono {h h' evs : History V R} (H : Answered h evs) (hs : h <:+ h') :
    Answered h' evs := by
  induction evs with
  | nil => trivial
  | cons ev evs ih =>
    cases ev with
    | ran p q x =>
      obtain ⟨h₁, h₁s, hrest⟩ := H
      exact ⟨h₁, h₁s.trans hs, hrest⟩
    | called | failed | committed | rolledBack | crashed => exact ih H

/-- What was answered before was answered over an earlier history. -/
theorem Answered.of_append {h evs evs' : History V R} (H : Answered h (evs' ++ evs)) :
    ∃ h₁, h₁ <:+ h ∧ Answered h₁ evs := by
  induction evs' generalizing h with
  | nil => exact ⟨h, List.suffix_refl _, H⟩
  | cons ev evs' ih =>
    cases ev with
    | ran p q x =>
      obtain ⟨h₁, h₁s, -, -, -, H⟩ := H
      obtain ⟨h₂, h₂s, H⟩ := ih H
      exact ⟨h₂, (h₂s.trans (List.suffix_cons ..)).trans h₁s, H⟩
    | called | failed | committed | rolledBack | crashed => exact ih H

theorem Answered.of_suffix {h evs evs' : History V R} (H : Answered h evs') (hs : evs <:+ evs') :
    ∃ h₁, h₁ <:+ h ∧ Answered h₁ evs := by
  obtain ⟨pre, rfl⟩ := hs
  exact H.of_append

/-- Over any store that agrees with `c` on the rows it holds, a transaction sees what
its events make of that store, and was told the truth. -/
def Follows (c : Store V) (t : Tx V) (h : History V R) : Prop :=
  ∀ c', (∀ k ∈ t.locks, row c' k = row c k) →
    (∀ k, row (t.view c') k = replay c' h k) ∧ Told c' h

/-- Over any such store, what it has written is what its events write. -/
def Wrote (c : Store V) (t : Tx V) (h : History V R) : Prop :=
  ∀ c', (∀ k ∈ t.locks, row c' k = row c k) → t.writes = written c' h

namespace Follows

variable {c c₁ : Store V} {t t' : Tx V} {h : History V R}

theorem empty (c : Store V) (b : Bool) : Follows c ({ failed := b } : Tx V) ([] : History V R) :=
  fun _ _ => ⟨fun _ => rfl, trivial⟩

/-- Others commit. -/
theorem agree (H : Follows c t h) (hc : ∀ k ∈ t.locks, row c₁ k = row c k) : Follows c₁ t h :=
  fun c' hc' => H c' fun k hk => (hc' k hk).trans (hc k hk)

/-- An event that is no statement. -/
theorem other (H : Follows c t h) {ev : Event V R} (hev : ∀ p q x, ev ≠ .ran p q x) (b : Bool) :
    Follows c { t with failed := b } (ev :: h) := by
  cases ev with
  | ran p q x => exact absurd rfl (hev p q x)
  | called | failed | committed | rolledBack | crashed => exact H

private theorem row_view_insert (rows : List (Entry V)) (t : Tx V) (c : Store V) (k : K) :
    row ((t.write (rows.map Entry.version)).view c) k =
      row ((rows.map Entry.version).reverse ++ [⟨k, row (t.view c) k⟩]) k := by
  rw [Tx.view, Tx.write_writes, List.append_assoc]
  exact row_append_congr _ (by rw [row_cons_self]; rfl)

/-- A row that is held reads the same over a store that agrees. -/
private theorem row_view_congr {c' : Store V} {k : K} (hc : row c' k = row c k) (t : Tx V) :
    row (t.view c') k = row (t.view c) k :=
  row_append_congr _ hc

/-- The transaction runs a statement. -/
theorem exec (H : Follows c t h) {q : Stmt V} {x : q.Res} {busy : K → Bool} (p : ℕ)
    (hx : q.exec c busy t = some (x, t')) : Follows c t' (.ran p q x :: h) := by
  have hmono := fun k => Stmt.exec_locks_mono hx (k := k)
  intro c' hc'
  obtain ⟨hrow, htold⟩ := H c' fun k hk => hc' k (hmono k hk)
  cases q with
  | get k | view =>
    simp only [Stmt.exec, Option.some.injEq, Prod.mk.injEq] at hx
    obtain ⟨-, rfl⟩ := hx
    exact ⟨hrow, trivial, htold⟩
  | skipLocked sel n =>
    simp only [Stmt.exec, Option.some.injEq, Prod.mk.injEq] at hx
    obtain ⟨-, rfl⟩ := hx
    exact ⟨hrow, trivial, htold⟩
  | forUpdate k =>
    simp only [Stmt.exec] at hx
    split at hx
    · simp at hx
    · simp only [Option.some.injEq, Prod.mk.injEq] at hx
      obtain ⟨rfl, rfl⟩ := hx
      refine ⟨fun k' => ?_, fun hsome => ?_, htold⟩
      · have : row (t.view c') k' = replay c' h k' := hrow k'
        split <;> exact this
      · rw [if_pos hsome] at hc'
        rw [← hrow k]
        exact row_view_congr (hc' k (by simp)) t
  | insert rows =>
    simp only [Stmt.exec] at hx
    split at hx
    · simp at hx
    · rename_i hfree
      simp only [Option.some.injEq, Prod.mk.injEq] at hx
      obtain ⟨-, rfl⟩ := hx
      refine ⟨fun k => ?_, fun e he => ?_, htold⟩
      · rw [row_view_insert, hrow k]
        rfl
      · have hlock : row c' e.1 = row c e.1 := by
          apply hc'
          rw [Tx.write_locks, keys_version]
          exact List.mem_append_left _ (List.mem_map_of_mem he)
        have hnone : row (t.view c) e.1 = none := by
          have := List.any_eq_false.1 (Bool.eq_false_iff.2 (not_or.1 hfree).2) e he
          simpa using this
        rw [← hrow, row_view_congr hlock, hnone]
  | tryInsert rows =>
    simp only [Stmt.exec] at hx
    split at hx
    · simp only [Option.some.injEq, Prod.mk.injEq] at hx
      obtain ⟨rfl, rfl⟩ := hx
      exact ⟨hrow, by simp [Stmt.Told], htold⟩
    · rename_i hfree
      split at hx
      · simp at hx
      · simp only [Option.some.injEq, Prod.mk.injEq] at hx
        obtain ⟨rfl, rfl⟩ := hx
        refine ⟨fun k => ?_, fun _ e he => ?_, htold⟩
        · rw [row_view_insert, hrow k]
          rfl
        · have hlock : row c' e.1 = row c e.1 := by
            apply hc'
            rw [Tx.write_locks, keys_version]
            exact List.mem_append_left _ (List.mem_map_of_mem he)
          have hnone : row (t.view c) e.1 = none := by
            have := List.any_eq_false.1 (Bool.eq_false_iff.2 hfree) e he
            simpa using this
          rw [← hrow, row_view_congr hlock, hnone]
  | update k f =>
    simp only [Stmt.exec] at hx
    split at hx
    · simp at hx
    · simp only [Option.map_eq_some_iff, Prod.mk.injEq] at hx
      obtain ⟨v, hv, -, rfl⟩ := hx
      have hlock : row (t.view c') k = some v := by
        rw [row_view_congr (hc' k (by simp)), hv]
      refine ⟨fun k' => ?_, ?_, htold⟩
      · rw [Tx.view, Tx.write_writes, List.reverse_singleton, List.singleton_append,
          List.cons_append]
        by_cases hk : k = k'
        · subst hk
          rw [row_cons_self]
          simp only [replay, Stmt.effect, dif_pos, ← hrow, hlock, Option.map_some]
        · rw [row_cons_ne _ _ hk]
          simp only [replay, Stmt.effect, dif_neg hk]
          exact hrow k'
      · simp only [Stmt.Told, ← hrow, hlock, Option.isSome_some]
  | delete k =>
    simp only [Stmt.exec] at hx
    split at hx
    · simp at hx
    · simp only [Option.some.injEq, Prod.mk.injEq] at hx
      obtain ⟨-, rfl⟩ := hx
      refine ⟨fun k' => ?_, trivial, htold⟩
      rw [Tx.view, Tx.write_writes, List.reverse_singleton, List.singleton_append,
        List.cons_append]
      by_cases hk : k = k'
      · subst hk
        rw [row_cons_self]
        simp only [replay, Stmt.effect, if_pos]
      · rw [row_cons_ne _ _ hk]
        simp only [replay, Stmt.effect, if_neg hk]
        exact hrow k'

/-- Its answer is right over the store as it is. -/
theorem right (H : Follows c t h) {q : Stmt V} {x : q.Res} {busy : K → Bool}
    (hx : q.exec c busy t = some (x, t')) : q.Right (replay c h) x := by
  have hrow := fun k => (H c fun _ _ => rfl).1 k
  cases q with
  | get k =>
    simp only [Stmt.exec, Option.some.injEq, Prod.mk.injEq] at hx
    exact hx.1.symm.trans (hrow k)
  | view =>
    simp only [Stmt.exec, Option.some.injEq, Prod.mk.injEq] at hx
    exact fun k => hx.1 ▸ hrow k
  | forUpdate k =>
    simp only [Stmt.exec] at hx
    split at hx
    · simp at hx
    · simp only [Option.some.injEq, Prod.mk.injEq] at hx
      exact hx.1.symm.trans (hrow k)
  | tryInsert rows =>
    intro hb
    simp only [Stmt.exec] at hx
    split at hx
    · rename_i hany
      obtain ⟨e, he, hsome⟩ := List.any_eq_true.1 hany
      exact ⟨e, he, hrow e.1 ▸ hsome⟩
    · split at hx
      · simp at hx
      · simp [hb] at hx
  | skipLocked | insert | update | delete => trivial

end Follows

namespace Wrote

variable {c c₁ : Store V} {t t' : Tx V} {h : History V R}

theorem empty (c : Store V) (b : Bool) : Wrote c ({ failed := b } : Tx V) ([] : History V R) :=
  fun _ _ => rfl

/-- Others commit. -/
theorem agree (H : Wrote c t h) (hc : ∀ k ∈ t.locks, row c₁ k = row c k) : Wrote c₁ t h :=
  fun c' hc' => H c' fun k hk => (hc' k hk).trans (hc k hk)

/-- An event that is no statement. -/
theorem other (H : Wrote c t h) {ev : Event V R} (hev : ∀ p q x, ev ≠ .ran p q x) (b : Bool) :
    Wrote c { t with failed := b } (ev :: h) := by
  cases ev with
  | ran p q x => exact absurd rfl (hev p q x)
  | called | failed | committed | rolledBack | crashed => exact H

/-- The transaction runs a statement. -/
theorem exec (H : Wrote c t h) (hf : Follows c t h) {q : Stmt V} {x : q.Res} {busy : K → Bool}
    (p : ℕ) (hx : q.exec c busy t = some (x, t')) : Wrote c t' (.ran p q x :: h) := by
  have hmono := fun k => Stmt.exec_locks_mono hx (k := k)
  intro c' hc'
  have hold : t.writes = written c' h := H c' fun k hk => hc' k (hmono k hk)
  have hrow := (hf c' fun k hk => hc' k (hmono k hk)).1
  rw [written]
  cases q with
  | get | view | skipLocked =>
    simp only [Stmt.exec, Option.some.injEq, Prod.mk.injEq] at hx
    obtain ⟨-, rfl⟩ := hx
    exact hold
  | forUpdate k =>
    simp only [Stmt.exec] at hx
    split at hx
    · simp at hx
    · simp only [Option.some.injEq, Prod.mk.injEq] at hx
      obtain ⟨-, rfl⟩ := hx
      split <;> exact hold
  | insert rows =>
    simp only [Stmt.exec] at hx
    split at hx
    · simp at hx
    · simp only [Option.some.injEq, Prod.mk.injEq] at hx
      obtain ⟨-, rfl⟩ := hx
      rw [Tx.write_writes, hold, Stmt.wrote]
  | tryInsert rows =>
    simp only [Stmt.exec] at hx
    split at hx
    · simp only [Option.some.injEq, Prod.mk.injEq] at hx
      obtain ⟨rfl, rfl⟩ := hx
      exact hold
    · split at hx
      · simp at hx
      · simp only [Option.some.injEq, Prod.mk.injEq] at hx
        obtain ⟨rfl, rfl⟩ := hx
        rw [Tx.write_writes, hold, Stmt.wrote, if_pos rfl]
  | update k f =>
    simp only [Stmt.exec] at hx
    split at hx
    · simp at hx
    · simp only [Option.map_eq_some_iff, Prod.mk.injEq] at hx
      obtain ⟨v, hv, -, rfl⟩ := hx
      have hlock : row c' k = row c k := hc' k (by simp)
      have hvalue : replay c' h k = some v := by
        rw [← hrow, ← hv]
        exact row_append_congr _ hlock
      rw [Tx.write_writes, hold, Stmt.wrote, hvalue]
      rfl
  | delete k =>
    simp only [Stmt.exec] at hx
    split at hx
    · simp at hx
    · simp only [Option.some.injEq, Prod.mk.injEq] at hx
      obtain ⟨-, rfl⟩ := hx
      rw [Tx.write_writes, hold, Stmt.wrote]
      rfl

end Wrote

/-! ## Every system -/

section Soundness

variable {program : Req → Prog V R ε α} {s : Sys V R ε α Req}

/-- The contract that allows everything. -/
private def anything : Contract V R := ⟨fun _ _ _ => True, fun _ _ _ => True⟩

private theorem safe_anything (m : Prog V R ε α) (p : ℕ) (h : History V R) (t : Tx V) :
    Safe anything p (fun _ _ _ => True) (fun _ _ _ => True) m h t := by
  induction m generalizing h t with
  | pure a | throw e => trivial
  | stmt q k ih => exact fun _ _ _ _ => ⟨fun _ _ _ _ _ => ih _ _ _, ih _ _ _⟩
  | call e k ih => exact fun _ _ _ _ => ⟨trivial, fun _ => ih _ _ _⟩
  | commit k ih =>
    exact fun _ _ _ _ => ⟨fun _ => ⟨trivial, ih _ _ _, ih _ _ _⟩, ih _ _ _⟩
  | rollback k ih => exact fun _ _ _ _ => ih _ _

/-- No row is ever locked by two processes. -/
theorem Reachable.exclusive (hs : Reachable program s) : Exclusive s :=
  (hs.safe fun r p h _ _ => safe_anything (program r) p h {}).exclusive

/-- **Every transaction follows from its events**, and has written what they write. -/
theorem Reachable.follows (hs : Reachable program s) {p : ℕ} {r : Proc V R ε α Req}
    (hp : s.procs[p]? = some (some r)) : Follows (committed s.hist) r.tx (opened p s.hist) ∧
      Wrote (committed s.hist) r.tx (opened p s.hist) := by
  induction hs generalizing p r with
  | init => simp at hp
  | @step s₀ s₁ a hs hstep ih =>
    rcases step_cases hstep with ⟨r₀, rfl⟩ | ⟨q, r₀, r', evs, hq, H, rfl⟩
    · rcases getElem?_procs_start hp with hp | ⟨rfl, rfl⟩
      · exact ih hp
      · have hnil := own_eq_nil fun ev hev => Nat.ne_of_lt (hs.runs.1 ev hev)
        simp only [opened, hnil, List.takeWhile_nil]
        exact ⟨Follows.empty _ _, Wrote.empty _ _⟩
    · by_cases hpq : q = p
      · subst hpq
        rw [put_procs_self hq] at hp
        obtain rfl : r' = some r := by simpa using hp
        have hold := ih hq
        cases H with
        | ran hk hf hx => exact opened_ran .. ▸ ⟨hold.1.exec q hx, hold.2.exec hold.1 q hx⟩
        | failed hk | commitFailed hk =>
          exact opened_failed .. ▸ ⟨hold.1.other (by simp) true, hold.2.other (by simp) true⟩
        | called hk x =>
          exact opened_called .. ▸ ⟨hold.1.other (by simp) _, hold.2.other (by simp) _⟩
        | committed hk hf =>
          rw [Sys.put, List.singleton_append, opened_committed]
          exact ⟨Follows.empty _ _, Wrote.empty _ _⟩
        | rolledBack hk =>
          rw [Sys.put, List.singleton_append, opened_rolledBack]
          exact ⟨Follows.empty _ _, Wrote.empty _ _⟩
        | commitLost hk hf =>
          rw [Sys.put, List.cons_append, List.singleton_append, opened_failed, opened_committed]
          exact ⟨(Follows.empty _ true).other (by simp) true,
            (Wrote.empty _ true).other (by simp) true⟩
      · rw [put_procs_ne hpq] at hp
        rw [Sys.put, opened_append_ne (fun ev hev => H.pid hev) hpq]
        have hagree : ∀ k ∈ r.tx.locks,
            row (committed (evs ++ s₀.hist)) k = row (committed s₀.hist) k := by
          intro k hk
          -- the process that moved writes only rows it holds, and `p` holds this one
          refine Extends.row_eq (P := fun ev => k ∉ keys ev.writes)
            ⟨evs, rfl, fun ev hev hmem => ?_⟩ fun ev hev => hev
          have hlock := H.keys_mem (hs.exclusive.sound q r₀ hq) hev hmem
          exact hs.exclusive.disjoint q p r₀ r hpq hq hp k hlock hk
        exact ⟨(ih hp).1.agree hagree, (ih hp).2.agree hagree⟩

/-- A transaction in which a statement has failed knows it. -/
theorem Reachable.failed (hs : Reachable program s) {p : ℕ} {r : Proc V R ε α Req}
    (hp : s.procs[p]? = some (some r)) (hf : .failed p ∈ opened p s.hist) :
    r.tx.failed = true := by
  induction hs generalizing p r with
  | init => simp at hp
  | @step s₀ s₁ a hs hstep ih =>
    rcases step_cases hstep with ⟨r₀, rfl⟩ | ⟨q, r₀, r', evs, hq, H, rfl⟩
    · rcases getElem?_procs_start hp with hp | ⟨rfl, rfl⟩
      · exact ih hp hf
      · have hnil := own_eq_nil fun ev hev => Nat.ne_of_lt (hs.runs.1 ev hev)
        simp [opened, hnil] at hf
    · by_cases hpq : q = p
      · subst hpq
        rw [put_procs_self hq] at hp
        obtain rfl : r' = some r := by simpa using hp
        cases H with
        | ran hk hnf hx =>
          have := ih hq (by simpa [Sys.put] using hf)
          simp [hnf] at this
        | failed | commitFailed | commitLost => rfl
        | called hk x =>
          have hold : r₀.tx.failed = true := ih hq (by simpa [Sys.put] using hf)
          exact hold
        | committed | rolledBack => simp [Sys.put] at hf
      · rw [put_procs_ne hpq] at hp
        rw [Sys.put, opened_append_ne (fun ev hev => H.pid hev) hpq] at hf
        exact ih hp hf

/-- **Every answer was right when it was given.** -/
theorem Reachable.answered (hs : Reachable program s) {p : ℕ} {r : Proc V R ε α Req}
    (hp : s.procs[p]? = some (some r)) : Answered s.hist (opened p s.hist) := by
  induction hs generalizing p r with
  | init => simp at hp
  | @step s₀ s₁ a hs hstep ih =>
    rcases step_cases hstep with ⟨r₀, rfl⟩ | ⟨q, r₀, r', evs, hq, H, rfl⟩
    · rcases getElem?_procs_start hp with hp | ⟨rfl, rfl⟩
      · exact ih hp
      · have hnil := own_eq_nil fun ev hev => Nat.ne_of_lt (hs.runs.1 ev hev)
        simp only [opened, hnil, List.takeWhile_nil]
        trivial
    · have hsuffix : s₀.hist <:+ evs ++ s₀.hist := List.suffix_append ..
      by_cases hpq : q = p
      · subst hpq
        rw [put_procs_self hq] at hp
        obtain rfl : r' = some r := by simpa using hp
        have hold := ih hq
        cases H with
        | ran hk hf hx =>
          have hfollows := hs.follows hq
          exact opened_ran .. ▸
            ⟨_, List.suffix_refl _, rfl, (hfollows.1 _ fun _ _ => rfl).2, hfollows.1.right hx, hold⟩
        | failed hk | commitFailed hk => exact opened_failed .. ▸ hold.mono hsuffix
        | called hk x => exact opened_called .. ▸ hold.mono hsuffix
        | committed hk hf =>
          change Answered _ (opened q (.committed q r₀.tx.writes :: s₀.hist))
          rw [opened_committed]
          trivial
        | rolledBack hk =>
          change Answered _ (opened q (.rolledBack q :: s₀.hist))
          rw [opened_rolledBack]
          trivial
        | commitLost hk hf =>
          change Answered _ (opened q (.failed q :: .committed q r₀.tx.writes :: s₀.hist))
          rw [opened_failed, opened_committed]
          trivial
      · rw [put_procs_ne hpq] at hp
        rw [Sys.put, opened_append_ne (fun ev hev => H.pid hev) hpq]
        exact (ih hp).mono hsuffix

/-- What is known of a commit: the committer was running some request's program, and no
statement of its transaction failed; it wrote what its events make of the store; and
its answers were right when they were given, and still are where it was told so. -/
structure Commits (program : Req → Prog V R ε α) (h : History V R) (p : ℕ) (w : Store V) :
    Prop where
  run : ∃ r k, Runs p (program r) [] (.commit k) (own p h)
  unfailed : .failed p ∉ opened p h
  rows : ∀ k, row (w ++ committed h) k = replay (committed h) (opened p h) k
  writes : w = written (committed h) (opened p h)
  told : Told (committed h) (opened p h)
  answered : Answered h (opened p h)

/-- What every system keeps. -/
def faithful (program : Req → Prog V R ε α) : Contract V R where
  commitOk := Commits program
  callOk h p e := ∃ r k, Runs p (program r) [] (.call e k) (own p h)

/-- **Every reachable history is faithful to the programs.** -/
theorem Reachable.faithful (hs : Reachable program s) :
    (faithful program).Valid s.hist := by
  induction hs with
  | init => trivial
  | step a hs hstep ih =>
    rcases step_cases hstep with ⟨r, rfl⟩ | ⟨p, r, r', evs, hp, H, rfl⟩
    · exact ih
    · have hrun := hs.runs.2.1 p r hp
      have hcommit : ∀ k, r.prog = .commit k → r.tx.failed = false →
          Commits program _ p r.tx.writes := fun k hk hf => by
        obtain ⟨hfollows, hwrote⟩ := hs.follows hp
        obtain ⟨hrow, htold⟩ := hfollows _ fun _ _ => rfl
        refine ⟨⟨r.req, k, hk ▸ hrun⟩, fun hmem => ?_, hrow, hwrote _ fun _ _ => rfl, htold,
          hs.answered hp⟩
        simp [hs.failed hp hmem] at hf
      cases H with
      | ran | failed | commitFailed | rolledBack | crashed => exact ⟨trivial, ih⟩
      | called hk x => exact ⟨⟨r.req, _, hk ▸ hrun⟩, ih⟩
      | committed hk hf => exact ⟨hcommit _ hk hf, ih⟩
      | commitLost hk hf => exact ⟨trivial, hcommit _ hk hf, ih⟩

end Soundness

end ReadCommitted
