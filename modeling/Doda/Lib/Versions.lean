import Doda.Lib.Replay

/-!
# What holds of every version

A property of row versions that every statement keeps, for the versions it writes,
holds of every committed version, of every version that an open transaction has
written, and of every version that a transaction has ever read.

The property may depend on the history, as long as it stays true when more happens.

## Main definitions

* `Stmt.Puts` — what a statement writes has the property.
* `VersionsAre` — the versions of a state have it.
* `Reachable.versions` — the rule.
-/

namespace ReadCommitted

variable {K : Type} {V : K → Type} {E : Type} {R : E → Type} {ε α Req : Type} [DecidableEq K]

/-- What the statement writes is in `new`, if what it changes is in `old`. -/
def Stmt.Puts (old new : Version V → Prop) : (q : Stmt V) → q.Res → Prop
  | .insert rows, _ => ∀ e ∈ rows, new e.version
  | .tryInsert rows, b => b = true → ∀ e ∈ rows, new e.version
  | .update k f, _ => ∀ v, old ⟨k, some v⟩ → new ⟨k, some (f v)⟩
  | .delete k, _ => new ⟨k, none⟩
  | _, _ => True

section Exec

variable {old new : Version V → Prop} {c : Store V} {busy : K → Bool} {t t' : Tx V}

theorem Stmt.exec_puts {q : Stmt V} {x : q.Res} (h : q.exec c busy t = some (x, t'))
    (hq : q.Puts old new x) (hon : ∀ v, old v → new v) (hc : ∀ v ∈ c, old v)
    (ht : ∀ v ∈ t.writes, old v) : ∀ v ∈ t'.writes, new v := by
  have hold : ∀ v ∈ t.writes, new v := fun v hv => hon v (ht v hv)
  have hrows : ∀ rows : List (Entry V), (∀ e ∈ rows, new e.version) →
      ∀ v ∈ (t.write (rows.map Entry.version)).writes, new v := by
    intro rows hnew
    rw [Tx.write_writes, List.forall_mem_append]
    refine ⟨fun v hv => ?_, hold⟩
    obtain ⟨e, he, rfl⟩ := List.mem_map.1 (List.mem_reverse.1 hv)
    exact hnew e he
  cases q with
  | get | view | skipLocked =>
    simp only [exec, Option.some.injEq, Prod.mk.injEq] at h
    obtain ⟨-, rfl⟩ := h
    exact hold
  | forUpdate k =>
    simp only [exec] at h
    split at h
    · simp at h
    · simp only [Option.some.injEq, Prod.mk.injEq] at h
      obtain ⟨-, rfl⟩ := h
      split <;> exact hold
  | insert rows =>
    simp only [exec] at h
    split at h
    · simp at h
    · simp only [Option.some.injEq, Prod.mk.injEq] at h
      obtain ⟨-, rfl⟩ := h
      exact hrows rows hq
  | tryInsert rows =>
    simp only [exec] at h
    split at h
    · simp only [Option.some.injEq, Prod.mk.injEq] at h
      obtain ⟨-, rfl⟩ := h
      exact hold
    · split at h
      · simp at h
      · simp only [Option.some.injEq, Prod.mk.injEq] at h
        obtain ⟨hb, rfl⟩ := h
        exact hrows rows (hq hb.symm)
  | update k f =>
    simp only [exec] at h
    split at h
    · simp at h
    · simp only [Option.map_eq_some_iff, Prod.mk.injEq] at h
      obtain ⟨v, hv, -, rfl⟩ := h
      have hin : old ⟨k, some v⟩ := by
        rcases List.mem_append.1 (mem_of_row hv) with hv | hv
        · exact ht _ hv
        · exact hc _ hv
      rw [Tx.write_writes, List.forall_mem_append]
      exact ⟨by simpa using hq v hin, hold⟩
  | delete k =>
    simp only [exec] at h
    split at h
    · simp at h
    · simp only [Option.some.injEq, Prod.mk.injEq] at h
      obtain ⟨-, rfl⟩ := h
      rw [Tx.write_writes, List.forall_mem_append]
      exact ⟨by simpa [Puts] using hq, hold⟩

omit [DecidableEq K] in
/-- A statement keeps what is said of other rows than it writes. -/
theorem Stmt.puts_of_not_touches {sel : K → Bool} {q : Stmt V} (hq : q.touches sel = false)
    (hnew : ∀ k v, sel k = false → new ⟨k, v⟩) (x : q.Res) : q.Puts old new x := by
  cases q with
  | get | view | forUpdate | skipLocked => trivial
  | insert rows =>
    intro e he
    exact hnew _ _ (by simpa using List.any_eq_false.1 hq e he)
  | tryInsert rows =>
    intro _ e he
    exact hnew _ _ (by simpa using List.any_eq_false.1 hq e he)
  | update k f => exact fun v _ => hnew _ _ hq
  | delete k => exact hnew _ _ hq

end Exec

/-- The versions of a state have a property. -/
structure VersionsAre (P : Version V → Prop) (s : Sys V R ε α Req) : Prop where
  committed : ∀ v ∈ committed s.hist, P v
  written : ∀ (p : ℕ) (r : Proc V R ε α Req), s.procs[p]? = some (some r) →
    ∀ v ∈ r.tx.writes, P v
  viewed : ∀ p (db : Store V), .ran p .view db ∈ s.hist → ∀ v ∈ db, P v

namespace VersionsAre

variable {P Q : Version V → Prop} {s : Sys V R ε α Req} {p : ℕ} {r : Proc V R ε α Req}
  {r' : Option (Proc V R ε α Req)} {evs : History V R}

omit [DecidableEq K] in
theorem mono (H : VersionsAre P s) (hPQ : ∀ v, P v → Q v) : VersionsAre Q s where
  committed v hv := hPQ v (H.committed v hv)
  written p r hp v hv := hPQ v (H.written p r hp v hv)
  viewed p db hdb v hv := hPQ v (H.viewed p db hdb v hv)

omit [DecidableEq K] in
/-- A process moves. -/
theorem put (H : VersionsAre P s) (hp : s.procs[p]? = some (some r))
    (hevs : ∀ ev ∈ evs, ∀ v ∈ ev.writes, P v) (hr' : ∀ r₁, r' = some r₁ → ∀ v ∈ r₁.tx.writes, P v)
    (hview : ∀ q (db : Store V), .ran q .view db ∈ evs → ∀ v ∈ db, P v) :
    VersionsAre P (s.put p r' evs) where
  committed := by
    have : ∀ evs : History V R, (∀ ev ∈ evs, ∀ v ∈ ev.writes, P v) →
        ∀ v ∈ ReadCommitted.committed (evs ++ s.hist), P v := by
      intro evs
      induction evs with
      | nil => exact fun _ => H.committed
      | cons ev evs ih =>
        intro hevs
        rw [List.forall_mem_cons] at hevs
        rw [List.cons_append, committed_cons, List.forall_mem_append]
        exact ⟨hevs.1, ih hevs.2⟩
    exact this evs hevs
  written q r₁ hq := by
    by_cases hpq : p = q
    · subst hpq
      rw [put_procs_self hp] at hq
      exact hr' r₁ (by simpa using hq)
    · rw [put_procs_ne hpq] at hq
      exact H.written q r₁ hq
  viewed q db hdb := by
    rcases List.mem_append.1 hdb with hdb | hdb
    · exact hview q db hdb
    · exact H.viewed q db hdb

end VersionsAre

variable {program : Req → Prog V R ε α} {P : History V R → Version V → Prop}

/-- **What every statement keeps holds of every version.** -/
theorem Reachable.versions (hmono : ∀ h h' v, h <:+ h' → P h v → P h' v)
    (hran : ∀ {s : Sys V R ε α Req} {p : ℕ} {q : Stmt V} {x : q.Res} {h : History V R},
      Reachable program s → s.hist = .ran p q x :: h → q.Puts (P h) (P s.hist) x)
    {s : Sys V R ε α Req} (hs : Reachable program s) : VersionsAre (P s.hist) s := by
  induction hs with
  | init =>
    refine ⟨by simp, fun p r hp => ?_, by simp⟩
    simp at hp
  | @step s₀ s₁ a hs₀ hstep ih =>
    have hs₁ : Reachable program s₁ := hs₀.step a hstep
    rcases step_cases hstep with ⟨r₀, rfl⟩ | ⟨p, r, r', evs, hp, H, rfl⟩
    · refine ⟨ih.committed, fun p r hp => ?_, ih.viewed⟩
      rcases getElem?_procs_start hp with hp | ⟨-, rfl⟩
      · exact ih.written p r hp
      · simp
    · have hold := ih.mono fun v hv => hmono _ _ v (List.suffix_append evs s₀.hist) hv
      have hwritten := hold.written p r hp
      cases H with
      | ran hk hf hx =>
        refine hold.put hp (by simp) ?_ ?_
        · intro r₁ hr₁
          obtain rfl := Option.some.inj hr₁
          exact Stmt.exec_puts hx (hran hs₁ rfl) (fun v hv => hmono _ _ v (List.suffix_cons ..) hv)
            ih.committed (ih.written p r hp)
        · intro q db hdb
          cases List.mem_singleton.1 hdb
          simp only [Stmt.exec, Option.some.injEq, Prod.mk.injEq] at hx
          obtain ⟨rfl, -⟩ := hx
          rw [Tx.view, List.forall_mem_append]
          exact ⟨hwritten, hold.committed⟩
      | failed hk | commitFailed hk | called hk x =>
        refine hold.put hp (by simp) (fun r₁ hr₁ => ?_) (by simp)
        obtain rfl := Option.some.inj hr₁
        exact hwritten
      | committed hk hf | commitLost hk hf =>
        refine hold.put hp (by simpa using hwritten) (fun r₁ hr₁ => ?_) (by simp)
        obtain rfl := Option.some.inj hr₁
        simp
      | rolledBack hk =>
        refine hold.put hp (by simp) (fun r₁ hr₁ => ?_) (by simp)
        obtain rfl := Option.some.inj hr₁
        simp
      | crashed => exact hold.put hp (by simp) (by simp) (by simp)

end ReadCommitted
