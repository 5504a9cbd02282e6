import Doda.Lib.Replay

/-!
# Locks in a history

What a transaction has locked can be read off its own events, up to rows that it locked without
being told of them.  So a history says who holds what, and at no moment of it do two processes
hold one row.

## Main definitions

* `Stmt.locked` — the rows that a statement with its answer locks.
* `held evs` — the rows that a transaction's events have locked.

## Main results

* `Onward.opened`, `opened_append_cases` — how the open transaction goes on.
* `Reachable.held` — what is held is locked.
* `Reachable.right` — every answer was right when it was given.
* `Reachable.held_apart` — **no row is held twice**, at any moment of a run.
-/

namespace ReadCommitted

variable {K : Type} {V : K → Type} {E : Type} {R : E → Type} {ε α Req : Type}

/-- The rows that a statement with this answer locks. -/
def Stmt.locked : (q : Stmt V) → q.Res → List K
  | .forUpdate k, x => if x.isSome then [k] else []
  | .skipLocked _ _, rows => rows.map Sigma.fst
  | .insert rows, _ => rows.map Sigma.fst
  | .tryInsert rows, b => if b then rows.map Sigma.fst else []
  | .update k _, _ | .delete k, _ => [k]
  | .get _, _ | .view, _ => []

/-- The rows that the events of a transaction have locked. -/
def held : History V R → List K
  | [] => []
  | .ran _ q x :: evs => q.locked x ++ held evs
  | _ :: evs => held evs

theorem held_append (evs evs' : History V R) : held (evs ++ evs') = held evs ++ held evs' := by
  induction evs with
  | nil => rfl
  | cons ev evs ih =>
    cases ev with
    | ran p q x => rw [List.cons_append, held, held, ih, List.append_assoc]
    | called | failed | committed | rolledBack | crashed => exact ih

/-! ## The open transaction -/

/-- Others leave it alone. -/
theorem Others.opened_eq {p : ℕ} {L : List K} {h h' : History V R} (ho : Others p L h h') :
    opened p h' = opened p h := by
  rw [opened, ho.own_eq, opened]

/-- Inside its transaction a process only adds to it. -/
theorem Onward.opened {M : E → Prop} {p : ℕ} {h h' : History V R} {t t' : Tx V}
    (ho : Onward M p h t h' t') :
    ∃ evs, ReadCommitted.opened p h' = evs ++ ReadCommitted.opened p h ∧
      ∀ ev ∈ evs, ev.Inside M := by
  obtain ⟨evs, rfl, hevs⟩ := ho.later
  have hinside : ∀ ev : Event V R, ev ∈ ReadCommitted.own p evs → ev.Inside M := by
    intro ev hev
    obtain ⟨hmem, hpid⟩ := mem_own.1 hev
    exact (hevs ev hmem).2 hpid
  refine ⟨ReadCommitted.own p evs, ?_, hinside⟩
  rw [ReadCommitted.opened, own_append, List.takeWhile_append_of_pos, ReadCommitted.opened]
  intro ev hev
  have hin := hinside ev hev
  cases ev <;> simp [Event.Inside, Event.ends] at hin ⊢

/-- The moment of an event of a process. -/
theorem suffix_of_own {p : ℕ} {ev : Event V R} {l evs h : History V R}
    (ho : own p h = l ++ ev :: evs) : ∃ h', ev :: h' <:+ h ∧ own p h' = evs := by
  induction h generalizing l with
  | nil => exact absurd ho (by simp [own])
  | cons ev' h ih =>
    by_cases hpid : ev'.pid = p
    · rw [own_cons_self hpid] at ho
      cases l with
      | nil =>
        obtain ⟨rfl, rfl⟩ := List.cons.inj ho
        exact ⟨h, List.suffix_refl _, rfl⟩
      | cons ev'' l =>
        obtain ⟨h', hle, heq⟩ := ih (List.cons.inj ho).2
        exact ⟨h', hle.trans (List.suffix_cons ..), heq⟩
    · rw [own_cons_ne hpid] at ho
      obtain ⟨h', hle, heq⟩ := ih ho
      exact ⟨h', hle.trans (List.suffix_cons ..), heq⟩

/-- Since then the transaction has gone on, or the process has ended it. -/
theorem opened_append_cases (p : ℕ) (between h : History V R) :
    (∃ evs, opened p (between ++ h) = evs ++ opened p h) ∨
      ∃ later ev earlier evs, between = later ++ ev :: earlier ∧ ev.pid = p ∧ ev.ends = true ∧
        opened p (earlier ++ h) = evs ++ opened p h := by
  induction between with
  | nil => exact .inl ⟨[], rfl⟩
  | cons ev between ih =>
    rcases ih with ⟨evs, hevs⟩ | ⟨later, ev', earlier, evs, rfl, hrest⟩
    · by_cases hpid : ev.pid = p
      · cases hends : ev.ends with
        | true => exact .inr ⟨[], ev, between, evs, rfl, hpid, hends, hevs⟩
        | false =>
          refine .inl ⟨ev :: evs, ?_⟩
          rw [List.cons_append, opened_cons hpid, hends, hevs]
          rfl
      · refine .inl ⟨evs, ?_⟩
        rw [List.cons_append, opened, own_cons_ne hpid, ← hevs, opened]
    · exact .inr ⟨ev :: later, ev', earlier, evs, rfl, hrest⟩

/-! ## Who holds what -/

variable [DecidableEq K]

/-- What a statement says it locks, it locks. -/
theorem Stmt.exec_locked {q : Stmt V} {c : Store V} {busy : K → Bool} {t t' : Tx V} {x : q.Res}
    (hx : q.exec c busy t = some (x, t')) : ∀ k ∈ q.locked x, k ∈ t'.locks := by
  intro k hk
  cases q with
  | get | view => cases hk
  | forUpdate k' =>
    simp only [exec] at hx
    split at hx
    · simp at hx
    · simp only [Option.some.injEq, Prod.mk.injEq] at hx
      obtain ⟨rfl, rfl⟩ := hx
      rw [locked] at hk
      split at hk
      · rename_i hsome
        rw [if_pos hsome, List.mem_singleton.1 hk]
        exact List.mem_cons_self ..
      · cases hk
  | skipLocked sel n =>
    simp only [exec, Option.some.injEq, Prod.mk.injEq] at hx
    obtain ⟨rfl, rfl⟩ := hx
    obtain ⟨e, he, rfl⟩ := List.mem_map.1 hk
    obtain ⟨k', hk', he⟩ := List.mem_filterMap.1 he
    obtain ⟨v, -, rfl⟩ := Option.map_eq_some_iff.1 he
    exact List.mem_append_left _ hk'
  | insert rows =>
    simp only [exec] at hx
    split at hx
    · simp at hx
    · simp only [Option.some.injEq, Prod.mk.injEq] at hx
      obtain ⟨-, rfl⟩ := hx
      rw [Tx.write_locks, keys_version]
      exact List.mem_append_left _ hk
  | tryInsert rows =>
    simp only [exec] at hx
    split at hx
    · simp only [Option.some.injEq, Prod.mk.injEq] at hx
      obtain ⟨rfl, rfl⟩ := hx
      cases hk
    · split at hx
      · simp at hx
      · simp only [Option.some.injEq, Prod.mk.injEq] at hx
        obtain ⟨rfl, rfl⟩ := hx
        rw [Tx.write_locks, keys_version]
        exact List.mem_append_left _ hk
  | update k' f =>
    simp only [exec] at hx
    split at hx
    · simp at hx
    · simp only [Option.map_eq_some_iff, Prod.mk.injEq] at hx
      obtain ⟨v, -, -, rfl⟩ := hx
      rw [List.mem_singleton.1 hk]
      exact List.mem_cons_self ..
  | delete k' =>
    simp only [exec] at hx
    split at hx
    · simp at hx
    · simp only [Option.some.injEq, Prod.mk.injEq] at hx
      obtain ⟨-, rfl⟩ := hx
      rw [List.mem_singleton.1 hk]
      exact List.mem_cons_self ..

omit [DecidableEq K] in
/-- A run has no crash in it. -/
theorem Runs.not_crashed {p q : ℕ} {m m' : Prog V R ε α} {h h' : History V R}
    (hr : Runs p m h m' h') (hcrash : .crashed q ∉ h) : .crashed q ∉ h' := by
  induction hr with
  | refl => exact hcrash
  | ran | failed | called | committed | commitLost | commitFailed | rolledBack =>
    rename_i ih
    exact ih (by simpa using hcrash)

section Runs

variable {program : Req → Prog V R ε α} {s : Sys V R ε α Req}

/-- **What a process holds by its events, its transaction has locked.** -/
theorem Reachable.held (hs : Reachable program s) {p : ℕ} {r : Proc V R ε α Req}
    (hp : s.procs[p]? = some (some r)) : ∀ k ∈ held (opened p s.hist), k ∈ r.tx.locks := by
  induction hs generalizing p r with
  | init => simp at hp
  | @step s₀ s₁ a hs hstep ih =>
    rcases step_cases hstep with ⟨r₀, rfl⟩ | ⟨q, r₀, r', evs, hq, H, rfl⟩
    · rcases getElem?_procs_start hp with hp | ⟨rfl, rfl⟩
      · exact ih hp
      · have hnil := own_eq_nil fun ev hev => Nat.ne_of_lt (hs.runs.1 ev hev)
        simp [opened, hnil, ReadCommitted.held]
    · by_cases hpq : q = p
      · subst hpq
        rw [put_procs_self hq] at hp
        obtain rfl : r' = some r := by simpa using hp
        have hold := ih hq
        intro k hk
        cases H with
        | ran hprog hf hx =>
          rw [Sys.put, List.singleton_append, opened_ran, ReadCommitted.held,
            List.mem_append] at hk
          rcases hk with hk | hk
          · exact Stmt.exec_locked hx k hk
          · exact Stmt.exec_locks_mono hx (hold k hk)
        | failed | commitFailed =>
          rw [Sys.put, List.singleton_append, opened_failed] at hk
          exact hold k hk
        | called =>
          rw [Sys.put, List.singleton_append, opened_called] at hk
          exact hold k hk
        | committed =>
          rw [Sys.put, List.singleton_append, opened_committed] at hk
          cases hk
        | rolledBack =>
          rw [Sys.put, List.singleton_append, opened_rolledBack] at hk
          cases hk
        | commitLost =>
          rw [Sys.put, List.cons_append, List.singleton_append, opened_failed,
            opened_committed] at hk
          cases hk
      · rw [put_procs_ne hpq] at hp
        rw [Sys.put, opened_append_ne (fun ev hev => H.pid hev) hpq]
        exact ih hp

/-- **Every answer was right when it was given**, at any moment of a run. -/
theorem Reachable.right (hs : Reachable program s) {p : ℕ} {q : Stmt V} {x : q.Res}
    {h : History V R} (hh : .ran p q x :: h <:+ s.hist) :
    Told (committed h) (opened p h) ∧ q.Right (replay (committed h) (opened p h)) x := by
  induction hs with
  | init => exact absurd (List.suffix_nil.1 hh) (by simp)
  | @step s₀ s₁ a hs hstep ih =>
    rcases step_cases hstep with ⟨r₀, rfl⟩ | ⟨p', r₀, r', evs, hp, H, rfl⟩
    · exact ih hh
    · cases H with
      | ran hk hf hx =>
        rcases List.suffix_cons_iff.1 hh with heq | hh
        · obtain ⟨hev, rfl⟩ := List.cons_eq_cons.1 heq
          cases hev
          have hfollows := (hs.follows hp).1
          exact ⟨(hfollows _ fun _ _ => rfl).2, hfollows.right hx⟩
        · exact ih hh
      | failed | called | committed | commitFailed | rolledBack | crashed =>
        rcases List.suffix_cons_iff.1 hh with heq | hh
        · cases heq
        · exact ih hh
      | commitLost =>
        rcases List.suffix_cons_iff.1 hh with heq | hh
        · cases heq
        rcases List.suffix_cons_iff.1 hh with heq | hh
        · cases heq
        · exact ih hh

/-- A process that acts has not crashed. -/
theorem Reachable.not_crashed (hs : Reachable program s) {h : History V R} {ev : Event V R}
    (hh : ev :: h <:+ s.hist) : .crashed ev.pid ∉ h := by
  have hlt : ev.pid < s.procs.length := hs.runs.1 ev (hh.subset (List.mem_cons_self ..))
  obtain ⟨r, m, h₀, hrun, hown⟩ := hs.own_runs ev.pid hlt
  have hold : own ev.pid h <:+ h₀ := by
    have hle : ev :: own ev.pid h <:+ own ev.pid s.hist := own_cons_self rfl h ▸ hh.filter _
    rcases hown with rfl | hown
    · exact (List.suffix_cons ..).trans hle
    · rw [hown] at hle
      rcases List.suffix_cons_iff.1 hle with heq | hle
      · exact (List.cons.inj heq).2 ▸ List.suffix_refl _
      · exact (List.suffix_cons ..).trans hle
  exact fun hmem => hrun.not_crashed (by simp) (hold.subset (mem_own.2 ⟨hmem, rfl⟩))

/-- A process that has not crashed is still there. -/
theorem Reachable.alive (hs : Reachable program s) {p : ℕ} (hcrash : .crashed p ∉ s.hist)
    {ev : Event V R} (hev : ev ∈ s.hist) (hpid : ev.pid = p) :
    ∃ r, s.procs[p]? = some (some r) := by
  have hlt : p < s.procs.length := hpid ▸ hs.runs.1 ev hev
  cases hr : s.procs[p] with
  | some r => exact ⟨r, by rw [List.getElem?_eq_getElem hlt, hr]⟩
  | none =>
    obtain ⟨-, -, h, -, hown⟩ := hs.runs.2.2 p (by rw [List.getElem?_eq_getElem hlt, hr])
    have hmem : .crashed p ∈ own p s.hist := by
      rw [hown]
      exact List.mem_cons_self ..
    exact absurd (mem_own.1 hmem).1 hcrash

theorem Reachable.held_apart_now (hs : Reachable program s) {p q : ℕ} (hpq : p ≠ q)
    (hp : .crashed p ∉ s.hist) (hq : .crashed q ∉ s.hist) {k : K}
    (hk : k ∈ ReadCommitted.held (opened p s.hist)) :
    k ∉ ReadCommitted.held (opened q s.hist) := by
  intro hk'
  have halive : ∀ {p : ℕ}, .crashed p ∉ s.hist → k ∈ ReadCommitted.held (opened p s.hist) →
      ∃ r, s.procs[p]? = some (some r) := by
    intro p hcrash hk
    obtain ⟨ev, hev⟩ := List.exists_mem_of_ne_nil (opened p s.hist) fun hnil => by
      rw [hnil] at hk
      cases hk
    obtain ⟨hmem, hpid⟩ := mem_opened hev
    exact hs.alive hcrash hmem hpid
  obtain ⟨r, hr⟩ := halive hp hk
  obtain ⟨r', hr'⟩ := halive hq hk'
  exact hs.exclusive.disjoint p q r r' hpq hr hr' k (hs.held hr k hk) (hs.held hr' k hk')

/-- **No row is held by two processes**, at any moment of a run. -/
theorem Reachable.held_apart (hs : Reachable program s) {h : History V R} (hh : h <:+ s.hist)
    {p q : ℕ} (hpq : p ≠ q) (hp : .crashed p ∉ h) (hq : .crashed q ∉ h) {k : K}
    (hk : k ∈ ReadCommitted.held (opened p h)) : k ∉ ReadCommitted.held (opened q h) := by
  induction hs generalizing h with
  | init =>
    obtain rfl := List.suffix_nil.1 hh
    cases hk
  | @step s₀ s₁ a hs hstep ih =>
    by_cases hnow : h = s₁.hist
    · subst hnow
      exact (hs.step a hstep).held_apart_now hpq hp hq hk
    rcases step_cases hstep with ⟨r₀, rfl⟩ | ⟨i, r₀, r', evs, hi, H, rfl⟩
    · exact ih hh hp hq hk
    · cases H with
      | commitLost =>
        rcases List.suffix_cons_iff.1 hh with heq | hh
        · exact absurd heq hnow
        rcases List.suffix_cons_iff.1 hh with rfl | hh
        · -- the commit has given up all that its process held
          change k ∈ ReadCommitted.held (opened p (.committed i r₀.tx.writes :: s₀.hist)) at hk
          change k ∉ ReadCommitted.held (opened q (.committed i r₀.tx.writes :: s₀.hist))
          have hother : ∀ {j}, i ≠ j → opened j (.committed i r₀.tx.writes :: s₀.hist) =
              opened j s₀.hist := by
            intro j hne
            have hpid : (Event.committed i r₀.tx.writes : Event V R).pid ≠ j := hne
            rw [opened, own_cons_ne hpid, opened]
          by_cases hip : i = p
          · subst hip
            rw [opened_committed] at hk
            cases hk
          by_cases hiq : i = q
          · subst hiq
            rw [opened_committed]
            exact List.not_mem_nil
          rw [hother hip] at hk
          rw [hother hiq]
          exact ih (List.suffix_refl _) (fun h => hp (List.mem_cons_of_mem _ h))
            (fun h => hq (List.mem_cons_of_mem _ h)) hk
        · exact ih hh hp hq hk
      | ran | failed | called | committed | commitFailed | rolledBack | crashed =>
        rcases List.suffix_cons_iff.1 hh with heq | hh
        · exact absurd heq hnow
        · exact ih hh hp hq hk

end Runs

end ReadCommitted
