import Doda.Lib.Program

/-!
# Interleaved runs

Any number of processes run programs against one store.  Between any two
operations of one process the others may do anything; a process may fail a
statement, be told a commit failed after it was applied, or crash, and a crash
takes its open transaction with it.  All that ever happened is the history, and
the committed store is what the commits of the history wrote.

## Main definitions

* `Event`, `committed` — what a history records, and the store it leaves.
* `Sys`, `Act`, `step` — states, the scheduler's choices, and what each does.
* `Reachable` — the states some schedule leads to.
* `Moves`, `step_cases` — what one step can do, stated once.
-/

namespace ReadCommitted

variable {K : Type} {V : K → Type} {E : Type} {R : E → Type} {ε α Req : Type}

/-- One thing that happened, with the process it happened to. -/
inductive Event (V : K → Type) {E : Type} (R : E → Type) : Type where
  | ran (p : ℕ) (q : Stmt V) (x : q.Res)
  | called (p : ℕ) (e : E) (x : R e)
  | committed (p : ℕ) (w : Store V)
  | rolledBack (p : ℕ)
  /-- A statement or a commit of `p` failed. -/
  | failed (p : ℕ)
  | crashed (p : ℕ)

/-- The process an event happened to. -/
def Event.pid : Event V R → ℕ
  | .ran p _ _ | .called p _ _ | .committed p _ | .rolledBack p | .failed p | .crashed p => p

/-- What an event adds to the committed store. -/
def Event.writes : Event V R → Store V
  | .committed _ w => w
  | _ => []

@[simp] theorem Event.writes_ran (p : ℕ) (q : Stmt V) (x : q.Res) :
    (Event.ran p q x : Event V R).writes = [] := rfl
@[simp] theorem Event.writes_called (p : ℕ) (e : E) (x : R e) :
    (Event.called p e x : Event V R).writes = [] := rfl
@[simp] theorem Event.writes_committed (p : ℕ) (w : Store V) :
    (Event.committed p w : Event V R).writes = w := rfl
@[simp] theorem Event.writes_rolledBack (p : ℕ) :
    (Event.rolledBack p : Event V R).writes = [] := rfl
@[simp] theorem Event.writes_failed (p : ℕ) : (Event.failed p : Event V R).writes = [] := rfl
@[simp] theorem Event.writes_crashed (p : ℕ) : (Event.crashed p : Event V R).writes = [] := rfl

/-- Everything that happened, newest first. -/
abbrev History (V : K → Type) {E : Type} (R : E → Type) := List (Event V R)

/-- The store that the commits of a history leave. -/
def committed : History V R → Store V
  | [] => []
  | ev :: h => ev.writes ++ committed h

@[simp] theorem committed_nil : committed ([] : History V R) = [] := rfl
@[simp] theorem committed_cons (ev : Event V R) (h : History V R) :
    committed (ev :: h) = ev.writes ++ committed h := rfl

/-- A process: the request it serves, its open transaction, and the rest of its
program. -/
structure Proc (V : K → Type) {E : Type} (R : E → Type) (ε α Req : Type) where
  req : Req
  tx : Tx V := {}
  prog : Prog V R ε α

/-- A state of the system.  A process is known by its position; a crashed one
leaves its position empty. -/
structure Sys (V : K → Type) {E : Type} (R : E → Type) (ε α Req : Type) where
  hist : History V R := []
  procs : List (Option (Proc V R ε α Req)) := []

/-- The scheduler's choices. -/
inductive Act {E : Type} (R : E → Type) (Req : Type) : Type where
  /-- A request arrives. -/
  | start (r : Req)
  /-- Process `p` takes its next operation; `answer` is the world's. -/
  | run (p : ℕ) (answer : (e : E) → R e)
  /-- The next operation of `p` fails; a commit may have been applied all the same. -/
  | fail (p : ℕ) (applied : Bool)
  /-- Process `p` stops for good. -/
  | crash (p : ℕ)

section Step

variable [DecidableEq K]

/-- The rows that processes other than `p` hold. -/
def Sys.busy (s : Sys V R ε α Req) (p : ℕ) (k : K) : Bool :=
  (s.procs.eraseIdx p).any fun r => r.any (k ∈ ·.tx.locks)

/-- Process `p` becomes `r`, after the events `evs`. -/
def Sys.put (s : Sys V R ε α Req) (p : ℕ) (r : Option (Proc V R ε α Req))
    (evs : History V R) : Sys V R ε α Req :=
  { hist := evs ++ s.hist, procs := s.procs.set p r }

variable (program : Req → Prog V R ε α)

/-- What one process's next operation does. -/
def Sys.runProc (s : Sys V R ε α Req) (p : ℕ) (r : Proc V R ε α Req)
    (answer : (e : E) → R e) : Option (Sys V R ε α Req) :=
  match r.prog with
  | .pure _ | .throw _ => none
  | .stmt q k =>
    if r.tx.failed then none
    else (q.exec (committed s.hist) (s.busy p) r.tx).map fun (x, t) =>
      s.put p (some { r with tx := t, prog := k (some x) }) [.ran p q x]
  | .call e k => some (s.put p (some { r with prog := k (answer e) }) [.called p e (answer e)])
  | .commit k =>
    if r.tx.failed then none
    else some (s.put p (some { r with tx := {}, prog := k true }) [.committed p r.tx.writes])
  | .rollback k => some (s.put p (some { r with tx := {}, prog := k }) [.rolledBack p])

/-- What a failure of one process's next operation does. -/
def Sys.failProc (s : Sys V R ε α Req) (p : ℕ) (r : Proc V R ε α Req) (applied : Bool) :
    Option (Sys V R ε α Req) :=
  match r.prog with
  | .pure _ | .throw _ | .call _ _ | .rollback _ => none
  | .stmt _ k =>
    some (s.put p (some { r with tx := { r.tx with failed := true }, prog := k none }) [.failed p])
  | .commit k =>
    if applied && !r.tx.failed then
      some (s.put p (some { r with tx := { failed := true }, prog := k false })
        [.failed p, .committed p r.tx.writes])
    else
      some (s.put p (some { r with tx := { r.tx with failed := true }, prog := k false })
        [.failed p])

/-- One step of the system. -/
def step (s : Sys V R ε α Req) : Act R Req → Option (Sys V R ε α Req)
  | .start r => some { s with procs := s.procs ++ [some { req := r, prog := program r }] }
  | .run p answer => (s.procs[p]?.join).bind fun r => s.runProc p r answer
  | .fail p applied => (s.procs[p]?.join).bind fun r => s.failProc p r applied
  | .crash p => (s.procs[p]?.join).map fun _ => s.put p none [.crashed p]

/-- The states some schedule leads to, from the empty store. -/
inductive Reachable : Sys V R ε α Req → Prop where
  | init : Reachable {}
  | step {s s' : Sys V R ε α Req} (a : Act R Req) :
      Reachable s → step program s a = some s' → Reachable s'

/-- Run a schedule. -/
def runAll (s : Sys V R ε α Req) : List (Act R Req) → Option (Sys V R ε α Req)
  | [] => some s
  | a :: as => (step program s a).bind fun s' => runAll s' as

/-- Process `p` takes its next `n` operations; the world's answers are numbered from `i` on. -/
def Act.runs (p : ℕ) (answer : ℕ → (e : E) → R e) (i n : ℕ) : List (Act R Req) :=
  (List.range' i n).map fun i => .run p (answer i)

variable {program}

/-- A schedule leads to a reachable state. -/
theorem Reachable.runAll {s s' : Sys V R ε α Req} {as : List (Act R Req)}
    (hs : Reachable program s) (h : runAll program s as = some s') : Reachable program s' := by
  induction as generalizing s with
  | nil =>
    simp only [ReadCommitted.runAll, Option.some.injEq] at h
    exact h ▸ hs
  | cons a as ih =>
    simp only [ReadCommitted.runAll, Option.bind_eq_some_iff] at h
    obtain ⟨s₁, h₁, h⟩ := h
    exact ih (hs.step a h₁) h

/-- What a process's next operation can come to: the process it becomes, if it
survives, and the events, newest first. -/
inductive Moves (s : Sys V R ε α Req) (p : ℕ) (r : Proc V R ε α Req) :
    Option (Proc V R ε α Req) → History V R → Prop where
  | ran {q : Stmt V} {k} {x : q.Res} {t : Tx V} (hk : r.prog = .stmt q k)
      (hf : r.tx.failed = false)
      (hx : q.exec (committed s.hist) (s.busy p) r.tx = some (x, t)) :
      Moves s p r (some { r with tx := t, prog := k (some x) }) [.ran p q x]
  | failed {q : Stmt V} {k} (hk : r.prog = .stmt q k) :
      Moves s p r (some { r with tx := { r.tx with failed := true }, prog := k none }) [.failed p]
  | called {e : E} {k} (hk : r.prog = .call e k) (x : R e) :
      Moves s p r (some { r with prog := k x }) [.called p e x]
  | committed {k} (hk : r.prog = .commit k) (hf : r.tx.failed = false) :
      Moves s p r (some { r with tx := {}, prog := k true }) [.committed p r.tx.writes]
  /-- Applied, but the acknowledgement is lost. -/
  | commitLost {k} (hk : r.prog = .commit k) (hf : r.tx.failed = false) :
      Moves s p r (some { r with tx := { failed := true }, prog := k false })
        [.failed p, .committed p r.tx.writes]
  | commitFailed {k} (hk : r.prog = .commit k) :
      Moves s p r (some { r with tx := { r.tx with failed := true }, prog := k false }) [.failed p]
  | rolledBack {k} (hk : r.prog = .rollback k) :
      Moves s p r (some { r with tx := {}, prog := k }) [.rolledBack p]
  | crashed : Moves s p r none [.crashed p]

/-- **What one step can do**: a request arrives, or one process moves. -/
theorem step_cases {s s' : Sys V R ε α Req} {a : Act R Req} (h : step program s a = some s') :
    (∃ r, s' = { s with procs := s.procs ++ [some { req := r, prog := program r }] }) ∨
    ∃ p r r' evs, s.procs[p]? = some (some r) ∧ Moves s p r r' evs ∧ s' = s.put p r' evs := by
  cases a with
  | start r =>
    simp only [step, Option.some.injEq] at h
    exact .inl ⟨r, h.symm⟩
  | run p answer =>
    simp only [step, Option.bind_eq_some_iff, Option.join_eq_some_iff] at h
    obtain ⟨r, hp, h⟩ := h
    refine .inr ⟨p, r, ?_⟩
    unfold Sys.runProc at h
    split at h
    · simp at h
    · simp at h
    · rename_i q k hk
      split at h
      · simp at h
      · rename_i hf
        simp only [Option.map_eq_some_iff, Prod.exists] at h
        obtain ⟨x, t, hx, rfl⟩ := h
        exact ⟨_, _, hp, .ran hk (by simpa using hf) hx, rfl⟩
    · rename_i e k hk
      simp only [Option.some.injEq] at h
      exact ⟨_, _, hp, .called hk _, h.symm⟩
    · rename_i k hk
      split at h
      · simp at h
      · rename_i hf
        simp only [Option.some.injEq] at h
        exact ⟨_, _, hp, .committed hk (by simpa using hf), h.symm⟩
    · rename_i k hk
      simp only [Option.some.injEq] at h
      exact ⟨_, _, hp, .rolledBack hk, h.symm⟩
  | fail p applied =>
    simp only [step, Option.bind_eq_some_iff, Option.join_eq_some_iff] at h
    obtain ⟨r, hp, h⟩ := h
    refine .inr ⟨p, r, ?_⟩
    unfold Sys.failProc at h
    split at h
    · simp at h
    · simp at h
    · simp at h
    · simp at h
    · rename_i q k hk
      simp only [Option.some.injEq] at h
      exact ⟨_, _, hp, .failed hk, h.symm⟩
    · rename_i k hk
      split at h
      · rename_i hf
        simp only [Bool.and_eq_true, Bool.not_eq_true'] at hf
        simp only [Option.some.injEq] at h
        exact ⟨_, _, hp, .commitLost hk hf.2, h.symm⟩
      · simp only [Option.some.injEq] at h
        exact ⟨_, _, hp, .commitFailed hk, h.symm⟩
  | crash p =>
    simp only [step, Option.map_eq_some_iff, Option.join_eq_some_iff] at h
    obtain ⟨r, hp, rfl⟩ := h
    exact .inr ⟨p, r, none, _, hp, .crashed, rfl⟩

/-- The events of a move belong to the process that moved. -/
theorem Moves.pid {s : Sys V R ε α Req} {p : ℕ} {r : Proc V R ε α Req}
    {r' : Option (Proc V R ε α Req)} {evs : History V R} (h : Moves s p r r' evs)
    {ev : Event V R} (hev : ev ∈ evs) : ev.pid = p := by
  cases h
  all_goals
    simp only [List.mem_cons, List.not_mem_nil, or_false] at hev
    first
      | (subst hev; rfl)
      | (rcases hev with rfl | rfl <;> rfl)

end Step

end ReadCommitted
