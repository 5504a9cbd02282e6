import Doda.Lib.Transaction

/-!
# Programs over transactions

`Prog V R ε α` is a program that runs statements, calls the world outside the
store, commits and rolls back, and ends with a value of `α` or an exception of
`ε`.  It is a free monad: what a program does depends on nothing but the answers
it is given, so a run can be stopped after every operation and other programs
can be interleaved there.

A statement that the store cannot complete, and a commit that is not
acknowledged, come back as the exception `databaseError`.

## Main definitions

* `Prog` — programs, a monad with exceptions.
* `run`, `call`, `commit` — the operations.
* `atomically body` — a transaction block: commit at its end, roll back and
  rethrow on an exception.
-/

namespace ReadCommitted

variable {K : Type} {V : K → Type} {E : Type} {R : E → Type} {ε α β : Type}

/-- Programs.  `R e` is the type of the world's answers to the call `e`. -/
inductive Prog (V : K → Type) {E : Type} (R : E → Type) (ε α : Type) : Type where
  | pure (a : α)
  | throw (e : ε)
  /-- Run a statement; `none` if it fails. -/
  | stmt (q : Stmt V) (k : Option q.Res → Prog V R ε α)
  /-- Call the world. -/
  | call (e : E) (k : R e → Prog V R ε α)
  /-- Commit; `false` if no acknowledgement arrives. -/
  | commit (k : Bool → Prog V R ε α)
  | rollback (k : Prog V R ε α)

namespace Prog

/-- Sequencing. -/
def bind : Prog V R ε α → (α → Prog V R ε β) → Prog V R ε β
  | .pure a, f => f a
  | .throw e, _ => .throw e
  | .stmt q k, f => .stmt q fun x => (k x).bind f
  | .call e k, f => .call e fun x => (k x).bind f
  | .commit k, f => .commit fun b => (k b).bind f
  | .rollback k, f => .rollback (k.bind f)

/-- Handle an exception. -/
def tryCatch : Prog V R ε α → (ε → Prog V R ε α) → Prog V R ε α
  | .pure a, _ => .pure a
  | .throw e, f => f e
  | .stmt q k, f => .stmt q fun x => (k x).tryCatch f
  | .call e k, f => .call e fun x => (k x).tryCatch f
  | .commit k, f => .commit fun b => (k b).tryCatch f
  | .rollback k, f => .rollback (k.tryCatch f)

instance : Monad (Prog V R ε) where
  pure := .pure
  bind := .bind

instance : MonadExceptOf ε (Prog V R ε) where
  throw := .throw
  tryCatch := .tryCatch

@[simp] theorem pure_bind (a : α) (f : α → Prog V R ε β) :
    (Pure.pure a : Prog V R ε α) >>= f = f a := rfl
@[simp] theorem throw_bind (e : ε) (f : α → Prog V R ε β) :
    (MonadExcept.throw e : Prog V R ε α) >>= f = MonadExcept.throw e := rfl

theorem bind_assoc {γ : Type} (m : Prog V R ε α) (f : α → Prog V R ε β) (g : β → Prog V R ε γ) :
    m >>= f >>= g = m >>= fun a => f a >>= g := by
  induction m with
  | pure | throw => rfl
  | stmt q k ih => exact congrArg (Prog.stmt q) (funext ih)
  | call e k ih => exact congrArg (Prog.call e) (funext ih)
  | commit k ih => exact congrArg Prog.commit (funext ih)
  | rollback k ih => exact congrArg Prog.rollback ih

end Prog

/-- The exception a failed statement raises. -/
class DatabaseError (ε : Type) where
  databaseError : ε

export DatabaseError (databaseError)

section Operations

variable [DatabaseError ε]

/-- Run a statement. -/
def run (q : Stmt V) : Prog V R ε q.Res :=
  .stmt q fun
    | some x => .pure x
    | none => .throw databaseError

/-- Call the world outside the store. -/
def call (e : E) : Prog V R ε (R e) := .call e .pure

/-- Commit the open transaction. -/
def commit : Prog V R ε Unit :=
  .commit fun
    | true => .pure ()
    | false => .throw databaseError

/-- A transaction block: commit when the body ends, roll back and rethrow when it
raises. -/
def atomically (body : Prog V R ε α) : Prog V R ε α :=
  tryCatch (do
    let a ← body
    commit
    return a) fun e => .rollback (.throw e)

end Operations

end ReadCommitted
