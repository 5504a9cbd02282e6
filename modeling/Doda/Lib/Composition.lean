import Doda.Lib.Frame

/-!
# Properties of programs that composition keeps

A property of programs is compositional if it holds of `pure` and `throw` and
passes through sequencing and handlers.  Such a property holds of a program as
soon as it holds of the operations the program is put together from, so one walk
through a program's text serves every such property.

## Main definitions

* `Compositional P` — the closure.
* `Only.compositional` — the frame.
* `Maintains C p I m` — the program leaves `I` alone; compositional too.
* `Steady.atomically` — transactions.
-/

namespace ReadCommitted

variable {K : Type} {V : K → Type} {E : Type} {R : E → Type} {ε : Type}

/-- Sequencing and handlers keep `P`. -/
structure Compositional (P : ∀ {α : Type}, Prog V R ε α → Prop) : Prop where
  pure : ∀ {α : Type} (a : α), P (Pure.pure a : Prog V R ε α)
  throw : ∀ {α : Type} (e : ε), P (MonadExcept.throw e : Prog V R ε α)
  bind : ∀ {α β : Type} {m : Prog V R ε β} {f : β → Prog V R ε α}, P m → (∀ b, P (f b)) →
    P (m >>= f)
  tryCatch : ∀ {α : Type} {m : Prog V R ε α} {f : ε → Prog V R ε α}, P m → (∀ e, P (f e)) →
    P (MonadExcept.tryCatch m f)

theorem Compositional.map {P : ∀ {α : Type}, Prog V R ε α → Prop} (hP : Compositional P)
    {α β : Type} {m : Prog V R ε β} (f : β → α) (hm : P m) : P (f <$> m) :=
  hP.bind hm fun _ => hP.pure _

theorem Only.compositional (S : Stmt V → Prop) (M : E → Prop) (T : Prop) :
    Compositional (V := V) (R := R) (ε := ε) fun m => Only S M T m :=
  ⟨Only.pure, Only.throw, Only.bind, Only.tryCatch⟩

variable [DecidableEq K]

/-- The program leaves `I` alone. -/
def Maintains (C : Contract V R) (p : ℕ) (I : History V R → Tx V → Prop) {α : Type}
    (m : Prog V R ε α) : Prop :=
  ∀ h t, I h t → Safe C p (fun _ => I) (fun _ => I) m h t

theorem Safe.compositional (C : Contract V R) (p : ℕ) (I : History V R → Tx V → Prop) :
    Compositional (ε := ε) fun m => Maintains C p I m where
  pure _ _ _ hI := hI
  throw _ _ _ hI := hI
  bind hm hf h t hI := Safe.bind (hm h t hI) fun b h' t' hI' => hf b h' t' hI'
  tryCatch hm hf h t hI := Safe.tryCatch _ (hm h t hI) fun e h' t' hI' => hf e h' t' hI'

section Steady

variable {C : Contract V R} {p : ℕ} {S : Stmt V → Prop} {M : E → Prop} {T : Prop}
  {I : History V R → Tx V → Prop} {α : Type}

theorem Steady.maintains (hI : Steady C p S M T I) {m : Prog V R ε α} (hm : Only S M T m) :
    Maintains C p I m :=
  fun _ _ hh => hm.safe hI hh

/-- **A transaction block leaves alone** what its body, the commit and the rollback do. -/
theorem Steady.atomically [DatabaseError ε] (hI : Steady C p S M True I) {m : Prog V R ε α}
    (hm : Maintains C p I m) : Maintains C p I (atomically m) := by
  have hend : ∀ a : α, Maintains C p I (commit >>= fun _ => pure a : Prog V R ε α) := fun a =>
    hI.maintains (Only.bind ⟨trivial, fun b => by cases b <;> trivial⟩ fun _ => trivial)
  have hback : ∀ e : ε, Maintains C p I (.rollback (.throw e) : Prog V R ε α) := fun e =>
    hI.maintains ⟨trivial, trivial⟩
  exact (Safe.compositional C p I).tryCatch ((Safe.compositional C p I).bind hm hend) hback

end Steady

end ReadCommitted
