import Doda.Lib.Trace

/-!
# What a program raises

`Raises S m` says that every exception `m` raises, under any answers, satisfies `S`.
Together with the runs of a sequence, part by part, it tells where in a program an
exception comes from.

## Main definitions

* `Raises` — with its rules `Raises.bind`, `Raises.tryCatch`, ….
* `Runs.raised` — soundness.
* `Runs.bind_throw` — the runs of a sequence that have raised.
-/

namespace ReadCommitted

variable {K : Type} {V : K → Type} {E : Type} {R : E → Type} {ε α β : Type}

/-- Every exception the program raises satisfies `S`. -/
def Raises (S : ε → Prop) : Prog V R ε α → Prop
  | .pure _ => True
  | .throw e => S e
  | .stmt _ k => ∀ x, Raises S (k x)
  | .call _ k => ∀ x, Raises S (k x)
  | .commit k => ∀ b, Raises S (k b)
  | .rollback k => Raises S k

namespace Raises

variable {S S' : ε → Prop}

@[simp] theorem pure (a : α) : Raises S (Pure.pure a : Prog V R ε α) := trivial

@[simp] theorem throw_iff {e : ε} :
    Raises S (MonadExcept.throw e : Prog V R ε α) ↔ S e := Iff.rfl

theorem mono {m : Prog V R ε α} (hm : Raises S m) (hS : ∀ e, S e → S' e) : Raises S' m := by
  induction m with
  | pure a => trivial
  | throw e => exact hS e hm
  | stmt q k ih | call e k ih | commit k ih => exact fun x => ih x (hm x)
  | rollback k ih => exact ih hm

theorem bind {m : Prog V R ε β} {f : β → Prog V R ε α} (hm : Raises S m)
    (hf : ∀ b, Raises S (f b)) : Raises S (m >>= f) := by
  change Raises S (m.bind f)
  induction m with
  | pure a => exact hf a
  | throw e => exact hm
  | stmt q k ih | call e k ih | commit k ih => exact fun x => ih x (hm x)
  | rollback k ih => exact ih hm

theorem tryCatch {m : Prog V R ε α} {f : ε → Prog V R ε α} (hm : Raises S' m)
    (hf : ∀ e, S' e → Raises S (f e)) : Raises S (MonadExcept.tryCatch m f) := by
  change Raises S (m.tryCatch f)
  induction m with
  | pure a => trivial
  | throw e => exact hf e hm
  | stmt q k ih | call e k ih | commit k ih => exact fun x => ih x (hm x)
  | rollback k ih => exact ih hm

theorem run [DatabaseError ε] {q : Stmt V} (hS : S databaseError) :
    Raises S (ReadCommitted.run q : Prog V R ε _) := by
  intro x
  cases x with
  | none => exact hS
  | some x => trivial

theorem call {e : E} : Raises S (ReadCommitted.call e : Prog V R ε _) := fun _ => trivial

theorem run_bind [DatabaseError ε] {q : Stmt V} {f : q.Res → Prog V R ε α}
    (hS : S databaseError) (hf : ∀ x, Raises S (f x)) :
    Raises S (ReadCommitted.run q >>= f) := bind (run hS) hf

theorem call_bind {e : E} {f : R e → Prog V R ε α} (hf : ∀ x, Raises S (f x)) :
    Raises S (ReadCommitted.call e >>= f) := bind call hf

end Raises

/-- What a program raises, whatever it shows. -/
theorem Emits.of_raises {M : Type} {f : Event V R → Option M} {p : ℕ} {S : ε → Prop}
    {m : Prog V R ε α} (hm : Raises S m) : Emits f p (fun _ _ => True) (fun _ e => S e) m := by
  induction m with
  | pure a => trivial
  | throw e => exact hm
  | stmt q k ih => exact ⟨fun x => ih _ (hm _), ih _ (hm _)⟩
  | call e k ih => exact fun x => ih _ (hm _)
  | commit k ih => exact ⟨fun w => ⟨ih _ (hm _), ih _ (hm _)⟩, ih _ (hm _)⟩
  | rollback k ih => exact ih hm

/-- What a program shows when it raises, and what it raises. -/
theorem Emits.raises {M : Type} {f : Event V R → Option M} {p : ℕ} {S : ε → Prop}
    {Q : List M → α → Prop} {X : List M → ε → Prop} {m : Prog V R ε α} (H : Emits f p Q X m)
    (hm : Raises S m) : Emits f p Q (fun ms e => X ms e ∧ S e) m := by
  induction m generalizing Q X with
  | pure a => exact H
  | throw e => exact ⟨H, hm⟩
  | stmt q k ih => exact ⟨fun x => ih _ (H.1 x) (hm _), ih _ H.2 (hm _)⟩
  | call e k ih => exact fun x => ih _ (H x) (hm _)
  | commit k ih =>
    exact ⟨fun w => ⟨ih _ (H.1 w).1 (hm _), ih _ (H.1 w).2 (hm _)⟩, ih _ H.2 (hm _)⟩
  | rollback k ih => exact ih H hm

section Runs

variable {p : ℕ} {h evs : History V R} {S : ε → Prop}

/-- A statement with this answer, and what comes after it. -/
theorem Runs.run_bind [DatabaseError ε] {q : Stmt V} {f : q.Res → Prog V R ε α}
    {m' : Prog V R ε α} {h' : History V R} (x : q.Res)
    (hr : Runs p (f x) (.ran p q x :: h) m' h') : Runs p (ReadCommitted.run q >>= f) h m' h' :=
  .ran x hr

/-- What is left of a program raises nothing else. -/
theorem Runs.raises {m m' : Prog V R ε α} {h' : History V R} (hr : Runs p m h m' h')
    (hm : Raises S m) : Raises S m' := by
  induction hr with
  | refl => exact hm
  | ran x _ ih | called x _ ih => exact ih (hm _)
  | failed _ ih | committed _ _ ih | commitLost _ _ ih | commitFailed _ ih => exact ih (hm _)
  | rolledBack _ ih => exact ih hm

/-- **The exception a run ends with.** -/
theorem Runs.raised {m : Prog V R ε α} {e : ε} {h' : History V R} (hr : Runs p m h (.throw e) h')
    (hm : Raises S m) : S e := hr.raises hm

/-- **A sequence has raised**: its first part has, or its second after the first has
returned. -/
theorem Runs.bind_throw {m : Prog V R ε β} {f : β → Prog V R ε α} {e : ε}
    (hr : Runs p (m >>= f) h (.throw e) (evs ++ h)) :
    Runs p m h (.throw e) (evs ++ h) ∨
      ∃ b evs₁ evs₂, evs = evs₂ ++ evs₁ ∧ Runs p m h (pure b) (evs₁ ++ h) ∧
        Runs p (f b) (evs₁ ++ h) (.throw e) (evs₂ ++ (evs₁ ++ h)) := by
  rcases hr.bind_cases with ⟨m₁, heq, hm⟩ | ⟨b, h₁, hm, hf⟩
  · cases m₁ with
    | pure b => exact .inr ⟨b, evs, [], rfl, hm, heq ▸ .refl _ _⟩
    | throw e' =>
      cases heq
      exact .inl hm
    | stmt | call | commit | rollback => cases heq
  · obtain ⟨evs₁, rfl⟩ := hm.suffix
    obtain ⟨evs₂, heq⟩ := hf.suffix
    rw [← heq] at hf
    exact .inr ⟨b, evs₁, evs₂, List.append_cancel_right (by rw [← heq, List.append_assoc]), hm, hf⟩

end Runs

end ReadCommitted
