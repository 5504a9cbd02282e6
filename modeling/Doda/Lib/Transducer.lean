import Mathlib.Data.List.Basic

/-!
# Transducers

A transducer reads a list of events.  It keeps a state; for each event it yields
outputs and goes on in another state, or raises and reads no further.

## Main definitions

* `Transducer` — one step.
* `run` — what is yielded over a list of events, and the state at its end or what
  was raised.
* `run_inv` — what every step preserves holds at the end.
* `run_of_steps` — a reading to the end, by what holds before each event.
* `run_raises_iff` — raising, where it does not depend on the state.
* `run_concat` — where the last output comes from.
-/

/-- A step for each event: outputs and a new state, or an exception. -/
structure Transducer (σ ε ο χ : Type) where
  step : σ → ε → Except χ (σ × List ο)

namespace Transducer

variable {σ ε ο χ : Type} {T : Transducer σ ε ο χ} {s s₁ s₂ : σ} {e : ε} {es p q : List ε}
  {ys zs : List ο} {x : χ}

/-- What is yielded over the events, and how the reading ends. -/
def run (T : Transducer σ ε ο χ) : σ → List ε → List ο × Except χ σ
  | s, [] => ([], .ok s)
  | s, e :: es =>
    match T.step s e with
    | .error x => ([], .error x)
    | .ok (s', ys) => (ys ++ (run T s' es).1, (run T s' es).2)

@[simp] theorem run_nil : T.run s [] = ([], .ok s) := rfl

theorem run_cons_ok (h : T.step s e = .ok (s₁, ys)) :
    T.run s (e :: es) = (ys ++ (T.run s₁ es).1, (T.run s₁ es).2) := by
  rw [run, h]

theorem run_cons_error (h : T.step s e = .error x) : T.run s (e :: es) = ([], .error x) := by
  rw [run, h]

/-- What a reading to the end of one more event begins with. -/
theorem run_cons_inv (h : T.run s (e :: es) = (zs, .ok s₂)) :
    ∃ s₁ ys ys', T.step s e = .ok (s₁, ys) ∧ T.run s₁ es = (ys', .ok s₂) ∧ zs = ys ++ ys' := by
  cases hs : T.step s e with
  | error x =>
    rw [run_cons_error hs] at h
    cases (Prod.mk.inj h).2
  | ok r =>
    obtain ⟨s₁, ys⟩ := r
    rw [run_cons_ok hs] at h
    obtain ⟨hy, hr⟩ := Prod.mk.inj h
    exact ⟨s₁, ys, (T.run s₁ es).1, rfl, Prod.ext rfl hr, hy.symm⟩

/-- What was read to the end was read to the end of each part. -/
theorem run_append_inv (h : T.run s (p ++ q) = (zs, .ok s₂)) :
    ∃ s₁ ys ys', T.run s p = (ys, .ok s₁) ∧ T.run s₁ q = (ys', .ok s₂) ∧ zs = ys ++ ys' := by
  induction p generalizing s zs with
  | nil => exact ⟨s, [], zs, rfl, h, rfl⟩
  | cons e p ih =>
    obtain ⟨s', ys, ys', hstep, hrun, rfl⟩ := run_cons_inv h
    obtain ⟨s₁, ws, ws', h₁, h₂, rfl⟩ := ih hrun
    refine ⟨s₁, ys ++ ws, ws', ?_, h₂, (List.append_assoc _ _ _).symm⟩
    rw [run_cons_ok hstep, h₁]

/-- **What every step preserves holds at the end.** -/
theorem run_inv {R : List ε → σ → Prop}
    (hR : ∀ p s e s' ys, R p s → T.step s e = .ok (s', ys) → R (p ++ [e]) s')
    (h₀ : R p s) (h : T.run s es = (zs, .ok s₂)) : R (p ++ es) s₂ := by
  induction es generalizing p s zs with
  | nil =>
    cases (Prod.mk.inj h).2
    simpa using h₀
  | cons e es ih =>
    obtain ⟨s₁, ys, ys', hstep, hrun, -⟩ := run_cons_inv h
    have := ih (hR p s e s₁ ys h₀ hstep) hrun
    rwa [List.append_assoc] at this

/-- **A reading that no step ends**, with what holds of the events read, the state and what has
been yielded. -/
theorem run_of_steps {R : List ε → σ → List ο → Prop}
    (hR : ∀ p e q s zs, es = p ++ e :: q → R p s zs →
      ∃ s' ys, T.step s e = .ok (s', ys) ∧ R (p ++ [e]) s' (zs ++ ys))
    (h₀ : R [] s []) : ∃ s' zs, T.run s es = (zs, .ok s') ∧ R es s' zs := by
  have hrest : ∀ q p s zs, es = p ++ q → R p s zs →
      ∃ s' ws, T.run s q = (ws, .ok s') ∧ R es s' (zs ++ ws) := by
    intro q
    induction q with
    | nil =>
      intro p s zs hes h
      rw [List.append_nil] at hes
      subst hes
      exact ⟨s, [], rfl, by rwa [List.append_nil]⟩
    | cons e q ih =>
      intro p s zs hes h
      obtain ⟨s₁, ys, hstep, h₁⟩ := hR p e q s zs hes h
      obtain ⟨s', ws, hrun, h'⟩ := ih (p ++ [e]) s₁ (zs ++ ys) (by simp [hes]) h₁
      refine ⟨s', ys ++ ws, ?_, by rwa [← List.append_assoc]⟩
      rw [run_cons_ok hstep, hrun]
  obtain ⟨s', ws, hrun, h⟩ := hrest es [] s [] rfl h₀
  exact ⟨s', ws, hrun, h⟩

/-- What is raised is raised by a step. -/
theorem run_error (h : (T.run s es).2 = .error x) : ∃ s', ∃ e ∈ es, T.step s' e = .error x := by
  induction es generalizing s with
  | nil => cases h
  | cons e es ih =>
    cases hs : T.step s e with
    | error y =>
      rw [run_cons_error hs] at h
      cases h
      exact ⟨s, e, by simp, hs⟩
    | ok r =>
      rw [run_cons_ok hs] at h
      obtain ⟨s', e', he, h'⟩ := ih h
      exact ⟨s', e', List.mem_cons_of_mem _ he, h'⟩

/-- **Where raising does not depend on the state**, a reading raises just when one
of its events does. -/
theorem run_raises_iff {R : ε → Prop} (hR : ∀ s e, (∃ x, T.step s e = .error x) ↔ R e) :
    (∃ x, (T.run s es).2 = .error x) ↔ ∃ e ∈ es, R e := by
  constructor
  · intro ⟨x, h⟩
    obtain ⟨s', e, he, h'⟩ := run_error h
    exact ⟨e, he, (hR s' e).1 ⟨x, h'⟩⟩
  · intro ⟨e, he, hRe⟩
    induction es generalizing s with
    | nil => simp at he
    | cons e' es ih =>
      cases hs : T.step s e' with
      | error x => exact ⟨x, by rw [run_cons_error hs]⟩
      | ok r =>
        rw [run_cons_ok hs]
        rcases List.mem_cons.1 he with rfl | he
        · obtain ⟨x, hx⟩ := (hR s e).2 hRe
          rw [hs] at hx
          cases hx
        · exact ih he

/-- What the steps for the events yield is what is yielded over them. -/
theorem run_all {P : ο → Prop}
    (hP : ∀ e ∈ es, ∀ s s' ys, T.step s e = .ok (s', ys) → ∀ y ∈ ys, P y) :
    ∀ y ∈ (T.run s es).1, P y := by
  induction es generalizing s with
  | nil => simp
  | cons e es ih =>
    rw [List.forall_mem_cons] at hP
    cases hs : T.step s e with
    | error x => simp [run_cons_error hs]
    | ok r =>
      rw [run_cons_ok hs, List.forall_mem_append]
      exact ⟨hP.1 s r.1 r.2 hs, ih hP.2⟩

/-- Nothing is yielded where no step yields, under what the steps preserve. -/
theorem run_eq_nil {R : List ε → σ → Prop}
    (hR : ∀ p s e s' ys, R p s → T.step s e = .ok (s', ys) → R (p ++ [e]) s')
    (h₀ : R p s) (h : T.run s es = (ys, .ok s₂))
    (hs : ∀ p' e q, es = p' ++ e :: q → ∀ s s' ys, R (p ++ p') s →
      T.step s e = .ok (s', ys) → ys = []) : ys = [] := by
  induction es generalizing p s ys with
  | nil => exact (Prod.mk.inj h).1.symm
  | cons e es ih =>
    obtain ⟨s₁, zs, zs', hstep, hrun, rfl⟩ := run_cons_inv h
    have hz : zs = [] := hs [] e es rfl s s₁ zs (by simpa using h₀) hstep
    have hz' : zs' = [] := by
      apply ih (hR p s e s₁ zs h₀ hstep) hrun
      intro p' e' q hq s s' ys hRp
      apply hs (e :: p') e' q (by rw [hq, List.cons_append])
      rwa [List.append_assoc] at hRp
    rw [hz, hz', List.append_nil]

/-- **Where the last output comes from**: a last event that yields, and nothing
after it that does. -/
theorem run_concat {y : ο} (h : T.run s es = (ys ++ [y], .ok s₂)) :
    ∃ p e q s₁ s' us us', es = p ++ e :: q ∧ T.run s p = (us, .ok s₁) ∧
      T.step s₁ e = .ok (s', us' ++ [y]) ∧ T.run s' q = ([], .ok s₂) ∧ ys = us ++ us' := by
  induction es generalizing s ys with
  | nil => simp at h
  | cons e es ih =>
    obtain ⟨s₁, zs, zs', hstep, hrun, hz⟩ := run_cons_inv h
    rcases zs'.eq_nil_or_concat' with rfl | ⟨zs', y', rfl⟩
    · rw [List.append_nil] at hz
      subst hz
      exact ⟨[], e, es, s, s₁, [], ys, rfl, rfl, hstep, hrun, rfl⟩
    · rw [← List.append_assoc] at hz
      obtain ⟨rfl, hy⟩ := List.append_inj' hz rfl
      cases hy
      obtain ⟨p, e', q, s₃, s', us, us', rfl, h₁, h₂, h₃, rfl⟩ := ih hrun
      refine ⟨e :: p, e', q, s₃, s', zs ++ us, us', rfl, ?_, h₂, h₃, (List.append_assoc _ _ _).symm⟩
      rw [run_cons_ok hstep, h₁]

/-- A reading that yields nothing is one of events that yield nothing. -/
theorem run_silent (h : T.run s es = ([], .ok s₂)) :
    ∀ p e q, es = p ++ e :: q → ∃ s₁ s', T.run s p = ([], .ok s₁) ∧ T.step s₁ e = .ok (s', []) := by
  rintro p e q rfl
  obtain ⟨s₁, ys, ys', h₁, h₂, hn⟩ := run_append_inv h
  obtain ⟨rfl, rfl⟩ := List.append_eq_nil_iff.1 hn.symm
  obtain ⟨s', zs, zs', h₃, -, hn⟩ := run_cons_inv h₂
  obtain ⟨rfl, rfl⟩ := List.append_eq_nil_iff.1 hn.symm
  exact ⟨s₁, s', h₁, h₃⟩

end Transducer
