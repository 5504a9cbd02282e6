import Doda.Lib.Frame

/-!
# The trace of a program

What a program does between two operations depends on nothing but the answers it
has been given, so what holds of a program under *all* answers holds of it in every
interleaving.  `Runs` is the run of one program under arbitrary answers, recorded
as a history of its own events; a trace is what one chooses to see of a history, and
`Emits` the weakest precondition over the traces of a program's runs.

`Reachable.runs` is the soundness theorem: in every reachable state the events of a
process are a run of its request's program, up to where it is or crashed.

## Main definitions

* `own p h` — the events of one process.
* `Runs` — runs under arbitrary answers.
* `trace f h` — what `f` sees of a history.
* `Emits` — the weakest precondition, with rules `Emits.bind`, `Emits.tryCatch`, ….
* `Oracle`, `play` — one run to the end, computed.
* `Reachable.runs` — soundness.
-/

namespace ReadCommitted

variable {K : Type} {V : K → Type} {E : Type} {R : E → Type} {ε α β Req : Type}

/-- The events of one process. -/
def own (p : ℕ) (h : History V R) : History V R := h.filter (·.pid = p)

@[simp] theorem own_nil (p : ℕ) : own p ([] : History V R) = [] := rfl

@[simp] theorem own_append (p : ℕ) (h h' : History V R) : own p (h ++ h') = own p h ++ own p h' :=
  List.filter_append ..

theorem own_cons_self {p : ℕ} {ev : Event V R} (hev : ev.pid = p) (h : History V R) :
    own p (ev :: h) = ev :: own p h :=
  List.filter_cons_of_pos (by simpa using hev)

@[simp] theorem own_ran (p : ℕ) (q : Stmt V) (x : q.Res) (h : History V R) :
    own p (.ran p q x :: h) = .ran p q x :: own p h :=
  own_cons_self rfl h
@[simp] theorem own_called (p : ℕ) (e : E) (x : R e) (h : History V R) :
    own p (.called p e x :: h) = .called p e x :: own p h :=
  own_cons_self rfl h
@[simp] theorem own_committed (p : ℕ) (w : Store V) (h : History V R) :
    own p (.committed p w :: h) = .committed p w :: own p h :=
  own_cons_self rfl h
@[simp] theorem own_failed (p : ℕ) (h : History V R) :
    own p (.failed p :: h) = .failed p :: own p h :=
  own_cons_self rfl h
@[simp] theorem own_rolledBack (p : ℕ) (h : History V R) :
    own p (.rolledBack p :: h) = .rolledBack p :: own p h :=
  own_cons_self rfl h

theorem own_cons_ne {p : ℕ} {ev : Event V R} (hev : ev.pid ≠ p) (h : History V R) :
    own p (ev :: h) = own p h :=
  List.filter_cons_of_neg (by simpa using hev)

theorem mem_own {p : ℕ} {ev : Event V R} {h : History V R} :
    ev ∈ own p h ↔ ev ∈ h ∧ ev.pid = p := by
  simp [own, List.mem_filter]

theorem own_eq_nil {p : ℕ} {h : History V R} (hp : ∀ ev ∈ h, ev.pid ≠ p) : own p h = [] := by
  refine List.filter_eq_nil_iff.2 fun ev hev => ?_
  simpa using hp ev hev

/-- Others leave a process's events alone. -/
theorem Others.own_eq {p : ℕ} {L : List K} {h h' : History V R} (ho : Others p L h h') :
    own p h' = own p h := by
  obtain ⟨evs, rfl, H⟩ := ho
  rw [own_append, own_eq_nil fun ev hev => (H ev hev).1, List.nil_append]

/-! ## Runs -/

/-- Process `p`, running `m` after its own events `h`, comes to `m'` after `h'`. -/
inductive Runs (p : ℕ) :
    Prog V R ε α → History V R → Prog V R ε α → History V R → Prop where
  | refl (m : Prog V R ε α) (h : History V R) : Runs p m h m h
  | ran {q : Stmt V} {k h m' h'} (x : q.Res)
      (hr : Runs p (k (some x)) (.ran p q x :: h) m' h') : Runs p (.stmt q k) h m' h'
  | failed {q : Stmt V} {k h m' h'} (hr : Runs p (k none) (.failed p :: h) m' h') :
      Runs p (.stmt q k) h m' h'
  | called {e : E} {k h m' h'} (x : R e) (hr : Runs p (k x) (.called p e x :: h) m' h') :
      Runs p (.call e k) h m' h'
  | committed {k h m' h'} (w : Store V) (hr : Runs p (k true) (.committed p w :: h) m' h') :
      Runs p (.commit k) h m' h'
  | commitLost {k h m' h'} (w : Store V)
      (hr : Runs p (k false) (.failed p :: .committed p w :: h) m' h') : Runs p (.commit k) h m' h'
  | commitFailed {k h m' h'} (hr : Runs p (k false) (.failed p :: h) m' h') :
      Runs p (.commit k) h m' h'
  | rolledBack {k h m' h'} (hr : Runs p k (.rolledBack p :: h) m' h') : Runs p (.rollback k) h m' h'

namespace Runs

variable {p : ℕ} {m m' m'' : Prog V R ε α} {h h' h'' : History V R}

theorem trans (h₁ : Runs p m h m' h') (h₂ : Runs p m' h' m'' h'') : Runs p m h m'' h'' := by
  induction h₁ with
  | refl => exact h₂
  | ran x _ ih => exact .ran x (ih h₂)
  | failed _ ih => exact .failed (ih h₂)
  | called x _ ih => exact .called x (ih h₂)
  | committed w _ ih => exact .committed w (ih h₂)
  | commitLost w _ ih => exact .commitLost w (ih h₂)
  | commitFailed _ ih => exact .commitFailed (ih h₂)
  | rolledBack _ ih => exact .rolledBack (ih h₂)

theorem suffix (hr : Runs p m h m' h') : h <:+ h' := by
  induction hr with
  | refl => exact List.suffix_refl _
  | ran _ _ ih | failed _ ih | called _ _ ih | committed _ _ ih | commitFailed _ ih
  | rolledBack _ ih => exact (List.suffix_cons _ _).trans ih
  | commitLost _ _ ih => exact ((List.suffix_cons _ _).trans (List.suffix_cons _ _)).trans ih

/-- **A run of a sequence** is in its first part, or has come to the second. -/
theorem bind_cases {m : Prog V R ε β} {f : β → Prog V R ε α}
    (hr : Runs p (m >>= f) h m' h') :
    (∃ m₁, m' = m₁ >>= f ∧ Runs p m h m₁ h') ∨
      ∃ b h₁, Runs p m h (pure b) h₁ ∧ Runs p (f b) h₁ m' h' := by
  change Runs p (m.bind f) h m' h' at hr
  induction m generalizing h with
  | pure b => exact .inr ⟨b, h, .refl _ _, hr⟩
  | throw e =>
    cases hr
    exact .inl ⟨.throw e, rfl, .refl _ _⟩
  | stmt q k ih =>
    cases hr with
    | refl => exact .inl ⟨.stmt q k, rfl, .refl _ _⟩
    | ran x hr =>
      exact (ih _ hr).imp (fun ⟨m₁, heq, h₁⟩ => ⟨m₁, heq, .ran x h₁⟩)
        fun ⟨b, h₁, hb, hf⟩ => ⟨b, h₁, .ran x hb, hf⟩
    | failed hr =>
      exact (ih _ hr).imp (fun ⟨m₁, heq, h₁⟩ => ⟨m₁, heq, .failed h₁⟩)
        fun ⟨b, h₁, hb, hf⟩ => ⟨b, h₁, .failed hb, hf⟩
  | call e k ih =>
    cases hr with
    | refl => exact .inl ⟨.call e k, rfl, .refl _ _⟩
    | called x hr =>
      exact (ih _ hr).imp (fun ⟨m₁, heq, h₁⟩ => ⟨m₁, heq, .called x h₁⟩)
        fun ⟨b, h₁, hb, hf⟩ => ⟨b, h₁, .called x hb, hf⟩
  | commit k ih =>
    cases hr with
    | refl => exact .inl ⟨.commit k, rfl, .refl _ _⟩
    | committed w hr =>
      exact (ih _ hr).imp (fun ⟨m₁, heq, h₁⟩ => ⟨m₁, heq, .committed w h₁⟩)
        fun ⟨b, h₁, hb, hf⟩ => ⟨b, h₁, .committed w hb, hf⟩
    | commitLost w hr =>
      exact (ih _ hr).imp (fun ⟨m₁, heq, h₁⟩ => ⟨m₁, heq, .commitLost w h₁⟩)
        fun ⟨b, h₁, hb, hf⟩ => ⟨b, h₁, .commitLost w hb, hf⟩
    | commitFailed hr =>
      exact (ih _ hr).imp (fun ⟨m₁, heq, h₁⟩ => ⟨m₁, heq, .commitFailed h₁⟩)
        fun ⟨b, h₁, hb, hf⟩ => ⟨b, h₁, .commitFailed hb, hf⟩
  | rollback k ih =>
    cases hr with
    | refl => exact .inl ⟨.rollback k, rfl, .refl _ _⟩
    | rolledBack hr =>
      exact (ih hr).imp (fun ⟨m₁, heq, h₁⟩ => ⟨m₁, heq, .rolledBack h₁⟩)
        fun ⟨b, h₁, hb, hf⟩ => ⟨b, h₁, .rolledBack hb, hf⟩

end Runs

/-! ## Traces -/

section Trace

variable {M : Type} {f : Event V R → Option M}

/-- What `f` sees of a history, oldest first. -/
def trace (f : Event V R → Option M) (h : History V R) : List M := h.reverse.filterMap f

@[simp] theorem trace_nil : trace f ([] : History V R) = [] := rfl

@[simp] theorem trace_cons (ev : Event V R) (h : History V R) :
    trace f (ev :: h) = trace f h ++ (f ev).toList := by
  cases hf : f ev <;> simp [trace, hf]

theorem trace_append (h' h : History V R) : trace f (h' ++ h) = trace f h ++ trace f h' := by
  simp [trace]

theorem mem_trace {h : History V R} {m : M} : m ∈ trace f h ↔ ∃ ev ∈ h, f ev = some m := by
  simp [trace]

/-- Where a mark stands in a trace, its event stands in the history. -/
theorem exists_of_trace_eq {h : History V R} {ms ms' : List M} {m : M}
    (ht : trace f h = ms ++ m :: ms') :
    ∃ h₁ ev h₂, h = h₂ ++ ev :: h₁ ∧ f ev = some m ∧ trace f h₁ = ms ∧ trace f h₂ = ms' := by
  obtain ⟨l₁, l₂, hl, h₁, h₂⟩ := List.filterMap_eq_append_iff.1 ht
  obtain ⟨l₃, ev, l₄, rfl, hnone, hev, h₄⟩ := List.filterMap_eq_cons_iff.1 h₂
  refine ⟨(l₁ ++ l₃).reverse, ev, l₄.reverse, ?_, hev, ?_, ?_⟩
  · rw [← List.reverse_reverse h, hl]
    simp
  · rw [trace, List.reverse_reverse, List.filterMap_append, h₁,
      List.filterMap_eq_nil_iff.2 hnone, List.append_nil]
  · rw [trace, List.reverse_reverse, h₄]

/-- `Q`, of the trace that follows `ms`. -/
def After (ms : List M) (Q : List M → β → Prop) : List M → β → Prop := fun ms' => Q (ms ++ ms')

@[simp] theorem after_nil (Q : List M → β → Prop) : After [] Q = Q := rfl

theorem after_after (ms ms' : List M) (Q : List M → β → Prop) :
    After ms' (After ms Q) = After (ms ++ ms') Q := by
  funext ms''
  simp [After]

/-- Where all marks so far satisfy `P`, it is left to show it of the rest. -/
theorem after_all {P : M → Prop} {ms : List M} (hms : ∀ m ∈ ms, P m) :
    After ms (fun ms' (_ : β) => ∀ m ∈ ms', P m) = fun ms' _ => ∀ m ∈ ms', P m := by
  funext ms' b
  simp only [After, List.forall_mem_append, eq_iff_iff]
  exact ⟨fun h => h.2, fun h => ⟨hms, h⟩⟩

/-- **`Emits f p Q X m`**: under any answers, what `f` sees of the program `m`, run by
process `p`, satisfies `Q` when it returns and `X` when it raises. -/
def Emits (f : Event V R → Option M) (p : ℕ) :
    (List M → α → Prop) → (List M → ε → Prop) → Prog V R ε α → Prop
  | Q, _, .pure a => Q [] a
  | _, X, .throw e => X [] e
  | Q, X, .stmt q k =>
    (∀ x, Emits f p (After (f (.ran p q x)).toList Q) (After (f (.ran p q x)).toList X)
      (k (some x))) ∧
    Emits f p (After (f (.failed p)).toList Q) (After (f (.failed p)).toList X) (k none)
  | Q, X, .call e k =>
    ∀ x, Emits f p (After (f (.called p e x)).toList Q) (After (f (.called p e x)).toList X) (k x)
  | Q, X, .commit k =>
    (∀ w, Emits f p (After (f (.committed p w)).toList Q) (After (f (.committed p w)).toList X)
        (k true) ∧
      Emits f p (After (f (.failed p)).toList (After (f (.committed p w)).toList Q))
        (After (f (.failed p)).toList (After (f (.committed p w)).toList X)) (k false)) ∧
    Emits f p (After (f (.failed p)).toList Q) (After (f (.failed p)).toList X) (k false)
  | Q, X, .rollback k =>
    Emits f p (After (f (.rolledBack p)).toList Q) (After (f (.rolledBack p)).toList X) k

namespace Emits

variable {p : ℕ} {Q Q' : List M → α → Prop} {X X' : List M → ε → Prop} {h h' : History V R}

@[simp] theorem pure_iff {a : α} : Emits f p Q X (pure a) ↔ Q [] a := by
  change Emits f p Q X (.pure a) ↔ _
  rw [Emits]

@[simp] theorem throw_iff {e : ε} : Emits f p Q X (throw e) ↔ X [] e := by
  change Emits f p Q X (.throw e) ↔ _
  rw [Emits]

theorem mono {m : Prog V R ε α} (H : Emits f p Q' X' m) (hQ : ∀ ms a, Q' ms a → Q ms a)
    (hX : ∀ ms e, X' ms e → X ms e) : Emits f p Q X m := by
  induction m generalizing Q Q' X X' with
  | pure a => exact hQ _ _ H
  | throw e => exact hX _ _ H
  | stmt q k ih =>
    exact ⟨fun x => ih _ (H.1 x) (fun _ => hQ _) fun _ => hX _,
      ih _ H.2 (fun _ => hQ _) fun _ => hX _⟩
  | call e k ih => exact fun x => ih _ (H x) (fun _ => hQ _) fun _ => hX _
  | commit k ih =>
    exact ⟨fun w => ⟨ih _ (H.1 w).1 (fun _ => hQ _) fun _ => hX _,
      ih _ (H.1 w).2 (fun _ => hQ _) fun _ => hX _⟩, ih _ H.2 (fun _ => hQ _) fun _ => hX _⟩
  | rollback k ih => exact ih H (fun _ => hQ _) fun _ => hX _

/-- **Sequencing.** -/
theorem bind {m : Prog V R ε β} {g : β → Prog V R ε α} {S : List M → β → Prop}
    (H : Emits f p S X m) (hg : ∀ ms b, S ms b → Emits f p (After ms Q) (After ms X) (g b)) :
    Emits f p Q X (m >>= g) := by
  change Emits f p Q X (m.bind g)
  induction m generalizing Q S X with
  | pure a => exact hg _ _ H
  | throw e => exact H
  | stmt q k ih =>
    refine ⟨fun x => ih _ (H.1 x) fun ms b hb => ?_, ih _ H.2 fun ms b hb => ?_⟩
    all_goals
      rw [after_after, after_after]
      exact hg _ _ hb
  | call e k ih =>
    refine fun x => ih _ (H x) fun ms b hb => ?_
    rw [after_after, after_after]
    exact hg _ _ hb
  | commit k ih =>
    refine ⟨fun w => ⟨ih _ (H.1 w).1 fun ms b hb => ?_, ih _ (H.1 w).2 fun ms b hb => ?_⟩,
      ih _ H.2 fun ms b hb => ?_⟩
    all_goals
      simp only [after_after]
      exact hg _ _ (by simpa only [After, List.append_assoc] using hb)
  | rollback k ih =>
    refine ih H fun ms b hb => ?_
    rw [after_after, after_after]
    exact hg _ _ hb

/-- **Exception handlers.** -/
theorem tryCatch {m : Prog V R ε α} {g : ε → Prog V R ε α} (X' : List M → ε → Prop)
    (H : Emits f p Q X' m) (hg : ∀ ms e, X' ms e → Emits f p (After ms Q) (After ms X) (g e)) :
    Emits f p Q X (MonadExcept.tryCatch m g) := by
  change Emits f p Q X (m.tryCatch g)
  induction m generalizing Q X' X with
  | pure a => exact H
  | throw e => exact hg _ _ H
  | stmt q k ih =>
    refine ⟨fun x => ih _ _ (H.1 x) fun ms b hb => ?_, ih _ _ H.2 fun ms b hb => ?_⟩
    all_goals
      rw [after_after, after_after]
      exact hg _ _ hb
  | call e k ih =>
    refine fun x => ih _ _ (H x) fun ms b hb => ?_
    rw [after_after, after_after]
    exact hg _ _ hb
  | commit k ih =>
    refine ⟨fun w => ⟨ih _ _ (H.1 w).1 fun ms b hb => ?_, ih _ _ (H.1 w).2 fun ms b hb => ?_⟩,
      ih _ _ H.2 fun ms b hb => ?_⟩
    all_goals
      simp only [after_after]
      exact hg _ _ (by simpa only [After, List.append_assoc] using hb)
  | rollback k ih =>
    refine ih _ H fun ms b hb => ?_
    rw [after_after, after_after]
    exact hg _ _ hb

/-- **A statement.** -/
theorem run [DatabaseError ε] {q : Stmt V} {Q : List M → q.Res → Prop}
    (H : ∀ x, Q (f (.ran p q x)).toList x) (hX : X (f (.failed p)).toList databaseError) :
    Emits f p Q X (run q) := by
  refine ⟨fun x => ?_, ?_⟩
  · rw [Emits, After, List.append_nil]
    exact H x
  · rw [Emits, After, List.append_nil]
    exact hX

/-- **A call.** -/
theorem call {e : E} {Q : List M → R e → Prop} (H : ∀ x, Q (f (.called p e x)).toList x) :
    Emits f p Q X (call e) := by
  intro x
  rw [Emits, After, List.append_nil]
  exact H x

theorem run_bind [DatabaseError ε] {q : Stmt V} {g : q.Res → Prog V R ε α}
    (H : ∀ x, Emits f p (After (f (.ran p q x)).toList Q) (After (f (.ran p q x)).toList X) (g x))
    (hX : X (f (.failed p)).toList databaseError) : Emits f p Q X (ReadCommitted.run q >>= g) := by
  refine ⟨H, ?_⟩
  refine throw_iff.2 ?_
  rw [After, List.append_nil]
  exact hX

theorem call_bind {e : E} {g : R e → Prog V R ε α}
    (H : ∀ x, Emits f p (After (f (.called p e x)).toList Q) (After (f (.called p e x)).toList X)
      (g x)) : Emits f p Q X (ReadCommitted.call e >>= g) := H

/-- **A transaction block.** -/
theorem atomically [DatabaseError ε] {m : Prog V R ε α} {Q' : List M → α → Prop}
    {X' : List M → ε → Prop} (H : Emits f p Q' X' m)
    (hQ : ∀ ms a, Q' ms a → (∀ w, Q (ms ++ (f (.committed p w)).toList) a ∧
      X (ms ++ ((f (.committed p w)).toList ++ ((f (.failed p)).toList ++
        (f (.rolledBack p)).toList))) databaseError) ∧
      X (ms ++ ((f (.failed p)).toList ++ (f (.rolledBack p)).toList)) databaseError)
    (hX : ∀ ms e, X' ms e → X (ms ++ (f (.rolledBack p)).toList) e) :
    Emits f p Q X (ReadCommitted.atomically m) := by
  refine tryCatch (fun ms e => X (ms ++ (f (.rolledBack p)).toList) e)
    (bind (H.mono (fun _ _ h => h) hX) fun ms a ha => ?_) fun ms e he => ?_
  · obtain ⟨hw, hfail⟩ := hQ ms a ha
    refine ⟨fun w => ⟨?_, ?_⟩, ?_⟩
    · refine pure_iff.2 ?_
      simpa only [After, List.append_nil] using (hw w).1
    · refine throw_iff.2 ?_
      simpa only [After, List.append_nil, List.append_assoc] using (hw w).2
    · refine throw_iff.2 ?_
      simpa only [After, List.append_nil, List.append_assoc] using hfail
  · simpa only [Emits, After, List.append_nil] using he

/-- What each operation of a program shows, the program shows. -/
theorem only {P : M → Prop} {T : Prop} {m : Prog V R ε α}
    (hm : Only (fun q => ∀ x, ∀ a ∈ f (.ran p q x), P a)
      (fun e => ∀ x, ∀ a ∈ f (.called p e x), P a) T m)
    (hf : ∀ a ∈ f (.failed p), P a)
    (hT : T → (∀ w, ∀ a ∈ f (.committed p w), P a) ∧ ∀ a ∈ f (.rolledBack p), P a) :
    Emits f p (fun ms _ => ∀ a ∈ ms, P a) (fun ms _ => ∀ a ∈ ms, P a) m := by
  have happ : ∀ {o : Option M} {ms : List M}, (∀ a ∈ o, P a) → (∀ a ∈ ms, P a) →
      ∀ a ∈ o.toList ++ ms, P a := fun ho hms a ha => by
    rcases List.mem_append.1 ha with ha | ha
    · exact ho a (Option.mem_toList.1 ha)
    · exact hms a ha
  induction m with
  | pure a | throw e => simp [Emits]
  | stmt q k ih =>
    exact ⟨fun x => (ih _ (hm.2 _)).mono (fun _ _ => happ (hm.1 x)) fun _ _ => happ (hm.1 x),
      (ih _ (hm.2 _)).mono (fun _ _ => happ hf) fun _ _ => happ hf⟩
  | call e k ih =>
    exact fun x => (ih _ (hm.2 _)).mono (fun _ _ => happ (hm.1 x)) fun _ _ => happ (hm.1 x)
  | commit k ih =>
    have hw := (hT hm.1).1
    exact ⟨fun w => ⟨(ih _ (hm.2 _)).mono (fun _ _ => happ (hw w)) fun _ _ => happ (hw w),
      (ih _ (hm.2 _)).mono (fun _ _ h => happ (hw w) (happ hf h))
        fun _ _ h => happ (hw w) (happ hf h)⟩,
      (ih _ (hm.2 _)).mono (fun _ _ => happ hf) fun _ _ => happ hf⟩
  | rollback k ih =>
    have hr := (hT hm.1).2
    exact (ih hm.2).mono (fun _ _ => happ hr) fun _ _ => happ hr

/-- What holds of the traces of all runs holds on the way of each. -/
theorem runs {m m' : Prog V R ε α} (H : Emits f p Q X m) (hr : Runs p m h m' h') :
    ∃ ms, trace f h' = trace f h ++ ms ∧ Emits f p (After ms Q) (After ms X) m' := by
  induction hr generalizing Q X with
  | refl => exact ⟨[], by simp, H⟩
  | ran x _ ih =>
    obtain ⟨ms, hms, H'⟩ := ih (H.1 x)
    rw [after_after, after_after] at H'
    exact ⟨_, by rw [hms, trace_cons, List.append_assoc], H'⟩
  | failed _ ih | commitFailed _ ih =>
    obtain ⟨ms, hms, H'⟩ := ih H.2
    rw [after_after, after_after] at H'
    exact ⟨_, by rw [hms, trace_cons, List.append_assoc], H'⟩
  | called x _ ih =>
    obtain ⟨ms, hms, H'⟩ := ih (H x)
    rw [after_after, after_after] at H'
    exact ⟨_, by rw [hms, trace_cons, List.append_assoc], H'⟩
  | committed w _ ih =>
    obtain ⟨ms, hms, H'⟩ := ih (H.1 w).1
    rw [after_after, after_after] at H'
    exact ⟨_, by rw [hms, trace_cons, List.append_assoc], H'⟩
  | commitLost w _ ih =>
    obtain ⟨ms, hms, H'⟩ := ih (H.1 w).2
    rw [after_after, after_after, after_after, after_after] at H'
    exact ⟨_, by rw [hms, trace_cons, trace_cons]; simp only [List.append_assoc], H'⟩
  | rolledBack _ ih =>
    obtain ⟨ms, hms, H'⟩ := ih H
    rw [after_after, after_after] at H'
    exact ⟨_, by rw [hms, trace_cons, List.append_assoc], H'⟩

/-- **A run that has returned.** -/
theorem returned {m : Prog V R ε α} (H : Emits f p Q X m) {a : α} {evs : History V R}
    (hr : Runs p m h (pure a) (evs ++ h)) : Q (trace f evs) a := by
  obtain ⟨ms, hms, H'⟩ := H.runs hr
  rw [trace_append, List.append_right_inj] at hms
  have hend := pure_iff.1 H'
  rwa [After, List.append_nil, ← hms] at hend

/-- Every run can be run to its end. -/
theorem ends [∀ e : E, Nonempty (R e)] {m : Prog V R ε α} (H : Emits f p Q X m) :
    ∃ ms, (∃ a, Q ms a) ∨ ∃ e, X ms e := by
  induction m generalizing Q X with
  | pure a => exact ⟨[], .inl ⟨a, H⟩⟩
  | throw e => exact ⟨[], .inr ⟨e, H⟩⟩
  | stmt q k ih | commit k ih =>
    obtain ⟨ms, hend⟩ := ih _ H.2
    exact ⟨_, hend⟩
  | call e k ih =>
    obtain ⟨x⟩ := (inferInstance : Nonempty (R e))
    obtain ⟨ms, hend⟩ := ih _ (H x)
    exact ⟨_, hend⟩
  | rollback k ih =>
    obtain ⟨ms, hend⟩ := ih H
    exact ⟨_, hend⟩

/-- **What holds of all traces and of what they begin with** holds at any time. -/
theorem throughout [∀ e : E, Nonempty (R e)] {P : List M → Prop} {m m' : Prog V R ε α}
    (H : Emits f p (fun ms _ => P ms) (fun ms _ => P ms) m) (hP : ∀ ms ms', P (ms ++ ms') → P ms)
    {evs : History V R} (hr : Runs p m h m' (evs ++ h)) : P (trace f evs) := by
  obtain ⟨ms, hms, H'⟩ := H.runs hr
  rw [trace_append, List.append_right_inj] at hms
  obtain ⟨ms', ⟨a, hend⟩ | ⟨e, hend⟩⟩ := H'.ends
  all_goals exact hms ▸ hP _ _ hend

end Emits

end Trace

/-! ## Playing a program -/

/-- What answers a program that runs by itself. -/
structure Oracle (V : K → Type) {E : Type} (R : E → Type) where
  /-- `none` where the statement fails. -/
  stmt : History V R → (q : Stmt V) → Option q.Res
  call : History V R → (e : E) → R e
  /-- What a commit writes, `none` where it fails. -/
  commit : History V R → Option (Store V)

/-- **Run a program to its end** under an oracle: how it ended, and its events. -/
def play (O : Oracle V R) (p : ℕ) : Prog V R ε α → History V R → Except ε α × History V R
  | .pure a, h => (.ok a, h)
  | .throw e, h => (.error e, h)
  | .stmt q k, h =>
    match O.stmt h q with
    | some x => play O p (k (some x)) (.ran p q x :: h)
    | none => play O p (k none) (.failed p :: h)
  | .call e k, h => play O p (k (O.call h e)) (.called p e (O.call h e) :: h)
  | .commit k, h =>
    match O.commit h with
    | some w => play O p (k true) (.committed p w :: h)
    | none => play O p (k false) (.failed p :: h)
  | .rollback k, h => play O p k (.rolledBack p :: h)

variable {O : Oracle V R} {p : ℕ}

/-- A sequence is played one part after the other. -/
theorem play_bind (m : Prog V R ε β) (f : β → Prog V R ε α) (h : History V R) :
    play O p (m >>= f) h =
      match play O p m h with
      | (.ok b, h') => play O p (f b) h'
      | (.error e, h') => (.error e, h') := by
  change play O p (m.bind f) h = _
  induction m generalizing h with
  | pure b => rfl
  | throw e => rfl
  | stmt q k ih =>
    simp only [Prog.bind, play]
    split <;> exact ih _ _
  | call e k ih => exact ih _ _
  | commit k ih =>
    simp only [Prog.bind, play]
    split <;> exact ih _ _
  | rollback k ih => exact ih _

/-- An exception is handled after what was played before it. -/
theorem play_tryCatch (m : Prog V R ε α) (g : ε → Prog V R ε α) (h : History V R) :
    play O p (tryCatch m g) h =
      match play O p m h with
      | (.ok a, h') => (.ok a, h')
      | (.error e, h') => play O p (g e) h' := by
  change play O p (m.tryCatch g) h = _
  induction m generalizing h with
  | pure a => rfl
  | throw e => rfl
  | stmt q k ih =>
    simp only [Prog.tryCatch, play]
    split <;> exact ih _ _
  | call e k ih => exact ih _ _
  | commit k ih =>
    simp only [Prog.tryCatch, play]
    split <;> exact ih _ _
  | rollback k ih => exact ih _

/-- The events are what the oracle answers, after the history `h`. -/
def Oracle.Gave (O : Oracle V R) (h : History V R) : History V R → Prop
  | [] => True
  | .ran _ q x :: evs => O.stmt (evs ++ h) q = some x ∧ O.Gave h evs
  | .called _ e x :: evs => O.call (evs ++ h) e = x ∧ O.Gave h evs
  | .committed _ w :: evs => O.commit (evs ++ h) = some w ∧ O.Gave h evs
  | .failed _ :: evs =>
    ((∃ q, O.stmt (evs ++ h) q = none) ∨ O.commit (evs ++ h) = none) ∧ O.Gave h evs
  | _ :: evs => O.Gave h evs

theorem Oracle.Gave.append {h h₁ h₂ : History V R} (H₁ : O.Gave h h₁)
    (H₂ : O.Gave (h₁ ++ h) h₂) : O.Gave h (h₂ ++ h₁) := by
  induction h₂ with
  | nil => exact H₁
  | cons ev evs ih =>
    cases ev with
    | ran | called | committed | failed =>
      rw [List.cons_append, Oracle.Gave, List.append_assoc]
      exact ⟨H₂.1, ih H₂.2⟩
    | rolledBack | crashed => exact ih H₂

theorem Oracle.Gave.of_append {h h₁ h₂ : History V R} (H : O.Gave h (h₂ ++ h₁)) :
    O.Gave h h₁ ∧ O.Gave (h₁ ++ h) h₂ := by
  induction h₂ with
  | nil => exact ⟨H, trivial⟩
  | cons ev evs ih =>
    cases ev with
    | ran | called | committed | failed =>
      rw [List.cons_append, Oracle.Gave, List.append_assoc] at H
      exact ⟨(ih H.2).1, H.1, (ih H.2).2⟩
    | rolledBack | crashed => exact ih H

/-- **What is played is what the oracle answers.** -/
theorem play_gave (m : Prog V R ε α) (h : History V R) :
    ∃ evs, (play O p m h).2 = evs ++ h ∧ O.Gave h evs := by
  induction m generalizing h with
  | pure a | throw e => exact ⟨[], rfl, trivial⟩
  | stmt q k ih =>
    cases hq : O.stmt h q with
    | some x =>
      obtain ⟨evs, hevs, H⟩ := ih (some x) (.ran p q x :: h)
      have hev : O.Gave h [.ran p q x] := ⟨hq, trivial⟩
      refine ⟨evs ++ [.ran p q x], ?_, hev.append H⟩
      simp only [play, hq, hevs, List.append_assoc, List.singleton_append]
    | none =>
      obtain ⟨evs, hevs, H⟩ := ih none (.failed p :: h)
      have hev : O.Gave h [.failed p] := ⟨.inl ⟨q, hq⟩, trivial⟩
      refine ⟨evs ++ [.failed p], ?_, hev.append H⟩
      simp only [play, hq, hevs, List.append_assoc, List.singleton_append]
  | call e k ih =>
    obtain ⟨evs, hevs, H⟩ := ih (O.call h e) (.called p e (O.call h e) :: h)
    have hev : O.Gave h [.called p e (O.call h e)] := ⟨rfl, trivial⟩
    refine ⟨evs ++ [.called p e (O.call h e)], ?_, hev.append H⟩
    simp only [play, hevs, List.append_assoc, List.singleton_append]
  | commit k ih =>
    cases hw : O.commit h with
    | some w =>
      obtain ⟨evs, hevs, H⟩ := ih true (.committed p w :: h)
      have hev : O.Gave h [.committed p w] := ⟨hw, trivial⟩
      refine ⟨evs ++ [.committed p w], ?_, hev.append H⟩
      simp only [play, hw, hevs, List.append_assoc, List.singleton_append]
    | none =>
      obtain ⟨evs, hevs, H⟩ := ih false (.failed p :: h)
      have hev : O.Gave h [.failed p] := ⟨.inr hw, trivial⟩
      refine ⟨evs ++ [.failed p], ?_, hev.append H⟩
      simp only [play, hw, hevs, List.append_assoc, List.singleton_append]
  | rollback k ih =>
    obtain ⟨evs, hevs, H⟩ := ih (.rolledBack p :: h)
    have hev : O.Gave h [.rolledBack p] := trivial
    refine ⟨evs ++ [.rolledBack p], ?_, hev.append H⟩
    simp only [play, hevs, List.append_assoc, List.singleton_append]

/-- Playing a program runs it. -/
theorem play_runs (m : Prog V R ε α) (h : History V R) :
    Runs p m h (match (play O p m h).1 with | .ok a => .pure a | .error e => .throw e)
      (play O p m h).2 := by
  induction m generalizing h with
  | pure a => exact .refl _ _
  | throw e => exact .refl _ _
  | stmt q k ih =>
    cases hq : O.stmt h q with
    | some x =>
      simp only [play, hq]
      exact .ran _ (ih _ _)
    | none =>
      simp only [play, hq]
      exact .failed (ih _ _)
  | call e k ih => exact .called _ (ih _ _)
  | commit k ih =>
    cases hq : O.commit h with
    | some w =>
      simp only [play, hq]
      exact .committed _ (ih _ _)
    | none =>
      simp only [play, hq]
      exact .commitFailed (ih _ _)
  | rollback k ih => exact .rolledBack (ih _)

/-- What is played to a value is a run to it. -/
theorem runs_of_play {m : Prog V R ε α} {h h' : History V R} {a : α}
    (hm : play O p m h = (.ok a, h')) : Runs p m h (pure a) h' := by
  have := play_runs (O := O) (p := p) m h
  rw [hm] at this
  exact this

/-- What a program shows is shown when it is played. -/
theorem play_emits {M : Type} {f : Event V R → Option M} {Q : List M → α → Prop}
    {X : List M → ε → Prop} {m : Prog V R ε α} (H : Emits f p Q X m) (h : History V R) :
    ∃ ms, trace f (play O p m h).2 = trace f h ++ ms ∧
      match (play O p m h).1 with
      | .ok a => Q ms a
      | .error e => X ms e := by
  obtain ⟨ms, hms, H'⟩ := H.runs (play_runs m h)
  refine ⟨ms, hms, ?_⟩
  cases hr : (play O p m h).1 with
  | ok a | error e => simpa only [hr, Emits, After, List.append_nil] using H'

/-! ## Soundness -/

section Soundness

variable [DecidableEq K] {program : Req → Prog V R ε α} {s : Sys V R ε α Req}

/-- A move of a process is a run of it. -/
theorem Moves.runs {p : ℕ} {r r' : Proc V R ε α Req} {evs : History V R}
    (H : Moves s p r (some r') evs) (h : History V R) :
    Runs p r.prog h r'.prog (evs ++ h) ∧ r'.req = r.req := by
  cases H with
  | ran hk _ _ => exact ⟨hk ▸ .ran _ (.refl _ _), rfl⟩
  | failed hk => exact ⟨hk ▸ .failed (.refl _ _), rfl⟩
  | called hk x => exact ⟨hk ▸ .called x (.refl _ _), rfl⟩
  | committed hk _ => exact ⟨hk ▸ .committed _ (.refl _ _), rfl⟩
  | commitLost hk _ => exact ⟨hk ▸ .commitLost _ (.refl _ _), rfl⟩
  | commitFailed hk => exact ⟨hk ▸ .commitFailed (.refl _ _), rfl⟩
  | rolledBack hk => exact ⟨hk ▸ .rolledBack (.refl _ _), rfl⟩

/-- A process that is gone has crashed. -/
theorem Moves.crashed_eq {p : ℕ} {r : Proc V R ε α Req} {evs : History V R}
    (H : Moves s p r none evs) : evs = [.crashed p] := by
  cases H
  rfl

omit [DecidableEq K] in
/-- The events of a list that all belong to one process. -/
theorem own_eq_self {p : ℕ} {evs : History V R} (hp : ∀ ev ∈ evs, ev.pid = p) :
    own p evs = evs :=
  List.filter_eq_self.2 fun ev hev => by simpa using hp ev hev

omit [DecidableEq K] in
theorem own_append_ne {p q : ℕ} {evs h : History V R} (hp : ∀ ev ∈ evs, ev.pid = p)
    (hne : p ≠ q) : own q (evs ++ h) = own q h := by
  rw [own_append, own_eq_nil fun ev hev => by rw [hp ev hev]; exact hne, List.nil_append]

/-- **Soundness.**  In every reachable state the events of a process are a run of the
program of some request, up to what is left of it, or up to its crash. -/
theorem Reachable.runs (hs : Reachable program s) :
    (∀ ev ∈ s.hist, ev.pid < s.procs.length) ∧
    (∀ (p : ℕ) (r : Proc V R ε α Req), s.procs[p]? = some (some r) →
      Runs p (program r.req) [] r.prog (own p s.hist)) ∧
    ∀ p, s.procs[p]? = some none → ∃ r m h, Runs p (program r) [] m h ∧
      own p s.hist = .crashed p :: h := by
  induction hs with
  | init => simp
  | step a _ hstep ih =>
    obtain ⟨hfresh, hlive, hdead⟩ := ih
    rcases step_cases hstep with ⟨r, rfl⟩ | ⟨p, r, r', evs, hp, H, rfl⟩
    · refine ⟨fun ev hev => ?_, fun q r₁ hq => ?_, fun q hq => ?_⟩
      · have := hfresh ev hev
        simp only [List.length_append, List.length_singleton]
        omega
      · rcases getElem?_procs_start hq with hq | ⟨rfl, rfl⟩
        · exact hlive q r₁ hq
        · rw [own_eq_nil fun ev hev => Nat.ne_of_lt (hfresh ev hev)]
          exact .refl _ _
      · apply hdead q
        rw [List.getElem?_append] at hq
        split at hq
        · exact hq
        · simp [List.getElem?_singleton] at hq
    · have hpid : ∀ ev ∈ evs, ev.pid = p := fun ev hev => H.pid hev
      have hlt : p < _ := (List.getElem?_eq_some_iff.1 hp).1
      refine ⟨fun ev hev => ?_, fun q r₁ hq => ?_, fun q hq => ?_⟩
      · simp only [Sys.put, List.length_set]
        rcases List.mem_append.1 hev with hev | hev
        · rw [hpid ev hev]
          exact hlt
        · exact hfresh ev hev
      · by_cases hpq : p = q
        · subst hpq
          rw [put_procs_self hp] at hq
          obtain rfl : r' = some r₁ := by simpa using hq
          obtain ⟨hrun, hreq⟩ := H.runs (own p _)
          rw [hreq, Sys.put, own_append, own_eq_self hpid]
          exact (hlive p r hp).trans hrun
        · rw [put_procs_ne hpq] at hq
          rw [Sys.put, own_append_ne hpid hpq]
          exact hlive q r₁ hq
      · by_cases hpq : p = q
        · subst hpq
          rw [put_procs_self hp] at hq
          obtain rfl : r' = none := by simpa using hq
          obtain rfl := H.crashed_eq
          exact ⟨r.req, r.prog, _, hlive p r hp, own_cons_self rfl _⟩
        · rw [put_procs_ne hpq] at hq
          rw [Sys.put, own_append_ne hpid hpq]
          exact hdead q hq

/-- The events of any process are a run of some request's program, but for its crash. -/
theorem Reachable.own_runs (hs : Reachable program s) (p : ℕ) (hp : p < s.procs.length) :
    ∃ r m h, Runs p (program r) [] m h ∧
      (own p s.hist = h ∨ own p s.hist = .crashed p :: h) := by
  obtain ⟨-, hlive, hdead⟩ := hs.runs
  cases hr : s.procs[p] with
  | some r =>
    exact ⟨r.req, r.prog, _, hlive p r (List.getElem?_eq_some_iff.2 ⟨hp, hr⟩), .inl rfl⟩
  | none =>
    obtain ⟨r, m, h, hrun, hown⟩ := hdead p (List.getElem?_eq_some_iff.2 ⟨hp, hr⟩)
    exact ⟨r, m, h, hrun, .inr hown⟩

end Soundness

end ReadCommitted
