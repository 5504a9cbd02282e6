import Doda.Lib.Statements

/-!
# Frames

Most of a program does not touch what a property is about.  `Only S M T` says of a
program, whatever it is answered, that it runs statements of `S`, makes calls of
`M`, and ends transactions only if `T`; it is shown by going through the program's
text once.  `Only.safe` then gives its specification: anything that such statements
and calls leave alone is left alone by the program.

## Main definitions

* `Stmt.WritesOnly P` — the statement writes rows of `P` only.
* `Only S M T m` — the operations of a program.
* `Steady C p S M T I` — the operations leave `I` alone.
* `Only.safe` — the frame rule.
* `Apart minor P` — a transaction went on and wrote rows of `P` only; `Only.apart`.
-/

namespace ReadCommitted

variable {K : Type} {V : K → Type} {E : Type} {R : E → Type} {ε α β : Type}

/-- The statement writes rows of `P` only. -/
def Stmt.WritesOnly (P : K → Prop) : Stmt V → Prop
  | .get _ | .view | .forUpdate _ | .skipLocked _ _ => True
  | .insert rows | .tryInsert rows => ∀ e ∈ rows, P e.1
  | .update k _ | .delete k => P k

theorem Stmt.WritesOnly.mono {P Q : K → Prop} {q : Stmt V} (hq : q.WritesOnly P)
    (hP : ∀ k, P k → Q k) : q.WritesOnly Q := by
  cases q with
  | get | view | forUpdate | skipLocked => trivial
  | insert rows | tryInsert rows => exact fun e he => hP _ (hq e he)
  | update k f => exact hP _ hq
  | delete k => exact hP _ hq

/-- What a statement adds to the writes, and that it keeps locks. -/
theorem Stmt.exec_writes [DecidableEq K] {P : K → Prop} {q : Stmt V} (hq : q.WritesOnly P)
    {c : Store V} {busy : K → Bool} {t t' : Tx V} {x : q.Res}
    (hx : q.exec c busy t = some (x, t')) :
    ∃ vs, t'.writes = vs ++ t.writes ∧ ∀ k ∈ keys vs, P k := by
  cases q with
  | get | view =>
    simp only [exec, Option.some.injEq, Prod.mk.injEq] at hx
    exact ⟨[], by simp [hx.2], by simp⟩
  | forUpdate k =>
    simp only [exec] at hx
    split at hx
    · simp at hx
    · simp only [Option.some.injEq, Prod.mk.injEq] at hx
      obtain ⟨-, rfl⟩ := hx
      refine ⟨[], ?_, by simp⟩
      split <;> rfl
  | skipLocked sel n =>
    simp only [exec, Option.some.injEq, Prod.mk.injEq] at hx
    obtain ⟨-, rfl⟩ := hx
    exact ⟨[], rfl, by simp⟩
  | insert rows =>
    simp only [exec] at hx
    split at hx
    · simp at hx
    · simp only [Option.some.injEq, Prod.mk.injEq] at hx
      obtain ⟨-, rfl⟩ := hx
      refine ⟨(rows.map Entry.version).reverse, rfl, ?_⟩
      intro k hk
      simp only [keys, List.map_reverse, List.mem_reverse] at hk
      rw [← keys, keys_version] at hk
      obtain ⟨e, he, rfl⟩ := List.mem_map.1 hk
      exact hq e he
  | tryInsert rows =>
    simp only [exec] at hx
    split at hx
    · simp only [Option.some.injEq, Prod.mk.injEq] at hx
      obtain ⟨-, rfl⟩ := hx
      exact ⟨[], rfl, by simp⟩
    · split at hx
      · simp at hx
      · simp only [Option.some.injEq, Prod.mk.injEq] at hx
        obtain ⟨-, rfl⟩ := hx
        refine ⟨(rows.map Entry.version).reverse, rfl, ?_⟩
        intro k hk
        simp only [keys, List.map_reverse, List.mem_reverse] at hk
        rw [← keys, keys_version] at hk
        obtain ⟨e, he, rfl⟩ := List.mem_map.1 hk
        exact hq e he
  | update k f =>
    simp only [exec] at hx
    split at hx
    · simp at hx
    · simp only [Option.map_eq_some_iff, Prod.mk.injEq] at hx
      obtain ⟨v, -, -, rfl⟩ := hx
      refine ⟨[⟨k, some (f v)⟩], rfl, ?_⟩
      intro k' hk'
      rw [List.mem_singleton.1 hk']
      exact hq
  | delete k =>
    simp only [exec] at hx
    split at hx
    · simp at hx
    · simp only [Option.some.injEq, Prod.mk.injEq] at hx
      obtain ⟨-, rfl⟩ := hx
      refine ⟨[⟨k, none⟩], rfl, ?_⟩
      intro k' hk'
      rw [List.mem_singleton.1 hk']
      exact hq

/-- Whatever it is answered, the program runs statements of `S`, makes calls of `M`,
and commits and rolls back only if `T`. -/
def Only (S : Stmt V → Prop) (M : E → Prop) (T : Prop) : Prog V R ε α → Prop
  | .pure _ | .throw _ => True
  | .stmt q k => S q ∧ ∀ x, Only S M T (k x)
  | .call e k => M e ∧ ∀ x, Only S M T (k x)
  | .commit k => T ∧ ∀ b, Only S M T (k b)
  | .rollback k => T ∧ Only S M T k

namespace Only

variable {S S' : Stmt V → Prop} {M M' : E → Prop} {T T' : Prop}

@[simp] theorem pure (a : α) : Only S M T (Pure.pure a : Prog V R ε α) := trivial
@[simp] theorem throw (e : ε) : Only S M T (MonadExcept.throw e : Prog V R ε α) := trivial

theorem bind {m : Prog V R ε β} {f : β → Prog V R ε α} (hm : Only S M T m)
    (hf : ∀ b, Only S M T (f b)) : Only S M T (m >>= f) := by
  change Only S M T (m.bind f)
  induction m with
  | pure a => exact hf a
  | throw e => trivial
  | stmt q k ih | call e k ih | commit k ih => exact ⟨hm.1, fun x => ih x (hm.2 x)⟩
  | rollback k ih => exact ⟨hm.1, ih hm.2⟩

theorem tryCatch {m : Prog V R ε α} {f : ε → Prog V R ε α} (hm : Only S M T m)
    (hf : ∀ e, Only S M T (f e)) : Only S M T (MonadExcept.tryCatch m f) := by
  change Only S M T (m.tryCatch f)
  induction m with
  | pure a => trivial
  | throw e => exact hf e
  | stmt q k ih | call e k ih | commit k ih => exact ⟨hm.1, fun x => ih x (hm.2 x)⟩
  | rollback k ih => exact ⟨hm.1, ih hm.2⟩

theorem map {m : Prog V R ε β} (f : β → α) (hm : Only S M T m) : Only S M T (f <$> m) :=
  hm.bind fun _ => trivial

theorem mono {m : Prog V R ε α} (hm : Only S M T m) (hS : ∀ q, S q → S' q)
    (hM : ∀ e, M e → M' e) (hT : T → T') : Only S' M' T' m := by
  induction m with
  | pure a => trivial
  | throw e => trivial
  | stmt q k ih => exact ⟨hS q hm.1, fun x => ih x (hm.2 x)⟩
  | call e k ih => exact ⟨hM e hm.1, fun x => ih x (hm.2 x)⟩
  | commit k ih => exact ⟨hT hm.1, fun x => ih x (hm.2 x)⟩
  | rollback k ih => exact ⟨hT hm.1, ih hm.2⟩

variable [DatabaseError ε]

theorem run {q : Stmt V} (hq : S q) : Only S M T (ReadCommitted.run q : Prog V R ε _) := by
  refine ⟨hq, fun x => ?_⟩
  cases x <;> trivial

omit [DatabaseError ε] in
theorem call {e : E} (he : M e) : Only S M T (ReadCommitted.call e : Prog V R ε _) :=
  ⟨he, fun _ => trivial⟩

theorem atomically {m : Prog V R ε α} (hT : T) (hm : Only S M T m) :
    Only S M T (ReadCommitted.atomically m) := by
  refine tryCatch (bind hm fun a => bind ⟨hT, fun b => ?_⟩ fun _ => trivial) fun e => ⟨hT, trivial⟩
  cases b <;> trivial

end Only

/-- Statements of `S`, calls of `M` and, if `T`, ends of transactions leave `I` alone,
and so do the others. -/
structure Steady [DecidableEq K] (C : Contract V R) (p : ℕ) (S : Stmt V → Prop) (M : E → Prop)
    (T : Prop) (I : History V R → Tx V → Prop) : Prop where
  others : ∀ {h h' t}, I h t → Others p t.locks h h' → C.Valid h' → I h' t
  exec : ∀ {q : Stmt V} {h t busy x t'}, S q → C.Valid h → t.Sound → t.failed = false → I h t →
    q.exec (committed h) busy t = some (x, t') → I (.ran p q x :: h) t'
  failed : ∀ {h t}, C.Valid h → I h t → I (.failed p :: h) { t with failed := true }
  called : ∀ {e h t}, M e → C.Valid h → I h t →
    C.callOk h p e ∧ ∀ x, I (.called p e x :: h) t
  committed : ∀ {h t}, T → C.Valid h → t.Sound → t.failed = false → I h t →
    C.commitOk h p t.writes ∧ I (.committed p t.writes :: h) {} ∧
      I (.failed p :: .committed p t.writes :: h) { failed := true }
  rolledBack : ∀ {h t}, T → C.Valid h → I h t → I (.rolledBack p :: h) {}

/-- An invariant that is claimed of valid histories only. -/
theorem Steady.ofValid [DecidableEq K] {C : Contract V R} {p : ℕ} {S : Stmt V → Prop}
    {M : E → Prop} {T : Prop} {I : History V R → Tx V → Prop} (H : Steady C p S M T I) :
    Steady C p S M T fun h t => C.Valid h → I h t where
  others hI ho hv _ := H.others (hI (hv.suffix ho.suffix)) ho hv
  exec hq hv hs hf hI hx _ := H.exec hq hv hs hf (hI hv) hx
  failed hv hI _ := H.failed hv (hI hv)
  called he hv hI := ⟨(H.called he hv (hI hv)).1, fun x _ => (H.called he hv (hI hv)).2 x⟩
  committed hT hv hs hf hI := by
    obtain ⟨h₁, h₂, h₃⟩ := H.committed hT hv hs hf (hI hv)
    exact ⟨h₁, fun _ => h₂, fun _ => h₃⟩
  rolledBack hT hv hI _ := H.rolledBack hT hv (hI hv)

/-- An invariant, after some moment. -/
theorem Steady.since [DecidableEq K] {C : Contract V R} {p : ℕ} {S : Stmt V → Prop}
    {M : E → Prop} {T : Prop} {I : History V R → Tx V → Prop} (H : Steady C p S M T I)
    (h₀ : History V R) : Steady C p S M T fun h t => h₀ <:+ h ∧ I h t where
  others hI ho hv := ⟨hI.1.trans ho.suffix, H.others hI.2 ho hv⟩
  exec hq hv hs hf hI hx := ⟨hI.1.trans (List.suffix_cons ..), H.exec hq hv hs hf hI.2 hx⟩
  failed hv hI := ⟨hI.1.trans (List.suffix_cons ..), H.failed hv hI.2⟩
  called he hv hI :=
    ⟨(H.called he hv hI.2).1,
      fun x => ⟨hI.1.trans (List.suffix_cons ..), (H.called he hv hI.2).2 x⟩⟩
  committed hT hv hs hf hI := by
    obtain ⟨h₁, h₂, h₃⟩ := H.committed hT hv hs hf hI.2
    exact ⟨h₁, ⟨hI.1.trans (List.suffix_cons ..), h₂⟩,
      hI.1.trans ((List.suffix_cons ..).trans (List.suffix_cons ..)), h₃⟩
  rolledBack hT hv hI := ⟨hI.1.trans (List.suffix_cons ..), H.rolledBack hT hv hI.2⟩

/-- **The frame rule.** -/
theorem Only.safe [DecidableEq K] {S : Stmt V → Prop} {M : E → Prop} {T : Prop}
    {C : Contract V R} {p : ℕ} {I : History V R → Tx V → Prop} (hI : Steady C p S M T I)
    {m : Prog V R ε α} (hm : Only S M T m) {h : History V R} {t : Tx V} (hh : I h t) :
    Safe C p (fun _ => I) (fun _ => I) m h t := by
  induction m generalizing h t with
  | pure a => exact hh
  | throw e => exact hh
  | stmt q k ih =>
    intro h' ho hv hs
    have hh' := hI.others hh ho hv
    exact ⟨fun busy x t' hf hx => ih _ (hm.2 _) (hI.exec hm.1 hv hs hf hh' hx),
      ih _ (hm.2 _) (hI.failed hv hh')⟩
  | call e k ih =>
    intro h' ho hv hs
    have hh' := hI.called hm.1 hv (hI.others hh ho hv)
    exact ⟨hh'.1, fun x => ih _ (hm.2 _) (hh'.2 x)⟩
  | commit k ih =>
    intro h' ho hv hs
    have hh' := hI.others hh ho hv
    refine ⟨fun hf => ?_, ih _ (hm.2 _) (hI.failed hv hh')⟩
    obtain ⟨h₁, h₂, h₃⟩ := hI.committed hm.1 hv hs hf hh'
    exact ⟨h₁, ih _ (hm.2 _) h₂, ih _ (hm.2 _) h₃⟩
  | rollback k ih =>
    intro h' ho hv _
    exact ih hm.2 (hI.rolledBack hm.1 hv (hI.others hh ho hv))

/-! ## Working on other rows -/

/-- Process `p` went on inside its transaction, and wrote rows of `P` only. -/
structure Apart (minor : E → Prop) (P : K → Prop) (p : ℕ) (h : History V R) (t : Tx V)
    (h' : History V R) (t' : Tx V) : Prop where
  onward : Onward minor p h t h' t'
  writes : ∃ vs, t'.writes = vs ++ t.writes ∧ ∀ k ∈ keys vs, P k

namespace Apart

variable {minor : E → Prop} {P P' : K → Prop} {p : ℕ} {h h' h'' : History V R} {t t' t'' : Tx V}

theorem refl (h : History V R) (t : Tx V) : Apart minor P p h t h t :=
  ⟨.refl h t, [], rfl, by simp⟩

theorem trans (H : Apart minor P p h t h' t') (H' : Apart minor P p h' t' h'' t'') :
    Apart minor P p h t h'' t'' := by
  obtain ⟨ho, vs, hw, hvs⟩ := H
  obtain ⟨ho', vs', hw', hvs'⟩ := H'
  refine ⟨ho.trans ho', vs' ++ vs, by rw [hw', hw, List.append_assoc], ?_⟩
  rw [keys_append, List.forall_mem_append]
  exact ⟨hvs', hvs⟩

theorem mono (H : Apart minor P p h t h' t') (hP : ∀ k, P k → P' k) :
    Apart minor P' p h t h' t' := by
  obtain ⟨ho, vs, hw, hvs⟩ := H
  exact ⟨ho, vs, hw, fun k hk => hP k (hvs k hk)⟩

/-- Others move. -/
theorem others (H : Others p t.locks h h') : Apart minor P p h t h' t :=
  ⟨.others H, [], rfl, by simp⟩

/-- Up to a step of its own, the process only waited. -/
theorem stay (H : Onward minor p h t h' t') : Apart minor P p h t h' t :=
  ⟨⟨H.later, fun _ hk => hk, List.suffix_refl _⟩, [], rfl, by simp⟩

/-- A row that is not written has the same versions in the transaction. -/
theorem mem_writes (H : Apart minor P p h t h' t') {k : K} (hk : ¬ P k) :
    k ∈ keys t'.writes ↔ k ∈ keys t.writes := by
  obtain ⟨-, vs, hw, hvs⟩ := H
  rw [hw, keys_append, List.mem_append, or_iff_right fun hmem => hk (hvs k hmem)]

/-- Over the same store, the transaction sees it as before. -/
theorem row_view [DecidableEq K] (H : Apart minor P p h t h' t') {k : K} (hk : ¬ P k)
    (c : Store V) : row (t'.view c) k = row (t.view c) k := by
  obtain ⟨-, vs, hw, hvs⟩ := H
  rw [Tx.view, hw, List.append_assoc, row_append_of_notMem _ fun hmem => hk (hvs k hmem)]
  rfl

/-- The transaction's own version of such a row is what it was. -/
theorem row_writes [DecidableEq K] (H : Apart minor P p h t h' t') {k : K} (hk : ¬ P k) :
    row t'.writes k = row t.writes k := by
  have hview := H.row_view hk []
  rwa [Tx.view, Tx.view, List.append_nil, List.append_nil] at hview

/-- What was written stays written. -/
theorem keys_writes (H : Apart minor P p h t h' t') : ∀ k ∈ keys t.writes, k ∈ keys t'.writes := by
  obtain ⟨-, vs, hw, -⟩ := H
  intro k hk
  rw [hw, keys_append]
  exact List.mem_append_right _ hk

end Apart

/-- **A program that writes rows of `P` only leaves the others alone.** -/
theorem Only.apart [DecidableEq K] {minor : E → Prop} {P : K → Prop} {C : Contract V R} {p : ℕ}
    (hC : ∀ h e, minor e → C.callOk h p e) {m : Prog V R ε α}
    (hm : Only (·.WritesOnly P) minor False m) (h : History V R) (t : Tx V) :
    Safe C p (fun _ => Apart minor P p h t) (fun _ => Apart minor P p h t) m h t := by
  refine hm.safe (I := Apart minor P p h t) ⟨?_, ?_, ?_, ?_, ?_, ?_⟩ (.refl h t)
  · intro h₁ h₂ t₁ H ho _
    exact H.trans (.others ho)
  · intro q h₁ t₁ busy x t₂ hq _ _ _ H hx
    obtain ⟨vs, hw, hvs⟩ := Stmt.exec_writes hq hx
    refine H.trans ⟨.own trivial (fun k hk => Stmt.exec_locks_mono hx hk) ?_, vs, hw, hvs⟩
    exact hw ▸ List.suffix_append _ _
  · intro h₁ t₁ _ H
    exact H.trans ⟨.own trivial (fun _ hk => hk) (List.suffix_refl _), [], rfl, by simp⟩
  · intro e h₁ t₁ he _ H
    refine ⟨hC h₁ e he, fun x => H.trans ?_⟩
    refine ⟨.own he (fun _ hk => hk) (List.suffix_refl _), [], rfl, ?_⟩
    simp
  · exact fun hT => hT.elim
  · exact fun hT => hT.elim

end ReadCommitted
