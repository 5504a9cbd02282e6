import Doda.Lib.RelyGuarantee

/-!
# Rules for single operations

What each statement and each minor call leaves behind, in the form a function's
specification is put together from: the process is still live, it went on from
where it was, and the answer is what the store held.  A failing statement leaves
the transaction broken.

## Main definitions

* `Live` — a transaction that can go on.
* `Broken` — what a failed statement raises into.
* `Safe.step` — run one operation, then the rest.
* `Safe.get`, `Safe.view`, `Safe.forUpdate`, `Safe.insert`, `Safe.tryInsert`,
  `Safe.update`, `Safe.delete`, `Safe.minorCall` — the operations.
-/

namespace ReadCommitted

variable {K : Type} {V : K → Type} {E : Type} {R : E → Type} {ε α β : Type} [DecidableEq K]

/-- The history keeps the contract and the transaction can go on. -/
structure Live (C : Contract V R) (h : History V R) (t : Tx V) : Prop where
  valid : C.Valid h
  sound : t.Sound
  ok : t.failed = false

section

variable [DatabaseError ε]

/-- A statement has failed since `h`, `t`. -/
structure Broken (M : E → Prop) (p : ℕ) (h : History V R) (t : Tx V) (e : ε)
    (h' : History V R) (t' : Tx V) : Prop where
  error : e = databaseError
  failed : t'.failed = true
  onward : Onward M p h t h' t'
  since : FailedSince p h h'

end

variable {M : E → Prop} {C : Contract V R} {p : ℕ} {h : History V R} {t : Tx V}

omit [DecidableEq K] in
theorem Broken.of_onward [DatabaseError ε] {h₁ h' : History V R} {t₁ t' : Tx V} {e : ε}
    (H : Broken M p h₁ t₁ e h' t') (ho : Onward M p h t h₁ t₁) :
    Broken M p h t e h' t' :=
  ⟨H.error, H.failed, ho.trans H.onward, H.since.of_suffix ho.suffix (List.suffix_refl _)⟩

namespace Safe

/-- Run `m`, then `f` with its answer; what breaks `m` breaks the whole. -/
theorem step [DatabaseError ε] {m : Prog V R ε β} {f : β → Prog V R ε α}
    {Q : α → History V R → Tx V → Prop} {X : ε → History V R → Tx V → Prop}
    {Q' : β → History V R → Tx V → Prop} {h₀ : History V R} {t₀ : Tx V}
    (H : Safe C p Q' (Broken M p h t) m h t) (ho : Onward M p h₀ t₀ h t)
    (hX : ∀ e h' t', Broken M p h₀ t₀ e h' t' → X e h' t')
    (hf : ∀ b h' t', Q' b h' t' → Safe C p Q X (f b) h' t') : Safe C p Q X (m >>= f) h t :=
  bind (H.mono (fun _ _ _ => id) fun _ _ _ he => hX _ _ _ (he.of_onward ho)) hf

section Operations

variable [DatabaseError ε]

omit [DecidableEq K] in
/-- A failed statement breaks the transaction. -/
theorem broken_of_others {h' : History V R} (ho : Others p t.locks h h') :
    Broken M p h t (databaseError : ε) (.failed p :: h') { t with failed := true } where
  error := rfl
  failed := rfl
  onward := (Onward.others ho).trans
    (Onward.own (by simp [Event.Inside]) (fun _ hk => hk) (List.suffix_refl _))
  since := by
    obtain ⟨evs, rfl, -⟩ := ho
    exact ⟨.failed p :: evs, rfl, by simp⟩

/-- A completed statement leaves the transaction live. -/
theorem live_of_exec {h' : History V R} {q : Stmt V} {x : q.Res} {busy : K → Bool} {t' : Tx V}
    (hv : C.Valid h') (hs : t.Sound) (hf : t.failed = false)
    (hx : q.exec (committed h') busy t = some (x, t')) : Live C (.ran p q x :: h') t' :=
  ⟨⟨trivial, hv⟩, Stmt.exec_sound hx hs, (Stmt.exec_failed hx).trans hf⟩

theorem get (k : K) :
    Safe C p (fun x h' t' => t' = t ∧ Live C h' t ∧ Onward M p h t h' t ∧
        x = row (t.view (committed h')) k ∧ Event.ran p (.get k) x ∈ h')
      (Broken M p h t) (ReadCommitted.run (.get k) : Prog V R ε _) h t := by
  refine Safe.run fun h' ho hv hs => ⟨fun busy x t' hf hx => ?_, broken_of_others ho⟩
  have hlive := live_of_exec (p := p) hv hs hf hx
  simp only [Stmt.exec, Option.some.injEq, Prod.mk.injEq] at hx
  obtain ⟨rfl, rfl⟩ := hx
  exact ⟨rfl, hlive, (Onward.others ho).trans
    (Onward.own trivial (fun _ hk => hk) (List.suffix_refl _)), rfl, by simp⟩

theorem view :
    Safe C p (fun x h' t' => t' = t ∧ Live C h' t ∧ Onward M p h t h' t ∧
        x = t.view (committed h') ∧ Event.ran p .view x ∈ h')
      (Broken M p h t) (ReadCommitted.run .view : Prog V R ε _) h t := by
  refine Safe.run fun h' ho hv hs => ⟨fun busy x t' hf hx => ?_, broken_of_others ho⟩
  have hlive := live_of_exec (p := p) hv hs hf hx
  simp only [Stmt.exec, Option.some.injEq, Prod.mk.injEq] at hx
  obtain ⟨rfl, rfl⟩ := hx
  exact ⟨rfl, hlive, (Onward.others ho).trans
    (Onward.own trivial (fun _ hk => hk) (List.suffix_refl _)), rfl, by simp⟩

/-- A row that exists is locked. -/
theorem forUpdate (k : K) :
    Safe C p (fun x h' t' => Live C h' t' ∧ Onward M p h t h' t' ∧
        x = row (t.view (committed h')) k ∧
        t' = (if x.isSome then t.lock [k] else t) ∧ Event.ran p (.forUpdate k) x ∈ h')
      (Broken M p h t) (ReadCommitted.run (.forUpdate k) : Prog V R ε _) h t := by
  refine Safe.run fun h' ho hv hs => ⟨fun busy x t' hf hx => ?_, broken_of_others ho⟩
  have hlive := live_of_exec (p := p) hv hs hf hx
  have hlocks := fun k => Stmt.exec_locks_mono hx (k := k)
  simp only [Stmt.exec] at hx
  split at hx
  · simp at hx
  · simp only [Option.some.injEq, Prod.mk.injEq] at hx
    obtain ⟨rfl, rfl⟩ := hx
    refine ⟨hlive, (Onward.others ho).trans (Onward.own trivial (fun k => hlocks k) ?_), rfl, rfl,
      by simp⟩
    split <;> exact List.suffix_refl _

/-- Rows are inserted where there were none. -/
theorem insert (k : K) (v : V k) :
    Safe C p (fun (_ : Unit) h' t' => Live C h' t' ∧ Onward M p h t h' t' ∧
        t' = t.write [⟨k, some v⟩] ∧ row (t.view (committed h')) k = none)
      (Broken M p h t) (ReadCommitted.run (.insert [⟨k, v⟩]) : Prog V R ε Unit) h t := by
  refine Safe.run (q := .insert [⟨k, v⟩])
    fun h' ho hv hs => ⟨fun busy x t' hf hx => ?_, broken_of_others ho⟩
  have hlive := live_of_exec (p := p) hv hs hf hx
  have hlocks := fun k => Stmt.exec_locks_mono hx (k := k)
  simp only [Stmt.exec] at hx
  split at hx
  · simp at hx
  · rename_i hrow
    simp only [Option.some.injEq, Prod.mk.injEq] at hx
    obtain ⟨-, rfl⟩ := hx
    refine ⟨hlive, (Onward.others ho).trans (Onward.own trivial (fun k => hlocks k) ?_), rfl, ?_⟩
    · exact List.suffix_append _ _
    · simpa using (not_or.1 hrow).2

/-- Rows are inserted where there were none, or one of them was there. -/
theorem tryInsert (rows : List (Entry V)) :
    Safe C p (fun (x : Bool) h' t' => Live C h' t' ∧ Onward M p h t h' t' ∧
        ((x = true ∧ t' = t.write (rows.map Entry.version) ∧
            ∀ e ∈ rows, row (t.view (committed h')) e.1 = none) ∨
          (x = false ∧ t' = t ∧ ∃ e ∈ rows, (row (t.view (committed h')) e.1).isSome)))
      (Broken M p h t) (ReadCommitted.run (.tryInsert rows) : Prog V R ε Bool) h t := by
  refine Safe.run (q := .tryInsert rows)
    fun h' ho hv hs => ⟨fun busy x t' hf hx => ?_, broken_of_others ho⟩
  have hlive := live_of_exec (p := p) hv hs hf hx
  have hlocks := fun k => Stmt.exec_locks_mono hx (k := k)
  simp only [Stmt.exec] at hx
  split at hx
  · rename_i hrow
    simp only [Option.some.injEq, Prod.mk.injEq] at hx
    obtain ⟨rfl, rfl⟩ := hx
    refine ⟨hlive, (Onward.others ho).trans
      (Onward.own trivial (fun k => hlocks k) (List.suffix_refl _)), .inr ⟨rfl, rfl, ?_⟩⟩
    simpa using hrow
  · rename_i hrow
    split at hx
    · simp at hx
    · simp only [Option.some.injEq, Prod.mk.injEq] at hx
      obtain ⟨rfl, rfl⟩ := hx
      refine ⟨hlive, (Onward.others ho).trans (Onward.own trivial (fun k => hlocks k) ?_),
        .inl ⟨rfl, rfl, ?_⟩⟩
      · exact List.suffix_append _ _
      · intro e he
        have := (List.any_eq_false.1 (Bool.eq_false_iff.2 hrow)) e he
        simpa using this

/-- A row that exists is changed. -/
theorem update (k : K) (f : V k → V k) :
    Safe C p (fun (_ : Unit) h' t' => Live C h' t' ∧ Onward M p h t h' t' ∧
        ∃ v, row (t.view (committed h')) k = some v ∧ t' = t.write [⟨k, some (f v)⟩])
      (Broken M p h t) (ReadCommitted.run (.update k f) : Prog V R ε Unit) h t := by
  refine Safe.run (q := .update k f)
    fun h' ho hv hs => ⟨fun busy x t' hf hx => ?_, broken_of_others ho⟩
  have hlive := live_of_exec (p := p) hv hs hf hx
  have hlocks := fun k => Stmt.exec_locks_mono hx (k := k)
  simp only [Stmt.exec] at hx
  split at hx
  · simp at hx
  · simp only [Option.map_eq_some_iff, Prod.mk.injEq] at hx
    obtain ⟨v, hrow, -, rfl⟩ := hx
    refine ⟨hlive, (Onward.others ho).trans (Onward.own trivial (fun k => hlocks k) ?_), v, hrow,
      rfl⟩
    exact List.suffix_append _ _

/-- A row is deleted. -/
theorem delete (k : K) :
    Safe C p (fun (_ : Unit) h' t' => Live C h' t' ∧ Onward M p h t h' t' ∧
        t' = t.write [⟨k, none⟩])
      (Broken M p h t) (ReadCommitted.run (.delete k) : Prog V R ε Unit) h t := by
  refine Safe.run (q := .delete k)
    fun h' ho hv hs => ⟨fun busy x t' hf hx => ?_, broken_of_others ho⟩
  have hlive := live_of_exec (p := p) hv hs hf hx
  have hlocks := fun k => Stmt.exec_locks_mono hx (k := k)
  simp only [Stmt.exec] at hx
  split at hx
  · simp at hx
  · simp only [Option.some.injEq, Prod.mk.injEq] at hx
    obtain ⟨-, rfl⟩ := hx
    refine ⟨hlive, (Onward.others ho).trans (Onward.own trivial (fun k => hlocks k) ?_), rfl⟩
    exact List.suffix_append _ _

end Operations

/-- A minor call answers anything. -/
theorem minorCall {e : E} {X : ε → History V R → Tx V → Prop} (hf : t.failed = false)
    (he : M e) (hok : ∀ h, C.callOk h p e) :
    Safe C p (fun x h' t' => t' = t ∧ Live C h' t ∧ ∃ h₁, h' = .called p e x :: h₁ ∧
        Onward M p h t h₁ t ∧ Onward M p h t h' t)
      X (ReadCommitted.call e : Prog V R ε _) h t := by
  refine Safe.call fun h' ho hv hs => ⟨hok h', fun x => ⟨rfl, ⟨⟨hok h', hv⟩, hs, hf⟩, h', rfl, ?_⟩⟩
  exact ⟨Onward.others ho, (Onward.others ho).trans
    (Onward.own he (fun _ hk => hk) (List.suffix_refl _))⟩

end Safe

end ReadCommitted
