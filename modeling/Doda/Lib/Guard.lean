import Doda.Lib.RelyGuarantee

/-!
# Guards

A row that is written with every new row of a table serves as the table's lock: who holds it
sees no new row there, whatever the others commit.

## Main definitions

* `Contract.Guards C g k` — what is put under `k` is committed with a version of `g`.
* `Unmoved g h h'` — from `h` to `h'` nobody has committed a version of `g`.

## Main results

* `Onward.unmoved` — a process that holds `g`.
* `Unmoved.row_eq_or` — the rows that `g` guards.
-/

namespace ReadCommitted

variable {K : Type} {V : K → Type} {E : Type} {R : E → Type}

/-- No commit from `h` to `h'` writes the row. -/
def Unmoved (g : K) (h h' : History V R) : Prop :=
  Extends (fun ev : Event V R => g ∉ keys ev.writes) h h'

theorem Unmoved.refl (g : K) (h : History V R) : Unmoved g h h := Extends.refl h

theorem Unmoved.trans {g : K} {h h' h'' : History V R} (H : Unmoved g h h')
    (H' : Unmoved g h' h'') : Unmoved g h h'' :=
  Extends.trans H H'

/-- Nobody else writes what a process has locked, and it commits nothing itself. -/
theorem Onward.unmoved {M : E → Prop} {p : ℕ} {h h' : History V R} {t t' : Tx V} {g : K}
    (H : Onward M p h t h' t') (hg : g ∈ t.locks) : Unmoved g h h' :=
  H.later.mono fun _ hev => hev.1 g hg

theorem Others.unmoved {p : ℕ} {L : List K} {h h' : History V R} {g : K}
    (H : Others p L h h') (hg : g ∈ L) : Unmoved g h h' :=
  H.mono fun _ hev => hev.2 g hg

variable [DecidableEq K]

/-- Every commit that puts something under `k` writes `g` too. -/
def Contract.Guards (C : Contract V R) (g k : K) : Prop :=
  ∀ h p w, C.commitOk h p w → (row w k).isSome → g ∈ keys w

/-- **What is guarded stays, or goes**, while nobody moves the guard. -/
theorem Unmoved.row_eq_or {C : Contract V R} {g k : K} {h h' : History V R}
    (H : Unmoved g h h') (hC : C.Guards g k) (hv : C.Valid h') :
    row (committed h') k = row (committed h) k ∨ row (committed h') k = none := by
  obtain ⟨evs, rfl, hevs⟩ := H
  induction evs with
  | nil => exact .inl rfl
  | cons ev evs ih =>
    have ih := ih (fun e he => hevs e (List.mem_cons_of_mem _ he)) hv.2
    rw [List.cons_append, committed_cons]
    by_cases hk : k ∈ keys ev.writes
    · right
      rw [row_append_of_mem _ hk]
      cases ev with
      | committed p w =>
        have hguard : g ∉ keys w := hevs _ (List.mem_cons_self ..)
        have hnone := mt (hC _ _ _ hv.1) hguard
        exact Option.not_isSome_iff_eq_none.1 hnone
      | ran | called | failed | rolledBack | crashed => cases hk
    · rw [row_append_of_notMem _ hk]
      exact ih

end ReadCommitted
