import Doda.Lib.Replay

/-!
# Answers over stores

Each answer of a transaction was right over a store that was committed then, at which all
that the transaction had been told before was true.

## Main definitions

* `Seen S evs` — each answer was right over a store of `S`.

## Main results

* `Answered.seen` — in any history, over an earlier committed store.
-/

namespace ReadCommitted

variable {K : Type} {V : K → Type} {E : Type} {R : E → Type} [DecidableEq K]

/-- Each answer was right over some store of `S` at which all that was told before was true. -/
def Seen (S : Store V → Prop) : History V R → Prop
  | [] => True
  | .ran _ q x :: evs => (∃ c, S c ∧ Told c evs ∧ q.Right (replay c evs) x) ∧ Seen S evs
  | _ :: evs => Seen S evs

namespace Seen

variable {S S' : Store V → Prop} {evs new : History V R}

theorem mono (H : Seen S evs) (hS : ∀ c, S c → S' c) : Seen S' evs := by
  induction evs with
  | nil => trivial
  | cons ev evs ih =>
    cases ev with
    | ran p q x =>
      obtain ⟨⟨c, hc, hright⟩, H⟩ := H
      exact ⟨⟨c, hS c hc, hright⟩, ih H⟩
    | called | failed | committed | rolledBack | crashed => exact ih H

theorem of_append (H : Seen S (new ++ evs)) : Seen S evs := by
  induction new with
  | nil => exact H
  | cons ev new ih =>
    cases ev with
    | ran => exact ih H.2
    | called | failed | committed | rolledBack | crashed => exact ih H

theorem of_suffix {evs' : History V R} (H : Seen S evs') (hs : evs <:+ evs') : Seen S evs := by
  obtain ⟨new, rfl⟩ := hs
  exact H.of_append

/-- Each single answer. -/
theorem exists_of_mem {p : ℕ} {q : Stmt V} {x : q.Res} (H : Seen S evs)
    (hmem : .ran p q x ∈ evs) : ∃ evs₀ c, .ran p q x :: evs₀ <:+ evs ∧ S c ∧
      Told c evs₀ ∧ q.Right (replay c evs₀) x := by
  obtain ⟨new, evs₀, rfl⟩ := List.mem_iff_append.1 hmem
  obtain ⟨⟨c, hc, hright⟩, -⟩ := H.of_append
  exact ⟨evs₀, c, List.suffix_append .., hc, hright⟩

end Seen

/-- **The answers of a transaction were right over committed stores.** -/
theorem Answered.seen {h evs : History V R} (H : Answered h evs) :
    Seen (fun c => ∃ h₀, h₀ <:+ h ∧ c = committed h₀) evs := by
  induction evs generalizing h with
  | nil => trivial
  | cons ev evs ih =>
    cases ev with
    | ran p q x =>
      obtain ⟨h₁, hs₁, -, htold, hright, H⟩ := H
      have hs₁ := (List.suffix_cons ..).trans hs₁
      refine ⟨⟨_, ⟨h₁, hs₁, rfl⟩, htold, hright⟩, (ih H).mono ?_⟩
      rintro _ ⟨h₀, hs₀, rfl⟩
      exact ⟨h₀, hs₀.trans hs₁, rfl⟩
    | called | failed | committed | rolledBack | crashed => exact ih H

end ReadCommitted
