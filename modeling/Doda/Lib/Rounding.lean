import Mathlib.Algebra.Order.Archimedean.Basic
import Mathlib.Algebra.Order.BigOperators.Group.List
import Mathlib.Algebra.Order.Floor.Ring
import Mathlib.Data.Rat.Floor
import Mathlib.Tactic.Linarith
import Mathlib.Tactic.NormNum

/-!
# Rounding term by term

Rounding to the nearest integer, ties to the even one, and what becomes of a sum whose
terms are rounded one by one: the errors add up.  A budget that the rounded terms are charged
to bounds them, but for terms that are charged nothing.

## Main definitions

* `roundEven` — the nearest integer, the even one of two.
* `drift f l` — how far the sum of the rounded terms is from the sum.
* `Affordable e f cap` — the lists of terms that a budget admits.

## Main results

* `abs_roundEven_sub_le` — one error is a half at most.
* `drift_bounded_iff` — the drift is bounded, over all lists of the terms of a set that the
  budget admits, exactly when each term is nothing or more than half a unit.
-/

namespace Rounding

/-- The nearest integer, ties to even. -/
def roundEven (q : ℚ) : ℤ :=
  if q - ⌊q⌋ < 1 / 2 then ⌊q⌋
  else if 1 / 2 < q - ⌊q⌋ then ⌊q⌋ + 1
  else if Even ⌊q⌋ then ⌊q⌋
  else ⌊q⌋ + 1

/-- An integer is its own rounding. -/
@[simp] theorem roundEven_intCast (n : ℤ) : roundEven n = n := by
  simp [roundEven]

/-- **One error is a half at most.** -/
theorem abs_roundEven_sub_le (q : ℚ) : |(roundEven q : ℚ) - q| ≤ 1 / 2 := by
  have hle := Int.floor_le q
  have hlt := Int.lt_floor_add_one q
  unfold roundEven
  split_ifs <;> push_cast <;> rw [abs_le] <;> constructor <;> linarith

theorem roundEven_nonneg {q : ℚ} (hq : 0 ≤ q) : 0 ≤ roundEven q := by
  have hfloor := Int.floor_nonneg.2 hq
  unfold roundEven
  split_ifs <;> omega

/-- What rounds to nothing is half a unit at most. -/
theorem roundEven_eq_zero_iff {q : ℚ} (hq : 0 ≤ q) : roundEven q = 0 ↔ q ≤ 1 / 2 := by
  constructor
  · intro h
    have hle := abs_le.1 (abs_roundEven_sub_le q)
    rw [h, Int.cast_zero] at hle
    linarith [hle.1]
  · intro h
    have hfloor : ⌊q⌋ = 0 := Int.floor_eq_zero_iff.2 ⟨hq, by linarith⟩
    simp only [roundEven, hfloor, Int.cast_zero, sub_zero, if_neg (not_lt.2 h), Even.zero, if_true,
      ite_self]

variable {ι : Type*} {f : ι → ℚ}

/-- How far the sum of the rounded terms is from the sum of the terms. -/
def drift (f : ι → ℚ) (l : List ι) : ℚ :=
  ((l.map fun i => roundEven (f i)).sum : ℤ) - (l.map f).sum

@[simp] theorem drift_nil : drift f [] = 0 := by simp [drift]

theorem drift_cons (i : ι) (l : List ι) : drift f (i :: l) = roundEven (f i) - f i + drift f l := by
  simp only [drift, List.map_cons, List.sum_cons, Int.cast_add]
  ring

/-- One error over and over. -/
theorem drift_replicate (n : ℕ) (i : ι) :
    drift f (List.replicate n i) = n * (roundEven (f i) - f i) := by
  induction n with
  | zero => simp
  | succ n ih =>
    rw [List.replicate_succ, drift_cons, ih, Nat.cast_succ]
    ring

/-! ## Within a budget -/

/-- One after another the terms are admitted: what is spent, of rounded terms, and the estimate of
the next are within the cap. -/
def Affordable (e : ι → ℤ) (f : ι → ℚ) (cap : ℤ) : ℤ → List ι → Prop
  | _, [] => True
  | spent, i :: l => spent + e i ≤ cap ∧ Affordable e f cap (spent + roundEven (f i)) l

variable {e : ι → ℤ} {cap : ℤ} {U : Set ι}

/-- A term that rounds to nothing is admitted over and over. -/
theorem affordable_replicate {i : ι} (he : e i ≤ cap) (hi : roundEven (f i) = 0) (n : ℕ) :
    Affordable e f cap 0 (List.replicate n i) := by
  induction n with
  | zero => trivial
  | succ n ih =>
    refine ⟨by rwa [zero_add], ?_⟩
    rwa [hi, zero_add]

/-- **A budget bounds the drift**, where each term is nothing or more than half a unit: each error
uses up a unit of the cap. -/
theorem Affordable.abs_drift_le (hf : ∀ i, 0 ≤ f i) (he : ∀ i, 0 ≤ e i)
    (hU : ∀ i ∈ U, e i ≤ cap → f i = 0 ∨ 1 / 2 < f i) {l : List ι} {spent : ℤ}
    (hspent : 0 ≤ spent) (hl : ∀ i ∈ l, i ∈ U) (h : Affordable e f cap spent l) :
    |drift f l| ≤ (cap - spent + 1).toNat / 2 := by
  induction l generalizing spent with
  | nil => simp; positivity
  | cons i l ih =>
    obtain ⟨hcap, h⟩ := h
    obtain ⟨hi, hl⟩ := List.forall_mem_cons.1 hl
    have hround := roundEven_nonneg (hf i)
    have hle := ih (by omega) hl h
    rw [drift_cons]
    by_cases hzero : roundEven (f i) = 0
    · have hhalf := (roundEven_eq_zero_iff (hf i)).1 hzero
      have hterm := (hU i hi (by have := he i; omega)).resolve_right (not_lt.2 hhalf)
      rw [hzero, add_zero] at hle
      rwa [hzero, hterm, Int.cast_zero, sub_zero, zero_add]
    · have hest := he i
      have hunit : ((cap - (spent + roundEven (f i)) + 1).toNat : ℚ) + 1 ≤
          (cap - spent + 1).toNat := by
        exact_mod_cast (by omega :
          (cap - (spent + roundEven (f i)) + 1).toNat + 1 ≤ (cap - spent + 1).toNat)
      calc |roundEven (f i) - f i + drift f l|
          ≤ |(roundEven (f i) : ℚ) - f i| + |drift f l| := abs_add_le ..
        _ ≤ 1 / 2 + (cap - (spent + roundEven (f i)) + 1).toNat / 2 :=
          add_le_add (abs_roundEven_sub_le _) hle
        _ ≤ (cap - spent + 1).toNat / 2 := by linarith

/-- **Errors add up within a budget**: the drift is bounded over all lists of terms of `U` that the
cap admits exactly where each term is nothing or more than half a unit. -/
theorem drift_bounded_iff (hf : ∀ i, 0 ≤ f i) (he : ∀ i, 0 ≤ e i) (U : Set ι) :
    (∃ B, ∀ l : List ι, (∀ i ∈ l, i ∈ U) → Affordable e f cap 0 l → |drift f l| ≤ B) ↔
      ∀ i ∈ U, e i ≤ cap → f i = 0 ∨ 1 / 2 < f i := by
  constructor
  · rintro ⟨B, hB⟩ i hi hcap
    by_contra hne
    obtain ⟨hne, hhalf⟩ := not_or.1 hne
    -- enough copies of such a term exceed any bound
    have hpos : 0 < f i := lt_of_le_of_ne (hf i) (Ne.symm hne)
    have hzero := (roundEven_eq_zero_iff (hf i)).2 (not_lt.1 hhalf)
    obtain ⟨n, hn⟩ := exists_nat_gt (B / f i)
    have hle := hB (List.replicate n i) (fun j hj => List.eq_of_mem_replicate hj ▸ hi)
      (affordable_replicate hcap hzero n)
    rw [drift_replicate, hzero, Int.cast_zero, zero_sub, mul_neg, abs_neg,
      abs_of_nonneg (mul_nonneg n.cast_nonneg hpos.le)] at hle
    rw [div_lt_iff₀ hpos] at hn
    exact absurd hle (not_le.2 hn)
  · intro hU
    exact ⟨_, fun l hl h => h.abs_drift_le hf he hU le_rfl hl⟩

end Rounding
