import Mathlib.Algebra.BigOperators.Group.List.Basic
import Mathlib.Algebra.Order.Group.Unbundled.Basic
import Mathlib.Algebra.Order.Monoid.Defs
import Mathlib.Logic.Function.Basic
import Mathlib.Order.MinMax
import Mathlib.Tactic.Abel

/-!
# Reservations and settlements

An estimate is reserved on one account before a piece of work, and taken off an account again,
with what the work has cost, afterwards.  The amount that is reserved is never taken below zero.
What has been spent is then what was settled, whatever else happened; nothing stays reserved
exactly where every estimate is taken off the account it was put on; and a cap that is checked
when an estimate is reserved is kept by every settlement that costs no more.

## Main definitions

* `Account`, `Booking` — an account, and one piece of work.
* `accounts` — the accounts after some pieces of work, the newest first.

## Main results

* `spent_accounts`, `reserved_eq_zero_iff`, `accounts_within`.
-/

namespace Reservation

variable {A M : Type}

/-- What an account has reserved, and what it has spent. -/
structure Account (M : Type) where
  reserved : M
  spent : M

/-- One piece of work: the estimate is put on `taken`, and taken off `released` again. -/
structure Booking (A M : Type) where
  taken : A
  released : A
  estimate : M
  cost : M

variable [DecidableEq A] [AddCommGroup M] [LinearOrder M]

/-- The estimate is reserved. -/
def Booking.reserve (b : Booking A M) (f : A → Account M) : A → Account M :=
  Function.update f b.taken { f b.taken with reserved := (f b.taken).reserved + b.estimate }

/-- The estimate is taken off, and the cost is entered. -/
def Booking.settle (b : Booking A M) (f : A → Account M) : A → Account M :=
  Function.update f b.released
    ⟨max 0 ((f b.released).reserved - b.estimate), (f b.released).spent + b.cost⟩

/-- The accounts after some bookings, the newest first. -/
def accounts : List (Booking A M) → A → Account M
  | [] => fun _ => ⟨0, 0⟩
  | b :: bs => b.settle (b.reserve (accounts bs))

variable {b : Booking A M} {bs : List (Booking A M)} {a : A}

@[simp] theorem accounts_nil (a : A) : accounts ([] : List (Booking A M)) a = ⟨0, 0⟩ := rfl

theorem accounts_cons_released : accounts (b :: bs) b.released =
    ⟨max 0 ((b.reserve (accounts bs) b.released).reserved - b.estimate),
      (b.reserve (accounts bs) b.released).spent + b.cost⟩ :=
  Function.update_self ..

theorem accounts_cons_of_ne (ha : a ≠ b.released) :
    accounts (b :: bs) a = b.reserve (accounts bs) a :=
  Function.update_of_ne ha ..

omit [LinearOrder M] in
theorem reserve_taken (f : A → Account M) :
    b.reserve f b.taken = ⟨(f b.taken).reserved + b.estimate, (f b.taken).spent⟩ :=
  Function.update_self ..

omit [LinearOrder M] in
theorem reserve_of_ne (f : A → Account M) (ha : a ≠ b.taken) : b.reserve f a = f a :=
  Function.update_of_ne ha ..

omit [LinearOrder M] in
@[simp] theorem reserve_spent (f : A → Account M) (a : A) :
    (b.reserve f a).spent = (f a).spent := by
  by_cases ha : a = b.taken
  · rw [ha, reserve_taken]
  · rw [reserve_of_ne f ha]

/-! ## What is spent -/

/-- **What an account has spent** is what was settled on it. -/
theorem spent_accounts (bs : List (Booking A M)) (a : A) :
    (accounts bs a).spent = ((bs.filter (·.released = a)).map (·.cost)).sum := by
  induction bs with
  | nil => rfl
  | cons b bs ih =>
    by_cases ha : b.released = a
    · subst ha
      rw [accounts_cons_released, reserve_spent, ih, List.filter_cons_of_pos (by simp),
        List.map_cons, List.sum_cons, add_comm]
    · rw [accounts_cons_of_ne (Ne.symm ha), reserve_spent, ih,
        List.filter_cons_of_neg (by simpa using ha)]

/-! ## What is reserved -/

/-- Where nothing is reserved, a booking leaves nothing reserved if and only if its estimate is
taken off where it was put, or is nothing. -/
theorem reserved_cons_eq_zero_iff (hbs : ∀ a, (accounts bs a).reserved = 0) :
    (∀ a, (accounts (b :: bs) a).reserved = 0) ↔ b.taken = b.released ∨ b.estimate = 0 := by
  constructor
  · intro H
    by_cases heq : b.taken = b.released
    · exact .inl heq
    · have htaken := H b.taken
      rw [accounts_cons_of_ne heq, reserve_taken, hbs, zero_add] at htaken
      exact .inr htaken
  · intro H a
    by_cases ha : a = b.released
    · subst ha
      rw [accounts_cons_released]
      rcases H with heq | hzero
      · rw [← heq, reserve_taken, hbs, zero_add, sub_self, max_self]
      · rw [hzero, sub_zero]
        by_cases heq : b.released = b.taken
        · rw [heq, reserve_taken, hbs, hzero, add_zero, max_self]
        · rw [reserve_of_ne _ heq, hbs, max_self]
    · rw [accounts_cons_of_ne ha]
      by_cases htaken : a = b.taken
      · subst htaken
        rw [reserve_taken, hbs, zero_add]
        exact H.resolve_left ha
      · rw [reserve_of_ne _ htaken, hbs]

/-- **Nothing is ever left reserved** exactly where every estimate is taken off where it was put,
or is nothing. -/
theorem reserved_eq_zero_iff (bs : List (Booking A M)) :
    (∀ bs', bs' <:+ bs → ∀ a, (accounts bs' a).reserved = 0) ↔
      ∀ b ∈ bs, b.taken = b.released ∨ b.estimate = 0 := by
  induction bs with
  | nil =>
    refine iff_of_true (fun bs' hle a => ?_) (by simp)
    rw [List.suffix_nil.1 hle]
    rfl
  | cons b bs ih =>
    rw [List.forall_mem_cons, ← ih]
    constructor
    · intro H
      have hbs : ∀ bs', bs' <:+ bs → ∀ a, (accounts bs' a).reserved = 0 :=
        fun bs' hle => H bs' (hle.trans (List.suffix_cons ..))
      exact ⟨(reserved_cons_eq_zero_iff (hbs bs (List.suffix_refl _))).1
        (H _ (List.suffix_refl _)), hbs⟩
    · rintro ⟨hb, hbs⟩ bs' hle
      rcases List.suffix_cons_iff.1 hle with rfl | hle
      · exact (reserved_cons_eq_zero_iff (hbs bs (List.suffix_refl _))).2 hb
      · exact hbs bs' hle

variable [IsOrderedAddMonoid M]

theorem reserved_nonneg (hbs : ∀ b ∈ bs, 0 ≤ b.estimate) (a : A) :
    0 ≤ (accounts bs a).reserved := by
  induction bs with
  | nil => exact le_rfl
  | cons b bs ih =>
    obtain ⟨hb, hbs⟩ := List.forall_mem_cons.1 hbs
    by_cases ha : a = b.released
    · subst ha
      rw [accounts_cons_released]
      exact le_max_left ..
    · rw [accounts_cons_of_ne ha]
      by_cases htaken : a = b.taken
      · subst htaken
        rw [reserve_taken]
        exact add_nonneg (ih hbs) hb
      · rw [reserve_of_ne _ htaken]
        exact ih hbs

/-! ## The cap -/

/-- Every estimate was within the cap when it was reserved. -/
def Checked (cap : M) (bs : List (Booking A M)) : Prop :=
  ∀ b bs', b :: bs' <:+ bs →
    (accounts bs' b.taken).reserved + (accounts bs' b.taken).spent + b.estimate ≤ cap

omit [IsOrderedAddMonoid M] in
theorem Checked.tail {cap : M} (H : Checked cap (b :: bs)) : Checked cap bs :=
  fun b' bs' hle => H b' bs' (hle.trans (List.suffix_cons ..))

/-- **An account that was booked on is within the cap**, unless something was settled on it that
cost more than its estimate, or was reserved on another. -/
theorem accounts_within {cap : M} (hbs : ∀ b ∈ bs, 0 ≤ b.estimate) (hcap : Checked cap bs)
    (ha : ∃ b ∈ bs, b.taken = a ∨ b.released = a) :
    (accounts bs a).reserved + (accounts bs a).spent ≤ cap ∨
      ∃ b ∈ bs, b.released = a ∧ (b.estimate < b.cost ∨ b.taken ≠ a) := by
  induction bs with
  | nil =>
    obtain ⟨b, hb, -⟩ := ha
    cases hb
  | cons b bs ih =>
    have hchecked := hcap b bs (List.suffix_refl _)
    by_cases hreleased : b.released = a
    · subst hreleased
      by_cases hover : b.estimate < b.cost ∨ b.taken ≠ b.released
      · exact .inr ⟨b, List.mem_cons_self .., rfl, hover⟩
      · obtain ⟨hcost, htaken⟩ := not_or.1 hover
        have heq : b.taken = b.released := not_not.1 htaken
        have hnonneg := reserved_nonneg (List.forall_mem_cons.1 hbs).2 b.released
        left
        rw [heq] at hchecked
        rw [accounts_cons_released, ← heq, reserve_taken, heq, add_sub_cancel_right,
          max_eq_right hnonneg, ← add_assoc]
        exact (add_le_add_right (not_lt.1 hcost) _).trans hchecked
    · rw [accounts_cons_of_ne (Ne.symm hreleased)]
      by_cases htaken : b.taken = a
      · subst htaken
        left
        rw [reserve_taken]
        calc (accounts bs b.taken).reserved + b.estimate + (accounts bs b.taken).spent
            = (accounts bs b.taken).reserved + (accounts bs b.taken).spent + b.estimate := by abel
          _ ≤ cap := hchecked
      · rw [reserve_of_ne _ (Ne.symm htaken)]
        obtain ⟨b', hb', hor⟩ := ha
        have hmem : b' ∈ bs := by
          rcases List.mem_cons.1 hb' with rfl | hmem
          · exact (hor.elim htaken hreleased).elim
          · exact hmem
        rcases ih (List.forall_mem_cons.1 hbs).2 hcap.tail ⟨b', hmem, hor⟩ with
          hwithin | ⟨b'', hmem', hover⟩
        · exact .inl hwithin
        · exact .inr ⟨b'', List.mem_cons_of_mem _ hmem', hover⟩

end Reservation
