import Mathlib.Data.List.Sort
import Mathlib.Order.Basic

/-!
# Paging by the last key seen

A reader takes a listing page by page, and asks for each page by the last element of
the page before: the next page holds what comes after that element's place.  A full
page is followed by another, a short one is the last.  If what comes after a place
does not change while the reader is on the way, the pages together are the listing.

## Main definitions

* `Walk read n i before pages` — the pages from the `i`-th request on.

## Main results

* `Keyset.flatten_eq` — the pages together are the listing.
* `Keyset.exists_walk` — a last page is reached.
-/

variable {A P : Type*} [LinearOrder P]

/-- Page after page of size `n`: `read i before page` says that the `i`-th request, for what comes
after `before`, is answered with `page`. -/
inductive Walk (read : ℕ → Option A → List A → Prop) (n : ℕ) :
    ℕ → Option A → List (List A) → Prop
  | short {i : ℕ} {before : Option A} {page : List A} (hread : read i before page)
      (hshort : page.length < n) : Walk read n i before [page]
  | full {i : ℕ} {before : Option A} {page : List A} {last : A} {pages : List (List A)}
      (hread : read i before page) (hfull : page.length = n) (hlast : page.getLast? = some last)
      (hrest : Walk read n (i + 1) (some last) pages) : Walk read n i before (page :: pages)

/-- Strictly descending places. -/
def Descending (place : A → P) (l : List A) : Prop := l.Pairwise fun a b => place b < place a

/-- Descending lists of the same elements are one list. -/
theorem Descending.eq_of_mem_iff {place : A → P} {l l' : List A} (hl : Descending place l)
    (hl' : Descending place l') (h : ∀ a, a ∈ l ↔ a ∈ l') : l = l' := by
  have hnodup : ∀ {l : List A}, Descending place l → l.Nodup := fun hl =>
    hl.imp fun {a b} hab heq => by
      rw [heq] at hab
      exact lt_irrefl _ hab
  have hperm := (List.perm_ext_iff_of_nodup (hnodup hl) (hnodup hl')).2 h
  exact hperm.eq_of_pairwise (fun a b _ _ hab hba => absurd hab (lt_asymm hba)) hl hl'

/-- What comes after a place in a listing. -/
def after (place : A → P) (l : List A) : Option A → List A
  | none => l
  | some e => l.filter fun a => place a < place e

/-- The requests are answered from one listing. -/
structure Keyset (place : A → P) (read : ℕ → Option A → List A → Prop) (n : ℕ) (l : List A) :
    Prop where
  descending : Descending place l
  pos : 0 < n
  /-- The first request is for the beginning, and every other for what comes after an element. -/
  read_iff : ∀ {i before page}, (before = none → i = 0) → (∀ e, before = some e → e ∈ l) →
    (read i before page ↔ page = (after place l before).take n)

namespace Keyset

variable {place : A → P} {read : ℕ → Option A → List A → Prop} {n i : ℕ} {l : List A}
  {before : Option A} {last : A} {pages : List (List A)}

/-- **What comes after a page** is what comes after its last element. -/
theorem filter_last (hl : Descending place l) (hlast : (l.take n).getLast? = some last) :
    l.filter (fun a => place a < place last) = l.drop n := by
  obtain ⟨front, hfront⟩ := List.getLast?_eq_some_iff.1 hlast
  have hsplit : l = front ++ last :: l.drop n := by
    conv_lhs => rw [← List.take_append_drop n l, hfront]
    simp
  have hpair := hl
  rw [Descending, hsplit, List.pairwise_append, List.pairwise_cons] at hpair
  obtain ⟨-, ⟨hbehind, -⟩, hbefore⟩ := hpair
  have hdropped : front.filter (fun a => place a < place last) = [] := by
    rw [List.filter_eq_nil_iff]
    intro a ha
    simpa using (hbefore a ha last List.mem_cons_self).le
  have hkept : (l.drop n).filter (fun a => place a < place last) = l.drop n := by
    rw [List.filter_eq_self]
    intro a ha
    simpa using hbehind a ha
  conv_lhs => rw [hsplit]
  rw [List.filter_append, hdropped, List.filter_cons_of_neg (by simp), hkept, List.nil_append]

theorem after_descending (hl : Descending place l) : Descending place (after place l before) := by
  cases before with
  | none => exact hl
  | some e => exact hl.filter _

theorem mem_of_mem_after (h : last ∈ after place l before) : last ∈ l := by
  cases before with
  | none => exact h
  | some e => exact (List.mem_filter.1 h).1

/-- After an element of what comes after a place. -/
theorem after_last (h : last ∈ after place l before) :
    (after place l before).filter (fun a => place a < place last) = after place l (some last) := by
  cases before with
  | none => rfl
  | some e =>
    have hlast : place last < place e := by simpa [after] using (List.mem_filter.1 h).2
    rw [after, after, List.filter_filter]
    refine List.filter_congr fun a _ => ?_
    by_cases ha : place a < place last
    · simp [ha, ha.trans hlast]
    · simp [ha]

/-- What a full page leaves. -/
theorem after_page (H : Keyset place read n l)
    (hlast : ((after place l before).take n).getLast? = some last) :
    last ∈ l ∧ after place l (some last) = (after place l before).drop n := by
  have hmem : last ∈ after place l before :=
    List.mem_of_mem_take (List.mem_of_getLast? hlast)
  refine ⟨mem_of_mem_after hmem, ?_⟩
  rw [← after_last hmem]
  exact filter_last (after_descending H.descending) hlast

/-- **The pages together are what comes after the place they start from.** -/
theorem flatten_eq (H : Keyset place read n l) (hw : Walk read n i before pages)
    (hi : before = none → i = 0) (hbefore : ∀ e, before = some e → e ∈ l) :
    pages.flatten = after place l before := by
  induction hw with
  | short hread hshort =>
    obtain rfl := (H.read_iff hi hbefore).1 hread
    rw [List.length_take] at hshort
    rw [List.flatten_cons, List.flatten_nil, List.append_nil, List.take_of_length_le (by omega)]
  | full hread hfull hlast hrest ih =>
    obtain rfl := (H.read_iff hi hbefore).1 hread
    obtain ⟨hmem, hafter⟩ := H.after_page hlast
    have hrest := ih nofun fun e he => by
      obtain rfl := Option.some.inj he
      exact hmem
    rw [List.flatten_cons, hrest, hafter, List.take_append_drop]

/-- **A short page is reached.** -/
theorem exists_walk (H : Keyset place read n l) (hi : before = none → i = 0)
    (hbefore : ∀ e, before = some e → e ∈ l) : ∃ pages, Walk read n i before pages := by
  induction hlen : (after place l before).length using Nat.strong_induction_on
    generalizing i before with
  | _ k ih =>
    have hpos := H.pos
    have hread := (H.read_iff hi hbefore).2 rfl
    by_cases hk : k < n
    · exact ⟨_, .short hread (by rw [List.length_take]; omega)⟩
    · have hfull : ((after place l before).take n).length = n := by
        rw [List.length_take]
        omega
      obtain ⟨last, hlast⟩ : ∃ last, ((after place l before).take n).getLast? = some last := by
        rw [← Option.isSome_iff_exists, List.getLast?_isSome]
        intro hnil
        rw [hnil] at hfull
        simp only [List.length_nil] at hfull
        omega
      obtain ⟨hmem, hafter⟩ := H.after_page hlast
      have hshorter : (after place l (some last)).length < k := by
        rw [hafter, List.length_drop]
        omega
      have hlastMem : ∀ e, some last = some e → e ∈ l := fun e he => by
        obtain rfl := Option.some.inj he
        exact hmem
      have hsome : some last = none → i + 1 = 0 := nofun
      obtain ⟨pages, hpages⟩ := ih _ hshorter hsome hlastMem rfl
      exact ⟨_, .full hread hfull hlast hpages⟩

end Keyset
