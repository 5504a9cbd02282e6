import Mathlib.Algebra.BigOperators.Group.List.Basic
import Mathlib.Data.List.Dedup

/-!
# Groups of a list

A list is grouped by a key: every key that occurs stands once, with the members that have it.
Whatever is added up group by group is then added up over the whole list.

## Main definitions

* `keys`, `members` — the keys of a list, and the members of a group.

## Main results

* `sum_groups` — the sums of the groups add up.
* `sum_filter_exchange` — two selections differ by what only one of them takes.
-/

namespace Grouping

variable {A K M : Type}

section Groups

variable [DecidableEq K] (key : A → K)

/-- The keys of a list, each once. -/
def keys (l : List A) : List K := (l.map key).dedup

/-- The members with a key. -/
def members (l : List A) (k : K) : List A := l.filter (key · = k)

theorem nodup_keys (l : List A) : (keys key l).Nodup := List.nodup_dedup _

theorem mem_keys {l : List A} {k : K} : k ∈ keys key l ↔ ∃ a ∈ l, key a = k := by
  rw [keys, List.mem_dedup, List.mem_map]

theorem mem_members {l : List A} {k : K} {a : A} : a ∈ members key l k ↔ a ∈ l ∧ key a = k := by
  rw [members, List.mem_filter, decide_eq_true_iff]

/-- A group has a member. -/
theorem members_ne_nil {l : List A} {k : K} (hk : k ∈ keys key l) : members key l k ≠ [] := by
  obtain ⟨a, ha, heq⟩ := (mem_keys key).1 hk
  exact List.ne_nil_of_mem ((mem_members key).2 ⟨ha, heq⟩)

theorem members_perm {l l' : List A} (h : l.Perm l') (k : K) :
    (members key l k).Perm (members key l' k) := h.filter _

variable [AddCommMonoid M] (f : A → M)

/-- One of some keys is a given one. -/
theorem sum_map_key {ks : List K} (hn : ks.Nodup) {k : K} (hk : k ∈ ks) (m : M) :
    (ks.map fun k' => if k = k' then m else 0).sum = m := by
  induction ks with
  | nil => cases hk
  | cons k₀ ks ih =>
    obtain ⟨hnot, hn⟩ := List.nodup_cons.1 hn
    rw [List.map_cons, List.sum_cons]
    by_cases heq : k = k₀
    · subst heq
      have hrest : (ks.map fun k' => if k = k' then m else 0) = ks.map fun _ => 0 := by
        refine List.map_congr_left fun k' hk' => if_neg ?_
        rintro rfl
        exact hnot hk'
      rw [if_pos rfl, hrest, List.map_const', List.sum_replicate, nsmul_zero, add_zero]
    · rw [if_neg heq, zero_add]
      exact ih hn ((List.mem_cons.1 hk).resolve_left heq)

theorem sum_members_cons (a : A) (l : List A) (k : K) :
    ((members key (a :: l) k).map f).sum =
      (if key a = k then f a else 0) + ((members key l k).map f).sum := by
  by_cases heq : key a = k
  · rw [if_pos heq, members, List.filter_cons_of_pos (by simpa using heq)]
    rfl
  · rw [if_neg heq, zero_add, members, List.filter_cons_of_neg (by simpa using heq)]
    rfl

theorem sum_members {ks : List K} (hn : ks.Nodup) {l : List A} (hl : ∀ a ∈ l, key a ∈ ks) :
    (ks.map fun k => ((members key l k).map f).sum).sum = (l.map f).sum := by
  induction l with
  | nil => simp [members]
  | cons a l ih =>
    obtain ⟨ha, hl⟩ := List.forall_mem_cons.1 hl
    calc (ks.map fun k => ((members key (a :: l) k).map f).sum).sum
        = (ks.map fun k => (if key a = k then f a else 0) + ((members key l k).map f).sum).sum := by
          simp only [sum_members_cons]
      _ = (ks.map fun k => if key a = k then f a else 0).sum +
            (ks.map fun k => ((members key l k).map f).sum).sum := List.sum_map_add
      _ = ((a :: l).map f).sum := by rw [sum_map_key hn ha, ih hl, List.map_cons, List.sum_cons]

/-- **The sums of the groups add up** to the sum of the list. -/
theorem sum_groups (l : List A) :
    ((keys key l).map fun k => ((members key l k).map f).sum).sum = (l.map f).sum :=
  sum_members key f (nodup_keys key l) fun a ha => (mem_keys key).2 ⟨a, ha, rfl⟩

end Groups

/-- Two selections differ by what only one of them takes. -/
theorem sum_filter_exchange [AddCommMonoid M] (f : A → M) (p q : A → Bool) (l : List A) :
    ((l.filter p).map f).sum + ((l.filter fun a => q a && !p a).map f).sum =
      ((l.filter q).map f).sum + ((l.filter fun a => p a && !q a).map f).sum := by
  induction l with
  | nil => rfl
  | cons a l ih =>
    cases hp : p a <;> cases hq : q a <;> simp only [List.filter_cons, hp, hq, Bool.not_true,
      Bool.not_false, Bool.and_true, Bool.and_false, if_true, if_false, Bool.false_eq_true,
      List.map_cons, List.sum_cons]
    · exact ih
    · rw [add_left_comm, ih, add_assoc]
    · rw [add_assoc, ih, add_left_comm]
    · rw [add_assoc, ih, add_assoc]

end Grouping
