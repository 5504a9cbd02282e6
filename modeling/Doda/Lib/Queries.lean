import Mathlib.Data.List.Sort
import Doda.Lib.RowStore

/-!
# Queries and their pages

A query keeps what `f` makes of the current rows.  Queries that look at different rows
add up; rows that no query looks at may change.  A page is the beginning of a listing,
and nothing is missing from it just if nothing is left over.

## Main results

* `collect_congr` — stores that agree on what a query looks at.
* `flatMap_collect_perm` — queries over disjoint sets of rows, one after the other.
* `collect_of_nodup` — where there is one version of each row.
* `collect_rows` — the rows of the keys that a query finds.
* `Page.perm_iff` — a page holds everything just if nothing is left over.
-/

namespace ReadCommitted

variable {K : Type} {V : K → Type} [DecidableEq K] {A B : Type}

/-! ## Pages -/

/-- A page of `all`, with what is left over; nothing is just if `full`. -/
structure Page (page rest all : List A) (full : Prop) : Prop where
  perm : (page ++ rest).Perm all
  rest_iff : rest = [] ↔ full

namespace Page

variable {page rest all page' rest' all' : List A} {full full' : Prop}

/-- The first `n` of a listing. -/
theorem take {listing : List A} (n : ℕ) (h : listing.Perm all) :
    Page (listing.take n) (listing.drop n) all (all.length ≤ n) where
  perm := by rwa [List.take_append_drop]
  rest_iff := by rw [List.drop_eq_nil_iff, h.length_eq]

/-- One page after the other. -/
theorem append (H : Page page rest all full) (H' : Page page' rest' all' full') :
    Page (page ++ page') (rest ++ rest') (all ++ all') (full ∧ full') where
  perm := by
    refine List.Perm.trans ?_ (H.perm.append H'.perm)
    rw [List.append_assoc, List.append_assoc]
    apply List.Perm.append_left
    rw [← List.append_assoc, ← List.append_assoc]
    exact List.perm_append_comm.append_right _
  rest_iff := by rw [List.append_eq_nil_iff, H.rest_iff, H'.rest_iff]

theorem mono (H : Page page rest all full) (hall : all.Perm all') (hfull : full ↔ full') :
    Page page rest all' full' :=
  ⟨H.perm.trans hall, H.rest_iff.trans hfull⟩

/-- **A page holds everything** just if nothing is left over. -/
theorem perm_iff (H : Page page rest all full) : page.Perm all ↔ full := by
  rw [← H.rest_iff]
  constructor
  · intro hp
    have hlength := (H.perm.trans hp.symm).length_eq
    rw [List.length_append] at hlength
    exact List.eq_nil_of_length_eq_zero (by omega)
  · rintro rfl
    simpa using H.perm

end Page

/-! ## Queries -/

/-- Two lists that differ in what `f` drops. -/
theorem filterMap_perm_of_nodup {f : A → Option B} {l l' : List A} (hl : l.Nodup) (hl' : l'.Nodup)
    (h : ∀ a, (f a).isSome = true → (a ∈ l ↔ a ∈ l')) : (l.filterMap f).Perm (l'.filterMap f) := by
  have hkept : ∀ l : List A, l.filterMap f = (l.filter fun a => (f a).isSome).filterMap f :=
    fun l => by
      rw [List.filterMap_filter]
      refine List.filterMap_congr fun a _ => ?_
      cases f a <;> rfl
  rw [hkept l, hkept l']
  apply List.Perm.filterMap
  rw [List.perm_ext_iff_of_nodup (hl.filter _) (hl'.filter _)]
  intro a
  simp only [List.mem_filter]
  exact ⟨fun ⟨ha, hf⟩ => ⟨(h a hf).1 ha, hf⟩, fun ⟨ha, hf⟩ => ⟨(h a hf).2 ha, hf⟩⟩

/-- **Stores that agree on what a query looks at.** -/
theorem collect_congr {f : (k : K) → V k → Option A} {s s' : Store V}
    (h : ∀ k, (row s k).bind (f k) = (row s' k).bind (f k)) :
    (collect f s).Perm (collect f s') := by
  have hs : collect f s' = (keys s').dedup.filterMap fun k => (row s k).bind (f k) := by
    simp only [collect, h]
  rw [hs, collect]
  refine filterMap_perm_of_nodup (List.nodup_dedup _) (List.nodup_dedup _) fun k hk => ?_
  have hmem : ∀ {s : Store V}, ((row s k).bind (f k)).isSome = true → k ∈ (keys s).dedup :=
    fun {s} hk => by
      obtain ⟨a, ha⟩ := Option.isSome_iff_exists.1 hk
      obtain ⟨v, hv, -⟩ := Option.bind_eq_some_iff.1 ha
      exact List.mem_dedup.2 (mem_keys_of_row hv)
  exact ⟨fun _ => hmem (h k ▸ hk), fun _ => hmem hk⟩

/-- **A query of a store that holds one version of each row.** -/
theorem collect_of_nodup {f : (k : K) → V k → Option A} {s : Store V} (hs : (keys s).Nodup) :
    collect f s = s.filterMap fun v => v.2.bind (f v.1) := by
  have hrow : ∀ v ∈ s, row s v.1 = v.2 := by
    clear f
    induction s with
    | nil => simp
    | cons w s ih =>
      obtain ⟨hw, hs⟩ := List.nodup_cons.1 hs
      intro v hv
      rcases List.mem_cons.1 hv with rfl | hv
      · exact row_cons_self ..
      · have hne : w.1 ≠ v.1 := fun h => hw (h ▸ List.mem_map_of_mem hv)
        rw [row_cons_ne _ _ hne]
        exact ih hs v hv
  rw [collect, hs.dedup, keys, List.filterMap_map]
  refine List.filterMap_congr fun v hv => ?_
  simp only [Function.comp, hrow v hv]

/-- A query that is one or another. -/
theorem filterMap_or_perm {f g : A → Option B} (l : List A)
    (h : ∀ a, f a = none ∨ g a = none) :
    (l.filterMap fun a => (f a).or (g a)).Perm (l.filterMap f ++ l.filterMap g) := by
  induction l with
  | nil => rfl
  | cons a l ih =>
    simp only [List.filterMap_cons]
    rcases h a with ha | ha
    · rw [ha, Option.none_or]
      cases g a with
      | none => exact ih
      | some b => exact (ih.cons b).trans List.perm_middle.symm
    · rw [ha, Option.or_none]
      cases f a with
      | none => exact ih
      | some b => exact ih.cons b

/-- **Queries over disjoint sets of rows**, one after the other. -/
theorem flatMap_collect_perm {ι : Type} {g : ι → (k : K) → V k → Option A} {s : Store V}
    {xs : List ι} (hxs : xs.Pairwise fun x y => ∀ k v, g x k v = none ∨ g y k v = none) :
    (xs.flatMap fun x => collect (g x) s).Perm
      (collect (fun k v => xs.findSome? (g · k v)) s) := by
  induction xs with
  | nil =>
    have : collect (fun k v => [].findSome? (g · k v)) s = ([] : List A) := by
      simp [collect]
    rw [this, List.flatMap_nil]
  | cons x xs ih =>
    obtain ⟨hx, hxs⟩ := List.pairwise_cons.1 hxs
    have hsplit : (fun k => (row s k).bind fun v => (x :: xs).findSome? (g · k v)) =
        fun k => ((row s k).bind (g x k)).or ((row s k).bind fun v => xs.findSome? (g · k v)) := by
      funext k
      cases row s k with
      | none => rfl
      | some v =>
        simp only [Option.bind_some, List.findSome?_cons]
        cases g x k v <;> rfl
    rw [List.flatMap_cons, collect.eq_def (fun k v => (x :: xs).findSome? (g · k v)), hsplit]
    refine ((ih hxs).append_left _).trans (filterMap_or_perm _ fun k => ?_).symm
    cases hrow : row s k with
    | none => exact .inl rfl
    | some v =>
      rw [Option.bind_some, Option.bind_some]
      cases hg : g x k v with
      | none => exact .inl rfl
      | some a =>
        refine .inr (List.findSome?_eq_none_iff.2 fun y hy => ?_)
        exact (hx y hy k v).resolve_left (by simp [hg])

/-- **The rows of the keys that a query finds.** -/
theorem collect_rows {I : Type} {f : (k : K) → V k → Option I} {look : I → Option A}
    {g : (k : K) → V k → Option A} {s : Store V}
    (h : ∀ k v, row s k = some v → (f k v).bind look = g k v) :
    (collect f s).filterMap look = collect g s := by
  rw [collect, collect, List.filterMap_filterMap]
  refine List.filterMap_congr fun k _ => ?_
  cases hrow : row s k with
  | none => rfl
  | some v => simpa using h k v hrow

/-- The same row, found for some `x` of a list. -/
theorem findSome?_ite {ι : Type} {P : ι → Prop} [DecidablePred P] {xs : List ι} {a : A} {q : Prop}
    [Decidable q] (h : (∃ x ∈ xs, P x) ↔ q) :
    (xs.findSome? fun x => if P x then some a else none) = if q then some a else none := by
  induction xs with
  | nil =>
    rw [if_neg fun hq => by simpa using h.2 hq, List.findSome?_nil]
  | cons x xs ih =>
    rw [List.findSome?_cons]
    by_cases hx : P x
    · rw [if_pos hx, if_pos (h.1 ⟨x, List.mem_cons_self, hx⟩)]
    · rw [if_neg hx]
      refine ih (Iff.trans ?_ h)
      simp [hx]

end ReadCommitted
