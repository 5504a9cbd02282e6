import Mathlib.Data.List.Dedup
import Mathlib.Data.List.Nodup
import Mathlib.Data.Sigma.Basic

/-!
# A log-structured store of typed rows

A store is the list of row versions written to it, newest first.  A version
names its key and holds the row, or nothing where the row was deleted; the
current row of a key is its newest version.  Writes are appended in front, so
the effect of a batch of writes `w` on a store `s` is `w ++ s` and every
question about it is a question about `List.append`.

## Main definitions

* `Store V` — the versions, where `V k` is the type of the row under key `k`.
* `row s k` — the current row.
* `keys s` — the keys ever written.
* `collect f s` — a query: what `f` keeps of the current rows.
* `logged f s` — what `f` keeps of every version, oldest first.
-/

namespace ReadCommitted

variable {K : Type} {V : K → Type}

/-- One version of one row; `none` is a deletion. -/
abbrev Version (V : K → Type) := (k : K) × Option (V k)

/-- The versions of a store, newest first. -/
abbrev Store (V : K → Type) := List (Version V)

/-- The keys ever written to a store. -/
def keys (s : Store V) : List K := s.map Sigma.fst

@[simp] theorem keys_nil : keys ([] : Store V) = [] := rfl
@[simp] theorem keys_cons (v : Version V) (s : Store V) : keys (v :: s) = v.1 :: keys s := rfl
@[simp] theorem keys_append (w s : Store V) : keys (w ++ s) = keys w ++ keys s :=
  List.map_append

section Rows

variable [DecidableEq K]

/-- The current row of a key. -/
def row : Store V → (k : K) → Option (V k)
  | [], _ => none
  | ⟨k', v⟩ :: s, k => if h : k' = k then h ▸ v else row s k

@[simp] theorem row_nil (k : K) : row ([] : Store V) k = none := rfl

@[simp] theorem row_cons_self (k : K) (v : Option (V k)) (s : Store V) :
    row (⟨k, v⟩ :: s) k = v := by
  simp [row]

theorem row_cons_ne {k k' : K} (v : Option (V k')) (s : Store V) (h : k' ≠ k) :
    row (⟨k', v⟩ :: s) k = row s k := by
  simp [row, h]

/-- A write to another key does not change the row. -/
theorem row_append_of_notMem {w : Store V} {k : K} (s : Store V) (h : k ∉ keys w) :
    row (w ++ s) k = row s k := by
  induction w with
  | nil => rfl
  | cons v w ih =>
    obtain ⟨k', v⟩ := v
    simp only [keys_cons, List.mem_cons, not_or] at h
    rw [List.cons_append, row_cons_ne _ _ (Ne.symm h.1), ih h.2]

/-- A key that was written reads as the newest write. -/
theorem row_append_of_mem {w : Store V} {k : K} (s : Store V) (h : k ∈ keys w) :
    row (w ++ s) k = row w k := by
  induction w with
  | nil => simp at h
  | cons v w ih =>
    obtain ⟨k', v⟩ := v
    rw [List.cons_append]
    by_cases hk : k' = k
    · subst hk; simp
    · rw [row_cons_ne _ _ hk, row_cons_ne _ _ hk]
      simp only [keys_cons, List.mem_cons] at h
      exact ih (h.resolve_left (Ne.symm hk))

theorem row_eq_none_of_notMem {s : Store V} {k : K} (h : k ∉ keys s) : row s k = none := by
  simpa using row_append_of_notMem [] h

theorem mem_keys_of_row {s : Store V} {k : K} {v : V k} (h : row s k = some v) : k ∈ keys s := by
  by_contra hk
  simp [row_eq_none_of_notMem hk] at h

/-- The current row is one of the versions. -/
theorem mem_of_row {s : Store V} {k : K} {v : V k} (h : row s k = some v) :
    (⟨k, some v⟩ : Version V) ∈ s := by
  induction s with
  | nil => simp at h
  | cons w s ih =>
    obtain ⟨k', w⟩ := w
    by_cases hk : k' = k
    · subst hk
      rw [row_cons_self] at h
      exact h ▸ List.mem_cons_self ..
    · rw [row_cons_ne _ _ hk] at h
      exact List.mem_cons_of_mem _ (ih h)

/-- The row of a key under two stores that agree on it. -/
theorem row_append_congr {s s' : Store V} {k : K} (w : Store V) (h : row s k = row s' k) :
    row (w ++ s) k = row (w ++ s') k := by
  by_cases hk : k ∈ keys w
  · rw [row_append_of_mem _ hk, row_append_of_mem _ hk]
  · rw [row_append_of_notMem _ hk, row_append_of_notMem _ hk, h]

/-- Versions of other keys may be left out. -/
theorem row_filter_append {P : Version V → Bool} {k : K} (hP : ∀ v, P ⟨k, v⟩ = true)
    (w s : Store V) : row (w.filter P ++ s) k = row (w ++ s) k := by
  induction w with
  | nil => rfl
  | cons v w ih =>
    obtain ⟨k', v⟩ := v
    by_cases hk : k' = k
    · subst hk
      rw [List.filter_cons_of_pos (hP v), List.cons_append, List.cons_append, row_cons_self,
        row_cons_self]
    · rw [List.cons_append, row_cons_ne _ _ hk, ← ih]
      by_cases hv : P ⟨k', v⟩ = true
      · rw [List.filter_cons_of_pos hv, List.cons_append, row_cons_ne _ _ hk]
      · rw [List.filter_cons_of_neg hv]

/-- A row that is never deleted stays. -/
theorem isSome_row_append {w s : Store V} {k : K} (hw : ⟨k, none⟩ ∉ w)
    (h : (row s k).isSome) : (row (w ++ s) k).isSome := by
  induction w with
  | nil => exact h
  | cons v w ih =>
    obtain ⟨k', v⟩ := v
    simp only [List.mem_cons, not_or] at hw
    by_cases hk : k' = k
    · subst hk
      rw [List.cons_append, row_cons_self]
      cases v with
      | none => exact absurd rfl hw.1
      | some v => rfl
    · rw [List.cons_append, row_cons_ne _ _ hk]
      exact ih hw.2

/-- A row that is written and not deleted is there. -/
theorem isSome_row_of_mem {w : Store V} {k : K} (hk : k ∈ keys w) (hw : ⟨k, none⟩ ∉ w) :
    (row w k).isSome := by
  induction w with
  | nil => simp at hk
  | cons v w ih =>
    obtain ⟨k', v⟩ := v
    simp only [List.mem_cons, not_or] at hw
    by_cases hkk : k' = k
    · subst hkk
      rw [row_cons_self]
      cases v with
      | none => exact absurd rfl hw.1
      | some v => rfl
    · rw [row_cons_ne _ _ hkk]
      simp only [keys_cons, List.mem_cons] at hk
      exact ih (hk.resolve_left (Ne.symm hkk)) hw.2

/-! ## Queries -/

variable {A : Type}

/-- What `f` keeps of the current rows, one entry for each key. -/
def collect (f : (k : K) → V k → Option A) (s : Store V) : List A :=
  (keys s).dedup.filterMap fun k => (row s k).bind (f k)

theorem mem_collect {f : (k : K) → V k → Option A} {s : Store V} {a : A} :
    a ∈ collect f s ↔ ∃ k v, row s k = some v ∧ f k v = some a := by
  simp only [collect, List.mem_filterMap, List.mem_dedup, Option.bind_eq_some_iff]
  constructor
  · rintro ⟨k, -, v, hv, ha⟩
    exact ⟨k, v, hv, ha⟩
  · rintro ⟨k, v, hv, ha⟩
    exact ⟨k, mem_keys_of_row hv, v, hv, ha⟩

/-- What a query keeps of different rows is different, where it tells their keys. -/
theorem nodup_collect_map {f : (k : K) → V k → Option A} {g : A → K} {s : Store V}
    (hg : ∀ k v a, row s k = some v → f k v = some a → g a = k) :
    ((collect f s).map g).Nodup := by
  have hkeys : (collect f s).map g =
      (keys s).dedup.filter fun k => ((row s k).bind (f k)).isSome := by
    rw [collect, List.map_filterMap, ← List.filterMap_eq_filter]
    refine List.filterMap_congr fun k _ => ?_
    cases hk : (row s k).bind (f k) with
    | none => simp [Option.guard, hk]
    | some a =>
      obtain ⟨v, hv, ha⟩ := Option.bind_eq_some_iff.1 hk
      simp [hk, Option.guard, hg k v a hv ha]
  rw [hkeys]
  exact (List.nodup_dedup _).filter _

end Rows

/-! ## The log -/

variable {A : Type}

/-- What `f` keeps of every version, oldest first. -/
def logged (f : (k : K) → V k → Option A) (s : Store V) : List A :=
  s.reverse.filterMap fun v => v.2.bind (f v.1)

@[simp] theorem logged_nil (f : (k : K) → V k → Option A) : logged f [] = [] := rfl

@[simp] theorem logged_cons (f : (k : K) → V k → Option A) (v : Version V) (s : Store V) :
    logged f (v :: s) = logged f s ++ (v.2.bind (f v.1)).toList := by
  cases h : v.2.bind (f v.1) <;> simp [logged, h]

@[simp] theorem logged_append (f : (k : K) → V k → Option A) (w s : Store V) :
    logged f (w ++ s) = logged f s ++ logged f w := by
  simp [logged]

theorem mem_logged {f : (k : K) → V k → Option A} {s : Store V} {a : A} :
    a ∈ logged f s ↔ ∃ k v, (⟨k, some v⟩ : Version V) ∈ s ∧ f k v = some a := by
  simp only [logged, List.mem_filterMap, List.mem_reverse]
  constructor
  · rintro ⟨⟨k, o⟩, hm, ho⟩
    cases o with
    | none => simp at ho
    | some v => exact ⟨k, v, hm, ho⟩
  · rintro ⟨k, v, hm, ha⟩
    exact ⟨⟨k, some v⟩, hm, by simpa using ha⟩

/-- Versions that `f` does not look at may be left out. -/
theorem logged_filter {f : (k : K) → V k → Option A} {P : K → Bool}
    (hf : ∀ k v, P k = false → f k v = none) (w : Store V) :
    logged f (w.filter (P ·.1)) = logged f w := by
  induction w with
  | nil => rfl
  | cons v w ih =>
    obtain ⟨k, v⟩ := v
    cases hk : P k with
    | true => rw [List.filter_cons_of_pos (by exact hk), logged_cons, logged_cons, ih]
    | false =>
      have hnone : v.bind (f k) = none := by
        cases v with
        | none => rfl
        | some v => exact hf k v hk
      rw [List.filter_cons_of_neg (by simp [hk]), logged_cons, ih, hnone, Option.toList_none,
        List.append_nil]

/-- **Rows that are written once are what was logged**: where `f` looks only at
keys of `P`, and each of those is written at most once, a query finds what was
logged. -/
theorem collect_perm_logged [DecidableEq K] {f : (k : K) → V k → Option A} {P : K → Bool}
    {s : Store V} (hf : ∀ k v a, f k v = some a → P k = true)
    (hs : ((keys s).filter P).Nodup) : (collect f s).Perm (logged f s) := by
  induction s with
  | nil => rfl
  | cons v s ih =>
    obtain ⟨k, v⟩ := v
    rw [logged_cons]
    by_cases hk : P k = true
    · rw [keys_cons, List.filter_cons_of_pos hk, List.nodup_cons] at hs
      have hnew : k ∉ keys s := fun h => hs.1 (List.mem_filter.2 ⟨h, hk⟩)
      have hrest : collect f (⟨k, v⟩ :: s) = (v.bind (f k)).toList ++ collect f s := by
        rw [collect, collect, keys_cons, List.dedup_cons_of_notMem hnew, List.filterMap_cons,
          row_cons_self]
        have : (keys s).dedup.filterMap (fun k' => (row (⟨k, v⟩ :: s) k').bind (f k')) =
            (keys s).dedup.filterMap fun k' => (row s k').bind (f k') := by
          refine List.filterMap_congr fun k' hk' => ?_
          rw [row_cons_ne]
          rintro rfl
          exact hnew (List.mem_dedup.1 hk')
        rw [this]
        cases v.bind (f k) <;> rfl
      rw [hrest]
      exact (List.perm_append_comm).trans ((ih hs.2).append_right _)
    · have hnone : ∀ v', f k v' = none := fun v' => by
        by_contra h
        obtain ⟨a, ha⟩ := Option.ne_none_iff_exists'.1 h
        exact hk (hf k v' a ha)
      have hbind : ∀ o : Option (V k), o.bind (f k) = none := fun o => by
        cases o <;> simp [hnone]
      rw [keys_cons, List.filter_cons_of_neg hk] at hs
      have hsame : collect f (⟨k, v⟩ :: s) = collect f s := by
        have hcongr : ∀ k', (row (⟨k, v⟩ :: s) k').bind (f k') = (row s k').bind (f k') := by
          intro k'
          by_cases hkk : k = k'
          · subst hkk
            rw [hbind, hbind]
          · rw [row_cons_ne _ _ hkk]
        simp only [collect, hcongr, keys_cons]
        by_cases hmem : k ∈ keys s
        · rw [List.dedup_cons_of_mem hmem]
        · rw [List.dedup_cons_of_notMem hmem, List.filterMap_cons, hbind]
      rw [hsame, hbind, Option.toList_none, List.append_nil]
      exact ih hs

end ReadCommitted
