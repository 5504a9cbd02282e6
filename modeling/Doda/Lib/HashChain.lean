import Mathlib.Data.List.Infix
import Mathlib.Data.List.Perm.Basic
import Mathlib.Data.List.Perm.Subperm
import Mathlib.Data.List.Nodup

/-!
# Hash chains

Each record of a chain stores the hash of the record before it and its own hash,
which a digest of its content, that stored predecessor hash included, must equal.
Two chains that start from nothing and share the hash of one record share every
hash before it, so a chain is fixed by its last hash, no record occurs twice, and
every tampered sequence that still links up is an initial segment of the original
followed by records that are not in it.

## Main definitions

* `Fields A H` — where a record of `A` keeps its hashes.
* `Fields.Linked a es b` — `es` is a chain from the hash `a` to the hash `b`.
* `Fields.Binding` — the digest determines the stored predecessor hash.
* `Linked.nodup`, `Linked.eq_take_append` — what follows for chains.
-/

namespace HashChain

variable {A H : Type}

/-- Where a record keeps the hash of its predecessor and its own hash, and the
digest its own hash must equal. -/
structure Fields (A H : Type) where
  prev : A → Option H
  hash : A → H
  digest : A → H

namespace Fields

variable (F : Fields A H)

/-- `es` is a chain that leads from the hash `a` to the hash `b`. -/
def Linked (F : Fields A H) : Option H → List A → Option H → Prop
  | a, [], b => a = b
  | a, e :: es, b => F.prev e = a ∧ F.hash e = F.digest e ∧ Linked F (some (F.hash e)) es b

/-- Records with the same digest name the same predecessor. -/
def Binding : Prop := ∀ x y, F.digest x = F.digest y → F.prev x = F.prev y

variable {F} {a b c : Option H} {es fs : List A}

@[simp] theorem linked_nil : F.Linked a [] b ↔ a = b := Iff.rfl
@[simp] theorem linked_cons {e : A} : F.Linked a (e :: es) b ↔
    F.prev e = a ∧ F.hash e = F.digest e ∧ F.Linked (some (F.hash e)) es b := Iff.rfl

/-- Chains compose where one's end is the other's start. -/
theorem linked_append : F.Linked a (es ++ fs) c ↔ ∃ b, F.Linked a es b ∧ F.Linked b fs c := by
  induction es generalizing a with
  | nil => simp
  | cons e es ih => simp [ih, and_assoc]

theorem Linked.append (h₁ : F.Linked a es b) (h₂ : F.Linked b fs c) : F.Linked a (es ++ fs) c :=
  linked_append.2 ⟨b, h₁, h₂⟩

theorem linked_concat {e : A} : F.Linked a (es ++ [e]) c ↔
    F.Linked a es (F.prev e) ∧ F.hash e = F.digest e ∧ c = some (F.hash e) := by
  rw [linked_append]
  constructor
  · rintro ⟨b, h, rfl, he, hc⟩
    exact ⟨h, he, hc.symm⟩
  · rintro ⟨h, he, rfl⟩
    exact ⟨_, h, rfl, he, rfl⟩

/-- A chain's end is determined. -/
theorem Linked.end_unique (h₁ : F.Linked a es b) (h₂ : F.Linked a es c) : b = c := by
  induction es generalizing a with
  | nil => exact h₁.symm.trans h₂
  | cons e es ih => exact ih h₁.2.2 h₂.2.2

/-- **A chain is determined by what its records say**: two chains from the same
hash whose records say the same, where that and the predecessor's hash give the
digest, have the same hashes and the same end. -/
theorem Linked.eq_of_map_eq {B : Type} {f : A → B}
    (hf : ∀ x y, f x = f y → F.prev x = F.prev y → F.digest x = F.digest y)
    (h₁ : F.Linked a es b) (h₂ : F.Linked a fs c) (heq : es.map f = fs.map f) :
    (es.map fun e => (F.prev e, F.hash e)) = (fs.map fun e => (F.prev e, F.hash e)) ∧ b = c := by
  induction es generalizing a fs with
  | nil =>
    obtain rfl : fs = [] := by simpa using heq.symm
    exact ⟨rfl, h₁.symm.trans h₂⟩
  | cons e es ih =>
    obtain _ | ⟨e', fs⟩ := fs
    · simp at heq
    · obtain ⟨he, heq⟩ := List.cons.inj heq
      obtain ⟨rfl, hh₁, h₁⟩ := h₁
      obtain ⟨hp, hh₂, h₂⟩ := h₂
      have hhash : F.hash e = F.hash e' := by rw [hh₁, hh₂, hf e e' he hp.symm]
      rw [← hhash] at h₂
      obtain ⟨hmap, hend⟩ := ih h₁ h₂ heq
      exact ⟨by rw [List.map_cons, List.map_cons, hhash, hp, hmap], hend⟩

/-- Only a chain's first record names no predecessor. -/
theorem Linked.prev_isSome_of_mem_tail (h : F.Linked a es b) {e : A} (he : e ∈ es.tail) :
    (F.prev e).isSome := by
  cases es with
  | nil => simp at he
  | cons e₀ es =>
    obtain ⟨us, vs, rfl⟩ := List.append_of_mem he
    obtain ⟨c, hc, hd, -⟩ := linked_append.1 h.2.2
    rw [hd]
    rcases List.eq_nil_or_concat us with rfl | ⟨us, u, rfl⟩
    · rw [← show some (F.hash e₀) = c from hc]
      rfl
    · rw [List.concat_eq_append] at hc
      rw [(linked_concat.1 hc).2.2]
      rfl

/-- A chain from nothing to nothing is empty. -/
theorem Linked.eq_nil (h : F.Linked none es none) : es = [] := by
  rcases List.eq_nil_or_concat es with rfl | ⟨es, e, rfl⟩
  · rfl
  · simp [linked_concat] at h

/-- **A hash fixes every hash before it.**  Two chains from nothing to the same
hash have the same hashes. -/
theorem Linked.map_hash_eq (hF : F.Binding) (h₁ : F.Linked none es b) (h₂ : F.Linked none fs b) :
    es.map F.hash = fs.map F.hash := by
  induction es using List.reverseRecOn generalizing fs b with
  | nil =>
    obtain rfl : none = b := h₁
    rw [h₂.eq_nil]
  | append_singleton es e ih =>
    rcases List.eq_nil_or_concat fs with rfl | ⟨fs, f, rfl⟩
    · obtain rfl : none = b := h₂
      simp [linked_concat] at h₁
    · rw [List.concat_eq_append] at h₂ ⊢
      obtain ⟨h₃, he, rfl⟩ := linked_concat.1 h₁
      obtain ⟨h₄, hf, hef⟩ := linked_concat.1 h₂
      have hhash : F.hash e = F.hash f := Option.some.inj hef
      have hprev : F.prev e = F.prev f := hF e f (by rw [← he, ← hf, hhash])
      rw [← hprev] at h₄
      rw [List.map_append, List.map_append, ih h₃ h₄, List.map_singleton, List.map_singleton, hhash]

/-- Two chains from nothing that share the hash of a record share all hashes
before it. -/
theorem Linked.map_hash_eq_of_mem (hF : F.Binding) (us vs us' vs' : List A) {x y : A}
    (h₁ : F.Linked none (us ++ x :: vs) b) (h₂ : F.Linked none (us' ++ y :: vs') c)
    (hxy : F.hash x = F.hash y) : us.map F.hash = us'.map F.hash := by
  obtain ⟨a₁, h₁, hx, hx', -⟩ := linked_append.1 h₁
  obtain ⟨a₂, h₂, hy, hy', -⟩ := linked_append.1 h₂
  have hprev : F.prev x = F.prev y := hF x y (by rw [← hx', ← hy', hxy])
  rw [← hx] at h₁
  rw [← hy, ← hprev] at h₂
  exact h₁.map_hash_eq hF h₂

/-- **No hash occurs twice** in a chain from nothing. -/
theorem Linked.nodup (hF : F.Binding) (h : F.Linked none es b) : (es.map F.hash).Nodup := by
  rw [List.nodup_iff_pairwise_ne, List.pairwise_map, List.pairwise_iff_forall_sublist]
  intro x y hxy heq
  -- write the chain as … x … y …, and compare what is before x with what is before y
  obtain ⟨us, ws, rfl, hx, hy⟩ : ∃ us ws, es = us ++ ws ∧ x ∈ us ∧ y ∈ ws := by
    obtain ⟨us, ws, rfl, hx, hy⟩ := List.append_sublist_iff.1
      (show List.Sublist ([x] ++ [y]) es from hxy)
    exact ⟨us, ws, rfl, by simpa using hx, by simpa using hy⟩
  obtain ⟨us₁, us₂, rfl⟩ := List.append_of_mem hx
  obtain ⟨ws₁, ws₂, rfl⟩ := List.append_of_mem hy
  have hlen := congrArg List.length
    (Linked.map_hash_eq_of_mem hF us₁ (us₂ ++ (ws₁ ++ y :: ws₂)) (us₁ ++ x :: us₂ ++ ws₁) ws₂
      (by simpa using h) (by simpa using h) heq)
  simp at hlen

/-- **What still links up is a prefix of the original and records not in it.** -/
theorem Linked.eq_take_append (hF : F.Binding) (h : F.Linked none es b)
    (h' : F.Linked none fs c) :
    ∃ n, (fs.take n).map F.hash = (es.take n).map F.hash ∧ n ≤ fs.length ∧
      ∀ f ∈ fs.drop n, F.hash f ∉ es.map F.hash := by
  induction fs using List.reverseRecOn generalizing c with
  | nil => exact ⟨0, by simp⟩
  | append_singleton fs f ih =>
    by_cases hf : F.hash f ∈ es.map F.hash
    · -- everything before `f` is shared, and so is `f`
      obtain ⟨e, he, hef⟩ := List.mem_map.1 hf
      obtain ⟨us, vs, rfl⟩ := List.append_of_mem he
      have hpre := Linked.map_hash_eq_of_mem hF _ _ _ _ h' h hef.symm
      have hlen : fs.length = us.length := by simpa using congrArg List.length hpre
      refine ⟨(fs ++ [f]).length, ?_, le_refl _, by simp⟩
      rw [List.take_length, List.length_append, hlen, List.length_singleton, List.take_append]
      simp [hpre, hef]
    · obtain ⟨h₁, -, -⟩ := linked_concat.1 h'
      obtain ⟨n, heq, hn, hdrop⟩ := ih h₁
      refine ⟨n, by rw [List.take_append_of_le_length hn]; exact heq, ?_, ?_⟩
      · rw [List.length_append]; omega
      · rw [List.drop_append_of_le_length hn]
        intro g hg
        rcases List.mem_append.1 hg with hg | hg
        · exact hdrop g hg
        · rw [List.mem_singleton.1 hg]; exact hf

end Fields

end HashChain
