import Mathlib.Data.List.Infix
import Mathlib.Order.Basic

/-!
# The patterns of LIKE

A pattern matches a text as a whole: one wildcard stands for any text, another for any
single character, and the character behind the escape for itself.  A text whose special
characters are escaped matches itself and nothing else, so between two wildcards for
any text it matches what contains it.  Matching up to a folding of characters is
matching of folded texts.

## Main definitions

* `Wildcards` — the special characters.
* `Wildcards.like` — a pattern matches a text.
* `Wildcards.escapeAll` — the special characters of a text, escaped.
* `Wildcards.Folding` — a folding that leaves the special characters alone.

## Main results

* `Wildcards.like_escapeAll` — an escaped text matches itself.
* `Wildcards.like_contains` — an escaped text between wildcards.
* `Wildcards.Folding.fold_escapeAll` — a folding commutes with escaping.
-/

/-- Special characters of patterns. -/
structure Wildcards (A : Type*) where
  /-- Stands for any text. -/
  many : A
  /-- Stands for any character. -/
  one : A
  escape : A
  many_ne_escape : many ≠ escape
  one_ne_escape : one ≠ escape

namespace Wildcards

variable {A : Type*} [DecidableEq A] (w : Wildcards A)

/-- `text LIKE pattern`, behind an escape or not; a pattern must not end with the escape. -/
def likeFrom : Bool → List A → List A → Bool
  | false, [], t => t.isEmpty
  | true, [], _ => false
  | true, a :: p, t => t.head?.any (a = ·) && likeFrom false p t.tail
  | false, a :: p, t =>
    if a = w.escape then likeFrom true p t
    else if a = w.many then t.tails.any (likeFrom false p)
    else t.head?.any (fun d => a = w.one || a = d) && likeFrom false p t.tail

/-- `text LIKE pattern`. -/
def like (pattern text : List A) : Bool := w.likeFrom false pattern text

/-- Whether a character is special. -/
def special (a : A) : Bool := a = w.many || a = w.one || a = w.escape

/-- A text with the escape before each special character. -/
def escapeAll (q : List A) : List A :=
  q.flatMap fun a => if w.special a then [w.escape, a] else [a]

variable {w} {q p t : List A}

theorem like_many : w.like (w.many :: p) t = true ↔ ∃ t', t' <:+ t ∧ w.like p t' = true := by
  rw [like, likeFrom, if_neg w.many_ne_escape, if_pos rfl, List.any_eq_true]
  simp only [List.mem_tails, like]

/-- A character that stands for itself. -/
theorem literal_iff {a : A} : (t.head?.any (a = ·) && w.likeFrom false p t.tail) = true ↔
    ∃ t', t = a :: t' ∧ w.like p t' = true := by
  cases t with
  | nil => simp
  | cons d t =>
    simp only [List.head?_cons, Option.any_some, List.tail_cons, Bool.and_eq_true,
      decide_eq_true_eq]
    constructor
    · rintro ⟨rfl, h⟩
      exact ⟨t, rfl, h⟩
    · rintro ⟨t', heq, h⟩
      cases heq
      exact ⟨rfl, h⟩

/-- One character of an escaped text. -/
theorem like_escaped (a : A) :
    w.like ((if w.special a then [w.escape, a] else [a]) ++ p) t = true ↔
      ∃ t', t = a :: t' ∧ w.like p t' = true := by
  by_cases ha : w.special a = true
  · rw [if_pos ha, like, List.cons_append, likeFrom, if_pos rfl, List.cons_append, likeFrom]
    exact literal_iff
  · rw [if_neg ha]
    simp only [special, Bool.or_eq_true, decide_eq_true_eq, not_or] at ha
    obtain ⟨⟨hmany, hone⟩, hescape⟩ := ha
    rw [like, List.cons_append, likeFrom, if_neg hescape, if_neg hmany]
    simp only [hone, decide_false, Bool.false_or]
    exact literal_iff

/-- **An escaped text matches itself.** -/
theorem like_escapeAll :
    w.like (w.escapeAll q ++ p) t = true ↔ ∃ t', t = q ++ t' ∧ w.like p t' = true := by
  induction q generalizing t with
  | nil => simp [escapeAll]
  | cons a q ih =>
    have hcons : w.escapeAll (a :: q) ++ p =
        (if w.special a then [w.escape, a] else [a]) ++ (w.escapeAll q ++ p) := by
      rw [escapeAll, List.flatMap_cons, List.append_assoc]
      rfl
    rw [hcons, like_escaped]
    constructor
    · rintro ⟨t', rfl, h⟩
      obtain ⟨t'', rfl, hp⟩ := ih.1 h
      exact ⟨t'', rfl, hp⟩
    · rintro ⟨t', rfl, h⟩
      exact ⟨q ++ t', rfl, ih.2 ⟨t', rfl, h⟩⟩

/-- **An escaped text between wildcards** matches what contains the text. -/
theorem like_contains : w.like (w.many :: (w.escapeAll q ++ [w.many])) t = true ↔ q <:+: t := by
  have hrest : ∀ t', w.like [w.many] t' = true := by
    intro t'
    rw [like_many]
    exact ⟨[], List.nil_suffix, rfl⟩
  rw [like_many]
  constructor
  · rintro ⟨t', ⟨before, rfl⟩, h⟩
    obtain ⟨behind, rfl, -⟩ := like_escapeAll.1 h
    exact ⟨before, behind, by rw [List.append_assoc]⟩
  · rintro ⟨before, behind, rfl⟩
    refine ⟨q ++ behind, ⟨before, by rw [List.append_assoc]⟩, ?_⟩
    exact like_escapeAll.2 ⟨behind, rfl, hrest behind⟩

/-! ## Folding -/

variable (w) in
/-- A folding of characters, which may make several of one.  The special characters are folded to
themselves, and nothing else is folded to them. -/
structure Folding where
  fold : A → List A
  fold_special : ∀ a, w.special a = true → fold a = [a]
  not_special : ∀ a b, w.special a = false → b ∈ fold a → w.special b = false

namespace Folding

variable (f : w.Folding)

/-- A text, folded. -/
def foldAll (t : List A) : List A := t.flatMap f.fold

/-- `text ILIKE pattern`. -/
def ilike (pattern text : List A) : Bool := w.like (f.foldAll pattern) (f.foldAll text)

theorem escapeAll_of_not_special {q : List A} (hq : ∀ a ∈ q, w.special a = false) :
    w.escapeAll q = q := by
  induction q with
  | nil => rfl
  | cons a q ih =>
    have hrest := ih fun b hb => hq b (List.mem_cons_of_mem a hb)
    rw [escapeAll, List.flatMap_cons, if_neg (by simp [hq a List.mem_cons_self])]
    exact congrArg (a :: ·) hrest

/-- **Folding commutes with escaping.** -/
theorem fold_escapeAll (q : List A) : f.foldAll (w.escapeAll q) = w.escapeAll (f.foldAll q) := by
  have hescape : f.fold w.escape = [w.escape] := f.fold_special _ (by simp [special])
  induction q with
  | nil => rfl
  | cons a q ih =>
    rw [foldAll, escapeAll, List.flatMap_cons, List.flatMap_append]
    rw [foldAll, List.flatMap_cons, escapeAll, List.flatMap_append]
    change _ ++ f.foldAll (w.escapeAll q) = _ ++ w.escapeAll (f.foldAll q)
    rw [ih]
    congr 1
    by_cases ha : w.special a = true
    · simp [ha, hescape, f.fold_special a ha]
    · rw [if_neg ha, List.flatMap_singleton]
      exact (escapeAll_of_not_special fun b hb =>
        f.not_special a b (Bool.not_eq_true _ ▸ ha) hb).symm

/-- **Matching up to folding.** -/
theorem ilike_contains (q t : List A) :
    f.ilike (w.many :: (w.escapeAll q ++ [w.many])) t = true ↔ f.foldAll q <:+: f.foldAll t := by
  have hmany : f.fold w.many = [w.many] := f.fold_special _ (by simp [special])
  have hfold : f.foldAll (w.many :: (w.escapeAll q ++ [w.many])) =
      w.many :: (w.escapeAll (f.foldAll q) ++ [w.many]) := by
    rw [← f.fold_escapeAll, foldAll, List.flatMap_cons, List.flatMap_append, hmany]
    simp [hmany, foldAll]
  rw [ilike, hfold, like_contains]

end Folding

end Wildcards
