import Mathlib.Data.List.Infix
import Mathlib.Order.Basic

/-!
# Regular expressions with word boundaries

A backtracking matcher finds an end of a match if there is one, so what a search
finds is given by the list of all ends.  A place in a text is the character before
it and the text after it; a word boundary is a place that a word character is on just
one side of.

## Main definitions

* `Regex`, `Regex.ends` — expressions, and where their matches end.
* `Regex.Matches`, `Regex.search` — a match at a place, and anywhere in a text.
* `Regex.Accepts` — the language of an expression.

## Main results

* `matches_of_accepts` — what is in the language is matched.
* `matches_rigid_seq` — single characters, followed by anything.
* `matches_rep_seq` — a run of a class, followed by what cannot begin with it.
* `matches_rep_boundary` — a run of a class that is to end at a word boundary.
-/

/-- A place in a text. -/
structure Place where
  before : Option Char
  rest : List Char

/-- The place before the character with this index. -/
def Place.ofIndex (text : List Char) (i : ℕ) : Place := ⟨(text.take i).getLast?, text.drop i⟩

/-- Regular expressions. -/
inductive Regex where
  | empty
  /-- One character of a class. -/
  | char (p : Char → Bool)
  /-- At least `n` characters of a class, or exactly `n`. -/
  | rep (p : Char → Bool) (n : ℕ) (exactly : Bool)
  | seq (r s : Regex)
  | alt (r s : Regex)
  /-- A word boundary. -/
  | boundary

namespace Regex

/-- The ends of runs of a class. -/
def runs (p : Char → Bool) (exactly : Bool) : ℕ → Option Char → List Char → List Place
  | 0, b, [] => [⟨b, []⟩]
  | _ + 1, _, [] => []
  | 0, b, c :: cs =>
    ⟨b, c :: cs⟩ :: if p c ∧ ¬ exactly then runs p exactly 0 (some c) cs else []
  | n + 1, _, c :: cs => if p c then runs p exactly n (some c) cs else []

/-- Where the matches at a place end; `w` says which characters are word characters. -/
def ends (w : Char → Bool) : Regex → Place → List Place
  | .empty, x => [x]
  | .char p, x =>
    match x.rest with
    | [] => []
    | c :: cs => if p c then [⟨some c, cs⟩] else []
  | .rep p n exactly, x => runs p exactly n x.before x.rest
  | .seq r s, x => (ends w r x).flatMap (ends w s)
  | .alt r s, x => ends w r x ++ ends w s x
  | .boundary, x => if x.before.any w ≠ x.rest.head?.any w then [x] else []

/-- There is a match at the place. -/
def Matches (w : Char → Bool) (r : Regex) (x : Place) : Prop := r.ends w x ≠ []

instance (w : Char → Bool) (r : Regex) (x : Place) : Decidable (r.Matches w x) :=
  inferInstanceAs (Decidable (_ ≠ []))

/-- There is a match in the text. -/
def search (w : Char → Bool) (r : Regex) (text : List Char) : Bool :=
  (List.range (text.length + 1)).any fun i => r.Matches w (.ofIndex text i)

/-- The texts an expression stands for, its word boundaries aside. -/
def Accepts : Regex → List Char → Prop
  | .empty, t | .boundary, t => t = []
  | .char p, t => ∃ c, t = [c] ∧ p c = true
  | .rep p n exactly, t =>
    n ≤ t.length ∧ (exactly = true → t.length = n) ∧ ∀ c ∈ t, p c = true
  | .seq r s, t => ∃ u v, t = u ++ v ∧ r.Accepts u ∧ s.Accepts v
  | .alt r s, t => r.Accepts t ∨ s.Accepts t

/-- A text, character by character. -/
def text (t : String) : Regex := t.toList.foldr (fun c r => .seq (.char (· = c)) r) .empty

/-- Single characters, one after the other. -/
def Rigid : Regex → Prop
  | .empty | .char _ => True
  | .seq r s => r.Rigid ∧ s.Rigid
  | _ => False

variable {w : Char → Bool} {r s k : Regex} {x y : Place} {p : Char → Bool} {n : ℕ} {exactly : Bool}

theorem search_iff {text : List Char} :
    r.search w text = true ↔ ∃ i ≤ text.length, r.Matches w (.ofIndex text i) := by
  simp only [search, List.any_eq_true, List.mem_range, Nat.lt_succ_iff, decide_eq_true_eq]

/-! ## Ends of matches -/

@[simp] theorem ends_empty : empty.ends w x = [x] := rfl

@[simp] theorem ends_char_nil {b : Option Char} : (char p).ends w ⟨b, []⟩ = [] := rfl

@[simp] theorem ends_char_cons {b : Option Char} {c : Char} {cs : List Char} :
    (char p).ends w ⟨b, c :: cs⟩ = if p c then [⟨some c, cs⟩] else [] := rfl

@[simp] theorem ends_rep : (rep p n exactly).ends w x = runs p exactly n x.before x.rest := rfl

@[simp] theorem ends_seq : (seq r s).ends w x = (r.ends w x).flatMap (s.ends w) := rfl

@[simp] theorem ends_boundary :
    boundary.ends w x = if x.before.any w ≠ x.rest.head?.any w then [x] else [] := rfl

/-! ## Matches of sequences -/

theorem matches_iff : r.Matches w x ↔ ∃ y, y ∈ r.ends w x := by
  rw [Matches, ne_eq, List.eq_nil_iff_forall_not_mem, not_forall_not]

theorem matches_seq : (seq r s).Matches w x ↔ ∃ y ∈ r.ends w x, s.Matches w y := by
  simp only [matches_iff, ends_seq, List.mem_flatMap]
  exact ⟨fun ⟨z, y, hy, hz⟩ => ⟨y, hy, z, hz⟩, fun ⟨y, hy, z, hz⟩ => ⟨z, y, hy, hz⟩⟩

@[simp] theorem matches_empty : empty.Matches w x := by simp [matches_iff]

theorem matches_boundary : boundary.Matches w x ↔ x.before.any w ≠ x.rest.head?.any w := by
  rw [Matches, ends_boundary]
  split <;> simp_all

theorem matches_seq_empty : (seq .empty s).Matches w x ↔ s.Matches w x := by
  simp [matches_seq]

theorem matches_seq_boundary :
    (seq .boundary s).Matches w x ↔ x.before.any w ≠ x.rest.head?.any w ∧ s.Matches w x := by
  rw [matches_seq, ends_boundary]
  split <;> simp_all

theorem matches_seq_assoc :
    (seq (seq r s) k).Matches w x ↔ (seq r (seq s k)).Matches w x := by
  simp only [matches_seq, ends_seq, List.mem_flatMap]
  exact ⟨fun ⟨z, ⟨y, hy, hz⟩, hk⟩ => ⟨y, hy, z, hz, hk⟩,
    fun ⟨y, hy, z, hz, hk⟩ => ⟨z, ⟨y, hy, hz⟩, hk⟩⟩

theorem matches_char_seq {b : Option Char} {cs : List Char} :
    (seq (.char p) s).Matches w ⟨b, cs⟩ ↔
      ∃ c cs', cs = c :: cs' ∧ p c = true ∧ s.Matches w ⟨some c, cs'⟩ := by
  rw [matches_seq]
  cases cs with
  | nil => simp
  | cons c cs =>
    by_cases hc : p c = true <;> simp [hc]

theorem accepts_text {t : String} {f : List Char} : (text t).Accepts f ↔ f = t.toList := by
  unfold text
  induction t.toList generalizing f with
  | nil => rfl
  | cons c cs ih =>
    constructor
    · rintro ⟨u, v, rfl, ⟨d, rfl, hd⟩, hv⟩
      obtain rfl := ih.1 hv
      simpa using hd
    · rintro rfl
      exact ⟨[c], cs, rfl, ⟨c, rfl, by simp⟩, ih.2 rfl⟩

theorem rigid_text (t : String) : (text t).Rigid := by
  unfold text
  induction t.toList with
  | nil => trivial
  | cons c cs ih => exact ⟨trivial, ih⟩

theorem getLast?_append_or {b : Option Char} (u v : List Char) :
    (u ++ v).getLast?.or b = v.getLast?.or (u.getLast?.or b) := by
  rw [List.getLast?_append, Option.or_assoc]

/-- **Single characters, followed by anything.** -/
theorem matches_rigid_seq (hr : r.Rigid) {f rest : List Char} (hf : r.Accepts f)
    {b : Option Char} :
    (seq r k).Matches w ⟨b, f ++ rest⟩ ↔ k.Matches w ⟨f.getLast?.or b, rest⟩ := by
  induction r generalizing f rest b k with
  | empty =>
    obtain rfl : f = [] := hf
    exact matches_seq_empty
  | char p =>
    obtain ⟨c, rfl, hc⟩ := hf
    rw [matches_char_seq]
    constructor
    · rintro ⟨c', cs', heq, -, hmatch⟩
      obtain ⟨rfl, rfl⟩ := List.cons.inj heq
      exact hmatch
    · exact fun hmatch => ⟨c, rest, rfl, hc, hmatch⟩
  | seq r s ihr ihs =>
    obtain ⟨u, v, rfl, hu, hv⟩ := hf
    rw [matches_seq_assoc, List.append_assoc, ihr hr.1 hu, ihs hr.2 hv, getLast?_append_or]
  | rep | alt | boundary => exact hr.elim

/-- A character that is not of the class does not begin a match. -/
theorem not_matches_char_seq {b : Option Char} {c : Char} {cs : List Char} (hc : p c = false) :
    ¬ (seq (.char p) s).Matches w ⟨b, c :: cs⟩ := by
  rw [matches_char_seq]
  rintro ⟨c', cs', heq, hc', -⟩
  obtain ⟨rfl, -⟩ := List.cons.inj heq
  rw [hc] at hc'
  cases hc'

/-- A text begins with its first character only. -/
theorem not_matches_text_seq {t : String} {b : Option Char} {c : Char} {cs : List Char}
    (ht : t.toList.head?.any (· ≠ c) = true) : ¬ (seq (text t) k).Matches w ⟨b, c :: cs⟩ := by
  unfold text
  cases hl : t.toList with
  | nil => simp [hl] at ht
  | cons d ds =>
    rw [List.foldr_cons, matches_seq_assoc]
    apply not_matches_char_seq
    rw [hl] at ht
    have hne : d ≠ c := by simpa using ht
    simpa using hne.symm

/-- An expression without word boundaries. -/
def Free : Regex → Prop
  | .empty | .char _ | .rep _ _ _ => True
  | .seq r s | .alt r s => r.Free ∧ s.Free
  | .boundary => False

/-! ## Runs of a class -/

theorem getLast?_cons_or {b : Option Char} {c : Char} {cs : List Char} :
    (c :: cs).getLast?.or b = cs.getLast?.or (some c) := by
  rw [List.getLast?_cons]
  cases cs.getLast? <;> rfl

/-- What a run of the class is: as long as asked for, with the rest left after it. -/
structure Run (p : Char → Bool) (exactly : Bool) (n : ℕ) (b : Option Char) (cs run : List Char)
    (y : Place) : Prop where
  text : cs = run ++ y.rest
  least : n ≤ run.length
  exactly : exactly = true → run.length = n
  all : ∀ c ∈ run, p c = true
  before : y.before = run.getLast?.or b

theorem mem_runs {b : Option Char} {cs : List Char} :
    y ∈ runs p exactly n b cs ↔ ∃ run, Run p exactly n b cs run y := by
  induction cs generalizing n b with
  | nil =>
    cases n with
    | zero =>
      constructor
      · intro hy
        obtain rfl := List.mem_singleton.1 hy
        exact ⟨[], rfl, Nat.zero_le _, fun _ => rfl, by simp, rfl⟩
      · rintro ⟨run, htext, -, -, -, hbefore⟩
        obtain ⟨rfl, hrest⟩ := List.append_eq_nil_iff.1 htext.symm
        obtain ⟨before, rest⟩ := y
        obtain rfl : rest = [] := hrest
        obtain rfl : before = b := hbefore
        exact List.mem_singleton.2 rfl
    | succ n =>
      refine ⟨fun hy => by simp [runs] at hy, fun ⟨run, H⟩ => ?_⟩
      obtain ⟨rfl, -⟩ := List.append_eq_nil_iff.1 H.text.symm
      simpa using H.least
  | cons c cs ih =>
    -- a run that has begun goes on after its first character
    have hcons : ∀ {n' : ℕ} {run : List Char}, Run p exactly n' (some c) cs run y → p c = true →
        (exactly = true → n = n' + 1) → n ≤ n' + 1 →
        Run p exactly n b (c :: cs) (c :: run) y := fun H hc hexact hle =>
      ⟨by rw [H.text, List.cons_append],
        hle.trans (by simpa using H.least),
        fun he => by rw [List.length_cons, H.exactly he, hexact he],
        List.forall_mem_cons.2 ⟨hc, H.all⟩, H.before.trans getLast?_cons_or.symm⟩
    have htail : ∀ {run : List Char}, Run p exactly n b (c :: cs) (c :: run) y →
        Run p exactly (n - 1) (some c) cs run y := fun {run} H =>
      ⟨List.tail_eq_of_cons_eq H.text, by
          have := H.least
          rw [List.length_cons] at this
          omega,
        fun he => by
          have := H.exactly he
          rw [List.length_cons] at this
          omega,
        (List.forall_mem_cons.1 H.all).2, H.before.trans getLast?_cons_or⟩
    have hhead : ∀ {c' : Char} {run : List Char}, Run p exactly n b (c :: cs) (c' :: run) y →
        c' = c := fun H => (List.head_eq_of_cons_eq H.text).symm
    cases n with
    | zero =>
      constructor
      · intro hy
        rcases List.mem_cons.1 hy with rfl | hy
        · exact ⟨[], rfl, Nat.zero_le _, fun _ => rfl, by simp, rfl⟩
        · split at hy
          · rename_i hc
            obtain ⟨run, H⟩ := ih.1 hy
            exact ⟨c :: run, hcons H hc.1 (fun he => absurd he hc.2) (Nat.zero_le _)⟩
          · simp at hy
      · rintro ⟨run, H⟩
        cases run with
        | nil =>
          obtain ⟨before, rest⟩ := y
          obtain rfl : c :: cs = rest := H.text
          obtain rfl : before = b := H.before
          exact List.mem_cons_self
        | cons c' run =>
          obtain rfl := hhead H
          have hne : ¬ exactly = true := fun he => by simpa using H.exactly he
          refine List.mem_cons_of_mem _ ?_
          rw [if_pos ⟨(List.forall_mem_cons.1 H.all).1, hne⟩]
          exact ih.2 ⟨run, htail H⟩
    | succ n =>
      rw [runs]
      constructor
      · intro hy
        split at hy
        · rename_i hc
          obtain ⟨run, H⟩ := ih.1 hy
          exact ⟨c :: run, hcons H hc (fun _ => rfl) le_rfl⟩
        · simp at hy
      · rintro ⟨run, H⟩
        cases run with
        | nil => simpa using H.least
        | cons c' run =>
          obtain rfl := hhead H
          rw [if_pos (List.forall_mem_cons.1 H.all).1]
          exact ih.2 ⟨run, htail H⟩

/-- No character of the class stands first. -/
def StopsAt (p : Char → Bool) (rest : List Char) : Prop := ∀ c ∈ rest.head?, p c = false

/-- **What is in the language is matched**, whatever comes after it. -/
theorem mem_ends_of_accepts (hr : r.Free) {t rest : List Char} (ht : r.Accepts t)
    {b : Option Char} : ⟨t.getLast?.or b, rest⟩ ∈ r.ends w ⟨b, t ++ rest⟩ := by
  induction r generalizing t rest b with
  | empty =>
    obtain rfl : t = [] := ht
    exact List.mem_singleton.2 rfl
  | char p =>
    obtain ⟨c, rfl, hc⟩ := ht
    simp [hc]
  | rep p n exactly => exact mem_runs.2 ⟨t, rfl, ht.1, ht.2.1, ht.2.2, rfl⟩
  | seq r s ihr ihs =>
    obtain ⟨u, v, rfl, hu, hv⟩ := ht
    rw [List.append_assoc, getLast?_append_or]
    exact List.mem_flatMap.2 ⟨_, ihr hr.1 hu, ihs hr.2 hv⟩
  | alt r s ihr ihs =>
    exact List.mem_append.2 (ht.imp (fun ht => ihr hr.1 ht) fun ht => ihs hr.2 ht)
  | boundary => exact hr.elim

theorem matches_of_accepts (hr : r.Free) {t rest : List Char} (ht : r.Accepts t)
    {b : Option Char} : r.Matches w ⟨b, t ++ rest⟩ := by
  rw [matches_iff]
  exact ⟨_, mem_ends_of_accepts hr ht⟩

/-- Two runs of one text, the second of which cannot go on, are prefixes of one another. -/
theorem Run.isPrefix {b : Option Char} {run run' rest : List Char}
    (H : Run p exactly n b (run ++ rest) run' y) (hrest : StopsAt p rest) : run' <+: run := by
  rcases List.append_eq_append_iff.1 H.text with ⟨l, rfl, hl⟩ | ⟨l, rfl, -⟩
  · cases l with
    | nil => exact ⟨[], by simp⟩
    | cons c l =>
      have hc : p c = true := H.all c (by simp)
      rw [hrest c (by simp [hl])] at hc
      cases hc
  · exact List.prefix_append ..

/-- **A run followed by what cannot begin with its class** goes to its end. -/
theorem matches_rep_seq {b : Option Char} {run rest : List Char} (hrun : ∀ c ∈ run, p c = true)
    (hn : n ≤ run.length) (hrest : StopsAt p rest)
    (hk : ∀ b c cs, p c = true → ¬ k.Matches w ⟨b, c :: cs⟩) :
    (seq (.rep p n false) k).Matches w ⟨b, run ++ rest⟩ ↔
      k.Matches w ⟨run.getLast?.or b, rest⟩ := by
  rw [matches_seq]
  simp only [ends_rep, mem_runs]
  constructor
  · rintro ⟨⟨before, left⟩, ⟨run', H⟩, hmatch⟩
    obtain ⟨l, rfl⟩ := H.isPrefix hrest
    obtain rfl : l ++ rest = left := by
      have := H.text
      rwa [List.append_assoc, List.append_cancel_left_eq] at this
    cases l with
    | nil =>
      rw [List.append_nil, ← H.before]
      exact hmatch
    | cons c l => exact absurd hmatch (hk _ c _ (hrun c (by simp)))
  · intro hmatch
    exact ⟨⟨_, rest⟩, ⟨run, rfl, hn, by simp, hrun, rfl⟩, hmatch⟩

/-- A character that is not of the class begins no run. -/
theorem not_matches_rep_seq {b : Option Char} {c : Char} {cs : List Char} (hc : p c = false)
    (h0 : 0 < n) : ¬ (seq (.rep p n exactly) k).Matches w ⟨b, c :: cs⟩ := by
  rw [matches_seq]
  rintro ⟨y, hy, -⟩
  obtain ⟨run, H⟩ := mem_runs.1 hy
  have hleast := H.least
  cases run with
  | nil =>
    rw [List.length_nil] at hleast
    omega
  | cons d run =>
    obtain ⟨rfl, -⟩ := List.cons.inj H.text
    rw [(List.forall_mem_cons.1 H.all).1] at hc
    cases hc

/-- The last element that satisfies `w`. -/
theorem exists_last {l : List Char} (hl : ∃ c ∈ l, w c = true) :
    ∃ pre c post, l = pre ++ c :: post ∧ w c = true ∧ ∀ d ∈ post, w d = false := by
  induction l with
  | nil => simp at hl
  | cons d l ih =>
    by_cases hmore : ∃ c ∈ l, w c = true
    · obtain ⟨pre, c, post, rfl, hc, hpost⟩ := ih hmore
      exact ⟨d :: pre, c, post, rfl, hc, hpost⟩
    · obtain ⟨c, hc, hw⟩ := hl
      rcases List.mem_cons.1 hc with rfl | hc
      · exact ⟨[], c, l, rfl, hw, fun e he => by
          by_contra hne
          exact hmore ⟨e, he, by simpa using hne⟩⟩
      · exact absurd ⟨c, hc, hw⟩ hmore

/-- **A run that is to end at a word boundary** does so just if it has a word character
from its `n`-th on. -/
theorem matches_rep_boundary {b : Option Char} {run rest : List Char}
    (hrun : ∀ c ∈ run, p c = true) (h0 : 0 < n) (hn : n ≤ run.length)
    (hexact : exactly = true → run.length = n) (hrest : StopsAt p rest) (hword : StopsAt w rest) :
    (seq (.rep p n exactly) .boundary).Matches w ⟨b, run ++ rest⟩ ↔
      ∃ c ∈ run.drop (n - 1), w c = true := by
  rw [matches_seq]
  simp only [ends_rep, mem_runs, matches_boundary]
  constructor
  · rintro ⟨⟨before, left⟩, ⟨run', H⟩, hb⟩
    obtain ⟨l, rfl⟩ := H.isPrefix hrest
    obtain rfl : l ++ rest = left := by
      have := H.text
      rwa [List.append_assoc, List.append_cancel_left_eq] at this
    have hleast := H.least
    obtain ⟨pre, c, rfl⟩ : ∃ pre c, run' = pre ++ [c] := by
      rcases List.eq_nil_or_concat run' with rfl | ⟨pre, c, rfl⟩
      · rw [List.length_nil] at hleast
        omega
      · exact ⟨pre, c, List.concat_eq_append⟩
    rw [List.length_append, List.length_singleton] at hleast
    have hdrop : ∀ d ∈ c :: l, d ∈ ((pre ++ [c]) ++ l).drop (n - 1) := fun d hd => by
      rw [List.append_assoc, List.singleton_append, List.drop_append_of_le_length (by omega)]
      exact List.mem_append_right _ hd
    by_cases hc : w c = true
    · exact ⟨c, hdrop c List.mem_cons_self, hc⟩
    · have hbefore : before = some c := by simpa using H.before
      cases l with
      | nil =>
        cases rest with
        | nil => simp [hbefore, hc] at hb
        | cons d rest => simp [hbefore, hc, hword d rfl] at hb
      | cons d l => exact ⟨d, hdrop d (by simp), by simpa [hbefore, hc] using hb⟩
  · intro hc
    obtain ⟨pre, c, post, hdrop, hc, hpost⟩ := exists_last hc
    have hsplit : run = run.take (n - 1) ++ pre ++ [c] ++ post := by
      rw [List.append_assoc, List.singleton_append, List.append_assoc, ← hdrop,
        List.take_append_drop]
    have hlength := congrArg List.length hsplit
    simp only [List.length_append, List.length_take, List.length_singleton] at hlength
    refine ⟨⟨some c, post ++ rest⟩, ⟨run.take (n - 1) ++ pre ++ [c], ?_, ?_, ?_, ?_, ?_⟩, ?_⟩
    · rw [← List.append_assoc, ← hsplit]
    · simp only [List.length_append, List.length_take, List.length_singleton]
      omega
    · intro he
      have := hexact he
      simp only [List.length_append, List.length_take, List.length_singleton]
      omega
    · intro d hd
      apply hrun
      rw [hsplit]
      exact List.mem_append_left _ hd
    · simp
    · have hhead : (post ++ rest).head?.any w = false := by
        cases post with
        | nil =>
          cases rest with
          | nil => rfl
          | cons d rest => simpa using hword d rfl
        | cons d post => simpa using hpost d List.mem_cons_self
      change (some c).any w ≠ (post ++ rest).head?.any w
      rw [hhead]
      simp [hc]

end Regex
