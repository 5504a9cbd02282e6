import Mathlib.Data.Nat.Notation

/-!
# Framing a stream

A stream arrives in pieces, and a receiver cuts off one frame after another from
what it has buffered.  Where a cut does not depend on what comes later, the
frames it gets, and the rest that stays buffered, are those of the whole stream,
however it is split.

## Main definitions

* `Cuts cut` — a cut takes something off, and more input does not change it.
* `drain` — cut off frames while there is one.
* `feed` — take the pieces one by one.

## Main results

* `feed_eq_drain` — the pieces do not matter.
* `drain_frames` — what was framed is what is cut off.
-/

namespace Framing

variable {α β : Type}

/-- A cut takes something off, and more input does not change it. -/
structure Cuts (cut : List α → Option (β × List α)) : Prop where
  shorter : ∀ {x f r}, cut x = some (f, r) → r.length < x.length
  append : ∀ {x f r} y, cut x = some (f, r) → cut (x ++ y) = some (f, r ++ y)

/-- Cut off frames, at most `n`. -/
def drainAtMost (cut : List α → Option (β × List α)) : ℕ → List α → List β × List α
  | 0, x => ([], x)
  | n + 1, x =>
    match cut x with
    | none => ([], x)
    | some (f, r) => ((f :: (drainAtMost cut n r).1), (drainAtMost cut n r).2)

/-- Cut off frames while there is one. -/
def drain (cut : List α → Option (β × List α)) (x : List α) : List β × List α :=
  drainAtMost cut x.length x

/-- Take pieces one by one, from what is buffered on. -/
def feed (cut : List α → Option (β × List α)) : List α → List (List α) → List β × List α
  | buffer, [] => ([], buffer)
  | buffer, x :: xs =>
    let (fs, rest) := drain cut (buffer ++ x)
    let (gs, rest) := feed cut rest xs
    (fs ++ gs, rest)

variable {cut : List α → Option (β × List α)}

theorem drain_of_none {x : List α} (h : cut x = none) : drain cut x = ([], x) := by
  rw [drain]
  cases hx : x.length with
  | zero => rfl
  | succ n => rw [drainAtMost, h]

section Cuts

variable (hc : Cuts cut)

include hc

/-- More cuts than there are bytes change nothing. -/
theorem drainAtMost_eq {n m : ℕ} {x : List α} (hn : x.length ≤ n) (hm : x.length ≤ m) :
    drainAtMost cut n x = drainAtMost cut m x := by
  induction n generalizing m x with
  | zero =>
    cases m with
    | zero => rfl
    | succ m =>
      rw [drainAtMost, drainAtMost]
      cases hx : cut x with
      | none => rfl
      | some fr =>
        have := hc.shorter hx
        omega
  | succ n ih =>
    cases m with
    | zero =>
      rw [drainAtMost, drainAtMost]
      cases hx : cut x with
      | none => rfl
      | some fr =>
        have := hc.shorter hx
        omega
    | succ m =>
      rw [drainAtMost, drainAtMost]
      cases hx : cut x with
      | none => rfl
      | some fr =>
        obtain ⟨f, r⟩ := fr
        have hr := hc.shorter hx
        have heq : drainAtMost cut n r = drainAtMost cut m r := ih (by omega) (by omega)
        dsimp only
        rw [heq]

theorem drain_of_some {x r : List α} {f : β} (h : cut x = some (f, r)) :
    drain cut x = (f :: (drain cut r).1, (drain cut r).2) := by
  have hr := hc.shorter h
  obtain ⟨n, hn⟩ : ∃ n, x.length = n + 1 := ⟨x.length - 1, by omega⟩
  rw [drain, hn, drainAtMost, h]
  dsimp only
  rw [drainAtMost_eq hc (n := n) (m := r.length) (by omega) (Nat.le_refl _), ← drain]

/-- What is left has no frame. -/
theorem cut_drain (x : List α) : cut (drain cut x).2 = none := by
  induction hn : x.length using Nat.strongRecOn generalizing x with
  | _ n ih =>
    cases hx : cut x with
    | none => rwa [drain_of_none hx]
    | some fr =>
      obtain ⟨f, r⟩ := fr
      rw [drain_of_some hc hx]
      exact ih r.length (hn ▸ hc.shorter hx) r rfl

/-- **A stream is drained piece by piece.** -/
theorem drain_append (x y : List α) :
    drain cut (x ++ y) = ((drain cut x).1 ++ (drain cut ((drain cut x).2 ++ y)).1,
      (drain cut ((drain cut x).2 ++ y)).2) := by
  induction hn : x.length using Nat.strongRecOn generalizing x with
  | _ n ih =>
    cases hx : cut x with
    | none =>
      rw [drain_of_none hx]
      simp
    | some fr =>
      obtain ⟨f, r⟩ := fr
      rw [drain_of_some hc hx, drain_of_some hc (hc.append y hx),
        ih r.length (hn ▸ hc.shorter hx) r rfl]
      simp

/-- **The pieces do not matter.** -/
theorem feed_eq_drain {buffer : List α} (hb : cut buffer = none) (xs : List (List α)) :
    feed cut buffer xs = drain cut (buffer ++ xs.flatten) := by
  induction xs generalizing buffer with
  | nil => simp [feed, drain_of_none hb]
  | cons x xs ih =>
    rw [feed]
    dsimp only
    rw [ih (cut_drain hc _), List.flatten_cons, ← List.append_assoc, drain_append hc (buffer ++ x)]

/-- **What was framed is what is cut off**, and nothing is left. -/
theorem drain_frames (hnil : cut [] = none) {γ : Type} {frame : γ → List α} {read : γ → β}
    (hframe : ∀ c rest, cut (frame c ++ rest) = some (read c, rest)) (cs : List γ) :
    drain cut (cs.flatMap frame) = (cs.map read, []) := by
  induction cs with
  | nil => simpa using drain_of_none hnil
  | cons c cs ih =>
    rw [List.flatMap_cons, drain_of_some hc (hframe c _), ih, List.map_cons]

end Cuts

end Framing
