import Doda.Turn.Discipline
import Mathlib.Data.List.Induction

/-!
# The transactions of a request

Whatever a process serves, what is seen of its open transaction is nothing of a turn, or
the beginning of what the handler of one chat request shows; and when it commits, the
whole of it, with a handler that returned.

## Main definitions

* `Mark.OfTurn` — what a turn shows inside its transaction.
* `sinceEnd` — the marks of the open transaction.
* `Within`, `Whole`, `Undone` — what an open transaction has shown, what one that
  commits has, and what one that is rolled back has.
* `within_of_reachable`, `whole_of_commits` — every transaction is so.
-/

namespace Doda

open ReadCommitted

/-! ## The open transaction -/

/-- A commit or a rollback. -/
def Mark.isEnd : Mark → Bool
  | .committed | .rolledBack => true
  | _ => false

/-- The marks since the last end of a transaction. -/
def sinceEnd (ms : List Mark) : List Mark := (ms.reverse.takeWhile (!·.isEnd)).reverse

theorem sinceEnd_concat (ms : List Mark) (m : Mark) :
    sinceEnd (ms ++ [m]) = if m.isEnd then [] else sinceEnd ms ++ [m] := by
  rw [sinceEnd, List.reverse_append, List.reverse_singleton, List.singleton_append,
    List.takeWhile_cons]
  cases m.isEnd <;> simp [sinceEnd]

theorem mem_sinceEnd {ms : List Mark} {m : Mark} (h : m ∈ sinceEnd ms) : m ∈ ms := by
  have := (List.takeWhile_prefix fun m : Mark => !m.isEnd).subset (List.mem_reverse.1 h)
  simpa using this

/-- Where a transaction begins and does not end. -/
theorem sinceEnd_append {ms ms' : List Mark} (h : sinceEnd ms = [])
    (hms : ∀ m ∈ ms', m.isEnd = false) : sinceEnd (ms ++ ms') = ms' := by
  induction ms' using List.reverseRecOn with
  | nil => rw [List.append_nil, h]
  | append_singleton ms' m ih =>
    obtain ⟨hms, hm⟩ := List.forall_mem_append.1 hms
    rw [← List.append_assoc, sinceEnd_concat, List.forall_mem_singleton.1 hm, ih hms]
    rfl

theorem mark_isEnd {ev : Event Row Answer} {m : Mark} (hm : mark ev = some m) :
    m.isEnd = ev.ends := by
  cases ev with
  | ran p q x =>
    rw [mark_ran] at hm
    fun_cases stmtMark q x
    all_goals simp_all [stmtMark, Event.ends]
    all_goals
      subst hm
      rfl
  | called p e x =>
    rw [mark_called] at hm
    fun_cases callMark e x
    all_goals simp_all [callMark, Event.ends]
    all_goals
      subst hm
      rfl
  | failed | committed | rolledBack =>
    obtain rfl := Option.some.inj hm
    rfl
  | crashed => simp [mark] at hm

/-- The marks of the open transaction are those since the last end. -/
theorem marks_opened (p : ℕ) (h : Hist) : marks (opened p h) = sinceEnd (marks (own p h)) := by
  rw [opened]
  induction own p h with
  | nil => rfl
  | cons ev evs ih =>
    rw [List.takeWhile_cons]
    cases hends : ev.ends with
    | true =>
      cases ev with
      | committed | rolledBack =>
        rw [Bool.not_true, if_neg Bool.false_ne_true, marks_cons, mark, Option.toList_some,
          sinceEnd_concat]
        rfl
      | ran | called | failed | crashed => simp [Event.ends] at hends
    | false =>
      rw [Bool.not_false, if_pos rfl, marks_cons, marks_cons]
      cases hm : mark ev with
      | none =>
        rw [Option.toList_none, List.append_nil, List.append_nil]
        exact ih
      | some m =>
        rw [Option.toList_some, sinceEnd_concat, mark_isEnd hm, hends, ← ih]
        rfl

/-! ## Handlers -/

/-- What a turn shows inside its transaction. -/
def Mark.OfTurn : Mark → Prop
  | .strange | .preference | .committed | .rolledBack => False
  | _ => True

theorem Mark.OfTurn.not_isEnd {m : Mark} (h : m.OfTurn) : m.isEnd = false := by
  cases m <;> first | rfl | exact h.elim

theorem Mark.OfLoop.ofTurn {m : Mark} (h : m.OfLoop) : m.OfTurn := by
  cases m <;> trivial

theorem Mark.OfSettlement.ofTurn {m : Mark} (h : m.OfSettlement) : m.OfTurn := by
  cases m <;> trivial

theorem Mark.Prelude.ofTurn {m : Mark} (h : m.Prelude) : m.OfTurn := by
  cases m <;> trivial

theorem Mark.Slight.ofTurn {m : Mark} (h : m.Slight) : m.OfTurn := by
  cases m <;> trivial

section Turn

variable [Sha256] [JsonText] [Deployment] {e : TurnContext} {s s' : Turn} {ms : List Mark}
  {r : Except Err Unit} {context : WorkspaceContext} {conversation : Conversation}
  {traceId : Uuid} {content : String} {mode : ChatMode}

omit [Sha256] [JsonText] in
theorem Reserves.ofTurn {customerId : Uuid} {estimate : ℤ} (h : Reserves customerId estimate ms) :
    ∀ m ∈ ms, m.OfTurn := by
  cases h with
  | reserved t hl hcap =>
    refine List.forall_mem_append.2 ⟨List.forall_mem_cons.2 ⟨trivial, fun m hm => ?_⟩,
      List.forall_mem_singleton.2 trivial⟩
    have := hl.reads m hm
    cases m <;> trivial

omit [Sha256] [JsonText] in
theorem Begins.ofTurn (h : Begins context conversation traceId content mode ms e s) :
    ∀ m ∈ ms, m.OfTurn := by
  cases h with
  | begun id createdAt hmf choice x hx instructions db history hh hp estimate he hd hr =>
    refine List.forall_mem_append.2 ⟨List.forall_mem_cons.2 ⟨trivial, ?_⟩,
      List.forall_mem_cons.2 ⟨trivial, List.forall_mem_cons.2 ⟨trivial, hr.ofTurn⟩⟩⟩
    exact fun m hm => (hmf m hm).ofTurn

omit [Sha256] [JsonText] in
theorem Turns.ofTurn (h : Turns e s ms r s') : ∀ m ∈ ms, m.OfTurn := by
  cases h with
  | settled hl hs =>
    exact List.forall_mem_append.2 ⟨fun m hm => (hl.ofLoop m hm).ofTurn,
      fun m hm => (hs.ofSettlement m hm).ofTurn⟩

omit [Sha256] [JsonText] in
theorem Streams.ofTurn (h : Streams context conversation traceId content mode ms r) :
    ∀ m ∈ ms, m.OfTurn := by
  cases h with
  | unbegun hms => exact fun m hm => (hms m hm).ofTurn
  | completed hb ht | closed hb ht | raised hb ht =>
    exact List.forall_mem_append.2 ⟨hb.ofTurn, ht.ofTurn⟩
  | reported hb ht =>
    exact List.forall_mem_append.2 ⟨List.forall_mem_append.2 ⟨hb.ofTurn, ht.ofTurn⟩,
      List.forall_mem_singleton.2 trivial⟩

omit [Sha256] [JsonText] in
/-- A handler writes nothing else, and does not end its transaction. -/
theorem Handles.ofTurn (h : Handles traceId content mode ms r) : ∀ m ∈ ms, m.OfTurn := by
  cases h with
  | refused hms => exact fun m hm => (hms m hm).ofTurn
  | streamed hmf hs =>
    exact List.forall_mem_append.2 ⟨fun m hm => (hmf m hm).ofTurn, hs.ofTurn⟩

/-! ## Requests -/

/-- What a process has shown in its open transaction: nothing of a turn, or a beginning of
what a handler shows, after which the commit may have failed. -/
def Within (ms : List Mark) : Prop :=
  (∀ m ∈ ms, m.Distant) ∨ ∃ traceId content mode ms₀ r,
    Handles traceId content mode ms₀ r ∧ ms <+: ms₀ ++ [.failed]

/-- What a process has shown in a transaction that it commits. -/
def Whole (ms : List Mark) : Prop :=
  (∀ m ∈ ms, m.Distant) ∨ ∃ traceId content mode, Handles traceId content mode ms (.ok ())

/-- What a process has shown in a transaction that it rolls back. -/
def Undone (ms : List Mark) : Prop :=
  .failed ∈ ms ∨ (∀ m ∈ ms, m.Distant) ∨
    ∃ traceId content mode err, Handles traceId content mode ms (.error err)

/-- Each transaction in these marks of a process is of one of these kinds. -/
structure Served (ms : List Mark) : Prop where
  within : ∀ ms₁, ms₁ <+: ms → Within (sinceEnd ms₁)
  whole : ∀ ms₁, ms₁ ++ [.committed] <+: ms → Whole (sinceEnd ms₁)
  undone : ∀ ms₁, ms₁ ++ [.rolledBack] <+: ms → Undone (sinceEnd ms₁)

omit [Sha256] [JsonText] in
theorem Served.of_append {ms' : List Mark} (h : Served (ms ++ ms')) : Served ms where
  within ms₁ hp := h.within ms₁ (hp.trans (List.prefix_append ..))
  whole ms₁ hp := h.whole ms₁ (hp.trans (List.prefix_append ..))
  undone ms₁ hp := h.undone ms₁ (hp.trans (List.prefix_append ..))

omit [Sha256] [JsonText] in
theorem served_nil : Served [] where
  within ms₁ hp := by
    rw [List.prefix_nil.1 hp]
    exact .inl (List.forall_mem_nil _)
  whole ms₁ hp := by simp at hp
  undone ms₁ hp := by simp at hp

omit [Sha256] [JsonText] in
/-- One mark more. -/
theorem Served.concat (h : Served ms) {m : Mark} (hw : Within (sinceEnd (ms ++ [m])))
    (hc : m = .committed → Whole (sinceEnd ms)) (hr : m = .rolledBack → Undone (sinceEnd ms)) :
    Served (ms ++ [m]) where
  within ms₁ hp := by
    rcases List.prefix_concat_iff.1 hp with rfl | hp
    · exact hw
    · exact h.within ms₁ hp
  whole ms₁ hp := by
    rcases List.prefix_concat_iff.1 hp with heq | hp
    · obtain ⟨rfl, hm⟩ := List.append_inj' heq rfl
      exact hc (List.singleton_inj.1 hm).symm
    · exact h.whole ms₁ hp
  undone ms₁ hp := by
    rcases List.prefix_concat_iff.1 hp with heq | hp
    · obtain ⟨rfl, hm⟩ := List.append_inj' heq rfl
      exact hr (List.singleton_inj.1 hm).symm
    · exact h.undone ms₁ hp

omit [Sha256] [JsonText] in
/-- An end more. -/
theorem Served.concat_end (h : Served ms) {m : Mark} (hm : m.isEnd = true)
    (hc : m = .committed → Whole (sinceEnd ms)) (hr : m = .rolledBack → Undone (sinceEnd ms)) :
    Served (ms ++ [m]) := by
  refine h.concat ?_ hc hr
  rw [sinceEnd_concat, if_pos hm]
  exact .inl (List.forall_mem_nil _)

omit [Sha256] [JsonText] in
theorem served_of_distant (h : ∀ m ∈ ms, m.Distant) : Served ms := by
  have hpre : ∀ {ms₁ : List Mark}, ms₁ <+: ms → ∀ m ∈ sinceEnd ms₁, m.Distant :=
    fun hp m hm => h m (hp.subset (mem_sinceEnd hm))
  exact ⟨fun ms₁ hp => .inl (hpre hp),
    fun ms₁ hp => .inl (hpre ((List.prefix_append ..).trans hp)),
    fun ms₁ hp => .inr (.inl (hpre ((List.prefix_append ..).trans hp)))⟩

omit [Sha256] [JsonText] in
/-- A handler runs in a new transaction. -/
theorem Served.handles (h : Served ms) (hnew : sinceEnd ms = []) {ms₀ ms₁ : List Mark}
    (hh : Handles traceId content mode ms₀ r) (hp : ms₁ <+: ms₀ ++ [.failed]) :
    Served (ms ++ ms₁) ∧ sinceEnd (ms ++ ms₁) = ms₁ := by
  have hend : ∀ m ∈ ms₀ ++ [.failed], m.isEnd = false :=
    List.forall_mem_append.2 ⟨fun m hm => (hh.ofTurn m hm).not_isEnd,
      List.forall_mem_singleton.2 rfl⟩
  induction ms₁ using List.reverseRecOn with
  | nil => rw [List.append_nil]; exact ⟨h, hnew⟩
  | append_singleton ms₁ m ih =>
    have hp₁ := (List.prefix_append ms₁ [m]).trans hp
    have hsince := sinceEnd_append hnew fun m' hm' => hend m' (hp.subset hm')
    have hm : m.isEnd = false := hend m (hp.subset (by simp))
    refine ⟨?_, hsince⟩
    rw [← List.append_assoc]
    refine (ih hp₁).1.concat ?_ (fun heq => ?_) fun heq => ?_
    · rw [List.append_assoc, hsince]
      exact .inr ⟨_, _, _, ms₀, r, hh, hp⟩
    · simp [heq, Mark.isEnd] at hm
    · simp [heq, Mark.isEnd] at hm

omit [Sha256] [JsonText] in
/-- **What a chat request serves.** -/
theorem Serves.served (h : Serves traceId content mode ms) : Served ms := by
  have hbegun : Served [.committed] :=
    served_nil.concat_end rfl (fun _ => .inl (List.forall_mem_nil _)) (by simp)
  cases h with
  | unfound hms => exact served_of_distant hms
  | @raised ms err hh =>
    obtain ⟨hms, hsince⟩ := hbegun.handles rfl hh (List.prefix_append ms [.failed])
    refine hms.concat_end rfl (by simp) fun _ => ?_
    rw [hsince]
    exact .inr (.inr ⟨_, _, _, err, hh⟩)
  | @returned ms me hh hme =>
    obtain ⟨hms, hsince⟩ := hbegun.handles rfl hh (List.prefix_append ms [.failed])
    have hcommitted : Served (.committed :: ms ++ [.committed]) := by
      refine hms.concat_end rfl (fun _ => ?_) (by simp)
      rw [hsince]
      exact .inr ⟨_, _, _, hh⟩
    rcases hme with rfl | rfl | rfl
    · exact hcommitted
    · have hlost := hcommitted.concat (m := .failed) (.inl (by
        rw [sinceEnd_concat, sinceEnd_concat]
        simp [Mark.isEnd, Mark.Distant, Mark.Slight])) (by simp) (by simp)
      have := hlost.concat_end (m := .rolledBack) rfl (by simp) fun _ => .inl (by
        rw [sinceEnd_concat]
        simp [Mark.isEnd])
      simpa using this
    · obtain ⟨hfailed, hsince⟩ := hbegun.handles rfl hh (List.prefix_refl (ms ++ [.failed]))
      have := hfailed.concat_end (m := .rolledBack) rfl (by simp) fun _ => .inl (by
        rw [hsince]
        simp)
      simpa using this

/-! ## Every process -/

/-- **Every process is served so.** -/
theorem serve_served (p : ℕ) (q : Request) :
    Emits mark p (fun ms _ => Served ms) (fun ms _ => Served ms) (serve q) := by
  cases hq : q.isChat with
  | false =>
    exact ((serve_distant hq).emits p).mono (fun _ _ h => served_of_distant h)
      fun _ _ h => served_of_distant h
  | true =>
    cases q with
    | chat who w c t content mode =>
      exact (serve_chat_emits who w c t content mode).mono (fun _ _ h => h.served)
        fun _ _ h => h.served
    | _ => simp [Request.isChat] at hq

/-- The marks of a run are of these kinds. -/
theorem served_of_runs {p : ℕ} {q : Request} {m : Session Reply} {h : Hist}
    (hr : Runs p (serve q) [] m h) : Served (marks h) := by
  rw [← List.append_nil h] at hr
  exact (serve_served p q).throughout (fun _ _ h => h.of_append) hr

variable {st : Sys Row Answer Err Reply Request}

/-- **What is seen of an open transaction**, in every reachable state. -/
theorem within_of_reachable (hs : Reachable serve st) (p : ℕ) :
    Within (marks (opened p st.hist)) := by
  rw [marks_opened]
  by_cases hp : p < st.procs.length
  · obtain ⟨q, m, h, hrun, hown⟩ := hs.own_runs p hp
    have := (served_of_runs hrun).within _ (List.prefix_refl _)
    rcases hown with heq | heq
    · rwa [heq]
    · rw [heq, marks_cons]
      simpa [mark] using this
  · have hnil : own p st.hist = [] :=
      own_eq_nil fun ev hev => Nat.ne_of_lt ((hs.runs.1 ev hev).trans_le (not_lt.1 hp))
    rw [hnil]
    exact .inl (List.forall_mem_nil _)

/-- **What is seen of a transaction that commits.** -/
theorem whole_of_commits {h : Hist} {p : ℕ} {w : Db} (hc : Commits serve h p w) :
    Whole (marks (opened p h)) := by
  obtain ⟨q, k, hrun⟩ := hc.run
  have := hrun.trans (.committed w (.refl _ _))
  have := (served_of_runs this).whole (marks (own p h)) (by
    rw [marks_cons]
    exact List.prefix_refl _)
  rwa [marks_opened]

end Turn

end Doda
