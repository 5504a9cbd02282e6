import Doda.Turn.Requests

/-!
# The ledger rows

The marks of a transaction tell what it makes of the ledger rows, and what it was told
of them.  A row it was told of stays locked, so at its commit all of that is still true:
the committed rows are what the committed transactions make of them one after another,
in the order of their commits.

## Main definitions

* `Ledgers`, `ledgersAfter` — the rows, and what marks make of them.
* `Mark.Holds`, `Hold` — what the marks were told is true.
* `ledgers_commit` — **the transactions are serial** on the ledger rows: a commit makes of
  the committed rows what the marks of its transaction do.
-/

namespace Doda

open ReadCommitted

/-! ## What marks make of the rows -/

/-- The ledger rows, by customer and month. -/
abbrev Ledgers := Uuid → String → Option AIBudgetLedger

/-- The ledger rows of a database. -/
def ledgers (db : Db) : Ledgers := fun c ym => row db (.aiBudgetLedger c ym)

namespace Ledgers

/-- A row is written. -/
def put (v : Ledgers) (c : Uuid) (ym : String) (l : AIBudgetLedger) : Ledgers :=
  fun c' ym' => if c' = c ∧ ym' = ym then some l else v c' ym'

/-- A row that is there is changed. -/
def change (v : Ledgers) (c : Uuid) (ym : String) (f : AIBudgetLedger → AIBudgetLedger) : Ledgers :=
  fun c' ym' => if c' = c ∧ ym' = ym then (v c' ym').map f else v c' ym'

/-- The amounts of a row; one that is not there counts as zero. -/
def balance (v : Ledgers) (c : Uuid) (ym : String) : AIBudgetLedger := (v c ym).getD {}

variable {v : Ledgers} {c c' : Uuid} {ym ym' : String} {l l' : AIBudgetLedger}

@[simp] theorem put_self : v.put c ym l c ym = some l := by simp [put]

@[simp] theorem put_put : (v.put c ym l).put c ym l' = v.put c ym l' := by
  funext c' ym'
  by_cases h : c' = c ∧ ym' = ym <;> simp [put, h]

theorem put_ne (h : ¬ (c' = c ∧ ym' = ym)) : v.put c ym l c' ym' = v c' ym' := if_neg h

@[simp] theorem put_change (f : AIBudgetLedger → AIBudgetLedger) :
    (v.put c ym l).change c ym f = v.put c ym (f l) := by
  funext c' ym'
  by_cases h : c' = c ∧ ym' = ym <;> simp [put, change, h]

theorem put_eq_self (h : v c ym = some l) : v.put c ym l = v := by
  funext c' ym'
  by_cases heq : c' = c ∧ ym' = ym
  · obtain ⟨rfl, rfl⟩ := heq
    rw [put_self, h]
  · exact put_ne heq

@[simp] theorem balance_put_self : (v.put c ym l).balance c ym = l := by simp [balance]

theorem balance_put_ne (h : ¬ (c' = c ∧ ym' = ym)) :
    (v.put c ym l).balance c' ym' = v.balance c' ym' := by
  rw [balance, put_ne h, balance]

theorem balance_eq (h : v c ym = some l) : v.balance c ym = l := by rw [balance, h]; rfl

end Ledgers

/-- What a mark makes of the ledger rows. -/
def Mark.onLedgers (v : Ledgers) : Mark → Ledgers
  | .opened c ym true => v.put c ym {}
  | .updated c ym f => v.change c ym f
  | _ => v

/-- What marks make of the ledger rows. -/
def ledgersAfter (v : Ledgers) (ms : List Mark) : Ledgers := ms.foldl Mark.onLedgers v

/-- What the mark was told is true of the ledger rows. -/
def Mark.Holds (v : Ledgers) : Mark → Prop
  | .seen c ym x => x.isSome → v c ym = x
  | .opened c ym true => v c ym = none
  | .updated c ym _ => (v c ym).isSome
  | _ => True

/-- What each mark was told is true of the ledger rows as the marks before it leave them. -/
def Hold (v : Ledgers) : List Mark → Prop
  | [] => True
  | m :: ms => m.Holds v ∧ Hold (m.onLedgers v) ms

section Marks

variable {v v' : Ledgers} {ms ms' : List Mark}

@[simp] theorem ledgersAfter_nil : ledgersAfter v [] = v := rfl

@[simp] theorem ledgersAfter_cons (m : Mark) :
    ledgersAfter v (m :: ms) = ledgersAfter (m.onLedgers v) ms := rfl

theorem ledgersAfter_append : ledgersAfter v (ms ++ ms') = ledgersAfter (ledgersAfter v ms) ms' :=
  List.foldl_append

theorem hold_append : Hold v (ms ++ ms') ↔ Hold v ms ∧ Hold (ledgersAfter v ms) ms' := by
  induction ms generalizing v with
  | nil => simp [Hold]
  | cons m ms ih => rw [List.cons_append, Hold, Hold, ih, ledgersAfter_cons, and_assoc]

/-- A mark that does nothing to the ledger rows. -/
def Mark.Apart (m : Mark) : Prop := ∀ v, m.onLedgers v = v

theorem ledgersAfter_of_apart (h : ∀ m ∈ ms, m.Apart) : ledgersAfter v ms = v := by
  induction ms with
  | nil => rfl
  | cons m ms ih =>
    obtain ⟨hm, hms⟩ := List.forall_mem_cons.1 h
    rw [ledgersAfter_cons, hm, ih hms]

theorem Mark.OfLoop.apart {m : Mark} (h : m.OfLoop) : m.Apart := fun v => by
  cases m <;> first | rfl | exact h.elim

theorem Mark.Distant.apart {m : Mark} (h : m.Distant) : m.Apart := fun v => by
  cases m <;> first | rfl | exact h.elim

theorem isSome_onLedgers (m : Mark) {c : Uuid} {ym : String} (h : (v c ym).isSome) :
    (m.onLedgers v c ym).isSome := by
  cases m with
  | opened c' ym' b =>
    cases b with
    | true =>
      rw [Mark.onLedgers, Ledgers.put]
      split <;> simp [h]
    | false => exact h
  | updated c' ym' f =>
    rw [Mark.onLedgers, Ledgers.change]
    split <;> simp [h]
  | _ => exact h

/-- A row stays once it is there. -/
theorem isSome_ledgersAfter {c : Uuid} {ym : String} (h : (v c ym).isSome) :
    (ledgersAfter v ms c ym).isSome := by
  induction ms generalizing v with
  | nil => exact h
  | cons m ms ih => exact ih (isSome_onLedgers m h)

/-- The same marks leave as many rows where there were as many. -/
theorem isSome_ledgersAfter_mono (hv : ∀ c ym, (v c ym).isSome → (v' c ym).isSome) {c : Uuid}
    {ym : String} (h : (ledgersAfter v ms c ym).isSome) : (ledgersAfter v' ms c ym).isSome := by
  induction ms generalizing v v' with
  | nil => exact hv c ym h
  | cons m ms ih =>
    refine ih (fun c' ym' hsome => ?_) h
    cases m with
    | opened c₁ ym₁ b =>
      cases b with
      | true =>
        rw [Mark.onLedgers, Ledgers.put] at hsome ⊢
        split
        · rfl
        · rename_i hne
          rw [if_neg hne] at hsome
          exact hv c' ym' hsome
      | false => exact hv c' ym' hsome
    | updated c₁ ym₁ f =>
      rw [Mark.onLedgers, Ledgers.change] at hsome ⊢
      split
      all_goals
        rename_i heq
        simp only [heq, if_true, if_false, and_self, Option.isSome_map] at hsome ⊢
        exact hv _ _ hsome
    | _ => exact hv c' ym' hsome

/-- The rows that were inserted. -/
def created (ms : List Mark) : List (Uuid × String) :=
  ms.filterMap fun | .opened c ym true => some (c, ym) | _ => none

/-- **No row is inserted twice**, and none that is there. -/
theorem Hold.created (h : Hold v ms) :
    (created ms).Nodup ∧ ∀ x ∈ created ms, v x.1 x.2 = none := by
  induction ms generalizing v with
  | nil => simp [Doda.created]
  | cons m ms ih =>
    obtain ⟨hm, hms⟩ := h
    obtain ⟨hnodup, hold⟩ := ih hms
    have hrest : ∀ x ∈ Doda.created ms, v x.1 x.2 = none := fun x hx => by
      by_contra hne
      have := isSome_onLedgers m (Option.isSome_iff_ne_none.2 hne)
      simp [hold x hx] at this
    cases m with
    | opened c ym b =>
      cases b with
      | true =>
        refine ⟨List.nodup_cons.2 ⟨fun hmem => ?_, hnodup⟩, List.forall_mem_cons.2 ⟨hm, hrest⟩⟩
        have := hold _ hmem
        simp [Mark.onLedgers] at this
      | false => exact ⟨hnodup, hrest⟩
    | _ => exact ⟨hnodup, hrest⟩

end Marks

/-! ## Transactions -/

/-- A row inserted under another key. -/
theorem effect_insert_ne {k k' : Key} (hk : k' ≠ k) (v : Row k') (x : Unit) (o : Option (Row k)) :
    Stmt.effect k (.insert [⟨k', v⟩]) x o = o := by
  refine Stmt.effect_of_not_touches (q := .insert [⟨k', v⟩]) (P := (· = k)) (by simp) ?_ x o
  simpa [Stmt.touches] using hk

/-- Only the marks that are seen to write a ledger row do. -/
theorem effect_ledger {q : Stmt Row} {x : q.Res} (hq : stmtMark q x ≠ some .strange) (v : Ledgers)
    (c : Uuid) (ym : String) : q.effect (.aiBudgetLedger c ym) x (v c ym) =
      ((stmtMark q x).elim v (Mark.onLedgers v)) c ym := by
  have hother : q.touches Key.ofTurns = false →
      q.effect (.aiBudgetLedger c ym) x (v c ym) = v c ym :=
    fun h => Stmt.effect_of_not_touches (by rfl) h x _
  revert hq
  fun_cases stmtMark q x with
  | case1 | case2 => exact fun _ => effect_insert_ne (by simp) ..
  | case3 | case8 | case11 => exact fun h => absurd rfl h
  | case4 | case5 | case6 | case10 => exact fun _ => rfl
  | case7 c' ym' b =>
    intro _
    cases b with
    | false => rfl
    | true =>
      by_cases heq : c = c' ∧ ym = ym'
      · obtain ⟨rfl, rfl⟩ := heq
        simp [Stmt.effect, Entry.version, Mark.onLedgers]
      · have hne : Key.aiBudgetLedger c' ym' ≠ .aiBudgetLedger c ym := fun h => by
          obtain ⟨rfl, rfl⟩ := Key.aiBudgetLedger.inj h
          exact heq ⟨rfl, rfl⟩
        exact (effect_insert_ne hne {} () _).trans (Ledgers.put_ne heq).symm
  | case9 c' ym' f =>
    intro _
    by_cases heq : c = c' ∧ ym = ym'
    · obtain ⟨rfl, rfl⟩ := heq
      simp [Stmt.effect, Mark.onLedgers, Ledgers.change]
    · have hne : Key.aiBudgetLedger c' ym' ≠ .aiBudgetLedger c ym := fun h => by
        obtain ⟨rfl, rfl⟩ := Key.aiBudgetLedger.inj h
        exact heq ⟨rfl, rfl⟩
      simp [Stmt.effect, hne, Mark.onLedgers, Ledgers.change, heq]
  | case12 | case13 => exact fun _ => hother (Bool.eq_false_iff.2 ‹_›)

/-- What a statement was told of the ledger rows is true. -/
theorem holds_of_told {q : Stmt Row} {x : q.Res} {v : Ledgers} {value : (k : Key) → Option (Row k)}
    (hv : ∀ c ym, value (.aiBudgetLedger c ym) = v c ym) (h : q.Told value x) :
    ∀ m ∈ stmtMark q x, m.Holds v := by
  fun_cases stmtMark q x with
  | case7 c ym b =>
    cases b with
    | false => simp [Mark.Holds]
    | true => simpa [Mark.Holds, ← hv] using h rfl
  | _ => simp_all [Stmt.Told, Mark.Holds]

section Replay

variable {db : Db} {evs : Hist}

theorem not_strange_cons {ev : Event Row Answer} (h : .strange ∉ marks (ev :: evs)) :
    .strange ∉ marks evs ∧ mark ev ≠ some .strange := by
  rw [marks_cons] at h
  refine ⟨fun hm => h (List.mem_append_left _ hm), fun hm => h (List.mem_append_right _ ?_)⟩
  rw [hm]
  exact List.mem_singleton.2 rfl

theorem not_strange_append {evs' : Hist} (h : .strange ∉ marks (evs' ++ evs)) :
    .strange ∉ marks evs := by
  rw [marks_append] at h
  exact fun hm => h (List.mem_append_left _ hm)

/-- What a transaction makes of the ledger rows is seen. -/
theorem ledgers_replay (db : Db) (hs : .strange ∉ marks evs) :
    (fun c ym => replay db evs (.aiBudgetLedger c ym)) =
      ledgersAfter (ledgers db) (marks evs) := by
  induction evs with
  | nil => rfl
  | cons ev evs ih =>
    obtain ⟨hevs, hev⟩ := not_strange_cons hs
    rw [marks_cons, ledgersAfter_append, ← ih hevs]
    funext c ym
    cases ev with
    | ran p q x =>
      have := effect_ledger hev (fun c ym => replay db evs (.aiBudgetLedger c ym)) c ym
      rw [replay, this, mark_ran]
      cases stmtMark q x <;> rfl
    | called p e x =>
      rw [mark_called]
      fun_cases callMark e x <;> rfl
    | failed | committed | rolledBack | crashed => rfl

/-- And what it was told of them. -/
theorem hold_of_told (hs : .strange ∉ marks evs) (h : Told db evs) :
    Hold (ledgers db) (marks evs) := by
  induction evs with
  | nil => trivial
  | cons ev evs ih =>
    obtain ⟨hevs, hev⟩ := not_strange_cons hs
    rw [marks_cons, hold_append]
    cases ev with
    | ran p q x =>
      refine ⟨ih hevs h.2, ?_⟩
      have := holds_of_told (fun c ym => congrFun (congrFun (ledgers_replay _ hevs) c) ym) h.1
      rw [mark_ran]
      cases hm : stmtMark q x with
      | none => trivial
      | some m => exact ⟨this m hm, trivial⟩
    | called p e x =>
      refine ⟨ih hevs h, ?_⟩
      rw [mark_called]
      fun_cases callMark e x <;> trivial
    | failed | committed | rolledBack => exact ⟨ih hevs h, trivial, trivial⟩
    | crashed => exact ⟨ih hevs h, trivial⟩

end Replay

/-! ## Serial transactions -/

section Serial

variable [Sha256] [JsonText] [Deployment] {h : Hist}

omit [Sha256] [JsonText] in
theorem Within.not_strange {ms : List Mark} (h : Within ms) : .strange ∉ ms := by
  intro hm
  rcases h with hms | ⟨_, _, _, ms₀, r, hh, hp⟩
  · exact hms _ hm
  · rcases List.mem_append.1 (hp.subset hm) with hm | hm
    · exact hh.ofTurn _ hm
    · simp at hm

omit [Sha256] [JsonText] in
theorem Whole.within {ms : List Mark} (h : Whole ms) : Within ms :=
  h.imp id fun ⟨t, content, mode, hh⟩ => ⟨t, content, mode, ms, _, hh, List.prefix_append ..⟩

/-- **One commit** does to the ledger rows what is seen of its transaction. -/
theorem ledgers_commit {p : ℕ} {w : Db} (hc : Commits serve h p w) :
    ledgers (w ++ committed h) = ledgersAfter (ledgers (committed h)) (marks (opened p h)) ∧
      Hold (ledgers (committed h)) (marks (opened p h)) := by
  have hs := (whole_of_commits hc).within.not_strange
  refine ⟨?_, hold_of_told hs hc.told⟩
  rw [← ledgers_replay _ hs]
  funext c ym
  exact hc.rows _

/-- A committed row stays. -/
theorem isSome_committed {h₁ : Hist} (hv : (faithful serve).Valid h) (hs : h₁ <:+ h) {c : Uuid}
    {ym : String} (hrow : (ledgers (committed h₁) c ym).isSome) :
    (ledgers (committed h) c ym).isSome := by
  obtain ⟨evs, rfl⟩ := hs
  induction evs with
  | nil => exact hrow
  | cons ev evs ih =>
    have := ih hv.2
    cases ev with
    | committed p w =>
      have hrows := (ledgers_commit (h := evs ++ h₁) hv.1).1
      rw [List.cons_append, committed_cons, Event.writes_committed, hrows]
      exact isSome_ledgersAfter this
    | ran | called | failed | rolledBack | crashed => exact this

/-- **A row stays for a transaction**, whatever others commit and it does itself. -/
theorem isSome_replay {h₁ evs evs' : Hist} (hv : (faithful serve).Valid h) (hs : h₁ <:+ h)
    (hmarks : .strange ∉ marks (evs' ++ evs)) {c : Uuid} {ym : String}
    (hrow : (replay (committed h₁) evs (.aiBudgetLedger c ym)).isSome) :
    (replay (committed h) (evs' ++ evs) (.aiBudgetLedger c ym)).isSome := by
  have hbefore := congrFun (congrFun (ledgers_replay (committed h₁)
    (not_strange_append hmarks)) c) ym
  have hafter := congrFun (congrFun (ledgers_replay (committed h) hmarks) c) ym
  rw [hbefore] at hrow
  rw [hafter, marks_append, ledgersAfter_append]
  exact isSome_ledgersAfter (isSome_ledgersAfter_mono (fun _ _ => isSome_committed hv hs) hrow)

/-- **A row that an insert ran into is found.** -/
theorem found_of_answered {evs : Hist} (hv : (faithful serve).Valid h) (ha : Answered h evs)
    (hs : .strange ∉ marks evs) {ms ms' : List Mark} {c : Uuid} {ym : String}
    (hms : marks evs = ms ++ .seen c ym none :: ms') : .opened c ym false ∉ ms := by
  intro hmem
  obtain ⟨evs₁, ev, evs₂, rfl, hev, rfl, rfl⟩ := exists_of_trace_eq hms
  obtain ⟨p, rfl⟩ := shownBy_of_mark hev
  obtain ⟨h₁, hs₁, h₂, hs₂, -, -, hnone, ha⟩ := ha.of_append
  obtain ⟨ev', hev', hmark⟩ := mem_trace.1 hmem
  obtain ⟨p', rfl⟩ := shownBy_of_mark hmark
  obtain ⟨evs₃, evs₄, rfl⟩ := List.append_of_mem hev'
  obtain ⟨h₃, hs₃, h₄, hs₄, -, -, hfound, -⟩ := ha.of_append
  obtain ⟨e, he, hsome⟩ := hfound rfl
  obtain rfl := List.mem_singleton.1 he
  have hmarks := (not_strange_cons (not_strange_append hs)).1
  rw [List.append_cons] at hmarks hnone
  have := isSome_replay (hv.suffix (((List.suffix_cons ..).trans hs₂).trans hs₁))
    (((List.suffix_cons ..).trans hs₄).trans hs₃) hmarks hsome
  rw [← hnone] at this
  simp at this

end Serial

end Doda
