import Doda.Api.KillSwitch
import Doda.AuditChain.Interleaving
import Doda.Lib.Commits
import Doda.Lifecycle.Statements
import Doda.Turn.Composition
import Doda.Turn.Fallback

/-!
# Kill switches and new actions

A proposal looks for the switches of its workspace and its customer, and takes no
lock on them.  A switch engaged after that blocks later proposals and not this one:
the commit of a new action finds its switches off exactly if neither was engaged,
and left engaged, since the proposal looked.

## Main definitions

* `newActions` — the actions a commit inserts.
* `Blocked` — no commit of the history inserts an action under an engaged switch.
* `LooksFirst` — a commit whose process found the switches of its new actions off.
* `engagedSince`, `Punctual` — a switch engaged since a process found it off, and the
  histories in which that happens to no commit of a new action.

## Main results

* `proposals_blocked_iff` — every run.
* `overtaken_proposal` — a run in which an engaged switch does not block.
-/

namespace Doda

open ReadCommitted

/-! ## New actions -/

/-- The actions that are new in the store a commit leaves. -/
def newActions (h : Hist) (w : Db) : List Action :=
  (keys w).dedup.filterMap fun k => match k with
    | .action id => if (row (committed h) (.action id)).isNone then row w (.action id) else none
    | _ => none

theorem mem_newActions {h : Hist} {w : Db} {a : Action} :
    a ∈ newActions h w ↔
      ∃ id, row (committed h) (.action id) = none ∧ row w (.action id) = some a := by
  simp only [newActions, List.mem_filterMap, List.mem_dedup]
  constructor
  · rintro ⟨k, -, hk⟩
    cases k with
    | action id =>
      dsimp only at hk
      split at hk
      · rename_i hnone
        exact ⟨id, Option.isNone_iff_eq_none.1 hnone, hk⟩
      · simp at hk
    | _ => simp at hk
  · rintro ⟨id, hnone, hrow⟩
    refine ⟨.action id, mem_keys_of_row hrow, ?_⟩
    dsimp only
    rw [hnone, if_pos Option.isNone_none, hrow]

/-- The switches of the action's workspace and of its customer. -/
def Action.switches (a : Action) : List Key :=
  [.customerKillSwitch a.customerId, .workspaceKillSwitch a.workspaceId]

/-- The row under the key is there. -/
def Engaged (db : Db) (k : Key) : Prop := (row db k).isSome

instance (db : Db) (k : Key) : Decidable (Engaged db k) := inferInstanceAs (Decidable (_ = true))

/-- No commit inserted an action while a switch of the action was engaged. -/
def Blocked : Hist → Prop
  | [] => True
  | .committed _ w :: h =>
    (∀ a ∈ newActions h w, ∀ k ∈ a.switches, ¬ Engaged (committed h) k) ∧ Blocked h
  | _ :: h => Blocked h

instance Blocked.decide : (h : Hist) → Decidable (Blocked h)
  | [] => .isTrue trivial
  | .committed _ _ :: h => @instDecidableAnd _ _ _ (Blocked.decide h)
  | .ran .. :: h | .called .. :: h | .rolledBack _ :: h | .failed _ :: h | .crashed _ :: h =>
    Blocked.decide h

/-! ## Looking at a switch -/

/-- Process `p` found no row under the key. -/
def findsNone (p : ℕ) (k : Key) : Event Row Answer → Bool
  | .ran q (.get k') x => q = p ∧ k' = k ∧ x.isNone
  | _ => false

/-- What happened since process `p` last found no row under the key. -/
def sinceNone (p : ℕ) (k : Key) (h : Hist) : Hist := h.takeWhile (!findsNone p k ·)

/-- The switch was engaged since, and left engaged. -/
def EngagedSince (p : ℕ) (k : Key) (h : Hist) : Prop := Engaged (committed (sinceNone p k h)) k

instance (p : ℕ) (k : Key) (h : Hist) : Decidable (EngagedSince p k h) :=
  inferInstanceAs (Decidable (Engaged _ _))

/-- No commit inserted an action of which a switch was engaged since its process found it off. -/
def Punctual : Hist → Prop
  | [] => True
  | .committed p w :: h =>
    (∀ a ∈ newActions h w, ∀ k ∈ a.switches, ¬ EngagedSince p k h) ∧ Punctual h
  | _ :: h => Punctual h

instance Punctual.decide : (h : Hist) → Decidable (Punctual h)
  | [] => .isTrue trivial
  | .committed _ _ :: h => @instDecidableAnd _ _ _ (Punctual.decide h)
  | .ran .. :: h | .called .. :: h | .rolledBack _ :: h | .failed _ :: h | .crashed _ :: h =>
    Punctual.decide h

/-- Process `p` found no row under the key, and rightly. -/
def Checked (p : ℕ) (k : Key) (h : Hist) : Prop :=
  ∃ evs h₁ ev, h = evs ++ ev :: h₁ ∧ findsNone p k ev = true ∧
    (∀ ev ∈ evs, findsNone p k ev = false) ∧ row (committed h₁) k = none

theorem Checked.cons {p : ℕ} {k : Key} {h : Hist} (H : Checked p k h) {ev : Event Row Answer}
    (hev : findsNone p k ev = true → row (committed h) k = none) : Checked p k (ev :: h) := by
  cases hf : findsNone p k ev with
  | true => exact ⟨[], h, ev, rfl, hf, by simp, hev hf⟩
  | false =>
    obtain ⟨evs, h₁, ev₁, rfl, hev₁, hevs, hrow⟩ := H
    exact ⟨ev :: evs, h₁, ev₁, rfl, hev₁, List.forall_mem_cons.2 ⟨hf, hevs⟩, hrow⟩

/-- What is engaged now was engaged since. -/
theorem Checked.engaged_iff {p : ℕ} {k : Key} {h : Hist} (H : Checked p k h) :
    Engaged (committed h) k ↔ EngagedSince p k h := by
  obtain ⟨evs, h₁, ev, rfl, hev, hevs, hrow⟩ := H
  have hsince : sinceNone p k (evs ++ ev :: h₁) = evs := by
    rw [sinceNone, List.takeWhile_append_of_pos (by simpa using hevs),
      List.takeWhile_cons_of_neg (by simp [hev]), List.append_nil]
  have hnone : committed (ev :: h₁) = committed h₁ := by
    cases ev <;> first | rfl | simp [findsNone] at hev
  have happ : ∀ evs : Hist, committed (evs ++ ev :: h₁) = committed evs ++ committed h₁ := by
    intro evs
    induction evs with
    | nil => exact hnone
    | cons e evs ih => rw [List.cons_append, committed_cons, ih, committed_cons, List.append_assoc]
  rw [EngagedSince, hsince, Engaged, Engaged, happ]
  by_cases hk : k ∈ keys (committed evs)
  · rw [row_append_of_mem _ hk]
  · rw [row_append_of_notMem _ hk, hrow, row_eq_none_of_notMem hk]

/-- **The commit looks**: its process found the switch of the workspace and that of the customer
off, for every action that it inserts. -/
def LooksFirst (p : ℕ) (w : Db) (h : Hist) : Prop :=
  ∀ a ∈ newActions h w, ∀ k ∈ a.switches, Checked p k h

/-! ## The contract -/

/-- Every action a commit inserts was proposed by a process that found its switches off. -/
def checked : Contract Row Answer where
  commitOk h p w := LooksFirst p w h
  callOk _ _ _ := True

theorem looksFirst_of_valid {h : Hist} (hv : checked.Valid h) : Always LooksFirst h := by
  induction h with
  | nil => trivial
  | cons ev h ih =>
    cases ev with
    | committed => exact ⟨hv.1, ih hv.2⟩
    | ran | called | rolledBack | failed | crashed => exact ih hv.2

/-- A run of checked commits is blocked where it is punctual. -/
theorem blocked_iff_of_valid {h : Hist} (hv : checked.Valid h) : Blocked h ↔ Punctual h := by
  induction h with
  | nil => exact Iff.rfl
  | cons ev h ih =>
    cases ev with
    | committed p w =>
      refine and_congr ?_ (ih hv.2)
      refine forall₂_congr fun a ha => forall₂_congr fun k hk => ?_
      exact not_congr (hv.1 a ha k hk).engaged_iff
    | ran | called | rolledBack | failed | crashed => exact ih hv.2

/-! ## A proposal's transaction -/

/-- A kill switch. -/
def Key.isSwitch : Key → Bool
  | .customerKillSwitch _ | .workspaceKillSwitch _ => true
  | _ => false

/-- The transaction has written no switch, and the actions it would insert are checked. -/
structure Vouched (p : ℕ) (h : Hist) (t : DbTx) : Prop where
  sound : t.Sound
  off : ∀ k ∈ keys t.writes, k.isSwitch = false
  new : ∀ a ∈ newActions h t.writes, ∀ k ∈ a.switches, Checked p k h

theorem Action.isSwitch_of_mem {a : Action} {k : Key} (hk : k ∈ a.switches) :
    k.isSwitch = true := by
  rcases List.mem_cons.1 hk with rfl | hk
  · rfl
  · rw [List.mem_singleton.1 hk]
    rfl

section Vouched

variable {p : ℕ} {h h' : Hist} {t t' : DbTx}

/-- What the transaction reads of a switch is what is committed. -/
theorem Vouched.row_view (H : Vouched p h t) {k : Key} (hk : k.isSwitch = true) (c : Db) :
    row (t.view c) k = row c k := by
  refine row_append_of_notMem _ fun hmem => ?_
  simp [H.off k hmem] at hk

/-- An event that leaves the transaction's writes as they are. -/
theorem Checked.step {k : Key} (hk : k.isSwitch = true) (H : Vouched p h t) (hc : Checked p k h)
    {q : Stmt Row} {x : q.Res} {busy : Key → Bool}
    (hx : q.exec (committed h) busy t = some (x, t')) : Checked p k (.ran p q x :: h) := by
  refine hc.cons fun hf => ?_
  cases q with
  | get k' =>
    simp only [findsNone, decide_eq_true_eq, true_and] at hf
    obtain ⟨rfl, hnone⟩ := hf
    simp only [Stmt.exec, Option.some.injEq, Prod.mk.injEq] at hx
    obtain ⟨rfl, -⟩ := hx
    rw [← H.row_view hk]
    exact Option.isNone_iff_eq_none.1 hnone
  | view | forUpdate | skipLocked | insert | tryInsert | update | delete =>
    simp [findsNone] at hf

/-- Rows written by the transaction are no others'. -/
theorem newActions_extends {P : Event Row Answer → Prop} (hs : t.Sound) (hx : Extends P h h')
    (hP : ∀ ev, P ev → ∀ k ∈ t.locks, k ∉ keys ev.writes) {a : Action}
    (ha : a ∈ newActions h' t.writes) : a ∈ newActions h t.writes := by
  rw [mem_newActions] at ha ⊢
  obtain ⟨id, hnone, hrow⟩ := ha
  refine ⟨id, ?_, hrow⟩
  rw [← hnone]
  exact (hx.row_eq fun ev hev => hP ev hev _ (hs _ (mem_keys_of_row hrow))).symm

/-- Others look for themselves. -/
theorem Checked.others {k : Key} {L : List Key} (hc : Checked p k h) (ho : Others p L h h') :
    Checked p k h' := by
  obtain ⟨evs, rfl, hevs⟩ := ho
  induction evs with
  | nil => exact hc
  | cons ev evs ih =>
    rw [List.forall_mem_cons] at hevs
    refine (ih hevs.2).cons fun hf => ?_
    cases ev with
    | ran q st x =>
      cases st with
      | get k' =>
        simp only [findsNone, decide_eq_true_eq] at hf
        exact absurd hf.1 hevs.1.1
      | view | forUpdate | skipLocked | insert | tryInsert | update | delete =>
        simp [findsNone] at hf
    | called | committed | rolledBack | failed | crashed => simp [findsNone] at hf

theorem Vouched.others (H : Vouched p h t) (ho : Others p t.locks h h') : Vouched p h' t := by
  refine ⟨H.sound, H.off, fun a ha k hk => (H.new a ?_ k hk).others ho⟩
  exact newActions_extends H.sound ho (fun _ hev => hev.2) ha

/-- The transaction has looked at the action's switches. -/
def LookedAt (p : ℕ) (h : Hist) (a : Action) : Prop := ∀ k ∈ a.switches, Checked p k h

/-- The transaction's writes grow by `w`, and its action rows by checked ones. -/
theorem Vouched.ran (H : Vouched p h t) {q : Stmt Row} {x : q.Res} {busy : Key → Bool}
    (hx : q.exec (committed h) busy t = some (x, t')) {w : Db} (hw : t'.writes = w ++ t.writes)
    (hoff : ∀ k ∈ keys w, k.isSwitch = false)
    (hvs : ∀ id a, row w (.action id) = some a → row (committed h) (.action id) = none →
      LookedAt p h a ∨ ∃ b, row t.writes (.action id) = some b ∧ a.switches = b.switches) :
    Vouched p (.ran p q x :: h) t' := by
  refine ⟨Stmt.exec_sound hx H.sound, ?_, fun a ha k hk => ?_⟩
  · rw [hw, keys_append, List.forall_mem_append]
    exact ⟨hoff, H.off⟩
  have hsw := Action.isSwitch_of_mem hk
  refine Checked.step hsw H ?_ hx
  obtain ⟨id, hnone, hrow⟩ := mem_newActions.1 ha
  rw [hw] at hrow
  have hold : ∀ b, row t.writes (.action id) = some b → k ∈ b.switches → Checked p k h :=
    fun b hb hkb => H.new b (mem_newActions.2 ⟨id, hnone, hb⟩) k hkb
  by_cases hmem : Key.action id ∈ keys w
  · rw [row_append_of_mem _ hmem] at hrow
    rcases hvs id a hrow hnone with hl | ⟨b, hb, hsame⟩
    · exact hl k hk
    · exact hold b hb (hsame ▸ hk)
  · rw [row_append_of_notMem _ hmem] at hrow
    exact hold a hrow hk

/-- A statement writes no switch, inserts no action, and leaves an action in its workspace. -/
def SparesActions : Stmt Row → Prop
  | .insert rows | .tryInsert rows => ∀ e ∈ rows, e.1.isSwitch = false ∧ ∀ id, e.1 ≠ .action id
  | .update (.action _) f => ∀ a : Action, (f a).switches = a.switches
  | .update k _ => k.isSwitch = false
  | .delete k => k.isSwitch = false ∧ ∀ id, k ≠ .action id
  | _ => True

/-- Rows without actions. -/
theorem Vouched.ranOther (H : Vouched p h t) {q : Stmt Row} {x : q.Res} {busy : Key → Bool}
    (hx : q.exec (committed h) busy t = some (x, t')) {w : Db} (hw : t'.writes = w ++ t.writes)
    (hvs : ∀ k ∈ keys w, k.isSwitch = false ∧ ∀ id, k ≠ .action id) :
    Vouched p (.ran p q x :: h) t' := by
  refine H.ran hx hw (fun k hk => (hvs k hk).1) fun id a hrow => ?_
  exact absurd rfl ((hvs _ (mem_keys_of_row hrow)).2 id)

/-- **Such statements keep a proposal's transaction vouched for.** -/
theorem vouched_steady (p : ℕ) :
    Steady checked p SparesActions (fun _ => True) True (Vouched p) := by
  have hempty : ∀ (h : Hist) (b : Bool), Vouched p h { failed := b } := fun h b =>
    ⟨by simp [Tx.Sound], by simp, by simp [newActions]⟩
  have hcons : ∀ {h t} {ev : Event Row Answer}, Vouched p h t → ev.writes = [] →
      (∀ k, findsNone p k ev = false) → ∀ b, Vouched p (ev :: h) { t with failed := b } := by
    intro h t ev H hw hf b
    refine ⟨H.sound, H.off, fun a ha k hk => ?_⟩
    refine (H.new a ?_ k hk).cons fun hk' => by simp [hf k] at hk'
    rw [mem_newActions] at ha ⊢
    simpa [committed_cons, hw] using ha
  refine ⟨fun H ho _ => H.others ho, ?_, ?_, ?_, ?_, ?_⟩
  · intro q h t busy x t' hq hv hs hf H hx
    have hrows : ∀ rows : List (Entry Row),
        (∀ e ∈ rows, e.1.isSwitch = false ∧ ∀ id, e.1 ≠ .action id) →
        ∀ k ∈ keys (rows.map Entry.version).reverse, k.isSwitch = false ∧ ∀ id, k ≠ .action id := by
      intro rows hrows k hk
      rw [keys, List.map_reverse, List.mem_reverse, ← keys, keys_version] at hk
      obtain ⟨e, he, rfl⟩ := List.mem_map.1 hk
      exact hrows e he
    cases q with
    | get | view | skipLocked =>
      have hx' := hx
      simp only [Stmt.exec, Option.some.injEq, Prod.mk.injEq] at hx'
      obtain ⟨-, rfl⟩ := hx'
      exact H.ranOther hx (w := []) rfl (by simp)
    | forUpdate k =>
      have hx' := hx
      simp only [Stmt.exec] at hx'
      split at hx'
      · simp at hx'
      · simp only [Option.some.injEq, Prod.mk.injEq] at hx'
        obtain ⟨-, rfl⟩ := hx'
        refine H.ranOther hx (w := []) ?_ (by simp)
        split <;> rfl
    | insert rows =>
      have hx' := hx
      simp only [Stmt.exec] at hx'
      split at hx'
      · simp at hx'
      · simp only [Option.some.injEq, Prod.mk.injEq] at hx'
        obtain ⟨-, rfl⟩ := hx'
        exact H.ranOther hx rfl (hrows rows hq)
    | tryInsert rows =>
      have hx' := hx
      simp only [Stmt.exec] at hx'
      split at hx'
      · simp only [Option.some.injEq, Prod.mk.injEq] at hx'
        obtain ⟨-, rfl⟩ := hx'
        exact H.ranOther hx (w := []) rfl (by simp)
      · split at hx'
        · simp at hx'
        · simp only [Option.some.injEq, Prod.mk.injEq] at hx'
          obtain ⟨-, rfl⟩ := hx'
          exact H.ranOther hx rfl (hrows rows hq)
    | delete k =>
      have hx' := hx
      simp only [Stmt.exec] at hx'
      split at hx'
      · simp at hx'
      · simp only [Option.some.injEq, Prod.mk.injEq] at hx'
        obtain ⟨-, rfl⟩ := hx'
        refine H.ranOther hx (w := [⟨k, none⟩]) rfl fun k' hk' => ?_
        rw [List.mem_singleton.1 hk']
        exact hq
    | update k f =>
      have hx' := hx
      simp only [Stmt.exec] at hx'
      split at hx'
      · simp at hx'
      · simp only [Option.map_eq_some_iff, Prod.mk.injEq] at hx'
        obtain ⟨v, hrow, -, rfl⟩ := hx'
        by_cases hact : ∃ id, k = .action id
        · obtain ⟨id, rfl⟩ := hact
          refine H.ran hx (w := [⟨.action id, some (f v)⟩]) rfl (by simp [Key.isSwitch]) ?_
          intro id' a ha hnone
          obtain rfl : id' = id := by
            by_contra hne
            rw [row_cons_ne _ _ (by simpa using Ne.symm hne)] at ha
            simp at ha
          rw [row_cons_self] at ha
          obtain rfl := Option.some.inj ha
          refine .inr ⟨v, ?_, hq v⟩
          by_cases hmem : Key.action id' ∈ keys t.writes
          · rw [Tx.view, row_append_of_mem _ hmem] at hrow
            exact hrow
          · rw [Tx.view, row_append_of_notMem _ hmem, hnone] at hrow
            cases hrow
        · refine H.ranOther hx (w := [⟨k, some (f v)⟩]) rfl fun k' hk' => ?_
          rw [List.mem_singleton.1 hk']
          refine ⟨?_, fun id he => hact ⟨id, he⟩⟩
          cases k with
          | action id => exact absurd ⟨id, rfl⟩ hact
          | _ => exact hq
  · exact fun {h t} _ H => hcons H rfl (fun _ => rfl) true
  · exact fun {e h t} _ _ H => ⟨trivial, fun x => hcons H rfl (fun _ => rfl) t.failed⟩
  · intro h t _ _ _ _ H
    exact ⟨H.new, hempty _ false, hempty _ true⟩
  · exact fun _ _ _ => hempty _ false

end Vouched

/-! ## The service -/

theorem LifecycleStmt.sparesActions {q : Stmt Row} (hq : LifecycleStmt q) : SparesActions q := by
  cases hq with
  | get | view | forUpdate => trivial
  | move => exact fun _ => rfl
  | moveTip | decide => rfl
  | openTip | event | notification | message | approval =>
    exact List.forall_mem_singleton.2 ⟨rfl, fun _ he => by cases he⟩

theorem sparesActions_of_writesOnly {P : Key → Prop} {q : Stmt Row} (hq : q.WritesOnly P)
    (hP : ∀ k, P k → k.isSwitch = false ∧ ∀ id, k ≠ .action id) : SparesActions q := by
  cases q with
  | get | view | forUpdate | skipLocked => trivial
  | insert rows | tryInsert rows => exact fun e he => hP _ (hq e he)
  | delete k => exact hP _ hq
  | update k f =>
    cases k with
    | action id => exact absurd rfl ((hP _ hq).2 id)
    | _ => exact (hP _ hq).1

section Service

variable {p : ℕ}

/-- The program keeps a proposal's transaction vouched for. -/
abbrev Vouches (p : ℕ) {α : Type} (m : Session α) : Prop := Maintains checked p (Vouched p) m

theorem Lives.vouches {α : Type} {m : Session α} (hm : Lives m) : Vouches p m :=
  (vouched_steady p).maintains
    (hm.mono (fun _ hq => hq.sparesActions) (fun _ _ => trivial) False.elim)

/-- The process has looked at the switches. -/
def Looks (p : ℕ) (c w : Uuid) (h : Hist) : Prop :=
  Checked p (.customerKillSwitch c) h ∧ Checked p (.workspaceKillSwitch w) h

/-- A switch found off. -/
theorem find_off {k : Key} (hk : k.isSwitch = true) {h : Hist} {t : DbTx} (H : Vouched p h t) :
    Safe checked p (fun x h' t' => Vouched p h' t' ∧ (x = none → Checked p k h') ∧
        ∀ k', k'.isSwitch = true → Checked p k' h → Checked p k' h') (fun _ => Vouched p)
      (Session.get k) h t := by
  have hsteady := vouched_steady p
  refine Safe.run fun h₁ ho hv hs => ⟨fun busy x t' hf hx => ?_, ?_⟩
  · have H₁ := H.others ho
    refine ⟨hsteady.exec trivial hv hs hf H₁ hx, ?_, fun k' hk' hc => ?_⟩
    · rintro rfl
      refine ⟨[], h₁, _, rfl, by simp [findsNone], by simp, ?_⟩
      simp only [Stmt.exec, Option.some.injEq, Prod.mk.injEq] at hx
      rw [← H₁.row_view hk]
      exact hx.1
    · exact (hc.others ho).step hk' H₁ hx
  · exact hsteady.failed hv (H.others ho)

/-- **A proposal looks at both switches.** -/
theorem assertNotKilled_looks (c w : Uuid) {h : Hist} {t : DbTx} (H : Vouched p h t) :
    Safe checked p (fun _ h' t' => Vouched p h' t' ∧ Looks p c w h') (fun _ => Vouched p)
      (assertNotKilled c w) h t := by
  refine Safe.bind (find_off rfl H) ?_
  rintro x h₁ t₁ ⟨H₁, hcust, -⟩
  split
  · exact H₁
  · rename_i hx
    refine Safe.bind (find_off rfl H₁) ?_
    rintro y h₂ t₂ ⟨H₂, hwork, hkeep⟩
    split
    · exact H₂
    · rename_i hy
      refine ⟨H₂, hkeep _ rfl (hcust ?_), hwork ?_⟩
      · simpa using hx
      · simpa using hy

variable [Sha256]

theorem proposeAction_vouches (c w traceId : Uuid) (actor tool : String) (risk : RiskLevel)
    (payload : Json) (key : String) (task : Option Uuid) :
    Vouches p (proposeAction c w traceId actor tool risk payload key task) := by
  have hsteady := vouched_steady p
  intro h t H
  refine Safe.bind (assertNotKilled_looks c w H) ?_
  rintro - h₁ t₁ ⟨H₁, hlooks⟩
  refine Safe.bind (B := fun _ h' t' => Vouched p h' t' ∧ Looks p c w h') (Safe.call ?_) ?_
  · intro h₂ ho hv hs
    refine ⟨trivial, fun x => ⟨(hsteady.called trivial hv (H₁.others ho)).2 x, ?_, ?_⟩⟩
    · exact (hlooks.1.others ho).cons fun hf => by simp [findsNone] at hf
    · exact (hlooks.2.others ho).cons fun hf => by simp [findsNone] at hf
  · rintro id h₂ t₂ ⟨H₂, hlooks⟩
    refine Safe.bind (B := fun _ => Vouched p) (Safe.run ?_) ?_
    · intro h₃ ho hv hs
      have H₃ := H₂.others ho
      refine ⟨fun busy x t' hf hx => ?_, hsteady.failed hv H₃⟩
      have hx' := hx
      simp only [Stmt.exec] at hx'
      split at hx'
      · simp only [Option.some.injEq, Prod.mk.injEq] at hx'
        obtain ⟨-, rfl⟩ := hx'
        exact H₃.ranOther hx (w := []) rfl (by simp)
      · split at hx'
        · simp at hx'
        · simp only [Option.some.injEq, Prod.mk.injEq] at hx'
          obtain ⟨-, rfl⟩ := hx'
          refine H₃.ran hx rfl (by simp [Entry.version, Key.isSwitch]) fun id' a ha _ => .inl ?_
          have hsw : a.customerId = c ∧ a.workspaceId = w := by
            by_cases hid : id' = id
            · subst hid
              simp only [List.map_cons, List.map_nil, List.reverse_cons, List.reverse_nil,
                List.nil_append, List.cons_append, Entry.version] at ha
              rw [row_cons_ne _ _ (by simp), row_cons_self] at ha
              obtain rfl := Option.some.inj ha
              exact ⟨rfl, rfl⟩
            · simp [Entry.version, row, Ne.symm hid] at ha
          intro k hk
          rw [Action.switches, hsw.1, hsw.2] at hk
          rcases List.mem_cons.1 hk with rfl | hk
          · exact hlooks.1.others ho
          · rw [List.mem_singleton.1 hk]
            exact hlooks.2.others ho
    · intro inserted h₃ t₃ H₃
      split
      · exact Safe.bind ((recordAuditEvent_lives ..).vouches h₃ t₃ H₃) fun _ _ _ H₄ => H₄
      · refine Safe.bind (Lives.select.vouches h₃ t₃ H₃) fun db h₄ t₄ H₄ => ?_
        split
        · exact H₄
        · exact H₄

theorem proposeAndSubmitAction_vouches (context : WorkspaceContext) (traceId : Uuid)
    (body : ProposeBody) (key : String) :
    Vouches p (proposeAndSubmitAction context traceId body key) := by
  have hc := Safe.compositional (ε := Err) checked p (Vouched p)
  refine hc.bind (requireRole_lives ..).vouches fun _ => ?_
  refine hc.bind (proposeAction_vouches _ _ _ _ _ _ _ _ _) fun ⟨action, created⟩ => ?_
  cases created with
  | true => exact hc.bind (submitActionForExecution_lives ..).vouches fun _ => hc.pure _
  | false => exact hc.bind (resolveReplayApproval_lives ..).vouches fun _ => hc.pure _

variable [JsonText] [Deployment]

theorem proposeWriteToolAction_vouches (tool args : String) (context : WorkspaceContext)
    (traceId : Uuid) (key : String) :
    Vouches p (proposeWriteToolAction tool args context traceId key) := by
  have hc := Safe.compositional (ε := Err) checked p (Vouched p)
  unfold proposeWriteToolAction
  dsimp only
  split
  · exact hc.throw _
  · split
    · exact hc.throw _
    · split
      · exact hc.throw _
      · split
        · exact hc.throw _
        · refine hc.bind (proposeAction_vouches _ _ _ _ _ _ _ _ _) fun ⟨action, created⟩ => ?_
          cases created with
          | true => exact (submitActionForExecution_lives ..).vouches
          | false => exact hc.bind (resolveReplayApproval_lives ..).vouches fun _ => hc.pure _

theorem turn_vouches (context : WorkspaceContext) (traceId : Uuid) :
    TurnSteps context traceId fun m => Vouches p m where
  composes := Safe.compositional checked p (Vouched p)
  stmt q hq := by
    refine (vouched_steady p).maintains (Only.run (sparesActions_of_writesOnly hq ?_))
    intro k hk
    cases k <;> simp [Key.ofTurns] at hk <;> exact ⟨rfl, fun _ he => by cases he⟩
  call e _ := (vouched_steady p).maintains (Only.call trivial)
  propose tool args key := proposeWriteToolAction_vouches tool args context traceId key

omit [Sha256] [JsonText] [Deployment] in
/-- A workspace request, in its transaction. -/
theorem withRequestContext_vouches {α : Type} (who : Identity) (w : Uuid)
    {handler : WorkspaceContext → Session α} (hh : ∀ context, Vouches p (handler context)) :
    Vouches p (withRequestContext who w handler) := by
  have hc := Safe.compositional (ε := Err) checked p (Vouched p)
  refine hc.bind ((vouched_steady p).atomically (Lives.get _).vouches) fun index => ?_
  cases index with
  | none => exact hc.throw _
  | some tenant =>
    refine (vouched_steady p).atomically ?_
    exact hc.bind (getWorkspaceContext_lives ..).vouches fun context => hh context

/-- A request that proposes an action. -/
def Request.proposes : Request → Prop
  | .propose .. | .chat .. => True
  | _ => False

theorem serve_vouches {r : Request} (hr : r.proposes) : Vouches p (serve r) := by
  have hc := Safe.compositional (ε := Err) checked p (Vouched p)
  refine hc.bind ((vouched_steady p).maintains (Only.call trivial)) fun _ => ?_
  cases r with
  | propose =>
    exact withRequestContext_vouches _ _ fun _ => proposeAndSubmitAction_vouches _ _ _ _
  | chat =>
    exact withRequestContext_vouches _ _ fun _ =>
      postConversationMessage_composed hc (fun _ => turn_vouches ..) _ _ _
  | _ => exact hr.elim

end Service

/-! ## Requests without new actions -/

/-- Not the key of an action. -/
def Key.notAction (k : Key) : Prop := ∀ id, k ≠ .action id

/-- The program writes no action. -/
abbrev Actionless {α : Type} (m : Session α) : Prop :=
  Only (·.WritesOnly Key.notAction) (fun _ => True) True m

theorem Writes.actionless {P : Key → Prop} {α : Type} {m : Session α} (hm : Writes P m)
    (hP : ∀ k, P k → k.notAction) : Actionless m :=
  (hm.weaken hP).mono (fun _ hq => hq) (fun _ _ => trivial) False.elim

theorem publishAll_actionless (rows : List (Entry Row)) : Actionless (publishAll rows) := by
  induction rows with
  | nil => exact Only.pure _
  | cons e rows ih =>
    obtain ⟨k, v⟩ := e
    cases k with
    | outboxMessage i =>
      refine Only.bind ?_ fun _ => Only.bind ih fun _ => Only.pure _
      refine Only.bind (Only.call trivial) fun outcome => ?_
      cases outcome with
      | added =>
        exact Only.bind (Only.call trivial) fun _ => Only.run fun _ he => by cases he
      | unacknowledged | refused => exact Only.throw _
    | _ => exact ih

section Switches

theorem deleteRow_writes {P : Key → Prop} {k : Key} (hk : P k) : Writes P (deleteRow k) := by
  refine Only.bind (Writes.getForUpdate k) fun found => ?_
  split
  · exact Only.bind (Writes.delete hk) fun _ => Only.pure _
  · exact Only.pure _

theorem lowerSwitch_writes {P : Key → Prop} {k : Key} (hk : P k) : Writes P (lowerSwitch k) := by
  refine Only.bind (Writes.get k) fun found => ?_
  cases found with
  | none => exact Only.pure _
  | some v => exact Only.bind (deleteRow_writes hk) fun _ => Only.pure _

theorem raiseSwitch_writes {P : Key → Prop} {k : Key} (hk : P k) {switch : Session (Row k)}
    (hs : Writes P switch) : Writes P (raiseSwitch k switch) := by
  refine Only.bind (Writes.get k) fun found => ?_
  cases found with
  | some v => exact Only.pure _
  | none =>
    refine Only.bind hs fun v => Only.bind (Only.run (List.forall_mem_singleton.2 hk)) fun new => ?_
    cases new with
    | true => exact Only.pure _
    | false =>
      refine Only.bind (Writes.get k) fun found => ?_
      cases found with
      | none => exact Only.throw _
      | some v => exact Only.pure _

variable [Sha256]

theorem recordAuditEvent_spares (c : Uuid) (w : Option Uuid) (t : Uuid) (a e : String)
    (m : Json) : Writes Key.notAction (recordAuditEvent c w t a e m) :=
  (recordAuditEvent_writes ..).weaken fun _ hk _ he => by simp [he, Key.auditing] at hk

theorem alertAll_spares (c : Uuid) (w : Option Uuid) (rt : String) (ri : Uuid) (m : Json)
    (users : List Uuid) : Writes Key.notAction (alertAll c w rt ri m users) := by
  induction users with
  | nil => exact Only.pure _
  | cons u users ih =>
    refine Only.bind ((createNotification_writes ..).weaken ?_) fun _ => ih
    rintro k (hk | ⟨id, rfl⟩) i he
    · simp [he, Key.auditing] at hk
    · cases he

/-- A switch is engaged: the row, the event, the alerts. -/
theorem engageWorkspaceKillSwitch_spares (w c : Uuid) (actor reason : String) :
    Writes Key.notAction (engageWorkspaceKillSwitch w c actor reason) := by
  refine Only.bind (raiseSwitch_writes (fun _ he => by cases he) ?_) fun raised => ?_
  · exact Only.bind (Writes.utcnow _) fun _ => Only.pure _
  · split
    · refine Only.bind Writes.uuid4 fun _ => Only.bind (recordAuditEvent_spares ..) fun _ => ?_
      exact Only.bind Writes.select fun db => alertAll_spares ..
    · exact Only.pure _

theorem engageCustomerKillSwitch_spares (c : Uuid) (actor reason : String) :
    Writes Key.notAction (engageCustomerKillSwitch c actor reason) := by
  refine Only.bind (raiseSwitch_writes (fun _ he => by cases he) ?_) fun raised => ?_
  · exact Only.bind (Writes.utcnow _) fun _ => Only.pure _
  · split
    · refine Only.bind Writes.uuid4 fun _ => Only.bind (recordAuditEvent_spares ..) fun _ => ?_
      exact Only.bind Writes.select fun db => alertAll_spares ..
    · exact Only.pure _

theorem disengageWorkspaceKillSwitch_spares (w c : Uuid) (actor : String) :
    Writes Key.notAction (disengageWorkspaceKillSwitch w c actor) := by
  refine Only.bind (lowerSwitch_writes fun _ he => by cases he) fun lowered => ?_
  split
  · refine Only.bind Writes.uuid4 fun _ => ?_
    exact Only.bind (recordAuditEvent_spares ..) fun _ => Only.pure _
  · exact Only.pure _

theorem disengageCustomerKillSwitch_spares (c : Uuid) (actor : String) :
    Writes Key.notAction (disengageCustomerKillSwitch c actor) := by
  refine Only.bind (lowerSwitch_writes fun _ he => by cases he) fun lowered => ?_
  split
  · refine Only.bind Writes.uuid4 fun _ => ?_
    exact Only.bind (recordAuditEvent_spares ..) fun _ => Only.pure _
  · exact Only.pure _

omit [Sha256] in
/-- Operating a switch is not proposing. -/
theorem operateWorkspaceSwitch_actionless (who : Identity) (w : Uuid)
    {operate : WorkspaceContext → Session Unit} (ho : ∀ c, Writes Key.notAction (operate c)) :
    Actionless (operateWorkspaceSwitch who w operate) := by
  have hget := Writes.get (P := Key.notAction) (.workspaceTenantIndex w)
  refine Only.bind (Only.atomically trivial (hget.actionless fun _ hk => hk)) fun index => ?_
  cases index with
  | none => exact Only.throw _
  | some tenant =>
    refine Only.atomically trivial (Writes.actionless (P := Key.notAction) ?_ fun _ hk => hk)
    refine Only.bind (getWorkspaceContext_writes ..) fun context => ?_
    refine Only.bind (requireRole_writes ..) fun _ => ?_
    exact Only.bind (ho context) fun _ => Only.pure _

omit [Sha256] in
theorem operateCustomerSwitch_actionless (who : Identity) (c : Uuid)
    {operate : CustomerContext → Session Unit} (ho : ∀ c, Writes Key.notAction (operate c)) :
    Actionless (operateCustomerSwitch who c operate) := by
  refine Only.atomically trivial (Writes.actionless (P := Key.notAction) ?_ fun _ hk => hk)
  refine Only.bind (getCustomerContext_writes ..) fun context => ?_
  refine Only.bind ?_ fun _ => Only.bind (ho context) fun _ => Only.pure _
  unfold authorizeEngageCustomerKillSwitch
  split
  · exact Only.pure _
  · exact Only.throw _

end Switches

/-- A transaction that has written no action. -/
def WroteNone (t : DbTx) : Prop := ∀ k ∈ keys t.writes, k.notAction

theorem newActions_eq_nil {h : Hist} {t : DbTx} (ht : WroteNone t) :
    newActions h t.writes = [] := by
  refine List.eq_nil_iff_forall_not_mem.2 fun a ha => ?_
  obtain ⟨id, -, hrow⟩ := mem_newActions.1 ha
  exact ht _ (mem_keys_of_row hrow) id rfl

theorem wroteNone_steady (p : ℕ) :
    Steady checked p (·.WritesOnly Key.notAction) (fun _ => True) True (fun _ => WroteNone) where
  others H _ _ := H
  exec hq _ _ _ H hx := by
    obtain ⟨vs, hw, hvs⟩ := Stmt.exec_writes hq hx
    intro k hk
    rw [hw, keys_append, List.mem_append] at hk
    exact hk.elim (hvs k) (H k)
  failed _ H := H
  called _ _ H := ⟨trivial, fun _ => H⟩
  committed _ _ _ _ H :=
    ⟨fun a ha => by simp [newActions_eq_nil H] at ha, by simp [WroteNone], by simp [WroteNone]⟩
  rolledBack _ _ _ := by simp [WroteNone]

/-! ## Every run -/

section Runs

variable [Sha256] [JsonText] [Deployment]

/-- **Every request commits checked actions only.** -/
theorem serveControls_safe (r : ControlRequest) (p : ℕ) (h : Hist) :
    Safe checked p (fun _ _ _ => True) (fun _ _ _ => True) (serveControls r) h {} := by
  have hvouched : Vouched p h {} := ⟨by simp [Tx.Sound], by simp, by simp [newActions]⟩
  have hactionless : ∀ {m : Session Reply}, Actionless m →
      Safe checked p (fun _ _ _ => True) (fun _ _ _ => True) m h {} := fun hm =>
    (hm.safe (wroteNone_steady p) (by simp [WroteNone])).mono (fun _ _ _ _ => trivial)
      fun _ _ _ _ => trivial
  have hvouches : ∀ {m : Session Reply}, Vouches p m →
      Safe checked p (fun _ _ _ => True) (fun _ _ _ => True) m h {} := fun hm =>
    (hm h {} hvouched).mono (fun _ _ _ _ => trivial) fun _ _ _ _ => trivial
  cases r with
  | engageWorkspace =>
    exact hactionless (operateWorkspaceSwitch_actionless _ _ fun _ =>
      engageWorkspaceKillSwitch_spares ..)
  | disengageWorkspace =>
    exact hactionless (operateWorkspaceSwitch_actionless _ _ fun _ =>
      disengageWorkspaceKillSwitch_spares ..)
  | engageCustomer =>
    exact hactionless (operateCustomerSwitch_actionless _ _ fun _ =>
      engageCustomerKillSwitch_spares ..)
  | disengageCustomer =>
    exact hactionless (operateCustomerSwitch_actionless _ _ fun _ =>
      disengageCustomerKillSwitch_spares ..)
  | service r =>
    cases r with
    | propose => exact hvouches (serve_vouches (r := .propose ..) trivial)
    | chat => exact hvouches (serve_vouches (r := .chat ..) trivial)
    | outboxRelay n =>
      refine hactionless (Only.bind (Only.call trivial) fun _ => Only.map _ ?_)
      exact Only.atomically trivial (Only.bind (Only.run trivial) fun rows =>
        publishAll_actionless rows)
    | housekeeping rows =>
      refine hactionless (Only.bind (Only.call trivial) fun _ => ?_)
      refine Only.bind (Only.atomically trivial ((keepHouseAll_writes rows).actionless ?_))
        fun _ => Only.pure _
      exact fun k hk id he => by simp [he, Key.housekeeping] at hk
    | consume | cancel | completeCompensation | telegramRelay | processEntry =>
      refine hvouches ((vouched_steady p).maintains ((serve_transacts ?_).mono
        (fun _ hq => hq.sparesActions) (fun _ h => h) id))
      trivial

/-- **Where an engaged switch blocks**: in every run, every commit of a new action has found both
of its switches off; and every new action was committed with its switches off exactly if at no
such commit a switch of the action had been engaged, and left engaged, since it was found off. -/
theorem proposals_blocked_iff {s : Sys Row Answer Err Reply ControlRequest}
    (hs : Reachable serveControls s) :
    Always LooksFirst s.hist ∧ (Blocked s.hist ↔ Punctual s.hist) := by
  have hv := (hs.safe fun r p h _ _ => serveControls_safe r p h).valid
  exact ⟨looksFirst_of_valid hv, blocked_iff_of_valid hv⟩

end Runs

/-! ## Two runs -/

section Sample

attribute [local instance] plainSha plainJsonText sampleDeployment

/-- Workspace 2 of customer 7, whose owner is user 3. -/
def ownedWorkspace : List { v : Version Row // v.1.housekeeping = true } :=
  [⟨⟨.workspaceTenantIndex 2, some (7 : Uuid)⟩, Eq.refl true⟩,
    ⟨⟨.workspace 2, some { customerId := 7, name := "main" }⟩, Eq.refl true⟩,
    ⟨⟨.customerMembership 11, some ⟨7, 3, .CUSTOMER_OWNER⟩⟩, Eq.refl true⟩]

/-- User 3 proposes a message in workspace 2. -/
def sampleProposal : ControlRequest :=
  .service (.propose ⟨3, .AAL1⟩ 2 9 ⟨"send_telegram_message", .R2, .obj [], none⟩ "key")

/-- The switch is engaged between the proposal's look at it and the proposal's commit. -/
def overtaken : Option (Sys Row Answer Err Reply ControlRequest) :=
  runAll serveControls {}
    (.start (.service (.housekeeping ownedWorkspace)) :: Act.runs 0 sampleAnswer 100 5 ++
      .start sampleProposal :: Act.runs 1 sampleAnswer 105 7 ++
      .start (.engageWorkspace ⟨3, .AAL1⟩ 2 "stop") :: Act.runs 2 sampleAnswer 112 17 ++
      Act.runs 1 sampleAnswer 129 31)

/-- **An engaged switch does not block a proposal that looked before**: the new action is
committed while its workspace's switch is engaged. -/
theorem overtaken_proposal :
    ¬ ∀ s : Sys Row Answer Err Reply ControlRequest, Reachable serveControls s →
      Blocked s.hist := by
  have hrun : (overtaken.any fun s => ¬ Blocked s.hist) = true := by decide +kernel
  obtain ⟨s, hst, hs⟩ := (Option.any_eq_true _ _).1 hrun
  intro H
  exact of_decide_eq_true hs (H s (Reachable.init.runAll hst))

/-- The switch is engaged after the proposal, lowered again, and another proposal made. -/
def unhurried : Option (Sys Row Answer Err Reply ControlRequest) :=
  runAll serveControls {}
    (.start (.service (.housekeeping ownedWorkspace)) :: Act.runs 0 sampleAnswer 100 5 ++
      .start (.engageWorkspace ⟨3, .AAL1⟩ 2 "stop") :: Act.runs 1 sampleAnswer 105 17 ++
      .start (.disengageWorkspace ⟨3, .AAL1⟩ 2) :: Act.runs 2 sampleAnswer 122 16 ++
      .start sampleProposal :: Act.runs 3 sampleAnswer 138 38)

/-- A switch that is lowered before a proposal looks does not block it. -/
theorem proposals_blocked_sample : ∃ s, unhurried = some s ∧
    row (committed s.hist) (.actionIdempotency 7 2 "key") ≠ none ∧ Blocked s.hist := by
  have hrun : (unhurried.any fun s =>
      (row (committed s.hist) (.actionIdempotency 7 2 "key")).isSome ∧ Punctual s.hist) = true := by
    decide +kernel
  obtain ⟨s, hst, hs⟩ := (Option.any_eq_true _ _).1 hrun
  obtain ⟨hnew, hp⟩ := of_decide_eq_true hs
  refine ⟨s, hst, Option.ne_none_iff_isSome.2 hnew, ?_⟩
  exact (proposals_blocked_iff (Reachable.init.runAll hst)).2.2 hp

end Sample

end Doda
