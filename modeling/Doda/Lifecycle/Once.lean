import Doda.Lifecycle.Standing

/-!
# A message is sent at most once

An action is started at most once, since nothing leads back to `READY`, and only the process
that has committed the start posts the message, until one of its attempts may have arrived.
However often the announcement is published, delivered or taken up again, at most one attempt
may have been delivered; a cancelled action was never attempted.

## Main definitions

* `Lasting` — statuses that are left for each other only.
* `PostsFor`, `ArrivesFor` — an attempt to send the message of an action.

## Main results

* `lasting_of_valid` — an action stays among lasting statuses.
* `start_unique` — an action is started by one commit.
* `sent_at_most_once` — every run.
-/

namespace Doda

open ReadCommitted

/-! ## Statuses that last -/

/-- The statuses are left for each other only, where nothing is retried. -/
def Lasting (S : List ActionStatus) : Prop :=
  ∀ s ∈ S, ∀ t ∈ allowedTransitions s, t ≠ .RETRYING → t ∈ S

/-- The statuses of an action that has been started. -/
def startedStatuses : List ActionStatus :=
  [.RUNNING, .SUCCEEDED, .FAILED, .COMPENSATING, .COMPENSATED]

theorem lasting_started : Lasting startedStatuses := by
  intro s hs t ht hne
  cases s <;> simp [startedStatuses] at hs <;> cases t <;>
    simp [allowedTransitions, startedStatuses] at ht hne ⊢

theorem lasting_cancelled : Lasting [.CANCELLED] := by
  intro s hs t ht _
  obtain rfl := List.mem_singleton.1 hs
  cases ht

section Valid

variable [Sha256] {p : ℕ} {h : Hist} {s : Db} {d : Deed} {i : Uuid} {a : Action}
  {S : List ActionStatus}

/-- Nothing retries an action. -/
theorem Deed.Fits.not_retrying (H : d.Fits p h s) (hd : d.leaves i = some a) :
    a.status ≠ .RETRYING := by
  cases d with
  | proposed a' target e e₁ e₂ beside =>
    simp only [leaves, Option.ite_none_right_eq_some, Option.some.injEq] at hd
    obtain ⟨-, rfl⟩ := hd
    have hroute := H.route
    cases hroute <;> simp
  | consumed id approvalId source before actor e m =>
    simp only [leaves, Option.ite_none_right_eq_some, Option.some.injEq] at hd
    obtain ⟨-, rfl⟩ := hd
    simp
  | moved id source target actor receipt e =>
    simp only [leaves, Option.ite_none_right_eq_some, Option.some.injEq] at hd
    obtain ⟨-, rfl⟩ := hd
    have hcause := H.cause
    cases hcause with
    | cancelled _ _ _ _ htarget => rcases htarget with rfl | rfl <;> simp
    | completed _ _ _ _ hout => rcases hout with rfl | rfl <;> simp
    | started | succeeded | failed => simp
  | published id m now => cases hd

theorem Fit.lasting {ds : List Deed} (hS : Lasting S) (H : Fit p h s ds)
    (ha : row s (.action i) = some a) (hs : a.status ∈ S) :
    ∃ b, row (versionsOf ds ++ s) (.action i) = some b ∧ b.status ∈ S := by
  induction ds with
  | nil => exact ⟨a, ha, hs⟩
  | cons d ds ih =>
    obtain ⟨b, hb, hbS⟩ := ih H.2
    rw [versionsOf_cons, List.append_assoc, H.1.row_action]
    cases hd : d.leaves i with
    | none => exact ⟨b, hb, hbS⟩
    | some c =>
      have hallowed := (H.1.leaves_eq hb hd).2
      exact ⟨c, rfl, hS b.status hbS c.status hallowed (H.1.not_retrying hd)⟩

/-- **An action stays among lasting statuses.** -/
theorem lasting_of_valid (hS : Lasting S) {h' : Hist} (hv : lifecycle.Valid h') (hle : h <:+ h')
    (ha : row (committed h) (.action i) = some a) (hs : a.status ∈ S) :
    ∃ b, row (committed h') (.action i) = some b ∧ b.status ∈ S := by
  obtain ⟨evs, rfl⟩ := hle
  induction evs with
  | nil => exact ⟨a, ha, hs⟩
  | cons ev evs ih =>
    obtain ⟨b, hb, hbS⟩ := ih hv.2
    cases ev with
    | committed p w =>
      obtain ⟨-, ds, hcore, hfit⟩ := hv.1
      obtain ⟨c, hc, hcS⟩ := hfit.lasting hS hb hbS
      exact ⟨c, (row_of_core_eq hcore rfl).trans hc, hcS⟩
    | ran | called | rolledBack | failed | crashed => exact ⟨b, hb, hbS⟩

/-! ## One start -/

omit [Sha256] in
/-- A start leaves the action running. -/
theorem Starts.running {w : Db} (H : Starts h w i) :
    ∃ a, row (committed (.committed p w :: h : Hist)) (.action i) = some a ∧
      a.status = .RUNNING := by
  obtain ⟨-, a, ha, hstatus⟩ := H
  refine ⟨a, ?_, hstatus⟩
  rw [committed_cons, Event.writes_committed, row_append_of_mem _ (mem_keys_of_row ha)]
  exact ha

/-- After a start the action is not ready again. -/
theorem Starts.not_again {w w' : Db} {h' : Hist} (hv : lifecycle.Valid h') (H : Starts h w i)
    (hle : .committed p w :: h <:+ h') : ¬ Starts h' w' i := by
  obtain ⟨a, ha, hstatus⟩ := H.running
  obtain ⟨b, hb, hstarted⟩ := lasting_of_valid lasting_started hv hle ha
    (by simp [hstatus, startedStatuses])
  rintro ⟨⟨c, hc, hready⟩, -⟩
  obtain rfl := Option.some.inj (hb.symm.trans hc)
  simp [hready, startedStatuses] at hstarted

/-- **An action is started by one commit.** -/
theorem start_unique {h' h₁ h₂ : Hist} {q : ℕ} {w₁ w₂ : Db} (hv : lifecycle.Valid h')
    (hle₁ : .committed p w₁ :: h₁ <:+ h') (hle₂ : .committed q w₂ :: h₂ <:+ h')
    (H₁ : Starts h₁ w₁ i) (H₂ : Starts h₂ w₂ i) :
    (.committed p w₁ :: h₁ : Hist) = .committed q w₂ :: h₂ := by
  rcases List.suffix_or_suffix_of_suffix hle₁ hle₂ with hle | hle
  · rcases List.suffix_cons_iff.1 hle with heq | hbefore
    · exact heq
    · have hvalid := (hv.suffix hle₂).2
      exact absurd H₂ (H₁.not_again hvalid hbefore)
  · rcases List.suffix_cons_iff.1 hle with heq | hbefore
    · exact heq.symm
    · have hvalid := (hv.suffix hle₁).2
      exact absurd H₁ (H₂.not_again hvalid hbefore)

end Valid

/-! ## Attempts -/

/-- The event is an attempt to send the message of the action. -/
def PostsFor (i : Uuid) (ev : Event Row Answer) : Prop :=
  match ev with
  | .called _ (.post j _ _) _ => j = i
  | _ => False

/-- The event is an attempt that may have arrived. -/
def ArrivesFor (i : Uuid) (ev : Event Row Answer) : Prop :=
  match ev with
  | .called _ (.post j _ _) outcome => j = i ∧ ¬ HttpOutcome.Undelivered outcome
  | _ => False

theorem ArrivesFor.posts {ev : Event Row Answer} {i : Uuid} (H : ArrivesFor i ev) :
    PostsFor i ev := by
  unfold ArrivesFor at H
  split at H
  · exact H.1
  · exact H.elim

theorem ArrivesFor.mayDeliver {ev : Event Row Answer} {i : Uuid} (H : ArrivesFor i ev) :
    MayDeliver ev.pid i ev := by
  unfold ArrivesFor at H
  split at H
  · exact ⟨rfl, H.1, H.2⟩
  · exact H.elim

section Valid

variable [Sha256] {h : Hist} {i : Uuid} {ev : Event Row Answer}

/-- Whoever posts has committed the start, and nothing of theirs may have arrived since. -/
theorem posting_of_valid (hv : lifecycle.Valid (ev :: h)) (hev : PostsFor i ev) :
    Posting ev.pid h i := by
  unfold PostsFor at hev
  split at hev
  · obtain rfl := hev
    exact hv.1
  · exact hev.elim

/-- After an attempt that may have arrived there is none. -/
theorem no_post_after {evs : Hist} (hv : lifecycle.Valid (evs ++ ev :: h))
    (hev : ArrivesFor i ev) : ∀ ev' ∈ evs, ¬ PostsFor i ev' := by
  intro ev' hmem hposts
  obtain ⟨later, between, rfl⟩ := List.append_of_mem hmem
  rw [List.append_assoc, List.cons_append] at hv
  have hafter : lifecycle.Valid (ev' :: (between ++ ev :: h)) := hv.suffix ⟨later, rfl⟩
  obtain ⟨evs₂, w₂, h₂, hsplit₂, hstart₂, hquiet⟩ := posting_of_valid hafter hposts
  have hvalid : lifecycle.Valid (between ++ ev :: h) := hafter.2
  have hbefore : lifecycle.Valid (ev :: h) := hvalid.suffix ⟨between, rfl⟩
  obtain ⟨evs₁, w₁, h₁, hsplit₁, hstart₁, -⟩ := posting_of_valid hbefore hev.posts
  -- both follow the one start, so the first attempt is among what has happened since
  have hle₁ : .committed ev.pid w₁ :: h₁ <:+ between ++ ev :: h :=
    ⟨between ++ ev :: evs₁, by rw [hsplit₁, List.append_assoc, List.cons_append]⟩
  have hle₂ : .committed ev'.pid w₂ :: h₂ <:+ between ++ ev :: h := ⟨evs₂, hsplit₂.symm⟩
  have hsame := start_unique hvalid hle₁ hle₂ hstart₁ hstart₂
  have hpid : ev.pid = ev'.pid := by
    injection (List.cons.inj hsame).1
  have hsince : between ++ ev :: evs₁ = evs₂ := by
    rw [hsplit₁, ← hsame, ← List.cons_append, ← List.append_assoc] at hsplit₂
    exact List.append_cancel_right hsplit₂
  have harrives := hev.mayDeliver
  rw [hpid] at harrives
  exact hquiet ev (hsince ▸ by simp) harrives

end Valid

/-! ## Every run -/

section Runs

variable [Sha256] [JsonText] [Deployment] {s : Sys Row Answer Err Reply Request}

/-- **A message is sent at most once.**  Of the attempts for an action at most one may have
arrived, and it is the last; every attempt follows the commit, by the same process, that starts
the action; and an action that is ever cancelled is never attempted. -/
theorem sent_at_most_once (hs : Reachable serve s) (i : Uuid) :
    (∀ evs ev h, s.hist = evs ++ ev :: h → ArrivesFor i ev →
      (∀ ev' ∈ evs, ¬ PostsFor i ev') ∧ ∀ ev' ∈ h, ¬ ArrivesFor i ev') ∧
    (∀ evs ev h, s.hist = evs ++ ev :: h → PostsFor i ev →
      ∃ w h₁, .committed ev.pid w :: h₁ <:+ h ∧ Starts h₁ w i) ∧
    ∀ h a, h <:+ s.hist → row (committed h) (.action i) = some a → a.status = .CANCELLED →
      ∀ ev ∈ s.hist, ¬ PostsFor i ev := by
  have hv := valid_of_reachable hs
  have hstarted : ∀ evs ev h, s.hist = evs ++ ev :: h → PostsFor i ev →
      ∃ w h₁, .committed ev.pid w :: h₁ <:+ h ∧ Starts h₁ w i := by
    intro evs ev h hsplit hposts
    obtain ⟨evs₁, w, h₁, rfl, hstart, -⟩ :=
      posting_of_valid (hv.suffix ⟨evs, hsplit.symm⟩) hposts
    exact ⟨w, h₁, ⟨evs₁, rfl⟩, hstart⟩
  refine ⟨?_, hstarted, ?_⟩
  · intro evs ev h hsplit harrives
    rw [hsplit] at hv
    refine ⟨no_post_after hv harrives, ?_⟩
    intro ev' hmem harrives'
    obtain ⟨between, before, rfl⟩ := List.append_of_mem hmem
    rw [← List.cons_append, ← List.append_assoc] at hv
    exact no_post_after hv harrives' ev (by simp) harrives.posts
  · intro h a hle ha hcancelled ev hmem hposts
    obtain ⟨evs, before, hsplit⟩ := List.append_of_mem hmem
    obtain ⟨w, h₁, hle₁, hstart⟩ := hstarted evs ev before hsplit hposts
    have hle₁' : .committed ev.pid w :: h₁ <:+ s.hist :=
      hle₁.trans ⟨evs ++ [ev], by simp [hsplit]⟩
    obtain ⟨b, hb, hrunning⟩ := hstart.running (p := ev.pid)
    -- at the end of the run the action is both cancelled and started
    obtain ⟨c, hc, hstatus⟩ := lasting_of_valid lasting_cancelled hv hle ha (by simp [hcancelled])
    obtain ⟨c', hc', hstatus'⟩ := lasting_of_valid lasting_started hv hle₁' hb
      (by simp [hrunning, startedStatuses])
    obtain rfl := Option.some.inj (hc.symm.trans hc')
    rw [List.mem_singleton.1 hstatus] at hstatus'
    simp [startedStatuses] at hstatus'

end Runs

/-! ## A sample run -/

section Sample

attribute [local instance] plainSha plainJsonText sampleDeployment

/-- The event is an attempt to send the message of action 112. -/
def postsSample : Event Row Answer → Bool
  | .called _ (.post i _ _) _ => i = 112
  | _ => false

/-- A relay starts an action, and sends its message. -/
theorem sent_at_most_once_sample :
    ∃ s, runAll serve {} (startedAction ++ Act.runs 3 sampleAnswer 191 1) = some s ∧
      ∃ ev ∈ s.hist, PostsFor 112 ev ∧
        ∃ w h, .committed ev.pid w :: h <:+ s.hist ∧ Starts h w 112 := by
  have hrun : ((runAll serve {} (startedAction ++ Act.runs 3 sampleAnswer 191 1)).any fun s =>
      s.hist.any postsSample) = true := by
    decide +kernel
  obtain ⟨s, hst, hs⟩ := (Option.any_eq_true _ _).1 hrun
  obtain ⟨ev, hmem, hev⟩ := List.any_eq_true.1 hs
  have hposts : PostsFor 112 ev := by
    unfold postsSample at hev
    split at hev
    · have heq := of_decide_eq_true hev
      exact heq
    · cases hev
  obtain ⟨evs, h, hsplit⟩ := List.append_of_mem hmem
  obtain ⟨w, h₁, hle, hstart⟩ :=
    (sent_at_most_once (Reachable.init.runAll hst) 112).2.1 evs ev h hsplit hposts
  exact ⟨s, hst, ev, hmem, hposts, w, h₁, hle.trans ⟨evs ++ [ev], by simp [hsplit]⟩, hstart⟩

end Sample

end Doda
