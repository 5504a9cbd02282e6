import Doda.Controls.Switches
import Doda.Lib.Raises
import Doda.Lifecycle.Service

/-!
# Completing a compensation

An admin says how a compensation has come out.  The action's status is looked at under
its lock, by the state machine alone: so a running action, which may fail too, is failed
by the same request.

## Main definitions

* `lockSeen` — what a process reads of an action as it locks it.
* `CompletesOnly` — a finished request has completed a compensation, or has done nothing.

## Main results

* `completes_only_iff` — a request keeps to this unless it has failed a running action.
* `failed_while_running` — one that does not.
-/

namespace Doda

open ReadCommitted

variable {p : ℕ}

/-! ## What the action was locked as -/

/-- What is read of an action as it is locked. -/
def lockSeen : Event Row Answer → Option (Option Action)
  | .ran _ (.forUpdate (.action _)) x => some x
  | _ => none

/-- A program that works beside the action locks none. -/
theorem Besides.lockless {α : Type} {m : Session α} (hm : Besides m) :
    Emits lockSeen p (fun ms _ => ms = []) (fun ms _ => ms = []) m := by
  have hnone : Emits lockSeen p (fun ms _ => ∀ x ∈ ms, False) (fun ms _ => ∀ x ∈ ms, False) m := by
    refine Emits.only (T := False) (hm.mono ?_ ?_ id) ?_ False.elim
    · intro q hq x a ha
      cases hq <;> cases ha
    · intro e he x a ha
      cases ha
    · intro a ha
      cases ha
  exact hnone.mono (fun ms _ h => List.eq_nil_iff_forall_not_mem.2 h)
    fun ms _ h => List.eq_nil_iff_forall_not_mem.2 h

section Requests

variable [Sha256]

/-- Recording and notifying raise no exception of the application's. -/
abbrev Untyped {α : Type} (m : Session α) : Prop := Raises (fun e => ¬ e.typed) m

theorem recordAuditEvent_untyped (c : Uuid) (w : Option Uuid) (t : Uuid) (a e : String)
    (m : Json) : Untyped (recordAuditEvent c w t a e m) := by
  refine Raises.run_bind id fun _ => Raises.run_bind id fun tip => ?_
  cases tip with
  | none => exact id
  | some tip =>
    refine Raises.call_bind fun _ => Raises.call_bind fun _ => Raises.call_bind fun _ => ?_
    exact Raises.run_bind id fun _ => Raises.run_bind id fun _ => Raises.pure _

theorem createNotification_untyped (c : Uuid) (w : Option Uuid) (r : String)
    (t : NotificationType) (rt : String) (ri : Uuid) (m : Json) :
    Untyped (createNotification c w r t rt ri m) := by
  refine Raises.bind ?_ fun enabled => ?_
  · unfold isNotificationTypeEnabled
    split
    · exact Raises.pure _
    · exact Raises.run_bind id fun _ => Raises.pure _
  · cases enabled with
    | false => exact Raises.pure _
    | true =>
      refine Raises.call_bind fun _ => Raises.call_bind fun _ => Raises.run_bind id fun _ => ?_
      exact Raises.call_bind fun _ => Raises.bind (recordAuditEvent_untyped _ _ _ _ _ _) fun _ =>
        Raises.pure _

theorem notifyTransition_untyped (a : Action) (s : ActionStatus) :
    Untyped (notifyTransition a s) := by
  unfold notifyTransition
  split
  · exact Raises.bind (createNotification_untyped _ _ _ _ _ _ _) fun _ => Raises.pure _
  · exact Raises.bind (createNotification_untyped _ _ _ _ _ _ _) fun _ => Raises.pure _
  · exact Raises.pure _

/-- **A transition locks the action once**, and goes by what it then reads. -/
theorem applyTransition_locks (a : Action) (target : ActionStatus) (actor : String)
    (receipt : Option Json) :
    Emits lockSeen p
      (fun ms _ => ∃ x, ms = [x] ∧ target ∈ allowedTransitions (x.getD a).status)
      (fun ms e => ms = [] ∨
        ∃ x, ms = [x] ∧ (target ∉ allowedTransitions (x.getD a).status ∨ ¬ e.typed))
      (applyTransition a target actor receipt) := by
  unfold applyTransition
  extract_lets actionId
  split
  · exact Emits.throw_iff.2 (.inl rfl)
  refine Emits.run_bind (fun x => ?_) (.inl rfl)
  have hmark : (lockSeen (.ran p (.forUpdate (.action actionId)) x)).toList = [x] := rfl
  simp only [hmark]
  cases htr : transition (x.getD a).status target with
  | none =>
    have hout := transition_eq_none.1 htr
    refine ((recordAuditEvent_besides ..).lockless.mono (fun _ _ h => h) ?_).bind ?_
    · rintro _ e rfl
      exact .inr ⟨x, rfl, .inl hout⟩
    · rintro _ e rfl
      exact Emits.throw_iff.2 (.inr ⟨x, rfl, .inl hout⟩)
  | some status =>
    have hin := (transition_eq_some.1 htr).1
    have hrest : ∀ e : Err, ¬ e.typed → After [x] (fun ms (e : Err) => ms = [] ∨ ∃ x, ms = [x] ∧
        (target ∉ allowedTransitions (x.getD a).status ∨ ¬ e.typed)) [] e := fun e he =>
      .inr ⟨x, rfl, .inr he⟩
    refine Emits.run_bind (fun _ => ?_) (hrest _ id)
    refine (((recordAuditEvent_besides ..).lockless.raises
      (recordAuditEvent_untyped _ _ _ _ _ _)).mono (fun _ _ h => h) ?_).bind ?_
    · rintro _ e ⟨rfl, he⟩
      exact hrest e he
    rintro _ e rfl
    refine (((notifyTransition_besides ..).lockless.raises (notifyTransition_untyped _ _)).mono
      (fun _ _ h => h) ?_).bind ?_
    · rintro _ e ⟨rfl, he⟩
      exact hrest e he
    · rintro _ - rfl
      exact Emits.pure_iff.2 ⟨x, rfl, hin⟩

/-- The state machine lets the outcome end an action of this status. -/
def Ends (outcome : ActionStatus) (source : Action) : Prop :=
  outcome ∈ [ActionStatus.COMPENSATED, .FAILED] ∧ outcome ∈ allowedTransitions source.status

/-- A request has locked the action once, and the outcome ends it. -/
def LockedOnce (outcome : ActionStatus) (ms : List (Option Action)) (reply : Reply) : Prop :=
  (∃ a, reply = .action a) ∧ ∃ x, ms = [x] ∧ ∀ source ∈ x, Ends outcome source

/-- A request has locked no action, or one that the outcome does not end. -/
def LockedInVain (outcome : ActionStatus) (ms : List (Option Action)) (e : Err) : Prop :=
  ms = [] ∨ ∃ x, ms = [x] ∧ ∀ source ∈ x, ¬ Ends outcome source ∨ ¬ e.typed

theorem completeActionCompensation_locks (context : WorkspaceContext) (i : Uuid)
    (outcome : ActionStatus) :
    Emits lockSeen p (LockedOnce outcome) (LockedInVain outcome)
      (completeActionCompensation context i outcome) := by
  have hbesides : ∀ {α : Type} {m : Session α}, Besides m →
      Emits lockSeen p (fun ms _ => ms = []) (LockedInVain outcome) m := fun hm =>
    hm.lockless.mono (fun _ _ h => h) fun _ _ => .inl
  refine (hbesides (getWorkspaceAction_besides ..)).bind ?_
  rintro _ a rfl
  refine (hbesides (requireRole_besides ..)).bind ?_
  rintro _ - rfl
  refine Emits.bind (S := fun ms _ => ∃ x, ms = [x] ∧ ∀ source ∈ x, Ends outcome source) ?_ ?_
  · unfold completeCompensation
    split
    · exact Emits.throw_iff.2 (.inl rfl)
    rename_i hout
    refine (applyTransition_locks ..).mono ?_ ?_
    · rintro _ - ⟨x, rfl, hin⟩
      refine ⟨x, rfl, fun source hx => ⟨not_not.1 hout, ?_⟩⟩
      rwa [Option.mem_def.1 hx] at hin
    · rintro _ e (rfl | ⟨x, rfl, hor⟩)
      · exact .inl rfl
      refine .inr ⟨x, rfl, fun source hx => hor.imp_left fun hnot hends => ?_⟩
      rw [Option.mem_def.1 hx] at hnot
      exact hnot hends.2
  · rintro ms a hms
    exact Emits.pure_iff.2 ⟨⟨a, rfl⟩, by simpa using hms⟩

/-- **What a request has locked** when it has returned, and when it has raised. -/
theorem serve_locks [JsonText] [Deployment] (who : Identity) (w i : Uuid)
    (outcome : ActionStatus) :
    Emits lockSeen p (LockedOnce outcome) (LockedInVain outcome)
      (serve (.completeCompensation who w i outcome)) := by
  have hdatabase : ∀ ms reply, LockedOnce outcome ms reply →
      LockedInVain outcome ms databaseError := by
    rintro _ _ ⟨-, x, rfl, -⟩
    exact .inr ⟨x, rfl, fun _ _ => .inr id⟩
  have hindex : Emits lockSeen p (fun ms _ => ms = []) (LockedInVain outcome)
      (Session.get (.workspaceTenantIndex w)) := Emits.run (fun _ => rfl) (.inl rfl)
  have hbody : ∀ tenant, Emits lockSeen p (LockedOnce outcome) (LockedInVain outcome) (do
      let context ← getWorkspaceContext tenant who.userId w
      completeActionCompensation context i outcome) := fun tenant => by
    refine ((getWorkspaceContext_besides ..).lockless.mono (fun _ _ h => h) fun _ _ => .inl).bind ?_
    rintro _ context rfl
    exact completeActionCompensation_locks context i outcome
  refine Emits.call_bind fun _ => Emits.bind (S := fun ms _ => ms = []) ?_ ?_
  · refine Emits.atomically hindex ?_ ?_
    · rintro _ _ rfl
      exact ⟨fun _ => ⟨rfl, .inl rfl⟩, .inl rfl⟩
    · intro ms e he
      simpa [lockSeen] using he
  rintro _ index rfl
  cases index with
  | none => exact Emits.throw_iff.2 (.inl rfl)
  | some tenant =>
    refine Emits.atomically (hbody tenant) ?_ ?_
    · intro ms reply h
      simpa [lockSeen] using ⟨h, hdatabase ms reply h⟩
    · intro ms e he
      simpa [lockSeen] using he

/-! ## What a refused request has done -/

/-- Every commit of process `p` was empty. -/
def Idle (p : ℕ) (h : Hist) : Prop := ∀ w, Event.committed p w ∈ h → w = []

omit [Sha256] in
theorem Idle.cons {h : Hist} (H : Idle p h) {ev : Event Row Answer}
    (hev : ∀ w, ev = .committed p w → w = []) : Idle p (ev :: h) := by
  intro w hw
  rcases List.mem_cons.1 hw with heq | hw
  · exact hev w heq.symm
  · exact H w hw

omit [Sha256] in
theorem Idle.others {L : List Key} {h h' : Hist} (H : Idle p h) (ho : Others p L h h') :
    Idle p h' := by
  obtain ⟨evs, rfl, hevs⟩ := ho
  intro w hw
  rcases List.mem_append.1 hw with hw | hw
  · exact absurd rfl (hevs _ hw).1
  · exact H w hw

/-- Inside a transaction nothing is committed. -/
theorem idle_steady (p : ℕ) :
    Steady lifecycle p LifecycleStmt Call.Minor False fun h _ => Idle p h where
  others H ho _ := H.others ho
  exec _ _ _ _ H _ := H.cons nofun
  failed _ H := H.cons nofun
  called he _ H := ⟨callOk_of_quiet he.quiet, fun _ => H.cons nofun⟩
  committed := False.elim
  rolledBack := False.elim

/-- An exception of the application's was raised and nothing was written, unless a statement
of `p` has failed. -/
def Refuses (p : ℕ) (e : Err) (h : Hist) : Prop := Event.failed p ∈ h ∨ e.typed ∧ Idle p h

omit [Sha256] in
theorem Refuses.failed {h h' : Hist} {L : List Key} {e : Err}
    (ho : Others p L (.failed p :: h) h') : Refuses p e (.rolledBack p :: h') :=
  .inl (List.mem_cons_of_mem _ (ho.suffix.subset (List.mem_cons_self ..)))

omit [Sha256] in
theorem Refuses.rolledBack {h h' : Hist} {L : List Key} {e : Err} (H : Refuses p e h)
    (ho : Others p L h h') : Refuses p e (.rolledBack p :: h') := by
  refine H.imp (fun hf => List.mem_cons_of_mem _ (ho.suffix.subset hf)) ?_
  rintro ⟨ht, hidle⟩
  exact ⟨ht, (hidle.others ho).cons nofun⟩

/-- What is raised inside a transaction has not been preceded by a commit. -/
theorem Lives.refuses {α : Type} {m : Session α} (hm : Lives m) {h : Hist} {t : DbTx}
    (hidle : Idle p h) {Q : α → Hist → DbTx → Prop} (H : Safe lifecycle p Q (Fair p) m h t) :
    Safe lifecycle p (fun a h t => Q a h t ∧ Idle p h) (fun e h _ => Refuses p e h) m h t := by
  refine (H.and (hm.safe (idle_steady p) hidle)).mono (fun _ _ _ h => h) ?_
  rintro e h₁ t₁ ⟨hfair, hidle⟩
  exact hfair.imp_right fun ht => ⟨ht, hidle⟩

/-- A transaction that reads one row. -/
theorem atomically_get_refuses (k : Key) {h : Hist} (hidle : Idle p h) :
    Safe lifecycle p (fun _ h' t => t = {} ∧ h <:+ h' ∧ Idle p h')
      (fun e h' t => t = {} ∧ Refuses p e h') (atomically (Session.get k)) h {} := by
  refine Safe.atomically _ (fun e h _ => Refuses p e h)
    ((Lives.get k).refuses hidle (get_safe k)) ?_ ?_
  · rintro x h₁ _ ⟨⟨rfl, hr, h₀, hle, hle', -⟩, hidle⟩ h₂ ho hv -
    refine ⟨fun _ => ⟨?_, ⟨rfl, ?_, ?_⟩, ?_⟩, ?_⟩
    · exact (hr.busy.after (Onward.others (M := Call.Minor) ho)
        (hr.others lifecycle_audits ho hv) rfl).commitOk
    · exact ((hle.trans hle').trans ho.suffix).trans (List.suffix_cons ..)
    · exact (hidle.others ho).cons fun w hw => (Event.committed.inj hw).2.symm
    · exact fun h₃ ho' _ => ⟨rfl, .failed ho'⟩
    · exact fun h₃ ho' _ => ⟨rfl, .failed ho'⟩
  · rintro e h₁ t₁ hr h₂ ho -
    exact ⟨rfl, hr.rolledBack ho⟩

/-- **A transaction block that raises** has committed nothing. -/
theorem atomically_refuses {α : Type} {m : Session α} (hm : Lives m) {h : Hist}
    (hidle : Idle p h) {Q : Hist → Prop} (hQ : ∀ {h h'}, h <:+ h' → Q h → Q h')
    (H : Safe lifecycle p (fun _ h t => Done p h t ∧ Q h) (Fair p) m h {}) :
    Safe lifecycle p (fun _ h t => t = {} ∧ Q h) (fun e h t => t = {} ∧ Refuses p e h)
      (atomically m) h {} := by
  refine Safe.atomically _ (fun e h _ => Refuses p e h) (hm.refuses hidle H) ?_ ?_
  · rintro a h₁ t₁ ⟨⟨hdone, hq⟩, -⟩ h₂ ho hv -
    refine ⟨fun _ => ⟨?_, ⟨rfl, hQ (ho.suffix.trans (List.suffix_cons ..)) hq⟩, ?_⟩, ?_⟩
    · obtain ⟨ds, hbusy⟩ := hdone.others ho hv
      exact hbusy.commitOk
    · exact fun h₃ ho' _ => ⟨rfl, .failed ho'⟩
    · exact fun h₃ ho' _ => ⟨rfl, .failed ho'⟩
  · rintro e h₁ t₁ hr h₂ ho -
    exact ⟨rfl, hr.rolledBack ho⟩

/-- **A request that raises** has written nothing, and one that returns has found the action
under its lock. -/
theorem serve_refuses [JsonText] [Deployment] (who : Identity) (w i : Uuid)
    (outcome : ActionStatus) {h : Hist} (hidle : Idle p h) :
    Safe lifecycle p (fun _ h t => t = {} ∧ ∃ source, LockedAs p h i source)
      (fun e h t => t = {} ∧ Refuses p e h)
      (serve (.completeCompensation who w i outcome)) h {} := by
  set r : Request := .completeCompensation who w i outcome
  refine Safe.bind (B := fun _ h' t => t = {} ∧ Event.called p (.received r) () ∈ h' ∧ Idle p h')
    (Safe.call fun h₁ ho _ _ => ⟨callOk_of_quiet trivial, fun _ => ⟨rfl, ?_, ?_⟩⟩) ?_
  · exact List.mem_cons_self ..
  · exact (hidle.others ho).cons nofun
  rintro - h _ ⟨rfl, hr, hidle⟩
  refine Safe.bind (atomically_get_refuses _ hidle) ?_
  rintro index h₁ _ ⟨rfl, hle, hidle₁⟩
  cases index with
  | none => exact ⟨rfl, .inr ⟨trivial, hidle₁⟩⟩
  | some tenant =>
    refine atomically_refuses (Only.bind (getWorkspaceContext_lives ..) fun context =>
      completeActionCompensation_lives ..) hidle₁ ?_ ?_
    · rintro h₂ h₃ hle ⟨source, hsource⟩
      exact ⟨source, hle.subset hsource⟩
    refine Safe.bind (getWorkspaceContext_safe tenant who.userId w) ?_
    rintro context h₂ _ ⟨rfl, hready, hres⟩
    have hadmitted := hres.admitted (r := r) (hle.subset hr) rfl
    obtain rfl := hres.workspace
    obtain ⟨u, strength⟩ := who
    obtain rfl : context.userId = u := hres.user
    exact completeActionCompensation_done hadmitted

/-! ## Every run -/

omit [Sha256] in
/-- The state machine lets these outcomes end a compensation, and a failure a running action. -/
theorem ends_iff {outcome : ActionStatus} {source : Action} :
    Ends outcome source ↔
      source.status = .COMPENSATING ∧ outcome ∈ [ActionStatus.COMPENSATED, .FAILED] ∨
        source.status = .RUNNING ∧ outcome = .FAILED := by
  unfold Ends
  cases source.status <;> cases outcome <;> decide

omit [Sha256] in
theorem LockedAs.seen {h : Hist} {i : Uuid} {source : Action} (H : LockedAs p h i source) :
    some source ∈ trace lockSeen (own p h) :=
  mem_trace.2 ⟨_, mem_own.2 ⟨H, rfl⟩, rfl⟩

/-- **A finished request has completed a compensation, or has done nothing.** -/
structure CompletesOnly [JsonText] [Deployment] (s : Sys Row Answer Err Reply Request) (p : ℕ)
    (r : Proc Row Answer Err Reply Request) (i : Uuid) (outcome : ActionStatus) : Prop where
  succeeds : (∃ a, r.prog = pure (.action a)) ↔ ∃ source, LockedAs p s.hist i source ∧
    source.status = .COMPENSATING ∧ outcome ∈ [ActionStatus.COMPENSATED, .FAILED]
  refuses : ∀ e, r.prog = throw e → e.typed ∧ Idle p s.hist

section Runs

variable [JsonText] [Deployment] {s : Sys Row Answer Err Reply Request}
  {r : Proc Row Answer Err Reply Request} {who : Identity} {w i : Uuid} {outcome : ActionStatus}

/-- What any request promises of the requests that complete compensations. -/
theorem serve_promises (r : Request) {h : Hist} (hidle : Idle p h) :
    Safe lifecycle p
      (fun _ h _ => ∀ who w i outcome, r = .completeCompensation who w i outcome →
        ∃ source, LockedAs p h i source)
      (fun e h _ => ∀ who w i outcome, r = .completeCompensation who w i outcome → Refuses p e h)
      (serve r) h {} := by
  by_cases hr : ∃ who w i outcome, r = .completeCompensation who w i outcome
  · obtain ⟨who, w, i, outcome, rfl⟩ := hr
    refine (serve_refuses who w i outcome hidle).mono ?_ ?_
    · rintro reply h' t ⟨-, hlocked⟩ _ _ _ _ heq
      cases heq
      exact hlocked
    · rintro e h' t ⟨-, hrefuses⟩ _ _ _ _ -
      exact hrefuses
  · refine (serve_safe r p h).mono ?_ ?_
    · rintro reply h' t - who w i outcome heq
      exact absurd ⟨who, w, i, outcome, heq⟩ hr
    · rintro e h' t - who w i outcome heq
      exact absurd ⟨who, w, i, outcome, heq⟩ hr

/-- What is known of a request that has ended, in any run of the service. -/
theorem refuses_of_reachable (hs : Reachable serve s) (hp : s.procs[p]? = some (some r))
    (hreq : r.req = .completeCompensation who w i outcome) :
    (∀ reply, r.prog = pure reply → ∃ source, LockedAs p s.hist i source) ∧
      ∀ e, r.prog = throw e → Refuses p e s.hist := by
  have hkept := hs.safe fun r p h _ hfresh => serve_promises r
    (h := h) fun w hw => absurd (hfresh _ hw) (Nat.lt_irrefl p)
  obtain ⟨h, ho, hsafe⟩ := hkept.safe p r hp
  constructor
  · intro reply hend
    rw [hend] at hsafe
    obtain ⟨source, hsource⟩ := hsafe who w i outcome hreq
    exact ⟨source, ho.suffix.subset hsource⟩
  · intro e hend
    rw [hend] at hsafe
    refine (hsafe who w i outcome hreq).imp (fun hf => ho.suffix.subset hf) ?_
    exact fun ⟨ht, hidle⟩ => ⟨ht, hidle.others ho⟩

/-- **When a request completes compensations only**: unless it finds a running action under
its lock and is to fail it. -/
theorem completes_only_iff (hs : Reachable serve s) (hp : s.procs[p]? = some (some r))
    (hreq : r.req = .completeCompensation who w i outcome)
    (hend : (∃ reply, r.prog = pure reply) ∨ ∃ e, r.prog = throw e)
    (hf : Event.failed p ∉ s.hist) :
    CompletesOnly s p r i outcome ↔
      ¬ ∃ source, LockedAs p s.hist i source ∧ source.status = .RUNNING ∧ outcome = .FAILED := by
  have hrun := hs.runs.2.1 p r hp
  rw [hreq] at hrun
  obtain ⟨ms, hms, hemits⟩ := (serve_locks who w i outcome).runs hrun
  have hseen : ∀ source, LockedAs p s.hist i source → some source ∈ ms := fun source hsource => by
    simpa [hms] using hsource.seen
  obtain ⟨hpure, hthrow⟩ := refuses_of_reachable hs hp hreq
  rcases hend with ⟨reply, hend⟩ | ⟨e, hend⟩
  · -- it has returned, so the action it locked was ended
    rw [hend, Emits.pure_iff, After, List.append_nil] at hemits
    obtain ⟨⟨a, rfl⟩, x, rfl, hends⟩ := hemits
    obtain ⟨source, hsource⟩ := hpure _ hend
    have hsame : ∀ source', LockedAs p s.hist i source' → source' = source := by
      intro source' hsource'
      have h₁ := List.mem_singleton.1 (hseen _ hsource)
      have h₂ := List.mem_singleton.1 (hseen _ hsource')
      exact Option.some.inj (h₂.trans h₁.symm)
    have hended := ends_iff.1 (hends source (List.mem_singleton.1 (hseen _ hsource)).symm)
    constructor
    · rintro H ⟨source', hsource', hrunning, -⟩
      obtain ⟨source'', hsource'', hcompensating, -⟩ := H.succeeds.1 ⟨a, hend⟩
      rw [hsame _ hsource'] at hrunning
      rw [hsame _ hsource'', hrunning] at hcompensating
      cases hcompensating
    · intro H
      have hcompensating := hended.resolve_right fun h => H ⟨source, hsource, h⟩
      refine ⟨⟨fun _ => ⟨source, hsource, hcompensating⟩, fun _ => ⟨a, hend⟩⟩, fun e he => ?_⟩
      rw [hend] at he
      cases he
  · -- it has raised, so it has locked nothing that the outcome would have ended
    rw [hend, Emits.throw_iff, After, List.append_nil] at hemits
    obtain ⟨htyped, hidle⟩ := (hthrow e hend).resolve_left hf
    have hvain : ∀ source, LockedAs p s.hist i source → ¬ Ends outcome source := by
      intro source hsource
      have hmem := hseen _ hsource
      rcases hemits with rfl | ⟨x, rfl, hor⟩
      · cases hmem
      · exact (hor source (List.mem_singleton.1 hmem).symm).resolve_right (not_not.2 htyped)
    refine iff_of_true ⟨⟨?_, ?_⟩, ?_⟩ ?_
    · rintro ⟨a, ha⟩
      rw [hend] at ha
      cases ha
    · rintro ⟨source, hsource, hcompensating⟩
      exact absurd (ends_iff.2 (.inl hcompensating)) (hvain source hsource)
    · intro e' he'
      obtain rfl : e = e' := by
        rw [hend] at he'
        injection he'
      exact ⟨htyped, hidle⟩
    · rintro ⟨source, hsource, hrunning⟩
      exact hvain source hsource (ends_iff.2 (.inr hrunning))

end Runs

end Requests

/-! ## Two runs -/

section Sample

attribute [local instance] plainSha plainJsonText sampleDeployment

/-- User 3 proposes a message and approves it, and a relay starts action 112. -/
def startedAction : List (Act Answer Request) :=
  .start (.housekeeping ownedWorkspace) :: Act.runs 0 sampleAnswer 100 5 ++
  .start (.propose ⟨3, .AAL1⟩ 2 9 ⟨telegramSendMessage, .R3,
    .obj [("chat_id", .str "1"), ("text", .str "hi")], none⟩ "key") ::
  Act.runs 1 sampleAnswer 105 52 ++
  .start (.consume ⟨3, .AAL2⟩ 2 153 "151") :: Act.runs 2 sampleAnswer 157 22 ++
  .start (.processEntry ⟨1, 7, "action", 112, actionReadyEvent, .obj []⟩ (some "token")) ::
  Act.runs 3 sampleAnswer 179 12

/-- Then user 3 says that the compensation of the action, which is running, has failed. -/
def failedRunning : Option (Sys Row Answer Err Reply Request) :=
  runAll serve {} (startedAction ++
    .start (.completeCompensation ⟨3, .AAL1⟩ 2 112 .FAILED) :: Act.runs 4 sampleAnswer 191 28)

/-- Or user 3 cancels it, and says that this has been made good. -/
def compensated : Option (Sys Row Answer Err Reply Request) :=
  runAll serve {} (startedAction ++
    .start (.cancel ⟨3, .AAL1⟩ 2 112) :: Act.runs 4 sampleAnswer 191 16 ++
    .start (.completeCompensation ⟨3, .AAL1⟩ 2 112 .COMPENSATED) :: Act.runs 5 sampleAnswer 207 16)

/-- The process has answered a request to complete the compensation of action 112. -/
def completed (outcome : ActionStatus) (r : Proc Row Answer Err Reply Request) : Bool :=
  match r.req, r.prog with
  | .completeCompensation _ _ i o, .pure (.action _) => i = 112 ∧ o = outcome
  | _, _ => false

theorem completed_eq_true {outcome : ActionStatus} {r : Proc Row Answer Err Reply Request}
    (h : completed outcome r = true) : (∃ who w, r.req = .completeCompensation who w 112 outcome) ∧
      ∃ a, r.prog = pure (.action a) := by
  unfold completed at h
  split at h
  · rename_i who w i o a hreq hprog
    obtain ⟨rfl, rfl⟩ := of_decide_eq_true h
    exact ⟨⟨who, w, hreq⟩, a, hprog⟩
  · cases h

/-- **A running action is failed** by a request to complete its compensation. -/
theorem failed_while_running :
    ¬ ∀ (s : Sys Row Answer Err Reply Request), Reachable serve s →
      ∀ p r, s.procs[p]? = some (some r) →
      ∀ who w i outcome, r.req = .completeCompensation who w i outcome →
      (∃ reply, r.prog = pure reply) ∨ (∃ e, r.prog = throw e) →
      Event.failed p ∉ s.hist → CompletesOnly s p r i outcome := by
  have hrun : (failedRunning.any fun s => (s.procs[4]?.join.any (completed .FAILED)) &&
      (s.hist.all fun ev => !(ev matches .failed _)) &&
      (trace lockSeen (own 4 s.hist)).all fun x =>
        x.all fun source => source.status ≠ .COMPENSATING) = true := by
    decide +kernel
  obtain ⟨s, hst, hs⟩ := (Option.any_eq_true _ _).1 hrun
  rw [Bool.and_eq_true, Bool.and_eq_true] at hs
  obtain ⟨⟨hdone, hunfailed⟩, hseen⟩ := hs
  obtain ⟨r, hp, hr⟩ := (Option.any_eq_true _ _).1 hdone
  obtain ⟨⟨who, w, hreq⟩, a, hprog⟩ := completed_eq_true hr
  intro H
  have hf : Event.failed 4 ∉ s.hist := fun hmem =>
    Bool.noConfusion (List.all_eq_true.1 hunfailed _ hmem)
  obtain ⟨source, hsource, hcompensating, -⟩ := (H s (Reachable.init.runAll hst) 4 r
    (Option.join_eq_some_iff.1 hp) who w 112 .FAILED hreq (.inl ⟨_, hprog⟩) hf).succeeds.1
    ⟨a, hprog⟩
  have hall := List.all_eq_true.1 hseen _ hsource.seen
  exact of_decide_eq_true hall hcompensating

/-- A request that completes a compensation. -/
theorem completes_only_sample : ∃ s r, compensated = some s ∧ s.procs[5]? = some (some r) ∧
    (∃ a, r.prog = pure (.action a)) ∧ CompletesOnly s 5 r 112 .COMPENSATED := by
  have hrun : (compensated.any fun s => (s.procs[5]?.join.any (completed .COMPENSATED)) &&
      s.hist.all fun ev => !(ev matches .failed _)) = true := by
    decide +kernel
  obtain ⟨s, hst, hs⟩ := (Option.any_eq_true _ _).1 hrun
  rw [Bool.and_eq_true] at hs
  obtain ⟨r, hp, hr⟩ := (Option.any_eq_true _ _).1 hs.1
  obtain ⟨⟨who, w, hreq⟩, a, hprog⟩ := completed_eq_true hr
  have hf : Event.failed 5 ∉ s.hist := fun hmem =>
    Bool.noConfusion (List.all_eq_true.1 hs.2 _ hmem)
  have hp := Option.join_eq_some_iff.1 hp
  refine ⟨s, r, hst, hp, ⟨a, hprog⟩, ?_⟩
  refine (completes_only_iff (Reachable.init.runAll hst) hp hreq (.inl ⟨_, hprog⟩) hf).2 ?_
  rintro ⟨source, -, -, hfailed⟩
  cases hfailed

end Sample

end Doda
