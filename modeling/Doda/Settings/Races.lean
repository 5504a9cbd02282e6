import Doda.Application.Preferences
import Doda.AuditChain.Interleaving
import Doda.Lib.Commits

/-!
# Concurrent settings writes

Any number of "set" and "clear" calls run at once, each in a transaction of its own.  A
"set" call goes by a row that it has read without a lock: before its `UPDATE` another
call may change that row or clear it.

## Main definitions

* `serveSettings` — the calls, each in its transaction.
* `SettingsRequest.Sets`, `SettingsRequest.Clears` — what a call is for.
* `Undisturbed` — nobody has come between the read of a "set" call and its `UPDATE` in a
  way that the call cannot stand.
* `LastWord` — the row is what a call of the batch has left.

## Main results

* `settings_race_free` — undisturbed calls do not fail, and one of them has the last word.
* `races_lost` — disturbed ones do, and none of them has.
-/

namespace Doda

open ReadCommitted

/-! ## The system -/

/-- The calls that save a setting or clear it. -/
inductive SettingsRequest where
  | setUserAIPreference (customerId userId : Uuid) (provider : Provider) (model : Option String)
  | clearUserAIPreference (customerId userId : Uuid)
  | setWorkspaceAIPreference (workspaceId : Uuid) (provider : Provider) (model : Option String)
  | clearWorkspaceAIPreference (workspaceId : Uuid)
  | setNotificationPreference (customerId : Uuid) (recipientId : String)
      (notificationType : NotificationType) (enabled : Bool)
  | setProviderEnabledForCustomer (customerId : Uuid) (provider : Provider) (enabled : Bool)
  | setFallbackEnabledForCustomer (customerId : Uuid) (enabled : Bool)
  deriving DecidableEq

/-- Each call in a transaction of its own. -/
def serveSettings : SettingsRequest → Session Unit
  | .setUserAIPreference customerId userId provider model => atomically do
    let _ ← setUserAIPreference customerId userId provider model
    return
  | .clearUserAIPreference customerId userId =>
    atomically (clearUserAIPreference customerId userId)
  | .setWorkspaceAIPreference workspaceId provider model => atomically do
    let _ ← setWorkspaceAIPreference workspaceId provider model
    return
  | .clearWorkspaceAIPreference workspaceId => atomically (clearWorkspaceAIPreference workspaceId)
  | .setNotificationPreference customerId recipientId notificationType enabled => atomically do
    let _ ← setNotificationPreference customerId recipientId notificationType enabled
    return
  | .setProviderEnabledForCustomer customerId provider enabled => atomically do
    let _ ← setProviderEnabledForCustomer customerId provider enabled
    return
  | .setFallbackEnabledForCustomer customerId enabled => atomically do
    let _ ← setFallbackEnabledForCustomer customerId enabled
    return

namespace SettingsRequest

/-- The call asks for security alerts to be turned off. -/
def Forbidden : SettingsRequest → Prop
  | .setNotificationPreference _ _ notificationType enabled =>
    enabled = false ∧ notificationType = .SECURITY_ALERT
  | _ => False

/-- The row that the call is for. -/
def key : SettingsRequest → Key
  | .setUserAIPreference customerId userId _ _ | .clearUserAIPreference customerId userId =>
    .userAIPreference customerId userId
  | .setWorkspaceAIPreference workspaceId _ _ | .clearWorkspaceAIPreference workspaceId =>
    .workspaceAIPreference workspaceId
  | .setNotificationPreference customerId recipientId notificationType _ =>
    .notificationPreference customerId recipientId notificationType
  | .setProviderEnabledForCustomer customerId provider _ =>
    .customerAIProviderSetting customerId provider
  | .setFallbackEnabledForCustomer customerId _ => .customerAIFallbackSetting customerId

/-- The call is to save `value` under `k`. -/
inductive Sets : SettingsRequest → (k : Key) → Columns (Row k) → Row k → Prop
  | user (customerId userId : Uuid) (provider : Provider) (model : Option String) :
    Sets (.setUserAIPreference customerId userId provider model)
      (.userAIPreference customerId userId) preferenceColumns ⟨provider, model⟩
  | workspace (workspaceId : Uuid) (provider : Provider) (model : Option String) :
    Sets (.setWorkspaceAIPreference workspaceId provider model)
      (.workspaceAIPreference workspaceId) preferenceColumns ⟨provider, model⟩
  | notification {customerId : Uuid} {recipientId : String} {notificationType : NotificationType}
      {enabled : Bool}
      (h : ¬ (setNotificationPreference customerId recipientId notificationType
        enabled).Forbidden) :
    Sets (.setNotificationPreference customerId recipientId notificationType enabled)
      (.notificationPreference customerId recipientId notificationType) enabledColumn enabled
  | provider (customerId : Uuid) (provider : Provider) (enabled : Bool) :
    Sets (.setProviderEnabledForCustomer customerId provider enabled)
      (.customerAIProviderSetting customerId provider) enabledColumn enabled
  | fallback (customerId : Uuid) (enabled : Bool) :
    Sets (.setFallbackEnabledForCustomer customerId enabled)
      (.customerAIFallbackSetting customerId) enabledColumn enabled

/-- The call is to delete the row under `k`. -/
inductive Clears : SettingsRequest → Key → Prop
  | user (customerId userId : Uuid) :
    Clears (.clearUserAIPreference customerId userId) (.userAIPreference customerId userId)
  | workspace (workspaceId : Uuid) :
    Clears (.clearWorkspaceAIPreference workspaceId) (.workspaceAIPreference workspaceId)

theorem Sets.key_eq {r : SettingsRequest} {k : Key} {columns : Columns (Row k)} {value : Row k}
    (hr : r.Sets k columns value) : r.key = k := by
  cases hr <;> rfl

theorem Sets.eq_setUserAIPreference {r : SettingsRequest} {customerId userId : Uuid}
    {columns : Columns AIPreference} {value : AIPreference}
    (hr : r.Sets (.userAIPreference customerId userId) columns value) :
    r = .setUserAIPreference customerId userId value.provider value.model := by
  cases hr
  rfl

theorem Clears.key_eq {r : SettingsRequest} {k : Key} (hr : r.Clears k) : r.key = k := by
  cases hr <;> rfl

theorem cases (r : SettingsRequest) :
    (∃ k columns value, r.Sets k columns value) ∨ (∃ k, r.Clears k) ∨ r.Forbidden := by
  cases r with
  | setUserAIPreference => exact .inl ⟨_, _, _, .user ..⟩
  | clearUserAIPreference => exact .inr (.inl ⟨_, .user ..⟩)
  | setWorkspaceAIPreference => exact .inl ⟨_, _, _, .workspace ..⟩
  | clearWorkspaceAIPreference => exact .inr (.inl ⟨_, .workspace ..⟩)
  | setNotificationPreference customerId recipientId notificationType enabled =>
    by_cases h : (setNotificationPreference customerId recipientId notificationType
      enabled).Forbidden
    · exact .inr (.inr h)
    · exact .inl ⟨_, _, _, .notification h⟩
  | setProviderEnabledForCustomer => exact .inl ⟨_, _, _, .provider ..⟩
  | setFallbackEnabledForCustomer => exact .inl ⟨_, _, _, .fallback ..⟩

end SettingsRequest

/-! ## What a call does -/

section Calls

variable {p : ℕ} {k : Key} {columns : Columns (Row k)} {value : Row k}

/-- What comes before the read that a "set" call goes by. -/
inductive Preceded (p : ℕ) (k : Key) (value : Row k) : Hist → Prop
  | first : Preceded p k value []
  | refused :
    Preceded p k value [.ran p (.get k) none, .ran p (.tryInsert [⟨k, value⟩]) false]

/-- The statements of a "set" call, oldest first. -/
inductive Saves (p : ℕ) (k : Key) (columns : Columns (Row k)) (value : Row k) : Hist → Prop
  | kept {before : Hist} (h : Preceded p k value before) :
    Saves p k columns value (before ++ [.ran p (.get k) (some value)])
  | updated {before : Hist} {old cur : Row k} (h : Preceded p k value before) :
    Saves p k columns value (before ++ [.ran p (.get k) (some old),
      .ran p (.forUpdate k) (some cur), .ran p (.update k (columns.merge old value)) ()])
  | inserted :
    Saves p k columns value [.ran p (.get k) none, .ran p (.tryInsert [⟨k, value⟩]) true]

/-- The statements of one that raises. -/
inductive Breaks (p : ℕ) (k : Key) (columns : Columns (Row k)) (value : Row k) :
    Hist → Err → Prop
  | stale {before : Hist} {old : Row k} (h : Preceded p k value before) :
    Breaks p k columns value (before ++ [.ran p (.get k) (some old), .ran p (.forUpdate k) none])
      (.builtin "StaleDataError")
  | vanished :
    Breaks p k columns value [.ran p (.get k) none, .ran p (.tryInsert [⟨k, value⟩]) false,
      .ran p (.get k) none] .assertion
  | unfit {ms : Hist} {e : Err} (h : columns.fits value = false) : Breaks p k columns value ms e
  | failed {ms : Hist} {e : Err} (h : .failed p ∈ ms) : Breaks p k columns value ms e

/-- The statements of a "clear" call, oldest first. -/
inductive Removes (p : ℕ) (k : Key) : Hist → Prop
  | absent : Removes p k [.ran p (.get k) none]
  | gone {old : Row k} : Removes p k [.ran p (.get k) (some old), .ran p (.forUpdate k) none]
  | deleted {old cur : Row k} :
    Removes p k [.ran p (.get k) (some old), .ran p (.forUpdate k) (some cur),
      .ran p (.delete k) ()]

variable [DecidableEq (Row k)]

theorem flushChanges_emits {before : Hist} {old : Row k} (h : Preceded p k value before) :
    Emits some p
      (After (before ++ [.ran p (.get k) (some old)]) fun ms _ => Saves p k columns value ms)
      (After (before ++ [.ran p (.get k) (some old)]) (Breaks p k columns value))
      (flushChanges k columns old value) := by
  rw [flushChanges]
  split
  · rename_i heq
    subst heq
    refine Emits.pure_iff.2 ?_
    rw [After, List.append_nil]
    exact .kept h
  · refine Emits.run_bind (fun x => ?_) (.failed (by simp))
    cases x with
    | none =>
      refine Emits.throw_iff.2 ?_
      simp only [After, Option.toList_some, List.append_assoc, List.append_nil,
        List.singleton_append]
      exact .stale h
    | some cur =>
      dsimp only
      split
      · refine Emits.run (fun _ => ?_) (.failed (by simp))
        simp only [After, Option.toList_some, List.append_assoc, List.singleton_append]
        exact .updated h
      · rename_i hfits
        exact Emits.throw_iff.2 (.unfit (by simpa using hfits))

/-- **A "set" call.** -/
theorem upsert_emits : Emits some p (fun ms _ => Saves p k columns value ms)
    (Breaks p k columns value) (upsert k columns value) := by
  have hflush : ∀ {before : Hist} {old : Row k}, Preceded p k value before →
      Emits some p
        (After (before ++ [.ran p (.get k) (some old)]) fun ms _ => Saves p k columns value ms)
        (After (before ++ [.ran p (.get k) (some old)]) (Breaks p k columns value))
        (do flushChanges k columns old value; return value) := fun h =>
    Emits.bind (flushChanges_emits h) fun ms _ hms => by
      refine Emits.pure_iff.2 ?_
      simpa only [After, List.append_nil] using hms
  rw [upsert]
  refine Emits.run_bind (fun x => ?_) (.failed (by simp))
  cases x with
  | some old => exact hflush .first
  | none =>
    dsimp only
    split
    · refine Emits.run_bind (fun b => ?_) (.failed (by simp))
      cases b with
      | true => exact Emits.pure_iff.2 .inserted
      | false =>
        refine Emits.run_bind (fun x => ?_) (.failed (by simp))
        cases x with
        | none => exact Emits.throw_iff.2 .vanished
        | some old =>
          rw [after_after, after_after, after_after, after_after]
          exact hflush .refused
    · rename_i hfits
      exact Emits.throw_iff.2 (.unfit (by simpa using hfits))

theorem upsert_neat {M : Call → Prop} : Neat (fun _ => True) M (upsert k columns value) := by
  have hflush : ∀ old, Neat (fun _ => True) M
      (do flushChanges k columns old value; return value) := by
    intro old
    refine Neat.bind ?_ fun _ => Neat.pure _
    rw [flushChanges]
    split
    · exact Neat.pure _
    · refine Neat.bind (Neat.run trivial) fun x => ?_
      cases x with
      | none => exact Neat.throw _
      | some cur =>
        dsimp only
        split
        · exact Neat.run trivial
        · exact Neat.throw _
  rw [upsert]
  refine Neat.bind (Neat.run trivial) fun x => ?_
  cases x with
  | some old => exact hflush old
  | none =>
    dsimp only
    split
    · refine Neat.bind (Neat.run trivial) fun b => ?_
      cases b with
      | true => exact Neat.pure _
      | false =>
        refine Neat.bind (Neat.run trivial) fun x => ?_
        cases x with
        | none => exact Neat.throw _
        | some old => exact hflush old
    · exact Neat.throw _

omit [DecidableEq (Row k)] in
/-- **A "clear" call.** -/
theorem clearRow_emits : Emits some p (fun ms _ => Removes p k ms)
    (fun ms (_ : Err) => .failed p ∈ ms) (clearRow k) := by
  rw [clearRow]
  refine Emits.run_bind (fun x => ?_) (by simp)
  cases x with
  | none => exact Emits.pure_iff.2 .absent
  | some old =>
    refine Emits.bind (S := fun ms _ => Removes p k (.ran p (.get k) (some old) :: ms)) ?_
      fun ms _ hms => Emits.pure_iff.2 (by simpa only [After, Option.toList_some,
        List.singleton_append, List.append_nil] using hms)
    refine Emits.run_bind (fun x => ?_) (by simp [After])
    cases x with
    | none => exact Emits.pure_iff.2 .gone
    | some cur =>
      refine Emits.bind (S := fun ms _ => Removes p k (.ran p (.get k) (some old) ::
        .ran p (.forUpdate k) (some cur) :: ms)) ?_ fun ms _ hms => ?_
      · exact Emits.run (fun _ => .deleted) (by simp [After])
      · exact Emits.pure_iff.2 (by simpa only [After, Option.toList_some, List.singleton_append,
          List.append_nil] using hms)

omit [DecidableEq (Row k)] in
theorem clearRow_neat {M : Call → Prop} : Neat (fun _ => True) M (clearRow k) := by
  rw [clearRow]
  refine Neat.bind (Neat.run trivial) fun x => ?_
  cases x with
  | none => exact Neat.pure _
  | some old =>
    refine Neat.bind (Neat.bind (Neat.run trivial) fun x => ?_) fun _ => Neat.pure _
    cases x with
    | none => exact Neat.pure _
    | some cur => exact Neat.bind (Neat.run trivial) fun _ => Neat.pure _

end Calls

section Requests

variable {p : ℕ} {r : SettingsRequest} {k : Key} {columns : Columns (Row k)} {value : Row k}

theorem serveSettings_sets (hr : r.Sets k columns value) : ∃ _ : DecidableEq (Row k),
    serveSettings r = atomically (do let _ ← upsert k columns value; return) := by
  cases hr with
  | user | workspace | provider | fallback => exact ⟨inferInstance, rfl⟩
  | notification h =>
    refine ⟨inferInstance, ?_⟩
    rw [serveSettings, setNotificationPreference, if_neg ?_]
    simpa [SettingsRequest.Forbidden] using h

theorem serveSettings_clears (hr : r.Clears k) :
    serveSettings r = atomically (clearRow k) := by
  cases hr <;> rfl

/-- A "set" call that raises. -/
theorem SettingsRequest.Sets.raises (hr : r.Sets k columns value) :
    Emits some p (fun _ _ => True) (fun ms e => .failed p ∈ ms ∨
      ∃ body, Breaks p k columns value body e ∧ ms = body ++ [.rolledBack p])
      (serveSettings r) := by
  obtain ⟨_, heq⟩ := serveSettings_sets hr
  rw [heq]
  have H : Emits some p (fun _ _ => True) (Breaks p k columns value)
      (do let _ ← upsert k columns value; return) :=
    Emits.bind (upsert_emits.mono (fun _ _ _ => trivial) fun _ _ h => h) fun _ _ _ =>
      Emits.pure_iff.2 trivial
  refine Emits.atomically H ?_ fun ms e he => .inr ⟨ms, he, rfl⟩
  exact fun ms _ _ => ⟨fun _ => ⟨trivial, .inl (by simp)⟩, .inl (by simp)⟩

theorem SettingsRequest.Clears.raises (hr : r.Clears k) :
    Emits some p (fun _ _ => True) (fun ms _ => .failed p ∈ ms) (serveSettings r) := by
  rw [serveSettings_clears hr]
  refine Emits.atomically clearRow_emits ?_ fun ms e he => List.mem_append_left _ he
  exact fun ms _ _ => ⟨fun _ => ⟨trivial, by simp⟩, by simp⟩

/-- A "set" call that commits. -/
theorem SettingsRequest.Sets.commits (hr : r.Sets k columns value) :
    AtCommits p (fun evs => ∃ ms, Saves p k columns value ms ∧ evs = ms.reverse)
      (fun _ _ => True) (serveSettings r) [] := by
  obtain ⟨_, heq⟩ := serveSettings_sets hr
  rw [heq]
  refine AtCommits.atomically ?_ fun _ _ _ => trivial
  refine Inside.bind (upsert_emits.inside (M := fun _ => True) upsert_neat) fun _ evs hevs => ?_
  simpa using hevs

theorem SettingsRequest.Clears.commits (hr : r.Clears k) :
    AtCommits p (fun evs => ∃ ms, Removes p k ms ∧ evs = ms.reverse)
      (fun _ _ => True) (serveSettings r) [] := by
  rw [serveSettings_clears hr]
  refine AtCommits.atomically ?_ fun _ _ _ => trivial
  refine (clearRow_emits.inside (M := fun _ => True) clearRow_neat).mono fun _ evs hevs => ?_
  simpa using hevs

theorem SettingsRequest.Forbidden.commits (hr : r.Forbidden) :
    AtCommits p (fun _ => False) (fun _ _ => True) (serveSettings r) [] := by
  cases r with
  | setNotificationPreference =>
    obtain ⟨rfl, rfl⟩ := hr
    exact AtCommits.atomically Inside.throw fun _ _ _ => trivial
  | _ => exact hr.elim

end Requests

/-! ## Undisturbed calls -/

/-- **Nobody has come between.**  The value fits into the columns; the row that the locking
read of an `UPDATE` finds is there, and setting the columns in which the value differs
from what the call has read makes it the value; and the row that another request has
inserted is there when it is read again. -/
structure Undisturbed (p : ℕ) (k : Key) (columns : Columns (Row k)) (value : Row k)
    (evs : Hist) : Prop where
  fits : columns.fits value = true
  updated : ∀ x old evs', .ran p (.forUpdate k) x :: .ran p (.get k) (some old) :: evs' <:+ evs →
    ∃ cur, x = some cur ∧ columns.merge old value cur = value
  reread : ∀ x evs', .ran p (.get k) x :: .ran p (.tryInsert [⟨k, value⟩]) false :: evs' <:+ evs →
    x.isSome = true

/-- No call is disturbed. -/
def AllUndisturbed (s : Sys Row Answer Err Unit SettingsRequest) : Prop :=
  ∀ p r, s.procs[p]? = some (some r) → ∀ k columns value, r.req.Sets k columns value →
    Undisturbed p k columns value (own p s.hist)

/-- A failure or a crash. -/
def interrupts : Event Row Answer → Bool
  | .failed _ | .crashed _ => true
  | _ => false

/-- No operation fails, and no process crashes. -/
def Uninterrupted (h : Hist) : Prop := ∀ ev ∈ h, interrupts ev = false

instance (h : Hist) : Decidable (Uninterrupted h) := List.decidableBAll _ _

section Runs

variable {s : Sys Row Answer Err Unit SettingsRequest} {p : ℕ}
  {r : Proc Row Answer Err Unit SettingsRequest} {k : Key} {columns : Columns (Row k)}
  {value : Row k}

theorem Undisturbed.not_breaks {evs ms : Hist} {e : Err} (H : Undisturbed p k columns value evs)
    (hms : ms.reverse <:+ evs) (hf : .failed p ∉ evs) : ¬ Breaks p k columns value ms e := by
  intro hb
  cases hb with
  | stale h =>
    obtain ⟨cur, hcur, -⟩ := H.updated none _ _ (by simpa using hms)
    cases hcur
  | vanished => simpa using H.reread none _ (by simpa using hms)
  | unfit h => simp [H.fits] at h
  | failed h => exact hf (hms.subset (by simpa using h))

/-- **Undisturbed calls do not fail.** -/
theorem undisturbed_returns (hs : Reachable serveSettings s) (hi : Uninterrupted s.hist)
    (hu : AllUndisturbed s) (hp : s.procs[p]? = some (some r)) {e : Err}
    (he : r.prog = .throw e) : r.req.Forbidden := by
  have hrun := hs.runs.2.1 p r hp
  rw [he] at hrun
  have hf : .failed p ∉ own p s.hist := fun hmem =>
    Bool.noConfusion (hi (.failed p) (mem_own.1 hmem).1)
  have htrace : trace some (own p s.hist) = (own p s.hist).reverse := by simp [trace]
  rcases r.req.cases with ⟨k, columns, value, hr⟩ | ⟨k, hr⟩ | hr
  · obtain ⟨ms, hms, H⟩ := (hr.raises (p := p)).runs hrun
    rw [htrace, trace_nil, List.nil_append] at hms
    have H := Emits.throw_iff.1 H
    rw [After, List.append_nil, ← hms] at H
    rcases H with hmem | ⟨body, hb, hbody⟩
    · exact absurd (by simpa using hmem) hf
    · refine absurd hb ((hu p r hp k columns value hr).not_breaks ?_ hf)
      rw [← List.reverse_reverse (own p s.hist), hbody, List.reverse_append]
      exact List.suffix_append ..
  · obtain ⟨ms, hms, H⟩ := (hr.raises (p := p)).runs hrun
    rw [htrace, trace_nil, List.nil_append] at hms
    have H := Emits.throw_iff.1 H
    rw [After, List.append_nil, ← hms] at H
    exact absurd (by simpa using H) hf
  · exact hr

/-! ## What a commit writes -/

variable {h ms : Hist} {w : Db}

/-- A "set" call writes the value, or has found it. -/
theorem Saves.wrote (H : Saves p k columns value ms) (hown : own p h = ms.reverse)
    (hu : Undisturbed p k columns value (own p h)) (hc : Commits serveSettings h p w) :
    w = [⟨k, some value⟩] ∨ w = [] ∧ ∃ x h₁, .ran p (.get k) x :: h₁ <:+ h ∧
      row (committed h₁) k = some value := by
  have hwrites := hc.writes
  have htold := hc.told
  have hanswered := hc.answered
  rw [opened_eq, hown] at hwrites htold hanswered
  cases H with
  | kept hbefore =>
    refine .inr ?_
    cases hbefore with
    | first =>
      obtain ⟨h₁, hs₁, -, -, hright, -⟩ := hanswered
      exact ⟨hwrites, _, h₁, hs₁, hright.symm⟩
    | refused =>
      obtain ⟨h₁, hs₁, -, -, hright, -⟩ := hanswered
      exact ⟨hwrites, _, h₁, hs₁, hright.symm⟩
  | @updated before old cur hbefore =>
    have hmerge : columns.merge old value cur = value := by
      obtain ⟨cur', hcur, hmerge⟩ := hu.updated (some cur) old before.reverse
        (hown ▸ by simp)
      exact Option.some.inj hcur ▸ hmerge
    have hrow : row (committed h) k = some cur := by
      cases hbefore with
      | first => exact htold.2.1 rfl
      | refused => exact htold.2.1 rfl
    have hupdate : ∀ {evs : Hist}, replay (committed h) evs k = some cur →
        written (committed h) evs = [] →
        written (committed h) (.ran p (.update k (columns.merge old value)) () :: evs) =
          [⟨k, some value⟩] := by
      intro evs hreplay hnothing
      rw [written_update hreplay, hnothing, hmerge]
    refine .inl (hwrites.trans ?_)
    cases hbefore with
    | first => exact hupdate hrow rfl
    | refused => exact hupdate hrow rfl
  | inserted => exact .inl hwrites

/-- A "clear" call deletes the row, or has found none. -/
theorem Removes.wrote (H : Removes p k ms) (hown : own p h = ms.reverse)
    (hc : Commits serveSettings h p w) :
    w = [⟨k, none⟩] ∨ w = [] ∧ ∃ q x h₁, .ran p q x :: h₁ <:+ h ∧
      row (committed h₁) k = none := by
  have hwrites := hc.writes
  have hanswered := hc.answered
  rw [opened_eq, hown] at hwrites hanswered
  cases H with
  | absent =>
    obtain ⟨h₁, hs₁, -, -, hright, -⟩ := hanswered
    exact .inr ⟨hwrites, _, _, h₁, hs₁, hright.symm⟩
  | gone =>
    obtain ⟨h₁, hs₁, -, -, hright, -⟩ := hanswered
    exact .inr ⟨hwrites, _, _, h₁, hs₁, hright.symm⟩
  | deleted => exact .inl hwrites

/-! ## The last word -/

/-- The calls that have committed in `new` began after `old`. -/
def Began (new old : Hist) : Prop := ∀ p w, .committed p w ∈ new → ∀ ev ∈ old, ev.pid ≠ p

/-- A call for the row under `k` has committed in `new`. -/
def Concerns (s : Sys Row Answer Err Unit SettingsRequest) (new : Hist) (k : Key) : Prop :=
  ∃ p r w, s.procs[p]? = some (some r) ∧ .committed p w ∈ new ∧ r.req.key = k

/-- **What a call that has committed in `new` leaves under `k`**: its value, or nothing. -/
inductive LastWord (s : Sys Row Answer Err Unit SettingsRequest) (new : Hist) (k : Key) :
    Option (Row k) → Prop
  | set {p : ℕ} {r : Proc Row Answer Err Unit SettingsRequest} {columns : Columns (Row k)}
      {value : Row k} {w : Db} (hp : s.procs[p]? = some (some r))
      (hr : r.req.Sets k columns value) (hw : .committed p w ∈ new) : LastWord s new k (some value)
  | clear {p : ℕ} {r : Proc Row Answer Err Unit SettingsRequest} {w : Db}
      (hp : s.procs[p]? = some (some r)) (hr : r.req.Clears k) (hw : .committed p w ∈ new) :
    LastWord s new k none

theorem LastWord.mono {new new' : Hist} {x : Option (Row k)} (H : LastWord s new k x)
    (hsub : ∀ ev ∈ new, ev ∈ new') : LastWord s new' k x := by
  cases H with
  | set hp hr hw => exact .set hp hr (hsub _ hw)
  | clear hp hr hw => exact .clear hp hr (hsub _ hw)

/-- Whoever has committed is still there. -/
theorem there_of_committed (hs : Reachable serveSettings s) (hi : Uninterrupted s.hist)
    (hw : .committed p w ∈ s.hist) : ∃ r, s.procs[p]? = some (some r) := by
  obtain ⟨hlt, -, hdead⟩ := hs.runs
  have hp : p < s.procs.length := hlt _ hw
  cases hr : s.procs[p] with
  | some r => exact ⟨r, List.getElem?_eq_some_iff.2 ⟨hp, hr⟩⟩
  | none =>
    obtain ⟨r, m, h, -, hown⟩ := hdead p (List.getElem?_eq_some_iff.2 ⟨hp, hr⟩)
    have hmem : .crashed p ∈ own p s.hist := hown ▸ List.mem_cons_self
    exact Bool.noConfusion (hi (.crashed p) (mem_own.1 hmem).1)

/-- **What a call has done when it commits.** -/
theorem committed_cases (hs : Reachable serveSettings s) (hi : Uninterrupted s.hist)
    (hu : AllUndisturbed s) (hw : .committed p w :: h <:+ s.hist) :
    ∃ r, s.procs[p]? = some (some r) ∧
      ((∃ k columns value, r.req.Sets k columns value ∧ (w = [⟨k, some value⟩] ∨
        w = [] ∧ ∃ x h₁, .ran p (.get k) x :: h₁ <:+ h ∧ row (committed h₁) k = some value)) ∨
      ∃ k, r.req.Clears k ∧ (w = [⟨k, none⟩] ∨
        w = [] ∧ ∃ q x h₁, .ran p q x :: h₁ <:+ h ∧ row (committed h₁) k = none)) := by
  obtain ⟨r, hp⟩ := there_of_committed hs hi (hw.subset List.mem_cons_self)
  obtain ⟨k, hrun⟩ := hs.committing hp hw
  have hc : Commits serveSettings h p w := (hs.faithful.suffix hw).1
  have hsuffix : own p h <:+ own p s.hist := by
    obtain ⟨evs, hevs⟩ := (List.suffix_cons (.committed p w) h).trans hw
    rw [← hevs, own_append]
    exact List.suffix_append ..
  refine ⟨r, hp, ?_⟩
  rcases r.req.cases with ⟨k, columns, value, hr⟩ | ⟨k, hr⟩ | hr
  · obtain ⟨ms, H, hown⟩ := ((hr.commits (p := p)).runs hrun).1 hc.unfailed
    have hu := hu p r hp k columns value hr
    have hu' : Undisturbed p k columns value (own p h) :=
      ⟨hu.fits, fun x old evs' hevs => hu.updated x old evs' (hevs.trans hsuffix),
        fun x evs' hevs => hu.reread x evs' (hevs.trans hsuffix)⟩
    exact .inl ⟨k, columns, value, hr, H.wrote hown hu' hc⟩
  · obtain ⟨ms, H, hown⟩ := ((hr.commits (p := p)).runs hrun).1 hc.unfailed
    exact .inr ⟨k, hr, H.wrote hown hc⟩
  · exact (((hr.commits (p := p)).runs hrun).1 hc.unfailed).elim

/-- Nothing of the batch has written the row, or one of its calls has the last word. -/
theorem untouched_or_lastWord (hs : Reachable serveSettings s) (hi : Uninterrupted s.hist)
    (hu : AllUndisturbed s) (k : Key) {new old : Hist} (hh : new ++ old <:+ s.hist) :
    (∀ ev ∈ new, k ∉ keys ev.writes) ∨ LastWord s new k (row (committed (new ++ old)) k) := by
  induction new with
  | nil => exact .inl (by simp)
  | cons ev new ih =>
    have ih := ih ((List.suffix_cons ..).trans hh)
    have hother : k ∉ keys ev.writes → (∀ e ∈ ev :: new, k ∉ keys e.writes) ∨
        LastWord s (ev :: new) k (row (committed (ev :: new ++ old)) k) := by
      intro hk
      rw [List.cons_append, committed_cons, row_append_of_notMem _ hk]
      refine ih.imp (fun hnew => List.forall_mem_cons.2 ⟨hk, hnew⟩) fun H => ?_
      exact H.mono fun e he => List.mem_cons_of_mem _ he
    cases ev with
    | ran | called | rolledBack | failed | crashed => exact hother (by simp)
    | committed p w =>
      obtain ⟨r, hp, ⟨k', columns, value, hr, hw⟩ | ⟨k', hr, hw⟩⟩ := committed_cases hs hi hu hh
      · rcases hw with rfl | ⟨rfl, -⟩
        · by_cases hk : k' = k
          · subst hk
            refine .inr ?_
            rw [List.cons_append, committed_cons, Event.writes_committed, List.singleton_append,
              row_cons_self]
            exact .set hp hr List.mem_cons_self
          · exact hother (by simpa using Ne.symm hk)
        · exact hother (by simp)
      · rcases hw with rfl | ⟨rfl, -⟩
        · by_cases hk : k' = k
          · subst hk
            refine .inr ?_
            rw [List.cons_append, committed_cons, Event.writes_committed, List.singleton_append,
              row_cons_self]
            exact .clear hp hr List.mem_cons_self
          · exact hother (by simpa using Ne.symm hk)
        · exact hother (by simp)

/-- What a process that began after `old` did then, it did after `old`. -/
theorem after_old {ev : Event Row Answer} {h₁ new old : Hist} (hs : ev :: h₁ <:+ new ++ old)
    (hev : ev ∉ old) : ∃ new₁, h₁ = new₁ ++ old ∧ ∀ e ∈ new₁, e ∈ new := by
  have hafter : old <:+ h₁ := by
    rcases List.suffix_or_suffix_of_suffix hs (List.suffix_append new old) with hin | hout
    · exact absurd (hin.subset List.mem_cons_self) hev
    · rcases List.suffix_cons_iff.1 hout with heq | hout
      · exact absurd (heq ▸ List.mem_cons_self) hev
      · exact hout
  obtain ⟨new₁, rfl⟩ := hafter
  refine ⟨new₁, rfl, fun e he => ?_⟩
  obtain ⟨evs, hevs⟩ := hs
  have hnew : evs ++ ev :: new₁ = new :=
    List.append_cancel_right (by rw [← hevs, List.append_assoc, List.cons_append])
  rw [← hnew]
  exact List.mem_append_right _ (List.mem_cons_of_mem _ he)

/-- **One of the calls has the last word.** -/
theorem lastWord (hs : Reachable serveSettings s) (hi : Uninterrupted s.hist)
    (hu : AllUndisturbed s) {k : Key} {new old : Hist} (hh : s.hist = new ++ old)
    (hb : Began new old) (hk : Concerns s new k) :
    LastWord s new k (row (committed s.hist) k) := by
  have hall : new ++ old <:+ s.hist := hh ▸ List.suffix_rfl
  rcases untouched_or_lastWord hs hi hu k hall with huntouched | H
  · -- the row is what it was when the batch began, and so what the call has found
    have hsame : ∀ {new₁ : Hist}, (∀ e ∈ new₁, e ∈ new) →
        row (committed (new₁ ++ old)) k = row (committed old) k := by
      intro new₁ hsub
      exact Extends.row_eq (P := fun e => k ∉ keys e.writes)
        ⟨new₁, rfl, fun e he => huntouched e (hsub e he)⟩ fun _ he => he
    have hfound : ∀ {p q x h h₁ w} {y : Option (Row k)}, .committed p w ∈ new → h <:+ s.hist →
        .ran p q x :: h₁ <:+ h → row (committed h₁) k = y → row (committed s.hist) k = y := by
      intro p q x h h₁ w y hw hsuffix hread hrow
      have hev : (.ran p q x : Event Row Answer) ∉ old := fun hmem => hb p w hw _ hmem rfl
      obtain ⟨new₁, rfl, hsub⟩ := after_old (hh ▸ hread.trans hsuffix) hev
      rw [hh, hsame fun _ he => he, ← hsame hsub, hrow]
    obtain ⟨p, r, w, hp, hw, hr⟩ := hk
    obtain ⟨new₂, new₁, rfl⟩ := List.append_of_mem hw
    have hsuffix : .committed p w :: (new₁ ++ old) <:+ s.hist := by
      rw [hh, List.append_assoc]
      exact List.suffix_append ..
    have hafter := (List.suffix_cons ..).trans hsuffix
    have hkeys : k ∉ keys w := huntouched _ hw
    obtain ⟨r', hp', ⟨k', columns, value, hr', hwrote⟩ | ⟨k', hr', hwrote⟩⟩ :=
      committed_cases hs hi hu hsuffix
    · obtain rfl : r = r' := Option.some.inj (Option.some.inj (hp.symm.trans hp'))
      obtain rfl : k' = k := hr'.key_eq.symm.trans hr
      rcases hwrote with rfl | ⟨-, x, h₁, hread, hrow⟩
      · simp at hkeys
      · rw [hfound hw hafter hread hrow]
        exact .set hp hr' hw
    · obtain rfl : r = r' := Option.some.inj (Option.some.inj (hp.symm.trans hp'))
      obtain rfl : k' = k := hr'.key_eq.symm.trans hr
      rcases hwrote with rfl | ⟨-, q, x, h₁, hread, hrow⟩
      · simp at hkeys
      · rw [hfound hw hafter hread hrow]
        exact .clear hp hr' hw
  · rwa [← hh] at H

end Runs

/-- **Undisturbed settings writes are free of races.**  No call fails but one that asks for
security alerts to be turned off; and where calls for a row have committed that all began
after `old`, the row is the value of one of those that set it, or absent where one of them
has cleared it. -/
theorem settings_race_free {s : Sys Row Answer Err Unit SettingsRequest}
    (hs : Reachable serveSettings s) (hi : Uninterrupted s.hist) (hu : AllUndisturbed s) :
    (∀ (p : ℕ) (r : Proc Row Answer Err Unit SettingsRequest) (e : Err),
      s.procs[p]? = some (some r) → r.prog = .throw e → r.req.Forbidden) ∧
    ∀ new old k, s.hist = new ++ old → Began new old → Concerns s new k →
      LastWord s new k (row (committed s.hist) k) :=
  ⟨fun _ _ _ hp he => undisturbed_returns hs hi hu hp he, fun _ _ _ => lastWord hs hi hu⟩

/-! ## Samples -/

/-- User 5 of customer 7 saves a choice. -/
def choose (provider : Provider) (model : String) : SettingsRequest :=
  .setUserAIPreference 7 5 provider (some model)

/-- The exception that a process has raised. -/
def raised (s : Sys Row Answer Err Unit SettingsRequest) (p : ℕ) : Option Err :=
  s.procs[p]?.join.bind fun r => match r.prog with
    | .throw e => some e
    | _ => none

/-- A choice is cleared between the read and the `UPDATE` of another call. -/
def clearedBetween : List (Act Answer SettingsRequest) :=
  .start (choose .OPENAI "a") :: Act.runs 0 sampleAnswer 0 3 ++
  .start (choose .CLAUDE "b") :: Act.runs 1 sampleAnswer 3 1 ++
  .start (.clearUserAIPreference 7 5) :: Act.runs 2 sampleAnswer 4 4 ++
  Act.runs 1 sampleAnswer 8 2

/-- A choice is cleared between a refused insert and the read that follows it. -/
def clearedAfterConflict : List (Act Answer SettingsRequest) :=
  .start (choose .CLAUDE "b") :: Act.runs 0 sampleAnswer 0 1 ++
  .start (choose .OPENAI "a") :: Act.runs 1 sampleAnswer 1 3 ++
  Act.runs 0 sampleAnswer 4 1 ++
  .start (.clearUserAIPreference 7 5) :: Act.runs 2 sampleAnswer 5 4 ++
  Act.runs 0 sampleAnswer 9 2

/-- Two calls that change one column each. -/
def mixed : List (Act Answer SettingsRequest) :=
  .start (choose .OPENAI "a") :: Act.runs 0 sampleAnswer 0 3 ++
  .start (choose .CLAUDE "a") :: Act.runs 1 sampleAnswer 3 1 ++
  .start (choose .OPENAI "b") :: Act.runs 2 sampleAnswer 4 1 ++
  Act.runs 1 sampleAnswer 5 3 ++ Act.runs 2 sampleAnswer 8 3

/-- **Races that are lost.**  A call whose row is cleared before its `UPDATE`, or before it
reads the row that has refused its insert, raises; and of two calls that change one column
each neither leaves its value. -/
theorem races_lost :
    (∃ s, Reachable serveSettings s ∧ Uninterrupted s.hist ∧
      raised s 1 = some (.builtin "StaleDataError")) ∧
    (∃ s, Reachable serveSettings s ∧ Uninterrupted s.hist ∧ raised s 0 = some .assertion) ∧
    ∃ s, Reachable serveSettings s ∧ Uninterrupted s.hist ∧
      (s.procs.all fun r => r.any fun r => r.prog matches .pure _) = true ∧
      ¬ LastWord s s.hist (.userAIPreference 7 5) (row (committed s.hist) (.userAIPreference 7 5))
    := by
  refine ⟨?_, ?_, ?_⟩
  · have hrun : ((runAll serveSettings {} clearedBetween).any fun s =>
        Uninterrupted s.hist ∧ raised s 1 = some (.builtin "StaleDataError")) = true := by
      decide +kernel
    obtain ⟨s, hst, hs⟩ := (Option.any_eq_true _ _).1 hrun
    exact ⟨s, Reachable.init.runAll hst, of_decide_eq_true hs⟩
  · have hrun : ((runAll serveSettings {} clearedAfterConflict).any fun s =>
        Uninterrupted s.hist ∧ raised s 0 = some .assertion) = true := by
      decide +kernel
    obtain ⟨s, hst, hs⟩ := (Option.any_eq_true _ _).1 hrun
    exact ⟨s, Reachable.init.runAll hst, of_decide_eq_true hs⟩
  · have hrun : ((runAll serveSettings {} mixed).any fun s =>
        Uninterrupted s.hist ∧ (s.procs.all fun r => r.any fun r => r.prog matches .pure _) = true ∧
        row (committed s.hist) (.userAIPreference 7 5) = some ⟨.CLAUDE, some "b"⟩ ∧
        some (.setUserAIPreference 7 5 .CLAUDE (some "b")) ∉ s.procs.map (·.map (·.req))) =
          true := by
      decide +kernel
    obtain ⟨s, hst, hs⟩ := (Option.any_eq_true _ _).1 hrun
    obtain ⟨hi, hreturned, hrow, hnone⟩ := of_decide_eq_true hs
    refine ⟨s, Reachable.init.runAll hst, hi, hreturned, ?_⟩
    rw [hrow]
    rintro (⟨hp, hr, -⟩ | _)
    refine hnone (List.mem_map.2 ⟨_, List.mem_of_getElem? hp, ?_⟩)
    rw [Option.map_some, hr.eq_setUserAIPreference]

/-- Calls for one row that overlap.  The first has found no row, but its insert is refused; it
updates the row of the second.  The third has read that row, and deletes the updated one.  The
fourth saves a choice again. -/
def contested : List (Act Answer SettingsRequest) :=
  .start (choose .OPENAI "a") :: Act.runs 0 sampleAnswer 0 1 ++
  .start (choose .CLAUDE "b") :: Act.runs 1 sampleAnswer 1 3 ++
  .start (.clearUserAIPreference 7 5) :: Act.runs 2 sampleAnswer 4 1 ++
  Act.runs 0 sampleAnswer 5 5 ++ Act.runs 2 sampleAnswer 10 3 ++
  .start (choose .GEMINI "c") :: Act.runs 3 sampleAnswer 13 3

/-- What has happened then. -/
def contestedEnd : Sys Row Answer Err Unit SettingsRequest where
  hist := [
    .committed 3 [⟨.userAIPreference 7 5, some ⟨.GEMINI, some "c"⟩⟩],
    .ran 3 (.tryInsert [⟨.userAIPreference 7 5, ⟨.GEMINI, some "c"⟩⟩]) true,
    .ran 3 (.get (.userAIPreference 7 5)) none,
    .committed 2 [⟨.userAIPreference 7 5, none⟩],
    .ran 2 (.delete (.userAIPreference 7 5)) (),
    .ran 2 (.forUpdate (.userAIPreference 7 5)) (some ⟨.OPENAI, some "a"⟩),
    .committed 0 [⟨.userAIPreference 7 5, some ⟨.OPENAI, some "a"⟩⟩],
    .ran 0 (.update (.userAIPreference 7 5)
      (preferenceColumns.merge ⟨.CLAUDE, some "b"⟩ ⟨.OPENAI, some "a"⟩)) (),
    .ran 0 (.forUpdate (.userAIPreference 7 5)) (some ⟨.CLAUDE, some "b"⟩),
    .ran 0 (.get (.userAIPreference 7 5)) (some ⟨.CLAUDE, some "b"⟩),
    .ran 0 (.tryInsert [⟨.userAIPreference 7 5, ⟨.OPENAI, some "a"⟩⟩]) false,
    .ran 2 (.get (.userAIPreference 7 5)) (some ⟨.CLAUDE, some "b"⟩),
    .committed 1 [⟨.userAIPreference 7 5, some ⟨.CLAUDE, some "b"⟩⟩],
    .ran 1 (.tryInsert [⟨.userAIPreference 7 5, ⟨.CLAUDE, some "b"⟩⟩]) true,
    .ran 1 (.get (.userAIPreference 7 5)) none,
    .ran 0 (.get (.userAIPreference 7 5)) none]
  procs := [
    some { req := choose .OPENAI "a", prog := .pure () },
    some { req := choose .CLAUDE "b", prog := .pure () },
    some { req := .clearUserAIPreference 7 5, prog := .pure () },
    some { req := choose .GEMINI "c", prog := .pure () }]

theorem contested_reaches : runAll serveSettings {} contested = some contestedEnd := rfl

theorem contestedEnd_undisturbed : AllUndisturbed contestedEnd := by
  intro p r hp k columns value hr
  have hlt : p < 4 := (List.getElem?_eq_some_iff.1 hp).1
  obtain rfl | rfl | rfl | rfl : p = 0 ∨ p = 1 ∨ p = 2 ∨ p = 3 := by omega
  all_goals
    obtain rfl : _ = r := Option.some.inj (Option.some.inj hp)
    cases hr
  · -- the first call has updated what it had read, after its insert was refused
    refine ⟨by decide, fun x old evs' hevs => ?_, fun x evs' hevs => ?_⟩
    all_goals simp [own, contestedEnd, Event.pid, List.suffix_cons_iff] at hevs
    · obtain ⟨rfl, rfl, -⟩ := hevs
      exact ⟨_, rfl, by decide⟩
    · obtain ⟨rfl, -⟩ := hevs
      rfl
  all_goals
    refine ⟨by decide, fun x old evs' hevs => ?_, fun x evs' hevs => ?_⟩
    all_goals simp [own, contestedEnd, Event.pid, List.suffix_cons_iff] at hevs

/-- All four return, and the fourth has the last word. -/
theorem settings_race_free_sample : runAll serveSettings {} contested = some contestedEnd ∧
    (∀ (p : ℕ) (r : Proc Row Answer Err Unit SettingsRequest) (e : Err),
      contestedEnd.procs[p]? = some (some r) → r.prog = .throw e → r.req.Forbidden) ∧
    LastWord contestedEnd contestedEnd.hist (.userAIPreference 7 5)
      (some ⟨.GEMINI, some "c"⟩) := by
  obtain ⟨hreturns, hlast⟩ := settings_race_free (Reachable.init.runAll contested_reaches)
    (by decide) contestedEnd_undisturbed
  refine ⟨contested_reaches, hreturns, hlast _ [] _ (List.append_nil _).symm
    (fun _ _ _ _ hev => absurd hev List.not_mem_nil) ⟨3, _, _, rfl, List.mem_cons_self, rfl⟩⟩

end Doda
