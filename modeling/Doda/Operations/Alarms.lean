import Doda.Lifecycle.Once
import Doda.Lifecycle.Accounts
import Doda.Operations.Jobs

/-!
# The scripts raise no false alarm

The scripts run beside the service and read what it has committed, each customer by two
queries between which anything may happen.  Even so they report nothing that is not there:
no event has another trace than its action, every action in a status has exactly one event
that says since when, and an action is reported as stuck exactly if that event is old.

## Main definitions

* `EnteredOnce` — a status that no action is in twice.
* `Surveyed` — what a script has found of each customer.
* `StuckExactly` — the actions that a script should report as stuck.

## Main results

* `since_eq` — the one event of an action that is in such a status.
* `traceViolations_eq_nil` — what the trace check finds.
* `alarms_are_real` — what the scripts report in every run.
-/

namespace Doda

open ReadCommitted

/-! ## A status that is entered once -/

theorem ActionStatus.eventType_injective : Function.Injective ActionStatus.eventType := by
  have hnodup : ([ActionStatus.DRAFT, .VALIDATING, .AWAITING_APPROVAL, .READY, .RUNNING,
      .SUCCEEDED, .FAILED, .RETRYING, .COMPENSATING, .COMPENSATED, .DENIED, .REJECTED, .EXPIRED,
      .CANCELLED].map ActionStatus.eventType).Nodup := by
    decide +kernel
  intro a b h
  exact List.inj_on_of_nodup_map hnodup (by cases a <;> simp) (by cases b <;> simp) h

/-- The status is left for statuses only from which nothing leads back to it. -/
def EnteredOnce (t : ActionStatus) : Prop :=
  ∃ S, Lasting S ∧ t ∈ S ∧ ∀ s ∈ S, t ∉ allowedTransitions s

theorem enteredOnce_running : EnteredOnce .RUNNING :=
  ⟨startedStatuses, lasting_started, by simp [startedStatuses], fun s hs => by
    cases s <;> simp [startedStatuses] at hs <;> simp [allowedTransitions]⟩

theorem enteredOnce_compensating : EnteredOnce .COMPENSATING := by
  refine ⟨[.COMPENSATING, .COMPENSATED, .FAILED], ?_, by simp, ?_⟩
  · intro s hs t ht hne
    cases s <;> simp at hs <;> cases t <;> simp [allowedTransitions] at ht hne ⊢
  · intro s hs
    cases s <;> simp at hs <;> simp [allowedTransitions]

section Replay

variable {t source target : ActionStatus} {es : List AuditEvent}

theorem retrace_cons_eq_some {e : AuditEvent} (h : retrace source (e :: es) = some target) :
    ∃ next, e.follow source = some next ∧ retrace next es = some target :=
  Option.bind_eq_some_iff.1 h

/-- The allowed transition that an event tells of. -/
theorem AuditEvent.follow_allowed {e : AuditEvent} (h : e.follow source = some target) :
    target ∈ allowedTransitions source :=
  List.mem_of_find?_eq_some h

/-- Whoever gets to a status has entered it. -/
theorem exists_entering (h : retrace source es = some target) (hne : source ≠ target) :
    ∃ e ∈ es, e.eventType = target.eventType := by
  induction es generalizing source with
  | nil => exact absurd (Option.some.inj h) hne
  | cons e es ih =>
    obtain ⟨next, hnext, hrest⟩ := retrace_cons_eq_some h
    by_cases hthere : next = target
    · subst hthere
      exact ⟨e, List.mem_cons_self .., (AuditEvent.says_of_follow hnext).2.2⟩
    · obtain ⟨e', he', htype⟩ := ih hrest hthere
      exact ⟨e', List.mem_cons_of_mem _ he', htype⟩

/-- A status that has been left for good is not entered. -/
theorem not_entered_again {S : List ActionStatus} (hS : Lasting S)
    (hout : ∀ s ∈ S, t ∉ allowedTransitions s) (h : retrace source es = some target)
    (hsource : source ∈ S) (hretry : ∀ e ∈ es, e.eventType ≠ ActionStatus.RETRYING.eventType) :
    ∀ e ∈ es, e.eventType ≠ t.eventType := by
  induction es generalizing source with
  | nil => simp
  | cons e es ih =>
    obtain ⟨next, hnext, hrest⟩ := retrace_cons_eq_some h
    have htype := (AuditEvent.says_of_follow hnext).2.2
    have hallowed := AuditEvent.follow_allowed hnext
    have hnever : next ≠ .RETRYING := by
      rintro rfl
      exact hretry e (List.mem_cons_self ..) htype
    intro e' he'
    rcases List.mem_cons.1 he' with rfl | hmem
    · rw [htype]
      intro heq
      rw [ActionStatus.eventType_injective heq] at hallowed
      exact hout source hsource hallowed
    · exact ih hrest (hS source hsource next hallowed hnever)
        (fun e'' he'' => hretry e'' (List.mem_cons_of_mem _ he'')) e' hmem

/-- **Such a status is entered at most once.** -/
theorem entered_at_most_once (ht : EnteredOnce t) (h : retrace source es = some target)
    (hretry : ∀ e ∈ es, e.eventType ≠ ActionStatus.RETRYING.eventType) :
    (es.filter (·.eventType = t.eventType)).length ≤ 1 := by
  induction es generalizing source with
  | nil => simp
  | cons e es ih =>
    obtain ⟨next, hnext, hrest⟩ := retrace_cons_eq_some h
    have hretry' : ∀ e' ∈ es, e'.eventType ≠ ActionStatus.RETRYING.eventType :=
      fun e' he' => hretry e' (List.mem_cons_of_mem _ he')
    by_cases he : e.eventType = t.eventType
    · -- it is entered here, and never again
      have hsame : next = t := ActionStatus.eventType_injective
        ((AuditEvent.says_of_follow hnext).2.2.symm.trans he)
      obtain ⟨S, hS, hmem, hout⟩ := ht
      have hnone := not_entered_again hS hout hrest (hsame ▸ hmem) hretry'
      rw [List.filter_cons_of_pos (by simpa using he),
        List.filter_eq_nil_iff.2 fun e' he' => by simpa using hnone e' he']
      simp
    · rw [List.filter_cons_of_neg (by simpa using he)]
      exact ih hrest hretry'

end Replay

/-! ## What the queries find -/

section Valid

variable [Sha256] {h₁ h₂ : Hist} {c : Uuid} {a : Action}

/-- Of the stored events about an action the ones of a type are those of its story. -/
theorem filter_storedEvents_perm (hv : lifecycle.Valid h₂) {i : Uuid}
    (hrow : row (committed h₂) (.action i) = some a) (hc : a.customerId = c) (eventType : String) :
    (((storedEvents c (committed h₂)).filter (·.eventType = eventType)).filter fun e =>
      e.actionId = some i.str).Perm
      ((story i (committed h₂)).filter (·.eventType = eventType)) := by
  have hperm := (storedEvents_perm lifecycle_audits hv c).filter fun e => e.About i
  have htold := (story_of_valid hv).found i a hrow
  have hall : (story i (committed h₂)).filter (·.customerId = c) = story i (committed h₂) := by
    rw [List.filter_eq_self]
    intro e he
    exact decide_eq_true ((htold.tells e he).customerId.trans hc)
  rw [filter_chainEvents, hall] at hperm
  rw [List.filter_comm]
  exact hperm.filter _

/-- **An action in a status that is entered once** has one event that says so. -/
theorem since_eq (hv : lifecycle.Valid h₂) (hle : h₁ <:+ h₂) {t : ActionStatus}
    (ht : EnteredOnce t) (hdraft : t ≠ .DRAFT) (ha : a ∈ storedActions c (committed h₁))
    (hstatus : a.status = t) :
    ∃ e, (story a.id (committed h₂)).filter (·.eventType = t.eventType) = [e] ∧
      sinceOf ((storedEvents c (committed h₂)).filter (·.eventType = t.eventType)) a =
        some e.occurredAt := by
  obtain ⟨hc, i, hrow⟩ := mem_storedActions.1 ha
  have hv₁ := hv.suffix hle
  obtain rfl : a.id = i := keyed_of_valid hv₁ _ _ hrow a rfl
  obtain ⟨evs, rfl⟩ := hle
  obtain ⟨b, hb, hkept⟩ := keeps_of_valid hv hrow
  -- it has entered the status by the first query, and the log has only grown since
  obtain ⟨e₀, moves₀, heq₀, -, hreplay₀⟩ := ((story_of_valid hv₁).found _ a hrow).replays
  rw [hstatus] at hreplay₀
  obtain ⟨e, he, htype⟩ := exists_entering hreplay₀ (Ne.symm hdraft)
  obtain ⟨more, hmore⟩ := story_extends a.id evs h₁
  have hmem : e ∈ (story a.id (committed (evs ++ h₁))).filter (·.eventType = t.eventType) := by
    refine List.mem_filter.2 ⟨?_, decide_eq_true htype⟩
    rw [hmore, heq₀]
    exact List.mem_append_left _ (List.mem_cons_of_mem _ he)
  -- and it enters it once
  obtain ⟨e₁, moves, heq, hproposes, hreplay⟩ := ((story_of_valid hv).found _ b hb).replays
  have hretry : ∀ e' ∈ moves, e'.eventType ≠ ActionStatus.RETRYING.eventType := by
    intro e' he'
    have hstory : e' ∈ story a.id (committed (evs ++ h₁)) := heq ▸ List.mem_cons_of_mem _ he'
    have hnot := ((accounted_of_valid hv).2.accounted _ b hb e' hstory).not_refusal
    intro hretrying
    rw [hretrying] at hnot
    simp [refusalTypes] at hnot
  have honce := entered_at_most_once ht hreplay hretry
  have hfirst : e₁.eventType ≠ t.eventType := by
    rw [hproposes.eventType]
    cases t <;> decide +kernel
  have hmoves : (story a.id (committed (evs ++ h₁))).filter (·.eventType = t.eventType) =
      moves.filter (·.eventType = t.eventType) := by
    rw [heq, List.filter_cons_of_neg (by simpa using hfirst)]
  have hsole : (story a.id (committed (evs ++ h₁))).filter (·.eventType = t.eventType) = [e] := by
    rw [← hmoves] at honce
    obtain ⟨e', he'⟩ := List.length_eq_one_iff.1
      (Nat.le_antisymm honce (List.length_pos_of_mem hmem))
    rw [he'] at hmem ⊢
    rw [List.mem_singleton.1 hmem]
  refine ⟨e, hsole, ?_⟩
  have hbc : b.customerId = c := by
    rw [hkept]
    exact hc
  have hperm := filter_storedEvents_perm hv hb hbc t.eventType
  rw [hsole, List.perm_singleton] at hperm
  rw [sinceOf, hperm]
  rfl

/-- **No event has another trace** than its action, whatever happens between the queries. -/
theorem traceViolations_eq_nil (hv : lifecycle.Valid h₂) (hle : h₁ <:+ h₂) (c : Uuid) :
    (storedEvents c (committed h₂)).filterMap
      (traceViolation c (storedActions c (committed h₁))) = [] := by
  rw [List.filterMap_eq_nil_iff]
  intro e he
  cases hviolation : traceViolation c (storedActions c (committed h₁)) e with
  | none => rfl
  | some text =>
    obtain ⟨actionId, hid, hrest⟩ := Option.bind_eq_some_iff.1 hviolation
    obtain ⟨a, hfind, hne⟩ := Option.bind_eq_some_iff.1 hrest
    have hfound := List.find?_some hfind
    have hsame : a.id.str = actionId := of_decide_eq_true hfound
    obtain ⟨hc, i, hrow⟩ := mem_storedActions.1 (List.mem_of_find?_eq_some hfind)
    obtain ⟨evs, rfl⟩ := hle
    obtain rfl : a.id = i := keyed_of_valid (hv.suffix ⟨evs, rfl⟩) _ _ hrow a rfl
    obtain ⟨b, hb, hkept⟩ := keeps_of_valid hv hrow
    have hbc : b.customerId = c := by
      rw [hkept]
      exact hc
    have hmem : e ∈ story a.id (committed (evs ++ h₁)) := by
      have hfiltered := (filter_storedEvents_perm hv hb hbc e.eventType).mem_iff.1
        (List.mem_filter.2 ⟨List.mem_filter.2 ⟨he, by simp⟩, by simp [hid, hsame]⟩)
      exact (List.mem_filter.1 hfiltered).1
    have htrace := (((story_of_valid hv).found _ b hb).tells e hmem).traceId
    rw [hkept] at htrace
    have htraces : e.traceId = a.traceId := htrace
    rw [if_pos htraces] at hne
    cases hne

end Valid

/-! ## What the scripts report -/

/-- A query of the script's, which has found what was committed at this moment. -/
def Queried (p : ℕ) (h₁ h : Hist) : Prop := .ran p .view (committed h₁) :: h₁ <:+ h

theorem Queried.mono {p : ℕ} {h₁ h h' : Hist} (H : Queried p h₁ h) (hle : h <:+ h') :
    Queried p h₁ h' := H.trans hle

theorem Queried.suffix {p : ℕ} {h₁ h : Hist} (H : Queried p h₁ h) : h₁ <:+ h :=
  (List.suffix_cons ..).trans H

/-- A script read the customers at some moment, and has since found of each what `R` says. -/
def Surveyed {α : Type} (p : ℕ) (R : Uuid → List α → Hist → Hist → Prop) (found : List α)
    (h : Hist) : Prop :=
  ∃ h₀ order, ∃ parts : List (Uuid × List α), Queried p h₀ h ∧
    Event.called p (.scanOrder (indexedCustomers (committed h₀))) order ∈ h ∧
    parts.map Prod.fst = order.1 ∧ found = parts.flatMap Prod.snd ∧
    ∀ part ∈ parts, R part.1 part.2 h₀ h

theorem Surveyed.mono {α : Type} {p : ℕ} {R : Uuid → List α → Hist → Hist → Prop} {found : List α}
    {h h' : Hist} (hmono : ∀ c xs h₀, R c xs h₀ h → R c xs h₀ h') (H : Surveyed p R found h)
    (hle : h <:+ h') : Surveyed p R found h' := by
  obtain ⟨h₀, order, parts, hle₀, hcalled, hfst, hfound, hparts⟩ := H
  exact ⟨h₀, order, parts, hle₀.mono hle, hle.subset hcalled, hfst, hfound,
    fun part hpart => hmono _ _ _ (hparts part hpart)⟩

/-- Nothing was found of any customer. -/
theorem Surveyed.eq_nil {α : Type} {p : ℕ} {R : Uuid → List α → Hist → Hist → Prop}
    {found : List α} {h : Hist} (H : Surveyed p R found h)
    (hR : ∀ c xs h₀, R c xs h₀ h → xs = []) : found = [] := by
  obtain ⟨h₀, order, parts, -, -, -, rfl, hparts⟩ := H
  rw [List.flatMap_eq_nil_iff]
  exact fun part hpart => hR _ _ _ (hparts part hpart)

section Scripts

variable [Sha256] {p : ℕ} {h : Hist} {α : Type} {check : Uuid → Session (List α)}
  {R : Uuid → List α → Hist → Hist → Prop}

theorem listAllCustomerIds_safe :
    Safe lifecycle p (fun cs h' t' => t' = {} ∧ ∃ h₀ order, Queried p h₀ h' ∧
        Event.called p (.scanOrder (indexedCustomers (committed h₀))) order ∈ h' ∧ cs = order.1)
      Whatever listAllCustomerIds h {} := by
  refine (atomically_safe_of_done (R := fun cs h' => ∃ h₀ order, Queried p h₀ h' ∧
    Event.called p (.scanOrder (indexedCustomers (committed h₀))) order ∈ h' ∧ cs = order.1)
    ?_).mono (fun _ _ _ => id) fun _ _ _ _ => trivial
  refine Safe.bind (select_safe.mono (fun _ _ _ => id) fun _ _ _ _ => trivial) ?_
  rintro db h₁ _ ⟨rfl, hr, h₀, -, rfl, rfl⟩
  refine Safe.bind (Safe.call
    (Q := fun order h' t' => t' = {} ∧ Ready lifecycle p h' {} ∧ Queried p h₀ h' ∧
    Event.called p (.scanOrder (indexedCustomers (committed h₀))) order ∈ h')
    fun h' ho hv hs => ⟨callOk_of_quiet trivial, fun order => ⟨rfl, ?_, ?_, ?_⟩⟩) ?_
  · exact .start ⟨callOk_of_quiet trivial, hv⟩
  · exact ho.suffix.trans (List.suffix_cons ..)
  · exact List.mem_cons_self ..
  · rintro order h₂ _ ⟨rfl, hr₂, hquery, hcalled⟩
    refine ⟨⟨[], hr₂.busy⟩, fun h'' ho => ⟨h₀, order, ?_, ?_, rfl⟩⟩
    · exact hquery.mono (ho.suffix.trans (List.suffix_cons ..))
    · exact List.mem_cons_of_mem _ (ho.suffix.subset hcalled)

/-- One transaction for each customer. -/
theorem forEachCustomer_safe
    (hmono : ∀ c xs h₀ h h', R c xs h₀ h → h <:+ h' → R c xs h₀ h')
    {h₀ : Hist} (hcheck : ∀ c h, h₀ <:+ h → Safe lifecycle p (fun xs h' t' => t' = {} ∧
      Ready lifecycle p h' {} ∧ h₀ <:+ h' ∧ R c xs h₀ h') Whatever (check c) h {})
    (customerIds : List Uuid) (hle : h₀ <:+ h) :
    Safe lifecycle p (fun found h' t' => t' = {} ∧ h <:+ h' ∧ ∃ parts : List (Uuid × List α),
        parts.map Prod.fst = customerIds ∧ found = parts.flatMap Prod.snd ∧
        ∀ part ∈ parts, R part.1 part.2 h₀ h')
      Whatever (forEachCustomer check customerIds) h {} := by
  induction customerIds generalizing h with
  | nil => exact ⟨rfl, List.suffix_refl _, [], rfl, rfl, by simp⟩
  | cons c cs ih =>
    have hone : Safe lifecycle p (fun xs h' t' => t' = {} ∧ h₀ <:+ h' ∧ R c xs h₀ h') Whatever
        (atomically (check c)) h {} := by
      refine (atomically_safe_of_done (R := fun xs h' => h₀ <:+ h' ∧ R c xs h₀ h')
        ((hcheck c h hle).mono ?_ fun _ _ _ => id)).mono (fun _ _ _ => id) fun _ _ _ _ => trivial
      rintro xs h₁ _ ⟨rfl, hr, hle₁, hR⟩
      refine ⟨⟨[], hr.busy⟩, fun h'' ho => ?_⟩
      have hlater : h₁ <:+ .committed p ([] : Db) :: h'' :=
        ho.suffix.trans (List.suffix_cons ..)
      exact ⟨hle₁.trans hlater, hmono _ _ _ _ _ hR hlater⟩
    refine Safe.bind ((hone.later (List.suffix_refl h)).mono (fun _ _ _ => id)
      fun _ _ _ _ => trivial) ?_
    rintro xs h₁ _ ⟨⟨rfl, hle₁, hR⟩, hlater⟩
    refine Safe.bind ((ih hle₁).mono (fun _ _ _ => id) fun _ _ _ => id) ?_
    rintro rest h₂ _ ⟨rfl, hlater', parts, hfst, rfl, hparts⟩
    refine ⟨rfl, hlater.trans hlater', (c, xs) :: parts, by simp [hfst], rfl, ?_⟩
    intro part hpart
    rcases List.mem_cons.1 hpart with rfl | hpart
    · exact hmono _ _ _ _ _ hR hlater'
    · exact hparts part hpart

/-- **A script has looked at every customer.** -/
theorem overCustomers_safe
    (hmono : ∀ c xs h₀ h h', R c xs h₀ h → h <:+ h' → R c xs h₀ h')
    (hcheck : ∀ c h₀ h, h₀ <:+ h → Safe lifecycle p (fun xs h' t' => t' = {} ∧
      Ready lifecycle p h' {} ∧ h₀ <:+ h' ∧ R c xs h₀ h') Whatever (check c) h {}) :
    Safe lifecycle p (fun found h' _ => Surveyed p R found h') Whatever (overCustomers check)
      h {} := by
  refine Safe.bind (listAllCustomerIds_safe.mono (fun _ _ _ => id) fun _ _ _ => id) ?_
  rintro _ h₁ _ ⟨rfl, h₀, order, hquery, hcalled, rfl⟩
  refine (forEachCustomer_safe hmono (fun c h => hcheck c h₀ h) order.1 hquery.suffix).mono ?_
    fun _ _ _ => id
  rintro found h₂ _ ⟨-, hlater, parts, hfst, hfound, hparts⟩
  exact ⟨h₀, order, parts, hquery.mono hlater, hlater.subset hcalled, hfst, hfound, hparts⟩

end Scripts

section Reports

variable [Sha256] {p : ℕ} {h : Hist}

/-- What the trace check of a customer reports, by its two queries. -/
def TracesSeen (c : Uuid) (found : List String) (h₀ h : Hist) : Prop :=
  ∃ h₁ h₂, h₀ <:+ h₁ ∧ h₁ <:+ h₂ ∧ h₂ <:+ h ∧
    found = (storedEvents c (committed h₂)).filterMap
      (traceViolation c (storedActions c (committed h₁)))

/-- What the search for stuck actions reports of a customer, by its two queries. -/
def StuckSeen (p : ℕ) (status : ActionStatus) (eventType : String) (cutoff : Time) (c : Uuid)
    (found : List (Action × Option Time)) (h₀ h : Hist) : Prop :=
  ∃ h₁ h₂, h₀ <:+ h₁ ∧ Queried p h₁ h ∧ h₁ <:+ h₂ ∧ h₂ <:+ h ∧
    found = stuckActions (((storedActions c (committed h₁)).filter (·.status = status)).map
      fun a => (a, sinceOf ((storedEvents c (committed h₂)).filter (·.eventType = eventType)) a))
      cutoff

omit [Sha256] in
theorem StuckSeen.mono {status : ActionStatus} {eventType : String} {cutoff : Time} {c : Uuid}
    {found : List (Action × Option Time)} {h₀ h' : Hist}
    (H : StuckSeen p status eventType cutoff c found h₀ h) (hle : h <:+ h') :
    StuckSeen p status eventType cutoff c found h₀ h' := by
  obtain ⟨h₁, h₂, hle₁, hquery, hle₂, hle₃, hfound⟩ := H
  exact ⟨h₁, h₂, hle₁, hquery.mono hle, hle₂, hle₃.trans hle, hfound⟩

/-- What the verification of a customer's chain reports. -/
def ChainSeen (c : Uuid) (found : List AuditChainViolation) (h₀ h : Hist) : Prop :=
  ∃ h₁, h₀ <:+ h₁ ∧ h₁ <:+ h ∧ found = (verifyEvents (storedEvents c (committed h₁))).violations

/-- The rest of a script's transaction for one customer, after its first query. -/
theorem select_again_safe {α : Type} {h₀ : Hist} (hle : h₀ <:+ h) (f : Db → List α)
    {R : List α → Hist → Prop}
    (hR : ∀ h₁ h₂, h <:+ h₁ → h₁ <:+ h₂ → R (f (committed h₁)) h₂) :
    Safe lifecycle p (fun xs h' t' => t' = {} ∧ Ready lifecycle p h' {} ∧ h₀ <:+ h' ∧ R xs h')
      Whatever (do let db ← Session.select; return f db) h {} := by
  refine Safe.bind (select_safe.mono (fun _ _ _ => id) fun _ _ _ _ => trivial) ?_
  rintro db _ _ ⟨rfl, hr, h₂, hle₂, rfl, rfl⟩
  have hle₂' : h₂ <:+ .ran p .view (committed h₂) :: h₂ := List.suffix_cons ..
  exact ⟨rfl, hr, (hle.trans hle₂).trans hle₂', hR h₂ _ hle₂ hle₂'⟩

theorem checkCustomerTraceCompleteness_safe (c : Uuid) (h₀ : Hist) (hle : h₀ <:+ h) :
    Safe lifecycle p (fun xs h' t' => t' = {} ∧ Ready lifecycle p h' {} ∧ h₀ <:+ h' ∧
      TracesSeen c xs h₀ h') Whatever (checkCustomerTraceCompleteness c) h {} := by
  refine Safe.bind (select_safe.mono (fun _ _ _ => id) fun _ _ _ _ => trivial) ?_
  rintro db _ _ ⟨rfl, hr, h₁, hle₁, rfl, rfl⟩
  have hle₁' : h₁ <:+ .ran p .view (committed h₁) :: h₁ := List.suffix_cons ..
  dsimp only
  split
  · rename_i hnone
    refine ⟨rfl, hr, (hle.trans hle₁).trans hle₁', h₁, h₁, hle.trans hle₁, List.suffix_refl _,
      hle₁', ?_⟩
    symm
    rw [List.filterMap_eq_nil_iff, hnone]
    intro e _
    cases hid : e.actionId <;> simp [traceViolation, hid]
  · refine select_again_safe ((hle.trans hle₁).trans hle₁') _ fun h₂ h₃ hle₂ hle₃ => ?_
    exact ⟨h₁, h₂, hle.trans hle₁, hle₁'.trans hle₂, hle₃, rfl⟩

theorem findActionsStuckInStatus_safe (status : ActionStatus) (eventType : String) (cutoff : Time)
    (c : Uuid) (h₀ : Hist) (hle : h₀ <:+ h) :
    Safe lifecycle p (fun xs h' t' => t' = {} ∧ Ready lifecycle p h' {} ∧ h₀ <:+ h' ∧
      StuckSeen p status eventType cutoff c xs h₀ h') Whatever
      (do
        let pairs ← findActionsStuckInStatus c status eventType
        return stuckActions pairs cutoff) h {} := by
  refine Safe.bind (B := fun pairs h' t' => t' = {} ∧ Ready lifecycle p h' {} ∧ h₀ <:+ h' ∧
    ∃ h₁ h₂, h₀ <:+ h₁ ∧ Queried p h₁ h' ∧ h₁ <:+ h₂ ∧ h₂ <:+ h' ∧
      pairs = ((storedActions c (committed h₁)).filter (·.status = status)).map fun a =>
        (a, sinceOf ((storedEvents c (committed h₂)).filter (·.eventType = eventType)) a)) ?_ ?_
  · refine Safe.bind (select_safe.mono (fun _ _ _ => id) fun _ _ _ _ => trivial) ?_
    rintro db _ _ ⟨rfl, hr, h₁, hle₁, rfl, rfl⟩
    have hle₁' : h₁ <:+ .ran p .view (committed h₁) :: h₁ := List.suffix_cons ..
    have hquery : Queried p h₁ (.ran p .view (committed h₁) :: h₁) := List.suffix_refl _
    dsimp only
    split
    · rename_i hnone
      refine ⟨rfl, hr, (hle.trans hle₁).trans hle₁', h₁, h₁, hle.trans hle₁, hquery,
        List.suffix_refl _, hle₁', ?_⟩
      rw [hnone]
      rfl
    · refine select_again_safe ((hle.trans hle₁).trans hle₁') _ fun h₂ h₃ hle₂ hle₃ => ?_
      exact ⟨h₁, h₂, hle.trans hle₁, hquery.mono (hle₂.trans hle₃), hle₁'.trans hle₂, hle₃, rfl⟩
  · rintro pairs h' _ ⟨rfl, hr, hle', h₁, h₂, hle₁, hquery, hle₂, hle₃, rfl⟩
    exact ⟨rfl, hr, hle', h₁, h₂, hle₁, hquery, hle₂, hle₃, rfl⟩

theorem verifyCustomer_safe (c : Uuid) (h₀ : Hist) (hle : h₀ <:+ h) :
    Safe lifecycle p (fun xs h' t' => t' = {} ∧ Ready lifecycle p h' {} ∧ h₀ <:+ h' ∧
      ChainSeen c xs h₀ h') Whatever
      (do
        let result ← verifyAuditChain c
        return result.violations) h {} := by
  refine Safe.bind (B := fun result h' t' => t' = {} ∧ Ready lifecycle p h' {} ∧ h₀ <:+ h' ∧
      ∃ h₁, h₀ <:+ h₁ ∧ h₁ <:+ h' ∧ result = verifyEvents (storedEvents c (committed h₁)))
    (Safe.bind (select_safe.mono (fun _ _ _ => id) fun _ _ _ _ => trivial) ?_) ?_
  · rintro db _ _ ⟨rfl, hr, h₁, hle₁, rfl, rfl⟩
    have hle₁' : h₁ <:+ .ran p .view (committed h₁) :: h₁ := List.suffix_cons ..
    exact ⟨rfl, hr, (hle.trans hle₁).trans hle₁', h₁, hle.trans hle₁, hle₁', rfl⟩
  · rintro result h' _ ⟨rfl, hr, hle', h₁, hle₁, hle₁', rfl⟩
    exact ⟨rfl, hr, hle', h₁, hle₁, hle₁', rfl⟩

end Reports

/-! ## Every run -/

section Runs

variable [Sha256] [JsonText] [Deployment]

/-- What the service and its scripts reply. -/
def Reports (p : ℕ) : OpsRequest → OpsReply → Hist → Prop
  | .service _, .service _, _ => True
  | .verifyAuditChain, .broken found, h => Surveyed p ChainSeen found h
  | .verifyTraceCompleteness, .mismatched found, h => Surveyed p TracesSeen found h
  | .findStuckRunning cutoff, .stuck found, h =>
    Surveyed p (StuckSeen p .RUNNING "action.running.v1" cutoff) found h
  | .findStuckCompensating cutoff, .stuck found, h =>
    Surveyed p (StuckSeen p .COMPENSATING "action.compensating.v1" cutoff) found h
  | _, _, _ => False

theorem serveOps_safe (r : OpsRequest) (p : ℕ) (h : Hist) :
    Safe lifecycle p (fun reply h' _ => Reports p r reply h') Whatever (serveOps r) h {} := by
  cases r with
  | service r =>
    refine Safe.bind ((serve_safe r p h).mono (Q := fun _ _ _ => True) (fun _ _ _ _ => trivial)
      fun _ _ _ _ => trivial) ?_
    intro reply h' t' _
    trivial
  | verifyAuditChain =>
    refine Safe.bind (overCustomers_safe (R := ChainSeen) ?_
      fun c h₀ h hle => verifyCustomer_safe c h₀ hle) fun _ _ _ hseen => hseen
    rintro c xs h₀ h h' ⟨h₁, hle, hle', rfl⟩ hlater
    exact ⟨h₁, hle, hle'.trans hlater, rfl⟩
  | verifyTraceCompleteness =>
    refine Safe.bind (overCustomers_safe (R := TracesSeen) ?_
      fun c h₀ h hle => checkCustomerTraceCompleteness_safe c h₀ hle) fun _ _ _ hseen => hseen
    rintro c xs h₀ h h' ⟨h₁, h₂, hle, hle', hle'', rfl⟩ hlater
    exact ⟨h₁, h₂, hle, hle', hle''.trans hlater, rfl⟩
  | findStuckRunning cutoff =>
    refine Safe.bind (overCustomers_safe (R := StuckSeen p .RUNNING "action.running.v1" cutoff) ?_
      fun c h₀ h hle => findActionsStuckInStatus_safe _ _ cutoff c h₀ hle)
      fun _ _ _ hseen => hseen
    exact fun _ _ _ _ _ hseen hlater => hseen.mono hlater
  | findStuckCompensating cutoff =>
    refine Safe.bind (overCustomers_safe
      (R := StuckSeen p .COMPENSATING "action.compensating.v1" cutoff) ?_
      fun c h₀ h hle => findActionsStuckInStatus_safe _ _ cutoff c h₀ hle)
      fun _ _ _ hseen => hseen
    exact fun _ _ _ _ _ hseen hlater => hseen.mono hlater

/-- An action is stuck in a status since the one event that it has entered it by, which is from
before the cutoff. -/
def StuckSince (status : ActionStatus) (cutoff : Time) (h : Hist) (a : Action)
    (since : Option Time) : Prop :=
  a.status = status ∧
    ∃ e, (story a.id (committed h)).filter (·.eventType = status.eventType) = [e] ∧
      since = some e.occurredAt ∧ e.occurredAt < cutoff

/-- What a script should report as stuck in a status: it has queried the index, and since then
each customer of it once, and it reports the actions that were stuck when it queried theirs. -/
def StuckExactly (p : ℕ) (h : Hist) (status : ActionStatus) (cutoff : Time)
    (found : List (Action × Option Time)) : Prop :=
  ∃ h₀ order, ∃ seen : List (Uuid × Hist), Queried p h₀ h ∧
    Event.called p (.scanOrder (indexedCustomers (committed h₀))) order ∈ h ∧
    seen.map Prod.fst = order.1 ∧ (∀ part ∈ seen, h₀ <:+ part.2 ∧ Queried p part.2 h) ∧
    ∀ x, x ∈ found ↔ ∃ part ∈ seen, x.1 ∈ storedActions part.1 (committed part.2) ∧
      StuckSince status cutoff h x.1 x.2

omit [JsonText] [Deployment] in
/-- Between the second query and now the event of entering stays the only one. -/
theorem stays_since {h h₁ h₂ : Hist} (hv : lifecycle.Valid h) (hle : h₁ <:+ h₂) (hle' : h₂ <:+ h)
    {status : ActionStatus} (ht : EnteredOnce status) (hdraft : status ≠ .DRAFT) {c : Uuid}
    {a : Action} (ha : a ∈ storedActions c (committed h₁)) (hstatus : a.status = status) :
    ∃ e, (story a.id (committed h)).filter (·.eventType = status.eventType) = [e] ∧
      sinceOf ((storedEvents c (committed h₂)).filter (·.eventType = status.eventType)) a =
        some e.occurredAt := by
  obtain ⟨e, hsole, hsince⟩ := since_eq (hv.suffix hle') hle ht hdraft ha hstatus
  obtain ⟨e', hsole', -⟩ := since_eq hv (hle.trans hle') ht hdraft ha hstatus
  obtain ⟨evs, rfl⟩ := hle'
  obtain ⟨more, hmore⟩ := story_extends a.id evs h₂
  have hmem : e ∈ [e'] := by
    rw [← hsole', hmore, List.filter_append, hsole]
    simp
  obtain rfl := List.mem_singleton.1 hmem
  exact ⟨e, hsole', hsince⟩

omit [JsonText] [Deployment] in
/-- What is reported of one customer. -/
theorem StuckSeen.mem_iff {p : ℕ} {h h₀ : Hist} (hv : lifecycle.Valid h) {status : ActionStatus}
    (ht : EnteredOnce status) (hdraft : status ≠ .DRAFT) {cutoff : Time} {c : Uuid}
    {found : List (Action × Option Time)}
    (H : StuckSeen p status status.eventType cutoff c found h₀ h) :
    ∃ h₁, h₀ <:+ h₁ ∧ Queried p h₁ h ∧ ∀ x, x ∈ found ↔
      x.1 ∈ storedActions c (committed h₁) ∧ StuckSince status cutoff h x.1 x.2 := by
  obtain ⟨h₁, h₂, hle₁, hquery, hle, hle', rfl⟩ := H
  refine ⟨h₁, hle₁, hquery, fun x => ?_⟩
  rw [stuckActions, List.mem_filter, List.mem_map]
  constructor
  · rintro ⟨⟨a, ha, rfl⟩, hcut⟩
    obtain ⟨ha, hstatus⟩ := List.mem_filter.1 ha
    have hstatus := of_decide_eq_true hstatus
    obtain ⟨e, hsole, hsince⟩ := stays_since hv hle hle' ht hdraft ha hstatus
    rw [hsince] at hcut
    exact ⟨ha, hstatus, e, hsole, hsince, by simpa using hcut⟩
  · rintro ⟨ha, hstatus, e, hsole, hsince, hcut⟩
    obtain ⟨e', hsole', hsince'⟩ := stays_since hv hle hle' ht hdraft ha hstatus
    obtain rfl : e = e' := List.singleton_injective (hsole.symm.trans hsole')
    refine ⟨⟨x.1, List.mem_filter.2 ⟨ha, decide_eq_true hstatus⟩, ?_⟩, ?_⟩
    · rw [hsince', ← hsince]
    · rw [hsince]
      simpa using hcut

omit [JsonText] [Deployment] in
theorem stuckExactly_of_surveyed {p : ℕ} {h : Hist} (hv : lifecycle.Valid h)
    {status : ActionStatus} (ht : EnteredOnce status) (hdraft : status ≠ .DRAFT) {cutoff : Time}
    {found : List (Action × Option Time)}
    (H : Surveyed p (StuckSeen p status status.eventType cutoff) found h) :
    StuckExactly p h status cutoff found := by
  obtain ⟨h₀, order, parts, hquery, hcalled, hfst, rfl, hparts⟩ := H
  choose! moment hle hqueried hiff using fun part hpart =>
    StuckSeen.mem_iff hv ht hdraft (hparts part hpart)
  refine ⟨h₀, order, parts.map fun part => (part.1, moment part), hquery, hcalled, ?_, ?_, ?_⟩
  · rw [List.map_map]
    exact hfst
  · intro _ hseen
    obtain ⟨part, hpart, rfl⟩ := List.mem_map.1 hseen
    exact ⟨hle part hpart, hqueried part hpart⟩
  · intro x
    rw [List.mem_flatMap]
    constructor
    · rintro ⟨part, hpart, hx⟩
      exact ⟨_, List.mem_map_of_mem hpart, (hiff part hpart x).1 hx⟩
    · rintro ⟨_, hseen, hx⟩
      obtain ⟨part, hpart, rfl⟩ := List.mem_map.1 hseen
      exact ⟨part, hpart, (hiff part hpart x).2 hx⟩

/-- **The scripts report what is there**, however they are interleaved with the service: no
mismatched trace, no broken chain while the clock goes forward, and of the actions that are
running or compensating when they query a customer's exactly those whose event is old; never one
without an event. -/
theorem alarms_are_real {s : Sys Row Answer Err OpsReply OpsRequest} (hs : Reachable serveOps s)
    {p : ℕ} {r : Proc Row Answer Err OpsReply OpsRequest} (hp : s.procs[p]? = some (some r))
    {reply : OpsReply} (hend : r.prog = pure reply) :
    (r.req = .verifyTraceCompleteness → reply = .mismatched []) ∧
    (r.req = .verifyAuditChain → (∀ c, (readings c s.hist).Pairwise (· < ·)) →
      reply = .broken []) ∧
    (∀ cutoff, r.req = .findStuckRunning cutoff →
      ∃ found, reply = .stuck found ∧ StuckExactly p s.hist .RUNNING cutoff found) ∧
    ∀ cutoff, r.req = .findStuckCompensating cutoff →
      ∃ found, reply = .stuck found ∧ StuckExactly p s.hist .COMPENSATING cutoff found := by
  have hkept := hs.safe fun r p h _ _ => serveOps_safe r p h
  obtain ⟨h, ho, hsafe⟩ := hkept.safe p r hp
  rw [hend, Safe.pure_iff] at hsafe
  have hv := hkept.valid
  have hle := ho.suffix
  refine ⟨fun hreq => ?_, fun hreq hclock => ?_, fun cutoff hreq => ?_, fun cutoff hreq => ?_⟩
  · rw [hreq] at hsafe
    cases reply with
    | mismatched found =>
      rw [Surveyed.eq_nil hsafe]
      rintro c xs h₀ ⟨h₁, h₂, -, hle₁, hle₂, rfl⟩
      exact traceViolations_eq_nil (hv.suffix (hle₂.trans hle)) hle₁ c
    | service | broken | stuck => exact hsafe.elim
  · rw [hreq] at hsafe
    cases reply with
    | broken found =>
      rw [Surveyed.eq_nil hsafe]
      rintro c xs h₀ ⟨h₁, -, hle₁, rfl⟩
      obtain ⟨evs, hevs⟩ := hle₁.trans hle
      have hv₁ := hv.suffix ⟨evs, hevs⟩
      have hreadings := hclock c
      rw [← hevs, readings_append] at hreadings
      obtain ⟨chain, hchain, -⟩ :=
        exists_recordedChain lifecycle_audits hv₁ c (List.pairwise_append.1 hreadings).1
      exact chain.verifies (hchain ▸ storedEvents_perm lifecycle_audits hv₁ c)
    | service | mismatched | stuck => exact hsafe.elim
  · rw [hreq] at hsafe
    have htype : "action.running.v1" = ActionStatus.RUNNING.eventType := by decide +kernel
    cases reply with
    | stuck found =>
      refine ⟨found, rfl, stuckExactly_of_surveyed hv enteredOnce_running (by simp) ?_⟩
      rw [← htype]
      exact Surveyed.mono (fun _ _ _ hseen => hseen.mono hle) hsafe hle
    | service | mismatched | broken => exact hsafe.elim
  · rw [hreq] at hsafe
    have htype : "action.compensating.v1" = ActionStatus.COMPENSATING.eventType := by
      decide +kernel
    cases reply with
    | stuck found =>
      refine ⟨found, rfl, stuckExactly_of_surveyed hv enteredOnce_compensating (by simp) ?_⟩
      rw [← htype]
      exact Surveyed.mono (fun _ _ _ hseen => hseen.mono hle) hsafe hle
    | service | mismatched | broken => exact hsafe.elim

end Runs

/-! ## A sample run -/

section Sample

attribute [local instance] plainSha plainJsonText sampleDeployment

/-- The same act, of the service among its scripts. -/
def amongScripts : Act Answer Request → Act Answer OpsRequest
  | .start r => .start (.service r)
  | .run p answer => .run p answer
  | .fail p applied => .fail p applied
  | .crash p => .crash p

/-- A relay starts an action, and a script looks for what has been running since. -/
def searchedAction : Option (Sys Row Answer Err OpsReply OpsRequest) :=
  runAll serveOps {} (startedAction.map amongScripts ++
    .start (.service (.housekeeping [⟨⟨.userCustomerIndex 3 7, some ()⟩, Eq.refl true⟩])) ::
    Act.runs 4 sampleAnswer 191 3 ++
    .start (.findStuckRunning 1000) :: Act.runs 5 sampleAnswer 194 6)

/-- The process has found one action. -/
def foundOne (r : Proc Row Answer Err OpsReply OpsRequest) : Bool :=
  match r.req, r.prog with
  | .findStuckRunning cutoff, .pure (.stuck found) => cutoff = 1000 ∧ found.length = 1
  | _, _ => false

theorem foundOne_eq_true {r : Proc Row Answer Err OpsReply OpsRequest} (h : foundOne r = true) :
    r.req = .findStuckRunning 1000 ∧ ∃ found, found.length = 1 ∧ r.prog = pure (.stuck found) := by
  unfold foundOne at h
  split at h
  · rename_i cutoff found hreq hprog
    obtain ⟨rfl, hone⟩ := of_decide_eq_true h
    exact ⟨hreq, found, hone, hprog⟩
  · cases h

/-- What it reports has been running since before. -/
theorem alarms_are_real_sample : ∃ s found, searchedAction = some s ∧ found.length = 1 ∧
    StuckExactly 5 s.hist .RUNNING 1000 found := by
  have hrun : (searchedAction.any fun s => (s.procs[5]?.join).any foundOne) = true := by
    decide +kernel
  obtain ⟨s, hst, hs⟩ := (Option.any_eq_true _ _).1 hrun
  obtain ⟨r, hr, hfound⟩ := (Option.any_eq_true _ _).1 hs
  obtain ⟨hreq, found, hone, hprog⟩ := foundOne_eq_true hfound
  obtain ⟨found', heq, hexact⟩ := (alarms_are_real (Reachable.init.runAll hst)
    (Option.join_eq_some_iff.1 hr) hprog).2.2.1 1000 hreq
  obtain rfl : found = found' := by
    injection heq
  exact ⟨s, found, hst, hone, hexact⟩

end Sample

end Doda
