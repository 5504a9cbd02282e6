import Doda.Lifecycle.Standing
import Doda.AuditChain.Interleaving

/-!
# The story of an action

What the audit log tells of an action: the events whose metadata names it, in the order of
its customer's chain.  The first one proposes it; each later one is a transition, from the
status the one before it left to one that the state machine allows, and the last leaves the
status the action has.  Whoever replays the log finds the stored status.

## Main definitions

* `AuditEvent.follow`, `retrace` — the log, read as the run of the state machine.
* `story i s` — the events about an action.
* `ToldOf a events` — the events tell of the action up to the status it has.

## Main results

* `story_of_valid` — every deed tells of its action what it did to it.
* `log_replays` — in every run the log replays to the stored status.
-/

namespace Doda

open ReadCommitted HashChain

/-! ## Reading the log -/

/-- The status a transition event leads to, from `source`. -/
def AuditEvent.follow (source : ActionStatus) (e : AuditEvent) : Option ActionStatus :=
  (allowedTransitions source).find? fun target =>
    (e.safeMetadata.get? "from").bind Json.asStr? = some source.value ∧
      (e.safeMetadata.get? "to").bind Json.asStr? = some target.value ∧
      e.eventType = target.eventType

/-- What an event says that leads from `source` to `target`. -/
theorem AuditEvent.says_of_follow {source target : ActionStatus} {e : AuditEvent}
    (h : e.follow source = some target) :
    (e.safeMetadata.get? "from").bind Json.asStr? = some source.value ∧
      (e.safeMetadata.get? "to").bind Json.asStr? = some target.value ∧
      e.eventType = target.eventType := by
  unfold AuditEvent.follow at h
  have hsays := List.find?_some h
  exact of_decide_eq_true hsays

/-- The status that transition events lead to, from `source`. -/
def retrace (source : ActionStatus) (events : List AuditEvent) : Option ActionStatus :=
  events.foldlM AuditEvent.follow source

theorem retrace_append (source : ActionStatus) (es es' : List AuditEvent) :
    retrace source (es ++ es') = (retrace source es).bind fun s => retrace s es' :=
  List.foldlM_append

/-- Nothing leads on from a status without outgoing edges. -/
theorem retrace_eq_some_of_stuck {source target : ActionStatus} {es : List AuditEvent}
    (hstuck : allowedTransitions source = []) (h : retrace source es = some target) : es = [] := by
  cases es with
  | nil => rfl
  | cons e es =>
    have hnone : e.follow source = none := by
      rw [AuditEvent.follow, hstuck]
      rfl
    have hbind : retrace source (e :: es) = (e.follow source).bind fun s => retrace s es := rfl
    rw [hbind, hnone] at h
    cases h

/-- The event is about the action: its metadata names it. -/
def AuditEvent.About (e : AuditEvent) (i : Uuid) : Prop := e.actionId = some i.str

instance (e : AuditEvent) (i : Uuid) : Decidable (e.About i) :=
  inferInstanceAs (Decidable (_ = _))

/-- The event about the action, of a row. -/
def eventAbout (i : Uuid) : (k : Key) → Row k → Option AuditEvent
  | .auditEvent _, e => if e.About i then some e else none
  | _, _ => none

/-- The events about an action, in the order they were written. -/
def story (i : Uuid) (s : Db) : List AuditEvent := logged (eventAbout i) s

@[simp] theorem story_nil (i : Uuid) : story i [] = [] := rfl

@[simp] theorem story_append (i : Uuid) (w s : Db) : story i (w ++ s) = story i s ++ story i w :=
  logged_append _ _ _

/-- Other rows tell nothing. -/
theorem story_cons_of_not {k : Key} (hk : k.isAuditEvent = false) (i : Uuid)
    (v : Option (Row k)) (s : Db) : story i (⟨k, v⟩ :: s) = story i s := by
  have hnone : v.bind (eventAbout i k) = none := by
    cases v with
    | none => rfl
    | some v => cases k <;> simp_all [Key.isAuditEvent, eventAbout]
  rw [story, logged_cons, hnone, Option.toList_none, List.append_nil]
  rfl

theorem story_cons_event (i k : Uuid) (e : AuditEvent) (s : Db) :
    story i (⟨.auditEvent k, some e⟩ :: s) = story i s ++ if e.About i then [e] else [] := by
  rw [story, logged_cons]
  by_cases he : e.About i
  · simp [eventAbout, he, story]
  · simp [eventAbout, he, story]

/-- The story is in the core. -/
theorem story_core (i : Uuid) (s : Db) : story i (core s) = story i s := by
  induction s with
  | nil => rfl
  | cons v s ih =>
    obtain ⟨k, v⟩ := v
    by_cases hv : tracked ⟨k, v⟩ = true
    · rw [core, List.filter_cons_of_pos hv, story, logged_cons, story, logged_cons]
      exact congrArg (· ++ _) ih
    · have hnone : story i [⟨k, v⟩] = [] := by
        cases k with
        | auditEvent j =>
          cases v with
          | none => rfl
          | some e =>
            rw [story_cons_event, if_neg]
            · rfl
            · intro he
              have hsome : e.actionId.isSome = true := by
                rw [show e.actionId = some i.str from he]
                rfl
              exact hv hsome
        | _ => exact story_cons_of_not rfl i v []
      rw [core, List.filter_cons_of_neg hv, ← core, ih, ← List.singleton_append (l := s),
        story_append, hnone, List.append_nil]

/-- A customer's chain tells the part of the story that is the customer's. -/
theorem filter_chainEvents (c i : Uuid) (s : Db) :
    (chainEvents c s).filter (·.About i) = (story i s).filter (·.customerId = c) := by
  have hcomm : ∀ k (v : Row k), ((eventOf c k v).toList.filter fun e => e.About i) =
      (eventAbout i k v).toList.filter fun e => e.customerId = c := by
    intro k v
    cases k with
    | auditEvent j =>
      by_cases hc : (v : AuditEvent).customerId = c
      · by_cases hi : (v : AuditEvent).About i
        · simp [eventOf, eventAbout, hc, hi]
        · simp [eventOf, eventAbout, hc, hi]
      · by_cases hi : (v : AuditEvent).About i
        · simp [eventOf, eventAbout, hc, hi]
        · simp [eventOf, eventAbout, hc, hi]
    | _ => rfl
  induction s with
  | nil => rfl
  | cons v s ih =>
    obtain ⟨k, v⟩ := v
    have hchain : chainEvents c (⟨k, v⟩ :: s) =
        chainEvents c s ++ (v.bind (eventOf c k)).toList := logged_cons _ _ _
    have hstory : story i (⟨k, v⟩ :: s) = story i s ++ (v.bind (eventAbout i k)).toList :=
      logged_cons _ _ _
    rw [hchain, hstory, List.filter_append, List.filter_append, ih]
    cases v with
    | none => rfl
    | some v => rw [Option.bind_some, Option.bind_some, hcomm]

/-! ## What an event tells -/

/-- The event tells of a transition of the action. -/
structure AuditEvent.TellsOf (e : AuditEvent) (a : Action) : Prop where
  about : e.About a.id
  customerId : e.customerId = a.customerId
  workspaceId : e.workspaceId = some a.workspaceId
  traceId : e.traceId = a.traceId

section Tells

variable {e : AuditEvent} {a : Action} {target : ActionStatus} {actor : String}
  {receipt : Option Json}

theorem AuditEvent.Proposes.tellsOf (H : e.Proposes a actor) : e.TellsOf a where
  about := by
    rw [About, actionId, H.safeMetadata]
    rfl
  customerId := H.customerId
  workspaceId := H.workspaceId
  traceId := H.traceId

theorem AuditEvent.Moves.tellsOf (H : e.Moves a target actor receipt) : e.TellsOf a where
  about := by
    rw [About, actionId, H.safeMetadata]
    rfl
  customerId := H.customerId
  workspaceId := H.workspaceId
  traceId := H.traceId

theorem AuditEvent.TellsOf.setStatus (H : e.TellsOf a) (s : ActionStatus) :
    e.TellsOf (a.setStatus s) := ⟨H.about, H.customerId, H.workspaceId, H.traceId⟩

/-- A transition leads where it says. -/
theorem AuditEvent.Moves.follow (H : e.Moves a target actor receipt)
    (hallowed : target ∈ allowedTransitions a.status) : e.follow a.status = some target := by
  have hfrom : (e.safeMetadata.get? "from").bind Json.asStr? = some a.status.value := by
    rw [H.safeMetadata]
    rfl
  have hto : (e.safeMetadata.get? "to").bind Json.asStr? = some target.value := by
    rw [H.safeMetadata]
    rfl
  cases hfind : e.follow a.status with
  | none =>
    have hnot := List.find?_eq_none.1 hfind target hallowed
    exact absurd (decide_eq_true ⟨hfrom, hto, H.eventType⟩) hnot
  | some found =>
    have hsame := (says_of_follow hfind).2.1.symm.trans hto
    rw [ActionStatus.value_injective (Option.some.inj hsame)]

end Tells

/-! ## What deeds tell -/

/-- The log tells of the action: it was proposed once, and replays to the status it has. -/
structure ToldOf (a : Action) (events : List AuditEvent) : Prop where
  replays : ∃ e moves, events = e :: moves ∧ e.Proposes a a.actorId ∧
    retrace .DRAFT moves = some a.status
  tells : ∀ e ∈ events, e.TellsOf a

/-- One more transition. -/
theorem ToldOf.moved {a : Action} {es : List AuditEvent} {e : AuditEvent} {target : ActionStatus}
    {actor : String} {receipt : Option Json} (H : ToldOf a es)
    (he : e.Moves a target actor receipt) (hallowed : target ∈ allowedTransitions a.status) :
    ToldOf (a.setStatus target) (es ++ [e]) := by
  obtain ⟨e₀, moves, rfl, hproposes, hreplay⟩ := H.replays
  constructor
  · refine ⟨e₀, moves ++ [e], rfl, ⟨hproposes.1, hproposes.2, hproposes.3, hproposes.4,
      hproposes.5, hproposes.6⟩, ?_⟩
    have hlast : retrace a.status [e] = (e.follow a.status).bind fun s => some s := rfl
    rw [retrace_append, hreplay, Option.bind_some, hlast, he.follow hallowed]
    rfl
  · intro e' he'
    rcases List.mem_append.1 he' with hold | hnew
    · exact (H.tells e' hold).setStatus target
    · obtain rfl := List.mem_singleton.1 hnew
      exact he.tellsOf.setStatus target

/-- The events that a deed records about an action, oldest first. -/
def Deed.tells : Deed → Uuid → List AuditEvent
  | proposed a _ e e₁ e₂ _, i => if a.id = i then [e, e₁, e₂] else []
  | consumed id _ _ _ _ e _, i => if id = i then [e] else []
  | moved id _ _ _ _ e, i => if id = i then [e] else []
  | published _ _ _, _ => []

theorem AuditEvent.TellsOf.about_iff {e : AuditEvent} {a : Action} (H : e.TellsOf a) (i : Uuid) :
    e.About i ↔ a.id = i := by
  constructor
  · intro h
    exact Uuid.str_injective (Option.some.inj (H.about.symm.trans h))
  · rintro rfl
    exact H.about

/-- The log tells of every action there is, and of no other. -/
structure Tells (s : Db) : Prop where
  found : ∀ i a, row s (.action i) = some a → ToldOf a (story i s)
  silent : ∀ i, row s (.action i) = none → story i s = []

section Deeds

variable {p : ℕ} {h : Hist} {s : Db} {d : Deed}

theorem story_transitionVersions (a : Action) (target : ActionStatus) (e : AuditEvent) (i : Uuid) :
    story i (transitionVersions a target e) = if e.About i then [e] else [] := by
  rw [transitionVersions, story_cons_event, story_cons_of_not rfl]
  rfl

theorem story_proposalVersions (a : Action) (e : AuditEvent) (i : Uuid) :
    story i (proposalVersions a e) = if e.About i then [e] else [] := by
  rw [proposalVersions, story_cons_event, story_cons_of_not rfl, story_cons_of_not rfl]
  rfl

theorem Routed.story_eq_nil {a : Action} {target : ActionStatus} {beside : Db}
    (H : Routed a target beside) (i : Uuid) : story i beside = [] := by
  cases H with
  | ready m hr hm => exact story_cons_of_not rfl i _ []
  | approval ap hr ha => exact story_cons_of_not rfl i _ []

variable [Sha256]

theorem Deed.Fits.story_eq (H : d.Fits p h s) (hk : Keyed s) (i : Uuid) :
    story i d.versions = d.tells i := by
  cases d with
  | proposed a target e e₁ e₂ beside =>
    have hproposes := H.proposes.tellsOf.about_iff i
    have hvalidates := H.validates.tellsOf.about_iff i
    have hroutes := H.routes.tellsOf.about_iff i
    rw [Action.setStatus_id] at hroutes
    rw [versions, submissionVersions, story_append, story_append, story_append,
      story_proposalVersions, story_transitionVersions, story_transitionVersions,
      H.route.story_eq_nil, List.append_nil, tells]
    simp only [hproposes, hvalidates, hroutes]
    by_cases hi : a.id = i
    · simp [hi]
    · simp [hi]
  | consumed id approvalId source before actor e m =>
    obtain rfl : source.id = id := hk _ _ H.found source rfl
    rw [versions, story_cons_of_not rfl, story_cons_event, story_cons_of_not rfl,
      story_cons_of_not rfl, tells]
    simp only [H.event.tellsOf.about_iff i, story_nil, List.nil_append]
  | moved id source target actor receipt e =>
    obtain rfl : source.id = id := hk _ _ H.found source rfl
    rw [versions, story_cons_event, story_cons_of_not rfl, tells]
    simp only [H.event.tellsOf.about_iff i, story_nil, List.nil_append]
  | published id m now => exact story_cons_of_not rfl i _ []

/-- **A deed tells of the action what it did to it.** -/
theorem Tells.deed (H : Tells s) (hk : Keyed s) (hfits : d.Fits p h s) :
    Tells (d.versions ++ s) := by
  have hstep : ∀ i, (d.leaves i = none ∧ d.tells i = []) ∨
      ∃ b, d.leaves i = some b ∧ ToldOf b (story i s ++ d.tells i) := by
    intro i
    cases d with
    | proposed a target e e₁ e₂ beside =>
      have hd : Deed.FitsProposed p h s a target e e₁ e₂ beside := hfits
      by_cases hi : a.id = i
      · subst hi
        refine .inr ⟨a.setStatus target, if_pos rfl, ?_⟩
        rw [H.silent _ hd.freshAction, Deed.tells, if_pos rfl]
        have hnew : ToldOf a [e] := by
          refine ⟨⟨e, [], rfl, hd.proposes, ?_⟩, ?_⟩
          · rw [hd.draft]
            rfl
          · intro e' he'
            obtain rfl := List.mem_singleton.1 he'
            exact hd.proposes.tellsOf
        have hvalidating : ActionStatus.VALIDATING ∈ allowedTransitions a.status := by
          rw [hd.draft]
          simp [allowedTransitions]
        have hrouted : target ∈ allowedTransitions (a.setStatus .VALIDATING).status := by
          have hroute := hd.route
          cases hroute <;> simp [allowedTransitions]
        exact (hnew.moved hd.validates hvalidating).moved hd.routes hrouted
      · exact .inl ⟨if_neg hi, if_neg hi⟩
    | consumed id approvalId source before actor e m =>
      have hd : Deed.FitsConsumed p h s id approvalId source before actor e m := hfits
      by_cases hi : id = i
      · subst hi
        refine .inr ⟨source.setStatus .READY, if_pos rfl, ?_⟩
        rw [Deed.tells, if_pos rfl]
        exact (H.found _ _ hd.found).moved hd.event hd.allowed
      · exact .inl ⟨if_neg hi, if_neg hi⟩
    | moved id source target actor receipt e =>
      have hd : Deed.FitsMoved p h s id source target actor receipt e := hfits
      by_cases hi : id = i
      · subst hi
        refine .inr ⟨source.setStatus target, if_pos rfl, ?_⟩
        rw [Deed.tells, if_pos rfl]
        exact (H.found _ _ hd.found).moved hd.event hd.allowed
      · exact .inl ⟨if_neg hi, if_neg hi⟩
    | published id m now => exact .inl ⟨rfl, rfl⟩
  constructor
  · intro i a ha
    rw [hfits.row_action] at ha
    rw [story_append, hfits.story_eq hk]
    rcases hstep i with ⟨hleaves, htells⟩ | ⟨b, hleaves, htold⟩
    · rw [hleaves, Option.none_or] at ha
      rw [htells, List.append_nil]
      exact H.found i a ha
    · rw [hleaves, Option.some_or] at ha
      obtain rfl := Option.some.inj ha
      exact htold
  · intro i hi
    rw [hfits.row_action] at hi
    rw [story_append, hfits.story_eq hk]
    rcases hstep i with ⟨hleaves, htells⟩ | ⟨b, hleaves, htold⟩
    · rw [hleaves, Option.none_or] at hi
      rw [htells, List.append_nil]
      exact H.silent i hi
    · rw [hleaves, Option.some_or] at hi
      cases hi

/-- **The log tells of every action**, in every history of the service. -/
theorem story_of_valid (hv : lifecycle.Valid h) : Tells (committed h) := by
  refine holds_of_valid (I := fun _ s => Tells s) ?_ ?_ (fun _ _ _ H => H) ?_ hv
  · refine ⟨fun i a ha => ?_, fun i _ => rfl⟩
    simp at ha
  · intro h s s' hk hcore H
    have hstory : ∀ i, story i s' = story i s := fun i => by
      rw [← story_core, ← hcore, story_core]
    refine ⟨fun i a ha => ?_, fun i hi => ?_⟩
    · rw [row_of_core hcore rfl] at ha
      rw [hstory]
      exact H.found i a ha
    · rw [row_of_core hcore rfl] at hi
      rw [hstory]
      exact H.silent i hi
  · intro p h ds d hv hfit hfits H
    exact H.deed (hfit.keyed (keyed_of_valid hv)) hfits

end Deeds

/-! ## Every run -/

/-- A transition event is not a proposal. -/
theorem AuditEvent.follow_not_proposed {e : AuditEvent} {source target : ActionStatus}
    (h : e.follow source = some target) : e.eventType ≠ "action.proposed.v1" := by
  rw [(says_of_follow h).2.2]
  cases target <;> decide +kernel

theorem not_proposed_of_retrace {source target : ActionStatus} {es : List AuditEvent}
    (h : retrace source es = some target) : ∀ e ∈ es, e.eventType ≠ "action.proposed.v1" := by
  induction es generalizing source with
  | nil => simp
  | cons e es ih =>
    have hbind : (e.follow source).bind (fun s => retrace s es) = some target := h
    obtain ⟨next, hnext, hrest⟩ := Option.bind_eq_some_iff.1 hbind
    intro e' he'
    rcases List.mem_cons.1 he' with rfl | hmem
    · exact AuditEvent.follow_not_proposed hnext
    · exact ih hrest e' hmem

theorem story_extends (i : Uuid) (evs h : Hist) :
    ∃ more, story i (committed (evs ++ h)) = story i (committed h) ++ more := by
  induction evs with
  | nil => exact ⟨[], by simp⟩
  | cons ev evs ih =>
    obtain ⟨more, hmore⟩ := ih
    refine ⟨more ++ story i ev.writes, ?_⟩
    rw [List.cons_append, committed_cons, story_append, hmore, List.append_assoc]

section Runs

variable [Sha256] [JsonText] [Deployment] {s : Sys Row Answer Err Reply Request}

/-- **The log replays to the state.**  The events about an action stand in its customer's chain
and in no other: one that proposes it, then transitions that lead from `DRAFT` to the status it
has, all under its trace; and where no transition leads on, none is ever recorded. -/
theorem log_replays (hs : Reachable serve s) {i : Uuid} {a : Action}
    (ha : row (committed s.hist) (.action i) = some a) :
    (chainFields.Linked none (chainEvents a.customerId (committed s.hist))
        (tipHash a.customerId (committed s.hist)) ∧
      (storedEvents a.customerId (committed s.hist)).Perm
        (chainEvents a.customerId (committed s.hist))) ∧
    (∃ e moves, (chainEvents a.customerId (committed s.hist)).filter (·.About i) = e :: moves ∧
      e.eventType = "action.proposed.v1" ∧ (∀ m ∈ moves, m.eventType ≠ "action.proposed.v1") ∧
      retrace .DRAFT moves = some a.status ∧ ∀ m ∈ e :: moves, m.traceId = a.traceId) ∧
    (∀ c, c ≠ a.customerId → (chainEvents c (committed s.hist)).filter (·.About i) = []) ∧
    ∀ h b, h <:+ s.hist → row (committed h) (.action i) = some b →
      allowedTransitions b.status = [] →
      (chainEvents a.customerId (committed s.hist)).filter (·.About i) =
        (chainEvents a.customerId (committed h)).filter (·.About i) := by
  have hv := valid_of_reachable hs
  have htold := (story_of_valid hv).found i a ha
  have hstory : ∀ c, (chainEvents c (committed s.hist)).filter (·.About i) =
      (story i (committed s.hist)).filter (·.customerId = c) := fun c => filter_chainEvents c i _
  refine ⟨⟨chain_linked lifecycle_audits hv _, storedEvents_perm lifecycle_audits hv _⟩, ?_, ?_, ?_⟩
  · obtain ⟨e, moves, heq, hproposes, hreplay⟩ := htold.replays
    refine ⟨e, moves, ?_, hproposes.eventType, not_proposed_of_retrace hreplay, hreplay, ?_⟩
    · rw [hstory, ← heq, List.filter_eq_self]
      intro m hm
      exact decide_eq_true (htold.tells m hm).customerId
    · intro m hm
      exact (htold.tells m (heq ▸ hm)).traceId
  · intro c hc
    rw [hstory, List.filter_eq_nil_iff]
    intro m hm
    have hcustomer := (htold.tells m hm).customerId
    simpa [hcustomer] using hc.symm
  · rintro h b ⟨evs, hevs⟩ hb hstuck
    obtain ⟨more, hmore⟩ := story_extends i evs h
    rw [hevs] at hmore
    have hbefore := (story_of_valid (hv.suffix ⟨evs, hevs⟩)).found i b hb
    obtain ⟨e₀, moves₀, heq₀, -, hreplay₀⟩ := hbefore.replays
    obtain ⟨e, moves, heq, -, hreplay⟩ := htold.replays
    rw [heq₀, heq, List.cons_append, List.cons.injEq] at hmore
    rw [hmore.2, retrace_append, hreplay₀, Option.bind_some] at hreplay
    have hnil := retrace_eq_some_of_stuck hstuck hreplay
    rw [filter_chainEvents, filter_chainEvents, heq, heq₀, hmore.1, hmore.2, hnil, List.append_nil]

end Runs

/-! ## A sample run -/

section Sample

attribute [local instance] plainSha plainJsonText sampleDeployment

/-- The story of a message that a relay has begun to send. -/
theorem log_replays_sample : ∃ s, runAll serve {} startedAction = some s ∧
    ∃ e moves, (chainEvents 7 (committed s.hist)).filter (·.About 112) = e :: moves ∧
      retrace .DRAFT moves = some .RUNNING := by
  have hrun : ((runAll serve {} startedAction).any fun s =>
      (row (committed s.hist) (.action 112)).any fun a : Action =>
        a.customerId = 7 ∧ a.status = .RUNNING) = true := by
    decide +kernel
  obtain ⟨s, hst, hs⟩ := (Option.any_eq_true _ _).1 hrun
  obtain ⟨a, ha, hfound⟩ := (Option.any_eq_true _ _).1 hs
  obtain ⟨hcustomer, hstatus⟩ := of_decide_eq_true hfound
  obtain ⟨-, ⟨e, moves, heq, -, -, hreplay, -⟩, -⟩ := log_replays (Reachable.init.runAll hst) ha
  rw [hcustomer] at heq
  rw [hstatus] at hreplay
  exact ⟨s, hst, e, moves, heq, hreplay⟩

end Sample

end Doda
