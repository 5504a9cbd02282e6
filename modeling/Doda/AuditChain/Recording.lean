import Doda.AuditChain.Chain

/-!
# What a transaction may add to the audit log

`Audited h w` says of a transaction's writes `w` that, committed on top of the
history `h`, they extend every customer's chain from its tip and move the tip
with it.  It is kept by everything a transaction does: by the other processes,
because a chain whose tip is locked does not grow; by writes to other tables; and
by `recordAuditEvent` as a whole.

A contract under which every commit is `Audited` therefore keeps all chains
linked in every history, each customer's by its own commits alone.

## Main definitions

* `chainEvents c db`, `tipHash c db` — a customer's chain and its tip.
* `readings c h` — the clock readings its events were dated with.
* `Audited h w`, `AuditContract C` — the invariant and the contracts that ask it.
* `Audited.onward`, `Audited.append`, `Audited.record` — what keeps it.
* `recordAuditEvent_safe` — the specification of `recordAuditEvent`.
-/

namespace Doda

open ReadCommitted HashChain

/-! ## A customer's chain -/

/-- The audit table's keys. -/
def Key.isAuditEvent : Key → Bool
  | .auditEvent _ => true
  | _ => false

/-- The keys recording an audit event writes. -/
def Key.auditing : Key → Bool
  | .auditEvent _ | .auditChainTip _ => true
  | _ => false

/-- A customer's event, of a row. -/
def eventOf (c : Uuid) : (k : Key) → Row k → Option AuditEvent
  | .auditEvent _, e => if e.customerId = c then some e else none
  | _, _ => none

/-- A customer's events, in the order they were written. -/
def chainEvents (c : Uuid) (db : Db) : List AuditEvent := logged (eventOf c) db

/-- The hash in a customer's tip row. -/
def tipHash (c : Uuid) (db : Db) : Option String :=
  (row db (.auditChainTip c)).bind AuditChainTip.tipHash

/-- The ids of the audit rows ever written. -/
def auditKeys (db : Db) : List Key := (keys db).filter Key.isAuditEvent

/-- The clock readings taken to date a customer's events, oldest first. -/
def readings (c : Uuid) : Hist → List Time
  | [] => []
  | .called _ (.utcnow (.auditCreated c')) x :: h =>
    readings c h ++ if c' = c then [x] else []
  | _ :: h => readings c h

section Lemmas

variable {c : Uuid} {w s : Db} {h h' : Hist}

@[simp] theorem chainEvents_nil : chainEvents c [] = [] := rfl

@[simp] theorem chainEvents_append : chainEvents c (w ++ s) = chainEvents c s ++ chainEvents c w :=
  logged_append _ _ _

@[simp] theorem auditKeys_append : auditKeys (w ++ s) = auditKeys w ++ auditKeys s := by
  simp [auditKeys]

theorem mem_auditKeys {k : Key} : k ∈ auditKeys w ↔ k ∈ keys w ∧ k.isAuditEvent = true := by
  simp [auditKeys]

/-- Writes to other tables add nothing to a chain. -/
theorem chainEvents_eq_nil (hw : ∀ k ∈ keys w, k.isAuditEvent = false) : chainEvents c w = [] := by
  refine List.eq_nil_iff_forall_not_mem.2 fun e he => ?_
  obtain ⟨k, v, hm, hv⟩ := mem_logged.1 he
  have := hw k (List.mem_map_of_mem (f := Sigma.fst) hm)
  cases k <;> simp [Key.isAuditEvent, eventOf] at this hv

theorem tipHash_append (hw : Key.auditChainTip c ∉ keys w) :
    tipHash c (w ++ s) = tipHash c s := by
  rw [tipHash, tipHash, row_append_of_notMem _ hw]

theorem tipHash_congr {s' : Db} (hs : row s (.auditChainTip c) = row s' (.auditChainTip c)) :
    tipHash c (w ++ s) = tipHash c (w ++ s') := by
  rw [tipHash, tipHash, row_append_congr w hs]

theorem readings_append (evs : Hist) : readings c (evs ++ h) = readings c h ++ readings c evs := by
  fun_induction readings c evs <;> simp_all [readings]

end Lemmas

/-! ## The invariant -/

variable [Sha256]

/-- Committed after `h`, the writes `w` extend every chain from its tip. -/
structure Audited (h : Hist) (w : Db) : Prop where
  /-- The new events lead from the old tip to the new one. -/
  linked : ∀ c, chainFields.Linked (tipHash c (committed h)) (chainEvents c w)
    (tipHash c (w ++ committed h))
  /-- A chain grows with its tip. -/
  moves : ∀ c, chainEvents c w ≠ [] → Key.auditChainTip c ∈ keys w
  /-- Tips are not deleted. -/
  kept : ∀ c, (⟨.auditChainTip c, none⟩ : Version Row) ∉ w
  /-- Events are inserted, under their own ids. -/
  rows : ∀ i v, (⟨.auditEvent i, v⟩ : Version Row) ∈ w →
    ∃ e : AuditEvent, v = some e ∧ e.id = i ∧ row (committed h) (.auditEvent i) = none
  ids : (auditKeys w).Nodup
  /-- The new events are dated after everything the chain held. -/
  dated : ∀ c, chainEvents c w ≠ [] → ∃ new h₀, h = new ++ h₀ ∧
    chainEvents c (committed h) = chainEvents c (committed h₀) ∧
    List.Sublist ((chainEvents c w).map AuditEvent.createdAt) (readings c new)

theorem Audited.nil (h : Hist) : Audited h [] where
  linked _ := rfl
  moves c hc := absurd rfl hc
  kept _ := by simp
  rows _ _ hm := by simp at hm
  ids := by simp [auditKeys]
  dated c hc := absurd rfl hc

/-- An event written is there. -/
theorem Audited.isSome_event {h : Hist} {w : Db} (ha : Audited h w) {i : Uuid}
    (hk : Key.auditEvent i ∈ keys w) (s : Db) : (row (w ++ s) (.auditEvent i)).isSome := by
  rw [row_append_of_mem _ hk]
  refine isSome_row_of_mem hk fun hm => ?_
  obtain ⟨e, he, -⟩ := ha.rows i _ hm
  simp at he

/-- A contract under which every commit is audited. -/
def AuditContract (C : Contract Row Answer) : Prop :=
  ∀ h p w, C.commitOk h p w → Audited h w

variable {C : Contract Row Answer} {p : ℕ} {h h' : Hist} {t t' : DbTx} {w : Db}

/-- A chain whose tip nobody writes does not grow. -/
theorem chainEvents_of_extends (hC : AuditContract C) {P : Event Row Answer → Prop} {c : Uuid}
    (hx : Extends P h h') (hP : ∀ ev, P ev → Key.auditChainTip c ∉ keys ev.writes)
    (hv : C.Valid h') : chainEvents c (committed h') = chainEvents c (committed h) := by
  obtain ⟨evs, rfl, H⟩ := hx
  induction evs with
  | nil => rfl
  | cons ev evs ih =>
    have hnil : chainEvents c ev.writes = [] := by
      have hev := hP ev (H ev (by simp))
      cases ev with
      | committed q w =>
        by_contra hne
        exact hev ((hC _ _ _ hv.1).moves c hne)
      | ran | called | rolledBack | failed | crashed => rfl
    rw [List.cons_append, committed_cons, chainEvents_append, hnil, List.append_nil]
    exact ih (fun e he => H e (by simp [he])) hv.2

/-- Others, and the process itself before it writes, keep the invariant. -/
theorem Audited.onward (hC : AuditContract C) (ha : Audited h t.writes) (hs : t.Sound)
    {M : Call → Prop} (ho : ReadCommitted.Onward M p h t h' t') (hv : C.Valid h') :
    Audited h' t.writes := by
  have hgrow : ∀ c, Key.auditChainTip c ∈ t.locks →
      chainEvents c (committed h') = chainEvents c (committed h) := fun c hc =>
    chainEvents_of_extends hC ho.later (fun _ hev => hev.1 _ hc) hv
  refine ⟨fun c => ?_, ha.moves, ha.kept, fun i v hm => ?_, ha.ids, fun c hne => ?_⟩
  · by_cases hc : Key.auditChainTip c ∈ t.locks
    · have hrow := ho.row_eq hc
      rw [tipHash_congr hrow, tipHash, hrow]
      exact ha.linked c
    · have hk : Key.auditChainTip c ∉ keys t.writes := fun hk => hc (hs _ hk)
      have hnil : chainEvents c t.writes = [] := by
        by_contra hne
        exact hk (ha.moves c hne)
      rw [hnil, tipHash_append hk]
      rfl
  · obtain ⟨e, rfl, hi, hrow⟩ := ha.rows i v hm
    refine ⟨e, rfl, hi, ?_⟩
    rw [ho.row_eq (hs _ (List.mem_map_of_mem (f := Sigma.fst) hm)), hrow]
  · obtain ⟨new, h₀, rfl, heq, hsub⟩ := ha.dated c hne
    have htip := hgrow c (hs _ (ha.moves c hne))
    obtain ⟨evs, rfl, -⟩ := ho.later
    refine ⟨evs ++ new, h₀, by simp, htip.trans heq, ?_⟩
    rw [readings_append]
    exact hsub.trans (List.sublist_append_left _ _)

/-- Writes to other tables keep it. -/
theorem Audited.append (ha : Audited h w) {vs : Db} (hvs : ∀ k ∈ keys vs, k.auditing = false) :
    Audited h (vs ++ w) := by
  have htip : ∀ c, Key.auditChainTip c ∉ keys vs := fun c hk => by
    simpa [Key.auditing] using hvs _ hk
  have hev : ∀ k ∈ keys vs, k.isAuditEvent = false := fun k hk => by
    have := hvs k hk
    cases k <;> simp [Key.auditing, Key.isAuditEvent] at this ⊢
  have hnil : ∀ c, chainEvents c (vs ++ w) = chainEvents c w := fun c => by
    rw [chainEvents_append, chainEvents_eq_nil hev, List.append_nil]
  refine ⟨fun c => ?_, fun c hne => ?_, fun c hm => ?_, fun i v hm => ?_, ?_, fun c hne => ?_⟩
  · rw [hnil, List.append_assoc, tipHash_append (htip c)]
    exact ha.linked c
  · rw [hnil] at hne
    rw [keys_append]
    exact List.mem_append_right _ (ha.moves c hne)
  · rcases List.mem_append.1 hm with hm | hm
    · exact htip c (List.mem_map_of_mem (f := Sigma.fst) hm)
    · exact ha.kept c hm
  · rcases List.mem_append.1 hm with hm | hm
    · have := hev _ (List.mem_map_of_mem (f := Sigma.fst) hm)
      simp [Key.isAuditEvent] at this
    · exact ha.rows i v hm
  · rw [auditKeys_append, auditKeys, List.filter_eq_nil_iff.2 (by simpa using hev)]
    exact ha.ids
  · rw [hnil] at hne ⊢
    exact ha.dated c hne

/-- A chain's first tip row, pointing nowhere, keeps it. -/
theorem Audited.openTip {c : Uuid} (ha : Audited h w)
    (hrow : row (w ++ committed h) (.auditChainTip c) = none) :
    Audited h (⟨.auditChainTip c, some ⟨none⟩⟩ :: w) := by
  let w' : Db := [⟨.auditChainTip c, some ⟨none⟩⟩]
  change Audited h (w' ++ w)
  have hnil : ∀ c', chainEvents c' (w' ++ w) = chainEvents c' w := fun c' => by
    rw [chainEvents_append, chainEvents_eq_nil (w := w') (by simp [w', Key.isAuditEvent]),
      List.append_nil]
  refine ⟨fun c' => ?_, fun c' hne => ?_, fun c' hm => ?_, fun i v hm => ?_, ?_, fun c' hne => ?_⟩
  · have htip : tipHash c' (w' ++ w ++ committed h) = tipHash c' (w ++ committed h) := by
      by_cases hc : c' = c
      · subst hc
        simp [tipHash, w', hrow]
      · rw [List.append_assoc, tipHash_append (by simp [w', hc])]
    rw [hnil, htip]
    exact ha.linked c'
  · rw [hnil] at hne
    rw [keys_append]
    exact List.mem_append_right _ (ha.moves c' hne)
  · exact ha.kept c' (by simpa [w'] using hm)
  · exact ha.rows i v (by simpa [w'] using hm)
  · rw [auditKeys_append]
    exact ha.ids
  · rw [hnil] at hne ⊢
    exact ha.dated c' hne

/-- **One more event**, linked to the tip the transaction holds locked, and the
tip moved to it. -/
theorem Audited.record (hC : AuditContract C) {h₁ : Hist} {c : Uuid} {e : AuditEvent}
    (ha : Audited h₁ t.writes) (hs : t.Sound) (hlock : Key.auditChainTip c ∈ t.locks)
    {M : Call → Prop} (ho : ReadCommitted.Onward M p h₁ t h t') (hv : C.Valid h)
    (hread : ∃ new, h = new ++ h₁ ∧ e.createdAt ∈ readings c new)
    (hcust : e.customerId = c) (hprev : e.prevHash = tipHash c (t.view (committed h)))
    (hhash : e.hash = e.recomputeHash) (hid : Key.auditEvent e.id ∉ keys t.writes)
    (hrow : row (committed h) (.auditEvent e.id) = none) :
    Audited h
      (⟨.auditChainTip c, some ⟨some e.hash⟩⟩ :: ⟨.auditEvent e.id, some e⟩ :: t.writes) := by
  have hnow : Audited h t.writes :=
    ha.onward hC hs ⟨ho.later, fun _ hk => hk, List.suffix_refl _⟩ hv
  let w' : Db := [⟨.auditChainTip c, some ⟨some e.hash⟩⟩, ⟨.auditEvent e.id, some e⟩]
  change Audited h (w' ++ t.writes)
  have hself : chainEvents c w' = [e] := by simp [chainEvents, w', eventOf, hcust]
  have hother : ∀ c', c' ≠ c → chainEvents c' w' = [] := fun c' hne => by
    simp [chainEvents, w', eventOf, hcust, Ne.symm hne]
  have htip : ∀ c', c' ≠ c → Key.auditChainTip c' ∉ keys w' := fun c' hne => by simp [w', hne]
  refine ⟨fun c' => ?_, fun c' hne => ?_, fun c' hm => ?_, fun i v hm => ?_, ?_, fun c' hne => ?_⟩
  · by_cases hc : c' = c
    · subst hc
      rw [chainEvents_append, hself, List.append_assoc]
      refine (hnow.linked c').append ⟨hprev, hhash, ?_⟩
      simp [tipHash, w']
    · rw [chainEvents_append, hother c' hc, List.append_nil, List.append_assoc,
        tipHash_append (htip c' hc)]
      exact hnow.linked c'
  · by_cases hc : c' = c
    · simp [w', hc]
    · rw [chainEvents_append, hother c' hc, List.append_nil] at hne
      rw [keys_append]
      exact List.mem_append_right _ (hnow.moves c' hne)
  · rcases List.mem_append.1 hm with hm | hm
    · simp [w'] at hm
    · exact hnow.kept c' hm
  · rcases List.mem_append.1 hm with hm | hm
    · simp only [w', List.mem_cons, Sigma.mk.injEq, reduceCtorEq, false_and, List.not_mem_nil,
        or_false, false_or, Key.auditEvent.injEq] at hm
      obtain ⟨rfl, hv⟩ := hm
      exact ⟨e, eq_of_heq hv, rfl, hrow⟩
    · exact hnow.rows i v hm
  · rw [auditKeys_append]
    have : auditKeys w' = [.auditEvent e.id] := by simp [auditKeys, w', Key.isAuditEvent]
    rw [this, List.singleton_append, List.nodup_cons]
    exact ⟨fun hk => hid (mem_auditKeys.1 hk).1, hnow.ids⟩
  · by_cases hc : c' = c
    · subst hc
      obtain ⟨new, rfl, hmem⟩ := hread
      have hgrow := chainEvents_of_extends hC ho.later (fun _ hev => hev.1 _ hlock) hv
      rw [chainEvents_append, hself, List.map_append, List.map_singleton]
      by_cases hw : chainEvents c' t.writes = []
      · exact ⟨new, h₁, rfl, hgrow, by simpa [hw] using hmem⟩
      · obtain ⟨new', h₀, rfl, heq, hsub⟩ := ha.dated c' hw
        refine ⟨new ++ new', h₀, by simp, hgrow.trans heq, ?_⟩
        rw [readings_append]
        exact hsub.append (List.singleton_sublist.2 hmem)
    · rw [chainEvents_append, hother c' hc, List.append_nil] at hne ⊢
      exact hnow.dated c' hne

/-- Tips stay. -/
theorem AuditContract.keeps_tip (hC : AuditContract C) (c : Uuid) :
    C.Keeps (.auditChainTip c) :=
  fun h p w hw => (hC h p w hw).kept c

/-! ## The specification of `recordAuditEvent` -/

/-- What an audit event was asked to say. -/
structure AuditEvent.Says (e : AuditEvent) (customerId : Uuid) (workspaceId : Option Uuid)
    (traceId : Uuid) (actorId eventType : String) (safeMetadata : Json) : Prop where
  customerId : e.customerId = customerId
  workspaceId : e.workspaceId = workspaceId
  traceId : e.traceId = traceId
  actorId : e.actorId = actorId
  eventType : e.eventType = eventType
  safeMetadata : e.safeMetadata = safeMetadata

/-- The transaction's writes grew by the event and by versions of its chain's tip. -/
def Recorded (e : AuditEvent) (w w' : Db) : Prop :=
  ∃ (init : Db) (tip : Option AuditChainTip), (∀ v ∈ init, v.1 = Key.auditChainTip e.customerId) ∧
    w' = ⟨.auditChainTip e.customerId, tip⟩ :: ⟨.auditEvent e.id, some e⟩ :: (init ++ w)

/-- What holds between two statements of a transaction of the application: it is
live, its writes so far are audited, and clocks may be read. -/
structure Ready (C : Contract Row Answer) (p : ℕ) (h : Hist) (t : DbTx) : Prop extends
    Live C h t where
  audited : Audited h t.writes

/-- A statement that writes to other tables. -/
theorem Ready.onward (hC : AuditContract C) (hr : Ready C p h t) {M : Call → Prop}
    (ho : ReadCommitted.Onward M p h t h' t') (hl : Live C h' t') (vs : Db)
    (hw : t'.writes = vs ++ t.writes) (hvs : ∀ k ∈ keys vs, k.auditing = false) :
    Ready C p h' t' := by
  refine ⟨hl, ?_⟩
  rw [hw]
  exact (hr.audited.onward hC hr.sound ⟨ho.later, fun _ hk => hk, List.suffix_refl _⟩
    hl.valid).append hvs

/-- Others have moved. -/
theorem Ready.others (hC : AuditContract C) (hr : Ready C p h t) (ho : Others p t.locks h h')
    (hv : C.Valid h') : Ready C p h' t :=
  hr.onward hC (show Onward p h t h' t from .others ho) ⟨hv, hr.sound, hr.ok⟩ [] rfl (by simp)

/-- A transaction starts audited. -/
theorem Ready.start (hv : C.Valid h) : Ready C p h {} :=
  ⟨⟨hv, Tx.sound_empty, rfl⟩, .nil h⟩

/-- **`recordAuditEvent` extends its customer's chain.** -/
theorem recordAuditEvent_safe (hC : AuditContract C) (hm : MinorFree C) (hr : Ready C p h t)
    (customerId : Uuid) (workspaceId : Option Uuid) (traceId : Uuid)
    (actorId eventType : String) (safeMetadata : Json) :
    Safe C p (fun e h' t' => e.Says customerId workspaceId traceId actorId eventType safeMetadata ∧
        Recorded e t.writes t'.writes ∧ Onward p h t h' t' ∧ Ready C p h' t')
      (Broken p h t)
      (recordAuditEvent customerId workspaceId traceId actorId eventType safeMetadata) h t := by
  unfold recordAuditEvent
  -- the tip row is there after the upsert, and only tip versions were written
  refine Safe.step (Safe.tryInsert _) (.refl h t) (fun _ _ _ => id) ?_
  rintro b h₁ t₁ ⟨hl₁, ho₁, hins⟩
  have ha : Audited h₁ t.writes :=
    hr.audited.onward hC hr.sound ⟨ho₁.later, fun _ hk => hk, List.suffix_refl _⟩ hl₁.valid
  obtain ⟨init, hinit, hw₁, htip₁, ha₁⟩ : ∃ init : Db,
      (∀ v ∈ init, v.1 = Key.auditChainTip customerId) ∧
      t₁.writes = init ++ t.writes ∧
      (row (t₁.view (committed h₁)) (.auditChainTip customerId)).isSome ∧
      Audited h₁ t₁.writes := by
    rcases hins with ⟨-, rfl, hnone⟩ | ⟨-, rfl, e, he, hsome⟩
    · refine ⟨[⟨.auditChainTip customerId, some ⟨none⟩⟩], by simp, by simp [Entry.version], ?_, ?_⟩
      · simp [Tx.view, Entry.version]
      · exact ha.openTip (hnone _ (List.mem_singleton.2 rfl))
    · rw [List.mem_singleton.1 he] at hsome
      exact ⟨[], by simp, rfl, hsome, ha⟩
  refine Safe.step (Safe.forUpdate _) ho₁ (fun _ _ _ => id) ?_
  rintro x h₂ t₂ ⟨hl₂, ho₂, hx, ht₂, -⟩
  obtain ⟨tip, htip⟩ := Option.isSome_iff_exists.1 
    ((hC.keeps_tip customerId).isSome_view ho₂.suffix hl₂.valid htip₁)
  obtain rfl : x = some tip := hx.trans htip
  simp only [Option.isSome_some, if_true] at ht₂
  have hlock : Key.auditChainTip customerId ∈ t₂.locks := by simp [ht₂]
  have hw₂ : t₂.writes = t₁.writes := by rw [ht₂, Tx.lock_writes]
  have ha₂ : Audited h₂ t₂.writes := by
    rw [hw₂]
    exact ha₁.onward hC hl₁.sound ⟨ho₂.later, fun _ hk => hk, List.suffix_refl _⟩ hl₂.valid
  have ho₀₂ := ho₁.trans ho₂
  -- from here on the tip is locked: its hash and the chain stay as they are
  refine Safe.step (minor_safe hm hl₂ trivial) ho₀₂
    (fun _ _ _ => id) ?_
  rintro occurredAt h₃ t₃ ⟨rfl, hl₃, -, -, -, ho₃⟩
  refine Safe.step (minor_safe hm hl₃ trivial) (ho₀₂.trans ho₃)
    (fun _ _ _ => id) ?_
  rintro eid h₄ t₄ ⟨rfl, hl₄, -, -, -, ho₄⟩
  have ho₂₄ := ho₃.trans ho₄
  refine Safe.step (minor_safe hm hl₄ trivial) (ho₀₂.trans ho₂₄)
    (fun _ _ _ => id) ?_
  rintro createdAt _ t₅ ⟨rfl, hl₅, h₅, rfl, ho₅, ho₅'⟩
  have ho₂₅ := ho₂₄.trans ho₅'
  extract_lets event
  refine Safe.step (Safe.insert _ _) (ho₀₂.trans ho₂₅) (fun _ _ _ => id) ?_
  rintro - h₆ t₆ ⟨hl₆, ho₆, rfl, hnone⟩
  have hkey : Key.auditEvent event.id ∉ keys t₅.writes := fun hk => by
    have := ha₂.isSome_event hk (committed h₆)
    rw [Tx.view] at hnone
    simp [event, hnone] at this
  rw [Tx.view, row_append_of_notMem _ hkey] at hnone
  have ho₂₆ := ho₂₅.trans ho₆
  refine Safe.step (Safe.update _ _) (ho₀₂.trans ho₂₆) (fun _ _ _ => id) ?_
  rintro - h₇ t₇ ⟨hl₇, ho₇, -, -, rfl⟩
  have ho₂₇ := ho₂₆.trans ho₇
  have hrow : row (committed h₇) (.auditEvent event.id) = none := by
    rw [ho₇.row_eq (by simp [event]), hnone]
  have hprev : event.prevHash = tipHash customerId (t₅.view (committed h₇)) := by
    rw [Tx.view, tipHash_congr (ho₂₇.row_eq hlock), hw₂, tipHash, ← Tx.view, htip]
    rfl
  have hread : ∃ new, h₇ = new ++ h₂ ∧ event.createdAt ∈ readings customerId new := by
    obtain ⟨evs, rfl, -⟩ := (ho₆.trans ho₇).later
    obtain ⟨evs', rfl⟩ := (ho₂₄.trans ho₅).suffix
    refine ⟨evs ++ .called p (.utcnow (.auditCreated customerId)) createdAt :: evs', by simp, ?_⟩
    rw [readings_append]
    simp [readings, event]
  have hrec := ha₂.record hC hl₂.sound hlock ho₂₇ hl₇.valid hread rfl hprev rfl hkey hrow
  refine ⟨⟨rfl, rfl, rfl, rfl, rfl, rfl⟩, ⟨init, some ⟨some event.hash⟩, hinit, ?_⟩,
    ho₀₂.trans ho₂₇, hl₇, hrec⟩
  simp [hw₂, hw₁, event]

end Doda
