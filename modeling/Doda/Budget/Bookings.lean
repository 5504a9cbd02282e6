import Doda.Budget.Prices
import Doda.Lib.Reservations
import Doda.Gateways.Stored

/-!
# Reservations of turns

The turns that have committed are bookings, one after another, on the accounts that customers
have for their months.  So a month has spent what was settled in it, whatever interleaved;
nothing is left reserved exactly where every turn is settled in the month in which it reserved;
and a month is over the cap only if a turn cost more than its estimate, or was settled there
without having reserved there.

## Main definitions

* `SettledTurn`, `settledTurns` — the turns that have committed.
* `accountsOf` — the ledger rows, as accounts.

## Main results

* `booked_of_valid` — the rows are the accounts after the bookings.
* `budget_conserved` — every run.
-/

namespace Doda

open ReadCommitted

/-- A turn that has committed: its usage event, and when it read the clock for its
reservation and for its settlement. -/
structure SettledTurn where
  event : AIUsageEvent
  reservedAt : Time
  settledAt : Time

/-- The account of a customer and a month. -/
abbrev MonthOfCustomer : Type := Uuid × String

/-- The turn as a booking. -/
def SettledTurn.booking (x : SettledTurn) : Reservation.Booking MonthOfCustomer ℤ where
  taken := (x.event.customerId, yearMonth x.reservedAt)
  released := (x.event.customerId, yearMonth x.settledAt)
  estimate := x.event.estimatedCostCents
  cost := x.event.actualCostCents

/-- The turn that a transaction has settled. -/
def settledTurn (ms : List Mark) : List SettledTurn :=
  match months ms, usageEvents ms with
  | [t, t'], [u] => [⟨u, t, t'⟩]
  | _, _ => []

/-- The turns that have committed, the newest first. -/
def settledTurns : Hist → List SettledTurn
  | [] => []
  | .committed p _ :: h => settledTurn (marks (opened p h)) ++ settledTurns h
  | _ :: h => settledTurns h

theorem settledTurns_suffix {h h' : Hist} (hle : h <:+ h') :
    settledTurns h <:+ settledTurns h' := by
  obtain ⟨evs, rfl⟩ := hle
  induction evs with
  | nil => exact List.suffix_refl _
  | cons ev evs ih =>
    cases ev with
    | committed p w => exact ih.trans (List.suffix_append ..)
    | ran | called | failed | rolledBack | crashed => exact ih

/-- The amounts of the ledger rows. -/
def accountsOf (v : Ledgers) (a : MonthOfCustomer) : Reservation.Account ℤ :=
  ⟨(v.balance a.1 a.2).reservedCents, (v.balance a.1 a.2).actualCents⟩

theorem accountsOf_put (v : Ledgers) (c : Uuid) (ym : String) (l : AIBudgetLedger) :
    accountsOf (v.put c ym l) =
      Function.update (accountsOf v) (c, ym) ⟨l.reservedCents, l.actualCents⟩ := by
  funext a
  by_cases ha : a = (c, ym)
  · subst ha
    simp [accountsOf]
  · have hne : ¬ (a.1 = c ∧ a.2 = ym) := fun heq => ha (Prod.ext heq.1 heq.2)
    rw [Function.update_of_ne ha, accountsOf, Ledgers.balance_put_ne hne, accountsOf]

theorem usageEvents_of_distant {ms : List Mark} (h : ∀ m ∈ ms, m.Distant) :
    usageEvents ms = [] := by
  refine List.filterMap_eq_nil_iff.2 fun m hm => ?_
  have := h m hm
  cases m <;> first | rfl | exact this.elim

theorem settledTurn_of_distant {ms : List Mark} (h : ∀ m ∈ ms, m.Distant) :
    settledTurn ms = [] := by
  rw [settledTurn, usageEvents_of_distant h]
  split
  · rename_i hnil
    cases hnil
  · rfl

/-! ## Usage events -/

/-- The usage events of a database. -/
def usages (db : Db) (i : Uuid) : Option AIUsageEvent := row db (.aiUsageEvent i)

/-- A usage event is inserted. -/
def insertUsage (v : Uuid → Option AIUsageEvent) (u : AIUsageEvent) : Uuid → Option AIUsageEvent :=
  Function.update v u.id (some u)

/-- What a mark makes of the usage events. -/
def Mark.onUsages (v : Uuid → Option AIUsageEvent) : Mark → Uuid → Option AIUsageEvent
  | .usage u => insertUsage v u
  | _ => v

/-- An insert of a usage event under its own id. -/
theorem effect_insert_usage (v : Uuid → Option AIUsageEvent) (u : AIUsageEvent) {k : Uuid}
    (hk : k = u.id) (i : Uuid) :
    (Stmt.insert [⟨.aiUsageEvent k, u⟩] : Stmt Row).effect (.aiUsageEvent i) () (v i) =
      insertUsage v u i := by
  subst hk
  by_cases heq : i = u.id
  · subst heq
    simp [insertUsage]
  · have hne : Key.aiUsageEvent u.id ≠ .aiUsageEvent i := by simpa using Ne.symm heq
    exact (effect_insert_ne hne ..).trans (Function.update_of_ne heq ..).symm

/-- Only the marks that are seen to insert a usage event do. -/
theorem effect_usage {q : Stmt Row} {x : q.Res} (hq : stmtMark q x ≠ some .strange)
    (v : Uuid → Option AIUsageEvent) (i : Uuid) : q.effect (.aiUsageEvent i) x (v i) =
      ((stmtMark q x).elim v (Mark.onUsages v)) i := by
  have hother : q.touches Key.ofTurns = false → q.effect (.aiUsageEvent i) x (v i) = v i :=
    fun h => Stmt.effect_of_not_touches (by rfl) h x _
  revert hq
  fun_cases stmtMark q x with
  | case1 => exact fun _ => effect_insert_ne (by simp) ..
  | case2 k u hk => exact fun _ => effect_insert_usage v u hk i
  | case3 | case8 | case11 => exact fun h => absurd rfl h
  | case4 | case5 | case6 | case10 => exact fun _ => rfl
  | case7 c ym b =>
    intro _
    cases b with
    | false => rfl
    | true =>
      have hne : Key.aiBudgetLedger c ym ≠ .aiUsageEvent i := by simp
      exact effect_insert_ne hne {} () _
  | case9 c ym f => exact fun _ => Stmt.effect_update_ne (by simp) f () _
  | case12 | case13 => exact fun _ => hother (Bool.eq_false_iff.2 ‹_›)

/-- What a transaction makes of the usage events is seen. -/
theorem usages_replay (db : Db) {evs : Hist} (hs : .strange ∉ marks evs) :
    (fun i => replay db evs (.aiUsageEvent i)) =
      (usageEvents (marks evs)).foldl insertUsage (usages db) := by
  induction evs with
  | nil => rfl
  | cons ev evs ih =>
    obtain ⟨hevs, hev⟩ := not_strange_cons hs
    rw [marks_cons, usageEvents_append, List.foldl_append, ← ih hevs]
    funext i
    cases ev with
    | ran p q x =>
      have := effect_usage hev (fun i => replay db evs (.aiUsageEvent i)) i
      rw [mark_ran] at hev ⊢
      refine this.trans ?_
      cases stmtMark q x with
      | none => rfl
      | some m => cases m <;> rfl
    | called p e x =>
      rw [mark_called]
      fun_cases callMark e x <;> rfl
    | failed | committed | rolledBack | crashed => rfl

/-- Where a usage event is seen to be inserted, it was told that it is not there. -/
theorem told_of_usage {db : Db} {ev : Event Row Answer} {evs : Hist} {u : AIUsageEvent}
    (hmark : mark ev = some (.usage u)) (ht : Told db (ev :: evs)) :
    replay db evs (.aiUsageEvent u.id) = none := by
  revert hmark ht
  cases ev with
  | ran p q x =>
    rw [mark_ran]
    fun_cases stmtMark q x with
    | case2 k u' hk =>
      intro hmark ht
      cases hmark
      exact hk ▸ ht.1 _ (List.mem_singleton.2 rfl)
    | _ => intro hmark; cases hmark
  | called p e x =>
    rw [mark_called]
    fun_cases callMark e x <;> (intro hmark; cases hmark)
  | failed | committed | rolledBack | crashed => intro hmark; cases hmark

/-- A usage event that a transaction has inserted was not there before. -/
theorem usage_fresh {db : Db} {evs : Hist} (hs : .strange ∉ marks evs) (ht : Told db evs)
    {u : AIUsageEvent} (hu : usageEvents (marks evs) = [u]) : usages db u.id = none := by
  induction evs with
  | nil => cases hu
  | cons ev evs ih =>
    obtain ⟨hevs, hev⟩ := not_strange_cons hs
    have hbefore : Told db evs := by
      cases ev with
      | ran => exact ht.2
      | called | failed | committed | rolledBack | crashed => exact ht
    rw [marks_cons, usageEvents_append] at hu
    rcases List.append_eq_singleton_iff.1 hu with ⟨hnil, hlast⟩ | ⟨hfirst, -⟩
    · have hmark : mark ev = some (.usage u) := by
        cases hm : mark ev with
        | none => simp [hm, usageEvents] at hlast
        | some m =>
          rw [hm] at hlast
          cases m with
          | usage u' => exact congrArg (fun u => some (Mark.usage u)) (List.cons.inj hlast).1
          | _ => cases hlast
      have hfresh := congrFun (usages_replay db hevs) u.id
      rw [hnil, List.foldl_nil] at hfresh
      rw [← hfresh]
      exact told_of_usage hmark ht
    · exact ih hevs hbefore hfirst

section Turn

variable [Sha256] [JsonText] [Deployment] {e : TurnContext} {s s₁ : Turn} {ms : List Mark}
  {r₁ : Except Err Unit} {v : Ledgers}

omit [Sha256] [JsonText] in
/-- **A settled turn is a booking** on the accounts, within the cap. -/
theorem Accounted.booked {t t' : Time} {pricing : ModelPricing}
    (h : Accounted e r₁ s₁ v ms t t' pricing) :
    ∃ x : SettledTurn, settledTurn ms = [x] ∧ usageEvents ms = [x.event] ∧
      x.event.customerId = e.context.customerId ∧
      x.event.estimatedCostCents = e.totalEstimateCents ∧
      accountsOf (ledgersAfter v ms) = x.booking.settle (x.booking.reserve (accountsOf v)) ∧
      (accountsOf v x.booking.taken).reserved + (accountsOf v x.booking.taken).spent +
        x.booking.estimate ≤ settings.budgetHardCents ∧
      ∀ c ym, (ledgersAfter v ms c ym).isSome →
        (v c ym).isSome ∨ x.booking.taken = (c, ym) ∨ x.booking.released = (c, ym) := by
  obtain ⟨id, createdAt, husage⟩ := h.usage
  obtain ⟨v₁, rfl, hafter⟩ := h.after
  refine ⟨⟨e.usageEvent s₁ (s₁.actualCents pricing)
    (if r₁.isOk then .RECONCILED else .REFUNDED) id createdAt, t, t'⟩, ?_, husage, rfl, rfl, ?_,
    ?_, ?_⟩
  · rw [settledTurn, h.months, husage]
  · rw [hafter, accountsOf_put, accountsOf_put]
    have hspent := congrArg Reservation.Account.spent (congrFun (accountsOf_put v
      e.context.customerId (yearMonth t) (reserveOp e.totalEstimateCents
        (v.balance e.context.customerId (yearMonth t)))) (e.context.customerId, yearMonth t'))
    have hreserved := congrArg Reservation.Account.reserved (congrFun (accountsOf_put v
      e.context.customerId (yearMonth t) (reserveOp e.totalEstimateCents
        (v.balance e.context.customerId (yearMonth t)))) (e.context.customerId, yearMonth t'))
    refine congrArg (Function.update _ _) ?_
    exact congrArg₂ Reservation.Account.mk
      (congrArg (fun z => max 0 (z - e.totalEstimateCents)) hreserved)
      (congrArg (· + s₁.actualCents pricing) hspent)
  · exact h.cap
  · intro c ym hsome
    rw [hafter] at hsome
    by_cases hreleased : c = e.context.customerId ∧ ym = yearMonth t'
    · exact .inr (.inr (Prod.ext hreleased.1.symm hreleased.2.symm))
    · rw [Ledgers.put_ne hreleased] at hsome
      by_cases htaken : c = e.context.customerId ∧ ym = yearMonth t
      · exact .inr (.inl (Prod.ext htaken.1.symm htaken.2.symm))
      · rw [Ledgers.put_ne htaken] at hsome
        exact .inl hsome

omit [Sha256] [JsonText] in
/-- An estimate is not negative. -/
theorem Estimated.nonneg (h : Estimated e s) (hw : WellPriced) : 0 ≤ e.totalEstimateCents := by
  obtain ⟨pricing, -, heq⟩ := h.estimate
  obtain ⟨mode, hmode⟩ := h.output
  rw [heq]
  refine Int.mul_nonneg (hw.nonneg _ _ _ ?_ (hmode ▸ hw.output mode)) (Int.natCast_nonneg _)
  exact (by norm_num : (0 : ℤ) ≤ 1).trans (le_max_left ..)

variable {h : Hist}

/-- **One commit** settles one turn, or leaves the ledger and the usage events alone. -/
theorem booked_of_commits {p : ℕ} {w : Db} (hw : WellPriced) (hv : (faithful serve).Valid h)
    (hc : Commits serve h p w) :
    (settledTurn (marks (opened p h)) = [] ∧ ledgers (w ++ committed h) = ledgers (committed h) ∧
      usages (w ++ committed h) = usages (committed h)) ∨
    ∃ x : SettledTurn, settledTurn (marks (opened p h)) = [x] ∧ 0 ≤ x.booking.estimate ∧
      accountsOf (ledgers (w ++ committed h)) =
        x.booking.settle (x.booking.reserve (accountsOf (ledgers (committed h)))) ∧
      (accountsOf (ledgers (committed h)) x.booking.taken).reserved +
        (accountsOf (ledgers (committed h)) x.booking.taken).spent + x.booking.estimate ≤
          settings.budgetHardCents ∧
      (∀ c ym, (ledgers (w ++ committed h) c ym).isSome → (ledgers (committed h) c ym).isSome ∨
        x.booking.taken = (c, ym) ∨ x.booking.released = (c, ym)) ∧
      usages (committed h) x.event.id = none ∧
      usages (w ++ committed h) = insertUsage (usages (committed h)) x.event := by
  obtain ⟨hafter, hhold⟩ := ledgers_commit hc
  have hs := (whole_of_commits hc).within.not_strange
  have husages : usages (w ++ committed h) =
      (usageEvents (marks (opened p h))).foldl insertUsage (usages (committed h)) := by
    rw [← usages_replay _ hs]
    funext i
    exact hc.rows _
  rw [hafter]
  rcases course_of_commits hv hc with hms | ⟨e, s, r₁, s₁, r₂, hest, hcourse, hend⟩
  · refine .inl ⟨settledTurn_of_distant hms, ledgersAfter_of_apart fun m hm => (hms m hm).apart, ?_⟩
    rw [husages, usageEvents_of_distant hms, List.foldl_nil]
  · have hpriced : s₁.pricing ≠ none := by
      obtain ⟨ml, hl, -⟩ := hcourse.loop
      obtain ⟨pricing, hp, -⟩ := hest.estimate
      exact hl.listed hw (by simp [hp])
    obtain rfl := hend.resolve_right hpriced
    obtain ⟨t, t', pricing, hacc⟩ := hcourse.accounted hhold
    obtain ⟨x, hx, hevents, -, hestimate, hbooked, hcap, hrows⟩ := hacc.booked
    refine .inr ⟨x, hx, ?_, hbooked, hcap, hrows, usage_fresh hs hc.told hevents, ?_⟩
    · change 0 ≤ x.event.estimatedCostCents
      rw [hestimate]
      exact hest.nonneg hw
    · rw [husages, hevents]
      rfl

omit [Sha256] [JsonText] [Deployment] in
theorem settledTurn_cases (ms : List Mark) :
    settledTurn ms = [] ∨ ∃ x, settledTurn ms = [x] := by
  rw [settledTurn]
  split
  · exact .inr ⟨_, rfl⟩
  · exact .inl rfl

omit [Sha256] [JsonText] [Deployment] in
/-- A turn is added, with a usage event that was not there. -/
theorem events_cons {v : Uuid → Option AIUsageEvent} {xs : List SettledTurn} {x : SettledTurn}
    (hv : ∀ i u, v i = some u ↔ u.id = i ∧ ∃ y ∈ xs, y.event = u) (hx : v x.event.id = none)
    (i : Uuid) (u : AIUsageEvent) :
    insertUsage v x.event i = some u ↔ u.id = i ∧ ∃ y ∈ x :: xs, y.event = u := by
  by_cases hi : i = x.event.id
  · subst hi
    rw [insertUsage, Function.update_self]
    constructor
    · intro heq
      obtain rfl := Option.some.inj heq
      exact ⟨rfl, x, List.mem_cons_self .., rfl⟩
    · rintro ⟨hid, y, hy, rfl⟩
      rcases List.mem_cons.1 hy with rfl | hy
      · rfl
      · rw [(hv x.event.id y.event).2 ⟨hid, y, hy, rfl⟩] at hx
        cases hx
  · rw [insertUsage, Function.update_of_ne hi, hv]
    refine and_congr_right fun hid => ?_
    rw [List.exists_mem_cons_iff]
    exact (or_iff_right fun heq => hi (by rw [← hid, heq])).symm

/-- The bookings of the turns that have committed. -/
def bookings (h : Hist) : List (Reservation.Booking MonthOfCustomer ℤ) :=
  (settledTurns h).map SettledTurn.booking

omit [Sha256] [JsonText] [Deployment] in
theorem bookings_committed (p : ℕ) (w : Db) (h : Hist) :
    bookings (.committed p w :: h) =
      (settledTurn (marks (opened p h))).map SettledTurn.booking ++ bookings h :=
  List.map_append

omit [Sha256] [JsonText] [Deployment] in
/-- Whatever is an end of the bookings was all of them once. -/
theorem bookings_of_suffix {bs : List (Reservation.Booking MonthOfCustomer ℤ)}
    (hle : bs <:+ bookings h) : ∃ h', h' <:+ h ∧ bookings h' = bs := by
  induction h with
  | nil => exact ⟨[], List.suffix_refl _, (List.suffix_nil.1 hle).symm⟩
  | cons ev h ih =>
    have hbefore : bs <:+ bookings h → ∃ h', h' <:+ ev :: h ∧ bookings h' = bs := fun hle => by
      obtain ⟨h', hh', heq⟩ := ih hle
      exact ⟨h', hh'.trans (List.suffix_cons ..), heq⟩
    cases ev with
    | committed p w =>
      rw [bookings_committed] at hle
      rcases settledTurn_cases (marks (opened p h)) with hnone | ⟨x, hx⟩
      · rw [hnone] at hle
        exact hbefore hle
      · rw [hx] at hle
        rcases List.suffix_cons_iff.1 hle with heq | hle
        · exact ⟨_, List.suffix_refl _, by rw [bookings_committed, hx, heq]; rfl⟩
        · exact hbefore hle
    | ran | called | failed | rolledBack | crashed => exact hbefore hle

omit [Sha256] [JsonText] [Deployment] in
theorem bookings_suffix {h' : Hist} (hle : h' <:+ h) : bookings h' <:+ bookings h := by
  obtain ⟨xs, hxs⟩ := settledTurns_suffix hle
  exact ⟨xs.map SettledTurn.booking, by rw [bookings, bookings, ← List.map_append, hxs]⟩

omit [Sha256] [JsonText] [Deployment] in
theorem settled_same_iff :
    (∀ x ∈ settledTurns h, yearMonth x.reservedAt = yearMonth x.settledAt ∨
      x.event.estimatedCostCents = 0) ↔
      ∀ b ∈ bookings h, b.taken = b.released ∨ b.estimate = 0 := by
  rw [bookings, List.forall_mem_map]
  simp [SettledTurn.booking]

/-- What is known of the ledger rows and of the usage events: the rows are the accounts after
the bookings, each of which was within the cap; a row is there only if a turn has booked on it;
and the usage events are those of the turns. -/
structure Booked (h : Hist) : Prop where
  rows : accountsOf (ledgers (committed h)) = Reservation.accounts (bookings h)
  checked : Reservation.Checked settings.budgetHardCents (bookings h)
  estimates : ∀ b ∈ bookings h, 0 ≤ b.estimate
  touched : ∀ c ym, (ledgers (committed h) c ym).isSome →
    ∃ b ∈ bookings h, b.taken = (c, ym) ∨ b.released = (c, ym)
  events : ∀ i u, usages (committed h) i = some u ↔ u.id = i ∧ ∃ x ∈ settledTurns h, x.event = u
  distinct : ((settledTurns h).map (·.event.id)).Nodup

/-- **The ledger rows are the accounts after the bookings**, and the usage events theirs. -/
theorem booked_of_valid (hw : WellPriced) (hv : (faithful serve).Valid h) : Booked h := by
  induction h with
  | nil =>
    refine ⟨rfl, fun b bs' hle => ?_, by simp [bookings, settledTurns], fun c ym hsome => ?_,
      fun i u => ?_, List.nodup_nil⟩
    · simp [bookings, settledTurns] at hle
    · simp [ledgers] at hsome
    · simp [usages, settledTurns]
  | cons ev h ih =>
    have ih := ih hv.2
    cases ev with
    | committed p w =>
      rcases booked_of_commits hw hv.2 hv.1 with
        ⟨hnone, hsame, husages⟩ | ⟨x, hx, hestimate, hrows, hcap, htouched, hfresh, husages⟩
      · have hturns : settledTurns (.committed p w :: h) = settledTurns h := by
          rw [settledTurns, hnone, List.nil_append]
        have hbookings : bookings (.committed p w :: h) = bookings h := by
          rw [bookings, hturns, bookings]
        refine ⟨?_, hbookings ▸ ih.checked, hbookings ▸ ih.estimates, fun c ym hsome => ?_,
          fun i u => ?_, hturns ▸ ih.distinct⟩
        · rw [committed_cons, Event.writes_committed, hsame, ih.rows, hbookings]
        · rw [committed_cons, Event.writes_committed, hsame] at hsome
          exact hbookings ▸ ih.touched c ym hsome
        · rw [committed_cons, Event.writes_committed, husages, hturns]
          exact ih.events i u
      · have hturns : settledTurns (.committed p w :: h) = x :: settledTurns h := by
          rw [settledTurns, hx]
          rfl
        have hbookings : bookings (.committed p w :: h) = x.booking :: bookings h := by
          rw [bookings, hturns]
          rfl
        refine ⟨?_, ?_, ?_, fun c ym hsome => ?_, fun i u => ?_, ?_⟩
        · rw [committed_cons, Event.writes_committed, hrows, hbookings, ih.rows]
          rfl
        · rw [hbookings]
          intro b bs' hle
          rcases List.suffix_cons_iff.1 hle with heq | hle
          · obtain ⟨rfl, rfl⟩ := List.cons.inj heq
            rw [← ih.rows]
            exact hcap
          · exact ih.checked b bs' hle
        · rw [hbookings]
          exact List.forall_mem_cons.2 ⟨hestimate, ih.estimates⟩
        · rw [committed_cons, Event.writes_committed] at hsome
          rw [hbookings]
          rcases htouched c ym hsome with hbefore | hnow
          · obtain ⟨b, hb, hor⟩ := ih.touched c ym hbefore
            exact ⟨b, List.mem_cons_of_mem _ hb, hor⟩
          · exact ⟨x.booking, List.mem_cons_self .., hnow⟩
        · rw [committed_cons, Event.writes_committed, husages, hturns]
          exact events_cons ih.events hfresh i u
        · rw [hturns, List.map_cons, List.nodup_cons]
          refine ⟨fun hmem => ?_, ih.distinct⟩
          obtain ⟨y, hy, heq⟩ := List.mem_map.1 hmem
          have := (ih.events x.event.id y.event).2 ⟨heq, y, hy, rfl⟩
          rw [hfresh] at this
          cases this
    | ran | called | failed | rolledBack | crashed => exact ⟨ih.1, ih.2, ih.3, ih.4, ih.5, ih.6⟩

omit [Sha256] [JsonText] in
/-- What a month has spent is what the turns that were settled in it have cost. -/
theorem Booked.spent (hb : Booked h) (c : Uuid) (ym : String) :
    ((ledgers (committed h)).balance c ym).actualCents =
      (((settledTurns h).filter fun x => x.event.customerId = c ∧
        yearMonth x.settledAt = ym).map (·.event.actualCostCents)).sum := by
  have hspent := Reservation.spent_accounts (bookings h) (c, ym)
  rw [← hb.rows] at hspent
  refine hspent.trans ?_
  rw [bookings, List.filter_map, List.map_map]
  refine congrArg List.sum (congrArg (List.map _) (List.filter_congr fun x _ => ?_))
  simp [SettledTurn.booking]

/-- **The budget is kept, whatever interleaves.**  What a month has spent is what the turns
that were settled in it have cost; nothing is ever left reserved exactly where every turn is
settled in the month it reserved in, or was estimated at nothing; a row that is there is not
below zero and within the cap, or a turn was settled there that cost more than its estimate or
had reserved in another month; and the usage events are those of the settled turns. -/
theorem budget_conserved {s : Sys Row Answer Err Reply Request} (hw : WellPriced)
    (hs : Reachable serve s) :
    (∀ c ym, ((ledgers (committed s.hist)).balance c ym).actualCents =
      (((settledTurns s.hist).filter fun x => x.event.customerId = c ∧
        yearMonth x.settledAt = ym).map (·.event.actualCostCents)).sum) ∧
    ((∀ h', h' <:+ s.hist → ∀ c ym, ((ledgers (committed h')).balance c ym).reservedCents = 0) ↔
      ∀ x ∈ settledTurns s.hist, yearMonth x.reservedAt = yearMonth x.settledAt ∨
        x.event.estimatedCostCents = 0) ∧
    (∀ c ym l, row (committed s.hist) (.aiBudgetLedger c ym) = some l → 0 ≤ l.reservedCents ∧
      (l.reservedCents + l.actualCents ≤ settings.budgetHardCents ∨
        ∃ x ∈ settledTurns s.hist, x.event.customerId = c ∧ yearMonth x.settledAt = ym ∧
          (x.event.estimatedCostCents < x.event.actualCostCents ∨ yearMonth x.reservedAt ≠ ym))) ∧
    (∀ i u, row (committed s.hist) (.aiUsageEvent i) = some u ↔
      u.id = i ∧ ∃ x ∈ settledTurns s.hist, x.event = u) ∧
    ((settledTurns s.hist).map (·.event.id)).Nodup := by
  have hv := hs.faithful
  have hb := booked_of_valid hw hv
  refine ⟨hb.spent, ?_, fun c ym l hl => ?_, hb.events, hb.distinct⟩
  · rw [settled_same_iff, ← Reservation.reserved_eq_zero_iff]
    constructor
    · intro H bs' hle a
      obtain ⟨h', hh', rfl⟩ := bookings_of_suffix hle
      rw [← (booked_of_valid hw (hv.suffix hh')).rows]
      exact H h' hh' a.1 a.2
    · intro H h' hh' c ym
      have := H _ (bookings_suffix hh') (c, ym)
      rwa [← (booked_of_valid hw (hv.suffix hh')).rows] at this
  · have hsome : (ledgers (committed s.hist) c ym).isSome := Option.isSome_iff_exists.2 ⟨l, hl⟩
    have hl' : accountsOf (ledgers (committed s.hist)) (c, ym) =
        ⟨l.reservedCents, l.actualCents⟩ := by
      have hrow : ledgers (committed s.hist) c ym = some l := hl
      rw [accountsOf, Ledgers.balance, hrow]
      rfl
    rw [hb.rows] at hl'
    have hwithin := Reservation.accounts_within hb.estimates hb.checked (hb.touched c ym hsome)
    have hnonneg := Reservation.reserved_nonneg hb.estimates (c, ym)
    rw [hl'] at hwithin hnonneg
    refine ⟨hnonneg, hwithin.imp_right ?_⟩
    rintro ⟨b, hmem, hreleased, hor⟩
    obtain ⟨x, hx, rfl⟩ := List.mem_map.1 hmem
    obtain ⟨hc, hym⟩ := Prod.ext_iff.1 hreleased
    refine ⟨x, hx, hc, hym, hor.imp_right fun hne heq => hne ?_⟩
    exact Prod.ext hc heq

end Turn

section Sample

attribute [local instance] plainSha plainJsonText sampleDeployment

/-- The prices of the sample. -/
theorem sampleDeployment_wellPriced : WellPriced where
  nonneg pricing input output hinput houtput := by
    refine Int.ediv_nonneg ?_ (by norm_num)
    exact Int.add_nonneg (Int.mul_nonneg (by norm_num) (Int.add_nonneg
      (Int.mul_nonneg hinput (Int.natCast_nonneg _))
      (Int.mul_nonneg houtput (Int.natCast_nonneg _)))) (by norm_num)
  output mode := by cases mode <;> decide
  listed provider _ := by cases provider <;> decide +kernel

/-- A gateway that answers in text, at length. -/
def answersInText (_ : GatewayRequest) : GatewayStream where
  events := [.textDelta "Salom", .completed ⟨40000, 20000, 0⟩ "stop"]

/-- The rows are written; then a message is posted. -/
def spendOnce : Option (Sys Row Answer Err Reply Request) :=
  runAll serve {} (.start (.housekeeping sampleRows) ::
    Act.runs 0 (numberedAnswer answersInText) 0 6 ++
    .start (.chat ⟨3, .AAL1⟩ 2 8 9 "Salom" .STANDARD) ::
    Act.runs 1 (numberedAnswer answersInText) 6 31)

/-- A turn that costs more than its estimate. -/
theorem budget_conserved_sample : ∃ s, spendOnce = some s ∧
    ((ledgers (committed s.hist)).balance 7 "0001-01").actualCents = 5 ∧
    ((ledgers (committed s.hist)).balance 7 "0001-01").reservedCents = 0 := by
  have hrun : (spendOnce.any fun (s : Sys Row Answer Err Reply Request) =>
      decide ((((settledTurns s.hist).filter fun x => x.event.customerId = 7 ∧
        yearMonth x.settledAt = "0001-01").map (·.event.actualCostCents)).sum = 5 ∧
      ∀ x ∈ settledTurns s.hist, yearMonth x.reservedAt = yearMonth x.settledAt ∨
        x.event.estimatedCostCents = 0)) = true := by
    decide +kernel
  obtain ⟨s, hst, hr⟩ := (Option.any_eq_true _ _).1 hrun
  obtain ⟨hsum, hmonths⟩ := of_decide_eq_true hr
  obtain ⟨hactual, hreserved, -⟩ :=
    budget_conserved sampleDeployment_wellPriced (Reachable.init.runAll hst)
  refine ⟨s, hst, (hactual 7 "0001-01").trans hsum, ?_⟩
  exact hreserved.2 hmonths s.hist (List.suffix_refl _) 7 "0001-01"

end Sample

end Doda
