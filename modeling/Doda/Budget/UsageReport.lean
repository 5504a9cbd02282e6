import Doda.Budget.Bookings
import Doda.Budget.ReportMonths
import Doda.Lib.Alone
import Doda.Lib.Grouping

/-!
# The usage report

The report adds up the usage events of a month by workspace and model.  It counts the turns that
completed and no others, by the month in which their event was created; the ledger counts every
settled turn, by the month in which it was settled.  So the two differ by exactly the turns that
only one of them takes.

## Main definitions

* `getUsageReport` — the report.
* `Reported`, `SettledIn` — the turns that the report, and the ledger, count for a month.

## Main results

* `usage_report_accounts` — the report, against the ledger.
-/

namespace Doda

open ReadCommitted

/-- `UsageBreakdownRow`. -/
structure UsageBreakdownRow where
  workspaceId : Uuid
  workspaceName : String
  provider : Provider
  model : String
  costCents : ℤ
  eventCount : ℕ

/-- What the report groups by. -/
abbrev UsageKey : Type := Uuid × String × Provider × String

/-- What a row is about. -/
def UsageBreakdownRow.key (r : UsageBreakdownRow) : UsageKey :=
  (r.workspaceId, r.workspaceName, r.provider, r.model)

/-- The workspace that an event is joined to. -/
def joinedWorkspace (db : Db) (customerId : Uuid) (u : AIUsageEvent) : Option Workspace :=
  (row db (.workspace u.workspaceId)).filter (·.customerId = customerId)

/-- The key of an event that is reported between two instants. -/
def usageKey (db : Db) (customerId : Uuid) (start stop : Time) (u : AIUsageEvent) :
    Option UsageKey :=
  if u.customerId = customerId ∧ u.status = .RECONCILED ∧ start ≤ u.createdAt ∧
      u.createdAt < stop then
    (joinedWorkspace db customerId u).map fun w => (u.workspaceId, w.name, u.provider, u.model)
  else none

/-- The events of the report. -/
def usageEventIds (db : Db) (customerId : Uuid) (start stop : Time) : List Uuid :=
  collect (fun k v => match k, v with
    | .aiUsageEvent id, (u : AIUsageEvent) =>
      if (usageKey db customerId start stop u).isSome then some id else none
    | _, _ => none) db

/-- An event with its key. -/
def keyedUsage (db : Db) (customerId : Uuid) (start stop : Time) (id : Uuid) :
    Option (UsageKey × AIUsageEvent) :=
  (row db (.aiUsageEvent id)).bind fun u =>
    (usageKey db customerId start stop u).map fun key => (key, u)

/-- The row of a group. -/
def usageRow (joined : List (UsageKey × AIUsageEvent)) (key : UsageKey) : UsageBreakdownRow where
  workspaceId := key.1
  workspaceName := key.2.1
  provider := key.2.2.1
  model := key.2.2.2
  costCents := ((Grouping.members Prod.fst joined key).map (·.2.actualCostCents)).sum
  eventCount := (Grouping.members Prod.fst joined key).length

/-- `get_usage_report`: the groups are sorted by their cost, the dearest first, and those that
cost the same stand in any order. -/
def getUsageReport [DecimalDigits] (customerId : Uuid) (yearMonth : String) :
    Session (List UsageBreakdownRow) :=
  match monthBoundsUtc yearMonth with
  | .error e => throw e
  | .ok (start, stop) => do
    let db ← Session.select
    let order ← call (Call.scanOrder (usageEventIds db customerId start stop))
    let joined := order.1.filterMap (keyedUsage db customerId start stop)
    let rows := (Grouping.keys Prod.fst joined).map (usageRow joined)
    return rows.mergeSort fun a b => b.costCents ≤ a.costCents

/-- The turn is reported for the month. -/
def Reported (db : Db) (customerId : Uuid) (ym : String) (x : SettledTurn) : Bool :=
  x.event.customerId = customerId ∧ x.event.status = .RECONCILED ∧
    yearMonth x.event.createdAt = ym ∧ (joinedWorkspace db customerId x.event).isSome

/-- The turn was settled in the month. -/
def SettledIn (customerId : Uuid) (ym : String) (x : SettledTurn) : Bool :=
  x.event.customerId = customerId ∧ yearMonth x.settledAt = ym

/-- What the turns have cost. -/
def costOf (xs : List SettledTurn) : ℤ := (xs.map (·.event.actualCostCents)).sum

section Events

variable {db : Db} {c : Uuid} {start stop : Time} {xs : List SettledTurn} {ids : List Uuid}

theorem mem_usageEventIds {id : Uuid} : id ∈ usageEventIds db c start stop ↔
    ∃ u, row db (.aiUsageEvent id) = some u ∧ (usageKey db c start stop u).isSome := by
  rw [usageEventIds, mem_collect]
  constructor
  · rintro ⟨k, u, hu, hk⟩
    cases k with
    | aiUsageEvent i =>
      dsimp only at hk
      split at hk
      · cases hk
        exact ⟨u, hu, ‹_›⟩
      · cases hk
    | _ => cases hk
  · rintro ⟨u, hu, hsome⟩
    exact ⟨_, u, hu, if_pos hsome⟩

theorem nodup_usageEventIds : (usageEventIds db c start stop).Nodup := by
  refine List.Nodup.of_map Key.aiUsageEvent (nodup_collect_map fun k v id hrow hid => ?_)
  cases k with
  | aiUsageEvent i =>
    dsimp only at hid
    split at hid
    · rw [Option.some.inj hid]
    · cases hid
  | _ => cases hid

/-- The usage events of a database are those of some turns. -/
structure EventsAre (db : Db) (xs : List SettledTurn) : Prop where
  events : ∀ i u, row db (.aiUsageEvent i) = some u ↔ u.id = i ∧ ∃ x ∈ xs, x.event = u
  distinct : (xs.map (·.event.id)).Nodup

theorem EventsAre.row (H : EventsAre db xs) {x : SettledTurn} (hx : x ∈ xs) :
    ReadCommitted.row db (.aiUsageEvent x.event.id) = some x.event :=
  (H.events _ _).2 ⟨rfl, x, hx, rfl⟩

/-- The turns whose events have a key. -/
def keyedTurns (db : Db) (c : Uuid) (start stop : Time) (xs : List SettledTurn) :
    List SettledTurn :=
  xs.filter fun x => (usageKey db c start stop x.event).isSome

/-- The events that are read are those of the turns with a key, in some order. -/
theorem EventsAre.ids_perm (H : EventsAre db xs) (hids : ids.Perm (usageEventIds db c start stop)) :
    ids.Perm ((keyedTurns db c start stop xs).map (·.event.id)) := by
  refine hids.trans ((List.perm_ext_iff_of_nodup nodup_usageEventIds ?_).2 fun id => ?_)
  · exact (List.filter_sublist.map _).nodup H.distinct
  · rw [mem_usageEventIds, List.mem_map]
    constructor
    · rintro ⟨u, hu, hkey⟩
      obtain ⟨hid, x, hx, heq⟩ := (H.events id u).1 hu
      exact ⟨x, List.mem_filter.2 ⟨hx, heq ▸ hkey⟩, heq ▸ hid⟩
    · rintro ⟨x, hx, rfl⟩
      obtain ⟨hx, hkey⟩ := List.mem_filter.1 hx
      exact ⟨x.event, H.row hx, hkey⟩

/-- A turn's event with its key. -/
def keyedTurn (db : Db) (c : Uuid) (start stop : Time) (x : SettledTurn) :
    Option (UsageKey × AIUsageEvent) :=
  (usageKey db c start stop x.event).map fun key => (key, x.event)

theorem EventsAre.joined_perm (H : EventsAre db xs)
    (hids : ids.Perm (usageEventIds db c start stop)) :
    (ids.filterMap (keyedUsage db c start stop)).Perm
      (xs.filterMap (keyedTurn db c start stop)) := by
  refine ((H.ids_perm hids).filterMap _).trans (List.Perm.of_eq ?_)
  rw [List.filterMap_map, keyedTurns, List.filterMap_filter]
  refine List.filterMap_congr fun x hx => ?_
  rw [Function.comp_apply, keyedUsage, H.row hx, Option.bind_some, keyedTurn]
  cases usageKey db c start stop x.event <;> rfl

/-- The turns whose events have this key. -/
def keyedTurnsAt (db : Db) (c : Uuid) (start stop : Time) (xs : List SettledTurn)
    (key : UsageKey) : List SettledTurn :=
  xs.filter fun x => decide (usageKey db c start stop x.event = some key)

/-- The members of a group are the turns with its key. -/
theorem members_keyedTurn (xs : List SettledTurn) (key : UsageKey) :
    Grouping.members Prod.fst (xs.filterMap (keyedTurn db c start stop)) key =
      (keyedTurnsAt db c start stop xs key).map fun x => (key, x.event) := by
  induction xs with
  | nil => rfl
  | cons x xs ih =>
    cases hkey : usageKey db c start stop x.event with
    | none =>
      rw [List.filterMap_cons_none (by rw [keyedTurn, hkey]; rfl), ih, keyedTurnsAt, keyedTurnsAt,
        List.filter_cons_of_neg (by simp [hkey])]
    | some k =>
      rw [List.filterMap_cons_some (by rw [keyedTurn, hkey]; rfl)]
      by_cases heq : k = key
      · subst heq
        rw [Grouping.members, List.filter_cons_of_pos (by simp), keyedTurnsAt,
          List.filter_cons_of_pos (by simp [hkey]), List.map_cons]
        exact congrArg _ ih
      · rw [Grouping.members, List.filter_cons_of_neg (by simpa using heq), keyedTurnsAt,
          List.filter_cons_of_neg (by simpa [hkey] using heq)]
        exact ih

/-- The turns with a key. -/
theorem map_keyedTurn (xs : List SettledTurn) :
    (xs.filterMap (keyedTurn db c start stop)).map Prod.snd =
      (keyedTurns db c start stop xs).map (·.event) := by
  induction xs with
  | nil => rfl
  | cons x xs ih =>
    cases hkey : usageKey db c start stop x.event with
    | none =>
      rw [List.filterMap_cons_none (by rw [keyedTurn, hkey]; rfl), ih, keyedTurns, keyedTurns,
        List.filter_cons_of_neg (by simp [hkey])]
    | some k =>
      rw [List.filterMap_cons_some (by rw [keyedTurn, hkey]; rfl), keyedTurns,
        List.filter_cons_of_pos (by simp [hkey]), List.map_cons, List.map_cons, ih]
      rfl

/-- The rows before they are sorted, where the events are those of some turns. -/
structure RowsOf (db : Db) (c : Uuid) (start stop : Time) (xs : List SettledTurn)
    (rows : List UsageBreakdownRow) : Prop where
  once : (rows.map (·.key)).Nodup
  cost : ∀ r ∈ rows, r.costCents = costOf (keyedTurnsAt db c start stop xs r.key)
  count : ∀ r ∈ rows, r.eventCount = (keyedTurnsAt db c start stop xs r.key).length
  some : ∀ r ∈ rows, keyedTurnsAt db c start stop xs r.key ≠ []
  every : ∀ x ∈ xs, ∀ key, usageKey db c start stop x.event = Option.some key →
    ∃ r ∈ rows, r.key = key
  total : (rows.map (·.costCents)).sum = costOf (keyedTurns db c start stop xs)

theorem EventsAre.rows (H : EventsAre db xs) (hids : ids.Perm (usageEventIds db c start stop)) :
    RowsOf db c start stop xs
      ((Grouping.keys Prod.fst (ids.filterMap (keyedUsage db c start stop))).map
        (usageRow (ids.filterMap (keyedUsage db c start stop)))) := by
  have hperm := H.joined_perm hids
  generalize ids.filterMap (keyedUsage db c start stop) = joined at hperm ⊢
  have hmembers : ∀ key, (Grouping.members Prod.fst joined key).Perm
      ((keyedTurnsAt db c start stop xs key).map fun x => (key, x.event)) := fun key => by
    rw [← members_keyedTurn]
    exact Grouping.members_perm Prod.fst hperm key
  refine ⟨?_, fun r hr => ?_, fun r hr => ?_, fun r hr => ?_, fun x hx key hkey => ?_, ?_⟩
  · rw [List.map_map]
    exact (List.map_id _).symm ▸ Grouping.nodup_keys Prod.fst joined
  · obtain ⟨key, -, rfl⟩ := List.mem_map.1 hr
    have := ((hmembers key).map (·.2.actualCostCents)).sum_eq
    rw [List.map_map] at this
    exact this
  · obtain ⟨key, -, rfl⟩ := List.mem_map.1 hr
    exact (hmembers key).length_eq.trans (List.length_map _)
  · obtain ⟨key, hkey, rfl⟩ := List.mem_map.1 hr
    intro hnil
    have hempty := hmembers key
    rw [show keyedTurnsAt db c start stop xs key = [] from hnil, List.map_nil] at hempty
    exact Grouping.members_ne_nil Prod.fst hkey hempty.eq_nil
  · have hmem : (key, x.event) ∈ joined :=
      hperm.mem_iff.2 (List.mem_filterMap.2 ⟨x, hx, by rw [keyedTurn, hkey]; rfl⟩)
    exact ⟨_, List.mem_map_of_mem ((Grouping.mem_keys Prod.fst).2 ⟨_, hmem, rfl⟩), rfl⟩
  · rw [List.map_map]
    refine (Grouping.sum_groups Prod.fst (fun y => y.2.actualCostCents) joined).trans ?_
    have := ((hperm.map Prod.snd).map (·.actualCostCents)).sum_eq
    rw [map_keyedTurn, List.map_map, List.map_map] at this
    exact this

end Events

/-! ## Against the ledger -/

/-- The bounds of a month are those of the instants that the ledger files under it. -/
theorem monthBounds_of_namesMonth [DecimalDigits] {ym : String} (h : NamesMonth ym) :
    ∃ start stop, monthBoundsUtc ym = .ok (start, stop) ∧
      ∀ t, (start ≤ t ∧ t < stop) ↔ yearMonth t = ym := by
  obtain ⟨year, month, hy₁, hy₂, hm₁, hm₂, hlast, rfl⟩ := h
  have hbounds := (monthBoundsUtc_ok (parts_of_padded year month)).2
    ⟨⟨hy₁, hy₂, hm₁, hm₂, hlast⟩, rfl, rfl⟩
  exact ⟨_, _, hbounds, fun t => (yearMonth_eq_iff hy₁ ⟨hm₁, hm₂⟩ t).symm⟩

section Reported

variable {db : Db} {c : Uuid} {start stop : Time} {ym : String} {x : SettledTurn}

theorem reported_iff (hmonth : ∀ t, (start ≤ t ∧ t < stop) ↔ yearMonth t = ym) :
    (usageKey db c start stop x.event).isSome = Reported db c ym x := by
  rw [Bool.eq_iff_iff, Reported, decide_eq_true_iff, ← hmonth, usageKey]
  split
  · rename_i h
    rw [Option.isSome_map]
    exact ⟨fun hw => ⟨h.1, h.2.1, h.2.2, hw⟩, fun h => h.2.2.2⟩
  · rename_i h
    exact iff_of_false (by simp) fun h' => h ⟨h'.1, h'.2.1, h'.2.2.1.1, h'.2.2.1.2⟩

/-- The turn is reported under this key. -/
def ReportedAs (db : Db) (c : Uuid) (ym : String) (key : UsageKey) (x : SettledTurn) : Bool :=
  Reported db c ym x && decide (x.event.workspaceId = key.1 ∧ x.event.provider = key.2.2.1 ∧
    x.event.model = key.2.2.2)

theorem usageKey_eq_some_iff (hmonth : ∀ t, (start ≤ t ∧ t < stop) ↔ yearMonth t = ym)
    {key : UsageKey} : usageKey db c start stop x.event = some key ↔
      ReportedAs db c ym key x = true ∧
        (joinedWorkspace db c x.event).map (·.name) = some key.2.1 := by
  rw [ReportedAs, Bool.and_eq_true, decide_eq_true_iff, ← reported_iff hmonth, usageKey]
  split
  · cases hw : joinedWorkspace db c x.event with
    | none => simp
    | some w =>
      obtain ⟨w', name, provider, model⟩ := key
      simp only [Option.map_some, Option.isSome_some, true_and, Option.some.injEq, Prod.mk.injEq]
      tauto
  · simp

/-- A reported turn has a key. -/
theorem exists_key_of_reported (hmonth : ∀ t, (start ≤ t ∧ t < stop) ↔ yearMonth t = ym)
    (hx : Reported db c ym x = true) : ∃ key, usageKey db c start stop x.event = some key ∧
      ReportedAs db c ym key x = true := by
  rw [← reported_iff hmonth] at hx
  obtain ⟨key, hkey⟩ := Option.isSome_iff_exists.1 hx
  exact ⟨key, hkey, ((usageKey_eq_some_iff hmonth).1 hkey).1⟩

/-- What a row is about, and what it adds up. -/
theorem keyedTurnsAt_eq (hmonth : ∀ t, (start ≤ t ∧ t < stop) ↔ yearMonth t = ym)
    {xs : List SettledTurn} {key : UsageKey} (hsome : keyedTurnsAt db c start stop xs key ≠ []) :
    (∃ w, row db (.workspace key.1) = some w ∧ w.customerId = c ∧ w.name = key.2.1) ∧
      keyedTurnsAt db c start stop xs key = xs.filter (ReportedAs db c ym key) := by
  obtain ⟨y, hy⟩ := List.exists_mem_of_ne_nil _ hsome
  obtain ⟨hreported, hname⟩ :=
    (usageKey_eq_some_iff hmonth).1 (decide_eq_true_iff.1 (List.mem_filter.1 hy).2)
  rw [ReportedAs, Bool.and_eq_true, decide_eq_true_iff] at hreported
  obtain ⟨-, hworkspace, -⟩ := hreported
  obtain ⟨w, hw, hwname⟩ := Option.map_eq_some_iff.1 hname
  have hjoined : ∀ x : SettledTurn, x.event.workspaceId = key.1 →
      joinedWorkspace db c x.event = some w := fun x hx => by
    rw [joinedWorkspace, hx, ← hworkspace]
    exact hw
  constructor
  · rw [joinedWorkspace, hworkspace] at hw
    obtain ⟨hrow, hc⟩ := Option.filter_eq_some_iff.1 hw
    exact ⟨w, hrow, of_decide_eq_true hc, hwname⟩
  · refine List.filter_congr fun x _ => Bool.eq_iff_iff.2 ?_
    rw [decide_eq_true_iff, usageKey_eq_some_iff hmonth]
    refine and_iff_left_of_imp fun hx => ?_
    rw [ReportedAs, Bool.and_eq_true, decide_eq_true_iff] at hx
    rw [hjoined x hx.2.1, Option.map_some, hwname]

end Reported

/-- **The report, against the ledger.**  In every committed state of every run, whatever
interleaved, the report of a month has one row for each workspace, provider and model that a turn
is reported for, the dearest first; a row has what the turns reported there have cost; and the
report differs from what the ledger row of the month has spent by the turns that were settled in the
month and are not reported, and by those that are reported and were settled in another. -/
theorem usage_report_accounts [Sha256] [JsonText] [Deployment] [DecimalDigits]
    {s : Sys Row Answer Err Reply Request} (hw : WellPriced) (hs : Reachable serve s) {h : Hist}
    (hh : h <:+ s.hist) (c : Uuid) {ym : String} (hym : NamesMonth ym) :
    Alone (fun _ _ _ => True) (fun rows db t => db = committed h ∧ t = {} ∧
        rows.Pairwise (fun a b => b.costCents ≤ a.costCents) ∧ (rows.map (·.key)).Nodup ∧
        (∀ r ∈ rows, 0 < r.eventCount ∧
          (∃ w, row db (.workspace r.workspaceId) = some w ∧ w.customerId = c ∧
            w.name = r.workspaceName) ∧
          r.costCents = costOf ((settledTurns h).filter (ReportedAs db c ym r.key)) ∧
          r.eventCount = ((settledTurns h).filter (ReportedAs db c ym r.key)).length) ∧
        (∀ x ∈ settledTurns h, Reported db c ym x →
          ∃ r ∈ rows, ReportedAs db c ym r.key x) ∧
        (rows.map (·.costCents)).sum +
            costOf ((settledTurns h).filter fun x => SettledIn c ym x && !Reported db c ym x) =
          ((ledgers db).balance c ym).actualCents +
            costOf ((settledTurns h).filter fun x => Reported db c ym x && !SettledIn c ym x))
      (fun _ _ _ => False) (getUsageReport c ym) (committed h) {} := by
  have hb := booked_of_valid hw (hs.faithful.suffix hh)
  have hevents : EventsAre (committed h) (settledTurns h) := ⟨hb.events, hb.distinct⟩
  obtain ⟨start, stop, hbounds, hmonth⟩ := monthBounds_of_namesMonth hym
  have hview : ({} : DbTx).view (committed h) = committed h := rfl
  rw [getUsageReport, hbounds]
  dsimp only
  rw [alone_bind, Session.select, alone_view rfl, hview, alone_bind, alone_call]
  intro order _
  have hrows := hevents.rows order.2
  have hsorted := List.mergeSort_perm ((Grouping.keys Prod.fst (order.1.filterMap
    (keyedUsage (committed h) c start stop))).map (usageRow (order.1.filterMap
      (keyedUsage (committed h) c start stop)))) fun a b => b.costCents ≤ a.costCents
  refine ⟨rfl, rfl, ?_, ?_, fun r hr => ?_, fun x hx hreported => ?_, ?_⟩
  · refine (List.pairwise_mergeSort (fun a b c hab hbc => ?_) (fun a b => ?_) _).imp
      of_decide_eq_true
    · exact decide_eq_true ((of_decide_eq_true hbc).trans (of_decide_eq_true hab))
    · rw [Bool.or_eq_true, decide_eq_true_iff, decide_eq_true_iff]
      exact Int.le_total ..
  · exact (hsorted.map _).nodup_iff.2 hrows.once
  · have hr := hsorted.mem_iff.1 hr
    obtain ⟨hworkspace, hturns⟩ := keyedTurnsAt_eq hmonth (hrows.some r hr)
    refine ⟨?_, hworkspace, hturns ▸ hrows.cost r hr, hturns ▸ hrows.count r hr⟩
    rw [hrows.count r hr]
    exact List.length_pos_iff.2 (hrows.some r hr)
  · obtain ⟨key, hkey, hat⟩ := exists_key_of_reported hmonth hreported
    obtain ⟨r, hr, rfl⟩ := hrows.every x hx key hkey
    exact ⟨r, hsorted.mem_iff.2 hr, hat⟩
  · have hreported : keyedTurns (committed h) c start stop (settledTurns h) =
        (settledTurns h).filter (Reported (committed h) c ym) :=
      List.filter_congr fun x _ => reported_iff hmonth
    rw [(hsorted.map _).sum_eq, hrows.total, hreported, hb.spent c ym]
    exact Grouping.sum_filter_exchange ..

section Sample

attribute [local instance] plainSha plainJsonText sampleDeployment

/-- The digits of ASCII. -/
def plainDigit (c : Char) : Option ℕ := if c.isDigit then some (c.toNat - 48) else none

theorem plainDigit_eq (c : Char) (_ : c.toNat < 128) :
    plainDigit c = if c.isDigit then some (c.toNat - 48) else none := rfl

@[reducible] def plainDigits : DecimalDigits where
  value := plainDigit
  ascii := plainDigit_eq

attribute [local instance] plainDigits

/-- The gateway breaks off after it has reported its usage. -/
def breaksOff (_ : GatewayRequest) : GatewayStream where
  events := [.textDelta "Salom", .completed ⟨40000, 20000, 0⟩ "stop"]
  error := some .modelTimeout

/-- The rows are written; then a turn is completed, and one breaks off. -/
def spendTwice : Option (Sys Row Answer Err Reply Request) :=
  spendOnce.bind fun s => runAll serve s (.start (.chat ⟨3, .AAL1⟩ 2 8 9 "Yana" .STANDARD) ::
    Act.runs 2 (numberedAnswer breaksOff) 37 27)

/-- What the turn that broke off has cost is not in the report. -/
theorem usage_report_accounts_sample : ∃ s, spendTwice = some s ∧
    ((ledgers (committed s.hist)).balance 7 "0001-01").actualCents = 10 ∧
    Alone (fun _ _ _ => True) (fun rows _ _ => (rows.map (·.costCents)).sum = 5)
      (fun _ _ _ => False) (getUsageReport 7 "0001-01") (committed s.hist) {} := by
  have hrun : (spendTwice.any fun (s : Sys Row Answer Err Reply Request) => decide (
      ((ledgers (committed s.hist)).balance 7 "0001-01").actualCents = 10 ∧
      costOf ((settledTurns s.hist).filter fun x => SettledIn 7 "0001-01" x &&
        !Reported (committed s.hist) 7 "0001-01" x) = 5 ∧
      costOf ((settledTurns s.hist).filter fun x =>
        Reported (committed s.hist) 7 "0001-01" x && !SettledIn 7 "0001-01" x) = 0)) = true := by
    decide +kernel
  obtain ⟨s, hst, hr⟩ := (Option.any_eq_true _ _).1 hrun
  obtain ⟨hledger, hleft, hother⟩ := of_decide_eq_true hr
  obtain ⟨s₀, hst₀, hst₁⟩ := Option.bind_eq_some_iff.1 hst
  have hreach := (Reachable.init.runAll hst₀).runAll hst₁
  have hnames : NamesMonth "0001-01" :=
    ⟨1, 1, by decide, by decide, by decide, by decide, by decide, by decide⟩
  refine ⟨s, hst, hledger, (usage_report_accounts sampleDeployment_wellPriced hreach
    (List.suffix_refl _) 7 hnames).mono ?_ fun _ _ _ h => h⟩
  rintro rows db t ⟨rfl, -, -, -, -, -, hsum⟩
  rw [hleft, hledger, hother] at hsum
  omega

end Sample

end Doda
