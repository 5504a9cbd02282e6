import Doda.Budget.Bookings
import Doda.Lib.Rounding

/-!
# The ledger drifts from what the tokens cost

Each settled turn adds its own cost to the ledger, rounded to a whole number of cents.
The roundings are never evened out.  A turn that is entered at a cent or more uses up the cap
of the month, so there are not many; but turns that round to nothing are admitted without end,
and the row stays near the exact cost of its turns only if such turns cost nothing.

Prices are exact rationals here, and `round` is rounding to the nearest even.

## Main definitions

* `exactCents` — what tokens cost at a price.
* `CompletedTurn`, `CompletedTurn.settle` — a turn, and what it does to its ledger row.
* `ledgerAfter` — the row after some turns, if the cap admits them.
* `CompletedTurn.Noticed` — a turn that costs nothing, or is entered as something.

## Main results

* `settled_ledgerAfter` — every committed row is the row after its settled turns.
* `ledger_near_cost_iff` — when it stays near their cost.
* `ledger_drifts` — it does not in general.
-/

namespace Doda

open ReadCommitted Rounding

/-- What tokens cost, in cents. -/
def exactCents (pricing : ModelPricing) (inputTokens outputTokens : ℤ) : ℚ :=
  (inputTokens * pricing.inputPerMillion + outputTokens * pricing.outputPerMillion) / 1000000

theorem exactCents_nonneg (pricing : ModelPricing) {u : GatewayUsage} (hu : u.Counted) :
    0 ≤ exactCents pricing u.inputTokens u.outputTokens := by
  have hinput : (0 : ℚ) ≤ u.inputTokens := by exact_mod_cast hu.1
  have houtput : (0 : ℚ) ≤ u.outputTokens := by exact_mod_cast hu.2
  unfold exactCents
  positivity

/-- A turn that has completed on a model with a price. -/
structure CompletedTurn where
  provider : Provider
  model : String
  pricing : ModelPricing
  listed : (modelPricing provider).lookup model = some pricing
  /-- What the gateways reported. -/
  usage : GatewayUsage
  counted : usage.Counted
  estimatedCents : ℤ
  estimated : 0 ≤ estimatedCents

namespace CompletedTurn

/-- What its tokens cost. -/
def exactCents (t : CompletedTurn) : ℚ :=
  Doda.exactCents t.pricing t.usage.inputTokens t.usage.outputTokens

theorem exactCents_nonneg (t : CompletedTurn) : 0 ≤ t.exactCents :=
  Doda.exactCents_nonneg t.pricing t.counted

/-- The usage event of the turn. -/
structure RecordedBy (t : CompletedTurn) (u : AIUsageEvent) : Prop where
  provider : u.provider = t.provider
  model : u.model = t.model
  usage : u.usage = t.usage
  estimatedCostCents : u.estimatedCostCents = t.estimatedCents
  actualCostCents : u.actualCostCents = roundEven t.exactCents

variable [Deployment]

/-- What the turn does to its ledger row: it reserves its estimate, if the cap admits it, and
settles. -/
def settle (ledger : AIBudgetLedger) (t : CompletedTurn) : Option AIBudgetLedger :=
  if ledger.reservedCents + ledger.actualCents + t.estimatedCents > settings.budgetHardCents then
    none
  else some (reconcileOp t.estimatedCents (roundEven t.exactCents)
    (reserveOp t.estimatedCents ledger))

theorem settle_eq {ledger : AIBudgetLedger} {t : CompletedTurn}
    (h : ledger.reservedCents + ledger.actualCents + t.estimatedCents ≤ settings.budgetHardCents) :
    settle ledger t = some (reconcileOp t.estimatedCents (roundEven t.exactCents)
      (reserveOp t.estimatedCents ledger)) := if_neg (not_lt.2 h)

end CompletedTurn

/-- What the tokens of some turns cost together. -/
def totalCents (turns : List CompletedTurn) : ℚ := (turns.map CompletedTurn.exactCents).sum

section Deployment

variable [Deployment]

/-- The row of a month after some turns, the oldest first; none if the cap refuses one. -/
def ledgerAfter (turns : List CompletedTurn) : Option AIBudgetLedger :=
  turns.foldlM CompletedTurn.settle {}

theorem ledgerAfter_concat {turns : List CompletedTurn} {ledger : AIBudgetLedger}
    (h : ledgerAfter turns = some ledger) (t : CompletedTurn) :
    ledgerAfter (turns ++ [t]) = CompletedTurn.settle ledger t := by
  rw [ledgerAfter, List.foldlM_append]
  rw [ledgerAfter] at h
  simp [h]

/-- The cap admits the turns, one after another. -/
abbrev WithinCap (spent : ℤ) (turns : List CompletedTurn) : Prop :=
  Affordable CompletedTurn.estimatedCents CompletedTurn.exactCents settings.budgetHardCents spent
    turns

theorem foldlM_settle_iff (turns : List CompletedTurn) (spent : ℤ) (ledger : AIBudgetLedger) :
    turns.foldlM CompletedTurn.settle ⟨0, spent⟩ = some ledger ↔ WithinCap spent turns ∧
      ledger = ⟨0, spent + (turns.map fun t => roundEven t.exactCents).sum⟩ := by
  induction turns generalizing spent with
  | nil => simp [Affordable, eq_comm]
  | cons t turns ih =>
    rw [List.foldlM_cons]
    by_cases hcap : spent + t.estimatedCents ≤ settings.budgetHardCents
    · have hsettle : CompletedTurn.settle ⟨0, spent⟩ t =
          some ⟨0, spent + roundEven t.exactCents⟩ := by
        rw [CompletedTurn.settle_eq (by simpa using hcap)]
        simp [reconcileOp, reserveOp]
      rw [hsettle, Option.bind_eq_bind, Option.bind_some, ih, List.map_cons, List.sum_cons,
        add_assoc]
      exact and_congr_left fun _ => (and_iff_right hcap).symm
    · have hsettle : CompletedTurn.settle ⟨0, spent⟩ t = none :=
        if_pos (by simpa using hcap)
      rw [hsettle]
      exact iff_of_false nofun fun h => hcap h.1.1

/-- **Costs are rounded turn by turn**, within the cap. -/
theorem ledgerAfter_iff {turns : List CompletedTurn} {ledger : AIBudgetLedger} :
    ledgerAfter turns = some ledger ↔ WithinCap 0 turns ∧
      ledger = ⟨0, (turns.map fun t => roundEven t.exactCents).sum⟩ := by
  have := foldlM_settle_iff turns 0 ledger
  rwa [zero_add] at this

end Deployment

/-! ## The turns of the system -/

section Settled

variable [Sha256] [JsonText] [Deployment] {h : Hist}

/-- The cost of a turn is computed without error and rounded. -/
def RoundsExactly : Prop :=
  ∀ pricing input output, Deployment.costCents pricing input output =
    roundEven (exactCents pricing input output)

/-- The turns that were settled in a month of a customer, the oldest first. -/
def turnsOf (c : Uuid) (ym : String) (xs : List SettledTurn) : List SettledTurn :=
  xs.reverse.filter fun x => x.event.customerId = c ∧ yearMonth x.settledAt = ym

omit [Sha256] [JsonText] in
/-- A settled turn is recorded as it completed. -/
theorem Accounted.recorded {e : TurnContext} {s₁ : Turn} {ms : List Mark} {r₁ : Except Err Unit}
    {v : Ledgers} {t t' : Time} {pricing : ModelPricing}
    (hacc : Accounted e r₁ s₁ v ms t t' pricing) (hr : RoundsExactly)
    (hestimate : 0 ≤ e.totalEstimateCents) (hcounted : s₁.totalUsage.Counted) :
    ∀ x ∈ settledTurn ms, ∃ turn : CompletedTurn, turn.RecordedBy x.event := by
  obtain ⟨id, createdAt, husage⟩ := hacc.usage
  rw [settledTurn, hacc.months, husage]
  refine List.forall_mem_singleton.2 ⟨⟨s₁.choice.provider, s₁.choice.model, pricing, hacc.priced,
    s₁.totalUsage, hcounted, e.totalEstimateCents, hestimate⟩, rfl, rfl, rfl, rfl, ?_⟩
  exact hr ..

/-- **Every settled turn** is recorded as it completed. -/
theorem recorded_of_valid (hw : WellPriced) (hr : RoundsExactly)
    (hv : (faithful serve).Valid h) (hc : Counted h) :
    ∀ x ∈ settledTurns h, ∃ turn : CompletedTurn, turn.RecordedBy x.event := by
  induction h with
  | nil => exact List.forall_mem_nil _
  | cons ev h ih =>
    have ih := ih hv.2 fun p q x hx => hc p q x (List.mem_cons_of_mem _ hx)
    cases ev with
    | committed p w =>
      refine List.forall_mem_append.2 ⟨?_, ih⟩
      rcases course_of_commits hv.2 hv.1 with hms | ⟨e, s, r₁, s₁, r₂, hest, hcourse, hend⟩
      · rw [settledTurn_of_distant hms]
        exact List.forall_mem_nil _
      · obtain ⟨ml, hl, hsub⟩ := hcourse.loop
        have hpriced : s₁.pricing ≠ none := by
          obtain ⟨pricing, hp, -⟩ := hest.estimate
          exact hl.listed hw (by simp [hp])
        obtain rfl := hend.resolve_right hpriced
        obtain ⟨t, t', pricing, hacc⟩ := hcourse.accounted (ledgers_commit hv.1).2
        refine hacc.recorded hr (hest.nonneg hw) (hl.counted hest.unused fun q x hx => ?_)
        obtain ⟨ev, hev, hmark⟩ := mem_trace.1 (hsub hx)
        obtain ⟨p', rfl⟩ := shownBy_of_mark hmark
        exact hc p' q x (List.mem_cons_of_mem _ (mem_opened hev).1)
    | ran | called | failed | rolledBack | crashed => exact ih

omit [Sha256] [JsonText] in
/-- **A month's bookings are its turns**: what the cap has admitted is what the account holds. -/
theorem exists_ledgerAfter {xs : List SettledTurn} (c : Uuid) (ym : String)
    (hrecorded : ∀ x ∈ xs, ∃ turn : CompletedTurn, turn.RecordedBy x.event)
    (hchecked : Reservation.Checked settings.budgetHardCents (xs.map SettledTurn.booking))
    (hmonth : ∀ x ∈ xs, yearMonth x.reservedAt = yearMonth x.settledAt) :
    ∃ turns : List CompletedTurn,
      List.Forall₂ (fun x turn => turn.RecordedBy x.event) (turnsOf c ym xs) turns ∧
      ledgerAfter turns =
        some ⟨(Reservation.accounts (xs.map SettledTurn.booking) (c, ym)).reserved,
          (Reservation.accounts (xs.map SettledTurn.booking) (c, ym)).spent⟩ := by
  induction xs with
  | nil => exact ⟨[], .nil, rfl⟩
  | cons x xs ih =>
    obtain ⟨⟨turn, hturn⟩, hrecorded⟩ := List.forall_mem_cons.1 hrecorded
    obtain ⟨hsame, hmonth⟩ := List.forall_mem_cons.1 hmonth
    obtain ⟨turns, hturns, hledger⟩ := ih hrecorded
      hchecked.tail hmonth
    have hcap := hchecked _ _ (List.suffix_refl _)
    have hbooking : x.booking.taken = x.booking.released := by
      rw [SettledTurn.booking, hsame]
    rw [turnsOf, List.reverse_cons, List.filter_append]
    by_cases hx : x.event.customerId = c ∧ yearMonth x.settledAt = ym
    · -- the turn is settled on the row of the month
      have hreleased : x.booking.released = (c, ym) := Prod.ext hx.1 hx.2
      refine ⟨turns ++ [turn], ?_, ?_⟩
      · rw [List.filter_cons_of_pos (by simpa using hx), List.filter_nil]
        exact List.rel_append hturns (.cons hturn .nil)
      · have haccount : Reservation.accounts (x.booking :: xs.map SettledTurn.booking) (c, ym) =
            ⟨max 0 ((Reservation.accounts (xs.map SettledTurn.booking) (c, ym)).reserved +
              turn.estimatedCents - turn.estimatedCents),
              (Reservation.accounts (xs.map SettledTurn.booking) (c, ym)).spent +
                roundEven turn.exactCents⟩ := by
          rw [← hreleased, Reservation.accounts_cons_released, ← hbooking,
            Reservation.reserve_taken, ← hturn.estimatedCostCents, ← hturn.actualCostCents]
          rfl
        rw [hbooking, hreleased] at hcap
        rw [List.map_cons, haccount, ledgerAfter_concat hledger, CompletedTurn.settle_eq]
        · rfl
        · rw [← hturn.estimatedCostCents]
          exact hcap
    · refine ⟨turns, ?_, ?_⟩
      · rw [List.filter_cons_of_neg (by simpa using hx), List.filter_nil, List.append_nil]
        exact hturns
      · have hne : (c, ym) ≠ x.booking.released := fun heq => hx (Prod.ext_iff.1 heq.symm)
        rw [List.map_cons, Reservation.accounts_cons_of_ne hne,
          Reservation.reserve_of_ne _ (hbooking ▸ hne)]
        exact hledger

/-- **Every committed row is the row after its settled turns**, each admitted by the cap. -/
theorem settled_ledgerAfter (hw : WellPriced) (hr : RoundsExactly)
    (hv : (faithful serve).Valid h) (hc : Counted h)
    (hmonth : ∀ x ∈ settledTurns h, yearMonth x.reservedAt = yearMonth x.settledAt)
    (c : Uuid) (ym : String) : ∃ turns : List CompletedTurn,
      List.Forall₂ (fun x turn => turn.RecordedBy x.event) (turnsOf c ym (settledTurns h)) turns ∧
      ledgerAfter turns = some ((ledgers (committed h)).balance c ym) := by
  have hb := booked_of_valid hw hv
  obtain ⟨turns, hturns, hledger⟩ := exists_ledgerAfter c ym (recorded_of_valid hw hr hv hc)
    hb.checked hmonth
  refine ⟨turns, hturns, hledger.trans ?_⟩
  change some (AIBudgetLedger.mk (Reservation.accounts (bookings h) (c, ym)).reserved _) = _
  rw [← bookings, ← hb.rows]
  rfl

end Settled

/-! ## Drift -/

section Drift

variable [Deployment]

/-- If the cap admits the turn, it costs nothing, or more than half a cent. -/
def CompletedTurn.Noticed (t : CompletedTurn) : Prop :=
  t.estimatedCents ≤ settings.budgetHardCents → t.exactCents = 0 ∨ 1 / 2 < t.exactCents

theorem sub_totalCents_eq {turns : List CompletedTurn} {ledger : AIBudgetLedger}
    (h : ledgerAfter turns = some ledger) :
    (ledger.actualCents : ℚ) - totalCents turns = drift CompletedTurn.exactCents turns := by
  obtain ⟨-, rfl⟩ := ledgerAfter_iff.1 h
  rfl

/-- **Half a cent for each cent of the cap** is as far as the row gets from the cost of turns that
it notices. -/
theorem abs_sub_totalCents_le {turns : List CompletedTurn} {ledger : AIBudgetLedger}
    (h : ledgerAfter turns = some ledger) (hturns : ∀ t ∈ turns, t.Noticed) :
    |(ledger.actualCents : ℚ) - totalCents turns| ≤ (settings.budgetHardCents + 1).toNat / 2 := by
  have hnoticed : ∀ t ∈ {t : CompletedTurn | t.Noticed},
      t.estimatedCents ≤ settings.budgetHardCents → t.exactCents = 0 ∨ 1 / 2 < t.exactCents :=
    fun _ ht => ht
  rw [sub_totalCents_eq h, ← sub_zero settings.budgetHardCents]
  exact (ledgerAfter_iff.1 h).1.abs_drift_le CompletedTurn.exactCents_nonneg
    CompletedTurn.estimated hnoticed le_rfl hturns

/-- **How far the row may be from the cost**, over the turns of a kind. -/
theorem drift_bounded_iff_noticed (kind : Set CompletedTurn) :
    (∃ B : ℚ, ∀ turns ledger, (∀ t ∈ turns, t ∈ kind) → ledgerAfter turns = some ledger →
      |(ledger.actualCents : ℚ) - totalCents turns| ≤ B) ↔ ∀ t ∈ kind, t.Noticed := by
  refine Iff.trans ?_
    (drift_bounded_iff CompletedTurn.exactCents_nonneg CompletedTurn.estimated kind)
  refine exists_congr fun B => forall_congr' fun turns => ?_
  constructor
  · intro h hkind haffordable
    have hledger := ledgerAfter_iff.2 ⟨haffordable, rfl⟩
    have hle := h _ hkind hledger
    rwa [sub_totalCents_eq hledger] at hle
  · intro h ledger hkind hledger
    rw [sub_totalCents_eq hledger]
    exact h hkind (ledgerAfter_iff.1 hledger).1

end Drift

/-- **The ledger stays near the cost exactly where no turn goes unnoticed.**  In every run, the row
of a month is the row after the turns that were settled in it, each of which the cap admitted; so
it is within half a cent of their cost for each cent of the cap, if it notices each.  And over all
sequences of turns of some kind that the cap admits, the difference is bounded if and only if every
turn of that kind is noticed. -/
theorem ledger_near_cost_iff [Sha256] [JsonText] [Deployment] (hw : WellPriced)
    (hr : RoundsExactly) (kind : Set CompletedTurn) :
    (∀ s : Sys Row Answer Err Reply Request, Reachable serve s → Counted s.hist →
      (∀ x ∈ settledTurns s.hist, yearMonth x.reservedAt = yearMonth x.settledAt) → ∀ c ym,
        ∃ turns : List CompletedTurn,
          List.Forall₂ (fun x turn => turn.RecordedBy x.event) (turnsOf c ym (settledTurns s.hist))
            turns ∧
          ledgerAfter turns = some ((ledgers (committed s.hist)).balance c ym) ∧
          ((∀ t ∈ turns, t.Noticed) →
            |(((ledgers (committed s.hist)).balance c ym).actualCents : ℚ) - totalCents turns| ≤
              (settings.budgetHardCents + 1).toNat / 2)) ∧
    ((∃ B : ℚ, ∀ turns ledger, (∀ t ∈ turns, t ∈ kind) → ledgerAfter turns = some ledger →
      |(ledger.actualCents : ℚ) - totalCents turns| ≤ B) ↔ ∀ t ∈ kind, t.Noticed) := by
  refine ⟨fun s hs hc hmonth c ym => ?_, drift_bounded_iff_noticed kind⟩
  obtain ⟨turns, hturns, hledger⟩ := settled_ledgerAfter hw hr hs.faithful hc hmonth c ym
  exact ⟨turns, hturns, hledger, abs_sub_totalCents_le hledger⟩

/-! ## Sample turns -/

section Sample

/-- The sample deployment, with exact costs. -/
@[reducible] def exactDeployment : Deployment :=
  { sampleDeployment with
    costCents := fun pricing input output => roundEven (exactCents pricing input output) }

attribute [local instance] plainSha plainJsonText exactDeployment

theorem exactDeployment_wellPriced : WellPriced where
  nonneg pricing input output hinput houtput :=
    roundEven_nonneg (exactCents_nonneg pricing (u := ⟨input, output, 0⟩) ⟨hinput, houtput⟩)
  output mode := by cases mode <;> decide
  listed provider _ := by cases provider <;> decide +kernel

/-- A gateway that answers in a word. -/
def answersBriefly (_ : GatewayRequest) : GatewayStream where
  events := [.textDelta "Salom", .completed ⟨40, 20, 0⟩ "stop"]

/-- The rows are written; then two messages are posted. -/
def spendLittle : Option (Sys Row Answer Err Reply Request) :=
  runAll serve {} (.start (.housekeeping sampleRows) ::
    Act.runs 0 (numberedAnswer answersBriefly) 0 6 ++
    .start (.chat ⟨3, .AAL1⟩ 2 8 9 "Salom" .STANDARD) ::
    Act.runs 1 (numberedAnswer answersBriefly) 6 31 ++
    .start (.chat ⟨3, .AAL1⟩ 2 8 10 "Rahmat" .STANDARD) ::
    Act.runs 2 (numberedAnswer answersBriefly) 37 30)

/-- The usage that the event reports is of natural numbers. -/
def countsUp : Event Row Answer → Bool
  | .called _ (.streamChat _) x => x.events.all fun
    | .completed u _ => 0 ≤ u.inputTokens && 0 ≤ u.outputTokens
    | _ => true
  | _ => true

theorem counted_of_countsUp {h : Hist} (hh : ∀ ev ∈ h, countsUp ev = true) : Counted h := by
  intro p r x hx u reason hu
  have := List.all_eq_true.1 (hh _ hx) _ hu
  simpa [GatewayUsage.Counted] using this

/-- Two turns are entered as nothing; and turns of more than half a cent are always near enough. -/
theorem ledger_near_cost_iff_sample : ∃ s, spendLittle = some s ∧
    (∃ turns : List CompletedTurn,
      (turns.map fun t => (t.usage.inputTokens, t.usage.outputTokens)) = [(40, 20), (40, 20)] ∧
      ledgerAfter turns = some ((ledgers (committed s.hist)).balance 7 "0001-01") ∧
      ((ledgers (committed s.hist)).balance 7 "0001-01").actualCents = 0) ∧
    ∃ B : ℚ, ∀ turns ledger, (∀ t ∈ turns, t ∈ {t : CompletedTurn | 1 / 2 < t.exactCents}) →
      ledgerAfter turns = some ledger → |(ledger.actualCents : ℚ) - totalCents turns| ≤ B := by
  have hrun : (spendLittle.any fun (s : Sys Row Answer Err Reply Request) =>
      decide (((turnsOf 7 "0001-01" (settledTurns s.hist)).map fun x =>
        (x.event.usage.inputTokens, x.event.usage.outputTokens)) = [(40, 20), (40, 20)] ∧
      ((ledgers (committed s.hist)).balance 7 "0001-01").actualCents = 0 ∧
      (∀ ev ∈ s.hist, countsUp ev = true) ∧
      ∀ x ∈ settledTurns s.hist, yearMonth x.reservedAt = yearMonth x.settledAt)) = true := by
    decide +kernel
  obtain ⟨s, hst, hr⟩ := (Option.any_eq_true _ _).1 hrun
  obtain ⟨husage, hactual, hcounts, hmonths⟩ := of_decide_eq_true hr
  obtain ⟨hruns, hiff⟩ := ledger_near_cost_iff exactDeployment_wellPriced (fun _ _ _ => rfl)
    {t : CompletedTurn | 1 / 2 < t.exactCents}
  refine ⟨s, hst, ?_, hiff.2 ?_⟩
  · obtain ⟨turns, hturns, hledger, -⟩ := hruns s (Reachable.init.runAll hst)
      (counted_of_countsUp hcounts) hmonths 7 "0001-01"
    refine ⟨turns, ?_, hledger, hactual⟩
    rw [← husage]
    clear hledger husage
    generalize turnsOf 7 "0001-01" (settledTurns s.hist) = xs at hturns
    induction hturns with
    | nil => rfl
    | cons hrecorded _ ih => rw [List.map_cons, List.map_cons, ih, hrecorded.usage]
  · exact fun t ht _ => .inr ht

/-- A turn of one token each way. -/
def sampleTurn : CompletedTurn where
  provider := .OPENAI
  model := "gpt-5-nano"
  pricing := ⟨5, 40⟩
  listed := rfl
  usage := { inputTokens := 1, outputTokens := 1 }
  counted := ⟨by decide, by decide⟩
  estimatedCents := 0
  estimated := le_rfl

theorem exactCents_sampleTurn : sampleTurn.exactCents = 45 / 1000000 := by
  norm_num [CompletedTurn.exactCents, exactCents, sampleTurn]

/-- **There is no bound**: such turns are entered as nothing, so the cap admits any number of them,
and a million of them cost 45 cents. -/
theorem ledger_drifts :
    ¬ ∃ B : ℚ, ∀ turns ledger, ledgerAfter turns = some ledger →
      |(ledger.actualCents : ℚ) - totalCents turns| ≤ B := by
  rintro ⟨B, hB⟩
  have hnoticed := (drift_bounded_iff_noticed Set.univ).1
    ⟨B, fun turns ledger _ => hB turns ledger⟩ sampleTurn (Set.mem_univ _)
  have hcosts := hnoticed (by decide)
  rw [exactCents_sampleTurn] at hcosts
  norm_num at hcosts

end Sample

end Doda
