import Doda.Turn.Turns
import Doda.Domain.Calendar
import Doda.Lib.Regex

/-!
# The months of the usage report

The report asks for a month by a text and filters usage by instants; the ledger has
a text for each instant.  Both select the same instants for the texts that name a
month of the calendar in ASCII digits, December 9999 excepted.  The endpoint's
pattern lets in more: any two digits for the month, and the digits of every script.

## Main definitions

* `yearMonthPattern`, `monthBoundsUtc` — the endpoint's pattern, and the bounds.
* `MonthsMatch` — the bounds and the ledger's text select the same instants.

## Main results

* `months_match_iff` — the texts for which they do.
-/

namespace Doda

/-- The decimal digits of all scripts and their values, for `\d` and for `int`. -/
class DecimalDigits where
  value : Char → Option ℕ
  /-- Within ASCII they are the ten digits. -/
  ascii : ∀ c, c.toNat < 128 → value c = if c.isDigit then some (c.toNat - 48) else none

section Months

variable [DecimalDigits]

/-- `\d`. -/
def isDecimal (c : Char) : Bool := (DecimalDigits.value c).isSome

/-- `^\d{4}-\d{2}$`. -/
def yearMonthPattern : Regex :=
  .seq (.rep isDecimal 4 true) (.seq (.char (· = '-')) (.rep isDecimal 2 true))

/-- `int(part)` of a part of digits, `None` where it raises `ValueError`. -/
def parseInt (part : List Char) : Option ℕ :=
  if part = [] then none
  else part.foldlM (fun n c => (DecimalDigits.value c).map (10 * n + ·)) 0

/-- `_month_bounds_utc`. -/
def monthBoundsUtc (yearMonth : String) : Except Err (Time × Time) :=
  match (yearMonth.toList.splitOn '-').mapM parseInt with
  | some [year, month] =>
    match Time.ofMonth year month,
      if month = 12 then Time.ofMonth (year + 1) 1 else Time.ofMonth year (month + 1) with
    | some start, some stop => .ok (start, stop)
    | _, _ => .error (.builtin "ValueError")
  | _ => .error (.builtin "ValueError")

/-- The bounds are there, and select the instants that the ledger files under the month. -/
def MonthsMatch (yearMonth : String) : Prop :=
  ∃ start stop, monthBoundsUtc yearMonth = .ok (start, stop) ∧
    ∀ t < Time.limit, (start ≤ t ∧ t < stop) ↔ Doda.yearMonth t = yearMonth

/-- The text of a month of the calendar, other than the last that `datetime` has. -/
def NamesMonth (yearMonth : String) : Prop :=
  ∃ year month, 1 ≤ year ∧ year ≤ Time.maxYear ∧ 1 ≤ month ∧ month ≤ 12 ∧
    (year = Time.maxYear → month ≠ 12) ∧
    yearMonth = Time.padded 4 year ++ "-" ++ Time.padded 2 month

/-! ## Reading the text -/

theorem value_of_isDigit {c : Char} (hc : c.isDigit) :
    DecimalDigits.value c = some (c.toNat - 48) := by
  have hlt : c.toNat < 128 := by
    have h9 := (Char.isDigit_iff_toNat.1 hc).2
    exact lt_of_le_of_lt h9 (by decide)
  rw [DecimalDigits.ascii c hlt, if_pos hc]

theorem foldlM_value {part : List Char} (hpart : ∀ c ∈ part, c.isDigit) (n : ℕ) :
    part.foldlM (fun n c => (DecimalDigits.value c).map (10 * n + ·)) n =
      some (Nat.ofDigitChars 10 part n) := by
  induction part generalizing n with
  | nil => rfl
  | cons c part ih =>
    rw [List.foldlM_cons, value_of_isDigit (hpart c List.mem_cons_self), Nat.ofDigitChars_cons]
    exact ih (fun d hd => hpart d (List.mem_cons_of_mem c hd)) _

theorem parseInt_padded {w : ℕ} (n : ℕ) : parseInt (Time.padded w n).toList = some n := by
  have hne : (Time.padded w n).toList ≠ [] := by
    rw [Time.toList_padded]
    simp
  rw [parseInt, if_neg hne, foldlM_value fun c hc => Time.isDigit_of_mem_padded hc,
    Time.ofDigitChars_padded]

omit [DecimalDigits] in
theorem hyphen_not_mem_padded (w n : ℕ) : '-' ∉ (Time.padded w n).toList := by
  intro hmem
  exact absurd (Time.isDigit_of_mem_padded hmem) (by decide)

/-- The text of a month is read as its year and month. -/
theorem parts_of_padded (year month : ℕ) :
    ((Time.padded 4 year ++ "-" ++ Time.padded 2 month).toList.splitOn '-').mapM parseInt =
      some [year, month] := by
  have htext : (Time.padded 4 year ++ "-" ++ Time.padded 2 month).toList =
      (Time.padded 4 year).toList ++ '-' :: (Time.padded 2 month).toList := by simp
  rw [htext, List.splitOn_append_cons_self_of_not_mem (hyphen_not_mem_padded _ _),
    List.splitOn_eq_singleton (hyphen_not_mem_padded _ _)]
  simp [parseInt_padded]

/-! ## Bounds -/

omit [DecimalDigits] in
theorem ofMonth_eq_some_iff {year month : ℕ} {t : Time} : Time.ofMonth year month = some t ↔
    (1 ≤ year ∧ year ≤ Time.maxYear ∧ 1 ≤ month ∧ month ≤ 12) ∧
      t = Time.firstDay year month * Time.dayLength := by
  rw [Time.ofMonth]
  split
  · simp [*, eq_comm]
  · simp [*]

/-- The bounds of a text that is read as a year and a month. -/
theorem monthBoundsUtc_ok {s : String} {year month : ℕ} {start stop : Time}
    (hparts : (s.toList.splitOn '-').mapM parseInt = some [year, month]) :
    monthBoundsUtc s = .ok (start, stop) ↔
      (1 ≤ year ∧ year ≤ Time.maxYear ∧ 1 ≤ month ∧ month ≤ 12 ∧
        (year = Time.maxYear → month ≠ 12)) ∧
      start = Time.firstDay year month * Time.dayLength ∧
      stop = Time.nextFirstDay year month * Time.dayLength := by
  rw [monthBoundsUtc, hparts]
  dsimp only
  constructor
  · intro h
    split at h
    · rename_i start' stop' hstart hstop
      cases h
      obtain ⟨⟨hy₁, hy₂, hm₁, hm₂⟩, rfl⟩ := ofMonth_eq_some_iff.1 hstart
      rw [Time.nextFirstDay]
      split at hstop
      · obtain ⟨hnext, rfl⟩ := ofMonth_eq_some_iff.1 hstop
        rw [if_pos ‹_›]
        exact ⟨⟨hy₁, hy₂, hm₁, hm₂, by omega⟩, rfl, rfl⟩
      · obtain ⟨-, rfl⟩ := ofMonth_eq_some_iff.1 hstop
        rw [if_neg ‹_›]
        exact ⟨⟨hy₁, hy₂, hm₁, hm₂, fun _ => ‹_›⟩, rfl, rfl⟩
    · cases h
  · rintro ⟨⟨hy₁, hy₂, hm₁, hm₂, hlast⟩, rfl, rfl⟩
    have hstart := ofMonth_eq_some_iff.2 ⟨⟨hy₁, hy₂, hm₁, hm₂⟩, rfl⟩
    have hstop : (if month = 12 then Time.ofMonth (year + 1) 1 else Time.ofMonth year (month + 1)) =
        some (Time.nextFirstDay year month * Time.dayLength) := by
      rw [Time.nextFirstDay]
      split
      · exact ofMonth_eq_some_iff.2 ⟨by omega, rfl⟩
      · exact ofMonth_eq_some_iff.2 ⟨by omega, rfl⟩
    rw [hstart, hstop]

/-- Bounds come from a year and a month. -/
theorem exists_parts {s : String} {p : Time × Time} (h : monthBoundsUtc s = .ok p) :
    ∃ year month, (s.toList.splitOn '-').mapM parseInt = some [year, month] := by
  rw [monthBoundsUtc] at h
  split at h
  · exact ⟨_, _, ‹_›⟩
  · cases h

omit [DecimalDigits] in
/-- The ledger's text of an instant within a month. -/
theorem yearMonth_eq_iff {year month : ℕ} (hyear : 1 ≤ year) (hmonth : 1 ≤ month ∧ month ≤ 12)
    (t : Time) :
    yearMonth t = Time.padded 4 year ++ "-" ++ Time.padded 2 month ↔
      Time.firstDay year month * Time.dayLength ≤ t ∧
        t < Time.nextFirstDay year month * Time.dayLength := by
  have htext : yearMonth t = Time.padded 4 year ++ "-" ++ Time.padded 2 month ↔
      (Time.date (t / Time.dayLength)).1 = year ∧ (Time.date (t / Time.dayLength)).2.1 = month := by
    constructor
    · intro h
      have hlist := congrArg String.toList h
      simp only [yearMonth, String.toList_append, List.append_assoc] at hlist
      obtain ⟨hy, -, hrest⟩ := Time.padded_append_inj (x := '-') (y := '-') rfl rfl hlist
      have hdigits : (Time.padded 2 (Time.date (t / Time.dayLength)).2.1).toList =
          (Time.padded 2 month).toList := hrest
      refine ⟨hy, ?_⟩
      rw [← Time.ofDigitChars_padded 2 month, ← hdigits, Time.ofDigitChars_padded]
    · rintro ⟨rfl, rfl⟩
      rfl
  have hpos : 0 < Time.dayLength := by decide
  rw [htext, Time.month_iff hyear hmonth, Nat.le_div_iff_mul_le hpos, Nat.div_lt_iff_lt_mul hpos]

omit [DecimalDigits] in
/-- A month is within the range of `datetime`. -/
theorem firstDay_lt_limit {year month : ℕ} (hyear : 1 ≤ year ∧ year ≤ Time.maxYear)
    (hmonth : 1 ≤ month ∧ month ≤ 12) :
    Time.firstDay year month * Time.dayLength < Time.limit := by
  obtain ⟨n, rfl⟩ : ∃ n, year = n + 1 := ⟨year - 1, by omega⟩
  refine Nat.mul_lt_mul_of_pos_right ?_ (by decide)
  calc Time.firstDay (n + 1) month
      < Time.nextFirstDay (n + 1) month := Time.firstDay_lt_next hmonth
    _ ≤ Time.daysBeforeYear (n + 2) := Time.nextFirstDay_le hmonth.2
    _ ≤ Time.daysBeforeYear (Time.maxYear + 1) := Time.daysBeforeYear_mono (by omega)

omit [DecimalDigits] in
theorem length_padded {w n : ℕ} (hw : 0 < w) (hn : n < 10 ^ w) :
    (Time.padded w n).toList.length = w := by
  have hle : (Nat.toDigits 10 n).length ≤ w := (Nat.length_toDigits_le_iff (by decide) hw).2 hn
  have hlength : (toString n).length = (Nat.toDigits 10 n).length := by
    rw [← String.length_toList]
    exact congrArg List.length Nat.toList_repr
  rw [Time.toList_padded, List.length_append, List.length_replicate, hlength]
  omega

theorem isDecimal_padded {w n : ℕ} : ∀ c ∈ (Time.padded w n).toList, isDecimal c = true := by
  intro c hc
  rw [isDecimal, value_of_isDigit (Time.isDigit_of_mem_padded hc)]
  rfl

/-- The pattern lets every month in. -/
theorem accepts_of_namesMonth {s : String} (h : NamesMonth s) :
    yearMonthPattern.Accepts s.toList := by
  obtain ⟨year, month, -, hy, -, hm, -, rfl⟩ := h
  have hylength := length_padded (w := 4) (by decide) (Nat.lt_succ_of_le hy)
  have hmlength := length_padded (w := 2) (n := month) (by decide) (by omega)
  refine ⟨(Time.padded 4 year).toList, '-' :: (Time.padded 2 month).toList, by simp,
    ⟨hylength.ge, fun _ => hylength, isDecimal_padded⟩, ['-'], _, rfl, ⟨'-', rfl, rfl⟩,
    ⟨hmlength.ge, fun _ => hmlength, isDecimal_padded⟩⟩

/-- Wherever the bounds match the ledger's text, the text names a month. -/
theorem matches_iff_namesMonth (s : String) : MonthsMatch s ↔ NamesMonth s := by
  constructor
  · rintro ⟨start, stop, hbounds, hselect⟩
    obtain ⟨year, month, hparts⟩ := exists_parts hbounds
    obtain ⟨⟨hy₁, hy₂, hm₁, hm₂, hlast⟩, rfl, rfl⟩ := (monthBoundsUtc_ok hparts).1 hbounds
    have hlt : Time.firstDay year month * Time.dayLength <
        Time.nextFirstDay year month * Time.dayLength := by
      obtain ⟨n, rfl⟩ : ∃ n, year = n + 1 := ⟨year - 1, by omega⟩
      exact Nat.mul_lt_mul_of_pos_right (Time.firstDay_lt_next ⟨hm₁, hm₂⟩) (by decide)
    -- the first instant of the month is filed under its own text
    have hfiled := (hselect _ (firstDay_lt_limit ⟨hy₁, hy₂⟩ ⟨hm₁, hm₂⟩)).1 ⟨Nat.le_refl _, hlt⟩
    rw [(yearMonth_eq_iff hy₁ ⟨hm₁, hm₂⟩ _).2 ⟨Nat.le_refl _, hlt⟩] at hfiled
    exact ⟨year, month, hy₁, hy₂, hm₁, hm₂, hlast, hfiled.symm⟩
  · rintro ⟨year, month, hy₁, hy₂, hm₁, hm₂, hlast, rfl⟩
    have hbounds := (monthBoundsUtc_ok (parts_of_padded year month)).2
      ⟨⟨hy₁, hy₂, hm₁, hm₂, hlast⟩, rfl, rfl⟩
    exact ⟨_, _, hbounds, fun t _ => (yearMonth_eq_iff hy₁ ⟨hm₁, hm₂⟩ t).symm⟩

/-- **The accepted texts whose months match** are those that name a month, and all of
these are accepted. -/
theorem months_match_iff (s : String) :
    (yearMonthPattern.Accepts s.toList → (MonthsMatch s ↔ NamesMonth s)) ∧
      (NamesMonth s → yearMonthPattern.Accepts s.toList) :=
  ⟨fun _ => matches_iff_namesMonth s, accepts_of_namesMonth⟩

end Months

/-- The digits of ASCII alone. -/
private abbrev asciiDigits : DecimalDigits where
  value c := if c.isDigit then some (c.toNat - 48) else none
  ascii _ _ := rfl

/-- The pattern lets in a thirteenth month, which has no bounds. -/
theorem thirteenth_month :
    ¬ ∀ [DecimalDigits] (s : String), yearMonthPattern.Accepts s.toList → MonthsMatch s := by
  intro h
  let digits := asciiDigits
  have haccepts : yearMonthPattern.Accepts "2026-13".toList :=
    ⟨['2', '0', '2', '6'], ['-', '1', '3'], rfl,
      ⟨by decide, fun _ => rfl, List.all_eq_true.1 rfl⟩, ['-'], ['1', '3'], rfl,
      ⟨'-', rfl, rfl⟩, by decide, fun _ => rfl, List.all_eq_true.1 rfl⟩
  obtain ⟨start, stop, hbounds, -⟩ := h "2026-13" haccepts
  have hnone : monthBoundsUtc "2026-13" = .error (.builtin "ValueError") := by decide
  rw [hnone] at hbounds
  cases hbounds

end Doda
