import Doda.Domain.Isoformat

/-!
# Months of the calendar

`datetime(year, month, 1)` counts the days before the year and before the month;
`Time.date` goes the other way, by cycles.  A day's year and month are those whose
first day it does not precede and whose last day it does not follow.

## Main definitions

* `Time.ofMonth` — `datetime(year, month, 1, tzinfo=UTC)`.
* `Time.limit` — the end of year 9999, where `datetime` ends.

## Main results

* `Time.month_iff` — the days of a month.
-/

namespace Doda.Time

/-- `datetime.MAXYEAR`. -/
def maxYear : ℕ := 9999

/-- The leap years. -/
def isLeap (year : ℕ) : Bool := year % 4 = 0 ∧ (year % 100 ≠ 0 ∨ year % 400 = 0)

/-- The days before 1 January. -/
def daysBeforeYear (year : ℕ) : ℕ :=
  365 * (year - 1) + (year - 1) / 4 - (year - 1) / 100 + (year - 1) / 400

/-- The first day of a month. -/
def firstDay (year month : ℕ) : ℕ := daysBeforeYear year + daysBeforeMonth (isLeap year) month

/-- The first day of the next month. -/
def nextFirstDay (year month : ℕ) : ℕ :=
  if month = 12 then firstDay (year + 1) 1 else firstDay year (month + 1)

/-- The microseconds of a day. -/
def dayLength : ℕ := 86400000000

/-- `datetime(year, month, 1, tzinfo=UTC)`, `None` where it raises `ValueError`. -/
def ofMonth (year month : ℕ) : Option Time :=
  if 1 ≤ year ∧ year ≤ maxYear ∧ 1 ≤ month ∧ month ≤ 12 then
    some (firstDay year month * dayLength)
  else none

/-- Where the range of `datetime` ends. -/
def limit : Time := daysBeforeYear (maxYear + 1) * dayLength

example : ofMonth 2024 3 = some 63844848000000000 := by decide

example : (ofMonth 2024 3).map isoformat = some "2024-03-01T00:00:00+00:00" := by decide

/-! ## Years -/

/-- The days of a year. -/
def yearLength (year : ℕ) : ℕ := if isLeap year then 366 else 365

theorem daysBeforeYear_succ (n : ℕ) :
    daysBeforeYear (n + 2) = daysBeforeYear (n + 1) + yearLength (n + 1) := by
  have hleap : isLeap (n + 1) = true ↔ 4 ∣ n + 1 ∧ (¬ 100 ∣ n + 1 ∨ 400 ∣ n + 1) := by
    simp only [isLeap, decide_eq_true_eq]
    omega
  have h100 : 100 ∣ n + 1 → 4 ∣ n + 1 := by omega
  have h400 : 400 ∣ n + 1 → 100 ∣ n + 1 := by omega
  have hle : n / 100 ≤ n / 4 := by omega
  rw [daysBeforeYear, daysBeforeYear, yearLength, Nat.add_sub_cancel,
    show n + 2 - 1 = n + 1 from rfl, Nat.succ_div, Nat.succ_div, Nat.succ_div]
  simp only [hleap]
  by_cases h₁ : 4 ∣ n + 1
  · by_cases h₂ : 100 ∣ n + 1
    · by_cases h₃ : 400 ∣ n + 1 <;> simp [h₁, h₂, h₃] <;> omega
    · simp [h₁, h₂, mt h400 h₂]
      omega
  · simp [h₁, mt h100 h₁, mt h400 (mt h100 h₁)]
    omega

theorem daysBeforeYear_mono {y y' : ℕ} (h : y ≤ y') : daysBeforeYear y ≤ daysBeforeYear y' := by
  refine monotone_nat_of_le_succ (fun n => ?_) h
  cases n with
  | zero => simp [daysBeforeYear]
  | succ n =>
    rw [daysBeforeYear_succ]
    exact Nat.le_add_right ..

theorem daysBeforeYear_cycles {n400 n100 n4 n1 : ℕ} (h₁ : n100 ≤ 3) (h₂ : n4 ≤ 24)
    (h₃ : n1 ≤ 3) : daysBeforeYear (400 * n400 + 100 * n100 + 4 * n4 + n1 + 1) =
      146097 * n400 + 36524 * n100 + 1461 * n4 + 365 * n1 := by
  rw [daysBeforeYear, Nat.add_sub_cancel]
  omega

theorem isLeap_cycles {n400 n100 n4 n1 : ℕ} (h₁ : n100 ≤ 3) (h₂ : n4 ≤ 24) (h₃ : n1 ≤ 3) :
    isLeap (400 * n400 + 100 * n100 + 4 * n4 + n1 + 1) =
      decide (n1 = 3 ∧ (n4 ≠ 24 ∨ n100 = 3)) := by
  rw [isLeap, decide_eq_decide]
  omega

/-- The year of a day, and its day of the year, which selects the month. -/
theorem exists_dayOfYear (day : ℕ) : ∃ n r, day = daysBeforeYear (n + 1) + r ∧
    r < yearLength (n + 1) ∧ (date day).1 = n + 1 ∧
    (date day).2.1 = monthOf (isLeap (n + 1)) r := by
  obtain ⟨n400, n100, n4, n1, r, H⟩ := exists_cycles day
  have hleap : isLeap (400 * n400 + 100 * n100 + 4 * n4 + n1 + 1) =
      decide (n1 = 3 ∧ (n4 ≠ 24 ∨ n100 = 3)) := isLeap_cycles H.centuries H.quads H.years
  refine ⟨400 * n400 + 100 * n100 + 4 * n4 + n1, r, ?_, ?_, ?_, ?_⟩
  · rw [daysBeforeYear_cycles H.centuries H.quads H.years]
    exact H.day_eq
  · have hrest := H.rest
    rw [yearLength, hleap]
    split
    · exact hrest
    · rename_i hnot
      have hlast : r ≠ 365 := fun h => hnot (decide_eq_true (H.leapDay h))
      omega
  · rw [H.date_eq]
  · rw [H.date_eq, hleap]

/-! ## Months -/

/-- A day of the year is in its month. -/
theorem monthOf_spec (leap : Bool) {r : ℕ} (hr : r < 366) :
    monthOf leap r ≤ 12 ∧
      (monthOf leap r = 12 ∨ r < daysBeforeMonth leap (monthOf leap r + 1)) := by
  have key : ∀ leap : Bool, ∀ r : Fin 366,
      monthOf leap r.1 = 12 ∨ r.1 < daysBeforeMonth leap (monthOf leap r.1 + 1) := by
    decide +kernel
  refine ⟨?_, key leap ⟨r, hr⟩⟩
  have hlength := List.length_filter_le (fun m => decide (daysBeforeMonth leap m ≤ r))
    (List.range' 2 11)
  rw [List.length_range'] at hlength
  rw [monthOf]
  omega

theorem daysBeforeMonth_mono (leap : Bool) {a b : ℕ} (ha : 1 ≤ a) (hab : a ≤ b) (hb : b ≤ 12) :
    daysBeforeMonth leap a ≤ daysBeforeMonth leap b := by
  have key : ∀ leap : Bool, ∀ a b : Fin 13, 1 ≤ a.1 → a.1 ≤ b.1 →
      daysBeforeMonth leap a.1 ≤ daysBeforeMonth leap b.1 := by decide
  exact key leap ⟨a, by omega⟩ ⟨b, by omega⟩ ha hab

/-- The days of the year that belong to a month. -/
theorem monthOf_eq_iff {leap : Bool} {r m : ℕ} (hr : r < 366) (hm : 1 ≤ m ∧ m ≤ 12) :
    monthOf leap r = m ↔
      daysBeforeMonth leap m ≤ r ∧ (m = 12 ∨ r < daysBeforeMonth leap (m + 1)) := by
  obtain ⟨hle12, hnext⟩ := monthOf_spec leap hr
  have hfirst := daysBeforeMonth_monthOf_le leap hr
  have hpos : 1 ≤ monthOf leap r := Nat.le_add_left ..
  constructor
  · rintro rfl
    exact ⟨hfirst, hnext⟩
  · rintro ⟨hm₁, hm₂⟩
    rcases lt_trichotomy (monthOf leap r) m with h | h | h
    · have := daysBeforeMonth_mono leap (by omega) (show monthOf leap r + 1 ≤ m from h) hm.2
      omega
    · exact h
    · have := daysBeforeMonth_mono leap (by omega) (show m + 1 ≤ monthOf leap r from h) hle12
      omega

theorem daysBeforeMonth_le_yearLength (year : ℕ) {m : ℕ} (hm : m ≤ 12) :
    daysBeforeMonth (isLeap year) m ≤ yearLength year := by
  have key : ∀ leap : Bool, ∀ m : Fin 13,
      daysBeforeMonth leap m.1 ≤ if leap then 366 else 365 := by decide
  exact key (isLeap year) ⟨m, by omega⟩

theorem yearLength_le (year : ℕ) : yearLength year ≤ 366 := by
  rw [yearLength]
  split <;> omega

theorem firstDay_one (year : ℕ) : firstDay year 1 = daysBeforeYear year := by
  simp [firstDay, daysBeforeMonth, daysBefore]

/-- The next month begins with the next year, or within the same. -/
theorem nextFirstDay_le {n m : ℕ} (hm : m ≤ 12) :
    nextFirstDay (n + 1) m ≤ daysBeforeYear (n + 2) := by
  rw [nextFirstDay]
  split
  · rw [firstDay_one]
  · rw [firstDay, daysBeforeYear_succ]
    exact Nat.add_le_add_left (daysBeforeMonth_le_yearLength _ (by omega)) _

theorem firstDay_lt_next {n m : ℕ} (hm : 1 ≤ m ∧ m ≤ 12) :
    firstDay (n + 1) m < nextFirstDay (n + 1) m := by
  have key : ∀ leap : Bool, ∀ m : Fin 13, 1 ≤ m.1 →
      daysBeforeMonth leap m.1 < if m.1 = 12 then (if leap then 366 else 365) else
        daysBeforeMonth leap (m.1 + 1) := by decide
  have hlt := key (isLeap (n + 1)) ⟨m, by omega⟩ hm.1
  rw [nextFirstDay, firstDay]
  split
  · rw [if_pos ‹_›] at hlt
    rw [firstDay_one, daysBeforeYear_succ, yearLength]
    exact Nat.add_lt_add_left hlt _
  · rw [if_neg ‹_›] at hlt
    exact Nat.add_lt_add_left hlt _

/-- **The days of a month** lie between its first day and that of the next. -/
theorem month_iff {day year month : ℕ} (hyear : 1 ≤ year) (hmonth : 1 ≤ month ∧ month ≤ 12) :
    ((date day).1 = year ∧ (date day).2.1 = month) ↔
      firstDay year month ≤ day ∧ day < nextFirstDay year month := by
  obtain ⟨n, r, hday, hr, hdateY, hdateM⟩ := exists_dayOfYear day
  obtain ⟨k, rfl⟩ : ∃ k, year = k + 1 := ⟨year - 1, by omega⟩
  have hr366 : r < 366 := lt_of_lt_of_le hr (yearLength_le _)
  have hsucc := daysBeforeYear_succ n
  have hmonthOf := @monthOf_eq_iff (isLeap (n + 1)) _ _ hr366 hmonth
  -- within the year the days before the months decide
  have hsame : k = n → (monthOf (isLeap (n + 1)) r = month ↔
      firstDay (k + 1) month ≤ day ∧ day < nextFirstDay (k + 1) month) := by
    rintro rfl
    rw [hmonthOf, hday, firstDay, Nat.add_le_add_iff_left, nextFirstDay]
    by_cases h12 : month = 12
    · rw [if_pos h12, firstDay_one, daysBeforeYear_succ]
      omega
    · rw [if_neg h12, firstDay]
      omega
  rw [hdateY, hdateM]
  constructor
  · rintro ⟨hn, hm⟩
    exact (hsame (by omega)).1 hm
  · rintro ⟨hfirst, hnext⟩
    have hle : daysBeforeYear (k + 1) ≤ day := by
      rw [firstDay] at hfirst
      omega
    have hlt : day < daysBeforeYear (k + 2) := lt_of_lt_of_le hnext (nextFirstDay_le hmonth.2)
    have hkn : k = n := by
      rcases lt_trichotomy k n with h | h | h
      · have := daysBeforeYear_mono (show k + 2 ≤ n + 1 by omega)
        omega
      · exact h
      · have := daysBeforeYear_mono (show n + 2 ≤ k + 1 by omega)
        omega
    exact ⟨by omega, (hsame hkn).2 ⟨hfirst, hnext⟩⟩

end Doda.Time
