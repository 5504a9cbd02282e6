import Doda.Domain.Base

/-!
# A clock reading is determined by its text

`Time.isoformat` writes numbers in decimal with a character that is no digit behind
each of them, so the text determines the numbers; and they determine the reading.

## Main results

* `Time.date_injective` — year, month and day determine the day.
* `Time.isoformat_injective` — the text determines the reading.
-/

namespace Doda.Time

/-! ## Decimal numbers -/

theorem toList_padded (w n : ℕ) : (padded w n).toList =
    List.replicate (w - (toString n).length) '0' ++ Nat.toDigits 10 n := by
  rw [padded, String.toList_append, String.toList_ofList]
  exact congrArg _ Nat.toList_repr

/-- Padding does not change the number. -/
theorem ofDigitChars_padded (w n : ℕ) : Nat.ofDigitChars 10 (padded w n).toList 0 = n := by
  rw [toList_padded, Nat.ofDigitChars_append, Nat.ofDigitChars_replicate_zero, Nat.mul_zero,
    Nat.ofDigitChars_ten_toDigits]

theorem isDigit_of_mem_padded {w n : ℕ} {c : Char} (hc : c ∈ (padded w n).toList) :
    c.isDigit := by
  rw [toList_padded, List.mem_append] at hc
  rcases hc with hc | hc
  · rw [List.eq_of_mem_replicate hc]
    decide
  · exact Nat.isDigit_of_mem_toDigits (by decide) (by decide) hc

/-- Digits end where something else begins. -/
theorem digits_append_inj {ds es r s : List Char} {x y : Char} (hds : ∀ c ∈ ds, c.isDigit)
    (hes : ∀ c ∈ es, c.isDigit) (hx : x.isDigit = false) (hy : y.isDigit = false)
    (h : ds ++ x :: r = es ++ y :: s) : ds = es ∧ x = y ∧ r = s := by
  induction ds generalizing es with
  | nil =>
    cases es with
    | nil => simpa using h
    | cons e es =>
      obtain ⟨rfl, -⟩ := List.cons.inj h
      simp [hes x (List.mem_cons_self ..)] at hx
  | cons d ds ih =>
    cases es with
    | nil =>
      obtain ⟨rfl, -⟩ := List.cons.inj h
      simp [hds d (List.mem_cons_self ..)] at hy
    | cons e es =>
      obtain ⟨rfl, htail⟩ := List.cons.inj h
      obtain ⟨rfl, hxy⟩ := ih (fun c hc => hds c (List.mem_cons_of_mem _ hc))
        (fun c hc => hes c (List.mem_cons_of_mem _ hc)) htail
      exact ⟨rfl, hxy⟩

/-- **A number ends where something else begins.** -/
theorem padded_append_inj {v w m n : ℕ} {r s : List Char} {x y : Char} (hx : x.isDigit = false)
    (hy : y.isDigit = false) (h : (padded v m).toList ++ x :: r = (padded w n).toList ++ y :: s) :
    m = n ∧ x = y ∧ r = s := by
  obtain ⟨hmn, hxy⟩ := digits_append_inj (fun _ => isDigit_of_mem_padded)
    (fun _ => isDigit_of_mem_padded) hx hy h
  refine ⟨?_, hxy⟩
  rw [← ofDigitChars_padded v m, hmn, ofDigitChars_padded]

/-! ## Dates -/

/-- The month of a day of the year. -/
def monthOf (leap : Bool) (r : ℕ) : ℕ :=
  ((List.range' 2 11).filter fun m => daysBeforeMonth leap m ≤ r).length + 1

/-- A day of the year is not before its month. -/
theorem daysBeforeMonth_monthOf_le (leap : Bool) {r : ℕ} (hr : r < 366) :
    daysBeforeMonth leap (monthOf leap r) ≤ r := by
  have key : ∀ leap : Bool, ∀ r : Fin 366, daysBeforeMonth leap (monthOf leap r.1) ≤ r.1 := by
    decide +kernel
  exact key leap ⟨r, hr⟩

/-- A day by its cycles of 400, 100, 4 and 1 years. -/
structure Cycles (day n400 n100 n4 n1 r : ℕ) : Prop where
  day_eq : day = 146097 * n400 + 36524 * n100 + 1461 * n4 + 365 * n1 + r
  centuries : n100 ≤ 3
  quads : n4 ≤ 24
  years : n1 ≤ 3
  rest : r < 366
  leapDay : r = 365 → n1 = 3 ∧ (n4 ≠ 24 ∨ n100 = 3)
  date_eq : date day = (400 * n400 + 100 * n100 + 4 * n4 + n1 + 1,
    monthOf (n1 = 3 ∧ (n4 ≠ 24 ∨ n100 = 3)) r,
    r - daysBeforeMonth (n1 = 3 ∧ (n4 ≠ 24 ∨ n100 = 3))
      (monthOf (n1 = 3 ∧ (n4 ≠ 24 ∨ n100 = 3)) r) + 1)

theorem exists_cycles (day : ℕ) : ∃ n400 n100 n4 n1 r, Cycles day n400 n100 n4 n1 r := by
  refine ⟨_, _, _, _, _, ?_, ?_, ?_, ?_, ?_, ?_, rfl⟩
  · have h400 := Nat.div_add_mod day 146097
    have hlt := Nat.mod_lt day (show 146097 > 0 by decide)
    generalize day % 146097 = r400 at *
    have h100 : 36524 * min 3 (r400 / 36524) ≤ r400 := by omega
    generalize 36524 * min 3 (r400 / 36524) = c at *
    have h4 := Nat.div_add_mod (r400 - c) 1461
    generalize (r400 - c) % 1461 = r4 at *
    have h1 : 365 * min 3 (r4 / 365) ≤ r4 := by omega
    omega
  · exact min_le_left ..
  · have hlt := Nat.mod_lt day (show 146097 > 0 by decide)
    generalize day % 146097 = r400 at *
    have hle : r400 - 36524 * min 3 (r400 / 36524) < 36525 := by omega
    omega
  · exact min_le_left ..
  · generalize day % 146097 - 36524 * min 3 (day % 146097 / 36524) = r100
    have hlt := Nat.mod_lt r100 (show 1461 > 0 by decide)
    omega
  · have hlt := Nat.mod_lt day (show 146097 > 0 by decide)
    generalize day % 146097 = r400 at *
    intro hlast
    constructor
    · omega
    · have hcentury : 36524 * min 3 (r400 / 36524) ≤ r400 := by omega
      omega

/-- **Year, month and day determine the day.** -/
theorem date_injective : Function.Injective date := by
  intro day day' h
  obtain ⟨n400, n100, n4, n1, r, H⟩ := exists_cycles day
  obtain ⟨n400', n100', n4', n1', r', H'⟩ := exists_cycles day'
  rw [H.date_eq, H'.date_eq] at h
  obtain ⟨hyear, hrest⟩ := Prod.mk.inj h
  have hc := H.centuries
  have hc' := H'.centuries
  have hq := H.quads
  have hq' := H'.quads
  have hy := H.years
  have hy' := H'.years
  obtain rfl : n400 = n400' := by omega
  obtain rfl : n100 = n100' := by omega
  obtain rfl : n4 = n4' := by omega
  obtain rfl : n1 = n1' := by omega
  obtain ⟨hmonth, hday⟩ := Prod.mk.inj hrest
  rw [← hmonth] at hday
  have hle := daysBeforeMonth_monthOf_le (n1 = 3 ∧ (n4 ≠ 24 ∨ n100 = 3)) H.rest
  have hle' := daysBeforeMonth_monthOf_le (n1 = 3 ∧ (n4 ≠ 24 ∨ n100 = 3)) H'.rest
  rw [← hmonth] at hle'
  have hr : r = r' := by omega
  rw [H.day_eq, H'.day_eq, hr]

/-- The text of the microseconds and of the offset. -/
def tail (us : ℕ) : List Char :=
  if us = 0 then "+00:00".toList else '.' :: ((padded 6 us).toList ++ "+00:00".toList)

theorem toList_isoformat (t : Time) : t.isoformat.toList =
    (padded 4 (date (t / 86400000000)).1).toList ++ '-' ::
    ((padded 2 (date (t / 86400000000)).2.1).toList ++ '-' ::
    ((padded 2 (date (t / 86400000000)).2.2).toList ++ 'T' ::
    ((padded 2 (t / 1000000 % 86400 / 3600)).toList ++ ':' ::
    ((padded 2 (t / 1000000 % 86400 / 60 % 60)).toList ++ ':' ::
    ((padded 2 (t / 1000000 % 86400 % 60)).toList ++ tail (t % 1000000)))))) := by
  rcases hd : date (t / 86400000000) with ⟨y, m, d⟩
  rw [isoformat, hd]
  by_cases hus : t % 1000000 = 0 <;> simp [tail, hus]

/-- The last number and what is behind it. -/
theorem padded_append_tail_inj {m n us us' : ℕ}
    (h : (padded 2 m).toList ++ tail us = (padded 2 n).toList ++ tail us') :
    m = n ∧ us = us' := by
  by_cases hus : us = 0 <;> by_cases hus' : us' = 0 <;>
    simp only [tail, hus, hus', if_true, if_false] at h
  · obtain ⟨hmn, -⟩ := padded_append_inj (x := '+') (y := '+') rfl rfl h
    exact ⟨hmn, hus.trans hus'.symm⟩
  · obtain ⟨-, hplus, -⟩ := padded_append_inj (x := '+') (y := '.') rfl rfl h
    cases hplus
  · obtain ⟨-, hplus, -⟩ := padded_append_inj (x := '.') (y := '+') rfl rfl h
    cases hplus
  · obtain ⟨hmn, -, h⟩ := padded_append_inj (x := '.') (y := '.') rfl rfl h
    obtain ⟨hmicro, -⟩ := padded_append_inj (x := '+') (y := '+') rfl rfl h
    exact ⟨hmn, hmicro⟩

/-- **The text of a clock reading determines it.** -/
theorem isoformat_injective : Function.Injective isoformat := by
  intro t t' h
  have h := congrArg String.toList h
  rw [toList_isoformat, toList_isoformat] at h
  obtain ⟨hyear, -, h⟩ := padded_append_inj rfl rfl h
  obtain ⟨hmonth, -, h⟩ := padded_append_inj rfl rfl h
  obtain ⟨hday, -, h⟩ := padded_append_inj rfl rfl h
  obtain ⟨hhour, -, h⟩ := padded_append_inj rfl rfl h
  obtain ⟨hminute, -, h⟩ := padded_append_inj rfl rfl h
  obtain ⟨hsecond, hmicro⟩ := padded_append_tail_inj h
  have hdate : t / 86400000000 = t' / 86400000000 :=
    date_injective (Prod.ext hyear (Prod.ext hmonth hday))
  have hofDay : ∀ a b : ℕ, a / 3600 = b / 3600 → a / 60 % 60 = b / 60 % 60 →
      a % 60 = b % 60 → a = b := by omega
  have htogether : ∀ a b : ℕ, a / 86400000000 = b / 86400000000 →
      a / 1000000 % 86400 = b / 1000000 % 86400 → a % 1000000 = b % 1000000 → a = b := by omega
  exact htogether t t' hdate (hofDay _ _ hhour hminute hsecond) hmicro

end Doda.Time
