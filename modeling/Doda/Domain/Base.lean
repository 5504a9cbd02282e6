import Mathlib.Data.Nat.Notation
import Mathlib.Data.List.Basic
import Mathlib.Tactic.Ring

/-!
# Identifiers and clock readings

The two values every table uses: `uuid.UUID`, a 128-bit number written as
hexadecimal digits in groups of 8, 4, 4, 4 and 12; and an aware UTC `datetime`,
kept as microseconds since 0001-01-01T00:00:00 and written by `isoformat`.

## Main definitions

* `Uuid`, `Uuid.str` — `str(u)`; injective, by `Uuid.str_injective`.
* `Time`, `Time.isoformat` — `t.isoformat()`.
* `minutes` — `timedelta(minutes=n)`.
-/

namespace Doda

/-- A `uuid.UUID`. -/
abbrev Uuid := BitVec 128

instance : LawfulBEq Uuid := inferInstance

/-- A lower-case hexadecimal digit. -/
def hexDigit (n : ℕ) : Char := if n < 10 then Char.ofNat (48 + n) else Char.ofNat (87 + n)

theorem hexDigit_inj {m n : ℕ} (hm : m < 16) (hn : n < 16) (h : hexDigit m = hexDigit n) :
    m = n := by
  have key : ∀ a : Fin 16, ∀ b : Fin 16, hexDigit a = hexDigit b → a = b := by decide
  simpa using key ⟨m, hm⟩ ⟨n, hn⟩ h

/-- The `n` lowest hexadecimal digits of a number, most significant first. -/
def hex : ℕ → ℕ → List Char
  | 0, _ => []
  | n + 1, x => hex n (x / 16) ++ [hexDigit (x % 16)]

@[simp] theorem length_hex (n x : ℕ) : (hex n x).length = n := by
  induction n generalizing x with
  | zero => rfl
  | succ n ih => simp [hex, ih]

/-- The digits determine the number they are the digits of. -/
theorem hex_inj {n x y : ℕ} (h : hex n x = hex n y) : x % 16 ^ n = y % 16 ^ n := by
  induction n generalizing x y with
  | zero => simp [Nat.mod_one]
  | succ n ih =>
    obtain ⟨h₁, h₂⟩ := List.append_inj' h rfl
    have hd : x % 16 = y % 16 :=
      hexDigit_inj (Nat.mod_lt _ (by decide)) (Nat.mod_lt _ (by decide)) (by simpa using h₂)
    have hr := ih h₁
    rw [pow_succ', Nat.mod_mul, Nat.mod_mul, hd, hr]

namespace Uuid

/-- `str(u)`. -/
def str (u : Uuid) : String :=
  let n := u.toNat
  String.ofList (hex 8 (n / 16 ^ 24) ++ '-' :: (hex 4 (n / 16 ^ 20) ++ '-' ::
    (hex 4 (n / 16 ^ 16) ++ '-' :: (hex 4 (n / 16 ^ 12) ++ '-' :: hex 12 n))))

theorem str_injective : Function.Injective str := by
  intro u v h
  simp only [str, String.ofList_inj] at h
  obtain ⟨h₁, h⟩ := List.append_inj h (by simp)
  obtain ⟨h₂, h⟩ := List.append_inj (List.cons.inj h).2 (by simp)
  obtain ⟨h₃, h⟩ := List.append_inj (List.cons.inj h).2 (by simp)
  obtain ⟨h₄, h⟩ := List.append_inj (List.cons.inj h).2 (by simp)
  have h₅ := (List.cons.inj h).2
  have hu := u.isLt
  have hv := v.isLt
  have e₁ := hex_inj h₁
  have e₂ := hex_inj h₂
  have e₃ := hex_inj h₃
  have e₄ := hex_inj h₄
  have e₅ := hex_inj h₅
  apply BitVec.eq_of_toNat_eq
  norm_num at e₁ e₂ e₃ e₄ e₅ hu hv
  omega

end Uuid

/-! ## Characters -/

/-- `str.isspace` of one character. -/
def isSpace (c : Char) : Bool :=
  c ∈ [' ', '\t', '\n', '\r', '\x0b', '\x0c', '\x1c', '\x1d', '\x1e', '\x1f', '\x85', '\xa0'] ||
    c.toNat ∈ [0x1680, 0x2028, 0x2029, 0x202f, 0x205f, 0x3000] ||
    (0x2000 ≤ c.toNat && c.toNat ≤ 0x200a)

/-- `str.strip`. -/
def strip (s : String) : String :=
  String.ofList (((s.toList.dropWhile isSpace).reverse.dropWhile isSpace).reverse)

/-! ## Clock readings -/

/-- An aware UTC `datetime`: microseconds since 0001-01-01T00:00:00. -/
abbrev Time := ℕ

/-- `timedelta(minutes=n)`. -/
def minutes (n : ℕ) : Time := n * 60 * 1000000

namespace Time

/-- Days of the year before each month of a common year. -/
def daysBefore : List ℕ := [0, 31, 59, 90, 120, 151, 181, 212, 243, 273, 304, 334]

/-- Days before the `m`-th month (from 1), counting 29 February in a leap year. -/
def daysBeforeMonth (leap : Bool) (m : ℕ) : ℕ :=
  daysBefore.getD (m - 1) 0 + if leap ∧ 2 < m then 1 else 0

/-- Year, month and day of the day that many days after 0001-01-01, by cycles of
400, 100, 4 and 1 years. -/
def date (day : ℕ) : ℕ × ℕ × ℕ :=
  let n400 := day / 146097
  let r400 := day % 146097
  let n100 := min 3 (r400 / 36524)
  let r100 := r400 - 36524 * n100
  let n4 := r100 / 1461
  let r4 := r100 % 1461
  let n1 := min 3 (r4 / 365)
  let r := r4 - 365 * n1
  let year := 400 * n400 + 100 * n100 + 4 * n4 + n1 + 1
  let leap := n1 = 3 ∧ (n4 ≠ 24 ∨ n100 = 3)
  let month := ((List.range' 2 11).filter fun m => daysBeforeMonth leap m ≤ r).length + 1
  (year, month, r - daysBeforeMonth leap month + 1)

/-- A number in decimal, padded with zeros to at least `w` digits. -/
def padded (w n : ℕ) : String :=
  let s := toString n
  String.ofList (List.replicate (w - s.length) '0') ++ s

/-- `t.isoformat()`: the microseconds are left out when they are zero. -/
def isoformat (t : Time) : String :=
  let (y, m, d) := date (t / 86400000000)
  let s := t / 1000000 % 86400
  let us := t % 1000000
  padded 4 y ++ "-" ++ padded 2 m ++ "-" ++ padded 2 d ++ "T" ++
    padded 2 (s / 3600) ++ ":" ++ padded 2 (s / 60 % 60) ++ ":" ++ padded 2 (s % 60) ++
    (if us = 0 then "" else "." ++ padded 6 us) ++ "+00:00"

example : isoformat 63890000000123456 = "2025-08-05T14:13:20.123456+00:00" := by decide

end Time

end Doda
