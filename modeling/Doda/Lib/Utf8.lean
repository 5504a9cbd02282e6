import Mathlib.Data.Nat.Notation

/-!
# A streaming UTF-8 decoder

The decoder takes one byte at a time and keeps the bytes of an unfinished
character, so its input may be split anywhere.  A malformed sequence becomes
U+FFFD and the byte that broke it is read again; a byte order mark at the very
beginning is dropped.

## Main definitions

* `Utf8Decoder`, `Utf8Decoder.step`, `Utf8Decoder.decode` — the decoder.
* `utf8Encode` — the bytes of a text.

## Main results

* `decode_append` — a split of the input is not seen.
* `decode_utf8Encode` — the bytes of a text decode to it.
-/

/-- What a decoder keeps between bytes. -/
structure Utf8Decoder where
  /-- Bytes that the current character still lacks. -/
  needed : ℕ := 0
  /-- The next of them is at least this, -/
  lower : ℕ := 0x80
  /-- and at most this. -/
  upper : ℕ := 0xBF
  codePoint : ℕ := 0
  /-- The first character has been seen. -/
  started : Bool := false
  deriving DecidableEq

namespace Utf8Decoder

/-- Hand a character on, unless it is a byte order mark at the beginning. -/
def emit (d : Utf8Decoder) (c : Char) : List Char × Utf8Decoder :=
  (if d.started = false ∧ c = Char.ofNat 0xFEFF then [] else [c], { started := true })

/-- A byte between characters. -/
def lead (d : Utf8Decoder) (b : ℕ) : List Char × Utf8Decoder :=
  if b ≤ 0x7F then d.emit (Char.ofNat b)
  else if 0xC2 ≤ b ∧ b ≤ 0xDF then
    ([], { needed := 1, codePoint := b % 0x20, started := d.started })
  else if 0xE0 ≤ b ∧ b ≤ 0xEF then
    ([], { needed := 2, lower := if b = 0xE0 then 0xA0 else 0x80,
           upper := if b = 0xED then 0x9F else 0xBF, codePoint := b % 0x10, started := d.started })
  else if 0xF0 ≤ b ∧ b ≤ 0xF4 then
    ([], { needed := 3, lower := if b = 0xF0 then 0x90 else 0x80,
           upper := if b = 0xF4 then 0x8F else 0xBF, codePoint := b % 0x8, started := d.started })
  else d.emit (Char.ofNat 0xFFFD)

/-- One byte. -/
def step (d : Utf8Decoder) (b : ℕ) : List Char × Utf8Decoder :=
  match d.needed with
  | 0 => d.lead b
  | n + 1 =>
    if d.lower ≤ b ∧ b ≤ d.upper then
      let codePoint := d.codePoint * 64 + b % 64
      if n = 0 then d.emit (Char.ofNat codePoint)
      else ([], { needed := n, codePoint := codePoint, started := d.started })
    else
      -- the byte is read again, as the first of a character
      let (bad, d) := d.emit (Char.ofNat 0xFFFD)
      let (cs, d) := d.lead b
      (bad ++ cs, d)

/-- All the bytes of one read. -/
def decode (d : Utf8Decoder) : List UInt8 → List Char × Utf8Decoder
  | [] => ([], d)
  | b :: bs =>
    let (cs, d) := d.step b.toNat
    let (cs', d) := decode d bs
    (cs ++ cs', d)

@[simp] theorem decode_nil (d : Utf8Decoder) : d.decode [] = ([], d) := rfl

theorem decode_cons (d : Utf8Decoder) (b : UInt8) (bs : List UInt8) :
    d.decode (b :: bs) = ((d.step b.toNat).1 ++ ((d.step b.toNat).2.decode bs).1,
      ((d.step b.toNat).2.decode bs).2) := rfl

/-- **A split of the input is not seen.** -/
theorem decode_append (d : Utf8Decoder) (x y : List UInt8) :
    d.decode (x ++ y) = ((d.decode x).1 ++ ((d.decode x).2.decode y).1,
      ((d.decode x).2.decode y).2) := by
  induction x generalizing d with
  | nil => rfl
  | cons b x ih => rw [List.cons_append, decode_cons, ih, decode_cons, List.append_assoc]

end Utf8Decoder

/-! ## Encoded text -/

/-- The bytes of a text. -/
def utf8Encode (cs : List Char) : List UInt8 := cs.flatMap String.utf8EncodeChar

namespace Utf8Decoder

/-- Between characters. -/
def between (started : Bool) : Utf8Decoder := { started := started }

private theorem toNat_cases (c : Char) :
    c.toNat < 0xD800 ∨ (0xE000 ≤ c.toNat ∧ c.toNat < 0x110000) := by
  have := c.valid
  simp only [UInt32.isValidChar, Nat.isValidChar] at this
  simp only [Char.toNat]
  omega

theorem step_last {d : Utf8Decoder} {b : ℕ} (hn : d.needed = 1) (hb : d.lower ≤ b ∧ b ≤ d.upper) :
    d.step b = d.emit (Char.ofNat (d.codePoint * 64 + b % 64)) := by
  simp [step, hn, hb]

theorem step_more {d : Utf8Decoder} {b n : ℕ} (hn : d.needed = n + 2)
    (hb : d.lower ≤ b ∧ b ≤ d.upper) : d.step b =
      ([], { needed := n + 1, codePoint := d.codePoint * 64 + b % 64, started := d.started }) := by
  simp [step, hn, hb]

/-- The byte of a number below 256. -/
private theorem toNat_ofNat {n : ℕ} (h : n < 256) : (UInt8.ofNat n).toNat = n := by
  rw [UInt8.toNat_ofNat']
  exact Nat.mod_eq_of_lt h

/-- **The bytes of one character.** -/
theorem decode_utf8EncodeChar (started : Bool) (c : Char) :
    (between started).decode (String.utf8EncodeChar c) = (between started).emit c := by
  have hc := toNat_cases c
  have hchar : ∀ n, n = c.toNat → Char.ofNat n = c := by
    rintro n rfl
    exact Char.ofNat_toNat c
  have hlead : ∀ b, (between started).step b = (between started).lead b := fun b => rfl
  have hv : c.val.toNat = c.toNat := rfl
  unfold String.utf8EncodeChar
  rw [hv]
  dsimp only
  split
  · rename_i h
    rw [decode_cons, toNat_ofNat (by omega), hlead, lead, if_pos h, hchar _ rfl]
    simp
  · split
    · rename_i h₁ h₂
      rw [decode_cons, toNat_ofNat (by omega), hlead, lead, if_neg (by omega), if_pos (by omega),
        decode_cons, toNat_ofNat (by omega),
        step_last rfl (by constructor <;> dsimp only <;> omega)]
      dsimp only
      rw [hchar _ (by omega)]
      simp [emit, between]
    · split
      · rename_i h₁ h₂ h₃
        rw [decode_cons, toNat_ofNat (by omega), hlead, lead, if_neg (by omega), if_neg (by omega),
          if_pos (by omega), decode_cons, toNat_ofNat (by omega), step_more rfl ?_, decode_cons,
          toNat_ofNat (by omega), step_last rfl (by constructor <;> dsimp only <;> omega)]
        · dsimp only
          rw [hchar _ (by omega)]
          simp [emit, between]
        · dsimp only
          constructor <;> split <;> omega
      · rename_i h₁ h₂ h₃
        rw [decode_cons, toNat_ofNat (by omega), hlead, lead, if_neg (by omega), if_neg (by omega),
          if_neg (by omega), if_pos (by omega), decode_cons, toNat_ofNat (by omega),
          step_more rfl ?_, decode_cons, toNat_ofNat (by omega),
          step_more rfl (by constructor <;> dsimp only <;> omega), decode_cons,
          toNat_ofNat (by omega), step_last rfl (by constructor <;> dsimp only <;> omega)]
        · dsimp only
          rw [hchar _ (by omega)]
          simp [emit, between]
        · dsimp only
          constructor <;> split <;> omega

/-- **The bytes of a text decode to it.** -/
theorem decode_utf8Encode_started (cs : List Char) :
    (between true).decode (utf8Encode cs) = (cs, between true) := by
  induction cs with
  | nil => rfl
  | cons c cs ih =>
    rw [utf8Encode, List.flatMap_cons, decode_append, decode_utf8EncodeChar]
    have hemit : (between true).emit c = ([c], between true) := by simp [emit, between]
    rw [hemit, ← utf8Encode, ih]
    rfl

/-- So they do from the very beginning, unless it is a byte order mark. -/
theorem decode_utf8Encode {c : Char} (hc : c ≠ Char.ofNat 0xFEFF) (cs : List Char) :
    ({} : Utf8Decoder).decode (utf8Encode (c :: cs)) = (c :: cs, between true) := by
  have hemit : ({} : Utf8Decoder).emit c = ([c], between true) := by simp [emit, between, hc]
  rw [utf8Encode, List.flatMap_cons, decode_append, ← between, decode_utf8EncodeChar, between,
    hemit, ← utf8Encode, decode_utf8Encode_started]
  rfl

end Utf8Decoder
