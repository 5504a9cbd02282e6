import Mathlib.Data.List.Sort
import Doda.Domain.Base

/-!
# JSON values and their canonical text

`canonicalJson` is `json.dumps(value, sort_keys=True, separators=(",", ":"))`:
keys in code-point order, no blanks, every character outside the printable ASCII
range escaped.  `hashPayload` is its SHA-256 in hexadecimal; the digest itself is
a parameter, the class `Sha256`.

A quoted string ends at its first unescaped quotation mark, so two texts that
begin with quoted strings agree only if the strings do: `quote_append_inj`.
That is what makes the hash of an audit event determine the event.

## Main definitions

* `Json` — values; a float is kept as the text `json.dumps` writes.
* `quote`, `Json.dump`, `canonicalJson` — the text of a value.
* `Sha256`, `hashPayload` — the digest.
-/

namespace Doda

/-- The text of a float. -/
abbrev FloatRepr := {s : String // s ≠ ""}

theorem zero_ne_empty : "0.0" ≠ "" := by decide

/-- A JSON value as `json.loads` builds it; the keys of an object are distinct. -/
inductive Json where
  | null
  | bool (b : Bool)
  | int (n : ℤ)
  /-- A float, by the text that `json.dumps` writes for it. -/
  | float (repr : FloatRepr)
  | str (s : String)
  | arr (xs : List Json)
  | obj (kvs : List (String × Json))
  deriving Inhabited

/-- The value under a key of an object, `None` where there is none. -/
def Json.get? (k : String) : Json → Option Json
  | .obj kvs => (kvs.find? (·.1 = k)).map (·.2)
  | _ => none

/-- Python's truth value of a JSON value. -/
def Json.truthy : Json → Bool
  | .null => false
  | .bool b => b
  | .int n => n ≠ 0
  | .float r => r.1 ≠ "0.0" ∧ r.1 ≠ "-0.0"
  | .str s => s ≠ ""
  | .arr xs => !xs.isEmpty
  | .obj kvs => !kvs.isEmpty

/-- `isinstance(value, str)`, with the string. -/
def Json.asStr? : Json → Option String
  | .str s => some s
  | _ => none

/-- The escape of one UTF-16 code unit. -/
def unicodeEscape (n : ℕ) : List Char := '\\' :: 'u' :: hex 4 n

/-- How a character stands inside a quoted string. -/
def escape (c : Char) : List Char :=
  if c = '"' then ['\\', '"']
  else if c = '\\' then ['\\', '\\']
  else if c = '\n' then ['\\', 'n']
  else if c = '\r' then ['\\', 'r']
  else if c = '\t' then ['\\', 't']
  else if c.toNat = 12 then ['\\', 'f']
  else if c.toNat = 8 then ['\\', 'b']
  else if 32 ≤ c.toNat ∧ c.toNat ≤ 126 then [c]
  else if c.toNat < 65536 then unicodeEscape c.toNat
  else unicodeEscape (55296 + (c.toNat - 65536) / 1024) ++
    unicodeEscape (56320 + (c.toNat - 65536) % 1024)

/-- A string in quotation marks. -/
def quote (s : String) : List Char := '"' :: (s.toList.flatMap escape ++ ['"'])

/-- Parts separated by commas. -/
def commaSep : List (List Char) → List Char
  | [] => []
  | [x] => x
  | x :: y :: xs => x ++ ',' :: commaSep (y :: xs)

mutual

/-- The canonical text of a value. -/
def Json.dump : Json → List Char
  | .null => "null".toList
  | .bool true => "true".toList
  | .bool false => "false".toList
  | .int n => (toString n).toList
  | .float r => r.1.toList
  | .str s => quote s
  | .arr xs => '[' :: (commaSep (dumpAll xs) ++ [']'])
  | .obj kvs => '{' :: (commaSep
      (((dumpFields kvs).insertionSort (·.1 ≤ ·.1)).map fun f => quote f.1 ++ ':' :: f.2) ++ ['}'])

def dumpAll : List Json → List (List Char)
  | [] => []
  | x :: xs => x.dump :: dumpAll xs

def dumpFields : List (String × Json) → List (String × List Char)
  | [] => []
  | kv :: kvs => dumpField kv :: dumpFields kvs

def dumpField : String × Json → String × List Char
  | (k, v) => (k, v.dump)

end

/-- `canonical_json`. -/
def canonicalJson (v : Json) : String := String.ofList v.dump

/-- `hashlib.sha256(text.encode("utf-8")).hexdigest()`. -/
class Sha256 where
  hexdigest : String → String

/-- `hash_payload`. -/
def hashPayload [Sha256] (v : Json) : String := Sha256.hexdigest (canonicalJson v)

example : canonicalJson (.obj [("b", .arr [.int (-3), .null]), ("a", .str "ў\"\n")]) =
    "\x7b\"a\":\"\\u045e\\\"\\n\",\"b\":[-3,null]\x7d" := by decide

/-! ## Quoted strings are self-delimiting -/

private theorem toNat_inj {c d : Char} (h : c.toNat = d.toNat) : c = d :=
  Char.ext (UInt32.toNat_inj.1 h)

private theorem hex_four_inj {m n : ℕ} {r s : List Char} (hm : m < 65536) (hn : n < 65536)
    (h : hex 4 m ++ r = hex 4 n ++ s) : m = n ∧ r = s := by
  obtain ⟨h₁, h₂⟩ := List.append_inj h (by simp)
  have := hex_inj h₁
  norm_num at this
  exact ⟨by omega, h₂⟩

/-- The character a two-character escape stands for. -/
private def unshort : Char → Char
  | 'n' => '\n'
  | 'r' => '\r'
  | 't' => '\t'
  | 'f' => Char.ofNat 12
  | 'b' => Char.ofNat 8
  | x => x

/-- The four shapes of an escape, each with what it says of the character. -/
private theorem escape_cases (c : Char) :
    (∃ x, x ≠ 'u' ∧ escape c = ['\\', x] ∧ c = unshort x) ∨
    (c ≠ '\\' ∧ c ≠ '"' ∧ escape c = [c]) ∨
    (c.toNat < 65536 ∧ escape c = unicodeEscape c.toNat) ∨
    (65536 ≤ c.toNat ∧ escape c = unicodeEscape (55296 + (c.toNat - 65536) / 1024) ++
      unicodeEscape (56320 + (c.toNat - 65536) % 1024)) := by
  unfold escape
  split_ifs with h₁ h₂ h₃ h₄ h₅ h₆ h₇ h₈ h₉
  · exact .inl ⟨'"', by decide, rfl, h₁⟩
  · exact .inl ⟨'\\', by decide, rfl, h₂⟩
  · exact .inl ⟨'n', by decide, rfl, h₃⟩
  · exact .inl ⟨'r', by decide, rfl, h₄⟩
  · exact .inl ⟨'t', by decide, rfl, h₅⟩
  · exact .inl ⟨'f', by decide, rfl, toNat_inj h₆⟩
  · exact .inl ⟨'b', by decide, rfl, toNat_inj h₇⟩
  · exact .inr (.inl ⟨h₂, h₁, rfl⟩)
  · exact .inr (.inr (.inl ⟨h₉, rfl⟩))
  · exact .inr (.inr (.inr ⟨by omega, rfl⟩))

/-- Two Unicode escapes agree only on the same code unit. -/
private theorem unicodeEscape_append_inj {m n : ℕ} {r s : List Char} (hm : m < 65536)
    (hn : n < 65536) (h : unicodeEscape m ++ r = unicodeEscape n ++ s) : m = n ∧ r = s := by
  simp only [unicodeEscape, List.cons_append, List.cons.injEq, true_and] at h
  exact hex_four_inj hm hn h

/-- A character outside the surrogate range. -/
private theorem not_surrogate (c : Char) (h : c.toNat < 65536) :
    c.toNat < 55296 ∨ 57344 ≤ c.toNat := by
  have := c.valid
  simp only [UInt32.isValidChar, Nat.isValidChar] at this
  simp only [Char.toNat] at h ⊢
  omega

private theorem toNat_lt (c : Char) : c.toNat < 1114112 := by
  have := c.valid
  simp only [UInt32.isValidChar, Nat.isValidChar] at this
  simp only [Char.toNat]
  omega

/-- **Escapes are a prefix code.** -/
theorem escape_append_inj {c d : Char} {r s : List Char} (h : escape c ++ r = escape d ++ s) :
    c = d ∧ r = s := by
  have hc := toNat_lt c
  have hd := toNat_lt d
  rcases escape_cases c with ⟨x, hx, ec, rfl⟩ | ⟨hx, -, ec⟩ | ⟨hx, ec⟩ | ⟨hx, ec⟩ <;>
  rcases escape_cases d with ⟨y, hy, ed, rfl⟩ | ⟨hy, -, ed⟩ | ⟨hy, ed⟩ | ⟨hy, ed⟩ <;>
  rw [ec, ed] at h
  case inl.inl =>
    simp only [List.cons_append, List.cons.injEq, true_and, List.nil_append] at h
    exact ⟨by rw [h.1], h.2⟩
  case inr.inl.inr.inl =>
    simpa using h
  case inr.inr.inl.inr.inr.inl =>
    obtain ⟨h₁, h₂⟩ := unicodeEscape_append_inj hx hy h
    exact ⟨toNat_inj h₁, h₂⟩
  case inr.inr.inl.inr.inr.inr =>
    have := not_surrogate c hx
    rw [List.append_assoc] at h
    obtain ⟨h₁, -⟩ := unicodeEscape_append_inj hx (by omega) h
    omega
  case inr.inr.inr.inr.inr.inl =>
    have := not_surrogate d hy
    rw [List.append_assoc] at h
    obtain ⟨h₁, -⟩ := unicodeEscape_append_inj (by omega) hy h
    omega
  case inr.inr.inr.inr.inr.inr =>
    rw [List.append_assoc, List.append_assoc] at h
    obtain ⟨h₁, h⟩ := unicodeEscape_append_inj (by omega) (by omega) h
    obtain ⟨h₂, h⟩ := unicodeEscape_append_inj (by omega) (by omega) h
    exact ⟨toNat_inj (by omega), h⟩
  -- the shapes differ in their first or second character
  all_goals
    simp [unicodeEscape] at h
    first
      | exact absurd h.1 (by assumption)
      | exact absurd h.1.symm (by assumption)

private theorem escape_ne_quote (c : Char) (r s : List Char) : escape c ++ r ≠ '"' :: s := by
  rcases escape_cases c with ⟨x, -, ec, -⟩ | ⟨-, hx, ec⟩ | ⟨-, ec⟩ | ⟨-, ec⟩ <;>
    simp_all [unicodeEscape]

private theorem flatMap_escape_inj {cs ds r s : List Char}
    (h : cs.flatMap escape ++ '"' :: r = ds.flatMap escape ++ '"' :: s) : cs = ds ∧ r = s := by
  induction cs generalizing ds with
  | nil =>
    cases ds with
    | nil => simpa using h
    | cons d ds =>
      simp only [List.flatMap_nil, List.nil_append, List.flatMap_cons, List.append_assoc] at h
      exact absurd h.symm (escape_ne_quote d _ _)
  | cons c cs ih =>
    cases ds with
    | nil =>
      simp only [List.flatMap_nil, List.nil_append, List.flatMap_cons, List.append_assoc] at h
      exact absurd h (escape_ne_quote c _ _)
    | cons d ds =>
      simp only [List.flatMap_cons, List.append_assoc] at h
      obtain ⟨rfl, h₁⟩ := escape_append_inj h
      obtain ⟨rfl, h₂⟩ := ih h₁
      exact ⟨rfl, h₂⟩

/-- **A quoted string ends where it says it ends.** -/
theorem quote_append_inj {a b : String} {r s : List Char} (h : quote a ++ r = quote b ++ s) :
    a = b ∧ r = s := by
  simp only [quote, List.cons_append, List.append_assoc, List.cons.injEq, true_and,
    List.nil_append] at h
  obtain ⟨h₁, h₂⟩ := flatMap_escape_inj h
  exact ⟨String.toList_inj.1 h₁, h₂⟩

/-- `None` or a string, as a value. -/
def Json.ofOption : Option String → Json
  | none => .null
  | some s => .str s

/-- An optional string is self-delimiting as well. -/
theorem dump_ofOption_append_inj {a b : Option String} {r s : List Char}
    (h : (Json.ofOption a).dump ++ r = (Json.ofOption b).dump ++ s) : a = b ∧ r = s := by
  cases a <;> cases b <;> simp only [Json.ofOption, Json.dump] at h
  · exact ⟨rfl, by simpa using h⟩
  · simp [quote] at h
  · simp [quote] at h
  · obtain ⟨rfl, h₁⟩ := quote_append_inj h
    exact ⟨rfl, h₁⟩

end Doda
