import Doda.Domain.Loads

/-!
# What is written is read back

`loads` reads what `dumps` writes, for values without numbers whose objects have
distinct keys.  The induction is on the value, and every reader is given the text of
a value with more text behind it.

## Main definitions

* `Json.Plain` — no numbers, and distinct keys.

## Main results

* `parseString_flatMap_escape` — strings.
* `loads_dumps` — values.
-/

namespace Doda

mutual

/-- A value without numbers whose objects have distinct keys. -/
def Json.Plain : Json → Prop
  | .null | .bool _ | .str _ => True
  | .int _ | .float _ => False
  | .arr xs => plainAll xs
  | .obj kvs => (kvs.map (·.1)).Nodup ∧ plainFields kvs

def plainAll : List Json → Prop
  | [] => True
  | x :: xs => x.Plain ∧ plainAll xs

def plainFields : List (String × Json) → Prop
  | [] => True
  | (_, v) :: kvs => v.Plain ∧ plainFields kvs

end

/-! ## Strings -/

theorem hexValue_hexDigit {n : ℕ} (h : n < 16) : hexValue (hexDigit n) = some n := by
  have key : ∀ a : Fin 16, hexValue (hexDigit a) = some a.1 := by decide
  exact key ⟨n, h⟩

theorem parseHex_hex {n : ℕ} (h : n < 65536) (rest : List Char) :
    parseHex (hex 4 n ++ rest) = some (n, rest) := by
  have hmod : ∀ m, m % 16 < 16 := fun m => Nat.mod_lt _ (by decide)
  simp only [hex, List.nil_append, List.cons_append, parseHex, hexValue_hexDigit (hmod _),
    Option.bind_eq_bind, Option.bind_some, Option.pure_def, Option.some.injEq, Prod.mk.injEq,
    and_true]
  omega

private theorem scalar_cases (c : Char) :
    c.toNat < 0xD800 ∨ (0xE000 ≤ c.toNat ∧ c.toNat < 0x110000) := by
  have := c.valid
  simp only [UInt32.isValidChar, Nat.isValidChar] at this
  simp only [Char.toNat]
  omega

/-- A code unit that is no surrogate. -/
theorem parseEscape_unit {c : Char} (hc : c.toNat < 65536) (rest : List Char) :
    parseEscape ('u' :: (hex 4 c.toNat ++ rest)) = some (c, rest) := by
  have hs := scalar_cases c
  rw [parseEscape, parseHex_hex hc]
  dsimp only [Option.bind_eq_bind, Option.bind_some]
  rw [if_neg (by omega), if_neg (by omega), Char.ofNat_toNat]
  rfl

/-- A surrogate pair, by its code units. -/
theorem parseEscape_surrogates {high low : ℕ} (hh : 0xD800 ≤ high ∧ high ≤ 0xDBFF)
    (hl : 0xDC00 ≤ low ∧ low ≤ 0xDFFF) (rest : List Char) :
    parseEscape ('u' :: (hex 4 high ++ '\\' :: 'u' :: (hex 4 low ++ rest))) =
      some (Char.ofNat (0x10000 + (high - 0xD800) * 0x400 + (low - 0xDC00)), rest) := by
  rw [parseEscape, parseHex_hex (by omega)]
  dsimp only [Option.bind_eq_bind, Option.bind_some]
  rw [if_pos hh]
  simp only [parseHex_hex (show low < 65536 by omega), Option.bind_some, if_pos hl, Option.pure_def]

/-- A surrogate pair. -/
theorem parseEscape_pair {c : Char} (hc : 65536 ≤ c.toNat) (rest : List Char) :
    parseEscape ('u' :: (hex 4 (55296 + (c.toNat - 65536) / 1024) ++
      '\\' :: 'u' :: (hex 4 (56320 + (c.toNat - 65536) % 1024) ++ rest))) = some (c, rest) := by
  have hs := scalar_cases c
  rw [parseEscape_surrogates (by omega) (by omega)]
  have hsum : 0x10000 + (55296 + (c.toNat - 65536) / 1024 - 0xD800) * 0x400 +
      (56320 + (c.toNat - 65536) % 1024 - 0xDC00) = c.toNat := by omega
  rw [hsum, Char.ofNat_toNat]

theorem parseString_escaped {n : ℕ} {c : Char} {s rest : List Char}
    (h : parseEscape s = some (c, rest)) : parseString (n + 1) ('\\' :: s) =
      (parseString n rest).map fun p => (c :: p.1, p.2) := by
  rw [parseString]
  simp only [h, Option.bind_eq_bind, Option.bind_some, Option.pure_def]
  cases parseString n rest <;> rfl

private theorem char_eq_ofNat {c : Char} {n : ℕ} (h : c.toNat = n) : c = Char.ofNat n := by
  rw [← h, Char.ofNat_toNat]

/-- **One character.** -/
theorem parseString_escape (n : ℕ) (c : Char) (rest : List Char) :
    parseString (n + 1) (escape c ++ rest) =
      (parseString n rest).map fun p => (c :: p.1, p.2) := by
  unfold escape
  split_ifs with h₁ h₂ h₃ h₄ h₅ h₆ h₇ h₈ h₉
  · exact parseString_escaped (by rw [h₁]; rfl)
  · exact parseString_escaped (by rw [h₂]; rfl)
  · exact parseString_escaped (by rw [h₃]; rfl)
  · exact parseString_escaped (by rw [h₄]; rfl)
  · exact parseString_escaped (by rw [h₅]; rfl)
  · exact parseString_escaped (by rw [char_eq_ofNat h₆]; rfl)
  · exact parseString_escaped (by rw [char_eq_ofNat h₇]; rfl)
  · rw [List.singleton_append, parseString]
    · rw [if_neg (by omega)]
      cases parseString n rest <;> rfl
    · exact h₁
    · exact h₂
  · exact parseString_escaped (parseEscape_unit h₉ rest)
  · rw [List.append_assoc]
    exact parseString_escaped (parseEscape_pair (by omega) rest)

/-- **A string is read back.** -/
theorem parseString_flatMap_escape {cs : List Char} {n : ℕ} (hn : cs.length < n)
    (rest : List Char) :
    parseString n (cs.flatMap escape ++ '"' :: rest) = some (cs, rest) := by
  induction cs generalizing n with
  | nil =>
    obtain ⟨m, rfl⟩ : ∃ m, n = m + 1 := ⟨n - 1, by simp at hn; omega⟩
    rfl
  | cons c cs ih =>
    obtain ⟨m, rfl⟩ : ∃ m, n = m + 1 := ⟨n - 1, by simp at hn; omega⟩
    rw [List.flatMap_cons, List.append_assoc, parseString_escape, ih (by simpa using hn)]
    rfl

theorem escape_ne_nil (c : Char) : escape c ≠ [] := by
  unfold escape
  split_ifs <;> simp [unicodeEscape]

theorem length_le_flatMap_escape (cs : List Char) : cs.length ≤ (cs.flatMap escape).length := by
  induction cs with
  | nil => simp
  | cons c cs ih =>
    have := List.length_pos_iff.2 (escape_ne_nil c)
    simp only [List.length_cons, List.flatMap_cons, List.length_append]
    omega

/-- After the opening quotation mark, with all the rest as its bound. -/
theorem parseString_quote (s : String) (rest : List Char) :
    parseString ((s.toList.flatMap escape ++ '"' :: rest).length + 1)
      (s.toList.flatMap escape ++ '"' :: rest) = some (s.toList, rest) := by
  refine parseString_flatMap_escape ?_ rest
  have := length_le_flatMap_escape s.toList
  simp only [List.length_append, List.length_cons]
  omega

/-! ## Values -/

/-- What the text of a plain value begins with. -/
def opens : List Char := ['n', 't', 'f', '"', '[', '\x7b']

theorem skipBlanks_of_opens {c : Char} (hc : c ∈ opens) (s : List Char) :
    skipBlanks (c :: s) = c :: s := by
  have key : ∀ c ∈ opens, ¬ (c = ' ' ∨ c = '\t' ∨ c = '\n' ∨ c = '\r') := by simp [opens]
  rw [skipBlanks, if_neg (key c hc)]

@[simp] theorem skipBlanks_blank (s : List Char) : skipBlanks (' ' :: s) = skipBlanks s := by
  rw [skipBlanks, if_pos (.inl rfl)]

theorem Json.Plain.text_opens {v : Json} (hv : v.Plain) :
    ∃ c ∈ opens, ∃ s, v.text = c :: s := by
  cases v with
  | null => exact ⟨'n', by decide, _, rfl⟩
  | bool b =>
    cases b with
    | true => exact ⟨'t', by decide, _, rfl⟩
    | false => exact ⟨'f', by decide, _, rfl⟩
  | int n | float r => exact absurd hv (by simp [Json.Plain])
  | str s => exact ⟨'"', by decide, _, by rw [Json.text, quote]⟩
  | arr xs => exact ⟨'[', by decide, _, by rw [Json.text]⟩
  | obj kvs => exact ⟨'\x7b', by decide, _, by rw [Json.text]⟩

theorem skipBlanks_text {v : Json} (hv : v.Plain) (rest : List Char) :
    skipBlanks (v.text ++ rest) = v.text ++ rest := by
  obtain ⟨c, hc, s, hs⟩ := hv.text_opens
  rw [hs, List.cons_append]
  exact skipBlanks_of_opens hc _

theorem parseLiteral_eq_none {c : Char} (hc : c = '"' ∨ c = '[' ∨ c = '\x7b') (s : List Char) :
    parseLiteral (c :: s) = none := by
  have hnone : literals.find? (fun l => l.1.isPrefixOf (c :: s)) = none := by
    rw [List.find?_eq_none]
    rcases hc with rfl | rfl | rfl <;> simp [literals]
  rw [parseLiteral, hnone]
  rfl

theorem putField_of_notMem {k : String} {v : Json} {kvs : List (String × Json)}
    (h : k ∉ kvs.map (·.1)) : putField k v kvs = kvs ++ [(k, v)] := by
  induction kvs with
  | nil => rfl
  | cons kv kvs ih =>
    obtain ⟨k', v'⟩ := kv
    simp only [List.map_cons, List.mem_cons, not_or] at h
    rw [putField, if_neg (Ne.symm h.1), ih h.2]
    rfl

theorem elementsText_opens {x : Json} (hx : x.Plain) (xs : List Json) (rest : List Char) :
    ∃ c ∈ opens, ∃ s, elementsText (x :: xs) ++ rest = c :: s := by
  obtain ⟨c, hc, s, hs⟩ := hx.text_opens
  cases xs with
  | nil => exact ⟨c, hc, _, by rw [elementsText, hs, List.cons_append]⟩
  | cons y xs => exact ⟨c, hc, _, by rw [elementsText, hs, List.cons_append, List.cons_append]⟩

theorem fieldsText_opens (kv : String × Json) (kvs : List (String × Json)) :
    ∃ s, fieldsText (kv :: kvs) = '"' :: s := by
  cases kvs with
  | nil => exact ⟨_, by rw [fieldsText, fieldText, quote, List.cons_append]⟩
  | cons kv' kvs =>
    exact ⟨_, by rw [fieldsText, fieldText, quote, List.cons_append, List.cons_append]⟩

theorem ok_bind {ε α β : Type} (a : α) (f : α → Except ε β) : (Except.ok a >>= f) = f a := rfl

section Values

variable [JsonText]

/-- An array that is not empty. -/
theorem parseValue_elements {n d : ℕ} {xs : List Json} {s rest : List Char}
    (hs : ∃ c ∈ opens, ∃ s', s = c :: s') (h : parseElements n d s = .ok (xs, rest)) :
    parseValue (n + 1) (d + 1) ('[' :: s) = .ok (.arr xs, rest) := by
  obtain ⟨c, hc, s', rfl⟩ := hs
  rw [parseValue, parseLiteral_eq_none (.inr (.inl rfl))]
  dsimp only
  rw [skipBlanks_of_opens hc]
  split
  · rename_i heq
    cases heq
    exact absurd hc (by decide)
  · rw [h]
    rfl

/-- An object that is not empty. -/
theorem parseValue_fields {n d : ℕ} {kvs : List (String × Json)} {s rest : List Char}
    (h : parseFields n d [] ('"' :: s) = .ok (kvs, rest)) :
    parseValue (n + 1) (d + 1) ('\x7b' :: '"' :: s) = .ok (.obj kvs, rest) := by
  rw [parseValue, parseLiteral_eq_none (.inr (.inr rfl))]
  dsimp only
  rw [skipBlanks_of_opens (by decide)]
  split
  · rename_i heq
    cases heq
  · rw [h]
    rfl

theorem parseElements_blank (n d : ℕ) (s : List Char) :
    parseElements n d (' ' :: s) = parseElements n d s := by
  cases n with
  | zero => rfl
  | succ n => rw [parseElements, parseElements, skipBlanks_blank]

theorem parseFields_blank (n d : ℕ) (kvs : List (String × Json)) (s : List Char) :
    parseFields n d kvs (' ' :: s) = parseFields n d kvs s := by
  cases n with
  | zero => rfl
  | succ n => rw [parseFields, parseFields, skipBlanks_blank]

/-- The last element of an array. -/
theorem parseElements_last {n d : ℕ} {x : Json} {s rest : List Char} (hs : skipBlanks s = s)
    (h : parseValue n d s = .ok (x, ']' :: rest)) :
    parseElements (n + 1) d s = .ok ([x], rest) := by
  rw [parseElements, hs, h]
  rfl

/-- An element with more behind it. -/
theorem parseElements_more {n d : ℕ} {x : Json} {xs : List Json} {s rest rest' : List Char}
    (hs : skipBlanks s = s) (h : parseValue n d s = .ok (x, ',' :: ' ' :: rest))
    (hrest : parseElements n d rest = .ok (xs, rest')) :
    parseElements (n + 1) d s = .ok (x :: xs, rest') := by
  rw [parseElements, hs, h, ok_bind]
  dsimp only
  rw [skipBlanks, if_neg (by decide)]
  simp only [parseElements_blank, hrest, ok_bind]
  rfl

/-- A field, up to what stands behind it. -/
theorem parseFields_field {n d : ℕ} {kvs : List (String × Json)} {k : String} {v : Json}
    {s rest : List Char} (hk : k ∉ kvs.map (·.1)) (hs : skipBlanks s = s)
    (h : parseValue n d s = .ok (v, rest)) :
    parseFields (n + 1) d kvs (quote k ++ ':' :: ' ' :: s) =
      match skipBlanks rest with
      | '\x7d' :: s => .ok (kvs ++ [(k, v)], s)
      | ',' :: s => parseFields n d (kvs ++ [(k, v)]) s
      | _ => .error "JSONDecodeError" := by
  rw [parseFields, quote, List.cons_append, List.append_assoc, skipBlanks_of_opens (by decide)]
  simp only [List.singleton_append, parseString_quote, decoded, ok_bind]
  rw [skipBlanks, if_neg (by decide)]
  simp only [skipBlanks_blank, hs, h, ok_bind, String.ofList_toList, putField_of_notMem hk]
  rfl

mutual

/-- **A value is read back**, with more text behind it. -/
theorem parseValue_text : (v : Json) → v.Plain → ∀ {n d : ℕ}, v.text.length < n →
    v.text.length ≤ d → ∀ rest, parseValue n d (v.text ++ rest) = .ok (v, rest)
  | .null, _, n + 1, _, _, _, rest => by
    simp [Json.text, parseValue, parseLiteral, literals]
    rfl
  | .bool true, _, n + 1, _, _, _, rest => by
    simp [Json.text, parseValue, parseLiteral, literals]
    rfl
  | .bool false, _, n + 1, _, _, _, rest => by
    simp [Json.text, parseValue, parseLiteral, literals]
    rfl
  | .int _, hv, _, _, _, _, _ => absurd hv (by simp [Json.Plain])
  | .float _, hv, _, _, _, _, _ => absurd hv (by simp [Json.Plain])
  | .str s, _, n + 1, _, _, _, rest => by
    rw [Json.text, quote, List.cons_append, List.append_assoc, parseValue,
      parseLiteral_eq_none (.inl rfl)]
    dsimp only [List.singleton_append]
    rw [parseString_quote, decoded, ok_bind, String.ofList_toList]
    rfl
  | .arr [], _, n + 1, d + 1, _, _, rest => by
    rw [Json.text, List.cons_append, parseValue, parseLiteral_eq_none (.inr (.inl rfl))]
    rfl
  | .arr (x :: xs), hv, n + 1, d + 1, hn, hd, rest => by
    simp only [Json.text, List.length_cons, List.length_append, List.length_nil] at hn hd
    rw [Json.text, List.cons_append, List.append_assoc]
    exact parseValue_elements (elementsText_opens hv.1 xs _)
      (parseElements_text x xs hv.1 hv.2 (by omega) (by omega) rest)
  | .obj [], _, n + 1, d + 1, _, _, rest => by
    rw [Json.text, List.cons_append, parseValue, parseLiteral_eq_none (.inr (.inr rfl))]
    rfl
  | .obj (kv :: kvs), hv, n + 1, d + 1, hn, hd, rest => by
    simp only [Json.text, List.length_cons, List.length_append, List.length_nil] at hn hd
    have hread : parseFields n d [] (fieldsText (kv :: kvs) ++ (['\x7d'] ++ rest)) =
        .ok ([] ++ kv :: kvs, rest) :=
      parseFields_text kv kvs hv.2 [] hv.1 (by omega) (by omega) rest
    obtain ⟨s, hs⟩ := fieldsText_opens kv kvs
    rw [Json.text, List.cons_append, List.append_assoc, hs, List.cons_append]
    rw [hs, List.cons_append] at hread
    exact parseValue_fields hread
  | .arr _, _, _ + 1, 0, _, hd, _ | .obj _, _, _ + 1, 0, _, hd, _ => by
    simp [Json.text] at hd

theorem parseElements_text : (x : Json) → (xs : List Json) → x.Plain → plainAll xs →
    ∀ {n d : ℕ}, (elementsText (x :: xs)).length + 1 < n →
    (elementsText (x :: xs)).length ≤ d → ∀ rest,
    parseElements n d (elementsText (x :: xs) ++ ([']'] ++ rest)) = .ok (x :: xs, rest)
  | x, [], hx, _, n + 1, d, hn, hd, rest => by
    rw [elementsText] at hn hd ⊢
    exact parseElements_last (skipBlanks_text hx _) (parseValue_text x hx (by omega) hd _)
  | x, y :: xs, hx, hxs, n + 1, d, hn, hd, rest => by
    rw [elementsText] at hn hd ⊢
    simp only [List.length_append, List.length_cons] at hn hd
    rw [List.append_assoc]
    exact parseElements_more (skipBlanks_text hx _) (parseValue_text x hx (by omega) (by omega) _)
      (parseElements_text y xs hxs.1 hxs.2 (by omega) (by omega) rest)

theorem parseFields_text : (kv : String × Json) → (kvs : List (String × Json)) →
    plainFields (kv :: kvs) → (before : List (String × Json)) →
    ((before ++ kv :: kvs).map (·.1)).Nodup → ∀ {n d : ℕ},
    (fieldsText (kv :: kvs)).length + 1 < n → (fieldsText (kv :: kvs)).length ≤ d → ∀ rest,
    parseFields n d before (fieldsText (kv :: kvs) ++ (['\x7d'] ++ rest)) =
      .ok (before ++ kv :: kvs, rest)
  | (k, v), [], hv, before, hnodup, n + 1, d, hn, hd, rest => by
    have hk : k ∉ before.map (·.1) := by
      intro hmem
      rw [List.map_append, List.nodup_append] at hnodup
      exact hnodup.2.2 k hmem k (by simp) rfl
    rw [fieldsText, fieldText] at hn hd ⊢
    simp only [List.length_append, List.length_cons] at hn hd
    rw [List.append_assoc, List.cons_append, List.cons_append,
      parseFields_field hk (skipBlanks_text hv.1 _)
        (parseValue_text v hv.1 (by omega) (by omega) _)]
    rfl
  | (k, v), kv' :: kvs, hv, before, hnodup, n + 1, d, hn, hd, rest => by
    have hk : k ∉ before.map (·.1) := by
      intro hmem
      rw [List.map_append, List.nodup_append] at hnodup
      exact hnodup.2.2 k hmem k (by simp) rfl
    rw [fieldsText, fieldText] at hn hd ⊢
    simp only [List.length_append, List.length_cons] at hn hd
    rw [List.append_assoc, List.append_assoc, List.cons_append, List.cons_append,
      parseFields_field hk (skipBlanks_text hv.1 _)
        (parseValue_text v hv.1 (by omega) (by omega) _),
      List.cons_append, List.cons_append, skipBlanks, if_neg (by decide)]
    have hread := parseFields_text kv' kvs hv.2 (before ++ [(k, v)]) (by simpa using hnodup)
      (n := n) (d := d) (by omega) (by omega) rest
    simpa [parseFields_blank] using hread

end

/-- **What is written is read back**, where its nesting is no matter. -/
theorem loads_dumps {v : Json} (hv : v.Plain) {nesting : ℕ} (hd : v.text.length ≤ nesting) :
    loadsWithin nesting v.dumps = .ok v := by
  have hskip := skipBlanks_text hv []
  have hread := parseValue_text v hv (n := 2 * v.text.length + 2) (by omega) hd []
  rw [List.append_nil] at hskip hread
  simp only [loadsWithin, Json.dumps, String.toList_ofList, hskip, hread, ok_bind]
  rfl

end Values

end Doda
