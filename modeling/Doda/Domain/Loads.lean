import Doda.Domain.Json

/-!
# Reading and writing JSON text

`dumps` is `json.dumps` as it is called without options: fields in their own order,
and a blank after every comma and colon.

`loads` is `json.loads`: a value with blanks around it and nothing else.  A later
field of an object replaces an earlier one of the same name.  How a number with a
fraction or an exponent is written back, and how deep arrays and objects may nest
before the interpreter's recursion limit is reached, is the class `JsonText`.

A lone surrogate, which `json.loads` keeps, has no `Char`; it is read as the
replacement character.

## Main definitions

* `Json.dumps` — `json.dumps`.
* `JsonText` — what the interpreter makes of JSON text.
* `parseString`, `parseNumber`, `parseValue` — what a text begins with.
* `loads` — `json.loads`; the class of the exception where it raises.
* `loads_raises` — it raises `jsonErrors` alone.
-/

namespace Doda

/-! ## Writing -/

mutual

/-- The text of a value. -/
def Json.text : Json → List Char
  | .null => "null".toList
  | .bool true => "true".toList
  | .bool false => "false".toList
  | .int n => (toString n).toList
  | .float r => r.1.toList
  | .str s => quote s
  | .arr xs => '[' :: (elementsText xs ++ [']'])
  | .obj kvs => '{' :: (fieldsText kvs ++ ['}'])

def elementsText : List Json → List Char
  | [] => []
  | [x] => x.text
  | x :: y :: xs => x.text ++ ',' :: ' ' :: elementsText (y :: xs)

def fieldsText : List (String × Json) → List Char
  | [] => []
  | [kv] => fieldText kv
  | kv :: kv' :: kvs => fieldText kv ++ ',' :: ' ' :: fieldsText (kv' :: kvs)

def fieldText : String × Json → List Char
  | (k, v) => quote k ++ ':' :: ' ' :: v.text

end

/-- `json.dumps`. -/
def Json.dumps (v : Json) : String := String.ofList v.text

/-- No value has an empty text. -/
theorem Json.dumps_ne_empty (v : Json) : v.dumps ≠ "" := by
  rw [Json.dumps, ne_eq, String.ofList_eq_empty_iff]
  cases v with
  | null => decide
  | bool b => cases b <;> decide
  | int n =>
    rw [Json.text, String.toList_eq_nil_iff]
    cases n with
    | ofNat n => exact Nat.repr_ne_empty
    | negSucc n =>
      intro h
      have : (Int.negSucc n).repr = "" := h
      simp [Int.repr] at this
  | float r => simpa [Json.text] using r.2
  | str s => simp [Json.text, quote]
  | arr xs | obj kvs => simp [Json.text]

/-! ## Reading -/

/-- What the interpreter makes of JSON text. -/
class JsonText where
  /-- `json.dumps(float(text))`. -/
  floatRepr : String → FloatRepr
  /-- How deep arrays and objects nest that its recursion limit lets `json.loads` read. -/
  nesting : ℕ

theorem isOk_iff {α : Type} {x : Except String α} : x.isOk ↔ ∃ a, x = .ok a := by
  cases x <;> simp [Except.isOk, Except.toBool]

/-- `json.JSONDecodeError`, where there is nothing to read. -/
def decoded {α : Type} : Option α → Except String α
  | some x => .ok x
  | none => .error "JSONDecodeError"

/-- Skip blanks. -/
def skipBlanks : List Char → List Char
  | c :: s => if c = ' ' ∨ c = '\t' ∨ c = '\n' ∨ c = '\r' then skipBlanks s else c :: s
  | [] => []

/-- The value of a hexadecimal digit, of either case. -/
def hexValue (c : Char) : Option ℕ :=
  if '0' ≤ c ∧ c ≤ '9' then some (c.toNat - 48)
  else if 'a' ≤ c ∧ c ≤ 'f' then some (c.toNat - 87)
  else if 'A' ≤ c ∧ c ≤ 'F' then some (c.toNat - 55)
  else none

/-- Four hexadecimal digits. -/
def parseHex : List Char → Option (ℕ × List Char)
  | a :: b :: c :: d :: s => do
    let a ← hexValue a
    let b ← hexValue b
    let c ← hexValue c
    let d ← hexValue d
    return (((a * 16 + b) * 16 + c) * 16 + d, s)
  | _ => none

/-- A character escape, after the backslash. -/
def parseEscape : List Char → Option (Char × List Char)
  | 'u' :: s => do
    let (high, s) ← parseHex s
    if 0xD800 ≤ high ∧ high ≤ 0xDBFF then
      match s with
      | '\\' :: 'u' :: s' => do
        let (low, s'') ← parseHex s'
        if 0xDC00 ≤ low ∧ low ≤ 0xDFFF then
          return (Char.ofNat (0x10000 + (high - 0xD800) * 0x400 + (low - 0xDC00)), s'')
        else return (replacement, s)
      | _ => return (replacement, s)
    else if 0xDC00 ≤ high ∧ high ≤ 0xDFFF then return (replacement, s)
    else return (Char.ofNat high, s)
  | '"' :: s => some ('"', s)
  | '\\' :: s => some ('\\', s)
  | '/' :: s => some ('/', s)
  | 'b' :: s => some (Char.ofNat 8, s)
  | 'f' :: s => some (Char.ofNat 12, s)
  | 'n' :: s => some ('\n', s)
  | 'r' :: s => some ('\r', s)
  | 't' :: s => some ('\t', s)
  | _ => none
where
  /-- What a lone surrogate is read as. -/
  replacement : Char := Char.ofNat 0xFFFD

/-- The rest of a string, after its opening quotation mark, within `n` characters. -/
def parseString : ℕ → List Char → Option (List Char × List Char)
  | 0, _ => none
  | n + 1, s =>
    match s with
    | [] => none
    | '"' :: s => some ([], s)
    | '\\' :: s => do
      let (c, s) ← parseEscape s
      let (cs, s) ← parseString n s
      return (c :: cs, s)
    | c :: s =>
      -- control characters must be escaped
      if c.toNat < 32 then none
      else do
        let (cs, s) ← parseString n s
        return (c :: cs, s)

/-- The digits a text begins with. -/
def takeDigits (s : List Char) : List Char × List Char :=
  s.span fun c => '0' ≤ c ∧ c ≤ '9'

/-- A fraction: a point and at least one digit, or nothing. -/
def takeFraction (s : List Char) : List Char × List Char :=
  match s with
  | '.' :: s' =>
    let (digits, r) := takeDigits s'
    if digits = [] then ([], s) else ('.' :: digits, r)
  | _ => ([], s)

/-- An exponent with at least one digit, or nothing. -/
def takeExponent (s : List Char) : List Char × List Char :=
  match s with
  | e :: s' =>
    if e = 'e' ∨ e = 'E' then
      let (sign, s'') :=
        match s' with
        | '+' :: r => (['+'], r)
        | '-' :: r => (['-'], r)
        | r => ([], r)
      let (digits, r) := takeDigits s''
      if digits = [] then ([], s) else (e :: (sign ++ digits), r)
    else ([], s)
  | [] => ([], s)

/-- The number that digits write. -/
def digitsValue (ds : List Char) : ℕ := ds.foldl (fun n c => n * 10 + (c.toNat - 48)) 0

/-- `sys.get_int_max_str_digits()`: `int` refuses a text with more digits. -/
def intMaxStrDigits : ℕ := 4300

/-- A number. -/
def parseNumber [JsonText] (s : List Char) : Except String (Json × List Char) :=
  let (sign, s) :=
    match s with
    | '-' :: r => (['-'], r)
    | r => ([], r)
  let (whole, s) :=
    match s with
    | '0' :: r => (['0'], r)
    | r => takeDigits r
  if whole = [] then throw "JSONDecodeError"
  else
    let (fraction, s) := takeFraction s
    let (exponent, s) := takeExponent s
    if fraction = [] ∧ exponent = [] then
      if intMaxStrDigits < whole.length then throw "ValueError"
      else
        let n : ℤ := digitsValue whole
        return (.int (if sign = [] then n else -n), s)
    else
      return (.float (JsonText.floatRepr (String.ofList (sign ++ whole ++ fraction ++ exponent))),
        s)

/-- Put a field into an object, in place of one of the same name. -/
def putField (k : String) (v : Json) : List (String × Json) → List (String × Json)
  | [] => [(k, v)]
  | (k', v') :: kvs => if k' = k then (k, v) :: kvs else (k', v') :: putField k v kvs

/-- The constants of the format, by the text of each. -/
def literals : List (List Char × Json) :=
  [("null".toList, .null), ("true".toList, .bool true), ("false".toList, .bool false),
    ("NaN".toList, .float ⟨"NaN", by decide⟩),
    ("Infinity".toList, .float ⟨"Infinity", by decide⟩),
    ("-Infinity".toList, .float ⟨"-Infinity", by decide⟩)]

/-- A constant. -/
def parseLiteral (s : List Char) : Option (Json × List Char) :=
  (literals.find? fun l => l.1.isPrefixOf s).map fun l => (l.2, s.drop l.1.length)

mutual

/-- The value a text begins with, within `n` steps and nested at most `d` deep. -/
def parseValue [JsonText] : ℕ → ℕ → List Char → Except String (Json × List Char)
  | 0, _, _ => throw "JSONDecodeError"
  | n + 1, d, s =>
    match parseLiteral s with
    | some r => return r
    | none =>
    match s with
    | '"' :: s => do
      let (cs, s) ← decoded (parseString (s.length + 1) s)
      return (.str (String.ofList cs), s)
    | '[' :: s =>
      match d with
      | 0 => throw "RecursionError"
      | d + 1 =>
        match skipBlanks s with
        | ']' :: s => return (.arr [], s)
        | s => do
          let (xs, s) ← parseElements n d s
          return (.arr xs, s)
    | '{' :: s =>
      match d with
      | 0 => throw "RecursionError"
      | d + 1 =>
        match skipBlanks s with
        | '}' :: s => return (.obj [], s)
        | s => do
          let (kvs, s) ← parseFields n d [] s
          return (.obj kvs, s)
    | s => parseNumber s

/-- The elements of an array, from one of them on. -/
def parseElements [JsonText] : ℕ → ℕ → List Char → Except String (List Json × List Char)
  | 0, _, _ => throw "JSONDecodeError"
  | n + 1, d, s => do
    let (x, s) ← parseValue n d (skipBlanks s)
    match skipBlanks s with
    | ']' :: s => return ([x], s)
    | ',' :: s => do
      let (xs, s) ← parseElements n d s
      return (x :: xs, s)
    | _ => throw "JSONDecodeError"

/-- The fields of an object, from one of them on, after those before it. -/
def parseFields [JsonText] : ℕ → ℕ → List (String × Json) → List Char →
    Except String (List (String × Json) × List Char)
  | 0, _, _, _ => throw "JSONDecodeError"
  | n + 1, d, kvs, s =>
    match skipBlanks s with
    | '"' :: s => do
      let (k, s) ← decoded (parseString (s.length + 1) s)
      match skipBlanks s with
      | ':' :: s => do
        let (v, s) ← parseValue n d (skipBlanks s)
        let kvs := putField (String.ofList k) v kvs
        match skipBlanks s with
        | '}' :: s => return (kvs, s)
        | ',' :: s => parseFields n d kvs s
        | _ => throw "JSONDecodeError"
      | _ => throw "JSONDecodeError"
    | _ => throw "JSONDecodeError"

end

/-- `json.loads`, where arrays and objects may nest `nesting` deep. -/
def loadsWithin [JsonText] (nesting : ℕ) (text : String) : Except String Json := do
  let s := text.toList
  -- an array or object takes two steps for its opening bracket
  let (v, s) ← parseValue (2 * s.length + 2) nesting (skipBlanks s)
  if skipBlanks s = [] then return v else throw "JSONDecodeError"

/-- `json.loads`. -/
def loads [JsonText] (text : String) : Except String Json := loadsWithin JsonText.nesting text

/-! ## What is raised -/

/-- The exceptions of `json.loads`. -/
def jsonErrors : List String := ["JSONDecodeError", "ValueError", "RecursionError"]

/-- The reader raises nothing else. -/
def RaisesJson {α : Type} (x : Except String α) : Prop :=
  ∀ exception, x = .error exception → exception ∈ jsonErrors

namespace RaisesJson

variable {α β : Type}

theorem ok (a : α) : RaisesJson (.ok a : Except String α) := nofun

theorem throw {exception : String} (h : exception ∈ jsonErrors) :
    RaisesJson (throw exception : Except String α) := by
  rintro _ ⟨⟩
  exact h

theorem bind {x : Except String β} {f : β → Except String α} (hx : RaisesJson x)
    (hf : ∀ b, RaisesJson (f b)) : RaisesJson (x >>= f) := by
  cases x with
  | ok b => exact hf b
  | error exception =>
    rintro _ ⟨⟩
    exact hx _ rfl

theorem decoded (x : Option α) : RaisesJson (Doda.decoded x) := by
  cases x with
  | none => exact throw (by decide)
  | some a => exact ok a

end RaisesJson

section Raises

variable [JsonText]

theorem parseNumber_raises (s : List Char) : RaisesJson (parseNumber s) := by
  unfold parseNumber
  dsimp only
  repeat' split
  all_goals first | exact .ok _ | exact .throw (by decide)

theorem parse_raises (n : ℕ) : ∀ d s, RaisesJson (parseValue n d s) ∧
    RaisesJson (parseElements n d s) ∧ ∀ kvs, RaisesJson (parseFields n d kvs s) := by
  induction n with
  | zero => exact fun _ _ => ⟨.throw (by decide), .throw (by decide), fun _ => .throw (by decide)⟩
  | succ n ih =>
    refine fun d s => ⟨?_, ?_, fun kvs => ?_⟩
    · rw [parseValue.eq_def]
      dsimp only
      split
      · exact .ok _
      split
      · exact .bind (.decoded _) fun _ => .ok _
      · split
        · exact .throw (by decide)
        split
        · exact .ok _
        · exact .bind (ih _ _).2.1 fun _ => .ok _
      · split
        · exact .throw (by decide)
        split
        · exact .ok _
        · exact .bind ((ih _ _).2.2 _) fun _ => .ok _
      · exact parseNumber_raises _
    · rw [parseElements]
      refine .bind (ih _ _).1 fun x => ?_
      obtain ⟨x, s⟩ := x
      dsimp only
      split
      · exact .ok _
      · exact .bind (ih _ _).2.1 fun _ => .ok _
      · exact .throw (by decide)
    · rw [parseFields]
      split
      · refine .bind (.decoded _) fun x => ?_
        obtain ⟨k, s⟩ := x
        dsimp only
        split
        · refine .bind (ih _ _).1 fun x => ?_
          obtain ⟨v, s⟩ := x
          dsimp only
          split
          · exact .ok _
          · exact (ih _ _).2.2 _
          · exact .throw (by decide)
        · exact .throw (by decide)
      · exact .throw (by decide)

/-- **`json.loads` raises nothing else.** -/
theorem loads_raises (text : String) : RaisesJson (loads text) := by
  refine .bind (parse_raises _ _ _).1 fun x => ?_
  obtain ⟨v, s⟩ := x
  dsimp only
  split
  · exact .ok _
  · exact .throw (by decide)

end Raises

section

local instance : JsonText := ⟨fun _ => ⟨"0.0", by decide⟩, 2⟩

example : (loads " \x7b\"a\": [1, -20], \"b\":\"\\u045e\\n\", \"a\":null\x7d").toOption.map
      Json.dumps =
    some "\x7b\"a\": null, \"b\": \"\\u045e\\n\"\x7d" := by decide +kernel

/-- One level too deep, whatever comes after it. -/
example : loads "[[[" matches .error "RecursionError" := by decide +kernel

end

end Doda
