import Mathlib
import Doda.Domain.Json

/-!
# The canonical text determines the value

`canonicalJson` leaves no blanks and sorts the keys, so two values have one text
exactly if they differ in nothing but the order of their objects' members.  In one
direction the sorted lists of members agree.  In the other the text of a value ends
where it says it ends: a string at its quotation mark, an array or an object at its
bracket, and the literals and numbers before the first comma or closing bracket.

## Main definitions

* `Json.Proper` — finite floats, and distinct keys in every object.
* `Json.Same` — equal up to the order of object members at every depth.

## Main results

* `dump_append_inj` — a value's text is self-delimiting.
* `canonicalJson_eq_iff` — one text, one value.
-/

namespace Doda

/-! ## Values -/

/-- The characters of a number. -/
def numeral (c : Char) : Bool := c.isDigit || c ∈ ['-', '+', '.', 'e']

/-- The text of a finite float has a point or an exponent, which no integer has. -/
def FloatRepr.Finite (r : FloatRepr) : Prop :=
  r.1.toList.all numeral ∧ r.1.toList.any (· ∈ ['.', 'e'])

instance (r : FloatRepr) : Decidable r.Finite := inferInstanceAs (Decidable (_ ∧ _))

mutual

/-- Floats are finite, and the keys of every object are distinct. -/
def Json.Proper : Json → Prop
  | .null | .bool _ | .int _ | .str _ => True
  | .float r => r.Finite
  | .arr xs => properAll xs
  | .obj kvs => (kvs.map (·.1)).Nodup ∧ properFields kvs

def properAll : List Json → Prop
  | [] => True
  | x :: xs => x.Proper ∧ properAll xs

def properFields : List (String × Json) → Prop
  | [] => True
  | (_, v) :: kvs => v.Proper ∧ properFields kvs

end

mutual

/-- Equal up to the order of object members, at every depth. -/
def Json.Same : Json → Json → Prop
  | .arr xs, .arr ys => sameAll xs ys
  | .obj kvs, .obj lws => ∃ kws, sameFields kvs kws ∧ kws.Perm lws
  | v, w => v = w

def sameAll : List Json → List Json → Prop
  | [], [] => True
  | x :: xs, y :: ys => x.Same y ∧ sameAll xs ys
  | _, _ => False

def sameFields : List (String × Json) → List (String × Json) → Prop
  | [], [] => True
  | (k, v) :: kvs, (l, w) :: lws => (k = l ∧ v.Same w) ∧ sameFields kvs lws
  | _, _ => False

end

theorem properAll_iff {xs : List Json} : properAll xs ↔ ∀ x ∈ xs, x.Proper := by
  induction xs with
  | nil => simp [properAll]
  | cons x xs ih => simp [properAll, ih]

theorem properFields_iff {kvs : List (String × Json)} :
    properFields kvs ↔ ∀ kv ∈ kvs, kv.2.Proper := by
  induction kvs with
  | nil => simp [properFields]
  | cons kv kvs ih => simp [properFields, ih]

theorem sameAll_iff {xs ys : List Json} : sameAll xs ys ↔ List.Forall₂ Json.Same xs ys := by
  induction xs generalizing ys with
  | nil => cases ys <;> simp [sameAll]
  | cons x xs ih => cases ys <;> simp [sameAll, ih]

/-- Two members with the same key and the same value. -/
def SameField (kv lw : String × Json) : Prop := kv.1 = lw.1 ∧ kv.2.Same lw.2

theorem sameFields_iff {kvs lws : List (String × Json)} :
    sameFields kvs lws ↔ List.Forall₂ SameField kvs lws := by
  induction kvs generalizing lws with
  | nil => cases lws <;> simp [sameFields]
  | cons kv kvs ih => cases lws <;> simp [sameFields, SameField, ih]

theorem dumpAll_eq_map (xs : List Json) : dumpAll xs = xs.map Json.dump := by
  induction xs with
  | nil => rfl
  | cons x xs ih => rw [dumpAll, ih, List.map_cons]

theorem dumpFields_eq_map (kvs : List (String × Json)) :
    dumpFields kvs = kvs.map fun kv => (kv.1, kv.2.dump) := by
  induction kvs with
  | nil => rfl
  | cons kv kvs ih => rw [dumpFields, ih, List.map_cons, dumpField]

/-- The text of one member. -/
def dumpMember (kv : String × Json) : List Char := quote kv.1 ++ ':' :: kv.2.dump

/-- The members of an object, by their keys. -/
def byKey (kvs : List (String × Json)) : List (String × Json) :=
  kvs.insertionSort (·.1 ≤ ·.1)

/-- An object's text lists its members by their keys. -/
theorem dump_obj (kvs : List (String × Json)) :
    (Json.obj kvs).dump = '\x7b' :: (commaSep ((byKey kvs).map dumpMember) ++ ['\x7d']) := by
  rw [Json.dump, dumpFields_eq_map, ← List.map_insertionSort (fun a b => a.1 ≤ b.1) _
    (fun kv => (kv.1, kv.2.dump)) kvs (fun _ _ _ _ => Iff.rfl), List.map_map]
  rfl

theorem dump_arr (xs : List Json) :
    (Json.arr xs).dump = '[' :: (commaSep (xs.map Json.dump) ++ [']']) := by
  rw [Json.dump, dumpAll_eq_map]

/-! ## One text for equal values -/

/-- Sorting by distinct keys leaves nothing of the order before. -/
theorem insertionSort_eq_of_perm_of_nodup {α : Type*} {kvs lws : List (String × α)}
    (hperm : kvs.Perm lws) (hnodup : (lws.map (·.1)).Nodup) :
    kvs.insertionSort (·.1 ≤ ·.1) = lws.insertionSort (·.1 ≤ ·.1) := by
  have hs := List.perm_insertionSort (fun a b : String × α => a.1 ≤ b.1)
  have hpairwise : ∀ l : List (String × α), (l.insertionSort (·.1 ≤ ·.1)).Pairwise (·.1 ≤ ·.1) :=
    fun l => @List.pairwise_insertionSort _ (fun a b : String × α => a.1 ≤ b.1) _
      ⟨fun a b => le_total a.1 b.1⟩ ⟨fun _ _ _ => le_trans⟩ l
  refine List.Perm.eq_of_pairwise ?_ (hpairwise kvs) (hpairwise lws)
    ((hs kvs).trans (hperm.trans (hs lws).symm))
  intro a b ha hb hab hba
  have ha' := hperm.mem_iff.1 ((hs kvs).mem_iff.1 ha)
  exact List.inj_on_of_nodup_map hnodup ha' ((hs lws).mem_iff.1 hb) (le_antisymm hab hba)

theorem sameFields.keys {kvs lws : List (String × Json)} (h : sameFields kvs lws) :
    kvs.map (·.1) = lws.map (·.1) := by
  have hforall := sameFields_iff.1 h
  induction hforall with
  | nil => rfl
  | cons hfield hrest ih =>
    rw [List.map_cons, List.map_cons, hfield.1, ih (sameFields_iff.2 hrest)]

mutual

/-- Equal values have one text. -/
theorem Json.Same.dump : (v : Json) → ∀ {w : Json}, w.Proper → v.Same w → v.dump = w.dump
  | .arr xs, .arr ys, hw, h => by
    rw [Json.dump, Json.dump, sameAll.dump xs hw h]
  | .obj kvs, .obj lws, hw, h => by
    obtain ⟨kws, hsame, hperm⟩ := h
    have hproper : properFields kws :=
      properFields_iff.2 fun kv hkv => properFields_iff.1 hw.2 kv (hperm.mem_iff.1 hkv)
    have hfields : (dumpFields kws).Perm (dumpFields lws) := by
      rw [dumpFields_eq_map, dumpFields_eq_map]
      exact hperm.map _
    have hkeys : ((dumpFields lws).map (·.1)).Nodup := by
      rw [dumpFields_eq_map, List.map_map]
      exact hw.1
    rw [Json.dump, Json.dump, sameFields.dump kvs hproper hsame,
      insertionSort_eq_of_perm_of_nodup hfields hkeys]
  | .null, _, _, h | .bool _, _, _, h | .int _, _, _, h | .float _, _, _, h | .str _, _, _, h => by
    simp only [Json.Same] at h
    rw [h]
  | .arr _, .null, _, h | .arr _, .bool _, _, h | .arr _, .int _, _, h | .arr _, .float _, _, h
  | .arr _, .str _, _, h | .arr _, .obj _, _, h => by simp [Json.Same] at h
  | .obj _, .null, _, h | .obj _, .bool _, _, h | .obj _, .int _, _, h | .obj _, .float _, _, h
  | .obj _, .str _, _, h | .obj _, .arr _, _, h => by simp [Json.Same] at h

theorem sameAll.dump : (xs : List Json) → ∀ {ys : List Json}, properAll ys → sameAll xs ys →
    dumpAll xs = dumpAll ys
  | [], [], _, _ => rfl
  | x :: xs, y :: ys, hys, h => by
    rw [dumpAll, dumpAll, Json.Same.dump x hys.1 h.1, sameAll.dump xs hys.2 h.2]

theorem sameFields.dump : (kvs : List (String × Json)) → ∀ {lws : List (String × Json)},
    properFields lws → sameFields kvs lws → dumpFields kvs = dumpFields lws
  | [], [], _, _ => rfl
  | (k, v) :: kvs, (l, w) :: lws, hlws, h => by
    rw [dumpFields, dumpFields, dumpField, dumpField, h.1.1, Json.Same.dump v hlws.1 h.1.2,
      sameFields.dump kvs hlws.2 h.2]

end

/-! ## One value for equal texts -/

/-- What may stand behind a value. -/
def delimiters : List Char := [',', ']', '\x7d']

/-- Nothing, or a delimiter first. -/
def Delimited (r : List Char) : Prop := ∀ c ∈ r.head?, c ∈ delimiters

/-- The characters of literals and numbers. -/
def wordChar (c : Char) : Bool := c.isAlphanum || c ∈ ['-', '+', '.']

theorem not_wordChar_of_mem_delimiters : ∀ c ∈ delimiters, ¬ wordChar c := by
  intro c hc
  fin_cases hc <;> decide

theorem wordChar_of_numeral {c : Char} (h : numeral c) : wordChar c := by
  simp only [numeral, wordChar, Char.isAlphanum, Bool.or_eq_true, decide_eq_true_eq] at h ⊢
  rcases h with h | h
  · exact .inl (.inr h)
  · fin_cases h <;> decide

theorem takeWhile_word {t r : List Char} (ht : t.all wordChar) (hr : Delimited r) :
    (t ++ r).takeWhile wordChar = t := by
  have hnone : r.takeWhile wordChar = [] := by
    cases r with
    | nil => rfl
    | cons c r =>
      rw [List.takeWhile_cons_of_neg]
      exact not_wordChar_of_mem_delimiters c (hr c rfl)
  rw [List.takeWhile_append_of_pos fun c hc => List.all_eq_true.1 ht c hc, hnone,
    List.append_nil]

/-- A word ends at the first delimiter. -/
theorem word_append_inj {t u r s : List Char} (ht : t.all wordChar) (hu : u.all wordChar)
    (hr : Delimited r) (hs : Delimited s) (h : t ++ r = u ++ s) : t = u ∧ r = s := by
  have htu : t = u := by
    rw [← takeWhile_word ht hr, h, takeWhile_word hu hs]
  subst htu
  exact ⟨rfl, List.append_cancel_left h⟩

/-! ### Literals and numbers -/

/-- The characters of an integer. -/
theorem toList_toString_int (n : ℤ) :
    ∀ c ∈ (toString n).toList, c.isDigit ∨ c = '-' := by
  have hnat : ∀ m : ℕ, ∀ c ∈ m.repr.toList, c.isDigit := by
    intro m c hc
    exact Nat.isDigit_of_mem_toDigits (b := 10) (by decide) (by decide)
      (by simpa [Nat.repr] using hc)
  intro c hc
  change c ∈ n.repr.toList at hc
  rw [Int.repr_eq_if] at hc
  split at hc
  · exact .inl (hnat _ c hc)
  · rw [String.toList_append, List.mem_append] at hc
    rcases hc with hc | hc
    · exact .inr (by simpa using hc)
    · exact .inl (hnat _ c hc)

theorem toString_int_numeral (n : ℤ) : (toString n).toList.all numeral := by
  rw [List.all_eq_true]
  intro c hc
  rcases toList_toString_int n c hc with h | rfl
  · rw [numeral, h]
    rfl
  · rfl

/-- An integer has neither point nor exponent. -/
theorem toString_int_not_float (n : ℤ) : ¬ (toString n).toList.any (· ∈ ['.', 'e']) := by
  rw [List.any_eq_true]
  rintro ⟨c, hc, hmem⟩
  rcases toList_toString_int n c hc with h | rfl
  · rw [decide_eq_true_eq] at hmem
    fin_cases hmem <;> exact absurd h (by decide)
  · exact absurd hmem (by decide)

theorem toString_int_ne_nil (n : ℤ) : (toString n).toList ≠ [] := by
  change n.repr.toList ≠ []
  rw [Int.repr_eq_if]
  split
  · simp
  · simp

/-- The mark a string, an array or an object begins with; the others have none. -/
def Json.opening : Json → Option Char
  | .str _ => some '"'
  | .arr _ => some '['
  | .obj _ => some '\x7b'
  | _ => none

theorem Json.Proper.word {v : Json} (hv : v.Proper) (hopen : v.opening = none) :
    v.dump.all wordChar := by
  have hnumeral : ∀ t : List Char, t.all numeral → t.all wordChar := by
    intro t ht
    rw [List.all_eq_true] at ht ⊢
    exact fun c hc => wordChar_of_numeral (ht c hc)
  cases v with
  | null => decide
  | bool b => cases b <;> decide
  | int n => exact hnumeral _ (toString_int_numeral n)
  | float r => exact hnumeral _ hv.1
  | str _ | arr _ | obj _ => cases hopen

/-- The literals. -/
def words : List (List Char × Json) :=
  [("null".toList, .null), ("true".toList, .bool true), ("false".toList, .bool false)]

/-- The literal or number that a word stands for. -/
def wordValue (t : List Char) : Option Json :=
  match words.find? (·.1 = t) with
  | some l => some l.2
  | none =>
    if t.any (· ∈ ['.', 'e']) then
      if h : String.ofList t ≠ "" then some (.float ⟨String.ofList t, h⟩) else none
    else (String.ofList t).toInt?.map .int

/-- No literal is a number. -/
theorem words_find?_of_numeral {t : List Char} (ht : t.all numeral) :
    words.find? (·.1 = t) = none := by
  rw [List.find?_eq_none]
  intro l hl hlt
  rw [decide_eq_true_eq] at hlt
  subst hlt
  fin_cases hl <;> exact absurd ht (by decide)

/-- **A word stands for one value.** -/
theorem Json.Proper.wordValue {v : Json} (hv : v.Proper) (hopen : v.opening = none) :
    wordValue v.dump = some v := by
  cases v with
  | null => rfl
  | bool b => cases b <;> rfl
  | int n =>
    rw [Json.dump, Doda.wordValue, words_find?_of_numeral (toString_int_numeral n)]
    dsimp only
    rw [if_neg (toString_int_not_float n), String.ofList_toList]
    exact congrArg (Option.map Json.int) (Int.toInt?_repr n)
  | float r =>
    rw [Json.dump, Doda.wordValue, words_find?_of_numeral hv.1]
    dsimp only
    rw [if_pos hv.2, dif_pos (by rw [String.ofList_toList]; exact r.2)]
    simp only [String.ofList_toList]
  | str _ | arr _ | obj _ => cases hopen

theorem Json.Proper.dump_ne_nil {v : Json} (hv : v.Proper) (hopen : v.opening = none) :
    v.dump ≠ [] := by
  cases v with
  | null => decide
  | bool b => cases b <;> decide
  | int n => exact toString_int_ne_nil n
  | float r =>
    intro hnil
    obtain ⟨c, hc, -⟩ := List.any_eq_true.1 hv.2
    rw [Json.dump] at hnil
    simp [hnil] at hc
  | str _ | arr _ | obj _ => cases hopen

/-- What the text of a value begins with. -/
theorem Json.Proper.head {v : Json} (hv : v.Proper) :
    ∃ c t, v.dump = c :: t ∧ v.opening = if wordChar c then none else some c := by
  cases hopen : v.opening with
  | none =>
    have hword := hv.word hopen
    cases hdump : v.dump with
    | nil =>
      exact absurd hdump (hv.dump_ne_nil hopen)
    | cons c t =>
      rw [hdump, List.all_cons, Bool.and_eq_true] at hword
      exact ⟨c, t, rfl, by rw [if_pos hword.1]⟩
  | some c =>
    cases v with
    | null | bool _ | int _ | float _ => cases hopen
    | str s =>
      cases hopen
      exact ⟨_, _, by rw [Json.dump, quote], rfl⟩
    | arr xs =>
      cases hopen
      exact ⟨_, _, by rw [Json.dump], rfl⟩
    | obj kvs =>
      cases hopen
      exact ⟨_, _, by rw [Json.dump], rfl⟩

/-- Two texts that agree begin with the same mark. -/
theorem opening_eq {v w : Json} {r s : List Char} (hv : v.Proper) (hw : w.Proper)
    (h : v.dump ++ r = w.dump ++ s) : v.opening = w.opening := by
  obtain ⟨c, t, hvd, hvo⟩ := hv.head
  obtain ⟨d, u, hwd, hwo⟩ := hw.head
  rw [hvd, hwd, List.cons_append, List.cons_append, List.cons.injEq] at h
  rw [hvo, hwo, h.1]

/-- No value begins with a delimiter. -/
theorem Json.Proper.ne_delimiter {v : Json} (hv : v.Proper) {c : Char} (hc : c ∈ delimiters)
    (r s : List Char) : v.dump ++ r ≠ c :: s := by
  intro h
  obtain ⟨d, t, hd, ho⟩ := hv.head
  rw [hd, List.cons_append, List.cons.injEq] at h
  rw [h.1, if_neg (not_wordChar_of_mem_delimiters c hc)] at ho
  fin_cases hc <;> cases v <;> cases ho

/-! ### Elements and members -/

section Parts

variable {α : Type*} {enc : α → List Char}

/-- The first part, and what stands behind it. -/
theorem commaSep_cons_append (x : α) (xs : List α) (r : List Char) :
    commaSep ((x :: xs).map enc) ++ r =
      enc x ++ if xs = [] then r else ',' :: (commaSep (xs.map enc) ++ r) := by
  cases xs with
  | nil => rfl
  | cons y ys => simp [commaSep]

/-- If every part ends where it says it ends, so does a sequence of them. -/
theorem commaSep_append_inj {P : α → Prop} {R : α → α → Prop} {close : Char} {r s : List Char}
    {xs ys : List α} (hclose : close ∈ delimiters) (hcomma : close ≠ ',')
    (hne : ∀ x, P x → ∀ r s, enc x ++ r ≠ close :: s) (hxs : ∀ x ∈ xs, P x) (hys : ∀ y ∈ ys, P y)
    (hread : ∀ x ∈ xs, ∀ y, P y → ∀ r s, Delimited r → Delimited s →
      enc x ++ r = enc y ++ s → R x y ∧ r = s)
    (h : commaSep (xs.map enc) ++ close :: r = commaSep (ys.map enc) ++ close :: s) :
    List.Forall₂ R xs ys ∧ r = s := by
  induction xs generalizing ys with
  | nil =>
    cases ys with
    | nil => exact ⟨.nil, (List.cons.inj h).2⟩
    | cons y ys =>
      rw [commaSep_cons_append] at h
      exact absurd h.symm (hne y (hys y List.mem_cons_self) _ _)
  | cons x xs ih =>
    cases ys with
    | nil =>
      rw [commaSep_cons_append] at h
      exact absurd h (hne x (hxs x List.mem_cons_self) _ _)
    | cons y ys =>
      have hbehind : ∀ (l : List α) (t : List Char),
          Delimited
            (if l = [] then close :: t else ',' :: (commaSep (l.map enc) ++ close :: t)) := by
        intro l t
        split
        · rintro c ⟨⟩
          exact hclose
        · rintro c ⟨⟩
          decide
      rw [commaSep_cons_append, commaSep_cons_append] at h
      obtain ⟨hxy, hrest⟩ := hread x List.mem_cons_self y (hys y List.mem_cons_self) _ _
        (hbehind xs r) (hbehind ys s) h
      split_ifs at hrest with h₁ h₂ h₂
      · subst h₁ h₂
        exact ⟨.cons hxy .nil, (List.cons.inj hrest).2⟩
      · exact absurd (List.cons.inj hrest).1 hcomma
      · exact absurd (List.cons.inj hrest).1.symm hcomma
      · obtain ⟨hall, htail⟩ := ih (fun z hz => hxs z (List.mem_cons_of_mem x hz))
          (fun z hz => hys z (List.mem_cons_of_mem y hz))
          (fun z hz => hread z (List.mem_cons_of_mem x hz)) (List.cons.inj hrest).2
        exact ⟨.cons hxy hall, htail⟩

end Parts

/-- A value whose text ends where it says it ends, and that no other value has. -/
def Reads (v : Json) : Prop :=
  ∀ w : Json, v.Proper → w.Proper → ∀ r s, Delimited r → Delimited s →
    v.dump ++ r = w.dump ++ s → v.Same w ∧ r = s

theorem reads_str (a : String) : Reads (.str a) := by
  intro w hv hw r s hr hs h
  have hopen := opening_eq hv hw h
  cases w with
  | str b =>
    rw [Json.dump, Json.dump] at h
    obtain ⟨rfl, hrs⟩ := quote_append_inj h
    exact ⟨rfl, hrs⟩
  | null | bool _ | int _ | float _ | arr _ | obj _ => cases hopen

theorem reads_word {v : Json} (hvo : v.opening = none) : Reads v := by
  intro w hv hw r s hr hs h
  have hwo : w.opening = none := by rw [← opening_eq hv hw h, hvo]
  obtain ⟨hdump, hrs⟩ := word_append_inj (hv.word hvo) (hw.word hwo) hr hs h
  have hvw : some v = some w := by rw [← hv.wordValue hvo, hdump, hw.wordValue hwo]
  cases hvw
  cases v with
  | null | bool _ | int _ | float _ => exact ⟨rfl, hrs⟩
  | str _ | arr _ | obj _ => cases hvo

theorem reads_arr {xs : List Json} (hxs : ∀ x ∈ xs, Reads x) : Reads (.arr xs) := by
  intro w hv hw r s hr hs h
  have hopen := opening_eq hv hw h
  cases w with
  | arr ys =>
    have hx := properAll_iff.1 hv
    have hy := properAll_iff.1 hw
    rw [dump_arr, dump_arr, List.cons_append, List.cons_append, List.append_assoc,
      List.append_assoc] at h
    obtain ⟨hall, hrs⟩ := commaSep_append_inj (P := Json.Proper) (R := Json.Same)
      (by decide : ']' ∈ delimiters) (by decide) (fun x hx => hx.ne_delimiter (by decide)) hx hy
      (fun x hmem y hy => hxs x hmem y (hx x hmem) hy) (List.cons.inj h).2
    exact ⟨sameAll_iff.2 hall, hrs⟩
  | null | bool _ | int _ | float _ | str _ | obj _ => cases hopen

theorem dumpMember_append (kv : String × Json) (r : List Char) :
    dumpMember kv ++ r = quote kv.1 ++ (':' :: (kv.2.dump ++ r)) := by
  rw [dumpMember, List.append_assoc, List.cons_append]

theorem reads_obj {kvs : List (String × Json)} (hkvs : ∀ kv ∈ kvs, Reads kv.2) :
    Reads (.obj kvs) := by
  intro w hv hw r s hr hs h
  have hopen := opening_eq hv hw h
  cases w with
  | obj lws =>
    have hperm : ∀ l, (byKey l).Perm l := fun l => List.perm_insertionSort _ l
    have hk := properFields_iff.1 hv.2
    have hl := properFields_iff.1 hw.2
    rw [dump_obj, dump_obj, List.cons_append, List.cons_append, List.append_assoc,
      List.append_assoc] at h
    obtain ⟨hall, hrs⟩ := commaSep_append_inj (P := fun kv => kv.2.Proper) (R := SameField)
      (by decide : '\x7d' ∈ delimiters) (by decide)
      (fun kv _ r s => by rw [dumpMember, quote]; simp)
      (fun kv hkv => hk kv ((hperm kvs).mem_iff.1 hkv))
      (fun kv hkv => hl kv ((hperm lws).mem_iff.1 hkv))
      (fun kv hkv lw hlw r s hr hs h => by
        rw [dumpMember_append, dumpMember_append] at h
        obtain ⟨hkey, hrest⟩ := quote_append_inj h
        have hmem := (hperm kvs).mem_iff.1 hkv
        obtain ⟨hsame, hrs⟩ := hkvs kv hmem lw.2 (hk kv hmem) hlw r s hr hs (List.cons.inj hrest).2
        exact ⟨⟨hkey, hsame⟩, hrs⟩)
      (List.cons.inj h).2
    obtain ⟨kws, hsame, hkws⟩ := List.perm_comp_forall₂ (hperm kvs).symm hall
    exact ⟨⟨kws, sameFields_iff.2 hsame, hkws.trans (hperm lws)⟩, hrs⟩
  | null | bool _ | int _ | float _ | str _ | arr _ => cases hopen

mutual

/-- **A value's text is self-delimiting**: it determines the value and where it ends. -/
theorem dump_append_inj : (v : Json) → Reads v
  | .null | .bool _ | .int _ | .float _ => reads_word rfl
  | .str s => reads_str s
  | .arr xs => reads_arr (dumpAll_append_inj xs)
  | .obj kvs => reads_obj (dumpFields_append_inj kvs)

theorem dumpAll_append_inj : (xs : List Json) → ∀ x ∈ xs, Reads x
  | [], _, hx => absurd hx List.not_mem_nil
  | x :: xs, y, hy => by
    rcases List.mem_cons.1 hy with hyx | hy
    · rw [hyx]
      exact dump_append_inj x
    · exact dumpAll_append_inj xs y hy

theorem dumpFields_append_inj : (kvs : List (String × Json)) → ∀ kv ∈ kvs, Reads kv.2
  | [], _, hkv => absurd hkv List.not_mem_nil
  | (k, v) :: kvs, lw, hlw => by
    rcases List.mem_cons.1 hlw with hlwv | hlw
    · rw [hlwv]
      exact dump_append_inj v
    · exact dumpFields_append_inj kvs lw hlw

end

/-- **Equal texts, equal values.** -/
theorem canonicalJson_eq_iff {v w : Json} (hv : v.Proper) (hw : w.Proper) :
    canonicalJson v = canonicalJson w ↔ v.Same w := by
  have hnil : Delimited [] := nofun
  constructor
  · intro h
    have hdump : v.dump ++ [] = w.dump ++ [] := by rw [String.ofList_inj.1 h]
    exact (dump_append_inj v w hv hw [] [] hnil hnil hdump).1
  · intro h
    rw [canonicalJson, canonicalJson, h.dump v hw]

/-! ## Hashes -/

/-- **Canonical hashing identifies payloads**: up to the order of object members, and
for hashes up to collisions of SHA-256. -/
theorem canonical_identifies [Sha256] {v w : Json} (hv : v.Proper) (hw : w.Proper) :
    (canonicalJson v = canonicalJson w ↔ v.Same w) ∧
      (Function.Injective Sha256.hexdigest → (hashPayload v = hashPayload w ↔ v.Same w)) := by
  refine ⟨canonicalJson_eq_iff hv hw, ?_⟩
  intro hinj
  rw [hashPayload, hashPayload, hinj.eq_iff]
  exact canonicalJson_eq_iff hv hw

private def samplePayload (amount : String) (hne : amount ≠ "") : Json :=
  .obj [("to", .str "a@b"), ("body", .obj [("n", .float ⟨amount, hne⟩), ("m", .int (-1))])]

private def reorderedPayload : Json :=
  .obj [("body", .obj [("m", .int (-1)), ("n", .float ⟨"1e-05", by decide⟩)]), ("to", .str "a@b")]

/-- SHA-256 on the texts of two sample payloads, and an injective stand-in elsewhere. -/
@[reducible] def payloadSha : Sha256 where
  hexdigest s :=
    if s = canonicalJson (samplePayload "1e-05" (by decide)) then
      "14030f56c1a9f22a327ba28ada7caf3f7a128371db6424c4af5d9499474ba55a"
    else if s = canonicalJson (samplePayload "1.5e-05" (by decide)) then
      "109d5f8de15a20a896aa4153afe498c3f6320c526fa64b5931db34765ef8772c"
    else "x" ++ s

theorem stand_in_ne {s h : String} {c : Char} {cs : List Char} (hh : h.toList = c :: cs)
    (hc : c ≠ 'x') : "x" ++ s ≠ h := by
  intro heq
  have := congrArg String.toList heq
  rw [String.toList_append, hh] at this
  exact hc (List.cons.inj this).1.symm

attribute [local instance] payloadSha

theorem payloadSha_injective : Function.Injective Sha256.hexdigest := by
  have h₁ : ∀ s, "x" ++ s ≠ "14030f56c1a9f22a327ba28ada7caf3f7a128371db6424c4af5d9499474ba55a" :=
    fun s => stand_in_ne (c := '1') rfl (by decide)
  have h₂ : ∀ s, "x" ++ s ≠ "109d5f8de15a20a896aa4153afe498c3f6320c526fa64b5931db34765ef8772c" :=
    fun s => stand_in_ne (c := '1') rfl (by decide)
  intro s t h
  simp only [Sha256.hexdigest] at h
  split_ifs at h <;> simp_all [eq_comm]

/-- Fields in another order hash alike, another amount does not. -/
theorem canonical_identifies_sample :
    hashPayload (samplePayload "1e-05" (by decide)) = hashPayload reorderedPayload ∧
      (samplePayload "1e-05" (by decide)).Same reorderedPayload ∧
      hashPayload (samplePayload "1.5e-05" (by decide)) ≠ hashPayload reorderedPayload ∧
      ¬ (samplePayload "1.5e-05" (by decide)).Same reorderedPayload := by
  have hproper : ∀ amount hne, FloatRepr.Finite ⟨amount, hne⟩ →
      (samplePayload amount hne).Proper := by
    intro amount hne hfinite
    exact ⟨by simp, trivial, ⟨by simp, hfinite, trivial, trivial⟩, trivial⟩
  have hfinite : FloatRepr.Finite ⟨"1e-05", by decide⟩ := by decide
  have hreordered : reorderedPayload.Proper :=
    ⟨by decide, ⟨by decide, trivial, hfinite, trivial⟩, trivial, trivial⟩
  have hsame := canonical_identifies (hproper "1e-05" (by decide) (by decide)) hreordered
  have hother := canonical_identifies (hproper "1.5e-05" (by decide) (by decide)) hreordered
  have htext : canonicalJson (samplePayload "1e-05" (by decide)) =
      canonicalJson reorderedPayload := by decide
  have hdiffers : ¬ (samplePayload "1.5e-05" (by decide)).Same reorderedPayload :=
    fun h => absurd (hother.1.2 h) (by decide)
  exact ⟨(hsame.2 payloadSha_injective).2 (hsame.1.1 htext), hsame.1.1 htext,
    mt (hother.2 payloadSha_injective).1 hdiffers, hdiffers⟩

end Doda
