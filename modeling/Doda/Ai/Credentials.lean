import Doda.Turn.Fallback

/-!
# Which credentials are blocked

A shape that may end in `-` or `.` is to end at a word boundary, and so it is found
where it stands just if one of its characters from the last that it needs on is a
letter, a digit or an underscore.

## Main definitions

* `Shape.Token` — a token of a shape: its prefix, and its run of characters.
* `MessageBlocked` — the message is refused, and nothing else is done.
* `MatchesElsewhere` — what else a scan may find.
* `credential_blocked_iff` — when a message with a token in it is blocked.
-/

namespace Doda

open Regex

/-! ## The shapes -/

/-- The shapes that end at a word boundary. -/
def shapes : List Shape :=
  [anthropicApiKey, openaiApiKey, awsAccessKeyId, googleApiKey, githubToken, slackToken, jwt,
    bearerToken]

/-- A token of a shape. -/
structure Shape.Token (s : Shape) (front body : List Char) : Prop where
  front : s.front.Accepts front
  cls : ∀ c ∈ body, s.cls c = true
  least : s.least ≤ body.length
  exactly : s.exactly = true → body.length = s.least

/-- The run of a shape, to its end. -/
def Shape.tail (s : Shape) : Regex := .seq (.rep s.cls s.least s.exactly) .boundary

/-- What the eight shapes have in common. -/
structure Shape.Sound (s : Shape) : Prop where
  least_pos : 0 < s.least
  cls_space : ∀ c, isSpace c = true → s.cls c = false
  /-- The prefix is not empty, and begins with a letter. -/
  begins : ∀ f, s.front.Accepts f → ∃ c cs, f = c :: cs ∧ c.isAlpha = true
  /-- The run begins where the prefix ends. -/
  leads : ∀ f, s.front.Accepts f → ∀ (w : Char → Bool) (b : Option Char) (c : Char)
    (cs : List Char), s.cls c = true →
    ((Regex.seq s.front s.tail).Matches w ⟨b, f ++ c :: cs⟩ ↔
      s.tail.Matches w ⟨f.getLast?.or b, c :: cs⟩)

/-! ### Characters -/

theorem not_isAsciiAlnum {c : Char} (h : 128 ≤ c.toNat) : isAsciiAlnum c = false := by
  have hv : (128 : UInt32) ≤ c.val := h
  have hupper : c.isUpper = decide (c.val ≥ 'A'.val ∧ c.val ≤ 'Z'.val) := rfl
  have hlower : c.isLower = (decide (c.val ≥ 'a'.val) && decide (c.val ≤ 'z'.val)) := rfl
  simp only [isAsciiAlnum, Char.isDigit, hupper, hlower, Bool.or_eq_false_iff,
    Bool.and_eq_false_iff, Bool.decide_and, decide_eq_false_iff_not, UInt32.not_le]
  simp only [ge_iff_le, UInt32.lt_iff_toNat_lt, UInt32.le_iff_toNat_le] at *
  simp at hv ⊢
  omega

/-- White space is in no class. -/
theorem isSpace_apart {c : Char} (h : isSpace c = true) :
    isAsciiAlnum c = false ∧ c ≠ '-' ∧ c ≠ '.' ∧ c ≠ '_' := by
  have hfar : 128 ≤ c.toNat → isAsciiAlnum c = false ∧ c ≠ '-' ∧ c ≠ '.' ∧ c ≠ '_' := by
    intro hc
    refine ⟨not_isAsciiAlnum hc, ?_, ?_, ?_⟩
    all_goals
      rintro rfl
      revert hc
      decide
  simp only [isSpace, List.mem_cons, List.not_mem_nil, or_false, Bool.or_eq_true,
    decide_eq_true_eq, Bool.and_eq_true] at h
  rcases h with (h | h) | h
  · rcases h with rfl | rfl | rfl | rfl | rfl | rfl | rfl | rfl | rfl | rfl | rfl | rfl <;> decide
  · exact hfar (by omega)
  · exact hfar (by omega)

/-! ### Each shape -/

/-- The prefix of single characters. -/
theorem Shape.leads_of_rigid {s : Shape} (hs : s.front.Rigid) {f : List Char}
    (hf : s.front.Accepts f) (w : Char → Bool) (b : Option Char) (c : Char) (cs : List Char)
    (_ : s.cls c = true) :
    (Regex.seq s.front s.tail).Matches w ⟨b, f ++ c :: cs⟩ ↔
      s.tail.Matches w ⟨f.getLast?.or b, c :: cs⟩ :=
  matches_rigid_seq hs hf

theorem anthropicApiKey_sound : anthropicApiKey.Sound where
  least_pos := by decide
  cls_space c hc := by
    obtain ⟨h, hdash, -, hline⟩ := isSpace_apart hc
    simp [anthropicApiKey, isKeyChar, h, hdash, hline]
  begins f hf := ⟨_, _, accepts_text.1 hf, by decide⟩
  leads _ := Shape.leads_of_rigid (rigid_text _)

theorem openaiApiKey_sound : openaiApiKey.Sound where
  least_pos := by decide
  cls_space := anthropicApiKey_sound.cls_space
  begins f hf := ⟨_, _, accepts_text.1 hf, by decide⟩
  leads _ := Shape.leads_of_rigid (rigid_text _)

theorem awsAccessKeyId_sound : awsAccessKeyId.Sound where
  least_pos := by decide
  cls_space c hc := by
    have h := (isSpace_apart hc).1
    simp only [isAsciiAlnum, Bool.or_eq_false_iff] at h
    simp [awsAccessKeyId, h]
  begins f hf := ⟨_, _, accepts_text.1 hf, by decide⟩
  leads _ := Shape.leads_of_rigid (rigid_text _)

theorem googleApiKey_sound : googleApiKey.Sound where
  least_pos := by decide
  cls_space := anthropicApiKey_sound.cls_space
  begins f hf := ⟨_, _, accepts_text.1 hf, by decide⟩
  leads _ := Shape.leads_of_rigid (rigid_text _)

theorem githubToken_sound : githubToken.Sound where
  least_pos := by decide
  cls_space c hc := by simp [githubToken, isSpace_apart hc]
  begins := by
    rintro _ ⟨u, v, rfl, hu, -⟩
    obtain rfl := accepts_text.1 hu
    exact ⟨_, _, rfl, by decide⟩
  leads _ := Shape.leads_of_rigid (s := githubToken) ⟨rigid_text _, trivial, rigid_text _⟩

theorem slackToken_sound : slackToken.Sound where
  least_pos := by decide
  cls_space c hc := by
    obtain ⟨h, hdash, -⟩ := isSpace_apart hc
    simp [slackToken, h, hdash]
  begins := by
    rintro _ ⟨u, v, rfl, hu, -⟩
    obtain rfl := accepts_text.1 hu
    exact ⟨_, _, rfl, by decide⟩
  leads _ := Shape.leads_of_rigid (s := slackToken) ⟨rigid_text _, trivial, rigid_text _⟩

theorem jwt_sound : jwt.Sound where
  least_pos := by decide
  cls_space := anthropicApiKey_sound.cls_space
  begins := by
    rintro _ ⟨u, v, rfl, hu, -⟩
    obtain rfl := accepts_text.1 hu
    exact ⟨_, _, rfl, by decide⟩
  leads := by
    rintro _ ⟨u, _, rfl, hu, run, _, rfl, hrun, dot, _, rfl, hdot, run', dot', rfl, hrun', hdot'⟩
      w b c cs -
    have hstop : ∀ {d rest : List Char}, (text ".").Accepts d →
        StopsAt isKeyChar (d ++ rest) := fun hd => by
      obtain rfl := accepts_text.1 hd
      rintro _ ⟨⟩
      decide
    have hapart : ∀ (k : Regex) (b : Option Char) (c : Char) (cs : List Char),
        isKeyChar c = true → ¬ (Regex.seq (text ".") k).Matches w ⟨b, c :: cs⟩ :=
      fun k b c cs hc => by
        refine not_matches_text_seq ?_
        change decide ('.' ≠ c) = true
        rw [decide_eq_true_eq]
        rintro rfl
        exact absurd hc (by decide)
    simp only [jwt, Shape.tail, List.append_assoc]
    rw [matches_seq_assoc, matches_rigid_seq (rigid_text _) hu, matches_seq_assoc,
      matches_rep_seq hrun.2.2 hrun.1 (hstop hdot) ?_, matches_seq_assoc,
      matches_rigid_seq (rigid_text _) hdot, matches_seq_assoc,
      matches_rep_seq hrun'.2.2 hrun'.1 (hstop hdot') (hapart _),
      matches_rigid_seq (rigid_text _) hdot']
    · simp only [getLast?_append_or]
    · intro b c cs hc
      rw [matches_seq_assoc]
      exact hapart _ b c cs hc

theorem bearerToken_sound : bearerToken.Sound where
  least_pos := by decide
  cls_space c hc := by simp [bearerToken, isSpace_apart hc]
  begins := by
    rintro _ ⟨_, v, rfl, ⟨c, rfl, hc⟩, -⟩
    refine ⟨c, v, rfl, ?_⟩
    simp only [List.mem_cons, List.not_mem_nil, or_false, decide_eq_true_eq] at hc
    rcases hc with rfl | rfl <;> decide
  leads := by
    rintro _ ⟨u, _, rfl, hu, v, sp, rfl, hv, hsp⟩ w b c cs hc
    have hspace : ∀ c, isSpace c = true → bearerToken.cls c = false := fun c hc => by
      simp [bearerToken, isSpace_apart hc]
    have hstop : StopsAt isSpace (c :: cs) := by
      rintro _ ⟨⟩
      cases h : isSpace c with
      | false => rfl
      | true => rw [hspace c h] at hc; cases hc
    have hfront : bearerToken.front = .seq (.char (· ∈ ['B', 'b']))
      (.seq (text "earer") (.rep isSpace 1 false)) := rfl
    simp only [hfront, List.append_assoc]
    rw [matches_seq_assoc, matches_rigid_seq (r := .char _) trivial hu, matches_seq_assoc,
      matches_rigid_seq (rigid_text _) hv, matches_rep_seq hsp.2.2 hsp.1 hstop ?_]
    · simp only [getLast?_append_or]
    · exact fun b c cs hc => not_matches_rep_seq (hspace c hc) (by decide)

theorem shapes_sound : ∀ s ∈ shapes, s.Sound := by
  intro s hs
  simp only [shapes, List.mem_cons, List.not_mem_nil, or_false] at hs
  rcases hs with rfl | rfl | rfl | rfl | rfl | rfl | rfl | rfl
  · exact anthropicApiKey_sound
  · exact openaiApiKey_sound
  · exact awsAccessKeyId_sound
  · exact googleApiKey_sound
  · exact githubToken_sound
  · exact slackToken_sound
  · exact jwt_sound
  · exact bearerToken_sound

theorem mem_patterns {s : Shape} (hs : s ∈ shapes) : (s.label, s.pattern) ∈ patterns := by
  simp only [shapes, List.mem_cons, List.not_mem_nil, or_false] at hs
  rcases hs with rfl | rfl | rfl | rfl | rfl | rfl | rfl | rfl <;> simp [patterns]

/-- No two patterns have one label. -/
theorem patterns_nodup : (patterns.map (·.1)).Nodup := by decide

theorem ofIndex_append (a t : List Char) : Place.ofIndex (a ++ t) a.length = ⟨a.getLast?, t⟩ := by
  simp [Place.ofIndex]

/-! ## Messages -/

section Messages

variable [Sha256] [JsonText] [Deployment]

omit [Sha256] [JsonText] in
theorem isWord_of_isAlpha {c : Char} (hc : c.isAlpha = true) : isWord c = true := by
  have hcase : (c.isUpper || c.isLower) = true := hc
  by_cases h : 128 ≤ c.toNat
  · have := not_isAsciiAlnum h
    simp only [isAsciiAlnum, Bool.or_eq_false_iff] at this
    simp [this] at hcase
  · rw [isWord, if_pos (by omega), isAsciiAlnum]
    rcases Bool.or_eq_true _ _ ▸ hcase with hc | hc <;> simp [hc]

omit [Sha256] [JsonText] in
theorem not_isWord_of_isSpace {c : Char} (hc : isSpace c = true) : isWord c = false := by
  obtain ⟨h, -, -, hline⟩ := isSpace_apart hc
  rw [isWord]
  split <;> simp [h, hline, hc]

omit [Sha256] [JsonText] in
/-- **A token where it stands** is found just if one of its characters from the last that
it needs on is a word character. -/
theorem Shape.Sound.matches_iff {s : Shape} (hs : s.Sound) {front body rest : List Char}
    (ht : s.Token front body) {before : Option Char} (hbefore : ∀ c ∈ before, isSpace c = true)
    (hrest : ∀ c ∈ rest.head?, isSpace c = true) :
    s.pattern.Matches isWord ⟨before, front ++ (body ++ rest)⟩ ↔
      ∃ c ∈ body.drop (s.least - 1), isWord c = true := by
  obtain ⟨c, cs, hfront, hc⟩ := hs.begins front ht.front
  have hstart : before.any isWord ≠ (front ++ (body ++ rest)).head?.any isWord := by
    have hb : before.any isWord = false := by
      cases before with
      | none => rfl
      | some d => simpa using not_isWord_of_isSpace (hbefore d rfl)
    rw [hb, hfront]
    simpa using isWord_of_isAlpha hc
  have hlead : ∃ d ds, body ++ rest = d :: ds ∧ s.cls d = true := by
    cases hbody : body with
    | nil =>
      have := ht.least
      have := hs.least_pos
      rw [hbody, List.length_nil] at *
      omega
    | cons d ds => exact ⟨d, ds ++ rest, rfl, ht.cls d (by simp [hbody])⟩
  obtain ⟨d, ds, hd, hcls⟩ := hlead
  have hleads := hs.leads front ht.front isWord before d ds hcls
  rw [← hd] at hleads
  rw [Shape.pattern, matches_seq_boundary, and_iff_right hstart]
  refine hleads.trans ?_
  exact matches_rep_boundary ht.cls hs.least_pos ht.least ht.exactly
    (fun c hc => hs.cls_space c (hrest c hc)) fun c hc => not_isWord_of_isSpace (hrest c hc)

omit [Sha256] [JsonText] in
theorem detectLikelySecret_isSome {content : String} :
    (detectLikelySecret content).isSome = true ↔
      ∃ x ∈ patterns, ∃ i ≤ content.toList.length,
        x.2.Matches isWord (.ofIndex content.toList i) := by
  rw [detectLikelySecret, Option.isSome_map, List.find?_isSome]
  simp only [search_iff]

/-- The message is refused: nothing is stored, reserved or called. -/
def MessageBlocked (content : String) : Prop :=
  ∃ label, detectLikelySecret content = some label ∧
    ∀ context conversation traceId mode,
      streamMessage context conversation traceId content mode =
        throw (.outboundContentBlocked label)

/-- What the scan finds is refused. -/
theorem blocked_iff {content : String} :
    MessageBlocked content ↔ (detectLikelySecret content).isSome = true := by
  rw [Option.isSome_iff_exists]
  refine exists_congr fun label => and_iff_left_of_imp fun hlabel => ?_
  intro context conversation traceId mode
  simp only [streamMessage, beginTurn, hlabel]
  rfl

/-- A pattern matches the message, other than the one with this label at this place. -/
def MatchesElsewhere (label : String) (i : ℕ) (content : String) : Prop :=
  ∃ x ∈ patterns, ∃ j ≤ content.toList.length, (x.1 ≠ label ∨ j ≠ i) ∧
    x.2.Matches isWord (.ofIndex content.toList j)

/-- The text is empty or ends in white space. -/
def EndsInSpace (a : String) : Prop := ∀ c ∈ a.toList.getLast?, isSpace c = true

instance (a : String) : Decidable (EndsInSpace a) :=
  decidable_of_iff (a.toList.getLast?.all isSpace = true) (Option.all_eq_true _ _)

/-- The text is empty or begins with white space. -/
def BeginsWithSpace (b : String) : Prop := ∀ c ∈ b.toList.head?, isSpace c = true

instance (b : String) : Decidable (BeginsWithSpace b) :=
  decidable_of_iff (b.toList.head?.all isSpace = true) (Option.all_eq_true _ _)

/-- **Which credentials are blocked.**  A message with a token in it, between white space, is
blocked just if a character of the token from the last that its shape needs on is a letter,
a digit or an underscore, or another pattern matches, or the same elsewhere.  A message
with a private key block in it is blocked. -/
theorem credential_blocked_iff {a b : String} (ha : EndsInSpace a) (hb : BeginsWithSpace b) :
    (∀ s ∈ shapes, ∀ front body : String, s.Token front.toList body.toList →
      (MessageBlocked (a ++ (front ++ body) ++ b) ↔
        (∃ c ∈ body.toList.drop (s.least - 1), isWord c = true) ∨
          MatchesElsewhere s.label a.toList.length (a ++ (front ++ body) ++ b))) ∧
    ∀ t : String, privateKeyBlock.Accepts t.toList → MessageBlocked (a ++ t ++ b) := by
  constructor
  · intro s hs front body ht
    have hplace : Place.ofIndex (a ++ (front ++ body) ++ b).toList a.toList.length =
        ⟨a.toList.getLast?, front.toList ++ (body.toList ++ b.toList)⟩ := by
      simp only [String.toList_append, List.append_assoc]
      exact ofIndex_append ..
    have hhere := (shapes_sound s hs).matches_iff ht ha hb
    rw [← hplace] at hhere
    rw [blocked_iff, detectLikelySecret_isSome, ← hhere]
    constructor
    · rintro ⟨x, hx, i, hi, hmatch⟩
      by_cases hsame : x.1 = s.label ∧ i = a.toList.length
      · obtain ⟨hlabel, rfl⟩ := hsame
        obtain rfl := List.inj_on_of_nodup_map patterns_nodup hx (mem_patterns hs) hlabel
        exact .inl hmatch
      · exact .inr ⟨x, hx, i, hi, not_and_or.1 hsame, hmatch⟩
    · rintro (hmatch | ⟨x, hx, i, hi, -, hmatch⟩)
      · exact ⟨_, mem_patterns hs, _, by simp, hmatch⟩
      · exact ⟨x, hx, i, hi, hmatch⟩
  · intro t ht
    rw [blocked_iff, detectLikelySecret_isSome]
    refine ⟨("private_key_block", privateKeyBlock), by simp [patterns], a.toList.length,
      by simp, ?_⟩
    rw [String.toList_append, String.toList_append, List.append_assoc, ofIndex_append]
    exact matches_of_accepts (by simp [privateKeyBlock, Free, text]) ht

end Messages

/-! ## Sample tokens -/

section Sample

attribute [local instance] plainSha plainJsonText sampleDeployment

theorem sampleToken : openaiApiKey.Token "sk-".toList "aaaaaaaaaaaaaaaaaaa-".toList where
  front := accepts_text.2 rfl
  cls := List.all_eq_true.1 (by decide)
  least := by decide
  exactly := by decide

/-- **A credential passes.**  The twentieth character of the key is its last and is `-`. -/
theorem credential_passes :
    openaiApiKey ∈ shapes ∧ openaiApiKey.Token "sk-".toList "aaaaaaaaaaaaaaaaaaa-".toList ∧
      EndsInSpace "Kalit: " ∧ BeginsWithSpace " bu." ∧
      ¬ MessageBlocked ("Kalit: " ++ ("sk-" ++ "aaaaaaaaaaaaaaaaaaa-") ++ " bu.") := by
  refine ⟨by simp [shapes], sampleToken, by decide +kernel, by decide +kernel,
    fun hblocked => ?_⟩
  have hnone : detectLikelySecret ("Kalit: " ++ ("sk-" ++ "aaaaaaaaaaaaaaaaaaa-") ++ " bu.") =
      none := by
    decide +kernel
  rw [blocked_iff, hnone] at hblocked
  cases hblocked

theorem credential_blocked_iff_sample :
    MessageBlocked ("Kalit: " ++ ("sk-" ++ "aaaaaaaaaaaaaaaaaaa-") ++ " bu.") ↔
      (∃ c ∈ "aaaaaaaaaaaaaaaaaaa-".toList.drop 19, isWord c = true) ∨
        MatchesElsewhere "openai_api_key" 7
          ("Kalit: " ++ ("sk-" ++ "aaaaaaaaaaaaaaaaaaa-") ++ " bu.") :=
  (credential_blocked_iff (a := "Kalit: ") (b := " bu.") (by decide +kernel)
    (by decide +kernel)).1 openaiApiKey (by simp [shapes]) "sk-" "aaaaaaaaaaaaaaaaaaa-" sampleToken

end Sample

end Doda
