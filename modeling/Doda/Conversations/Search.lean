import Doda.Application.Export
import Doda.Lib.Alone
import Doda.Lib.Like
import Doda.Lib.Queries

/-!
# Searching messages

The search puts the query, stripped and with its special characters escaped, between
two wildcards, and finds the messages of one workspace whose content the pattern
matches up to case.  Escaping takes three replacements, of which the first doubles the
backslashes before the others add theirs, so the query stands for itself whatever
characters it has.

## Main definitions

* `searchMessagesInWorkspace` — `search_messages_in_workspace`.
* `Found` — the messages that contain the query.

## Main results

* `search_is_literal` — the search finds just these.
-/

namespace Doda

open ReadCommitted

/-- The special characters of `ILIKE ... ESCAPE '\'`. -/
def likeWildcards : Wildcards Char where
  many := '%'
  one := '_'
  escape := '\\'
  many_ne_escape := by decide
  one_ne_escape := by decide

/-- How the database folds case. -/
class CaseFolding where
  folding : likeWildcards.Folding

/-- `str.replace` of a single character. -/
def replace (old : Char) (new : List Char) (s : List Char) : List Char :=
  s.flatMap fun c => if c = old then new else [c]

/-- The query with its own special characters escaped. -/
def escapeQuery (stripped : List Char) : List Char :=
  replace '_' ['\\', '_'] (replace '%' ['\\', '%'] (replace '\\' ['\\', '\\'] stripped))

section Search

variable [CaseFolding]

/-- `Message.content.ilike(f"%{escaped}%", escape="\\")`. -/
def contentMatches (escaped : List Char) (m : Message) : Bool :=
  CaseFolding.folding.ilike ('%' :: (escaped ++ ['%'])) m.content.toList

/-- The messages of a workspace's conversations that match, among the rows of `tenant`. -/
def searched (db : Db) (tenant workspaceId : Uuid) (escaped : List Char) : List Uuid :=
  collect (fun k v => match k, v with
    | .message id, (m : Message) =>
      if m.customerId = tenant ∧ contentMatches escaped m ∧
          (row db (.conversation m.conversationId)).any fun (c : Conversation) =>
            c.customerId = tenant ∧ c.workspaceId = workspaceId then some id
      else none
    | _, _ => none) db

/-- `search_messages_in_workspace`, in a transaction of `tenant`. -/
def searchMessagesInWorkspace (tenant workspaceId : Uuid) (query : String) (limit : ℕ) :
    Session (List Message) :=
  let stripped := strip query
  if stripped = "" then return []
  else do
    let db ← Session.select
    let order ← call (Call.scanOrder
      (searched db tenant workspaceId (escapeQuery stripped.toList)))
    let rows := order.1.filterMap fun id => row db (.message id)
    return (newestFirst (·.createdAt) rows).take (pageSize limit)

/-- The message is in a conversation of the workspace, and contains the query up to case. -/
structure Found (db : Db) (tenant workspaceId : Uuid) (query : String) (m : Message) : Prop where
  owned : m.customerId = tenant
  inWorkspace : ∃ c, row db (.conversation m.conversationId) = some c ∧
    c.customerId = tenant ∧ c.workspaceId = workspaceId
  nonempty : strip query ≠ ""
  contains : CaseFolding.folding.foldAll (strip query).toList <:+:
    CaseFolding.folding.foldAll m.content.toList

/-- The newest of the messages found, newest first. -/
def SearchResult (db : Db) (tenant workspaceId : Uuid) (query : String) (limit : ℕ)
    (messages : List Message) : Prop :=
  ∃ ids : List Uuid, ids.Nodup ∧
    (∀ id, id ∈ ids ↔ ∃ m, row db (.message id) = some m ∧ Found db tenant workspaceId query m) ∧
    ∃ listing : List Message, listing.Perm (ids.filterMap fun id => row db (.message id)) ∧
      listing.Pairwise (fun a b => b.createdAt ≤ a.createdAt) ∧
      messages = listing.take (pageSize limit)

end Search

/-! ## The pattern -/

theorem replace_append (old : Char) (new s t : List Char) :
    replace old new (s ++ t) = replace old new s ++ replace old new t :=
  List.flatMap_append

theorem special_iff {c : Char} :
    likeWildcards.special c = true ↔ c = '%' ∨ c = '_' ∨ c = '\\' := by
  rw [Wildcards.special, Bool.or_eq_true, Bool.or_eq_true, decide_eq_true_eq,
    decide_eq_true_eq, decide_eq_true_eq, or_assoc]
  rfl

/-- **Three replacements escape every special character once.** -/
theorem escapeQuery_eq (s : List Char) : escapeQuery s = likeWildcards.escapeAll s := by
  induction s with
  | nil => rfl
  | cons c s ih =>
    have hone : escapeQuery [c] = if likeWildcards.special c then ['\\', c] else [c] := by
      by_cases hc : c = '%' ∨ c = '_' ∨ c = '\\'
      · rw [if_pos (special_iff.2 hc)]
        rcases hc with rfl | rfl | rfl <;> rfl
      · rw [if_neg (mt special_iff.1 hc)]
        simp only [not_or] at hc
        obtain ⟨hpercent, hunderscore, hbackslash⟩ := hc
        simp [escapeQuery, replace, hpercent, hunderscore, hbackslash]
    have hcons : escapeQuery (c :: s) = escapeQuery [c] ++ escapeQuery s := by
      rw [show c :: s = [c] ++ s from rfl, escapeQuery, replace_append, replace_append,
        replace_append]
      rfl
    rw [hcons, hone, ih, Wildcards.escapeAll, Wildcards.escapeAll, List.flatMap_cons]
    rfl

section Search

variable [CaseFolding] {db : Db} {tenant workspaceId : Uuid} {query : String} {id : Uuid}

/-- **The pattern matches the contents that contain the query**, up to case. -/
theorem contentMatches_iff (stripped : List Char) (m : Message) :
    contentMatches (escapeQuery stripped) m = true ↔
      CaseFolding.folding.foldAll stripped <:+: CaseFolding.folding.foldAll m.content.toList := by
  rw [contentMatches, escapeQuery_eq]
  exact Wildcards.Folding.ilike_contains _ stripped m.content.toList

theorem mem_searched (hquery : strip query ≠ "") :
    id ∈ searched db tenant workspaceId (escapeQuery (strip query).toList) ↔
      ∃ m, row db (.message id) = some m ∧ Found db tenant workspaceId query m := by
  rw [searched, mem_collect]
  constructor
  · rintro ⟨k, v, hv, hkept⟩
    cases k with
    | message id' =>
      dsimp only at hkept
      split at hkept
      · rename_i hm
        cases hkept
        obtain ⟨howned, hmatches, hworkspace⟩ := hm
        obtain ⟨c, hc, hin⟩ := (Option.any_eq_true _ _).1 hworkspace
        exact ⟨v, hv, howned, ⟨c, hc, of_decide_eq_true hin⟩, hquery,
          (contentMatches_iff _ v).1 hmatches⟩
      · cases hkept
    | _ => cases hkept
  · rintro ⟨m, hrow, howned, ⟨c, hc, hin⟩, -, hcontains⟩
    refine ⟨.message id, m, hrow, if_pos ⟨howned, (contentMatches_iff _ m).2 hcontains, ?_⟩⟩
    rw [hc]
    simpa using hin

theorem nodup_searched {escaped : List Char} :
    (searched db tenant workspaceId escaped).Nodup := by
  refine List.Nodup.of_map Key.message (nodup_collect_map fun k v a _ ha => ?_)
  cases k with
  | message id' =>
    dsimp only at ha
    split at ha
    · cases ha
      rfl
    · cases ha
  | _ => cases ha

/-- **Search is literal substring search.** -/
theorem search_is_literal (db : Db) (tenant workspaceId : Uuid) (query : String) (limit : ℕ) :
    Alone (fun _ _ _ => True)
      (fun messages c t => c = db ∧ t = {} ∧
        SearchResult db tenant workspaceId query limit messages)
      (fun _ _ _ => False) (searchMessagesInWorkspace tenant workspaceId query limit) db {} := by
  rw [searchMessagesInWorkspace]
  split
  · rename_i hblank
    refine ⟨rfl, rfl, [], List.nodup_nil, fun id => ?_, [], .refl _, .nil, List.take_nil.symm⟩
    constructor
    · intro hmem
      exact absurd hmem List.not_mem_nil
    · rintro ⟨m, -, hfound⟩
      exact absurd hblank hfound.nonempty
  · rename_i hquery
    rw [alone_bind, alone_view rfl]
    refine alone_bind.2 (alone_call.2 fun order _ => alone_pure.2 ⟨rfl, rfl, ?_⟩)
    have hperm := order.2
    simp only [Tx.view_mk, List.nil_append] at hperm
    refine ⟨order.1, hperm.nodup_iff.2 nodup_searched, fun id => ?_, _, newestFirst_perm _ _,
      newestFirst_pairwise _ _, rfl⟩
    rw [hperm.mem_iff]
    exact mem_searched hquery

end Search

section Sample

theorem toNat_toLower {c : Char} (hc : 65 ≤ c.toNat ∧ c.toNat ≤ 90) :
    c.toLower.toNat = c.toNat + 32 := by
  have hupper : 'A'.val ≤ c.val ∧ c.val ≤ 'Z'.val := hc
  have hle : c.val.toNat ≤ 90 := hc.2
  have hlower : c.toLower.val = c.val + 32 := congrArg Char.val (dif_pos hupper)
  change c.toLower.val.toNat = c.val.toNat + 32
  rw [hlower]
  rw [UInt32.toNat_add]
  exact Nat.mod_eq_of_lt (Nat.lt_of_le_of_lt (Nat.add_le_add_right hle 32) (by decide))

/-- The special characters are below the lower case letters. -/
theorem special_toLower {c : Char} (hc : likeWildcards.special c = false) :
    likeWildcards.special c.toLower = false := by
  by_cases hupper : 65 ≤ c.toNat ∧ c.toNat ≤ 90
  · have hlower := toNat_toLower hupper
    have hpercent : '%'.toNat = 37 := rfl
    have hunderscore : '_'.toNat = 95 := rfl
    have hbackslash : '\\'.toNat = 92 := rfl
    rw [Bool.eq_false_iff]
    intro hd
    obtain hd | hd | hd := special_iff.1 hd
    all_goals
      rw [hd] at hlower
      omega
  · have hlower : c.toLower = c := dif_neg hupper
    rwa [hlower]

/-- ASCII letters, folded to lower case. -/
@[reducible] def asciiFolding : CaseFolding where
  folding :=
    { fold c := [c.toLower]
      fold_special c hc := by
        obtain rfl | rfl | rfl := special_iff.1 hc
        all_goals rfl
      not_special c d hc hd := by
        rw [List.mem_singleton.1 hd, special_toLower hc] }

attribute [local instance] asciiFolding

/-- A message of customer 7. -/
def noted (id conversationId : Uuid) (content : String) : Version Row :=
  ⟨.message id, some
    { id, createdAt := id.toNat, customerId := 7, conversationId, role := .USER, content }⟩

/-- Messages of two conversations, which are in different workspaces. -/
def searchable : Db :=
  [⟨.conversation 60, some { id := 60, customerId := 7, workspaceId := 8 }⟩,
    ⟨.conversation 61, some { id := 61, customerId := 7, workspaceId := 9 }⟩,
    noted 1 60 "Rebate: 5%_ in C:\\TMP", noted 2 60 "5 per cent in c:\\tmp",
    noted 3 60 "rebate: 5%_ in c:tmp", noted 4 60 "the 5%_ IN c:\\Tmp is old",
    noted 5 61 "5%_ in c:\\tmp"]

theorem searched_searchable :
    searched searchable 7 8 (escapeQuery (strip " 5%_ In C:\\tmp\n").toList) = [1, 4] := by
  rw [searched, collect_of_nodup (by decide +kernel)]
  decide +kernel

/-- A query with all three special characters, padded with blanks.  It finds the two messages of
the workspace that contain it up to case, and not the two that it would match unescaped. -/
theorem search_is_literal_sample :
    Alone (fun _ _ _ => True)
      (fun messages c t => c = searchable ∧ t = {} ∧ messages.map (·.id) = [4, 1])
      (fun _ _ _ => False)
      (searchMessagesInWorkspace 7 8 " 5%_ In C:\\tmp\n" 50) searchable {} := by
  refine (search_is_literal searchable 7 8 " 5%_ In C:\\tmp\n" 50).mono ?_ fun _ _ _ h => h
  rintro messages c t ⟨rfl, rfl, ids, hnodup, hids, listing, hperm, hsorted, rfl⟩
  have hfound : ids.Perm [4, 1] := by
    refine (List.perm_ext_iff_of_nodup hnodup (by decide)).2 fun id => ?_
    rw [hids, ← mem_searched (by decide +kernel), searched_searchable]
    exact (List.Perm.swap 4 1 []).mem_iff
  have hperm := hperm.trans (hfound.filterMap _)
  have heq := hperm.eq_of_pairwise (fun a b ha hb hab hba => ?_) hsorted (by decide +kernel)
  · rw [heq]
    exact ⟨rfl, rfl, by decide +kernel⟩
  · have hinjective : ∀ a ∈ [4, 1].filterMap (fun id => row searchable (.message id)),
        ∀ b ∈ [4, 1].filterMap (fun id => row searchable (.message id)),
        a.createdAt = b.createdAt → a = b := by decide +kernel
    exact hinjective a (hperm.mem_iff.1 ha) b hb (le_antisymm hba hab)

end Sample

end Doda
