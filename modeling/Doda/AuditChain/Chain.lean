import Doda.Application.Audit
import Doda.Lib.HashChain

/-!
# Audit events as a hash chain

The fields of an audit event make a hash chain in the sense of `HashChain`: the
stored predecessor hash, the stored hash, and the recomputed one.  The verifier's
walk finds nothing exactly on a chain that starts from `NULL`.

The canonical text of an event's content is eight quoted strings between fixed
keys, so the text determines each of them; with an injective digest the hash of
an event therefore determines its predecessor's hash.

## Main definitions

* `chainFields` — where an audit event keeps its hashes.
* `canonicalJson_auditContent_inj` — the text determines the content.
* `chainFields_binding` — the digest determines the predecessor.
* `violationsFrom_eq_nil` — the walk reports nothing exactly on a chain.
-/

namespace Doda

open HashChain

/-! ## The text of an event -/

/-- The text of the content: the keys in order, each before its value. -/
theorem dump_auditContent (c : Uuid) (w : Option Uuid) (t : Uuid) (a ty : String) (o : Time)
    (m : Json) (p : Option String) :
    (auditContent c w t a ty o m p).dump =
      '{' :: (quote "actor_id" ++ ':' :: (quote a ++ ',' ::
        (quote "customer_id" ++ ':' :: (quote c.str ++ ',' ::
        (quote "event_type" ++ ':' :: (quote ty ++ ',' ::
        (quote "occurred_at" ++ ':' :: (quote o.isoformat ++ ',' ::
        (quote "prev_hash" ++ ':' :: ((Json.ofOption p).dump ++ ',' ::
        (quote "safe_metadata" ++ ':' :: (quote (canonicalJson m) ++ ',' ::
        (quote "trace_id" ++ ':' :: (quote t.str ++ ',' ::
        (quote "workspace_id" ++ ':' :: ((Json.ofOption (w.map Uuid.str)).dump ++ ['}']
        )))))))))))))))) := by
  simp [auditContent, Json.dump, dumpFields, dumpField, commaSep, List.insertionSort,
    List.orderedInsert]

private theorem string_field_inj {k a b : String} {r s : List Char}
    (h : quote k ++ ':' :: (quote a ++ ',' :: r) = quote k ++ ':' :: (quote b ++ ',' :: s)) :
    a = b ∧ r = s := by
  obtain ⟨h₁, h₂⟩ := quote_append_inj (List.cons.inj (List.append_cancel_left h)).2
  exact ⟨h₁, (List.cons.inj h₂).2⟩

private theorem option_field_inj {k : String} {a b : Option String} {x : Char} {r s : List Char}
    (h : quote k ++ ':' :: ((Json.ofOption a).dump ++ x :: r) =
      quote k ++ ':' :: ((Json.ofOption b).dump ++ x :: s)) : a = b ∧ r = s := by
  obtain ⟨h₁, h₂⟩ := dump_ofOption_append_inj (List.cons.inj (List.append_cancel_left h)).2
  exact ⟨h₁, (List.cons.inj h₂).2⟩

/-- **The text determines the content.** -/
theorem canonicalJson_auditContent_inj {c c' : Uuid} {w w' : Option Uuid} {t t' : Uuid}
    {a a' ty ty' : String} {o o' : Time} {m m' : Json} {p p' : Option String}
    (h : canonicalJson (auditContent c w t a ty o m p) =
      canonicalJson (auditContent c' w' t' a' ty' o' m' p')) :
    a = a' ∧ c = c' ∧ ty = ty' ∧ o.isoformat = o'.isoformat ∧ p = p' ∧
      canonicalJson m = canonicalJson m' ∧ t = t' ∧ w = w' := by
  simp only [canonicalJson, String.ofList_inj] at h
  rw [dump_auditContent, dump_auditContent] at h
  obtain ⟨ha, h⟩ := string_field_inj (List.cons.inj h).2
  obtain ⟨hc, h⟩ := string_field_inj h
  obtain ⟨hty, h⟩ := string_field_inj h
  obtain ⟨ho, h⟩ := string_field_inj h
  obtain ⟨hp, h⟩ := option_field_inj h
  obtain ⟨hm, h⟩ := string_field_inj h
  obtain ⟨ht, h⟩ := string_field_inj h
  obtain ⟨hw, -⟩ := option_field_inj h
  exact ⟨ha, Uuid.str_injective hc, hty, ho, hp, hm, Uuid.str_injective ht,
    Option.map_injective Uuid.str_injective hw⟩

/-! ## The chain -/

variable [Sha256]

/-- An audit event as a record of a hash chain. -/
def chainFields : Fields AuditEvent String where
  prev := AuditEvent.prevHash
  hash := AuditEvent.hash
  digest := AuditEvent.recomputeHash

@[simp] theorem chainFields_prev (e : AuditEvent) : chainFields.prev e = e.prevHash := rfl
@[simp] theorem chainFields_hash (e : AuditEvent) : chainFields.hash e = e.hash := rfl
@[simp] theorem chainFields_digest (e : AuditEvent) :
    chainFields.digest e = e.recomputeHash := rfl

/-- **Under an injective digest, an event's hash determines its predecessor's.** -/
theorem chainFields_binding (hinj : Function.Injective Sha256.hexdigest) :
    chainFields.Binding := by
  intro x y h
  exact (canonicalJson_auditContent_inj (hinj h)).2.2.2.2.1

/-- The walk reports nothing exactly on a chain. -/
theorem violationsFrom_eq_nil {a : Option String} {es : List AuditEvent} :
    violationsFrom a es = [] ↔ ∃ b, chainFields.Linked a es b := by
  induction es generalizing a with
  | nil => simp [violationsFrom]
  | cons e es ih =>
    simp only [violationsFrom, List.append_eq_nil_iff, ite_eq_right_iff, List.cons_ne_self, ih,
      Fields.linked_cons, chainFields_prev, chainFields_hash, chainFields_digest]
    constructor
    · rintro ⟨⟨h₁, h₂⟩, b, h₃⟩
      exact ⟨b, by simpa using h₁, Eq.symm (by simpa using h₂), h₃⟩
    · rintro ⟨b, h₁, h₂, h₃⟩
      exact ⟨⟨by simp [h₁], by simp [h₂]⟩, b, h₃⟩

end Doda
