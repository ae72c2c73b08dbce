import Telemetry.Proofs.Codec

/-!
# The round trip over the wire

What comes back from the wire is the envelope that was sent, but for NaNs: in place of each there is
the NaN that has a word on the wire. Nothing else is lost, so that envelopes without a NaN have the
same bytes only if they are equal.

* `Value.Alike`, `Envelope.Alike`: equal but for NaNs that stand at the same places;
* `Envelope.encode_canonical`: the bytes do not tell NaNs apart;
* `Envelope.same_canonical_iff`: what comes back compares as equal exactly if there is no NaN;
* **`Envelope.roundTrip`**: what comes back from the wire.
-/

namespace Telemetry

/-! ## Equal but for NaNs -/

/-- The same value, or two NaNs. -/
inductive Value.Alike : Value → Value → Prop where
  | refl (v : Value) : Alike v v
  | nan {x y : Double} : x.isNaN = true → y.isNaN = true → Alike (.double x) (.double y)

structure Update.Alike (a b : Update) : Prop where
  path : a.path = b.path
  value : Option.Rel Value.Alike a.value b.value
  duplicates : a.duplicates = b.duplicates

structure Notification.Alike (a b : Notification) : Prop where
  timestamp : a.timestamp = b.timestamp
  base : a.base = b.base
  updates : List.Forall₂ Update.Alike a.updates b.updates
  deletes : a.deletes = b.deletes
  atomic : a.atomic = b.atomic

/-- The same variant with the same content, but for NaNs. -/
inductive Envelope.Alike : Envelope → Envelope → Prop where
  | update {a b : Notification} : a.Alike b → Alike (.update a) (.update b)
  | syncResponse (done : Bool) : Alike (.syncResponse done) (.syncResponse done)
  | error (text : String) : Alike (.error text) (.error text)

theorem Double.isNaN_nan : Double.nan.isNaN = true := by decide

theorem Value.alike_canonical (v : Value) : v.Alike v.canonical := by
  cases v with
  | double x =>
    show Alike (.double x) (.double (if x.isNaN then .nan else x))
    split
    · rename_i hx
      exact .nan hx Double.isNaN_nan
    · exact .refl _
  | _ => exact .refl _

theorem Update.alike_canonical (u : Update) : u.Alike u.canonical where
  path := rfl
  value := by
    show Option.Rel Value.Alike u.value (u.value.map Value.canonical)
    cases u.value with
    | none => exact .none
    | some v => exact .some v.alike_canonical
  duplicates := rfl

theorem Notification.alike_canonical (n : Notification) : n.Alike n.canonical where
  timestamp := rfl
  base := rfl
  updates := by
    show List.Forall₂ Update.Alike n.updates (n.updates.map Update.canonical)
    induction n.updates with
    | nil => exact .nil
    | cons u us ih => exact .cons u.alike_canonical ih
  deletes := rfl
  atomic := rfl

theorem Envelope.alike_canonical (e : Envelope) : e.Alike e.canonical := by
  cases e with
  | update n => exact .update n.alike_canonical
  | syncResponse done => exact .syncResponse done
  | error text => exact .error text

/-! ## The bytes -/

theorem Double.isFinite_of_isNaN {x : Double} (hx : x.isNaN = true) : x.isFinite = false := by
  simp only [isNaN, isFinite, decide_eq_true_eq, decide_eq_false_iff_not] at hx ⊢
  omega

theorem Double.document_of_isNaN {x : Double} (hx : x.isNaN = true) : x.document = stringDocument "NaN" := by
  have hword : x.word = "NaN" := if_pos hx
  rw [document, isFinite_of_isNaN hx, hword]
  exact if_neg Bool.false_ne_true

theorem Double.document_canonical (x : Double) : x.canonical.document = x.document := by
  unfold canonical
  split
  · rename_i hx
    rw [document_of_isNaN isNaN_nan, document_of_isNaN hx]
  · rfl

theorem Value.document_canonical (v : Value) : v.canonical.document = v.document := by
  cases v with
  | double x =>
    show Json.Doc.object [entry _ x.canonical.document] = _
    rw [x.document_canonical]
    rfl
  | _ => rfl

theorem Update.document_canonical (u : Update) : u.canonical.document = u.document := by
  have hvalue : u.canonical.value.map Value.document = u.value.map Value.document := by
    show (u.value.map Value.canonical).map Value.document = _
    rw [Option.map_map]
    congr 1
    funext v
    exact v.document_canonical
  rw [document, document, hvalue]
  rfl

theorem Notification.document_canonical (n : Notification) :
    n.canonical.document = n.document := by
  have hupdates : n.canonical.updates.map Update.document = n.updates.map Update.document := by
    rw [canonical_updates, List.map_map]
    exact List.map_congr_left fun u _ => u.document_canonical
  rw [document, document, hupdates]
  rfl

namespace Envelope

theorem encode_canonical (e : Envelope) : e.canonical.encode = e.encode := by
  cases e with
  | update n =>
    have hcontent : (update n).canonical.content = (update n).content := n.document_canonical
    rw [encode, encode, document, document, hcontent]
    rfl
  | syncResponse done => rfl
  | error text => rfl

end Envelope

/-! ## Equality of content -/

theorem Double.same_canonical (x : Double) : x.canonical.same x = !x.isNaN := by
  unfold canonical
  split
  · rename_i hx
    simp [same, hx]
  · rename_i hx
    simp [same, hx]

theorem Value.same_canonical_iff (v : Value) :
    v.canonical.same v = true ↔ ∀ x, v = .double x → x.isNaN = false := by
  cases v with
  | double x =>
    show x.canonical.same x = true ↔ _
    rw [x.same_canonical, Bool.not_eq_true']
    exact ⟨fun h y hy => Value.double.inj hy ▸ h, fun h => h x rfl⟩
  | _ => simp [same, canonical]

theorem Update.same_canonical_iff (u : Update) :
    u.canonical.same u = true ↔ ∀ x, u.value = some (.double x) → x.isNaN = false := by
  cases h : u.value with
  | none => simp [same, canonical, h]
  | some v =>
    have hv : u.canonical.same u = v.canonical.same v := by simp [same, canonical, h]
    rw [hv, v.same_canonical_iff]
    simp

theorem Notification.same_canonical_iff (n : Notification) : n.canonical.same n = true ↔
    ∀ u ∈ n.updates, ∀ x, u.value = some (.double x) → x.isNaN = false := by
  have hall : n.canonical.same n = n.updates.all fun u => u.canonical.same u := by
    have hzip : ∀ us : List Update, ((us.map Update.canonical).zip us).all
        (fun p => p.1.same p.2) = us.all fun u => u.canonical.same u := by
      intro us
      induction us with
      | nil => rfl
      | cons u us ih => rw [List.map_cons, List.zip_cons_cons, List.all_cons, List.all_cons, ih]
    simp [same, hzip]
  rw [hall, List.all_eq_true]
  exact forall₂_congr fun u _ => u.same_canonical_iff

namespace Envelope

theorem same_canonical_iff (e : Envelope) : e.canonical.same e = true ↔ e.HasNoNaN := by
  cases e with
  | update n =>
    show n.canonical.same n = true ↔ _
    rw [n.same_canonical_iff]
    exact ⟨fun h m hm => Option.some.inj hm ▸ h, fun h => h n rfl⟩
  | syncResponse done => simp [HasNoNaN, notification?, canonical, same]
  | error text => simp [HasNoNaN, notification?, canonical, same]

/-! ## The round trip -/

theorem eq_of_encode_eq {a b : Envelope} (ha : a.HasNoNaN) (hb : b.HasNoNaN)
    (h : a.encode = b.encode) : a = b := by
  have hdecode : (Except.ok a.canonical : Except CodecError Envelope) = .ok b.canonical := by
    rw [← decode_encode, ← decode_encode, h]
  rw [← canonical_eq_self ha, ← canonical_eq_self hb]
  exact Except.ok.inj hdecode

/-- **What comes back from the wire** is what was sent, bit for bit, if it has no NaN, and else has
a NaN in place of each; it has the same bytes, and no other envelope without a NaN has them. -/
theorem roundTrip (e : Envelope) : ∃ d, decode e.encode = .ok d ∧ e.Alike d ∧
    (e.HasNoNaN → d = e) ∧ (d.same e = true ↔ e.HasNoNaN) ∧ d.encode = e.encode ∧
    ∀ e', e.HasNoNaN → e'.HasNoNaN → e' ≠ e → e'.encode ≠ e.encode :=
  ⟨e.canonical, decode_encode e, e.alike_canonical, canonical_eq_self, e.same_canonical_iff,
    e.encode_canonical, fun _ he he' hne h => hne (eq_of_encode_eq he' he h)⟩

end Envelope

end Telemetry
