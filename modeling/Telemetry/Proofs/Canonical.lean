import Mathlib.Data.Nat.Notation
import Telemetry.Proofs.Table
import Telemetry.Store.Basic

/-!
# Canonical NaNs

The wire form has one word for all NaNs. The canonical form of an envelope or a store has the NaN of
that word in place of every other, and is what remains of it on the wire.

* `Double.canonical`, `Envelope.canonical`, `Store.canonical`: the canonical forms;
* `Envelope.canonical_eq_self`: an envelope without a NaN is its own canonical form;
* **`Store.canonical_write`**: writing commutes with taking canonical forms.
-/

namespace Telemetry

/-! ## Envelopes -/

/-- The same double, with one NaN in place of every other. -/
def Double.canonical (x : Double) : Double := if x.isNaN then .nan else x

/-- The same value, with one NaN in place of every other. -/
def Value.canonical : Value → Value
  | double x => double x.canonical
  | v => v

/-- The same update, with one NaN in place of every other. -/
def Update.canonical (u : Update) : Update := { u with value := u.value.map Value.canonical }

/-- The same notification, with one NaN in place of every other. -/
def Notification.canonical (n : Notification) : Notification :=
  { n with updates := n.updates.map Update.canonical }

/-- The same envelope, with one NaN in place of every other. -/
def Envelope.canonical : Envelope → Envelope
  | update n => update n.canonical
  | e => e

@[simp] theorem Update.canonical_path (u : Update) : u.canonical.path = u.path := rfl
@[simp] theorem Update.canonical_duplicates (u : Update) :
    u.canonical.duplicates = u.duplicates := rfl
@[simp] theorem Notification.canonical_timestamp (n : Notification) :
    n.canonical.timestamp = n.timestamp := rfl
@[simp] theorem Notification.canonical_base (n : Notification) : n.canonical.base = n.base := rfl
@[simp] theorem Notification.canonical_deletes (n : Notification) :
    n.canonical.deletes = n.deletes := rfl
@[simp] theorem Notification.canonical_updates (n : Notification) :
    n.canonical.updates = n.updates.map Update.canonical := rfl
@[simp] theorem Notification.canonical_atomic (n : Notification) :
    n.canonical.atomic = n.atomic := rfl
@[simp] theorem Notification.canonical_target (n : Notification) :
    n.canonical.target = n.target := rfl

theorem Notification.canonical_isEmpty (n : Notification) : n.canonical.isEmpty = n.isEmpty := by
  simp [isEmpty]

@[simp] theorem Envelope.canonical_notification? (e : Envelope) :
    e.canonical.notification? = e.notification?.map Notification.canonical := by
  cases e <;> rfl

@[simp] theorem Envelope.canonical_target? (e : Envelope) : e.canonical.target? = e.target? := by
  cases e <;> rfl

theorem Double.canonical_canonical (x : Double) : x.canonical.canonical = x.canonical := by
  unfold canonical
  split <;> rfl

theorem Value.canonical_canonical (v : Value) : v.canonical.canonical = v.canonical := by
  cases v with
  | double x => exact congrArg Value.double x.canonical_canonical
  | _ => rfl

theorem Update.canonical_canonical (u : Update) : u.canonical.canonical = u.canonical := by
  have h : u.canonical.value.map Value.canonical = u.canonical.value := by
    cases hv : u.value with
    | none => simp [canonical, hv]
    | some v => simp [canonical, hv, Value.canonical_canonical]
  rw [canonical, h]

theorem Notification.canonical_canonical (n : Notification) :
    n.canonical.canonical = n.canonical := by
  rw [canonical, canonical_updates, List.map_map]
  simp only [Function.comp_def, Update.canonical_canonical]
  rfl

theorem Envelope.canonical_canonical (e : Envelope) : e.canonical.canonical = e.canonical := by
  cases e with
  | update n => exact congrArg Envelope.update n.canonical_canonical
  | _ => rfl

namespace Envelope

/-- No double of the envelope is a NaN. -/
def HasNoNaN (e : Envelope) : Prop :=
  ∀ n, e.notification? = some n → ∀ u ∈ n.updates, ∀ x, u.value = some (.double x) →
    x.isNaN = false

theorem canonical_eq_self {e : Envelope} (h : e.HasNoNaN) : e.canonical = e := by
  cases e with
  | update n =>
    have hu : ∀ u ∈ n.updates, u.canonical = u := fun u hu => by
      obtain ⟨path, value, duplicates⟩ := u
      rcases value with _ | v
      · rfl
      · cases v with
        | double x =>
          have := h n rfl _ hu x rfl
          simp [Update.canonical, Value.canonical, Double.canonical, this]
        | _ => rfl
    have : n.updates.map Update.canonical = n.updates :=
      (List.map_congr_left hu).trans (List.map_id _)
    rw [canonical, Notification.canonical, this]
  | syncResponse done => rfl
  | error text => rfl

end Envelope

/-! ## Stores -/

/-- The same row, with one NaN in place of every other. -/
def Row.canonical (r : Row) : Row := { r with update := r.update.canonical }

/-- The same shelf, with one NaN in place of every other. -/
def Shelf.canonical (s : Shelf) : Shelf := { s with rows := s.rows.map Row.canonical }

/-- The same notice, with one NaN in place of every other. -/
def Notice.canonical (n : Notice) : Notice :=
  { n with notification := n.notification.canonical }

/-- The same store, with one NaN in place of every other. -/
def Store.canonical (s : Store) : Store where
  lifetime := s.lifetime
  contents := s.contents.map (Table.map Shelf.canonical)
  feed := { s.feed with items := s.feed.items.map Notice.canonical }

namespace Shelf

theorem canonical_foldl_filter (n : Notification) (ds : List Path) (rows : Table Row) :
    (ds.foldl (fun t d => t.filter fun _ r => !(n.full d).covers r.update.path) rows).map
      Row.canonical = ds.foldl (fun t d => t.filter fun _ r => !(n.full d).covers r.update.path)
        (rows.map Row.canonical) := by
  induction ds generalizing rows with
  | nil => rfl
  | cons d ds ih =>
    have hd := Table.map_filter (f := Row.canonical)
      (p := fun _ r => !(n.full d).covers r.update.path)
      (q := fun _ r => !(n.full d).covers r.update.path) (fun _ _ => rfl) rows
    rw [List.foldl_cons, List.foldl_cons, ih, hd]

theorem canonical_removed (n : Notification) (rows : Table Row) :
    (removed n rows).map Row.canonical = removed n.canonical (rows.map Row.canonical) :=
  canonical_foldl_filter n n.deletes rows

theorem canonical_put (now : ℕ) (n : Notification) (us : List Update) (rows : Table Row) :
    (us.foldl (put now n) rows).map Row.canonical =
      (us.map Update.canonical).foldl (put now n.canonical) (rows.map Row.canonical) := by
  induction us generalizing rows with
  | nil => rfl
  | cons u us ih =>
    rw [List.map_cons, List.foldl_cons, List.foldl_cons, ih, put, Table.map_insert]
    rfl

theorem canonical_apply (now : ℕ) (n : Notification) (s : Shelf) :
    (s.apply now n).canonical = s.canonical.apply now n.canonical := by
  rw [canonical, apply, apply, canonical_put, canonical_removed]
  rfl

end Shelf

namespace Store

theorem canonical_apply (now : ℕ) (sub : String) (n : Notification) (s : Store) :
    (s.apply now sub n).canonical = s.canonical.apply now sub n.canonical := by
  have h : ∀ shelves : Table Shelf,
      (shelves.upsert n.target {} (Shelf.apply now n)).map Shelf.canonical =
        (shelves.map Shelf.canonical).upsert n.target {} (Shelf.apply now n.canonical) := fun t =>
    Table.map_upsert rfl (Shelf.canonical_apply now n) t n.target
  simp only [canonical, apply, Notification.canonical_target]
  rw [Table.map_upsert (e := Table.empty)
    (h := fun t => t.upsert n.target {} (Shelf.apply now n.canonical)) rfl h]

/-- **Writing commutes with taking canonical forms.** -/
theorem canonical_write (now : ℕ) (sub : String) (e : Envelope) (s : Store) :
    (s.write now sub e).canonical = s.canonical.write now sub e.canonical := by
  unfold write
  rw [Envelope.canonical_notification?]
  cases e.notification? with
  | none => rfl
  | some n =>
    have hempty : n.canonical.isEmpty = n.isEmpty := by
      simp [Notification.isEmpty]
    simp only [Option.map_some, hempty]
    split
    · rfl
    · rw [← canonical_apply]
      simp [canonical, apply, Feed.push, Notice.canonical]

/-- A store does not tell an envelope from its canonical form, but for NaNs. -/
theorem canonical_write_canonical (now : ℕ) (sub : String) (e : Envelope) (s : Store) :
    (s.write now sub e.canonical).canonical = (s.write now sub e).canonical := by
  rw [canonical_write, canonical_write, e.canonical_canonical]

end Store

end Telemetry
