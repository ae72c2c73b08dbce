import Telemetry.Proofs.Expiring

/-!
# Subscriptions without updates

A write makes a shelf for its subscription and target before it is known whether anything stays
there, and a delete leaves the shelf behind. Where updates expire, a look drops such shelves, and
the subscriptions that have no other. Elsewhere they stay until the target is deleted or the store
is cleared, and their subscriptions are counted although nothing is read of them.

* `StoreOp.Opens`, `StoreOp.Empties`, `Store.Opened`: what makes shelves, and what drops them;
* `Store.shelf?_apply_ne_none_iff`: one step; **`Store.shelf?_run_ne_none_iff`**: the shelves of a
  store are those that its history opened;
* `Store.filled_run`: no subscription is without a shelf;
* `Store.Occupied`, `Store.occupied_prune`, `Store.occupied_run_iff`: when none is without an update;
* **`Store.read_occupied_iff`**: when what is counted after a read is what was read;
* `Store.read_vacant`: a delete after which it is not.
-/

namespace Telemetry

/-! ## Shelves -/

namespace StoreOp

/-- The change writes something about a target under a subscription. -/
def Opens (s t : String) : StoreOp → Prop
  | write _ s' e => s' = s ∧ ∃ n, e.notification? = some n ∧ n.isEmpty = false ∧ n.target = t
  | deleteTarget _ | clear => False

/-- The change drops all that is kept for a target. -/
def Empties (t : String) : StoreOp → Prop
  | write .. => False
  | deleteTarget t' => t' = t
  | clear => True

end StoreOp

namespace Store

open StoreUse (changes)

variable {st : Store} {s t : String} {now : ℕ} {l : Duration}

/-- Something was written under the subscription and target, and no later change drops all that is
kept for the target. -/
def Opened (ops : List StoreOp) (s t : String) : Prop :=
  ∃ before op after, ops = before ++ op :: after ∧ op.Opens s t ∧ ∀ op' ∈ after, ¬ op'.Empties t

/-- **One step**: a shelf is there if the change makes it, or if it was and the change does not drop
it. -/
theorem shelf?_apply_ne_none_iff (op : StoreOp) : (op.apply st).shelf? s t ≠ none ↔
    op.Opens s t ∨ (st.shelf? s t ≠ none ∧ ¬ op.Empties t) := by
  cases op with
  | write now s' e =>
    have hkept : ¬ (StoreOp.write now s' e).Empties t := id
    rw [StoreOp.apply]
    rcases write_cases now s' e st with ⟨hidle, heq⟩ | ⟨n, he, hn, heq⟩
    · have hnot : ¬ (StoreOp.write now s' e).Opens s t := by
        rintro ⟨-, n, he, hn, -⟩
        simp [hidle n he] at hn
      simp [heq, hnot, hkept]
    · have hopens : (StoreOp.write now s' e).Opens s t ↔ s = s' ∧ t = n.target := by
        simp [StoreOp.Opens, he, hn, eq_comm (a := s), eq_comm (a := t)]
      rw [heq, hopens]
      show (st.apply now s' n).shelf? s t ≠ none ↔ _
      rw [shelf?_apply]
      by_cases hplace : s = s' ∧ t = n.target <;> simp [hplace, hkept]
  | deleteTarget t' =>
    rw [StoreOp.apply, shelf?_deleteTarget]
    by_cases h : t = t' <;> simp [h, StoreOp.Opens, StoreOp.Empties, eq_comm]
  | clear => simp [StoreOp.apply, StoreOp.Opens, StoreOp.Empties]

/-- **The shelves of a store are those that its history opened.** -/
theorem shelf?_run_ne_none_iff (ops : List StoreOp) :
    (run ops {}).shelf? s t ≠ none ↔ Opened ops s t := by
  induction ops using List.reverseRecOn with
  | nil => simp [run, Opened]
  | append_singleton ops op ih =>
    rw [run_concat, shelf?_apply_ne_none_iff, ih]
    exact since_concat.symm

/-! ## Subscriptions -/

theorem Filled.apply (h : st.Filled) (op : StoreOp) : (op.apply st).Filled := by
  cases op with
  | write now s e =>
    rw [StoreOp.apply]
    rcases write_cases now s e st with ⟨-, heq⟩ | ⟨n, -, -, heq⟩
    · rwa [heq]
    · rw [heq]
      intro s' shelves hs
      have hs : (st.apply now s n).contents.find? s' = some shelves := hs
      rw [Store.apply, Table.find?_upsert] at hs
      split at hs
      · obtain rfl := Option.some.inj hs
        exact Table.isEmpty_upsert _ _ _ _
      · exact h s' shelves hs
  | deleteTarget t =>
    exact filled_of_contents st.contents (Table.erase · t) rfl
  | clear =>
    intro s shelves hs
    cases hs

theorem filled_run (ops : List StoreOp) : (run ops {}).Filled := by
  induction ops using List.reverseRecOn with
  | nil =>
    intro s shelves hs
    cases hs
  | append_singleton ops op ih =>
    rw [run_concat]
    exact ih.apply op

/-! ## What is counted -/

/-- No subscription is kept without an update. -/
def Occupied (st : Store) : Prop := ∀ s, st.contents.find? s ≠ none → st.view.find? s ≠ none

theorem occupied_iff_size : st.Occupied ↔ st.view.size = st.size := Table.size_filterMap_eq_iff.symm

theorem Occupied.isEmpty_iff (h : st.Occupied) : st.isEmpty = true ↔ st.view.isEmpty = true := by
  rw [isEmpty, Table.isEmpty_iff_size, Table.isEmpty_iff_size, occupied_iff_size.mp h, size]

theorem find?_view_ne_none_iff : st.view.find? s ≠ none ↔ ∃ n, n ∈ listed st.view s := by
  rw [ne_eq, find?_view_eq_none_iff, List.eq_nil_iff_forall_not_mem, not_forall_not]

theorem occupied_prune (hl : st.lifetime = some l) (now : ℕ) : (st.prune now).Occupied := by
  intro s hs
  rw [ne_eq, (filled_prune hl now).find?_eq_none_iff, not_forall] at hs
  obtain ⟨t, hshelf⟩ := hs
  obtain ⟨sh, hsh⟩ := Option.ne_none_iff_exists'.mp hshelf
  have hrows : sh.rows.isEmpty = false := by
    rw [shelf?_prune hl] at hsh
    exact Shelf.isEmpty_rows_of_rest hsh
  have hlisted := Shelf.notification?_eq_some_iff (t := t).mpr ⟨hrows, rfl⟩
  have htarget := Shelf.target_of_notification? hlisted
  exact find?_view_ne_none_iff.mpr ⟨_, mem_listed.mpr (by
    rw [htarget, notification?, hsh, Option.bind_some, hlisted])⟩

theorem occupied_run_iff (ops : List StoreOp) : (run ops {}).Occupied ↔
    ∀ s t, Opened ops s t → ∃ t' u, Survives ops s t' u := by
  have hview : ∀ s, (run ops {}).view.find? s ≠ none ↔ ∃ t u, Survives ops s t u := fun s => by
    simp only [find?_view_ne_none_iff, ← holds_run, ← exists_listed_iff (keyed_run ops)]
    exact ⟨fun ⟨n, hn⟩ => ⟨n.target, n, hn, rfl⟩, fun ⟨_, n, hn, _⟩ => ⟨n, hn⟩⟩
  have hcontents : ∀ s, (run ops {}).contents.find? s ≠ none ↔ ∃ t, Opened ops s t := fun s => by
    simp only [ne_eq, (filled_run ops).find?_eq_none_iff, not_forall, ← shelf?_run_ne_none_iff]
  simp only [Occupied, hview, hcontents]
  exact ⟨fun h s t ht => h s ⟨t, ht⟩, fun h s ⟨t, ht⟩ => h s t ht⟩

/-- **What is counted after a read is what was read** where updates expire. Where they do not, it
is so exactly if every subscription with a shelf that its history opened has an update left. -/
theorem read_occupied_iff (lifetime : Option Duration) (uses : List StoreUse) (now : ℕ) :
    let r := (use uses { lifetime }).read now
    ((∀ s, r.1.contents.find? s ≠ none → r.2.find? s ≠ none) ∧ r.1.size = r.2.size ∧
      (r.1.isEmpty = true ↔ r.2.isEmpty = true)) ↔
    (lifetime = none → ∀ s t, Opened (changes uses) s t →
      ∃ t' u, Survives (changes uses) s t' u) := by
  intro r
  have hoccupied : ((∀ s, r.1.contents.find? s ≠ none → r.2.find? s ≠ none) ∧ r.1.size = r.2.size ∧
      (r.1.isEmpty = true ↔ r.2.isEmpty = true)) ↔ r.1.Occupied :=
    ⟨fun h => h.1, fun h => ⟨h, (occupied_iff_size.mp h).symm, h.isEmpty_iff⟩⟩
  rw [hoccupied]
  cases lifetime with
  | some l =>
    have hl : (use uses { lifetime := some l }).lifetime = some l := lifetime_use uses _
    exact ⟨fun _ h => (nomatch h), fun _ => occupied_prune hl now⟩
  | none =>
    have hr : r.1 = run (changes uses) {} :=
      (prune_of_lifetime_none (lifetime_use uses _) now).trans (use_of_lifetime_none rfl uses)
    rw [hr, occupied_run_iff]
    exact ⟨fun h _ => h, fun h => h rfl⟩

/-- A notification that deletes a path of a store without any leaves a subscription that is counted
and not read. -/
theorem read_vacant :
    let r := (use [.change (.write 0 "s" (.update {
      timestamp := 1
      base := some { target := "r" }
      deletes := [{ elements := [{ name := "a" }] }] }))] {}).read 0
    (r.1.size = 1 ∧ r.2.size = 0) ∧ r.1.isEmpty = false ∧ r.2.isEmpty = true := by
  decide

end Store

end Telemetry
