import Mathlib.Data.List.Sort
import Telemetry.Proofs.Shelf

/-!
# What is read

A view of a store lists, for every subscription, one notification for each target that has an
update. Targets and the places of a notification stand in ascending order.

* `Store.notification?`: what is listed for a subscription and target;
* `Store.listed`: what is listed for a subscription;
* **`Store.mem_listed`**, `Store.listed_ascending`: a notification for each target, in order;
* `Shelf.mem_updates`, `Shelf.updates_ascending`: the updates of a notification, in order.
-/

namespace Telemetry

theorem Table.mem_values {α : Type} {t : Table α} {a : α} :
    a ∈ t.values ↔ ∃ k, t.find? k = some a := by
  simp [values, find?_eq_some_iff]

/-! ## The notification for a target -/

namespace Shelf

variable {sh : Shelf} {t : String} {n : Notification}

theorem notification?_eq_some_iff : sh.notification? {} t = some n ↔
    sh.rows.isEmpty = false ∧ n =
      { timestamp := sh.timestamp, base := sh.base t,
        updates := sh.rows.values.map (·.update) } := by
  have hall : ((sh.rows.values.map (·.update)).filter fun u => ({} : Interest).wantsPath u.path) =
      sh.rows.values.map (·.update) := List.filter_eq_self.mpr fun _ _ => rfl
  have hempty : (sh.rows.values.map (·.update)).isEmpty = sh.rows.isEmpty := by
    simp [Table.values, Table.isEmpty]
  simp only [notification?, hall, hempty]
  cases sh.rows.isEmpty
  · simp [eq_comm]
  · simp

theorem target_of_notification? (h : sh.notification? {} t = some n) : n.target = t := by
  obtain ⟨-, rfl⟩ := notification?_eq_some_iff.mp h
  simp only [Notification.target, Notification.basePath, base]
  split
  · rename_i h
    exact (String.isEmpty_iff.mp (Bool.and_eq_true_iff.mp h).2).symm
  · rfl

theorem deletes_of_notification? (h : sh.notification? {} t = some n) : n.deletes = [] := by
  obtain ⟨-, rfl⟩ := notification?_eq_some_iff.mp h
  rfl

theorem mem_updates (h : sh.notification? {} t = some n) {u : Update} :
    u ∈ n.updates ↔ ∃ k r, sh.rows.find? k = some r ∧ r.update = u := by
  obtain ⟨-, rfl⟩ := notification?_eq_some_iff.mp h
  simp only [List.mem_map, Table.mem_values]
  exact ⟨fun ⟨r, ⟨k, hk⟩, hu⟩ => ⟨k, r, hk, hu⟩, fun ⟨k, r, hk, hu⟩ => ⟨r, ⟨k, hk⟩, hu⟩⟩

theorem updates_ascending (h : sh.notification? {} t = some n)
    (hk : ∀ k r, sh.rows.find? k = some r → r.update.path.print = k) :
    n.updates.Pairwise fun a b => a.path.print < b.path.print := by
  obtain ⟨-, rfl⟩ := notification?_eq_some_iff.mp h
  simp only [Table.values, List.map_map, List.pairwise_map, Function.comp_def]
  refine sh.rows.ascending.imp_of_mem fun {a b} ha hb hlt => ?_
  rwa [hk _ _ (Table.find?_eq_some_iff.mpr ha), hk _ _ (Table.find?_eq_some_iff.mpr hb)]

theorem notification?_congr {a b : Shelf} (hrows : a.rows.map Row.update = b.rows.map Row.update)
    (htimestamp : a.timestamp = b.timestamp) (horigin : a.origin = b.origin) (i : Interest)
    (t : String) : a.notification? i t = b.notification? i t := by
  have hvalues : ∀ s : Shelf, s.rows.values.map (·.update) = (s.rows.map Row.update).values :=
    fun s => (Table.values_map Row.update s.rows).symm
  simp only [notification?, base, hvalues, hrows, htimestamp, horigin]

theorem isSome_notification? :
    (sh.notification? {} t).isSome = true ↔ ∃ k, (sh.rows.find? k).isSome = true := by
  rw [Option.isSome_iff_exists]
  simp only [notification?_eq_some_iff, exists_and_left, exists_eq, and_true]
  rw [← Bool.not_eq_true, Table.isEmpty_iff, Classical.not_forall]
  simp only [Option.isSome_iff_ne_none, ne_eq]

end Shelf

/-! ## The notifications of a subscription -/

namespace Store

/-- What is listed for a subscription and target. -/
def notification? (st : Store) (s t : String) : Option Notification :=
  (st.shelf? s t).bind (·.notification? {} t)

/-- What is listed for a subscription. -/
def listed (v : Table (List Notification)) (s : String) : List Notification := (v.find? s).getD []

theorem mem_notifications {shelves : Table Shelf} {n : Notification} :
    n ∈ notifications {} shelves ↔
      (shelves.find? n.target).bind (·.notification? {} n.target) = some n := by
  have hall : ∀ t, ({} : Interest).wantsTarget t = true := fun _ => rfl
  simp only [notifications, hall, if_true, List.mem_filterMap, Option.bind_eq_some_iff,
    Table.find?_eq_some_iff]
  constructor
  · rintro ⟨⟨t, sh⟩, hmem, hn⟩
    obtain rfl := Shelf.target_of_notification? hn
    exact ⟨sh, hmem, hn⟩
  · rintro ⟨sh, hmem, hn⟩
    exact ⟨(n.target, sh), hmem, hn⟩

theorem notifications_ascending (shelves : Table Shelf) :
    (notifications {} shelves).Pairwise fun a b => a.target < b.target := by
  refine shelves.ascending.filterMap _ fun a b hlt n hn n' hn' => ?_
  rw [if_pos (show ({} : Interest).wantsTarget _ = true from rfl)] at hn hn'
  rwa [Shelf.target_of_notification? hn, Shelf.target_of_notification? hn']

theorem find?_view (st : Store) (s : String) :
    st.view.find? s = if (listed st.view s).isEmpty then none else some (listed st.view s) := by
  unfold listed view
  rw [Table.find?_filterMap]
  cases st.contents.find? s with
  | none => rfl
  | some shelves =>
    simp only [Option.bind_some]
    by_cases h : (notifications {} shelves).isEmpty = true
    · simp [h]
    · simp [h]

theorem listed_view (st : Store) (s : String) :
    listed st.view s = ((st.contents.find? s).map (notifications {})).getD [] := by
  unfold listed view
  rw [Table.find?_filterMap]
  cases st.contents.find? s with
  | none => rfl
  | some shelves =>
    simp only [Option.bind_some, Option.map_some, Option.getD_some]
    split
    · rename_i h
      exact (List.isEmpty_iff.mp h).symm
    · rfl

/-- **A notification is listed for its target and no other.** -/
theorem mem_listed {st : Store} {s : String} {n : Notification} :
    n ∈ listed st.view s ↔ st.notification? s n.target = some n := by
  rw [listed_view, notification?, shelf?]
  cases st.contents.find? s with
  | none => simp
  | some shelves => exact mem_notifications

theorem listed_ascending (st : Store) (s : String) :
    (listed st.view s).Pairwise fun a b => a.target < b.target := by
  rw [listed_view]
  cases st.contents.find? s with
  | none => exact .nil
  | some shelves => exact notifications_ascending shelves

theorem find?_view_congr {a b : Store} {s : String}
    (h : ∀ t, a.notification? s t = b.notification? s t) : a.view.find? s = b.view.find? s := by
  have hanti : Std.Antisymm fun a b : Notification => a.target < b.target :=
    ⟨fun _ _ hab hba => absurd hba (String.lt_asymm hab)⟩
  have hirrefl : Std.Irrefl fun a b : Notification => a.target < b.target :=
    ⟨fun _ => String.lt_irrefl _⟩
  have hlisted : listed a.view s = listed b.view s :=
    (listed_ascending a s).eq_of_mem_iff (listed_ascending b s) fun n => by
      rw [mem_listed, mem_listed, h]
  rw [find?_view, find?_view, hlisted]

theorem view_eq_iff {a b : Store} :
    a.view = b.view ↔ ∀ s t, a.notification? s t = b.notification? s t := by
  constructor
  · intro h s t
    refine Option.ext fun n => ⟨fun hn => ?_, fun hn => ?_⟩
    · obtain ⟨sh, -, hsh⟩ := Option.bind_eq_some_iff.mp hn
      obtain rfl := Shelf.target_of_notification? hsh
      rw [← mem_listed] at hn ⊢
      rwa [← h]
    · obtain ⟨sh, -, hsh⟩ := Option.bind_eq_some_iff.mp hn
      obtain rfl := Shelf.target_of_notification? hsh
      rw [← mem_listed] at hn ⊢
      rwa [h]
  · exact fun h => Table.ext_find? fun s => find?_view_congr (h s)

theorem notification?_eq_shelf (st : Store) (s t : String) :
    st.notification? s t = (st.shelf s t).notification? {} t := by
  rw [notification?, shelf]
  cases st.shelf? s t <;> rfl

theorem read_of_lifetime_none {st : Store} (h : st.lifetime = none) (now : ℕ) :
    st.read now = (st, st.view) := by
  simp [read, prune, h]

end Store

end Telemetry
