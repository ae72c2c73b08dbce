import Telemetry.Proofs.Agree

/-!
# The first write

A write takes a notification apart: the target names a shelf, the origin and the timestamp go to
registers, and every update becomes a row under its printed path. A read puts one together from what
it finds. On an empty store a notification in normal form comes back as it was written, but for a
timestamp below zero, as the register starts there.

* `Notification.IsNormal`: the normal form, in which notifications are read;
* `Shelf.rows_apply_normal`, `Shelf.base_apply_normal`: what is kept of the updates, and of the base
  path; **`Shelf.notification?_apply_normal`**: what is listed for the one target;
* `Store.contents_write_empty`, `Store.view_of_contents`: the one shelf, and the one notification;
* **`Store.read_write_normal`**: what is read after a first write;
* `Store.read_write_labelled`, `Store.read_write_negative`: one that comes back, and one that does
  not.
-/

namespace Telemetry

/-! ## Normal form -/

/-- Updates alone, in ascending order of the printed paths. The base path has no elements, and names
a target or an origin where there is one; paths have its origin, and no target. -/
structure Notification.IsNormal (n : Notification) : Prop where
  updates : n.updates ≠ []
  deletes : n.deletes = []
  atomic : n.atomic = false
  base : n.base ≠ some {}
  elements : n.basePath.elements = []
  origin : ∀ u ∈ n.updates, u.path.origin = n.basePath.origin
  target : ∀ u ∈ n.updates, u.path.target = ""
  ascending : n.updates.Pairwise fun a b => a.path.print < b.path.print

variable {n : Notification} {u : Update}

namespace Notification.IsNormal

theorem isEmpty_eq (h : n.IsNormal) : n.isEmpty = false := by
  rw [Notification.isEmpty, List.isEmpty_eq_false_iff.mpr h.updates, Bool.false_and]

theorem full_eq (h : n.IsNormal) (hu : u ∈ n.updates) : n.full u.path = u.path :=
  calc n.full u.path
    _ = { origin := if u.path.origin.isEmpty then n.basePath.origin else u.path.origin
          elements := n.basePath.elements ++ u.path.elements
          target := "" } := rfl
    _ = u.path := by
      rw [h.elements, List.nil_append, ← h.origin u hu, ite_self, ← h.target u hu]

theorem base_eq (h : n.IsNormal) : n.base =
    if n.basePath.origin.isEmpty && n.target.isEmpty then none
    else some { origin := n.basePath.origin, target := n.target } := by
  cases hb : n.base with
  | none => simp [Notification.target, Notification.basePath, hb]
  | some p =>
    have hp : n.basePath = p := by rw [Notification.basePath, hb, Option.getD_some]
    have helements : p.elements = [] := hp ▸ h.elements
    have hsplit : p = { origin := p.origin, target := p.target } := by
      cases p
      simp_all
    rw [Notification.target, hp, if_neg, ← hsplit]
    intro hempty
    obtain ⟨ho, ht⟩ := Bool.and_eq_true_iff.mp hempty
    rw [String.isEmpty_iff.mp ho, String.isEmpty_iff.mp ht] at hsplit
    exact h.base (hb.trans (congrArg some hsplit))

end Notification.IsNormal

/-! ## One shelf -/

namespace Shelf

theorem rows_apply_normal (h : n.IsNormal) (now : ℕ) :
    (({} : Shelf).apply now n).rows.rows = n.updates.map fun u => (u.path.print, ⟨u, now⟩) := by
  have hremoved : removed n .empty = .empty := by
    rw [removed, h.deletes]
    rfl
  have hput : ∀ rows, ∀ u ∈ n.updates, put now n rows u = rows.insert u.path.print ⟨u, now⟩ :=
    fun rows u hu => by rw [put, h.full_eq hu]
  have hrows := Table.rows_foldl_insert (n.updates.map fun u => (u.path.print, (⟨u, now⟩ : Row)))
    .empty (by simpa [Table.empty, List.pairwise_map] using h.ascending)
  rw [List.foldl_map] at hrows
  show (n.updates.foldl (put now n) (removed n .empty)).rows = _
  rw [hremoved, List.foldl_ext _ _ _ hput, hrows]
  rfl

theorem base_apply_normal (h : n.IsNormal) (now : ℕ) :
    (({} : Shelf).apply now n).base n.target = n.base := by
  rw [base, apply_origin_empty, h.base_eq]

/-- **What is listed for the one target.** -/
theorem notification?_apply_normal (h : n.IsNormal) (now : ℕ) :
    (({} : Shelf).apply now n).notification? {} n.target =
      some { n with timestamp := max 0 n.timestamp } := by
  have hrows := rows_apply_normal h now
  refine notification?_eq_some_iff.mpr ⟨?_, ?_⟩
  · rw [Table.isEmpty, hrows, List.isEmpty_map, List.isEmpty_eq_false_iff.mpr h.updates]
  · have hupdates : (({} : Shelf).apply now n).rows.values.map (·.update) = n.updates := by
      simp [Table.values, hrows, Function.comp_def]
    rw [hupdates, base_apply_normal h, apply_timestamp]
    show { n with timestamp := max 0 n.timestamp } = _
    rw [h.deletes, h.atomic]

end Shelf

/-! ## The store -/

namespace Store

variable {st : Store} {s : String}

theorem contents_write_empty (hst : st.isEmpty = true) (hn : n.isEmpty = false) (now : ℕ)
    (s : String) : (st.write now s (.update n)).contents =
      Table.empty.insert s (Table.empty.insert n.target (({} : Shelf).apply now n)) := by
  have hwrite : (st.write now s (.update n)).contents = st.contents.upsert s .empty
      fun shelves => shelves.upsert n.target {} (Shelf.apply now n) := by
    rw [write_update now s rfl hn]
    rfl
  rw [hwrite, Table.eq_empty_of_isEmpty hst]
  rfl

theorem view_of_contents {t : String} {sh : Shelf}
    (hst : st.contents = Table.empty.insert s (Table.empty.insert t sh))
    (hsh : sh.notification? {} t = some n) : st.view = Table.empty.insert s [n] := by
  have hlist : notifications {} (Table.empty.insert t sh) = [n] := by
    show [(t, sh)].filterMap _ = [n]
    rw [List.filterMap_cons_some]
    · rfl
    · exact hsh
  refine Table.ext_find? fun s' => ?_
  rw [view, Table.find?_filterMap, hst, Table.find?_insert, Table.find?_insert]
  split
  · rw [Option.bind_some, hlist]
    rfl
  · rfl

/-- **What is read after a first write** of a notification in normal form: under its subscription
the notification as it was written, if its timestamp is not negative, and else with the timestamp
zero. -/
theorem read_write_normal (hst : st.isEmpty = true) (hl : st.lifetime = none) (h : n.IsNormal)
    (now later : ℕ) (s : String) :
    let view := ((st.write now s (.update n)).read later).2
    view = Table.empty.insert s [{ n with timestamp := max 0 n.timestamp }] ∧
    (view = Table.empty.insert s [n] ↔ 0 ≤ n.timestamp) := by
  intro view
  have hview : view = Table.empty.insert s [{ n with timestamp := max 0 n.timestamp }] := by
    have hread := read_of_lifetime_none ((lifetime_write now s (.update n) st).trans hl) later
    exact (congrArg Prod.snd hread).trans (view_of_contents
      (contents_write_empty hst h.isEmpty_eq now s) (Shelf.notification?_apply_normal h now))
  have hmax : max 0 n.timestamp = n.timestamp ↔ 0 ≤ n.timestamp := by
    rw [← Int64.toInt_inj, Shelf.toInt_max, Int64.le_iff_toInt_le]
    omega
  refine ⟨hview, ?_⟩
  rw [hview, ← hmax]
  constructor
  · intro heq
    have hfind := congrArg (Table.find? · s) heq
    simp only [Table.find?_insert, if_true, Option.some.injEq, List.cons.injEq, and_true] at hfind
    exact congrArg Notification.timestamp hfind
  · intro htimestamp
    rw [htimestamp]

/-- Two updates, one of them with a key, below an origin and a target. -/
def labelled (timestamp : Int64) : Notification where
  timestamp
  base := some { origin := "o", target := "r" }
  updates :=
    [{ path := { origin := "o", elements := [({ name := "a" } : Element).withKey "k" "v"] } },
      { path := { origin := "o", elements := [{ name := "b" }] }, value := some (.int 7) }]

theorem isNormal_labelled (timestamp : Int64) : (labelled timestamp).IsNormal where
  updates := by simp [labelled]
  deletes := rfl
  atomic := rfl
  base := by simp [labelled]
  elements := rfl
  origin := by simp [labelled, Notification.basePath]
  target := by simp [labelled]
  ascending := by
    show (labelled 0).updates.Pairwise fun a b => a.path.print < b.path.print
    decide

/-- With a timestamp that is not negative both updates come back, below their origin and target. -/
theorem read_write_labelled : ({} : Store).isEmpty = true ∧ ({} : Store).lifetime = none ∧
    (labelled 5).IsNormal ∧
    ((({} : Store).write 0 "s" (.update (labelled 5))).read 0).2 =
      Table.empty.insert "s" [labelled 5] := by
  have hempty : ({} : Store).isEmpty = true := rfl
  have hread := read_write_normal hempty rfl (isNormal_labelled 5) 0 0 "s"
  exact ⟨rfl, rfl, isNormal_labelled 5, hread.2.mpr (by decide)⟩

/-- With a negative one they come back at the time zero. -/
theorem read_write_negative : (labelled (-1)).IsNormal ∧
    ((({} : Store).write 0 "s" (.update (labelled (-1)))).read 0).2 =
      Table.empty.insert "s" [labelled 0] ∧
    ((({} : Store).write 0 "s" (.update (labelled (-1)))).read 0).2 ≠
      Table.empty.insert "s" [labelled (-1)] :=
  ⟨isNormal_labelled (-1), by decide, by decide⟩

end Store

end Telemetry
