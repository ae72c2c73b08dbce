import Mathlib.Data.Nat.Notation
import Telemetry.Proofs.Table
import Telemetry.Store.Basic

/-!
# What a write does to one place

A place of a store is named by a subscription, a target and the printed form of a path. A
notification puts its last update for a place there; where it has none, its deletes decide whether
what was there before stays.

* `Notification.last?`, `Notification.erases`, `Notification.rowAfter`: what a notification says of
  a place, and what it leaves there;
* **`Shelf.find?_rows_apply`**: one place of a shelf after a notification;
* `Store.shelf?_apply`, `Store.shelf?_deleteTarget`, `Store.shelf?_clear`: one shelf of a store
  after a change;
* `Envelope.about?`, `Store.shelf_write_of_about`: the envelopes that change a shelf;
* `Store.row?`, `Store.Keyed`: one place of a store, and the invariant that it is named rightly.
-/

namespace Telemetry

/-! ## What a notification says of a place -/

namespace Notification

/-- The update with its full path. -/
def filed (n : Notification) (u : Update) : Update := { u with path := n.full u.path }

/-- The last update for the place with a printed form, with its full path. -/
def last? (n : Notification) (k : String) : Option Update :=
  (n.updates.map n.filed).reverse.find? fun u => u.path.print == k

/-- Some delete of the notification covers the place. -/
def erases (n : Notification) (p : Path) : Bool := n.deletes.any fun d => (n.full d).covers p

/-- What stands at a place after the notification, if `o` stood there before. -/
def rowAfter (now : ℕ) (n : Notification) (k : String) (o : Option Row) : Option Row :=
  ((n.last? k).map fun u => ⟨u, now⟩).or (o.filter fun r => !n.erases r.update.path)

@[simp] theorem filed_path (n : Notification) (u : Update) : (n.filed u).path = n.full u.path := rfl

theorem last?_eq_some_iff {n : Notification} {k : String} {u : Update} :
    n.last? k = some u ↔ u.path.print = k ∧ ∃ us v vs, n.updates = us ++ v :: vs ∧
      n.filed v = u ∧ ∀ v' ∈ vs, (n.full v'.path).print ≠ k := by
  have hsplit : ∀ as bs, (n.updates.map n.filed).reverse = as ++ u :: bs ↔
      n.updates.map n.filed = bs.reverse ++ u :: as.reverse := fun as bs => by
    rw [List.reverse_eq_iff, List.reverse_append, List.reverse_cons, List.append_assoc]
    rfl
  rw [last?, List.find?_eq_some_iff_append, beq_iff_eq]
  refine and_congr_right fun _ => ⟨?_, ?_⟩
  · rintro ⟨as, bs, he, has⟩
    obtain ⟨us, l, hul, hus, hl⟩ := List.map_eq_append_iff.mp ((hsplit as bs).mp he)
    obtain ⟨v, vs, rfl, hv, hvs⟩ := List.map_eq_cons_iff.mp hl
    refine ⟨us, v, vs, hul, hv, fun v' hv' => ?_⟩
    have hmem : n.filed v' ∈ as := by
      rw [← List.mem_reverse, ← hvs]
      exact List.mem_map_of_mem hv'
    simpa using has _ hmem
  · rintro ⟨us, v, vs, he, rfl, hvs⟩
    refine ⟨(vs.map n.filed).reverse, (us.map n.filed).reverse, (hsplit _ _).mpr ?_, ?_⟩
    · simp [he]
    · intro a ha
      obtain ⟨v', hv', rfl⟩ := List.mem_map.mp (List.mem_reverse.mp ha)
      simpa using hvs v' hv'

theorem print_of_last? {n : Notification} {k : String} {u : Update} (h : n.last? k = some u) :
    u.path.print = k := (last?_eq_some_iff.mp h).1

theorem last?_eq_none_iff {n : Notification} {k : String} :
    n.last? k = none ↔ ∀ v ∈ n.updates, (n.full v.path).print ≠ k := by
  simp [last?]

theorem erases_eq_false_iff {n : Notification} {p : Path} :
    n.erases p = false ↔ ∀ d ∈ n.deletes, (n.full d).covers p = false := by
  simp [erases]

theorem rowAfter_of_some {n : Notification} {k : String} {u : Update} (h : n.last? k = some u)
    (now : ℕ) (o : Option Row) : n.rowAfter now k o = some ⟨u, now⟩ := by
  rw [rowAfter, h, Option.map_some, Option.some_or]

theorem rowAfter_of_none {n : Notification} {k : String} (h : n.last? k = none) (now : ℕ)
    (o : Option Row) : n.rowAfter now k o = o.filter fun r => !n.erases r.update.path := by
  rw [rowAfter, h, Option.map_none, Option.none_or]

theorem rowAfter_of_isEmpty {n : Notification} (h : n.isEmpty = true) (now : ℕ) (k : String)
    (o : Option Row) : n.rowAfter now k o = o := by
  obtain ⟨hu, hd⟩ := Bool.and_eq_true_iff.mp h
  have hlast : n.last? k = none := by rw [last?, List.isEmpty_iff.mp hu]; rfl
  have herases : ∀ p, n.erases p = false := fun p => by
    rw [erases, List.isEmpty_iff.mp hd]
    rfl
  rw [rowAfter_of_none hlast]
  cases o <;> simp [herases, Option.filter]

end Notification

/-! ## One shelf -/

namespace Shelf

theorem find?_foldl_filter (n : Notification) (ds : List Path) (rows : Table Row) (k : String) :
    (ds.foldl (fun t d => t.filter fun _ r => !(n.full d).covers r.update.path) rows).find? k =
      (rows.find? k).filter fun r => !ds.any fun d => (n.full d).covers r.update.path := by
  induction ds generalizing rows with
  | nil => cases h : rows.find? k <;> simp [h, Option.filter]
  | cons d ds ih =>
    rw [List.foldl_cons, ih, Table.find?_filter, Option.filter_filter]
    simp only [List.any_cons, Bool.not_or]

theorem find?_removed (n : Notification) (rows : Table Row) (k : String) :
    (removed n rows).find? k = (rows.find? k).filter fun r => !n.erases r.update.path :=
  find?_foldl_filter n n.deletes rows k

theorem find?_foldl_put (now : ℕ) (n : Notification) (us : List Update) (rows : Table Row)
    (k : String) : (us.foldl (put now n) rows).find? k =
      (((us.map n.filed).reverse.find? fun u => u.path.print == k).map fun u => ⟨u, now⟩).or
        (rows.find? k) := by
  induction us generalizing rows with
  | nil => rfl
  | cons u us ih =>
    rw [List.foldl_cons, ih, put, Table.find?_insert, List.map_cons, List.reverse_cons,
      List.find?_append]
    cases (us.map n.filed).reverse.find? fun u => u.path.print == k with
    | some v => rfl
    | none =>
      by_cases hk : k = (n.full u.path).print
      · simp [hk, Notification.filed]
      · have : ((n.full u.path).print == k) = false := beq_eq_false_iff_ne.mpr (Ne.symm hk)
        simp [hk, this]

/-- **One place of a shelf after a notification**: its last update for the place, or else what was
there, unless a delete covers it. -/
theorem find?_rows_apply (now : ℕ) (n : Notification) (s : Shelf) (k : String) :
    (s.apply now n).rows.find? k = n.rowAfter now k (s.rows.find? k) := by
  rw [apply, find?_foldl_put, find?_removed]
  rfl

end Shelf

/-! ## One shelf of a store -/

namespace Store

@[simp] theorem shelf?_empty (s t : String) : ({} : Store).shelf? s t = none := rfl

theorem shelf?_apply (now : ℕ) (s : String) (n : Notification) (st : Store) (s' t' : String) :
    (st.apply now s n).shelf? s' t' = if s' = s ∧ t' = n.target then
      some (((st.shelf? s n.target).getD {}).apply now n) else st.shelf? s' t' := by
  unfold shelf? apply
  rw [Table.find?_upsert]
  by_cases hs : s' = s
  · subst hs
    rw [if_pos rfl, Option.bind_some, Table.find?_upsert]
    by_cases ht : t' = n.target
    · rw [if_pos ht, if_pos ⟨rfl, ht⟩]
      cases st.contents.find? s' <;> rfl
    · rw [if_neg ht, if_neg fun h => ht h.2]
      cases st.contents.find? s' <;> rfl
  · rw [if_neg hs, if_neg fun h => hs h.1]

theorem shelf?_deleteTarget (t : String) (st : Store) (s' t' : String) :
    (st.deleteTarget t).shelf? s' t' = if t' = t then none else st.shelf? s' t' := by
  unfold shelf? deleteTarget
  rw [Table.find?_filterMap]
  cases st.contents.find? s' with
  | none => simp
  | some shelves =>
    simp only [Option.bind_some]
    split
    · rename_i h
      rw [Option.bind_none, ← Table.find?_erase, Table.isEmpty_iff.mp h]
    · rw [Option.bind_some, Table.find?_erase]

@[simp] theorem shelf?_clear (st : Store) (s t : String) : st.clear.shelf? s t = none := rfl

theorem write_update (now : ℕ) (s : String) {e : Envelope} {n : Notification}
    (he : e.notification? = some n) (hn : n.isEmpty = false) (st : Store) :
    st.write now s e =
      { st.apply now s n with feed := (st.apply now s n).feed.push ⟨s, n⟩ } := by
  simp only [write, he, hn, Bool.false_eq_true, if_false]

theorem write_of_idle (now : ℕ) (s : String) {e : Envelope}
    (he : ∀ n, e.notification? = some n → n.isEmpty = true) (st : Store) :
    st.write now s e = st := by
  unfold write
  split
  · rfl
  · rename_i n hn
    rw [if_pos (he n hn)]

theorem write_cases (now : ℕ) (s : String) (e : Envelope) (st : Store) :
    ((∀ n, e.notification? = some n → n.isEmpty = true) ∧ st.write now s e = st) ∨
    ∃ n, e.notification? = some n ∧ n.isEmpty = false ∧ st.write now s e =
      { st.apply now s n with feed := (st.apply now s n).feed.push ⟨s, n⟩ } := by
  by_cases hidle : ∀ n, e.notification? = some n → n.isEmpty = true
  · exact .inl ⟨hidle, write_of_idle now s hidle st⟩
  · simp only [Classical.not_forall, Bool.not_eq_true] at hidle
    obtain ⟨n, he, hn⟩ := hidle
    exact .inr ⟨n, he, hn, write_update now s he hn st⟩

/-- The shelf of a subscription and target, empty where there is none. -/
def shelf (st : Store) (s t : String) : Shelf := (st.shelf? s t).getD {}

theorem shelf_write (now : ℕ) (s : String) {e : Envelope} {n : Notification}
    (he : e.notification? = some n) (st : Store) (s' t : String) :
    (st.write now s e).shelf s' t = if n.isEmpty = false ∧ s' = s ∧ t = n.target then
      (st.shelf s t).apply now n else st.shelf s' t := by
  cases hn : n.isEmpty with
  | true => simp [write, he, hn]
  | false =>
    have hshelf : ∀ a b, (st.write now s e).shelf? a b = (st.apply now s n).shelf? a b := by
      rw [write_update now s he hn]
      exact fun _ _ => rfl
    rw [shelf, hshelf, shelf?_apply]
    by_cases h : s' = s ∧ t = n.target
    · rw [if_pos h, if_pos ⟨rfl, h⟩, h.2]
      rfl
    · rw [if_neg h, if_neg fun hc => h hc.2, shelf]

end Store

/-- The notification of an update about a target, if it holds something. -/
def Envelope.about? (t : String) (e : Envelope) : Option Notification :=
  e.notification?.filter fun n => !n.isEmpty && n.target == t

namespace Store

section About

variable {s t : String} {e : Envelope} {n : Notification}

theorem shelf_write_of_about (h : e.about? t = some n) (now : ℕ) (st : Store) :
    (st.write now s e).shelf s t = (st.shelf s t).apply now n := by
  obtain ⟨he, hcond⟩ := Option.filter_eq_some_iff.mp h
  obtain ⟨hne, ht⟩ := Bool.and_eq_true_iff.mp hcond
  rw [shelf_write now s he, if_pos ⟨by simpa using hne, rfl, (eq_of_beq ht).symm⟩]

theorem shelf_write_of_not_about (h : e.about? t = none) (now : ℕ) (st : Store) :
    (st.write now s e).shelf s t = st.shelf s t := by
  cases he : e.notification? with
  | none => rw [write_of_idle now s (by simp [he])]
  | some n =>
    rw [shelf_write now s he, if_neg]
    rintro ⟨hne, -, rfl⟩
    simp [Envelope.about?, he, hne] at h

theorem shelf_write_of_ne {s' : String} (h : s' ≠ s) (now : ℕ) (e : Envelope) (st : Store) :
    (st.write now s e).shelf s' t = st.shelf s' t := by
  cases he : e.notification? with
  | none => rw [write_of_idle now s (by simp [he])]
  | some n => rw [shelf_write now s he, if_neg fun hc => h hc.2.1]

end About

theorem lifetime_write (now : ℕ) (s : String) (e : Envelope) (st : Store) :
    (st.write now s e).lifetime = st.lifetime := by
  unfold write
  split
  · rfl
  · split
    · rfl
    · rfl

/-! ## One place of a store -/

/-- What is kept at a place. -/
def row? (st : Store) (s t k : String) : Option Row := (st.shelf? s t).bind (·.rows.find? k)

@[simp] theorem row?_empty (s t k : String) : ({} : Store).row? s t k = none := rfl

theorem row?_getD (st : Store) (s t k : String) :
    ((st.shelf? s t).getD {}).rows.find? k = st.row? s t k := by
  unfold row?
  cases st.shelf? s t <;> rfl

theorem row?_apply (now : ℕ) (s : String) (n : Notification) (st : Store) (s' t' k : String) :
    (st.apply now s n).row? s' t' k = if s' = s ∧ t' = n.target then
      n.rowAfter now k (st.row? s t' k) else st.row? s' t' k := by
  rw [row?, shelf?_apply]
  split
  · rename_i h
    rw [Option.bind_some, Shelf.find?_rows_apply, row?_getD, h.2]
  · rfl

theorem row?_deleteTarget (t : String) (st : Store) (s' t' k : String) :
    (st.deleteTarget t).row? s' t' k = if t' = t then none else st.row? s' t' k := by
  rw [row?, shelf?_deleteTarget]
  split <;> rfl

@[simp] theorem row?_clear (st : Store) (s t k : String) : st.clear.row? s t k = none := rfl

theorem row?_write (now : ℕ) (s : String) {e : Envelope} {n : Notification}
    (he : e.notification? = some n) (st : Store) (s' t' k : String) :
    (st.write now s e).row? s' t' k = if s' = s ∧ t' = n.target then
      n.rowAfter now k (st.row? s t' k) else st.row? s' t' k := by
  cases hn : n.isEmpty with
  | false => rw [write_update now s he hn, ← row?_apply]; rfl
  | true =>
    have hidle : ∀ n', e.notification? = some n' → n'.isEmpty = true := fun n' h => by
      obtain rfl := Option.some.inj (he.symm.trans h)
      exact hn
    rw [write_of_idle now s hidle]
    split
    · rename_i h
      rw [Notification.rowAfter_of_isEmpty hn, h.1]
    · rfl

/-- Every row stands at the place that its path names. -/
def Keyed (st : Store) : Prop := ∀ s t k r, st.row? s t k = some r → r.update.path.print = k

theorem keyed_empty : ({} : Store).Keyed := by
  intro s t k r h
  cases h

theorem Keyed.apply {st : Store} (h : st.Keyed) (now : ℕ) (s : String) (n : Notification) :
    (st.apply now s n).Keyed := by
  intro s' t' k r hr
  rw [row?_apply] at hr
  split at hr
  · cases hl : n.last? k with
    | some u =>
      rw [Notification.rowAfter_of_some hl] at hr
      obtain rfl := Option.some.inj hr
      exact Notification.print_of_last? hl
    | none =>
      rw [Notification.rowAfter_of_none hl] at hr
      exact h _ _ _ _ (Option.filter_eq_some_iff.mp hr).1
  · exact h _ _ _ _ hr

theorem Keyed.write {st : Store} (h : st.Keyed) (now : ℕ) (s : String) (e : Envelope) :
    (st.write now s e).Keyed := by
  unfold Store.write
  split
  · exact h
  · split
    · exact h
    · exact h.apply now s _

theorem Keyed.deleteTarget {st : Store} (h : st.Keyed) (t : String) :
    (st.deleteTarget t).Keyed := by
  intro s' t' k r hr
  rw [row?_deleteTarget] at hr
  split at hr
  · cases hr
  · exact h _ _ _ _ hr

theorem Keyed.clear (st : Store) : st.clear.Keyed := by
  intro s t k r h
  cases h

end Store

end Telemetry
