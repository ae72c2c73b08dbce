import Telemetry.Proofs.Agree
import Telemetry.Proofs.History

/-!
# Copies of a store

What is read from a store can be written to a fresh one. A notification is listed under the origin
that was last written for its target, and its paths have the origins under which they were put in. A
path without an origin gets that of the base path when it is written again, so the copy reads like
the store exactly if every path that is read is its own full path.

* `Shelf.apply_apply`: applying a notification twice;
* `Shelf.Sound`, `Store.sound_run`: what stands on a shelf;
* **`Shelf.Sound.notification?_apply_iff`**: what is listed for one target, applied to an empty
  shelf;
* `Store.copy`, `Store.Lists`: the store to which everything is written that is listed;
* `Store.shelf_copy`: one shelf of a copy;
* **`Store.read_copy_iff`**: when the copy reads like the store;
* `Store.read_copy_named`, `Store.read_copy_unnamed`: a copy that does, and one that does not.
-/

namespace Telemetry

/-! ## Shelves -/

namespace Shelf

theorem apply_apply (now : ℕ) (n : Notification) (sh : Shelf) :
    (sh.apply now n).apply now n = sh.apply now n := by
  have hrows : ((sh.apply now n).apply now n).rows = (sh.apply now n).rows := by
    refine Table.ext_find? fun k => ?_
    simp only [find?_rows_apply]
    cases hlast : n.last? k with
    | some u => rw [Notification.rowAfter_of_some hlast, Notification.rowAfter_of_some hlast]
    | none =>
      rw [Notification.rowAfter_of_none hlast, Notification.rowAfter_of_none hlast,
        Option.filter_filter]
      simp
  have htimestamp : ((sh.apply now n).apply now n).timestamp = (sh.apply now n).timestamp := by
    rw [← Int64.toInt_inj]
    simp only [apply_timestamp, toInt_max]
    omega
  have horigin : ((sh.apply now n).apply now n).origin = (sh.apply now n).origin := by
    simp only [apply_origin]
    split <;> rfl
  cases hb : sh.apply now n
  rw [hb] at hrows htimestamp horigin
  rw [Shelf.mk.injEq]
  exact ⟨horigin, htimestamp, hrows⟩

/-- Rows stand at the places that their paths name, without a target, and the timestamp is not
negative. -/
structure Sound (sh : Shelf) : Prop where
  keyed : ∀ k r, sh.rows.find? k = some r → r.update.path.print = k
  target : ∀ k r, sh.rows.find? k = some r → r.update.path.target = ""
  timestamp : 0 ≤ sh.timestamp.toInt

theorem sound_empty : ({} : Shelf).Sound where
  keyed k r h := by cases h
  target k r h := by cases h
  timestamp := by decide

theorem Sound.apply {sh : Shelf} (h : sh.Sound) (now : ℕ) (n : Notification) :
    (sh.apply now n).Sound := by
  have hrow : ∀ k r, (sh.apply now n).rows.find? k = some r →
      r.update.path.print = k ∧ r.update.path.target = "" := by
    intro k r hr
    rw [find?_rows_apply] at hr
    cases hlast : n.last? k with
    | some u =>
      rw [Notification.rowAfter_of_some hlast] at hr
      obtain rfl := Option.some.inj hr
      obtain ⟨hprint, us, v, vs, -, rfl, -⟩ := Notification.last?_eq_some_iff.mp hlast
      exact ⟨hprint, rfl⟩
    | none =>
      rw [Notification.rowAfter_of_none hlast] at hr
      have hr := (Option.filter_eq_some_iff.mp hr).1
      exact ⟨h.keyed k r hr, h.target k r hr⟩
  refine ⟨fun k r hr => (hrow k r hr).1, fun k r hr => (hrow k r hr).2, ?_⟩
  have := h.timestamp
  rw [apply_timestamp, toInt_max]
  omega

/-! ## What is listed for one target -/

variable {sh : Shelf} {t : String} {n : Notification} {u : Update}

theorem basePath_of_notification? (h : sh.notification? {} t = some n) :
    n.basePath = { origin := sh.origin, target := t } := by
  obtain ⟨-, rfl⟩ := notification?_eq_some_iff.mp h
  simp only [Notification.basePath, base]
  split
  · rename_i hempty
    obtain ⟨ho, ht⟩ := Bool.and_eq_true_iff.mp hempty
    rw [String.isEmpty_iff.mp ho, String.isEmpty_iff.mp ht]
    rfl
  · rfl

theorem full_of_notification? (h : sh.notification? {} t = some n) (p : Path) : n.full p =
    { origin := if p.origin.isEmpty then sh.origin else p.origin, elements := p.elements } := by
  rw [Notification.full, basePath_of_notification? h]
  rfl

/-- A path is its own full path unless it gets its origin from the base path. -/
theorem Sound.full_eq_iff (hs : sh.Sound) (h : sh.notification? {} t = some n)
    (hu : u ∈ n.updates) :
    n.full u.path = u.path ↔ (u.path.origin = "" → n.basePath.origin = "") := by
  obtain ⟨k, r, hr, rfl⟩ := (mem_updates h).mp hu
  have htarget := hs.target k r hr
  rw [full_of_notification? h, basePath_of_notification? h]
  cases hp : r.update.path with
  | mk origin elements target =>
    rw [hp] at htarget
    obtain rfl : target = "" := htarget
    by_cases ho : origin = ""
    · simp [ho]
    · simp [ho]

theorem find?_rows_apply_empty (now : ℕ) (n : Notification) (k : String) :
    (({} : Shelf).apply now n).rows.find? k = (n.last? k).map fun u => ⟨u, now⟩ := by
  rw [find?_rows_apply, Notification.rowAfter]
  exact Option.or_none

theorem Sound.rows_apply_empty (hs : sh.Sound) (h : sh.notification? {} t = some n) (now : ℕ)
    (hfull : ∀ u ∈ n.updates, n.full u.path = u.path) :
    (({} : Shelf).apply now n).rows.map Row.update = sh.rows.map Row.update := by
  have hfiled : ∀ u ∈ n.updates, n.filed u = u := fun u hu => by
    rw [Notification.filed, hfull u hu]
  refine Table.ext_find? fun k => ?_
  rw [Table.find?_map, Table.find?_map, find?_rows_apply_empty]
  cases hlast : n.last? k with
  | some u =>
    obtain ⟨hprint, us, v, vs, hn, rfl, -⟩ := Notification.last?_eq_some_iff.mp hlast
    have hv : v ∈ n.updates := by simp [hn]
    obtain ⟨k', r, hr, hrv⟩ := (mem_updates h).mp hv
    rw [hfiled v hv, ← hrv, hs.keyed k' r hr] at hprint
    rw [← hprint, hr, hfiled v hv, ← hrv]
    rfl
  | none =>
    cases hr : sh.rows.find? k with
    | none => rfl
    | some r =>
      have hmem : r.update ∈ n.updates := (mem_updates h).mpr ⟨k, r, hr, rfl⟩
      refine absurd ?_ (Notification.last?_eq_none_iff.mp hlast r.update hmem)
      rw [hfull _ hmem, hs.keyed k r hr]

theorem Sound.timestamp_apply_empty (hs : sh.Sound) (h : sh.notification? {} t = some n)
    (now : ℕ) : (({} : Shelf).apply now n).timestamp = sh.timestamp := by
  have hsame : n.timestamp = sh.timestamp := by
    obtain ⟨-, rfl⟩ := notification?_eq_some_iff.mp h
    rfl
  have hzero : ({} : Shelf).timestamp.toInt = 0 := by decide
  have := hs.timestamp
  rw [← Int64.toInt_inj, apply_timestamp, toInt_max, hsame]
  omega

theorem origin_apply_empty (h : sh.notification? {} t = some n) (now : ℕ) :
    (({} : Shelf).apply now n).origin = sh.origin := by
  rw [apply_origin_empty, basePath_of_notification? h]

/-- **What is listed for a target, applied to an empty shelf**: the same is listed there, if all
paths are their own full paths. -/
theorem Sound.notification?_apply_iff (hs : sh.Sound) (h : sh.notification? {} t = some n)
    (now : ℕ) : (({} : Shelf).apply now n).notification? {} t = some n ↔
      ∀ u ∈ n.updates, n.full u.path = u.path := by
  constructor
  · intro hn u hu
    obtain ⟨k, r, hr, rfl⟩ := (mem_updates hn).mp hu
    rw [find?_rows_apply_empty] at hr
    obtain ⟨u, hlast, rfl⟩ := Option.map_eq_some_iff.mp hr
    obtain ⟨-, us, v, vs, -, rfl, -⟩ := Notification.last?_eq_some_iff.mp hlast
    simp only [Notification.filed_path, full_of_notification? h]
    by_cases ho : v.path.origin.isEmpty = true
    · simp [ho]
    · simp [ho]
  · intro hfull
    rw [notification?_congr (hs.rows_apply_empty h now hfull) (hs.timestamp_apply_empty h now)
      (origin_apply_empty h now), h]

end Shelf

/-! ## Copies -/

namespace Store

theorem sound_run (ops : List StoreOp) (s t : String) : ((run ops {}).shelf s t).Sound := by
  induction ops using List.reverseRecOn generalizing s with
  | nil => exact Shelf.sound_empty
  | append_singleton ops op ih =>
    rw [run_concat]
    cases op with
    | write now s' e =>
      rw [StoreOp.apply]
      cases he : e.notification? with
      | none =>
        rw [write_of_idle now s' (by simp [he])]
        exact ih s
      | some n =>
        rw [shelf_write now s' he]
        split
        · exact (ih s').apply now n
        · exact ih s
    | deleteTarget t' =>
      rw [StoreOp.apply, shelf, shelf?_deleteTarget]
      split
      · exact Shelf.sound_empty
      · exact ih s
    | clear => exact Shelf.sound_empty

/-- The fresh store to which the notices were written, each at a time. -/
def copy (l : List (ℕ × Notice)) : Store :=
  run (l.map fun x => .write x.1 x.2.subscription (.update x.2.notification)) {}

/-- The notices are all those of a view, in any order. -/
def Lists (l : List Notice) (v : Table (List Notification)) : Prop :=
  ∀ x, x ∈ l ↔ x.notification ∈ listed v x.subscription

theorem copy_concat (l : List (ℕ × Notice)) (x : ℕ × Notice) : copy (l ++ [x]) =
    (copy l).write x.1 x.2.subscription (.update x.2.notification) := by
  rw [copy, List.map_append]
  exact run_concat _ _ _

/-- **One shelf of a copy**, if all that was written for it is one notification: it was never
written to, or it is as after writing that notification, but for the times. -/
theorem shelf_copy {l : List (ℕ × Notice)} {s t : String} {n : Notification}
    (hn : n.isEmpty = false) (hl : ∀ x ∈ l, x.2.subscription = s → x.2.notification.target = t →
      x.2.notification = n) :
    ((∀ x ∈ l, ¬ (x.2.subscription = s ∧ x.2.notification.target = t)) ∧
      (copy l).shelf s t = {}) ∨
    ((∃ x ∈ l, x.2.subscription = s ∧ x.2.notification.target = t) ∧
      Shelf.Agrees (fun _ => False) ((copy l).shelf s t) (({} : Shelf).apply 0 n)) := by
  induction l using List.reverseRecOn with
  | nil => exact .inl ⟨by simp, rfl⟩
  | append_singleton l x ih =>
    have ih := ih fun y hy => hl y (List.mem_append_left _ hy)
    rw [copy_concat, shelf_write x.1 x.2.subscription rfl]
    by_cases hplace : x.2.subscription = s ∧ x.2.notification.target = t
    · have hxn := hl x (by simp) hplace.1 hplace.2
      rw [if_pos ⟨hxn ▸ hn, hplace.1.symm, hplace.2.symm⟩, hxn, hplace.1]
      refine .inr ⟨⟨x, by simp, hplace⟩, ?_⟩
      rcases ih with ⟨-, hshelf⟩ | ⟨-, hagrees⟩
      · rw [hshelf]
        exact (Shelf.Agrees.refl {}).heard (fun _ => False.elim) x.1 0
      · have hheard := hagrees.heard (n := n) (Q := fun _ => False) (fun _ => False.elim) x.1 0
        rwa [Shelf.apply_apply] at hheard
    · rw [if_neg fun h => hplace ⟨h.2.1.symm, h.2.2.symm⟩]
      refine ih.imp (fun ⟨hnone, hshelf⟩ => ⟨fun y hy => ?_, hshelf⟩)
        fun ⟨⟨y, hy, h⟩, hagrees⟩ => ⟨⟨y, List.mem_append_left _ hy, h⟩, hagrees⟩
      rcases List.mem_append.mp hy with hy | hy
      · exact hnone y hy
      · rwa [List.mem_singleton.mp hy]

theorem lifetime_copy (l : List (ℕ × Notice)) : (copy l).lifetime = none := lifetime_run _

theorem notification?_copy {st : Store} {l : List (ℕ × Notice)}
    (hl : Lists (l.map Prod.snd) st.view) (s t : String) : (copy l).notification? s t =
      (st.notification? s t).bind fun n => (({} : Shelf).apply 0 n).notification? {} t := by
  have hmem : ∀ x ∈ l, st.notification? x.2.subscription x.2.notification.target =
      some x.2.notification := fun x hx =>
    mem_listed.mp ((hl x.2).mp (List.mem_map_of_mem hx))
  cases hn : st.notification? s t with
  | none =>
    have hnone : ∀ x ∈ l, ¬ (x.2.subscription = s ∧ x.2.notification.target = t) := by
      rintro x hx ⟨rfl, rfl⟩
      rw [hmem x hx] at hn
      cases hn
    have hfill : ({ updates := [{ path := {} }] } : Notification).isEmpty = false := rfl
    rw [notification?_eq_shelf, Option.bind_none]
    rcases shelf_copy hfill fun x hx hs ht => absurd ⟨hs, ht⟩ (hnone x hx) with
      ⟨-, hshelf⟩ | ⟨⟨x, hx, h⟩, -⟩
    · rw [hshelf]
      rfl
    · exact absurd h (hnone x hx)
  | some n =>
    obtain ⟨sh, hsh, hlisted⟩ := Option.bind_eq_some_iff.mp hn
    have hempty : n.isEmpty = false := by
      obtain ⟨hrows, rfl⟩ := Shelf.notification?_eq_some_iff.mp hlisted
      simpa [Notification.isEmpty, Table.values, Table.isEmpty] using hrows
    have htarget := Shelf.target_of_notification? hlisted
    obtain ⟨⟨time, x⟩, hx, hxs⟩ := List.mem_map.mp
      ((hl ⟨s, n⟩).mpr (mem_listed.mpr (htarget.symm ▸ hn)))
    obtain rfl : x = ⟨s, n⟩ := hxs
    rw [notification?_eq_shelf, Option.bind_some]
    rcases shelf_copy hempty fun y hy hs ht => by
        have hy := hmem y hy
        rw [hs, ht, hn] at hy
        exact (Option.some.inj hy).symm with
      ⟨hnone, -⟩ | ⟨-, hagrees⟩
    · exact absurd ⟨rfl, htarget⟩ (hnone _ hx)
    · exact hagrees.notification?_eq (fun _ h => h) t

/-- **When the copy reads like the store**: if all paths that are read are their own full paths,
that is, if no path without an origin is read below a base path with one. -/
theorem read_copy_iff (ops : List StoreOp) {now : ℕ} {l : List (ℕ × Notice)}
    (hl : Lists (l.map Prod.snd) ((run ops {}).read now).2) (later : ℕ) :
    (((copy l).read later).2 = ((run ops {}).read now).2 ↔
      ∀ x ∈ l, ∀ u ∈ x.2.notification.updates,
        x.2.notification.full u.path = u.path) ∧
    ∀ x ∈ l, ∀ u ∈ x.2.notification.updates,
      (x.2.notification.full u.path = u.path ↔
        (u.path.origin = "" → x.2.notification.basePath.origin = "")) := by
  rw [read_of_lifetime_none (lifetime_run ops)] at hl ⊢
  rw [read_of_lifetime_none (lifetime_copy l)]
  have hlisted : ∀ x ∈ l,
      ((run ops {}).shelf x.2.subscription x.2.notification.target).notification? {}
        x.2.notification.target = some x.2.notification := fun x hx => by
    rw [← notification?_eq_shelf]
    exact mem_listed.mp ((hl x.2).mp (List.mem_map_of_mem hx))
  refine ⟨?_, fun x hx u hu => (sound_run ops _ _).full_eq_iff (hlisted x hx) hu⟩
  simp only [view_eq_iff, notification?_copy hl]
  constructor
  · intro h x hx
    have hsame := h x.2.subscription x.2.notification.target
    rw [notification?_eq_shelf, hlisted x hx, Option.bind_some] at hsame
    exact ((sound_run ops _ _).notification?_apply_iff (hlisted x hx) 0).mp hsame
  · intro hfull s t
    cases hn : (run ops {}).notification? s t with
    | none => rfl
    | some n =>
      have hshelf := hn
      rw [notification?_eq_shelf] at hshelf
      have htarget := Shelf.target_of_notification? hshelf
      obtain ⟨x, hx, hxs⟩ := List.mem_map.mp
        ((hl ⟨s, n⟩).mpr (mem_listed.mpr (htarget.symm ▸ hn)))
      have hxfull := hfull x hx
      rw [hxs] at hxfull
      exact ((sound_run ops s t).notification?_apply_iff hshelf 0).mpr hxfull

/-! ## Two origins -/

theorem lists_singleton (s : String) (n : Notification) :
    Lists [⟨s, n⟩] (Table.empty.insert s [n]) := by
  rintro ⟨s', n'⟩
  rw [listed, Table.find?_insert]
  by_cases hs : s' = s
  · simp [hs]
  · simp [hs]

/-- The path with a name. -/
def named (origin name : String) : Update where
  path := { origin, elements := [{ name }] }

/-- A write of the path with a name, below a base path with an origin. -/
def noted (origin name : String) : StoreOp :=
  .write 0 "s" (.update { base := some { origin, target := "r" }, updates := [named "" name] })

/-- What is listed after two writes. -/
def notedBoth (origin : String) : Notification where
  base := some { origin := "o", target := "r" }
  updates := [named origin "a", named "o" "b"]

/-- Each path has an origin of its own, and the copy reads like the store. -/
theorem read_copy_named :
    Lists [⟨"s", notedBoth "e"⟩] ((run [noted "e" "a", noted "o" "b"] {}).read 0).2 ∧
    ((copy [(0, ⟨"s", notedBoth "e"⟩)]).read 0).2 =
      ((run [noted "e" "a", noted "o" "b"] {}).read 0).2 := by
  have hview : ((run [noted "e" "a", noted "o" "b"] {}).read 0).2 =
      Table.empty.insert "s" [notedBoth "e"] := by decide
  have hlists : Lists ([((0 : ℕ), (⟨"s", notedBoth "e"⟩ : Notice))].map Prod.snd)
      ((run [noted "e" "a", noted "o" "b"] {}).read 0).2 := hview ▸ lists_singleton _ _
  refine ⟨hlists, (read_copy_iff _ hlists 0).1.mpr fun x hx u hu => ?_⟩
  obtain rfl := List.mem_singleton.mp hx
  revert u
  decide

/-- The path without an origin is read below a base path with one, which it gets in the copy. -/
theorem read_copy_unnamed :
    Lists [⟨"s", notedBoth ""⟩] ((run [noted "" "a", noted "o" "b"] {}).read 0).2 ∧
    ((copy [(0, ⟨"s", notedBoth ""⟩)]).read 0).2 ≠
      ((run [noted "" "a", noted "o" "b"] {}).read 0).2 := by
  have hview : ((run [noted "" "a", noted "o" "b"] {}).read 0).2 =
      Table.empty.insert "s" [notedBoth ""] := by decide
  refine ⟨hview ▸ lists_singleton _ _, ?_⟩
  rw [hview]
  decide

end Store

end Telemetry
