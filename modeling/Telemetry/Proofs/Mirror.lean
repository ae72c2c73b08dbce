import Mathlib.Data.List.Find
import Mathlib.Logic.Relation
import Telemetry.Proofs.Delivery
import Telemetry.Proofs.History
import Telemetry.Proofs.Printing

/-!
# Mirrors

A mirror is a store to which everything is written that a watcher was sent. Updates get through to
it as they should: those at one place are wanted all or none, as legible paths with one printed form
have the same elements. A delete gets through only if its own path is wanted. One that comes from
further up can take wanted updates away without being wanted itself, and then the mirror keeps them.

* `mirror`: the store of what was sent;
* `Interest.Wants`, `Store.Shows`: what is wanted, and what is read;
* `Interest.Sees`: the deletes that take something wanted away are wanted;
* `Notification.narrowed`, `Notification.last?_narrowed`, `Notification.erases_narrowed`: what the
  wanted part of a notification says of a place;
* `Mirrors`, **`Mirrors.write`**: the invariant, and a write;
* **`Store.Tidy.mirrors_collect`**: the contents at the start;
* **`Delivery.shows_mirror`**: at rest the mirror shows what is wanted of the store;
* `Delivery.shows_mirror_leaf`, `Delivery.shows_mirror_above`: a delete that gets through, and one
  from further up that does not.
-/

namespace Telemetry

open Relation

/-! ## What is wanted and what is shown -/

namespace Interest

variable {i : Interest}

/-- The place is wanted, and the subscription and target. -/
def Wants (i : Interest) (s t : String) (p : Path) : Prop :=
  (i.wantsSubscription s = true ∧ i.wantsTarget t = true) ∧ i.wantsPath p = true

/-- A delete whose path is not wanted covers nothing wanted that the store holds. -/
def Sees (i : Interest) (st : Store) (x : Notice) : Prop :=
  ∀ d ∈ x.notification.deletes, i.wantsPath (x.notification.full d) = false →
    ∀ u, st.Holds x.subscription x.notification.target u → i.wantsPath u.path = true →
      (x.notification.full d).covers u.path = false

theorem wantsPath_congr {p q : Path} (h : p.elements = q.elements) :
    i.wantsPath p = i.wantsPath q := by
  simp only [wantsPath, Path.covers, h]

end Interest

/-- The update is read under the subscription and target. -/
def Store.Shows (now : ℕ) (s t : String) (u : Update) (st : Store) : Prop :=
  ∃ n ∈ Store.listed (st.read now).2 s, n.target = t ∧ u ∈ n.updates

theorem Store.shows_iff {st : Store} (hk : st.Keyed) (hl : st.lifetime = none) {now : ℕ}
    {s t : String} {u : Update} : st.Shows now s t u ↔ st.Holds s t u := by
  rw [Shows, read_of_lifetime_none hl]
  constructor
  · rintro ⟨n, hn, rfl, hu⟩
    exact (mem_updates_listed hk hn).mp hu
  · intro hu
    obtain ⟨n, hn, rfl⟩ := (exists_listed_iff hk).mpr ⟨u, hu⟩
    exact ⟨n, hn, rfl, (mem_updates_listed hk hn).mpr hu⟩

/-! ## Notifications with legible paths -/

/-- The base path and all paths below it have no origin and were read from a text. -/
structure Notification.IsRead (n : Notification) : Prop where
  base : n.basePath.IsRead
  updates : ∀ u ∈ n.updates, u.path.IsRead
  deletes : ∀ d ∈ n.deletes, d.IsRead

/-- A change that writes only such notifications. -/
def StoreOp.IsRead : StoreOp → Prop
  | write _ _ e => ∀ n, e.notification? = some n → n.IsRead
  | _ => True

namespace Notification

variable {n : Notification} {i : Interest} {p : Path} {u : Update} {k : String}

theorem IsRead.legible (h : n.IsRead) (hu : u ∈ n.updates) : (n.filed u).path.Legible :=
  h.base.legible.join (h.updates u hu).legible

theorem mem_of_last? (h : n.last? k = some u) : ∃ v ∈ n.updates, n.filed v = u := by
  have hmem := List.mem_of_find?_eq_some h
  rw [List.mem_reverse, List.mem_map] at hmem
  exact hmem

/-- The updates and deletes whose places are wanted. -/
def narrowed (i : Interest) (n : Notification) : Notification :=
  { n with
    updates := n.updates.filter fun u => i.wantsPath (n.full u.path)
    deletes := n.deletes.filter fun d => i.wantsPath (n.full d) }

theorem last?_narrowed (hn : n.IsRead) (hp : p.Legible) (hw : i.wantsPath p = true) :
    (n.narrowed i).last? p.print = n.last? p.print := by
  have hfiled : ((n.narrowed i).updates.map n.filed).reverse =
      (n.updates.map n.filed).reverse.filter fun u => i.wantsPath u.path := by
    rw [List.filter_reverse, List.filter_map]
    rfl
  show ((n.narrowed i).updates.map n.filed).reverse.find? _ = _
  rw [hfiled, List.find?_filter, last?]
  refine List.find?_congr fun u hu => ?_
  obtain ⟨v, hv, rfl⟩ := List.mem_map.mp (List.mem_reverse.mp hu)
  cases hk : (n.filed v).path.print == p.print with
  | false => simp
  | true =>
    have helements := Path.elements_eq_of_print_eq (hn.legible hv) hp (eq_of_beq hk)
    have hwanted : i.wantsPath (n.filed v).path = true := by
      rw [Interest.wantsPath_congr helements, hw]
    exact decide_eq_true ⟨hwanted, rfl⟩

theorem wantsPath_of_narrowed (h : (n.narrowed i).last? k = some u) : i.wantsPath u.path = true := by
  obtain ⟨v, hv, rfl⟩ := mem_of_last? h
  exact (List.mem_filter.mp hv).2

theorem erases_narrowed {st : Store} {s : String} (hsees : i.Sees st ⟨s, n⟩)
    (hu : st.Holds s n.target u) (hw : i.wantsPath u.path = true) :
    (n.narrowed i).erases u.path = n.erases u.path := by
  have hfilter : (n.narrowed i).erases u.path =
      n.deletes.any fun d => i.wantsPath (n.full d) && (n.full d).covers u.path :=
    List.any_filter
  rw [hfilter, erases, Bool.eq_iff_iff, List.any_eq_true, List.any_eq_true]
  refine exists_congr fun d => and_congr_right fun hd => ?_
  cases hd' : i.wantsPath (n.full d) with
  | true => rw [Bool.true_and]
  | false => rw [hsees d hd hd' u hu hw, Bool.false_and]

end Notification

/-! ## The mirror -/

/-- The store with a notice written to it. -/
def Store.receive (st : Store) (x : Notice) : Store :=
  st.write 0 x.subscription (.update x.notification)

/-- The store to which the notices were written, one by one. -/
def mirror (l : List Notice) : Store := l.foldl Store.receive {}

theorem mirror_append (a b : List Notice) :
    mirror (a ++ b) = b.foldl Store.receive (mirror a) := by
  rw [mirror, List.foldl_append]
  rfl

theorem mirror_concat (l : List Notice) (x : Notice) :
    mirror (l ++ [x]) = (mirror l).receive x := mirror_append l [x]

theorem keyed_mirror (l : List Notice) : (mirror l).Keyed ∧ (mirror l).lifetime = none := by
  induction l using List.reverseRecOn with
  | nil => exact ⟨Store.keyed_empty, rfl⟩
  | append_singleton l x ih =>
    rw [mirror_concat]
    exact ⟨ih.1.write 0 x.subscription _, (Store.lifetime_write _ _ _ _).trans ih.2⟩

theorem Store.holds_receive {st : Store} {x : Notice} {s t : String} {u : Update} :
    (st.receive x).Holds s t u ↔
      ((s = x.subscription ∧ t = x.notification.target) ∧
        x.notification.last? u.path.print = some u) ∨
      (st.Holds s t u ∧ (s = x.subscription ∧ t = x.notification.target →
        x.notification.last? u.path.print = none ∧ x.notification.erases u.path = false)) := by
  rw [receive, holds_apply_write, leaves_write_iff rfl, spares_write_iff rfl]

/-- What is sent of a notice is received as its narrowed notification, if it is wanted at all. -/
theorem receive_narrow (i : Interest) (x : Notice) (st : Store) :
    (i.narrow x).toList.foldl Store.receive st =
      if i.wantsSubscription x.subscription = true ∧ i.wantsTarget x.notification.target = true then
        st.receive { x with notification := x.notification.narrowed i } else st := by
  by_cases hs : i.wantsSubscription x.subscription = true
  swap
  · simp [Interest.narrow, hs]
  by_cases ht : i.wantsTarget x.notification.target = true
  swap
  · simp [Interest.narrow, ht]
  rw [if_pos ⟨hs, ht⟩]
  simp only [Interest.narrow, hs, ht, Bool.not_true, Bool.or_self, Bool.false_eq_true, if_false]
  by_cases hp : i.paths.isEmpty = true
  · have hall : x.notification.narrowed i = x.notification := by
      simp [Notification.narrowed, Interest.wantsPath, hp]
    rw [if_pos hp, hall]
    rfl
  · rw [if_neg hp]
    split
    · rename_i hempty
      have hidle : (x.notification.narrowed i).isEmpty = true := hempty
      refine (Store.write_of_idle 0 _ (fun n hn => ?_) st).symm
      rw [← Option.some.inj hn, hidle]
    · rfl

/-! ## The invariant -/

/-- The mirror holds what is wanted of the store. -/
def Mirrors (i : Interest) (m st : Store) : Prop :=
  ∀ s t u, m.Holds s t u ↔ i.Wants s t u.path ∧ st.Holds s t u

/-- A store to which only notifications with legible paths were written. -/
structure Store.Tidy (st : Store) : Prop where
  keyed : st.Keyed
  lifetime : st.lifetime = none
  origins : ∀ s t sh, st.shelf? s t = some sh → sh.origin = ""
  paths : ∀ s t u, st.Holds s t u → u.path.Legible ∧ u.path.target = ""

/-- **A write reaches the mirror**, if all that it takes away is seen. -/
theorem Mirrors.write {i : Interest} {m st : Store} {x : Notice} (h : Mirrors i m st)
    (hst : st.Tidy) (hx : x.notification.IsRead) (hsees : i.Sees st x) (now : ℕ) :
    Mirrors i ((i.narrow x).toList.foldl Store.receive m)
      (st.write now x.subscription (.update x.notification)) := by
  intro s t u
  rw [receive_narrow, Store.holds_apply_write, Store.leaves_write_iff rfl,
    Store.spares_write_iff rfl]
  by_cases hplace : s = x.subscription ∧ t = x.notification.target
  swap
  · -- nothing is written here, and so nothing is received
    have hm : (if i.wantsSubscription x.subscription = true ∧
          i.wantsTarget x.notification.target = true then
        m.receive { x with notification := x.notification.narrowed i } else m).Holds s t u ↔
        m.Holds s t u := by
      split
      · rw [Store.holds_receive]
        simp [show ¬ (s = x.subscription ∧ t = (x.notification.narrowed i).target) from hplace]
      · rfl
    rw [hm, h s t u]
    simp [hplace]
  obtain ⟨rfl, rfl⟩ := hplace
  split
  swap
  · rename_i hunwanted
    rw [h]
    simp [Interest.Wants, hunwanted]
  rename_i hwanted
  have htarget : (x.notification.narrowed i).target = x.notification.target := rfl
  rw [Store.holds_receive]
  simp only [htarget, and_self, true_and, forall_const, Interest.Wants, hwanted, h _ _ _]
  -- at a wanted place narrowing changes neither the last update nor, if deletes are seen, what goes
  constructor
  · rintro (hlast | ⟨⟨hw, hu⟩, hnone, herases⟩)
    · have hw := Notification.wantsPath_of_narrowed hlast
      obtain ⟨v, hv, hvu⟩ := Notification.mem_of_last? hlast
      have hlegible : u.path.Legible := by
        rw [← hvu]
        exact hx.legible (List.mem_filter.mp hv).1
      rw [Notification.last?_narrowed hx hlegible hw] at hlast
      exact ⟨hw, .inl hlast⟩
    · rw [Notification.last?_narrowed hx (hst.paths _ _ _ hu).1 hw] at hnone
      rw [Notification.erases_narrowed hsees hu hw] at herases
      exact ⟨hw, .inr ⟨hu, hnone, herases⟩⟩
  · rintro ⟨hw, hlast | ⟨hu, hnone, herases⟩⟩
    · obtain ⟨v, hv, hvu⟩ := Notification.mem_of_last? hlast
      have hlegible : u.path.Legible := hvu ▸ hx.legible hv
      rw [Notification.last?_narrowed hx hlegible hw]
      exact .inl hlast
    · rw [Notification.last?_narrowed hx (hst.paths _ _ _ hu).1 hw,
        Notification.erases_narrowed hsees hu hw]
      exact .inr ⟨⟨hw, hu⟩, hnone, herases⟩

/-! ## Tidy stores -/

namespace Store

theorem tidy_empty : ({} : Store).Tidy where
  keyed := keyed_empty
  lifetime := rfl
  origins s t sh h := by cases h
  paths := by
    rintro s t u ⟨r, h, -⟩
    cases h

theorem Tidy.write {st : Store} (h : st.Tidy) {n : Notification} (hn : n.IsRead) (now : ℕ)
    (s : String) : (st.write now s (.update n)).Tidy where
  keyed := h.keyed.write now s _
  lifetime := (lifetime_write now s _ st).trans h.lifetime
  origins s' t sh hsh := by
    cases hempty : n.isEmpty with
    | true =>
      rw [write_of_idle now s fun n' hn' => by rwa [← Option.some.inj hn']] at hsh
      exact h.origins s' t sh hsh
    | false =>
      rw [write_update now s rfl hempty] at hsh
      have hsh : (st.apply now s n).shelf? s' t = some sh := hsh
      rw [shelf?_apply] at hsh
      split at hsh
      · have hbase : n.basePath.origin.isEmpty = true := by simp [hn.base.1]
        have hold : ((st.shelf? s n.target).getD {}).origin = "" := by
          cases hold : st.shelf? s n.target with
          | none => rfl
          | some sh' => exact h.origins _ _ _ hold
        rw [← Option.some.inj hsh, Shelf.apply, if_pos hbase, hold]
      · exact h.origins s' t sh hsh
  paths s' t u hu := by
    rw [holds_apply_write, leaves_write_iff rfl] at hu
    rcases hu with ⟨-, hlast⟩ | ⟨hu, -⟩
    · obtain ⟨v, hv, rfl⟩ := Notification.mem_of_last? hlast
      exact ⟨hn.legible hv, rfl⟩
    · exact h.paths s' t u hu

theorem Tidy.apply {st : Store} (h : st.Tidy) {op : StoreOp} (hop : op.IsRead) :
    (op.apply st).Tidy := by
  cases op with
  | write now s e =>
    cases he : e.notification? with
    | none =>
      rw [StoreOp.apply, write_of_idle now s (by simp [he])]
      exact h
    | some n =>
      rw [StoreOp.apply, Envelope.eq_update he]
      exact h.write (hop n he) now s
  | deleteTarget t' =>
    refine ⟨h.keyed.deleteTarget t', h.lifetime, fun s t sh hsh => ?_, fun s t u hu => ?_⟩
    · rw [StoreOp.apply, shelf?_deleteTarget] at hsh
      split at hsh
      · cases hsh
      · exact h.origins s t sh hsh
    · rcases holds_apply.mp hu with hu | ⟨hu, -⟩
      · exact hu.elim
      · exact h.paths s t u hu
  | clear =>
    refine ⟨Keyed.clear st, h.lifetime, fun s t sh hsh => ?_, fun s t u hu => ?_⟩
    · cases hsh
    · rcases holds_apply.mp hu with hu | ⟨-, hu⟩
      · exact hu.elim
      · exact hu.elim

theorem tidy_run {ops : List StoreOp} (hops : ∀ op ∈ ops, op.IsRead) : (run ops {}).Tidy := by
  induction ops using List.reverseRecOn with
  | nil => exact tidy_empty
  | append_singleton ops op ih =>
    rw [run_concat]
    exact (ih fun op' h => hops op' (List.mem_append_left _ h)).apply (hops op (by simp))

/-! ## The contents at the start -/

theorem Holds.unique {st : Store} {s t : String} {u v : Update} (hu : st.Holds s t u)
    (hv : st.Holds s t v) (h : u.path.print = v.path.print) : u = v := by
  obtain ⟨r, hr, rfl⟩ := hu
  obtain ⟨r', hr', rfl⟩ := hv
  rw [h, hr'] at hr
  rw [Option.some.inj hr]

end Store

/-- Notices without deletes put in what they carry, if all of it can stand side by side. -/
theorem holds_mirror {st : Store} {l : List Notice} (hl : ∀ x ∈ l, x.notification.deletes = [] ∧
      ∀ v ∈ x.notification.updates,
        st.Holds x.subscription x.notification.target (x.notification.filed v))
    {s t : String} {u : Update} : (mirror l).Holds s t u ↔ ∃ x ∈ l, x.subscription = s ∧
      x.notification.target = t ∧ ∃ v ∈ x.notification.updates, x.notification.filed v = u := by
  induction l using List.reverseRecOn generalizing s t u with
  | nil =>
    simp only [List.not_mem_nil, false_and, exists_false, iff_false]
    rintro ⟨r, h, -⟩
    cases h
  | append_singleton l x ih =>
    have ih := ih (fun y hy => hl y (List.mem_append_left _ hy)) (s := s) (t := t) (u := u)
    obtain ⟨hdeletes, hupdates⟩ := hl x (by simp)
    rw [mirror_concat, Store.holds_receive, ih]
    constructor
    · rintro (⟨⟨rfl, rfl⟩, hlast⟩ | ⟨⟨y, hy, h⟩, -⟩)
      · exact ⟨x, by simp, rfl, rfl, Notification.mem_of_last? hlast⟩
      · exact ⟨y, List.mem_append_left _ hy, h⟩
    · rintro ⟨y, hy, rfl, rfl, v, hv, rfl⟩
      by_cases hplace : y.subscription = x.subscription ∧
          y.notification.target = x.notification.target
      · cases hlast : x.notification.last? (y.notification.filed v).path.print with
        | some u' =>
          -- both updates are held at one place, so they are the same
          obtain ⟨v', hv', rfl⟩ := Notification.mem_of_last? hlast
          have hheld := (hl y hy).2 v hv
          rw [hplace.1, hplace.2] at hheld
          rw [(hupdates v' hv').unique hheld (Notification.print_of_last? hlast)]
          exact .inl ⟨hplace, rfl⟩
        | none =>
          have hne := Notification.last?_eq_none_iff.mp hlast
          have herases : x.notification.erases (y.notification.filed v).path = false := by
            rw [Notification.erases, hdeletes, List.any_nil]
          rcases List.mem_append.mp hy with hy | hy
          · exact .inr ⟨⟨y, hy, rfl, rfl, v, hv, rfl⟩, fun _ => ⟨rfl, herases⟩⟩
          · obtain rfl := List.mem_singleton.mp hy
            exact absurd rfl (hne v hv)
      · rcases List.mem_append.mp hy with hy | hy
        · exact .inr ⟨⟨y, hy, rfl, rfl, v, hv, rfl⟩, fun h => absurd h hplace⟩
        · obtain rfl := List.mem_singleton.mp hy
          exact absurd ⟨rfl, rfl⟩ hplace

namespace Shelf

variable {sh : Shelf} {i : Interest} {t : String} {n : Notification}

theorem notification?_wanted (h : sh.notification? i t = some n) : n.base = sh.base t ∧
    n.deletes = [] ∧ ∀ u, u ∈ n.updates ↔
      i.wantsPath u.path = true ∧ ∃ k r, sh.rows.find? k = some r ∧ r.update = u := by
  unfold notification? at h
  dsimp only at h
  split at h
  · cases h
  · obtain rfl := Option.some.inj h
    refine ⟨rfl, rfl, fun u => ?_⟩
    rw [List.mem_filter, List.mem_map, and_comm]
    simp only [Table.mem_values]
    exact and_congr_right fun _ =>
      ⟨fun ⟨r, ⟨k, hk⟩, hu⟩ => ⟨k, r, hk, hu⟩, fun ⟨k, r, hk, hu⟩ => ⟨r, ⟨k, hk⟩, hu⟩⟩

theorem exists_notification? {k : String} {r : Row} (hr : sh.rows.find? k = some r)
    (hw : i.wantsPath r.update.path = true) : ∃ n, sh.notification? i t = some n := by
  unfold notification?
  dsimp only
  split
  · rename_i hempty
    have hmem : r.update ∈ (sh.rows.values.map (·.update)).filter fun u => i.wantsPath u.path :=
      List.mem_filter.mpr ⟨List.mem_map.mpr ⟨r, Table.mem_values.mpr ⟨k, hr⟩, rfl⟩, hw⟩
    rw [List.isEmpty_iff.mp hempty] at hmem
    cases hmem
  · exact ⟨_, rfl⟩

end Shelf

theorem Store.mem_collect {st : Store} {i : Interest} {x : Notice} : x ∈ st.collect i ↔
    i.wantsSubscription x.subscription = true ∧ ∃ t sh, i.wantsTarget t = true ∧
      st.shelf? x.subscription t = some sh ∧ sh.notification? i t = some x.notification := by
  obtain ⟨s, n⟩ := x
  simp only [collect, List.mem_flatMap, shelf?, Option.bind_eq_some_iff, Table.find?_eq_some_iff]
  constructor
  · rintro ⟨⟨s', shelves⟩, hs', hx⟩
    split at hx
    · rename_i hw
      obtain ⟨n', hn', he⟩ := List.mem_map.mp hx
      obtain ⟨rfl, rfl⟩ := Notice.mk.inj he
      obtain ⟨⟨t, sh⟩, ht, hn'⟩ := List.mem_filterMap.mp hn'
      split at hn'
      · rename_i hwt
        exact ⟨hw, t, sh, hwt, ⟨shelves, hs', ht⟩, hn'⟩
      · cases hn'
    · cases hx
  · rintro ⟨hw, t, sh, hwt, ⟨shelves, hs', ht⟩, hn⟩
    refine ⟨(s, shelves), hs', ?_⟩
    rw [if_pos hw]
    exact List.mem_map.mpr ⟨n, List.mem_filterMap.mpr ⟨(t, sh), ht, by rwa [if_pos hwt]⟩, rfl⟩

namespace Store.Tidy

variable {st : Store} {s t : String} {sh : Shelf} {n : Notification}

theorem basePath_eq (h : st.Tidy) (hsh : st.shelf? s t = some sh) (hbase : n.base = sh.base t) :
    n.basePath = { target := t } := by
  rw [Notification.basePath, hbase, Shelf.base, h.origins s t sh hsh]
  split
  · rename_i hempty
    rw [String.isEmpty_iff.mp (Bool.and_eq_true_iff.mp hempty).2]
    rfl
  · rfl

theorem filed_eq (h : st.Tidy) (hsh : st.shelf? s t = some sh) (hbase : n.base = sh.base t)
    {u : Update} (hu : st.Holds s t u) : n.filed u = u := by
  obtain ⟨hlegible, htarget⟩ := h.paths s t u hu
  obtain ⟨⟨origin, elements, target⟩, value, duplicates⟩ := u
  obtain rfl : origin = "" := hlegible.origin
  obtain rfl : target = "" := htarget
  simp [Notification.filed, Notification.full, h.basePath_eq hsh hbase, Path.join]

theorem target_eq (h : st.Tidy) (hsh : st.shelf? s t = some sh) (hbase : n.base = sh.base t) :
    n.target = t := by
  rw [Notification.target, h.basePath_eq hsh hbase]

theorem holds_row (h : st.Tidy) (hsh : st.shelf? s t = some sh) {k : String} {r : Row}
    (hr : sh.rows.find? k = some r) : st.Holds s t r.update := by
  have hrow : st.row? s t k = some r := by rw [row?, hsh, Option.bind_some, hr]
  exact ⟨r, by rw [h.keyed s t k r hrow, hrow], rfl⟩

theorem holds_collect {i : Interest} (h : st.Tidy) {x : Notice} (hx : x ∈ st.collect i) :
    x.notification.deletes = [] ∧ ∀ v ∈ x.notification.updates,
      st.Holds x.subscription x.notification.target (x.notification.filed v) := by
  obtain ⟨-, t, sh, -, hsh, hn⟩ := mem_collect.mp hx
  obtain ⟨hbase, hdeletes, hmem⟩ := Shelf.notification?_wanted hn
  refine ⟨hdeletes, fun v hv => ?_⟩
  obtain ⟨-, k, r, hr, rfl⟩ := (hmem v).mp hv
  have hu := h.holds_row hsh hr
  rw [h.filed_eq hsh hbase hu, h.target_eq hsh hbase]
  exact hu

/-- **The contents at the start are mirrored.** -/
theorem mirrors_collect (h : st.Tidy) (i : Interest) : Mirrors i (mirror (st.collect i)) st := by
  intro s t u
  rw [holds_mirror fun x hx => h.holds_collect hx]
  constructor
  · rintro ⟨x, hx, rfl, rfl, v, hv, rfl⟩
    have hu := (h.holds_collect hx).2 v hv
    obtain ⟨hs, t, sh, ht, hsh, hn⟩ := mem_collect.mp hx
    obtain ⟨hbase, -, hmem⟩ := Shelf.notification?_wanted hn
    obtain ⟨hw, k, r, hr, rfl⟩ := (hmem v).mp hv
    rw [h.filed_eq hsh hbase (h.holds_row hsh hr)] at hu ⊢
    rw [h.target_eq hsh hbase] at hu ⊢
    exact ⟨⟨⟨hs, ht⟩, hw⟩, hu⟩
  · rintro ⟨⟨⟨hs, ht⟩, hw⟩, r, hr, rfl⟩
    obtain ⟨sh, hsh, hr⟩ := Option.bind_eq_some_iff.mp hr
    obtain ⟨n, hn⟩ := Shelf.exists_notification? (t := t) hr hw
    obtain ⟨hbase, -, hmem⟩ := Shelf.notification?_wanted hn
    exact ⟨⟨s, n⟩, mem_collect.mpr ⟨hs, t, sh, ht, hsh, hn⟩, rfl, h.target_eq hsh hbase,
      r.update, (hmem _).mpr ⟨hw, _, r, hr, rfl⟩, h.filed_eq hsh hbase (h.holds_row hsh hr)⟩

end Store.Tidy

/-! ## Runs -/

namespace Delivery

variable {i : Interest} {d d' : Delivery}

/-- All that is taken and still to come makes a mirror. -/
structure Mirrored (i : Interest) (d : Delivery) : Prop where
  interest : d.watcher.interest = i
  live : d.watcher.Live d.store.feed
  tidy : d.store.Tidy
  mirrors : Mirrors i (mirror d.sent) d.store

/-- A notification with legible paths whose deletes are seen. -/
def Seen (i : Interest) (st : Store) (x : Notice) : Prop := x.notification.IsRead ∧ i.Sees st x

theorem mirrored_start {st : Store} (h : st.Tidy) (hfollow : i.follow = true)
    (hcontents : i.updatesOnly = false) (now : ℕ) : Mirrored i (start now i st) := by
  have hstart : Watcher.start now i st =
      (st, { interest := i, pending := st.collect i, next := st.feed.size }) := by
    simp [Watcher.start, Interest.wantsContents, hcontents, Store.snapshot, Store.prune, h.lifetime]
  have hsent : (start now i st).sent = st.collect i := by
    simp [start, sent, hstart, Watcher.due, Watcher.coming_eq_nil (Nat.le_refl _)]
  refine ⟨?_, ?_, ?_, ?_⟩
  · rw [start, hstart]
  · rw [start, hstart]
    exact ⟨hfollow, rfl, rfl, rfl, Nat.le_refl _⟩
  · rw [start, hstart]
    exact h
  · rw [hsent, start, hstart]
    exact h.mirrors_collect i

theorem Mirrored.step (h : Mirrored i d) (hstep : Step (Seen i) d d') : Mirrored i d' := by
  obtain ⟨hinterest, hlive, hadds⟩ := hstep.sent h.live
  refine ⟨hinterest.trans h.interest, hlive, ?_, ?_⟩
  · cases hadds with
    | nothing hstore _ => exact hstore ▸ h.tidy
    | notice hmay hstore _ => exact hstore ▸ h.tidy.write hmay.1 _ _
  · cases hadds with
    | nothing hstore hsent =>
      rw [hstore, hsent]
      exact h.mirrors
    | notice hmay hstore hsent =>
      rw [hstore, hsent, mirror_append, h.interest]
      exact h.mirrors.write h.tidy hmay.1 hmay.2 _

theorem Mirrored.run (h : Mirrored i d) (hrun : ReflTransGen (Step (Seen i)) d d') :
    Mirrored i d' := by
  induction hrun with
  | refl => exact h
  | tail _ hstep ih => exact ih.step hstep

/-- **At rest the mirror shows what is wanted of the store**, if every delete that takes something
wanted away is itself wanted. -/
theorem shows_mirror {ops : List StoreOp} (hops : ∀ op ∈ ops, op.IsRead)
    (hfollow : i.follow = true) (hcontents : i.updatesOnly = false) {now : ℕ}
    (hrun : ReflTransGen (Step (Seen i)) (start now i (Store.run ops {})) d) (hrest : d.AtRest)
    (later : ℕ) (s t : String) (u : Update) : (mirror d.taken).Shows later s t u ↔
      i.Wants s t u.path ∧ d.store.Shows later s t u := by
  have h := (mirrored_start (Store.tidy_run hops) hfollow hcontents now).run hrun
  obtain ⟨hkeyed, hlifetime⟩ := keyed_mirror d.taken
  rw [Store.shows_iff hkeyed hlifetime, Store.shows_iff h.tidy.keyed h.tidy.lifetime,
    ← hrest.sent_eq h.live]
  exact h.mirrors s t u

/-! ## Two deletes -/

/-- A leaf below two elements. -/
def leaf : Path := { elements := [⟨"a", .empty⟩, ⟨"b", .empty⟩] }

/-- The element above the leaf. -/
def above : Path := { elements := [⟨"a", .empty⟩] }

theorem isRead_of_slices (text : String) (pieces : List (List Char)) {es : List Element}
    (hslices : Path.slices (Text.trim text.toList) = (pieces, true))
    (hread : pieces.mapM Element.read = .ok es) : Path.IsRead { elements := es } := by
  refine ⟨rfl, text, { elements := es }, ?_, rfl⟩
  have helements : Path.readElements (Text.trim text.toList) = .ok es := by
    rw [Path.readElements, hslices]
    show (pieces.mapM Element.read).bind _ = _
    rw [hread]
    rfl
  rw [Path.read, helements]

theorem isRead_leaf : leaf.IsRead :=
  isRead_of_slices "a/b" [['a'], ['b']] (by decide) (by simp [Element.read, Element.readKeys]; rfl)

theorem isRead_above : above.IsRead :=
  isRead_of_slices "a" [['a']] (by decide) (by simp [Element.read, Element.readKeys]; rfl)

/-- Who watches the leaf, and nothing else. -/
def leafOnly : Interest := { paths := [leaf], follow := true }

/-- The leaf is written. -/
def sown : StoreOp := .write 0 "s" (.update { updates := [{ path := leaf }] })

/-- A delete of the place. -/
def removal (p : Path) : Notification := { deletes := [p] }

theorem isRead_sown : ∀ op ∈ [sown], op.IsRead := by
  intro op hop
  obtain rfl := List.mem_singleton.mp hop
  intro n hn
  obtain rfl := Option.some.inj hn
  refine ⟨⟨rfl, "", {}, rfl, rfl⟩, fun u hu => ?_, fun d hd => absurd hd List.not_mem_nil⟩
  obtain rfl := List.mem_singleton.mp hu
  exact isRead_leaf

theorem isRead_removal {p : Path} (hp : p.IsRead) : (removal p).IsRead := by
  refine ⟨⟨rfl, "", {}, rfl, rfl⟩, fun u hu => absurd hu List.not_mem_nil, fun d hd => ?_⟩
  obtain rfl := List.mem_singleton.mp hd
  exact hp

/-- A delete of the leaf itself reaches the mirror. -/
theorem shows_mirror_leaf : ∃ d, ReflTransGen (Step (Seen leafOnly))
      (start 0 leafOnly (Store.run [sown] {})) d ∧ d.AtRest ∧
    ∀ s t u, (mirror d.taken).Shows 0 s t u ↔
      leafOnly.Wants s t u.path ∧ d.store.Shows 0 s t u := by
  have hseen : ∀ st n, Envelope.notification? (.update (removal leaf)) = some n →
      Seen leafOnly st ⟨"s", n⟩ := by
    intro st n hn
    obtain rfl := Option.some.inj hn
    refine ⟨isRead_removal isRead_leaf, fun d hd hw => ?_⟩
    obtain rfl := List.mem_singleton.mp hd
    exact absurd hw (by decide)
  have hwrite := fun d => Step.write (d := d) 0 "s" (.update (removal leaf)) (hseen d.store)
  have hrun : ∃ d, ReflTransGen (Step (Seen leafOnly))
      (start 0 leafOnly (Store.run [sown] {})) d ∧ d.AtRest :=
    ⟨_, .tail (.tail (.tail (.tail (.tail (.tail .refl (.work rfl)) (.take 1)) (hwrite _))
      (.work rfl)) (.work rfl)) (.take 1), ⟨rfl, rfl⟩⟩
  obtain ⟨d, hrun, hrest⟩ := hrun
  exact ⟨d, hrun, hrest, shows_mirror isRead_sown rfl rfl hrun hrest 0⟩

/-- A delete of the element above takes the leaf away, and the mirror keeps it. -/
theorem shows_mirror_above : ∃ d, ReflTransGen (Step fun _ x => x.notification.IsRead)
      (start 0 leafOnly (Store.run [sown] {})) d ∧ d.AtRest ∧
    (mirror d.taken).Shows 0 "s" "" { path := leaf } ∧ ¬ d.store.Shows 0 "s" "" { path := leaf } := by
  have hread : ∀ n, Envelope.notification? (.update (removal above)) = some n → n.IsRead := by
    intro n hn
    obtain rfl := Option.some.inj hn
    exact isRead_removal isRead_above
  refine ⟨_, .tail (.tail (.tail (.tail .refl (.work rfl)) (.take 1))
    (.write 0 "s" (.update (removal above)) hread)) (.work rfl), ⟨rfl, rfl⟩, ?_, ?_⟩
  · exact ⟨{ updates := [{ path := leaf }] }, List.mem_singleton.mpr rfl, rfl, by decide⟩
  · rintro ⟨n, hn, -⟩
    exact absurd hn List.not_mem_nil

end Delivery

end Telemetry
