import Telemetry.Proofs.Pruning

/-!
# What expires

Where updates expire, a look lists those of the store without expiry whose place was written no
longer ago than the lifetime. Earlier looks drop rows for good, but only such as would not be listed
later anyway, so what is listed depends on the changes alone.

* `StoreUse.changes`, `Store.use_of_lifetime_none`: the changes among some uses, and that nothing
  else matters where nothing expires;
* `StoreOp.writtenAt?`, `Store.lastWritten?`: when a place was last written;
  **`Store.lastWritten?_of_row?`**: the rows of a store know it;
* `Update.isLive`, `Notification.live?`, `Notice.live?`: what is left of a notification at a time;
* **`Shelf.notification?_rest`**, `Store.notifications_fresh`, `Store.collect_prune`: a look lists
  what is left;
* `Store.Aged.prune_left`, **`Store.aged_use`**: earlier looks;
* **`Store.look_exact`**: what a look lists;
* `Store.look_exact_refreshed`: a place written again, one at the bound, and one beyond it.
-/

namespace Telemetry

/-! ## Changes among uses -/

namespace StoreUse

/-- The change, where it is one. -/
def change? : StoreUse → Option StoreOp
  | change op => some op
  | read _ | watch .. => none

/-- The changes among some uses. -/
def changes (uses : List StoreUse) : List StoreOp := uses.filterMap change?

theorem changes_append (us vs : List StoreUse) : changes (us ++ vs) = changes us ++ changes vs :=
  List.filterMap_append

end StoreUse

namespace Store

open StoreUse (changes changes_append)

theorem use_of_lifetime_none {st : Store} (h : st.lifetime = none) (us : List StoreUse) :
    use us st = run (changes us) st := by
  induction us using List.reverseRecOn with
  | nil => rfl
  | append_singleton us u ih =>
    have hnone : (use us st).lifetime = none := (lifetime_use us st).trans h
    have hlook : ∀ (v : StoreUse) now, v.look? = some now → v.apply (use us st) = use us st :=
      fun v now hv => (apply_of_look? hv (use us st)).elim id fun hprune =>
        hprune.trans (prune_of_lifetime_none hnone now)
    have hsame : run (changes us) st = run (changes us ++ []) st := by rw [List.append_nil]
    rw [use_append, changes_append]
    cases u with
    | change op => exact (congrArg op.apply ih).trans (run_concat (changes us) op st).symm
    | read now => exact (hlook (.read now) now rfl).trans (ih.trans hsame)
    | watch now i => exact (hlook (.watch now i) now rfl).trans (ih.trans hsame)

end Store

/-! ## When a place was last written -/

/-- When the change writes an update of the place, if it does. -/
def StoreOp.writtenAt? (s t k : String) : StoreOp → Option ℕ
  | write now s' e =>
    if s' = s ∧ e.notification?.any fun n =>
        n.target == t && n.updates.any fun u => (n.full u.path).print == k then some now
    else none
  | deleteTarget _ | clear => none

theorem StoreOp.writtenAt?_write (now : ℕ) {s s' t k : String} {e : Envelope} {n : Notification}
    (he : e.notification? = some n) : (write now s' e).writtenAt? s t k =
      if s = s' ∧ t = n.target then (n.last? k).map fun _ => now else none := by
  have hany : (n.updates.any fun u => (n.full u.path).print == k) = (n.last? k).isSome := by
    rw [Bool.eq_iff_iff, List.any_eq_true, Option.isSome_iff_ne_none, ne_eq,
      Notification.last?_eq_none_iff]
    simp
  simp only [writtenAt?, he, Option.any_some, hany, Bool.and_eq_true, beq_iff_eq, eq_comm (a := s),
    eq_comm (a := t)]
  cases n.last? k <;> simp

namespace Store

open StoreUse (changes changes_append)

/-- When a place was last written, if it ever was. -/
def lastWritten? (ops : List StoreOp) (s t k : String) : Option ℕ :=
  (ops.filterMap (StoreOp.writtenAt? s t k)).getLast?

theorem lastWritten?_concat (ops : List StoreOp) (op : StoreOp) (s t k : String) :
    lastWritten? (ops ++ [op]) s t k = (op.writtenAt? s t k).or (lastWritten? ops s t k) := by
  rw [lastWritten?, List.filterMap_append, List.getLast?_append, lastWritten?]
  cases h : op.writtenAt? s t k <;> simp [h]

/-- **The rows of a store know when their places were last written.** -/
theorem lastWritten?_of_row? (ops : List StoreOp) {s t k : String} {r : Row}
    (h : (run ops {}).row? s t k = some r) : lastWritten? ops s t k = some r.writtenAt := by
  induction ops using List.reverseRecOn generalizing r with
  | nil => cases h
  | append_singleton ops op ih =>
    rw [run_concat] at h
    rw [lastWritten?_concat]
    cases op with
    | write now s' e =>
      rw [StoreOp.apply] at h
      cases he : e.notification? with
      | none =>
        rw [write_of_idle now s' (by simp [he])] at h
        rw [StoreOp.writtenAt?, he, if_neg (by simp), Option.none_or, ih h]
      | some n =>
        rw [row?_write now s' he] at h
        rw [StoreOp.writtenAt?_write now he]
        split at h
        · rename_i hplace
          rw [if_pos hplace]
          cases hlast : n.last? k with
          | some u =>
            rw [Notification.rowAfter_of_some hlast] at h
            obtain rfl := Option.some.inj h
            rfl
          | none =>
            rw [Notification.rowAfter_of_none hlast] at h
            rw [Option.map_none, Option.none_or, ih (hplace.1 ▸ (Option.filter_eq_some_iff.mp h).1)]
        · rename_i hplace
          rw [if_neg hplace, Option.none_or, ih h]
    | deleteTarget t' =>
      rw [StoreOp.apply, row?_deleteTarget] at h
      split at h
      · cases h
      · exact ih h
    | clear => cases h

end Store

/-! ## What is left at a time -/

/-- The place of an update was written no longer ago than the lifetime. -/
def Update.isLive (ops : List StoreOp) (l : Duration) (time : ℕ) (s t : String) (u : Update) :
    Bool :=
  (Store.lastWritten? ops s t u.path.print).any fun w => time - w ≤ l.nanos

/-- What is left of a notification for a subscription at a time: the updates that are live, if there
are any. -/
def Notification.live? (ops : List StoreOp) (l : Duration) (time : ℕ) (s : String)
    (n : Notification) : Option Notification :=
  let updates := n.updates.filter (·.isLive ops l time s n.target)
  if updates.isEmpty then none else some { n with updates }

/-- What is left of a notice at a time. -/
def Notice.live? (ops : List StoreOp) (l : Duration) (time : ℕ) (x : Notice) : Option Notice :=
  (x.notification.live? ops l time x.subscription).map fun n => ⟨x.subscription, n⟩

section Live

variable {ops : List StoreOp} {l : Duration} {time : ℕ}

namespace Shelf

/-- The updates of a shelf that are wanted. -/
def wanted (sh : Shelf) (i : Interest) : List Update :=
  (sh.rows.values.map (·.update)).filter fun u => i.wantsPath u.path

/-- A notification of updates from a shelf. -/
def listing (sh : Shelf) (t : String) (updates : List Update) : Notification where
  timestamp := sh.timestamp
  base := sh.base t
  updates := updates

/-- The rows stand at the places that their paths name, and know when these were last written. -/
def Dated (ops : List StoreOp) (s t : String) (sh : Shelf) : Prop :=
  ∀ k r, sh.rows.find? k = some r → r.update.path.print = k ∧
    Store.lastWritten? ops s t k = some r.writtenAt

variable {sh : Shelf} {s t : String}

theorem notification?_eq_listing (sh : Shelf) (i : Interest) (t : String) : sh.notification? i t =
    if (sh.wanted i).isEmpty then none else some (sh.listing t (sh.wanted i)) := rfl

variable (l time) in
theorem wanted_rest (h : sh.Dated ops s t) (i : Interest) : ((sh.rest time l).getD {}).wanted i =
    (sh.wanted i).filter (·.isLive ops l time s t) := by
  have hrow : ∀ r ∈ sh.rows.rows,
      (!Store.isExpired time l r.2) = r.2.update.isLive ops l time s t := fun r hr => by
    obtain ⟨hprint, hwritten⟩ := h r.1 r.2 (Table.find?_eq_some_iff.mpr hr)
    simp only [Update.isLive, hprint, hwritten, Option.any_some, Store.isExpired]
    rw [← decide_not]
    exact decide_eq_decide.mpr Nat.not_lt
  simp only [wanted, rows_rest, Table.values, Table.filter, List.map_map, List.filter_map,
    List.filter_filter]
  refine congrArg (List.map _) (List.filter_congr fun r hr => ?_)
  simp only [Function.comp_apply, hrow r hr, Bool.and_comm]

theorem bind_live?_notification? (sh : Shelf) (i : Interest) (s t : String) :
    (sh.notification? i t).bind (Notification.live? ops l time s) =
      if ((sh.wanted i).filter (·.isLive ops l time s t)).isEmpty then none
      else some (sh.listing t ((sh.wanted i).filter (·.isLive ops l time s t))) := by
  rw [notification?_eq_listing]
  split
  · rename_i hempty
    rw [List.isEmpty_iff.mp hempty]
    rfl
  · have htarget : (sh.listing t (sh.wanted i)).target = t := sh.target_base t
    rw [Option.bind_some, Notification.live?, htarget]
    rfl

variable (l time) in
/-- **What a look leaves of a shelf lists what is left of the notification.** -/
theorem notification?_rest (h : sh.Dated ops s t) (i : Interest) :
    (sh.rest time l).bind (·.notification? i t) =
      (sh.notification? i t).bind (Notification.live? ops l time s) := by
  have hwanted := wanted_rest l time h i
  rw [bind_live?_notification?, ← hwanted]
  cases hrest : sh.rest time l with
  | none => rfl
  | some sh' =>
    obtain ⟨horigin, htimestamp⟩ := rest_eq_some hrest
    rw [Option.bind_some, notification?_eq_listing, Option.getD_some]
    simp only [listing, base, horigin, htimestamp]

end Shelf

namespace Store

/-- All shelves are dated. -/
def Dated (ops : List StoreOp) (st : Store) : Prop :=
  ∀ s t sh, st.shelf? s t = some sh → sh.Dated ops s t

theorem dated_run (ops : List StoreOp) : (run ops {}).Dated ops := fun s t sh hsh k r hr => by
  have hrow : (run ops {}).row? s t k = some r := by rw [row?, hsh, Option.bind_some, hr]
  exact ⟨keyed_run ops s t k r hrow, lastWritten?_of_row? ops hrow⟩

variable {st : Store} {s : String} {shelves : Table Shelf}

variable (l time) in
theorem notifications_fresh (h : st.Dated ops) (hs : st.contents.find? s = some shelves)
    (i : Interest) : notifications i (fresh time l shelves) =
      (notifications i shelves).filterMap (Notification.live? ops l time s) := by
  have hfresh : (fresh time l shelves).rows =
      shelves.rows.filterMap fun r => (r.2.rest time l).map (r.1, ·) := rfl
  rw [notifications, notifications, hfresh, List.filterMap_filterMap, List.filterMap_filterMap]
  refine List.filterMap_congr fun r hr => ?_
  obtain ⟨t, sh⟩ := r
  have hsh : st.shelf? s t = some sh := by
    rw [shelf?, hs, Option.bind_some, Table.find?_eq_some_iff.mpr hr]
  have hrest := Shelf.notification?_rest l time (h s t sh hsh) i
  rw [Option.bind_map]
  cases hwants : i.wantsTarget t with
  | true => simpa only [Function.comp_def, hwants, if_true] using hrest
  | false =>
    simp only [Function.comp_def, hwants, Bool.false_eq_true, if_false]
    cases sh.rest time l <;> rfl

theorem filterMap_live?_map (s : String) (ns : List Notification) :
    (ns.map (Notice.mk s)).filterMap (Notice.live? ops l time) =
      (ns.filterMap (Notification.live? ops l time s)).map (Notice.mk s) := by
  rw [List.filterMap_map, List.map_filterMap]
  rfl

/-- **What is left of the contents is what a look lists.** -/
theorem collect_prune (hl : st.lifetime = some l) (h : st.Dated ops) (i : Interest) :
    (st.prune time).collect i = (st.collect i).filterMap (Notice.live? ops l time) := by
  simp only [collect, prune, hl, Table.filterMap]
  rw [List.filterMap_flatMap, List.filterMap_eq_flatMap_toList, List.flatMap_assoc]
  refine List.flatMap_congr fun r hr => ?_
  obtain ⟨s, shelves⟩ := r
  have hfresh := notifications_fresh l time h (Table.find?_eq_some_iff.mpr hr) i
  dsimp only
  by_cases hempty : (fresh time l shelves).isEmpty = true
  · rw [Table.eq_empty_of_isEmpty hempty] at hfresh
    rw [if_pos hempty]
    split
    · rw [filterMap_live?_map, ← hfresh]
      rfl
    · rfl
  · rw [if_neg hempty]
    simp only [Option.map_some, Option.toList_some, List.flatMap_singleton]
    split
    · rw [hfresh, ← filterMap_live?_map]
    · rfl

theorem listed_prune (hl : st.lifetime = some l) (h : st.Dated ops) (s : String) :
    listed (st.prune time).view s =
      (listed st.view s).filterMap (Notification.live? ops l time s) := by
  rw [listed_view, listed_view]
  simp only [prune, hl, Table.find?_filterMap]
  cases hs : st.contents.find? s with
  | none => rfl
  | some shelves =>
    have hfresh := notifications_fresh l time h hs {}
    rw [Option.bind_some, Option.map_some, Option.getD_some, ← hfresh]
    split
    · rename_i hempty
      rw [Table.eq_empty_of_isEmpty hempty]
      rfl
    · rfl

end Store

end Live

/-! ## Earlier looks -/

namespace Store

open StoreUse (changes changes_append)

variable {uses : List StoreUse} {l : Duration} {now time : ℕ} {a b : Store}

/-- The same store, but that updates live for so long. -/
def aging (l : Duration) (st : Store) : Store := { st with lifetime := some l }

theorem apply_aging (op : StoreOp) (l : Duration) (st : Store) :
    op.apply (st.aging l) = (op.apply st).aging l := by
  cases op with
  | write now s e =>
    cases he : e.notification? with
    | none => simp [StoreOp.apply, write, he]
    | some n => cases hn : n.isEmpty <;> simp [StoreOp.apply, write, apply, aging, he, hn]
  | deleteTarget t => rfl
  | clear => rfl

/-- A look before the time drops only rows that are expired at the time. -/
theorem Aged.prune_left (h : Aged time l (fun _ _ => True) a b) (hle : now ≤ time) :
    Aged time l (fun _ _ => True) (a.prune now) b where
  left := (lifetime_prune now a).trans h.left
  right := h.right
  shelves s t := by
    rw [shelf_prune h.left]
    have hrest : Shelf.Aged now l True (a.shelf s t) (((a.shelf s t).rest now l).getD {}) :=
      Shelf.aged_rest now l fun hnot => absurd trivial hnot
    exact ⟨(hrest.rows_later hle).symm.trans (h.shelves s t).rows, fun hnot => absurd trivial hnot⟩

/-- **The same uses without expiry** leave the same store, but for rows that are expired at a time
after all looks, and for timestamps and origins. -/
theorem aged_use (h : ∀ u ∈ uses, ∀ now ∈ u.look?, now ≤ time) :
    Aged time l (fun _ _ => True) (use uses { lifetime := some l })
      ((run (changes uses) {}).aging l) := by
  induction uses using List.reverseRecOn with
  | nil => exact ⟨rfl, rfl, fun s t => .refl time l _ _⟩
  | append_singleton us u ih =>
    have hbefore := ih fun v hv => h v (List.mem_append_left _ hv)
    have hlast := h u (by simp)
    have hsame : run (changes us) {} = run (changes us ++ []) {} := by rw [List.append_nil]
    rw [use_append, changes_append]
    cases u with
    | change op =>
      have hop : (run (changes us ++ [op]) {}).aging l =
          op.apply ((run (changes us) {}).aging l) := by
        rw [apply_aging, run_concat]
      exact hop ▸ hbefore.change op
    | read now => exact hsame ▸ hbefore.prune_left (hlast now rfl)
    | watch now i =>
      show Aged time l _ ((StoreUse.watch now i).apply (use us { lifetime := some l })) _
      rcases apply_of_look? (u := .watch now i) rfl (use us { lifetime := some l }) with heq | heq
      · rw [heq]
        exact hsame ▸ hbefore
      · rw [heq]
        exact hsame ▸ hbefore.prune_left (hlast now rfl)

/-! ## What a look lists -/

/-- **What a look lists** where updates expire, after uses that have not looked later: the updates
that are listed without expiry after the same uses, if their place was last written no longer ago
than the lifetime. Notifications and subscriptions without such updates are missing. Only the
changes matter for that, and not the looks. -/
theorem look_exact (l : Duration) (h : ∀ u ∈ uses, ∀ now ∈ u.look?, now ≤ time) :
    let a := use uses { lifetime := some l }
    let b := use uses {}
    b = run (changes uses) {} ∧
    (∀ i, List.Forall₂ (Notice.Alike fun _ _ => True) (a.snapshot time i).2
      ((b.snapshot time i).2.filterMap (Notice.live? (changes uses) l time))) ∧
    ∀ s, List.Forall₂ (fun n m => Notice.Alike (fun _ _ => True) ⟨s, n⟩ ⟨s, m⟩)
        (listed (a.read time).2 s)
        ((listed (b.read time).2 s).filterMap (Notification.live? (changes uses) l time s)) ∧
      ((a.read time).2.find? s = none ↔
        ∀ n ∈ listed (b.read time).2 s, n.live? (changes uses) l time s = none) := by
  intro a b
  have hb : b = run (changes uses) {} := use_of_lifetime_none rfl uses
  have hnone : b.lifetime = none := lifetime_use uses {}
  have haged : Aged time l (fun _ _ => True) a (b.aging l) := by
    rw [hb]
    exact aged_use h
  have hdated : Dated (changes uses) (b.aging l) := by
    rw [hb]
    exact dated_run (changes uses)
  have hlisted : ∀ s, List.Forall₂ (fun n m => Notice.Alike (fun _ _ => True) ⟨s, n⟩ ⟨s, m⟩)
      (listed (a.read time).2 s)
      ((listed (b.read time).2 s).filterMap (Notification.live? (changes uses) l time s)) := by
    intro s
    have hread := haged.listed (Nat.le_refl _) s
    rw [listed_prune rfl hdated] at hread
    rw [read_of_lifetime_none hnone]
    exact hread
  refine ⟨hb, fun i => ?_, fun s => ⟨hlisted s, ?_⟩⟩
  · have hcollect := haged.collect (Nat.le_refl _) i
    rw [collect_prune rfl hdated] at hcollect
    have hsnapshot : (b.snapshot time i).2 = b.collect i :=
      congrArg (collect i) (prune_of_lifetime_none hnone time)
    rw [hsnapshot]
    exact hcollect
  · have hlength := (hlisted s).length_eq
    have hfind : (a.read time).2.find? s = none ↔ (listed (a.read time).2 s).length = 0 := by
      show (a.prune time).view.find? s = none ↔ (listed (a.prune time).view s).length = 0
      rw [find?_view]
      cases listed (a.prune time).view s <;> simp
    rw [hfind, hlength, List.length_eq_zero_iff, List.filterMap_eq_nil_iff]

/-- A place that is written again after a look at which it was expired. -/
def refreshed : List StoreUse :=
  [jotted 0 "" "a" 1, jotted 1 "" "b" 2, jotted 2 "" "c" 3, .read 3, jotted 3 "" "a" 4]

/-- With updates that live for two nanoseconds, the place that was written again and one at the
bound are listed, and one beyond it is not. -/
theorem look_exact_refreshed : (∀ u ∈ refreshed, ∀ now ∈ u.look?, now ≤ 4) ∧
    List.Forall₂ (fun n m => Notice.Alike (fun _ _ => True) ⟨"s", n⟩ ⟨"s", m⟩)
      (listed ((use refreshed fleeting).read 4).2 "s")
      [{
        timestamp := 4
        base := some { target := "r" }
        updates := ["a", "c"].map fun name => { path := { elements := [{ name }] } } }] := by
  have hlooks : ∀ u ∈ refreshed, ∀ now ∈ u.look?, now ≤ 4 := by
    simp [refreshed, jotted, StoreUse.look?]
  have hlive : (listed ((use refreshed {}).read 4).2 "s").filterMap
      (Notification.live? (changes refreshed) ⟨2⟩ 4 "s") = [{
        timestamp := 4
        base := some { target := "r" }
        updates := ["a", "c"].map fun name => { path := { elements := [{ name }] } } }] := by
    decide
  exact ⟨hlooks, hlive ▸ ((look_exact ⟨2⟩ hlooks).2.2 "s").1⟩

end Store

end Telemetry
