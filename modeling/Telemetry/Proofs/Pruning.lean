import Mathlib.Data.List.Forall2
import Telemetry.Proofs.Agree
import Telemetry.Proofs.History
import Telemetry.Store.Watcher

/-!
# Looking at a store

Whoever looks at a store drops what is expired, and then the shelves with nothing left on them. That
is seen by nobody who looks later, as what is expired stays so, except in one way: a shelf that is
dropped loses its timestamp and its origin, while one that nobody looks at keeps them for the next
notification about its target.

* `StoreUse`, `Store.use`: changes and looks, each at its time;
* `Shelf.rest`, `Store.Hollow`: what a look leaves of a shelf, and the shelves that it drops;
* `Shelf.Aged`, `Store.Aged`: equal but for expired rows and for what a dropped shelf lost;
* **`Store.Aged.use`**: later changes and looks keep it;
* `Store.Filled`, `Store.filled_prune`: no subscription is left without a shelf;
* `Table.forall₂_rows`, `Store.Aged.collect`: the same is listed, target by target;
* **`Store.look_unseen`**: two uses of a store, one with a look more;
* `Store.look_unseen_fresh`, `Store.look_seen`: a look that is not seen later, and one that is.
-/

namespace Telemetry

/-! ## Uses of a store -/

/-- A change of a store, or a look at it: a read, or the start of a watcher. -/
inductive StoreUse where
  | change (op : StoreOp)
  | read (now : ℕ)
  | watch (now : ℕ) (i : Interest)

namespace StoreUse

/-- The store after a use. -/
def apply : StoreUse → Store → Store
  | change op => op.apply
  | read now => fun st => (st.read now).1
  | watch now i => fun st => (Watcher.start now i st).1

/-- The time of a look. -/
def look? : StoreUse → Option ℕ
  | change _ => none
  | read now => some now
  | watch now _ => some now

end StoreUse

namespace Store

/-- The store after a number of uses. -/
def use (uses : List StoreUse) (st : Store) : Store := uses.foldl (fun st u => u.apply st) st

theorem use_append (us vs : List StoreUse) (st : Store) : use (us ++ vs) st = use vs (use us st) :=
  List.foldl_append

theorem lifetime_prune (now : ℕ) (st : Store) : (st.prune now).lifetime = st.lifetime := by
  unfold prune
  split <;> rfl

theorem prune_of_lifetime_none {st : Store} (h : st.lifetime = none) (now : ℕ) :
    st.prune now = st := by
  simp [prune, h]

theorem apply_of_look? {u : StoreUse} {now : ℕ} (h : u.look? = some now) (st : Store) :
    u.apply st = st ∨ u.apply st = st.prune now := by
  cases u with
  | change op => cases h
  | read now' =>
    obtain rfl := Option.some.inj h
    exact .inr rfl
  | watch now' i =>
    obtain rfl := Option.some.inj h
    cases hi : i.wantsContents with
    | true => exact .inr (by simp [StoreUse.apply, Watcher.start, hi, snapshot])
    | false => exact .inl (by simp [StoreUse.apply, Watcher.start, hi])

theorem lifetime_use (us : List StoreUse) (st : Store) : (use us st).lifetime = st.lifetime := by
  induction us using List.reverseRecOn with
  | nil => rfl
  | append_singleton us u ih =>
    rw [use_append, ← ih]
    cases hlook : u.look? with
    | some now =>
      rcases apply_of_look? hlook (use us st) with h | h
      · exact congrArg lifetime h
      · exact (congrArg lifetime h).trans (lifetime_prune now _)
    | none =>
      cases u with
      | change op => exact lifetime_apply op _
      | read | watch => cases hlook

end Store

/-! ## One shelf -/

namespace Shelf

/-- What a look leaves of the shelf. -/
def rest (now : ℕ) (l : Duration) (sh : Shelf) : Option Shelf :=
  let rows := sh.rows.filter fun _ r => !Store.isExpired now l r
  if rows.isEmpty then none else some { sh with rows }

variable {now time : ℕ} {l : Duration} {sh a b : Shelf} {H : Prop}

theorem rows_rest (now : ℕ) (l : Duration) (sh : Shelf) :
    ((sh.rest now l).getD {}).rows = sh.rows.filter fun _ r => !Store.isExpired now l r := by
  unfold rest
  dsimp only
  split
  · rename_i h
    exact (Table.eq_empty_of_isEmpty h).symm
  · rfl

theorem rest_eq_some (h : sh.rest now l = some a) : a.origin = sh.origin ∧
    a.timestamp = sh.timestamp := by
  unfold rest at h
  dsimp only at h
  split at h
  · cases h
  · obtain rfl := Option.some.inj h
    exact ⟨rfl, rfl⟩

theorem isEmpty_rows_of_rest (h : sh.rest now l = some a) : a.rows.isEmpty = false := by
  unfold rest at h
  dsimp only at h
  split at h
  · cases h
  · rename_i hne
    obtain rfl := Option.some.inj h
    simpa using hne

theorem isExpired_mono (h : time ≤ now) {r : Row} (hr : Store.isExpired now l r = false) :
    Store.isExpired time l r = false := by
  simp only [Store.isExpired, decide_eq_false_iff_not] at hr ⊢
  omega

/-- The shelves differ in rows only that are expired at the time, and in their timestamp and origin
only if `H` holds. -/
structure Aged (time : ℕ) (l : Duration) (H : Prop) (a b : Shelf) : Prop where
  rows : (a.rows.filter fun _ r => !Store.isExpired time l r) =
    b.rows.filter fun _ r => !Store.isExpired time l r
  registers : ¬ H → a.origin = b.origin ∧ a.timestamp = b.timestamp

theorem Aged.refl (time : ℕ) (l : Duration) (H : Prop) (sh : Shelf) : Aged time l H sh sh :=
  ⟨rfl, fun _ => ⟨rfl, rfl⟩⟩

theorem Aged.rows_later (h : Aged time l H a b) (hle : time ≤ now) :
    (a.rows.filter fun _ r => !Store.isExpired now l r) =
      b.rows.filter fun _ r => !Store.isExpired now l r := by
  have hfilter : ∀ t : Table Row, ((t.filter fun _ r => !Store.isExpired time l r).filter
      fun _ r => !Store.isExpired now l r) = t.filter fun _ r => !Store.isExpired now l r := by
    refine fun t => Table.ext_find? fun k => ?_
    simp only [Table.find?_filter, Option.filter_filter]
    refine congrArg (fun p => Option.filter p _) (funext fun r => ?_)
    cases hr : Store.isExpired now l r with
    | true => simp
    | false => simp [isExpired_mono hle hr]
  rw [← hfilter a.rows, ← hfilter b.rows, h.rows]

/-- A look at the first time leaves a shelf that differs in this way, if `H` tells that the shelf is
dropped with a timestamp or an origin. -/
theorem aged_rest (time : ℕ) (l : Duration) (hH : ¬ H → sh = {} ∨ sh.rest time l ≠ none) :
    Aged time l H sh ((sh.rest time l).getD {}) where
  rows := by
    refine Table.ext_find? fun k => ?_
    simp only [rows_rest, Table.find?_filter, Option.filter_filter, Bool.and_self]
  registers h := by
    rcases hH h with rfl | hsome
    · exact ⟨rfl, rfl⟩
    · obtain ⟨sh', hsh'⟩ := Option.ne_none_iff_exists'.mp hsome
      obtain ⟨horigin, htimestamp⟩ := rest_eq_some hsh'
      rw [hsh']
      exact ⟨horigin.symm, htimestamp.symm⟩

theorem Aged.apply (h : Aged time l H a b) (now : ℕ) (n : Notification) :
    Aged time l H (a.apply now n) (b.apply now n) where
  rows := by
    refine Table.ext_find? fun k => ?_
    simp only [Table.find?_filter, find?_rows_apply]
    cases hlast : n.last? k with
    | some u => rw [Notification.rowAfter_of_some hlast, Notification.rowAfter_of_some hlast]
    | none =>
      have hrow := congrArg (Table.find? · k) h.rows
      simp only [Table.find?_filter] at hrow
      simp only [Notification.rowAfter_of_none hlast, Option.filter_filter]
      have hswap : ∀ o : Option Row, (o.filter fun r =>
          !n.erases r.update.path && !Store.isExpired time l r) =
          (o.filter fun r => !Store.isExpired time l r).filter
            fun r => !n.erases r.update.path := by
        intro o
        rw [Option.filter_filter]
        exact congrArg (fun p => Option.filter p o) (funext fun r => Bool.and_comm _ _)
      rw [hswap, hswap, hrow]
  registers hH := by
    obtain ⟨horigin, htimestamp⟩ := h.registers hH
    rw [apply_origin, apply_origin, apply_timestamp, apply_timestamp, horigin, htimestamp]
    exact ⟨rfl, rfl⟩

theorem Aged.rest (h : Aged time l H a b) (hle : time ≤ now) :
    Option.Rel (fun x y : Shelf => x.rows = y.rows ∧ (¬ H → x = y)) (a.rest now l)
      (b.rest now l) := by
  have hrows := h.rows_later hle
  unfold Shelf.rest
  simp only [hrows]
  split
  · exact .none
  · refine .some ⟨rfl, fun hH => ?_⟩
    obtain ⟨horigin, htimestamp⟩ := h.registers hH
    rw [horigin, htimestamp]

theorem Aged.look (h : Aged time l H a b) (hle : time ≤ now) :
    Aged time l H ((a.rest now l).getD {}) ((b.rest now l).getD {}) where
  rows := by rw [rows_rest, rows_rest, h.rows_later hle]
  registers hH := by
    have hrest := h.rest hle
    generalize a.rest now l = x at hrest ⊢
    generalize b.rest now l = y at hrest ⊢
    cases hrest with
    | none => exact ⟨rfl, rfl⟩
    | some hxy =>
      rw [hxy.2 hH]
      exact ⟨rfl, rfl⟩

end Shelf

/-! ## Two stores -/

namespace Store

variable {now time : ℕ} {l : Duration} {st a b : Store} {H : String → String → Prop}

theorem shelf?_prune (hl : st.lifetime = some l) (now : ℕ) (s t : String) :
    (st.prune now).shelf? s t = (st.shelf s t).rest now l := by
  have hempty : ({} : Shelf).rest now l = none := rfl
  rw [shelf, shelf?, shelf?]
  simp only [prune, hl, Table.find?_filterMap]
  cases st.contents.find? s with
  | none => exact hempty.symm
  | some shelves =>
    have hfresh : (fresh now l shelves).find? t = (shelves.find? t).bind (Shelf.rest now l) :=
      Table.find?_filterMap _ _ _
    have hrest : (shelves.find? t).bind (Shelf.rest now l) =
        ((shelves.find? t).getD {}).rest now l := by
      cases shelves.find? t with
      | none => exact hempty.symm
      | some sh => rfl
    simp only [Option.bind_some]
    split
    · rename_i h
      rw [← hrest, ← hfresh, Table.isEmpty_iff.mp h, Option.bind_none]
    · rw [Option.bind_some, hfresh, hrest]

theorem shelf_prune (hl : st.lifetime = some l) (now : ℕ) (s t : String) :
    (st.prune now).shelf s t = ((st.shelf s t).rest now l).getD {} := by
  rw [shelf, shelf?_prune hl]

/-- A shelf that a look drops. -/
def Hollow (time : ℕ) (st : Store) (s t : String) : Prop :=
  (∃ sh, st.shelf? s t = some sh) ∧ (st.prune time).shelf? s t = none

/-- Equal but for what is expired at the time, and for the timestamp and origin of shelves in
`H`. -/
structure Aged (time : ℕ) (l : Duration) (H : String → String → Prop) (a b : Store) : Prop where
  left : a.lifetime = some l
  right : b.lifetime = some l
  shelves : ∀ s t, Shelf.Aged time l (H s t) (a.shelf s t) (b.shelf s t)

theorem aged_prune (hl : st.lifetime = some l) (time : ℕ) :
    Aged time l (Hollow time st) st (st.prune time) where
  left := hl
  right := (lifetime_prune time st).trans hl
  shelves s t := by
    rw [shelf_prune hl]
    refine Shelf.aged_rest time l fun hkept => ?_
    cases hsh : st.shelf? s t with
    | none => exact .inl (by rw [shelf, hsh]; rfl)
    | some sh =>
      refine .inr fun hnone => hkept ⟨⟨sh, hsh⟩, ?_⟩
      rw [shelf?_prune hl, hnone]

theorem Aged.change (h : Aged time l H a b) (op : StoreOp) :
    Aged time l H (op.apply a) (op.apply b) where
  left := (lifetime_apply op a).trans h.left
  right := (lifetime_apply op b).trans h.right
  shelves s t := by
    cases op with
    | write now s' e =>
      rw [StoreOp.apply]
      cases he : e.notification? with
      | none =>
        rw [write_of_idle now s' (by simp [he]), write_of_idle now s' (by simp [he])]
        exact h.shelves s t
      | some n =>
        rw [shelf_write now s' he, shelf_write now s' he]
        split
        · rename_i hplace
          rw [← hplace.2.1]
          exact (h.shelves s t).apply now n
        · exact h.shelves s t
    | deleteTarget t' =>
      rw [StoreOp.apply, shelf, shelf, shelf?_deleteTarget, shelf?_deleteTarget]
      split
      · exact .refl time l _ {}
      · exact h.shelves s t
    | clear => exact .refl time l _ {}

theorem Aged.prune (h : Aged time l H a b) (hle : time ≤ now) :
    Aged time l H (a.prune now) (b.prune now) where
  left := (lifetime_prune now a).trans h.left
  right := (lifetime_prune now b).trans h.right
  shelves s t := by
    rw [shelf_prune h.left, shelf_prune h.right]
    exact (h.shelves s t).look hle

/-- **One use**, no look of which is earlier than the time. -/
theorem Aged.use (h : Aged time l H a b) (u : StoreUse) (hu : ∀ now ∈ u.look?, time ≤ now) :
    Aged time l H (u.apply a) (u.apply b) := by
  cases u with
  | change op => exact h.change op
  | read now => exact h.prune (hu now rfl)
  | watch now i =>
    simp only [StoreUse.apply, Watcher.start, snapshot]
    split
    · exact h.prune (hu now rfl)
    · exact h

/-- **A run of uses.** -/
theorem Aged.run {us : List StoreUse} (h : Aged time l H a b)
    (hus : ∀ u ∈ us, ∀ now ∈ u.look?, time ≤ now) :
    Aged time l H (Store.use us a) (Store.use us b) := by
  induction us using List.reverseRecOn with
  | nil => exact h
  | append_singleton us u ih =>
    rw [use_append, use_append]
    exact (ih fun u' hu' => hus u' (List.mem_append_left _ hu')).use u (hus u (by simp))

end Store

/-! ## Tables row by row -/

namespace Table

variable {α β : Type} {R : String → α → β → Prop}

theorem forall₂_of_keys : ∀ {x : List (String × α)} {y : List (String × β)},
    x.map (·.1) = y.map (·.1) → (∀ k v w, (k, v) ∈ x → (k, w) ∈ y → R k v w) →
      List.Forall₂ (fun p q => p.1 = q.1 ∧ R p.1 p.2 q.2) x y
  | [], [], _, _ => .nil
  | (k, v) :: x, (k', w) :: y, hkeys, hrel => by
    simp only [List.map_cons, List.cons.injEq] at hkeys
    obtain ⟨rfl, hkeys⟩ := hkeys
    exact .cons ⟨rfl, hrel k v w List.mem_cons_self List.mem_cons_self⟩
      (forall₂_of_keys hkeys fun k v w hv hw =>
        hrel k v w (List.mem_cons_of_mem _ hv) (List.mem_cons_of_mem _ hw))

theorem forall₂_rows {x : Table α} {y : Table β}
    (h : ∀ k, Option.Rel (R k) (x.find? k) (y.find? k)) :
    List.Forall₂ (fun p q => p.1 = q.1 ∧ R p.1 p.2 q.2) x.rows y.rows := by
  have hnames : x.map (fun _ => ()) = y.map fun _ => () := by
    refine ext_find? fun k => ?_
    have hk := h k
    rw [find?_map, find?_map]
    generalize x.find? k = v at hk ⊢
    generalize y.find? k = w at hk ⊢
    cases hk <;> rfl
  have hkeys : ∀ {γ : Type} (t : Table γ), (t.map fun _ => ()).keys = t.keys := by
    intro γ t
    simp [keys, map, filterMap, Function.comp_def]
  refine forall₂_of_keys ?_ fun k v w hv hw => ?_
  · show x.keys = y.keys
    rw [← hkeys x, ← hkeys y, hnames]
  · have hk := h k
    rw [find?_eq_some_iff.mpr hv, find?_eq_some_iff.mpr hw] at hk
    cases hk with
    | some hvw => exact hvw

end Table

/-! ## What is listed -/

/-- The same, but that the timestamp and the base path may differ for targets in `H`. -/
structure Notice.Alike (H : String → String → Prop) (x y : Notice) : Prop where
  subscription : x.subscription = y.subscription
  target : x.notification.target = y.notification.target
  rest : { x.notification with
    timestamp := y.notification.timestamp, base := y.notification.base } = y.notification
  same : ¬ H x.subscription x.notification.target → x = y

theorem Notice.Alike.refl (H : String → String → Prop) (x : Notice) : x.Alike H x :=
  ⟨rfl, rfl, rfl, fun _ => rfl⟩

theorem Shelf.target_base (sh : Shelf) (t : String) : ((sh.base t).getD {}).target = t := by
  unfold base
  split
  · rename_i h
    exact (String.isEmpty_iff.mp (Bool.and_eq_true_iff.mp h).2).symm
  · rfl

namespace Store

variable {now time : ℕ} {l : Duration} {a b : Store} {H : String → String → Prop}

/-- The shelves have the same rows, and are the same outside `H`. -/
def SameRows (H : Prop) (x y : Shelf) : Prop := x.rows = y.rows ∧ (¬ H → x = y)

theorem alike_notification? {s t : String} {x y : Shelf} (h : SameRows (H s t) x y)
    (i : Interest) : Option.Rel (fun n m => Notice.Alike H ⟨s, n⟩ ⟨s, m⟩) (x.notification? i t)
      (y.notification? i t) := by
  unfold Shelf.notification?
  simp only [h.1]
  split
  · exact .none
  · refine .some ⟨rfl, ?_, rfl, fun hH => ?_⟩
    · exact (x.target_base t).trans (y.target_base t).symm
    · have ht : ({ timestamp := x.timestamp, base := x.base t } : Notification).target = t :=
        x.target_base t
      rw [h.2 fun hst => hH (ht.symm ▸ hst)]

theorem alike_notifications {s : String} {x y : Table Shelf}
    (h : ∀ t, Option.Rel (SameRows (H s t)) (x.find? t) (y.find? t)) (i : Interest) :
    List.Forall₂ (fun n m => Notice.Alike H ⟨s, n⟩ ⟨s, m⟩) (notifications i x)
      (notifications i y) := by
  refine List.rel_filterMap ?_ (Table.forall₂_rows h)
  rintro ⟨t, x⟩ ⟨t', y⟩ ⟨rfl, hxy⟩
  simp only
  split
  · exact alike_notification? hxy i
  · exact .none

/-- No subscription is kept without a shelf. -/
def Filled (st : Store) : Prop :=
  ∀ s shelves, st.contents.find? s = some shelves → shelves.isEmpty = false

theorem Filled.find?_eq_none_iff {st : Store} (h : st.Filled) (s : String) :
    st.contents.find? s = none ↔ ∀ t, st.shelf? s t = none := by
  unfold shelf?
  cases hs : st.contents.find? s with
  | none => simp
  | some shelves =>
    have hne := h s shelves hs
    rw [← Bool.not_eq_true, Table.isEmpty_iff] at hne
    simpa using hne

theorem filled_of_contents {st : Store} (contents : Table (Table Shelf))
    (rest : Table Shelf → Table Shelf)
    (h : st.contents = contents.filterMap fun _ shelves =>
      if (rest shelves).isEmpty then none else some (rest shelves)) : st.Filled := by
  intro s shelves hs
  rw [h, Table.find?_filterMap] at hs
  obtain ⟨old, -, hold⟩ := Option.bind_eq_some_iff.mp hs
  split at hold
  · cases hold
  · rename_i hne
    obtain rfl := Option.some.inj hold
    simpa using hne

theorem filled_prune (hl : a.lifetime = some l) (now : ℕ) : (a.prune now).Filled :=
  filled_of_contents a.contents (fresh now l) (by simp only [prune, hl])

theorem Aged.contents (h : Aged time l H a b) (hle : time ≤ now) (s : String) :
    Option.Rel (fun x y : Table Shelf => ∀ t, Option.Rel (SameRows (H s t)) (x.find? t) (y.find? t))
      ((a.prune now).contents.find? s) ((b.prune now).contents.find? s) := by
  have hshelf : ∀ t, Option.Rel (SameRows (H s t)) ((a.prune now).shelf? s t)
      ((b.prune now).shelf? s t) := fun t => by
    rw [shelf?_prune h.left, shelf?_prune h.right]
    exact (h.shelves s t).rest hle
  have hnone : (a.prune now).contents.find? s = none ↔ (b.prune now).contents.find? s = none := by
    rw [(filled_prune h.left now).find?_eq_none_iff, (filled_prune h.right now).find?_eq_none_iff]
    refine forall_congr' fun t => ?_
    have ht := hshelf t
    generalize (a.prune now).shelf? s t = x at ht ⊢
    generalize (b.prune now).shelf? s t = y at ht ⊢
    cases ht with
    | none => rfl
    | some _ => simp
  cases ha : (a.prune now).contents.find? s with
  | none =>
    rw [hnone.mp ha]
    exact .none
  | some x =>
    cases hb : (b.prune now).contents.find? s with
    | none => exact absurd (hnone.mpr hb) (by simp [ha])
    | some y =>
      refine .some fun t => ?_
      have ht := hshelf t
      rwa [shelf?, shelf?, ha, hb] at ht

/-- **A later snapshot lists the same**, target by target. -/
theorem Aged.collect (h : Aged time l H a b) (hle : time ≤ now) (i : Interest) :
    List.Forall₂ (Notice.Alike H) ((a.prune now).collect i) ((b.prune now).collect i) := by
  refine List.rel_flatMap (Table.forall₂_rows fun s => h.contents hle s) ?_
  rintro ⟨s, x⟩ ⟨s', y⟩ ⟨rfl, hxy⟩
  simp only
  split
  · rw [List.forall₂_map_left_iff, List.forall₂_map_right_iff]
    exact alike_notifications hxy i
  · exact .nil

theorem Aged.listed (h : Aged time l H a b) (hle : time ≤ now) (s : String) :
    List.Forall₂ (fun n m => Notice.Alike H ⟨s, n⟩ ⟨s, m⟩) (Store.listed (a.prune now).view s)
      (Store.listed (b.prune now).view s) := by
  rw [listed_view, listed_view]
  have hs := h.contents hle s
  generalize (a.prune now).contents.find? s = x at hs ⊢
  generalize (b.prune now).contents.find? s = y at hs ⊢
  cases hs with
  | none => exact .nil
  | some hxy => exact alike_notifications hxy {}

/-! ## One look more -/

/-- **A look more is not seen by who looks later**: whatever is read or sent then is the same,
target by target, but for the timestamp and the base path of targets whose shelf the look dropped.
-/
theorem look_unseen (before after : List StoreUse) (st : Store) {look : StoreUse} {time : ℕ}
    (hlook : look.look? = some time) (hafter : ∀ u ∈ after, ∀ now ∈ u.look?, time ≤ now)
    {later : ℕ} (hlater : time ≤ later) :
    let H := Hollow time (use before st)
    let a := use (before ++ after) st
    let b := use (before ++ look :: after) st
    (∀ i, List.Forall₂ (Notice.Alike H) (a.snapshot later i).2 (b.snapshot later i).2) ∧
    (∀ s, List.Forall₂ (fun n m => Notice.Alike H ⟨s, n⟩ ⟨s, m⟩) (listed (a.read later).2 s)
      (listed (b.read later).2 s)) ∧
    ((∀ s t, ¬ H s t) → (∀ i, (a.snapshot later i).2 = (b.snapshot later i).2) ∧
      (a.read later).2 = (b.read later).2) ∧
    (st.lifetime = none → ∀ s t, ¬ H s t) := by
  intro H a b
  have hunseen : (∀ i, List.Forall₂ (Notice.Alike H) (a.snapshot later i).2
        (b.snapshot later i).2) ∧
      ∀ s, List.Forall₂ (fun n m => Notice.Alike H ⟨s, n⟩ ⟨s, m⟩) (listed (a.read later).2 s)
        (listed (b.read later).2 s) := by
    have ha : a = use after (use before st) := use_append _ _ _
    have hb : b = use after (look.apply (use before st)) := use_append _ _ _
    -- a look that drops nothing has no part in it
    by_cases hsame : look.apply (use before st) = use before st
    · rw [ha, hb, hsame]
      exact ⟨fun i => List.forall₂_same.mpr fun _ _ => .refl H _,
        fun s => List.forall₂_same.mpr fun _ _ => .refl H _⟩
    · have hprune := (apply_of_look? hlook (use before st)).resolve_left hsame
      cases hl : (use before st).lifetime with
      | none => exact absurd (hprune.trans (prune_of_lifetime_none hl time)) hsame
      | some l =>
        have haged := (aged_prune hl time).run hafter
        rw [ha, hb, hprune]
        exact ⟨haged.collect hlater, haged.listed hlater⟩
  refine ⟨hunseen.1, hunseen.2, fun hH => ⟨fun i => ?_, Table.ext_find? fun s => ?_⟩,
    fun hl s t => ?_⟩
  · have heq := (hunseen.1 i).imp fun x y hxy => hxy.same (hH _ _)
    rwa [List.forall₂_eq_eq_eq] at heq
  · have heq := (hunseen.2 s).imp fun n m hnm => (Notice.mk.inj (hnm.same (hH _ _))).2
    rw [List.forall₂_eq_eq_eq] at heq
    show (a.prune later).view.find? s = (b.prune later).view.find? s
    rw [find?_view, find?_view]
    exact congrArg (fun l => if l.isEmpty then none else some l) heq
  · have hnone : (use before st).lifetime = none := (lifetime_use before st).trans hl
    rintro ⟨⟨sh, hsh⟩, hdropped⟩
    rw [prune_of_lifetime_none hnone, hsh] at hdropped
    cases hdropped

/-- A store whose updates live for two nanoseconds. -/
def fleeting : Store := { lifetime := some ⟨2⟩ }

/-- A write of the path with a name. -/
def jotted (now : ℕ) (origin name : String) (timestamp : Int64) : StoreUse :=
  .change (.write now "s" (.update {
    timestamp
    base := some { origin, target := "r" }
    updates := [{ path := { elements := [{ name }] } }] }))

/-- A look that drops one of two updates of a target is not seen by a later read. -/
theorem look_unseen_fresh : StoreUse.look? (.read 3) = some 3 ∧
    (∀ u ∈ [jotted 4 "" "c" 50], ∀ now ∈ u.look?, 3 ≤ now) ∧ 3 ≤ 4 ∧
    ((use ([jotted 0 "o" "a" 100, jotted 2 "" "b" 90] ++ [jotted 4 "" "c" 50]) fleeting).read 4).2 =
      ((use ([jotted 0 "o" "a" 100, jotted 2 "" "b" 90] ++ .read 3 :: [jotted 4 "" "c" 50])
        fleeting).read 4).2 := by
  have hafter : ∀ u ∈ [jotted 4 "" "c" 50], ∀ now ∈ u.look?, 3 ≤ now := by
    intro u hu now hnow
    obtain rfl := List.mem_singleton.mp hu
    cases hnow
  have hkept : ∀ s t,
      ¬ Hollow 3 (use [jotted 0 "o" "a" 100, jotted 2 "" "b" 90] fleeting) s t := by
    rintro s t ⟨⟨sh, hsh⟩, hdropped⟩
    by_cases hst : s = "s" ∧ t = "r"
    · obtain ⟨rfl, rfl⟩ := hst
      revert hdropped
      decide
    · have hother : ∀ now origin name timestamp st,
          ((jotted now origin name timestamp).apply st).shelf? s t = st.shelf? s t := by
        intro now origin name timestamp st
        refine shelf?_apply_of_not_concerns ?_ st
        rintro ⟨rfl, n, hn, rfl⟩
        obtain rfl := Option.some.inj hn
        exact hst ⟨rfl, rfl⟩
      rw [use, List.foldl_cons, List.foldl_cons, List.foldl_nil, hother, hother] at hsh
      cases hsh
  exact ⟨rfl, hafter, by decide, ((look_unseen _ _ fleeting rfl hafter (by decide)).2.2.1 hkept).2⟩

/-- After a look that drops the last update of a target, a later write has neither the timestamp nor
the origin that it gets without the look. -/
theorem look_seen :
    ((use [jotted 0 "o" "a" 100, jotted 4 "" "b" 50] fleeting).read 4).2 =
      Table.empty.insert "s" [{
        timestamp := 100
        base := some { origin := "o", target := "r" }
        updates := [{ path := { origin := "", elements := [{ name := "b" }] } }] }] ∧
    ((use [jotted 0 "o" "a" 100, .read 3, jotted 4 "" "b" 50] fleeting).read 4).2 =
      Table.empty.insert "s" [{
        timestamp := 50
        base := some { target := "r" }
        updates := [{ path := { elements := [{ name := "b" }] } }] }] := by
  decide

end Store

end Telemetry
