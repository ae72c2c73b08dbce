import Mathlib.Data.List.Induction
import Telemetry.Proofs.ByteOrder
import Telemetry.Proofs.View

/-!
# A store and its history

What a store lists depends on its history only through the last word on every place. An update is
listed as long as no later update stands at its place, no later delete covers it, and neither its
target nor the store was emptied.

* `StoreOp`, `Store.run`: a history;
* `StoreOp.Leaves`, `StoreOp.Spares`, `Store.Survives`: the updates that a history leaves;
* `Store.holds_apply`: one step; **`Store.holds_run`**: a store holds what its history leaves;
* **`Store.read_run`**: what is read after a history.
-/

namespace Telemetry

/-! ## Histories -/

/-- A change of a store; a write takes place at a time. -/
inductive StoreOp where
  | write (now : ℕ) (subscription : String) (e : Envelope)
  | deleteTarget (target : String)
  | clear

namespace StoreOp

/-- The store after a change. -/
def apply : StoreOp → Store → Store
  | write now s e => Store.write now s e
  | deleteTarget t => Store.deleteTarget t
  | clear => Store.clear

/-- The change neither puts an update at the place of `p`, under a subscription and target, nor
removes the one that is there. -/
def Spares (s t : String) (p : Path) : StoreOp → Prop
  | write _ s' e => s' = s → ∀ n, e.notification? = some n → n.target = t →
      (∀ v ∈ n.updates, (n.full v.path).print ≠ p.print) ∧
      ∀ d ∈ n.deletes, (n.full d).covers p = false
  | deleteTarget t' => t' ≠ t
  | clear => False

/-- The change puts `u`, with its full path, at its place under a subscription and target: no later
update of the same notification stands there. -/
def Leaves (s t : String) (u : Update) : StoreOp → Prop
  | write _ s' e => s' = s ∧ ∃ n, e.notification? = some n ∧ n.target = t ∧
      ∃ us v vs, n.updates = us ++ v :: vs ∧ n.filed v = u ∧
        ∀ v' ∈ vs, (n.full v'.path).print ≠ u.path.print
  | _ => False

/-- The change may concern what is listed for a subscription and target. -/
def Concerns (s t : String) : StoreOp → Prop
  | write _ s' e => s' = s ∧ ∃ n, e.notification? = some n ∧ n.target = t
  | deleteTarget t' => t' = t
  | clear => True

/-- The change writes a notification without content, or no notification. -/
def IsIdle : StoreOp → Prop
  | write _ _ e => ∀ n, e.notification? = some n → n.updates = [] ∧ n.deletes = []
  | _ => False

theorem apply_of_isIdle {op : StoreOp} (h : op.IsIdle) (st : Store) : op.apply st = st := by
  cases op with
  | write now s e =>
    refine Store.write_of_idle now s (fun n hn => ?_) st
    obtain ⟨hu, hd⟩ := h n hn
    rw [Notification.isEmpty, hu, hd]
    rfl
  | deleteTarget t => exact h.elim
  | clear => exact h.elim

end StoreOp

namespace Store

/-- The store after a history. -/
def run (ops : List StoreOp) (st : Store) : Store := ops.foldl (fun st op => op.apply st) st

/-- The update is one that the history leaves: it was put at its place, and all later changes spare
it. -/
def Survives (ops : List StoreOp) (s t : String) (u : Update) : Prop :=
  ∃ before op after, ops = before ++ op :: after ∧ op.Leaves s t u ∧
    ∀ op' ∈ after, op'.Spares s t u.path

theorem run_concat (ops : List StoreOp) (op : StoreOp) (st : Store) :
    run (ops ++ [op]) st = op.apply (run ops st) := by
  rw [run, List.foldl_append]
  rfl

theorem survives_nil (s t : String) (u : Update) : ¬ Survives [] s t u := by
  rintro ⟨before, op, after, h, -⟩
  exact absurd h.symm (by simp)

/-- An element with one property, and all later ones with the other, in a list with one element
more. -/
theorem since_concat {α : Type} {P Q : α → Prop} {l : List α} {a : α} :
    (∃ before x after, l ++ [a] = before ++ x :: after ∧ P x ∧ ∀ y ∈ after, Q y) ↔
      P a ∨ ((∃ before x after, l = before ++ x :: after ∧ P x ∧ ∀ y ∈ after, Q y) ∧ Q a) := by
  constructor
  · rintro ⟨before, x, after, h, hx, hafter⟩
    rcases List.eq_nil_or_concat after with rfl | ⟨after, y, rfl⟩
    · obtain ⟨rfl, rfl⟩ : l = before ∧ a = x := by simpa using h
      exact .inl hx
    · have h' : l ++ [a] = (before ++ x :: after) ++ [y] := by simpa using h
      obtain ⟨rfl, he⟩ := List.append_inj' h' rfl
      obtain rfl := List.singleton_inj.mp he
      exact .inr ⟨⟨before, x, after, rfl, hx, fun z hz => hafter z (by simp [hz])⟩,
        hafter a (by simp)⟩
  · rintro (ha | ⟨⟨before, x, after, rfl, hx, hafter⟩, ha⟩)
    · exact ⟨l, a, [], rfl, ha, by simp⟩
    · refine ⟨before, x, after ++ [a], by simp, hx, fun z hz => ?_⟩
      rcases List.mem_append.mp hz with hz | hz
      · exact hafter z hz
      · obtain rfl := List.mem_singleton.mp hz
        exact ha

theorem survives_concat {ops : List StoreOp} {op : StoreOp} {s t : String} {u : Update} :
    Survives (ops ++ [op]) s t u ↔
      op.Leaves s t u ∨ (Survives ops s t u ∧ op.Spares s t u.path) := since_concat

/-! ## What a store holds -/

/-- The update stands at its place. -/
def Holds (st : Store) (s t : String) (u : Update) : Prop :=
  ∃ r, st.row? s t u.path.print = some r ∧ r.update = u

theorem leaves_write_iff {now : ℕ} {s' : String} {e : Envelope} {n : Notification}
    (he : e.notification? = some n) {s t : String} {u : Update} :
    (StoreOp.write now s' e).Leaves s t u ↔
      (s = s' ∧ t = n.target) ∧ n.last? u.path.print = some u := by
  simp only [StoreOp.Leaves, he, Option.some.injEq, Notification.last?_eq_some_iff, true_and]
  constructor
  · rintro ⟨rfl, _, rfl, rfl, h⟩
    exact ⟨⟨rfl, rfl⟩, h⟩
  · rintro ⟨⟨rfl, rfl⟩, h⟩
    exact ⟨rfl, n, rfl, rfl, h⟩

theorem spares_write_iff {now : ℕ} {s' : String} {e : Envelope} {n : Notification}
    (he : e.notification? = some n) {s t : String} {p : Path} :
    (StoreOp.write now s' e).Spares s t p ↔
      (s = s' ∧ t = n.target → n.last? p.print = none ∧ n.erases p = false) := by
  simp only [StoreOp.Spares, he, Option.some.injEq, Notification.last?_eq_none_iff,
    Notification.erases_eq_false_iff]
  constructor
  · rintro h ⟨rfl, rfl⟩
    exact h rfl n rfl rfl
  · rintro h rfl _ rfl rfl
    exact h ⟨rfl, rfl⟩

theorem holds_apply_write {st : Store} {now : ℕ} {s' : String} {e : Envelope} {s t : String}
    {u : Update} : (st.write now s' e).Holds s t u ↔
      (StoreOp.write now s' e).Leaves s t u ∨
        (st.Holds s t u ∧ (StoreOp.write now s' e).Spares s t u.path) := by
  cases he : e.notification? with
  | none => simp [write, he, StoreOp.Leaves, StoreOp.Spares]
  | some n =>
    rw [leaves_write_iff he, spares_write_iff he]
    simp only [Holds, row?_write now s' he]
    by_cases h : s = s' ∧ t = n.target
    · rw [if_pos h, h.1]
      cases hl : n.last? u.path.print with
      | some u' => simp [h, Notification.rowAfter_of_some hl]
      | none =>
        simp only [Notification.rowAfter_of_none hl, Option.filter_eq_some_iff, Bool.not_eq_true',
          h, and_self, reduceCtorEq, and_false, false_or, true_and, forall_const]
        constructor
        · rintro ⟨r, ⟨hr, hd⟩, rfl⟩
          exact ⟨⟨r, hr, rfl⟩, hd⟩
        · rintro ⟨⟨r, hr, rfl⟩, hd⟩
          exact ⟨r, ⟨hr, hd⟩, rfl⟩
    · simp [h]

/-- **One step**: a store holds what the change leaves, and what it held where the change spares
it. -/
theorem holds_apply {st : Store} {op : StoreOp} {s t : String} {u : Update} :
    (op.apply st).Holds s t u ↔ op.Leaves s t u ∨ (st.Holds s t u ∧ op.Spares s t u.path) := by
  cases op with
  | write now s' e => exact holds_apply_write
  | deleteTarget t' =>
    simp only [StoreOp.apply, StoreOp.Leaves, StoreOp.Spares, Holds, row?_deleteTarget, false_or]
    by_cases h : t = t'
    · simp [h]
    · simp [h, Ne.symm h]
  | clear => simp [StoreOp.apply, StoreOp.Leaves, StoreOp.Spares, Holds]

/-- **A store holds what its history leaves.** -/
theorem holds_run (ops : List StoreOp) {s t : String} {u : Update} :
    (run ops {}).Holds s t u ↔ Survives ops s t u := by
  induction ops using List.reverseRec with
  | nil => simp [run, Holds, survives_nil]
  | append_singleton ops op ih => rw [run_concat, holds_apply, survives_concat, ih]

theorem keyed_run (ops : List StoreOp) : (run ops {}).Keyed := by
  induction ops using List.reverseRec with
  | nil => exact keyed_empty
  | append_singleton ops op ih =>
    rw [run_concat]
    cases op with
    | write now s e => exact ih.write now s e
    | deleteTarget t => exact ih.deleteTarget t
    | clear => exact Keyed.clear _

theorem lifetime_apply (op : StoreOp) (st : Store) : (op.apply st).lifetime = st.lifetime := by
  cases op with
  | write now s e => exact st.lifetime_write now s e
  | deleteTarget t => rfl
  | clear => rfl

theorem lifetime_run (ops : List StoreOp) : (run ops {}).lifetime = none := by
  induction ops using List.reverseRec with
  | nil => rfl
  | append_singleton ops op ih => rw [run_concat, lifetime_apply, ih]

/-! ## What is listed -/

theorem mem_updates_listed {st : Store} (hk : st.Keyed) {s : String} {n : Notification}
    (hn : n ∈ listed st.view s) {u : Update} : u ∈ n.updates ↔ st.Holds s n.target u := by
  obtain ⟨sh, hsh, hn⟩ := Option.bind_eq_some_iff.mp (mem_listed.mp hn)
  have hrow : ∀ k, st.row? s n.target k = sh.rows.find? k := fun k => by
    rw [row?, hsh, Option.bind_some]
  rw [Shelf.mem_updates hn]
  constructor
  · rintro ⟨k, r, hr, rfl⟩
    rw [← hrow] at hr
    exact ⟨r, by rw [hk _ _ _ _ hr, hr], rfl⟩
  · rintro ⟨r, hr, rfl⟩
    exact ⟨_, r, by rw [← hrow, hr], rfl⟩

theorem exists_listed_iff {st : Store} (hk : st.Keyed) {s t : String} :
    (∃ n ∈ listed st.view s, n.target = t) ↔ ∃ u, st.Holds s t u := by
  constructor
  · rintro ⟨n, hn, rfl⟩
    obtain ⟨sh, hsh, hsome⟩ := Option.bind_eq_some_iff.mp (mem_listed.mp hn)
    obtain ⟨k, hr⟩ := Shelf.isSome_notification?.mp (Option.isSome_of_eq_some hsome)
    obtain ⟨r, hr⟩ := Option.isSome_iff_exists.mp hr
    exact ⟨r.update, (mem_updates_listed hk hn).mp ((Shelf.mem_updates hsome).mpr ⟨k, r, hr, rfl⟩)⟩
  · rintro ⟨u, r, hr, -⟩
    obtain ⟨sh, hsh, hr⟩ := Option.bind_eq_some_iff.mp hr
    have hsome := (Shelf.isSome_notification? (t := t)).mpr ⟨_, Option.isSome_of_eq_some hr⟩
    obtain ⟨n, hn⟩ := Option.isSome_iff_exists.mp hsome
    have ht := Shelf.target_of_notification? hn
    exact ⟨n, mem_listed.mpr (by rw [ht, notification?, hsh, Option.bind_some, hn]), ht⟩

theorem listed_updates_ascending {st : Store} (hk : st.Keyed) {s : String} {n : Notification}
    (hn : n ∈ listed st.view s) : n.updates.Pairwise fun a b => a.path.print < b.path.print := by
  obtain ⟨sh, hsh, hn⟩ := Option.bind_eq_some_iff.mp (mem_listed.mp hn)
  refine Shelf.updates_ascending hn fun k r hr => hk s n.target k r ?_
  rw [row?, hsh, Option.bind_some, hr]

theorem deletes_listed {st : Store} {s : String} {n : Notification}
    (hn : n ∈ listed st.view s) : n.deletes = [] := by
  obtain ⟨sh, -, hn⟩ := Option.bind_eq_some_iff.mp (mem_listed.mp hn)
  exact Shelf.deletes_of_notification? hn

theorem find?_view_eq_none_iff {st : Store} {s : String} :
    st.view.find? s = none ↔ listed st.view s = [] := by
  rw [find?_view]
  cases listed st.view s <;> simp

theorem shelf?_apply_of_not_concerns {op : StoreOp} {s t : String} (h : ¬ op.Concerns s t)
    (st : Store) : (op.apply st).shelf? s t = st.shelf? s t := by
  cases op with
  | write now s' e =>
    rw [StoreOp.apply]
    rcases write_cases now s' e st with ⟨-, heq⟩ | ⟨n, he, -, heq⟩
    · rw [heq]
    · have hne : ¬ (s = s' ∧ t = n.target) := fun hc => h ⟨hc.1.symm, n, he, hc.2.symm⟩
      rw [heq]
      exact (shelf?_apply now s' n st s t).trans (if_neg hne)
  | deleteTarget t' => exact (shelf?_deleteTarget t' st s t).trans (if_neg (Ne.symm h))
  | clear => exact (h trivial).elim

theorem notification?_apply_of_not_concerns {op : StoreOp} {s t : String} (h : ¬ op.Concerns s t)
    (st : Store) : (op.apply st).notification? s t = st.notification? s t := by
  rw [notification?, notification?, shelf?_apply_of_not_concerns h]

/-- **What is read after a history**: for every target with an update that survives, in byte order
of the targets, one notification with the updates that survive, in byte order of their places, and
without deletes. A change has an effect only where it concerns a subscription and target, and an
idle one has none. -/
theorem read_run (ops : List StoreOp) (now : ℕ) (s : String) :
    let view := ((run ops {}).read now).2
    (view.find? s = none ↔ ∀ t u, ¬ Survives ops s t u) ∧
    (∀ t, (∃ n ∈ listed view s, n.target = t) ↔ ∃ u, Survives ops s t u) ∧
    ((listed view s).Pairwise fun a b => utf8Bytes a.target < utf8Bytes b.target) ∧
    (∀ n ∈ listed view s, n.deletes = [] ∧
      (n.updates.Pairwise fun a b => utf8Bytes a.path.print < utf8Bytes b.path.print) ∧
      ∀ u, u ∈ n.updates ↔ Survives ops s n.target u) ∧
    (∀ op n, ¬ op.Concerns s n.target →
      (n ∈ listed ((run (ops ++ [op]) {}).read now).2 s ↔ n ∈ listed view s)) ∧
    (∀ op, op.IsIdle → run (ops ++ [op]) {} = run ops {}) := by
  have hk := keyed_run ops
  have hread : ∀ ops, ((run ops {}).read now).2 = (run ops {}).view := fun ops =>
    congrArg Prod.snd (read_of_lifetime_none (lifetime_run ops) now)
  simp only [hread, utf8Bytes_lt_iff]
  have htarget : ∀ t, (∃ n ∈ listed (run ops {}).view s, n.target = t) ↔
      ∃ u, Survives ops s t u := fun t => by
    rw [exists_listed_iff hk]
    simp only [holds_run]
  refine ⟨?_, htarget, listed_ascending _ s, fun n hn => ⟨deletes_listed hn,
    listed_updates_ascending hk hn, fun u => ?_⟩, fun op n h => ?_, fun op h => ?_⟩
  · rw [find?_view_eq_none_iff, List.eq_nil_iff_forall_not_mem]
    constructor
    · intro h t u hu
      obtain ⟨n, hn, -⟩ := (htarget t).mpr ⟨u, hu⟩
      exact h n hn
    · intro h n hn
      obtain ⟨u, hu⟩ := (htarget n.target).mp ⟨n, hn, rfl⟩
      exact h _ _ hu
  · rw [mem_updates_listed hk hn, holds_run]
  · rw [mem_listed, mem_listed, run_concat, notification?_apply_of_not_concerns h]
  · rw [run_concat, StoreOp.apply_of_isIdle h]

end Store

end Telemetry
