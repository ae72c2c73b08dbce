import Telemetry.Proofs.Expiring
import Telemetry.Proofs.Receiving

/-!
# The contents, once

A watcher that does not follow is sent what was in the store when it came, and then its stream ends.
The filters apply to rows while the contents are collected, before it is known which targets and
subscriptions have something to list; that gives what one gets by reading everything and filtering
afterwards.

* `Interest.part?`, `Interest.select`: the wanted part of what is read;
* `Notice.bySubscription`: notices as a read returns them;
* `Shelf.bind_part?`, `Store.notifications_eq_filterMap`: one target, and one subscription;
* **`Store.bySubscription_collect`**: collecting with filters, and filtering what is read;
* `Delivery.Serves`: nothing of the contents is lost, with `Serves.act` for one step and
  `Serves.after` for many;
* **`Delivery.taken_once`**: what a watcher that does not follow receives;
  `Delivery.taken_once_mixed`: filters that leave something out.
-/

namespace Telemetry

/-! ## Filtering what was read -/

namespace Interest

/-- The wanted part of a notification that was read, if there is any: the updates at or below one of
the places, or all where there are no places. -/
def part? (i : Interest) (n : Notification) : Option Notification :=
  let updates := n.updates.filter fun u => i.paths = [] ∨ ∃ p ∈ i.paths, p.covers u.path = true
  if i.wantsTarget n.target then if updates.isEmpty then none else some { n with updates } else none

/-- The wanted part of what was read. -/
def select (i : Interest) (v : Table (List Notification)) : Table (List Notification) :=
  v.filterMap fun s ns =>
    let parts := ns.filterMap i.part?
    if i.wantsSubscription s then if parts.isEmpty then none else some parts else none

theorem wantsPath_iff {i : Interest} {p : Path} :
    i.wantsPath p = true ↔ i.paths = [] ∨ ∃ q ∈ i.paths, q.covers p = true := by
  simp only [wantsPath, Bool.or_eq_true, List.isEmpty_iff, List.any_eq_true]

end Interest

/-- The notifications of a subscription, in their order. -/
def Notice.under (s : String) (l : List Notice) : List Notification :=
  (l.filter fun x => x.subscription = s).map Notice.notification

/-- Notices by subscription, those of each in their order. -/
def Notice.bySubscription (l : List Notice) : Table (List Notification) :=
  l.foldl (fun t x => t.upsert x.subscription [] (· ++ [x.notification])) .empty

namespace Notice

theorem under_append (s : String) (l m : List Notice) : under s (l ++ m) = under s l ++ under s m := by
  simp only [under, List.filter_append, List.map_append]

theorem under_map (s s' : String) (ns : List Notification) :
    under s (ns.map (Notice.mk s')) = if s = s' then ns else [] := by
  rw [under, List.filter_map, List.map_map]
  by_cases h : s = s'
  · subst h
    simp [Function.comp_def]
  · simp [Function.comp_def, h, Ne.symm h]

theorem find?_bySubscription (l : List Notice) (s : String) :
    (bySubscription l).find? s = if under s l = [] then none else some (under s l) := by
  induction l using List.reverseRecOn with
  | nil => rfl
  | append_singleton l x ih =>
    have hx : under s [x] = if s = x.subscription then [x.notification] else [] :=
      under_map s x.subscription [x.notification]
    rw [bySubscription, List.foldl_append, List.foldl_cons, List.foldl_nil, ← bySubscription,
      Table.find?_upsert, under_append, hx]
    by_cases h : s = x.subscription
    · subst h
      rw [if_pos rfl, ih]
      by_cases hl : under x.subscription l = [] <;> simp [hl]
    · rw [if_neg h, ih]
      simp [h]

theorem under_flatMap {α : Type} (t : Table α) (g : String → α → List Notification) (s : String) :
    under s (t.rows.flatMap fun r => (g r.1 r.2).map (Notice.mk r.1)) =
      ((t.find? s).map (g s)).getD [] := by
  obtain ⟨l, h⟩ := t
  show under s (l.flatMap _) = ((l.lookup s).map (g s)).getD []
  induction l with
  | nil => rfl
  | cons r l ih =>
    obtain ⟨hr, hl⟩ := List.pairwise_cons.mp h
    rw [List.flatMap_cons, under_append, under_map, ih hl]
    by_cases hs : s = r.1
    · subst hs
      have hnone : l.lookup r.1 = none :=
        List.lookup_eq_none_iff.mpr fun x hx => by
          simpa using fun heq : r.1 = x.1 => String.lt_irrefl _ (heq ▸ hr x hx)
      rw [if_pos rfl, hnone, Table.lookup_cons_of_eq l rfl]
      simp
    · rw [if_neg hs, Table.lookup_cons_of_ne l hs, List.nil_append]

end Notice

/-! ## Filtering while collecting -/

namespace Shelf

variable {i : Interest}

theorem wanted_eq (sh : Shelf) (i : Interest) : sh.wanted i =
    (sh.wanted {}).filter fun u => i.paths = [] ∨ ∃ p ∈ i.paths, p.covers u.path = true := by
  have hall : sh.wanted {} = sh.rows.values.map (·.update) :=
    List.filter_eq_self.mpr fun _ _ => rfl
  rw [hall, wanted]
  refine List.filter_congr fun u _ => ?_
  rw [Bool.eq_iff_iff, Interest.wantsPath_iff, decide_eq_true_eq]

theorem bind_part? (sh : Shelf) (i : Interest) (t : String) :
    (sh.notification? {} t).bind i.part? =
      if i.wantsTarget t then sh.notification? i t else none := by
  rw [notification?_eq_listing, notification?_eq_listing, wanted_eq sh i]
  by_cases hnone : sh.wanted {} = []
  · simp [hnone]
  · have htarget : (sh.listing t (sh.wanted {})).target = t := sh.target_base t
    rw [if_neg (by simpa using hnone), Option.bind_some, Interest.part?, htarget]
    rfl

end Shelf

namespace Store

variable {i : Interest}

theorem notifications_eq_filterMap (i : Interest) (shelves : Table Shelf) :
    notifications i shelves = (notifications {} shelves).filterMap i.part? := by
  have hall : ∀ t, ({} : Interest).wantsTarget t = true := fun _ => rfl
  rw [notifications, notifications, List.filterMap_filterMap]
  refine List.filterMap_congr fun r _ => ?_
  rw [hall, if_pos rfl, Shelf.bind_part?]

/-- **Collecting with filters** lists what is read and filtered afterwards. -/
theorem bySubscription_collect (i : Interest) (st : Store) :
    Notice.bySubscription (st.collect i) = i.select st.view := by
  have hcollect : st.collect i = st.contents.rows.flatMap fun r =>
      (if i.wantsSubscription r.1 then notifications i r.2 else []).map (Notice.mk r.1) := by
    rw [collect]
    refine List.flatMap_congr fun r _ => ?_
    split <;> rfl
  refine Table.ext_find? fun s => ?_
  rw [Notice.find?_bySubscription, hcollect, Notice.under_flatMap st.contents
    fun s shelves => if i.wantsSubscription s then notifications i shelves else [],
    Interest.select, view, Table.find?_filterMap, Table.find?_filterMap]
  cases st.contents.find? s with
  | none => rfl
  | some shelves =>
    simp only [Option.map_some, Option.getD_some, Option.bind_some]
    cases i.wantsSubscription s with
    | false => cases notifications {} shelves <;> simp
    | true =>
      rw [if_pos rfl, notifications_eq_filterMap i shelves]
      cases notifications {} shelves <;> simp

end Store

/-! ## A watcher that does not follow -/

namespace Delivery

/-- Nothing of the contents is lost: the watcher took some, and the rest is on its way. The worker
ends when it has sent them all. -/
structure Serves (contents : List Notice) (d : Delivery) : Prop where
  follow : d.watcher.interest.follow = false
  cancelled : d.watcher.cancelled = false
  dropped : d.watcher.dropped = false
  holding : d.watcher.holding = none
  passed : d.passed = contents
  ended : d.watcher.ended = true → d.watcher.pending = []

variable {contents : List Notice} {d : Delivery} {feed : Feed Notice} {closed : Bool}

theorem serves_start (now : ℕ) {i : Interest} (hfollow : i.follow = false) (st : Store) :
    (start now i st).Serves (st.snapshot now i).2 := by
  have hwatcher : (start now i st).watcher =
      { interest := i, pending := (st.snapshot now i).2, next := st.feed.size } := by
    simp [start, Watcher.start, Interest.wantsContents, hfollow]
  have hpassed : (start now i st).passed = (st.snapshot now i).2 := by
    rw [passed, hwatcher]
    simp [Watcher.onWay, start]
  refine ⟨?_, ?_, ?_, ?_, hpassed, ?_⟩ <;> rw [hwatcher]
  · exact hfollow
  · exact fun h => absurd h Bool.false_ne_true

/-- **One step of the worker** sends the next of the contents, or ends after the last. -/
theorem Serves.act (h : d.Serves contents) {w : Watcher} {signals : List Signal}
    (hact : d.watcher.act feed closed = some (w, signals)) :
    Serves contents { d with watcher := w } := by
  obtain ⟨hfollow, hcancelled, hdropped, hholding, hpassed, hend⟩ := h
  obtain ⟨hended, hadvance⟩ := Watcher.act_advance hact
  cases hadvance with
  | @contents n rest hp =>
    refine ⟨hfollow, hcancelled, hdropped, hholding, ?_, fun h => ?_⟩
    · rw [← hpassed]
      simp [Delivery.passed, Watcher.onWay, hp]
    · simp [hended] at h
  | notice _ hh => simp [hholding] at hh
  | fetched _ _ hf | lagged _ _ hf => simp [hfollow] at hf
  | finished hcause =>
    obtain ⟨hp, -⟩ : d.watcher.pending = [] ∧ _ := by simpa [hcancelled, hdropped] using hcause
    refine ⟨hfollow, hcancelled, hdropped, rfl, ?_, fun _ => rfl⟩
    rw [← hpassed]
    simp [Delivery.passed, Watcher.onWay, Watcher.finish, hp, hholding]

theorem Serves.take (h : d.Serves contents) (k : ℕ) : (d.take k).Serves contents :=
  ⟨h.follow, h.cancelled, h.dropped, h.holding, (passed_take d k).trans h.passed, h.ended⟩

theorem Serves.does (h : d.Serves contents) (e : Event) : (d.does e).Serves contents := by
  cases e with
  | write now s e => exact ⟨h.follow, h.cancelled, h.dropped, h.holding, h.passed, h.ended⟩
  | work =>
    rcases does_work d with heq | ⟨w, signals, hact, heq⟩ <;> rw [heq]
    · exact h
    · exact h.act hact
  | take k => exact h.take k

theorem Serves.after (h : d.Serves contents) (es : List Event) : (d.after es).Serves contents := by
  induction es generalizing d with
  | nil => exact h
  | cons e es ih => exact ih (h.does e)

theorem Serves.taken_eq (h : d.Serves contents) (hclosed : d.watcher.isClosed = true) :
    d.taken = contents := by
  obtain ⟨hended, hqueue⟩ : d.watcher.ended = true ∧ d.watcher.queue = [] := by
    simpa [Watcher.isClosed] using hclosed
  rw [← h.passed, Delivery.passed]
  simp [Watcher.onWay, hqueue, h.ended hended, h.holding]

/-- A worker that has room for what it sends waits only after its end. -/
theorem Serves.isClosed (h : d.Serves contents) (hqueue : d.watcher.queue = [])
    (hwaits : d.watcher.act feed closed = none) : d.watcher.isClosed = true := by
  cases Watcher.waits_of_act hwaits with
  | ended hended => simp [Watcher.isClosed, hended, hqueue]
  | full _ _ hroom =>
    rw [Watcher.hasRoom, hqueue] at hroom
    exact absurd hroom (by decide)
  | caughtUp _ _ hfollow => simp [h.follow] at hfollow

theorem Serves.drained (h : d.Serves contents) :
    d.drained.Serves contents ∧ d.drained.watcher.isClosed = true := by
  have htake : ∀ w taken, Serves contents { d with watcher := w, taken } →
      Serves contents { d with watcher := w.take.1, taken := taken ++ w.queue } := by
    rintro w taken ⟨hfollow, hcancelled, hdropped, hholding, hpassed, hended⟩
    refine ⟨hfollow, hcancelled, hdropped, hholding, ?_, hended⟩
    rw [← hpassed]
    simp [Delivery.passed, Watcher.onWay, Watcher.take]
  have hact : ∀ w w' signals taken, Serves contents { d with watcher := w, taken } →
      w.act d.store.feed false = some (w', signals) →
      Serves contents { d with watcher := w', taken } := fun _ _ _ _ hw hact => hw.act hact
  have hserves : d.drained.Serves contents := Watcher.drainFor_induction
    (P := fun w taken => Serves contents { d with watcher := w, taken }) hact htake _ h
  obtain ⟨hqueue, hwaits⟩ : d.drained.watcher.queue = [] ∧
      d.drained.watcher.act d.store.feed false = none :=
    Watcher.drainFor_rests (Nat.lt_succ_self _)
  exact ⟨hserves, hserves.isClosed hqueue hwaits⟩

/-- **What a watcher that does not follow receives**, whatever is written meanwhile and however the
worker and the watcher take turns. By emptying its queue it gets the contents, which by subscription
are what a read returned when it came, filtered; then its stream is closed. What it has at any time
is the begin of that, and its stream is neither closed before it has all, nor left open. -/
theorem taken_once (now : ℕ) (i : Interest) (st : Store) (es : List Event)
    (hfollow : i.follow = false) :
    let d := (start now i st).after es
    Notice.bySubscription d.drained.taken = i.select (st.read now).2 ∧
      d.drained.watcher.isClosed = true ∧ d.taken <+: d.drained.taken ∧
      (d.watcher.isClosed = true → d.taken = d.drained.taken) ∧
      (d.AtRest → d.watcher.isClosed = true) := by
  intro d
  have hserves : d.Serves (st.snapshot now i).2 := (serves_start now hfollow st).after es
  obtain ⟨hserves', hclosed⟩ := hserves.drained
  have htaken : d.drained.taken = (st.snapshot now i).2 := hserves'.taken_eq hclosed
  refine ⟨?_, hclosed, ?_, fun h => ?_, fun h => hserves.isClosed h.queue h.waits⟩
  · rw [htaken]
    exact Store.bySubscription_collect i (st.prune now)
  · rw [htaken, ← hserves.passed]
    exact List.prefix_append _ _
  · rw [htaken, hserves.taken_eq h]

/-! ## Filters that leave something out -/

/-- Updates of a target at places of one element each. -/
def about (target : String) (names : List String) : Notification :=
  { atPlaces names with base := some (.ofTarget target) }

/-- Two subscriptions, one of them with two targets, and an update that is expired after 10. -/
def mixed : Store := Store.run [
  .write 0 "s" (.update (about "r" ["w"])),
  .write 5 "s" (.update (about "q" ["y"])),
  .write 6 "s" (.update (about "r" ["y", "x"])),
  .write 7 "t" (.update (about "r" ["x"]))] { lifetime := some ⟨10⟩ }

/-- Who asks for some places of one subscription, without following. -/
def someOfS : Interest :=
  { subscription := some "s"
    paths := [{ elements := [⟨"w", .empty⟩] }, { elements := [⟨"x", .empty⟩] }] }

/-- Of the two targets one has something to list, which is not expired at one place. -/
theorem taken_once_mixed : someOfS.follow = false ∧
    let d := (start 11 someOfS mixed).after [.work, .write 12 "s" (.update (about "r" ["w"]))]
    Notice.bySubscription d.drained.taken =
      Table.empty.insert "s" [about "r" ["x"]] ∧ d.drained.watcher.isClosed = true := by
  obtain ⟨htaken, hclosed, -⟩ := taken_once 11 someOfS mixed
    [.work, .write 12 "s" (.update (about "r" ["w"]))] rfl
  exact ⟨rfl, htaken.trans (by decide), hclosed⟩

end Delivery

end Telemetry
