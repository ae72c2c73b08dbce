import Telemetry.Proofs.Receiving

/-!
# Cancelling a watcher

A worker looks at its cancellation whenever it is about to send contents or to fetch, and it ends
there. It does not look while it holds a notice from the feed: with room in the queue it sends the
notice first, and without room it stays where it is, for as long as the watcher neither takes
anything nor goes away.

* `Watcher.Stuck`: a notice in hand and no room for it;
* **`Watcher.act_eq_none_iff`**: a cancelled worker waits only there;
  `Watcher.ended_runFor_two`: from anywhere else it ends within two steps;
* `Delivery.Incident`, `Delivery.through`: events, and cancelling or dropping the watcher;
* `Delivery.queue_through`, `Delivery.watcher_through`: the queue stays small, and a stuck worker
  stays stuck;
* **`Delivery.ends_of_cancelled`**: when a cancelled worker can end;
* `Delivery.ends_of_cancelled_holding`, `Delivery.not_ends_of_cancelled`: one that can, and one that
  cannot.
-/

namespace Telemetry

/-! ## A cancelled worker -/

namespace Watcher

/-- The worker holds a notice from the feed, there is no room for it, and the watcher is there. -/
structure Stuck (w : Watcher) : Prop where
  pending : w.pending = []
  holding : w.holding ≠ none
  room : w.hasRoom = false
  dropped : w.dropped = false

variable {feed : Feed Notice} {closed : Bool} {w w' : Watcher} {signals : List Signal}

/-- **A cancelled worker that has not ended waits only where it is stuck.** -/
theorem act_eq_none_iff (feed : Feed Notice) (closed : Bool) (hcancelled : w.cancelled = true)
    (hended : w.ended = false) :
    w.act feed closed = none ↔ w.Stuck := by
  constructor
  · intro h
    cases waits_of_act h with
    | ended h => simp [hended] at h
    | full hwhat hdropped hroom =>
      rcases hwhat with ⟨-, h⟩ | ⟨hpending, hholding⟩
      · simp [hcancelled] at h
      · exact ⟨hpending, hholding, hroom, hdropped⟩
    | caughtUp _ _ _ h => simp [hcancelled] at h
  · rintro ⟨hpending, hholding, hroom, hdropped⟩
    obtain ⟨n, hn⟩ := Option.ne_none_iff_exists'.mp hholding
    simp [act, hended, hpending, hn, hdropped, hroom]

theorem act_of_idle (hcancelled : w.cancelled = true) (hended : w.ended = false)
    (hpending : w.pending = []) (hholding : w.holding = none) :
    w.act feed closed = some (w.finish, []) := by
  simp [act, hcancelled, hended, hpending, hholding]

theorem act_of_cancelled (hcancelled : w.cancelled = true)
    (h : w.act feed closed = some (w', signals)) : signals = [] ∧
      (w' = w.finish ∨ w'.cancelled = true ∧ w'.ended = false ∧ w'.pending = [] ∧
        w'.holding = none) := by
  obtain ⟨hended, hadvance⟩ := act_advance h
  cases hadvance with
  | contents _ hnot | fetched _ _ _ hnot | lagged _ _ _ hnot => simp [hcancelled] at hnot
  | notice hpending => exact ⟨rfl, .inr ⟨hcancelled, hended, hpending, rfl⟩⟩
  | finished => exact ⟨rfl, .inl rfl⟩

/-- **A cancelled worker that is not stuck ends within two steps**, whatever the feed holds. -/
theorem ended_runFor_two (hcancelled : w.cancelled = true) (hended : w.ended = false)
    (hfree : ¬ w.Stuck) : (w.runFor feed closed 2).1.ended = true := by
  obtain ⟨⟨w', signals⟩, hact⟩ := Option.ne_none_iff_exists'.mp
    (mt (act_eq_none_iff feed closed hcancelled hended).mp hfree)
  rw [runFor, hact]
  dsimp only
  obtain ⟨-, rfl | ⟨hcancelled', hended', hpending, hholding⟩⟩ := act_of_cancelled hcancelled hact
  · have hover : w.finish.act feed closed = none := by simp [act, finish]
    rw [runFor, hover]
    rfl
  · rw [runFor, act_of_idle hcancelled' hended' hpending hholding]
    rfl

end Watcher

/-! ## Runs with cancellation -/

namespace Delivery

/-- What happens to a store and its watcher, who may also cancel or go away. -/
inductive Incident where
  | event (e : Event)
  | cancel
  | drop

/-- The watcher has no part in it: a write, a step of the worker, or a cancellation. -/
def Incident.Aside : Incident → Prop
  | event (.take _) | drop => False
  | event (.write ..) | event .work | cancel => True

/-- The delivery after one incident. -/
def meets (d : Delivery) : Incident → Delivery
  | .event e => d.does e
  | .cancel => { d with watcher := d.watcher.cancel }
  | .drop => { d with watcher := d.watcher.drop }

/-- The delivery after some incidents. -/
def through (d : Delivery) (ls : List Incident) : Delivery := ls.foldl meets d

variable {d : Delivery}

theorem through_append (d : Delivery) (ls ls' : List Incident) :
    d.through (ls ++ ls') = (d.through ls).through ls' :=
  List.foldl_append

theorem queue_meets (h : d.watcher.queue.length ≤ queueCapacity) (l : Incident) :
    (d.meets l).watcher.queue.length ≤ queueCapacity := by
  cases l with
  | event e => exact queue_does h e
  | cancel => exact h
  | drop => exact Nat.zero_le _

theorem queue_through (h : d.watcher.queue.length ≤ queueCapacity) (ls : List Incident) :
    (d.through ls).watcher.queue.length ≤ queueCapacity := by
  induction ls generalizing d with
  | nil => exact h
  | cons l ls ih => exact ih (queue_meets h l)

theorem queue_start (now : ℕ) (i : Interest) (st : Store) :
    (start now i st).watcher.queue = [] := by
  unfold start Watcher.start
  split <;> rfl

theorem watcher_meets (hcancelled : d.watcher.cancelled = true) (hended : d.watcher.ended = false)
    (hstuck : d.watcher.Stuck) {l : Incident} (hl : l.Aside) :
    (d.meets l).watcher = d.watcher := by
  match l with
  | .event (.write ..) => rfl
  | .event .work =>
    have hwaits := (Watcher.act_eq_none_iff d.store.feed false hcancelled hended).mpr hstuck
    rcases does_work d with h | ⟨w, signals, hact, -⟩
    · exact congrArg watcher h
    · rw [hwaits] at hact
      cases hact
  | .cancel => rw [meets, Watcher.cancel, ← hcancelled]

/-- **A stuck worker stays stuck** until the watcher takes something or goes away. -/
theorem watcher_through (hcancelled : d.watcher.cancelled = true)
    (hended : d.watcher.ended = false) (hstuck : d.watcher.Stuck) {ls : List Incident}
    (hls : ∀ l ∈ ls, l.Aside) : (d.through ls).watcher = d.watcher := by
  induction ls using List.reverseRecOn with
  | nil => rfl
  | append_singleton ls l ih =>
    have hsame := ih fun l' hl' => hls l' (List.mem_append_left _ hl')
    rw [through_append]
    refine (watcher_meets ?_ ?_ ?_ (hls l (by simp))).trans hsame <;> rwa [hsame]

/-- **When a cancelled worker can end**: wherever it stands, after whatever happened before, it can
take a step, and two steps of its own bring it to its end, unless it is stuck. Then the queue is
full, and neither the worker nor writes change that. -/
theorem ends_of_cancelled (now : ℕ) (i : Interest) (st : Store) (ls : List Incident)
    (closed : Bool) :
    let d := (start now i st).through ls
    d.watcher.cancelled = true → d.watcher.ended = false →
      ((d.watcher.act d.store.feed closed).isSome = true ↔ ¬ d.watcher.Stuck) ∧
      (¬ d.watcher.Stuck → ∀ feed, (d.watcher.runFor feed closed 2).1.ended = true) ∧
      (d.watcher.Stuck → d.watcher.queue.length = queueCapacity ∧
        ∀ ls', (∀ l ∈ ls', l.Aside) → (d.through ls').watcher = d.watcher) := by
  intro d hcancelled hended
  refine ⟨?_, fun hfree feed => Watcher.ended_runFor_two hcancelled hended hfree,
    fun hstuck => ⟨?_, fun ls' => watcher_through hcancelled hended hstuck⟩⟩
  · rw [Option.isSome_iff_ne_none, ne_eq, Watcher.act_eq_none_iff _ _ hcancelled hended]
  · have hroom : queueCapacity ≤ d.watcher.queue.length := by
      simpa [Watcher.hasRoom] using hstuck.room
    have hqueue : d.watcher.queue.length ≤ queueCapacity :=
      queue_through (by simp [queue_start]) ls
    exact Nat.le_antisymm hqueue hroom

/-! ## A worker that can end -/

/-- A write, which the worker has fetched when it is cancelled. -/
def interrupted : List Incident :=
  [.event (.write 0 "s" (.update (atPlaces ["x"]))), .event .work, .cancel]

/-- Cancelled with a notice in hand and room for it, the worker sends the notice and ends. -/
theorem ends_of_cancelled_holding :
    let d := (start 0 { follow := true } {}).through interrupted
    d.watcher.cancelled = true ∧ d.watcher.ended = false ∧ d.watcher.holding ≠ none ∧
      (d.watcher.act d.store.feed false).isSome = true ∧
      (d.watcher.runFor d.store.feed false 2).1.ended = true := by
  have hfree : ¬ ((start 0 { follow := true } {}).through interrupted).watcher.Stuck :=
    fun h => absurd h.room (by decide)
  obtain ⟨hact, hends, -⟩ :=
    ends_of_cancelled 0 { follow := true } {} interrupted false (by decide) (by decide)
  exact ⟨by decide, by decide, by decide, hact.mpr hfree, hends hfree _⟩

/-! ## A worker that cannot -/

/-- What is written again and again. -/
def spot : Notice := ⟨"s", atPlaces ["x"]⟩

/-- The store with one more write. -/
def marked (st : Store) : Store := st.write 0 spot.subscription (.update spot.notification)

/-- One write, and two steps of the worker. -/
def round : List Incident :=
  [.event (.write 0 spot.subscription (.update spot.notification)), .event .work, .event .work]

/-- A store, and a worker that has fetched all of its feed. -/
def upToDate (st : Store) (queue : List Notice) (holding : Option Notice) : Delivery where
  store := st
  watcher := { interest := { follow := true }, pending := [], next := st.feed.size, queue, holding }

theorem feed_marked (st : Store) : (marked st).feed = st.feed.push spot :=
  (Store.write_of_notice? (e := .update spot.notification) rfl 0 st).2.2

theorem fetch_marked {st : Store} (h : st.feed.capacity = noticeCapacity) :
    (marked st).feed.fetch st.feed.size = .item spot := by
  rw [feed_marked, Feed.fetch_eq_item_iff]
  refine ⟨?_, by simp [Feed.push, Feed.size]⟩
  have hcapacity : (st.feed.push spot).capacity = 1024 := h
  rw [Feed.oldest, hcapacity, Feed.size_push]
  omega

theorem does_fetch {st : Store} (h : st.feed.capacity = noticeCapacity) (queue : List Notice) :
    ((upToDate st queue none).does (.write 0 spot.subscription (.update spot.notification))).does
      .work = upToDate (marked st) queue (some spot) := by
  have hfetch := fetch_marked h
  have hsize : (marked st).feed.size = st.feed.size + 1 := by rw [feed_marked, Feed.size_push]
  rw [marked] at hfetch hsize
  simp [upToDate, does, Watcher.act, hfetch, hsize, marked, Interest.narrow,
    Interest.wantsSubscription, Interest.wantsTarget]

theorem through_round {st : Store} (h : st.feed.capacity = noticeCapacity) (queue : List Notice) :
    (upToDate st queue none).through round =
      if queue.length < queueCapacity then upToDate (marked st) (queue ++ [spot]) none
      else upToDate (marked st) queue (some spot) := by
  have hfirst : (upToDate st queue none).through round =
      (upToDate (marked st) queue (some spot)).does .work := by
    rw [← does_fetch h]
    rfl
  rw [hfirst]
  by_cases hroom : queue.length < queueCapacity
  · simp [upToDate, does, Watcher.act, Watcher.hasRoom, hroom]
  · simp [upToDate, does, Watcher.act, Watcher.hasRoom, hroom]

theorem through_rounds {st : Store} (h : st.feed.capacity = noticeCapacity) (queue : List Notice)
    (count : ℕ) (hcount : queue.length + count ≤ queueCapacity) :
    ∃ st', st'.feed.capacity = noticeCapacity ∧
      (upToDate st queue none).through (List.replicate count round).flatten =
        upToDate st' (queue ++ List.replicate count spot) none := by
  induction count generalizing st queue with
  | zero => exact ⟨st, h, by simp [through]⟩
  | succ count ih =>
    have hmarked : (marked st).feed.capacity = noticeCapacity := by rw [feed_marked]; exact h
    obtain ⟨st', hst', hthrough⟩ := ih hmarked (queue ++ [spot])
      (by rw [List.length_append, List.length_singleton]; omega)
    refine ⟨st', hst', ?_⟩
    rw [List.replicate_succ, List.flatten_cons, through_append, through_round h,
      if_pos (by omega), hthrough, List.append_assoc]
    rfl

/-- One write more than the queue holds, and then the watcher cancels. -/
def flood : List Incident := (List.replicate (queueCapacity + 1) round).flatten ++ [.cancel]

/-- **A cancelled worker that cannot end**: the queue is full, a notice is in hand, and there is no
step. -/
theorem not_ends_of_cancelled :
    let d := (start 0 { follow := true } {}).through flood
    d.watcher.cancelled = true ∧ d.watcher.ended = false ∧
      d.watcher.queue.length = queueCapacity ∧ d.watcher.act d.store.feed false = none := by
  have hcapacity : ({} : Store).feed.capacity = noticeCapacity := rfl
  obtain ⟨st, hst, hfull⟩ := through_rounds hcapacity [] queueCapacity (by simp)
  have hthrough : (start 0 { follow := true } {}).through flood =
      (upToDate (marked st) (List.replicate queueCapacity spot) (some spot)).meets .cancel := by
    have hstart : start 0 { follow := true } {} = upToDate {} [] none := rfl
    rw [flood, List.replicate_succ', List.flatten_append, List.append_assoc, through_append,
      hstart, hfull, List.flatten_singleton, through_append, List.nil_append, through_round hst,
      if_neg (by simp)]
    rfl
  rw [hthrough]
  have hstuck : ((upToDate (marked st) (List.replicate queueCapacity spot) (some spot)).meets
      .cancel).watcher.Stuck := ⟨rfl, by simp [upToDate, meets, Watcher.cancel], by
      simp [upToDate, meets, Watcher.cancel, Watcher.hasRoom], rfl⟩
  exact ⟨rfl, rfl, by simp [upToDate, meets, Watcher.cancel],
    (Watcher.act_eq_none_iff _ _ rfl rfl).mpr hstuck⟩

end Delivery

end Telemetry
