import Mathlib.Data.List.Infix
import Telemetry.Proofs.Delivery

/-!
# What a watcher receives

Writes, steps of the worker and takes of the watcher follow one another in any order. The contents
come first, and then the wanted parts of what was written since, in the order of the writes. Some of
these are lost where the worker falls behind by more than the feed holds, and otherwise none, for
all that few of them fit in the queue.

* `Delivery.Event`, `Delivery.does`, `Delivery.after`: what happens, one after another;
* `Delivery.written`, `Delivery.KeepsUp`: what is written, and that the worker does not fall behind;
* `Delivery.Onward`: what many events keep, with **`Delivery.onward_after`** from
  `Delivery.onward_does`;
* `Delivery.queue_after`, `Delivery.lag_after_le`: the queue stays small, and how far the worker may
  come to be behind;
* `Delivery.drained`, **`Delivery.drained_rests`**: emptying the queue brings all that is to come;
* **`Delivery.taken_after`**: what a watcher has received.
-/

namespace Telemetry

namespace Delivery

/-! ## Runs -/

/-- What happens to a store and its watcher. -/
inductive Event where
  | write (now : ℕ) (subscription : String) (e : Envelope)
  /-- The worker takes a step, if it does not wait. -/
  | work
  /-- The watcher takes the first notices of its queue. -/
  | take (count : ℕ)

/-- The update that is written, if it holds something. -/
def Event.notice? : Event → Option Notice
  | .write _ s e => e.notice? s
  | .work | .take _ => none

/-- The updates that are written, one after another. -/
def written (es : List Event) : List Notice := es.filterMap Event.notice?

/-- The delivery after one event. -/
def does (d : Delivery) : Event → Delivery
  | .write now s e => { d with store := d.store.write now s e }
  | .work =>
    match d.watcher.act d.store.feed false with
    | none => d
    | some (w, _) => { d with watcher := w }
  | .take k => d.take k

/-- The delivery after some events. -/
def after (d : Delivery) (es : List Event) : Delivery := es.foldl does d

/-- By how much the worker is behind the writes. -/
def lag (d : Delivery) : ℕ := d.store.feed.size - d.watcher.next

/-- The worker can fetch whatever comes next. -/
def InReach (d : Delivery) : Prop := d.store.feed.oldest ≤ d.watcher.next

/-- The worker is never further behind than it may be. -/
def KeepsUp (d : Delivery) (es : List Event) : Prop :=
  ∀ es', es' <+: es → (d.after es').lag ≤ noticeCapacity

/-- What a new watcher that follows is sent first. -/
def opening (now : ℕ) (i : Interest) (st : Store) : List Notice :=
  if i.updatesOnly then [] else (st.snapshot now i).2

variable {d d' d'' : Delivery} {more more' : List Notice} {kept kept' : Prop}

theorem after_cons (d : Delivery) (e : Event) (es : List Event) :
    d.after (e :: es) = (d.does e).after es := rfl

theorem does_work (d : Delivery) : d.does .work = d ∨ ∃ w signals,
    d.watcher.act d.store.feed false = some (w, signals) ∧
      d.does .work = { d with watcher := w } := by
  cases h : d.watcher.act d.store.feed false with
  | none => exact .inl (by simp [does, h])
  | some r => exact .inr ⟨r.1, r.2, rfl, by simp [does, h]⟩

/-! ## What is kept -/

/-- From one state to a later one, what the watcher took and what is on its way grows by some of
what was coming and of what is written, and by all of it where nothing is lost. -/
structure Onward (d d' : Delivery) (more : List Notice) (kept : Prop) : Prop where
  interest : d'.watcher.interest = d.watcher.interest
  live : d'.watcher.Live d'.store.feed
  passed : ∃ l, d'.passed = d.passed ++ l ∧ (l ++ d'.coming).Sublist (d.coming ++ more) ∧
    (kept → l ++ d'.coming = d.coming ++ more)

theorem Onward.refl (hlive : d.watcher.Live d.store.feed) (kept : Prop) : Onward d d [] kept :=
  ⟨rfl, hlive, [], by simp, by simp, fun _ => by simp⟩

theorem Onward.trans (h : Onward d d' more kept) (h' : Onward d' d'' more' kept') :
    Onward d d'' (more ++ more') (kept ∧ kept') := by
  obtain ⟨l, hpassed, hsub, hall⟩ := h.passed
  obtain ⟨l', hpassed', hsub', hall'⟩ := h'.passed
  refine ⟨h'.interest.trans h.interest, h'.live, l ++ l', ?_, ?_, fun ⟨hk, hk'⟩ => ?_⟩
  · rw [hpassed', hpassed, List.append_assoc]
  · have hfirst : (l ++ (d'.coming ++ more')).Sublist (d.coming ++ (more ++ more')) := by
      simpa only [List.append_assoc] using hsub.append_right more'
    simpa only [List.append_assoc] using (hsub'.append_left l).trans hfirst
  · rw [List.append_assoc, hall' hk', ← List.append_assoc, hall hk, List.append_assoc]

/-- **One event** adds what it writes, and loses nothing if the worker can fetch what comes next. -/
theorem onward_does (hlive : d.watcher.Live d.store.feed) (e : Event) :
    Onward d (d.does e) (e.notice?.bind d.watcher.interest.narrow).toList d.InReach := by
  cases e with
  | write now s e =>
    have hcoming := Watcher.coming_write (i := d.watcher.interest) hlive.next now s e
    exact ⟨rfl, hlive.write now s e, [], (List.append_nil _).symm, hcoming ▸ .refl _,
      fun _ => hcoming⟩
  | work =>
    rcases does_work d with h | ⟨w, signals, hact, h⟩
    · rw [h]
      exact .refl hlive _
    · obtain ⟨hinterest, hlive', l, honWay, hsub, hall⟩ := Watcher.act_onWay hlive hact
      rw [h]
      refine ⟨hinterest, hlive', l, ?_, ?_, fun hreach => ?_⟩
      · rw [passed, honWay, ← List.append_assoc, passed]
      · simpa [coming, Event.notice?, hinterest] using hsub
      · simpa [coming, Event.notice?, hinterest] using
          hall (Watcher.signals_eq_nil hact hreach)
  | take k =>
    refine ⟨rfl, live_take hlive k, [], ?_, ?_, fun _ => ?_⟩
    · rw [List.append_nil]
      exact passed_take d k
    · exact (List.append_nil _).symm ▸ .refl _
    · exact (List.append_nil _).symm

theorem filterMap_written_cons (i : Interest) (e : Event) (es : List Event) :
    (written (e :: es)).filterMap i.narrow =
      (e.notice?.bind i.narrow).toList ++ (written es).filterMap i.narrow := by
  rw [written, List.filterMap_cons]
  cases e.notice? with
  | none => rfl
  | some x =>
    rw [List.filterMap_cons, Option.bind_some]
    cases i.narrow x <;> rfl

/-- **Many events** add what they write, and lose nothing if the worker can always fetch what comes
next. -/
theorem onward_after (hlive : d.watcher.Live d.store.feed) (es : List Event) :
    Onward d (d.after es) ((written es).filterMap d.watcher.interest.narrow)
      (∀ es', es' <+: es → (d.after es').InReach) := by
  induction es generalizing d with
  | nil => exact .refl hlive _
  | cons e es ih =>
    have hone := onward_does hlive e
    have hrest := hone.trans (ih hone.live)
    rw [hone.interest, ← filterMap_written_cons] at hrest
    obtain ⟨hinterest, hlive', l, hpassed, hsub, hall⟩ := hrest
    refine ⟨hinterest, hlive', l, hpassed, hsub, fun hreach => hall ⟨?_, fun es' hes' => ?_⟩⟩
    · exact hreach [] (List.nil_prefix)
    · exact hreach (e :: es') (List.cons_prefix_cons.mpr ⟨rfl, hes'⟩)

/-! ## Limits -/

theorem capacity_does (d : Delivery) (e : Event) :
    (d.does e).store.feed.capacity = d.store.feed.capacity := by
  cases e with
  | write now s e =>
    cases hx : e.notice? s with
    | none => rw [does, Store.write_of_notice?_none hx]
    | some x =>
      rw [does, (Store.write_of_notice? hx now d.store).2.2]
      rfl
  | work => rcases does_work d with h | ⟨w, signals, -, h⟩ <;> rw [h]
  | take k => rfl

theorem capacity_after (d : Delivery) (es : List Event) :
    (d.after es).store.feed.capacity = d.store.feed.capacity := by
  induction es generalizing d with
  | nil => rfl
  | cons e es ih => rw [after_cons, ih, capacity_does]

theorem inReach_iff (hcapacity : d.store.feed.capacity = noticeCapacity) :
    d.InReach ↔ d.lag ≤ noticeCapacity := by
  unfold InReach lag Feed.oldest
  omega

theorem queue_does (h : d.watcher.queue.length ≤ queueCapacity) (e : Event) :
    (d.does e).watcher.queue.length ≤ queueCapacity := by
  cases e with
  | write now s e => exact h
  | work =>
    rcases does_work d with hd | ⟨w, signals, hact, hd⟩ <;> rw [hd]
    · exact h
    · exact Watcher.length_queue_le_of_act hact h
  | take k => exact (List.drop_sublist _ _).length_le.trans h

theorem queue_after (h : d.watcher.queue.length ≤ queueCapacity) (es : List Event) :
    (d.after es).watcher.queue.length ≤ queueCapacity := by
  induction es generalizing d with
  | nil => exact h
  | cons e es ih => exact ih (queue_does h e)

theorem lag_does_le (d : Delivery) (e : Event) : (d.does e).lag ≤ d.lag + 1 := by
  cases e with
  | write now s e =>
    have hsize := Store.size_feed_write now s e d.store
    have hone : (e.notice? s).toList.length ≤ 1 := by cases e.notice? s <;> simp
    simp only [lag, does]
    omega
  | work =>
    rcases does_work d with h | ⟨w, signals, hact, h⟩ <;> rw [h]
    · exact Nat.le_succ _
    · have hnext := Watcher.next_le_of_act hact
      simp only [lag]
      omega
  | take k => exact Nat.le_succ _

theorem lag_after_le (d : Delivery) (es : List Event) : (d.after es).lag ≤ d.lag + es.length := by
  induction es generalizing d with
  | nil => exact Nat.le_refl _
  | cons e es ih =>
    have hone := lag_does_le d e
    have hrest := ih (d.does e)
    rw [after_cons, List.length_cons]
    omega

theorem KeepsUp.of_length {es : List Event} (h : d.lag + es.length ≤ noticeCapacity) :
    d.KeepsUp es := fun es' hes' =>
  (lag_after_le d es').trans ((Nat.add_le_add_left hes'.length_le _).trans h)

/-! ## Taking all that comes -/

/-- The watcher empties its queue as long as something comes. -/
def drained (d : Delivery) : Delivery :=
  let r := d.watcher.drain d.store.feed false
  { d with watcher := r.1, taken := d.taken ++ r.2.1 }

/-- **All that is to come is received** by who goes on emptying the queue, if the worker can fetch
what comes next. -/
theorem drained_rests (hlive : d.watcher.Live d.store.feed) (hreach : d.InReach) :
    d.drained.AtRest ∧ d.drained.taken = d.sent := by
  let P : Watcher → List Notice → Prop := fun w taken =>
    w.Live d.store.feed ∧ d.store.feed.oldest ≤ w.next ∧ taken ++ w.due d.store.feed = d.sent
  have hact : ∀ w w' signals taken, P w taken →
      w.act d.store.feed false = some (w', signals) → P w' taken := by
    rintro w w' signals taken ⟨hw, hold, hsent⟩ h
    obtain rfl := Watcher.signals_eq_nil h hold
    obtain ⟨-, hw', hdue⟩ := Watcher.act_due hw h
    exact ⟨hw', hold.trans (Watcher.next_le_of_act h), hdue ▸ hsent⟩
  have htake : ∀ w taken, P w taken → P w.take.1 (taken ++ w.queue) := by
    rintro w taken ⟨hw, hold, hsent⟩
    refine ⟨⟨hw.follow, hw.cancelled, hw.dropped, hw.ended, hw.next⟩, hold, ?_⟩
    rw [← hsent]
    simp [Watcher.due, Watcher.take]
  obtain ⟨hw, -, hsent⟩ : P d.drained.watcher d.drained.taken :=
    Watcher.drainFor_induction (P := P) hact htake _ ⟨hlive, hreach, rfl⟩
  obtain ⟨hqueue, hwaits⟩ : d.drained.watcher.queue = [] ∧
      d.drained.watcher.act d.store.feed false = none :=
    Watcher.drainFor_rests (Nat.lt_succ_self _)
  refine ⟨⟨hqueue, hwaits⟩, ?_⟩
  rw [← hsent, Watcher.due_eq_nil hw hqueue hwaits, List.append_nil]

/-! ## What is received -/

section Start

variable {i : Interest} (now : ℕ) (st : Store)

theorem watcher_start (hfollow : i.follow = true) : (start now i st).watcher =
    { interest := i, pending := opening now i st, next := st.feed.size } := by
  cases hupdates : i.updatesOnly <;>
    simp [start, Watcher.start, Interest.wantsContents, opening, hfollow, hupdates]

theorem feed_start (i : Interest) : (start now i st).store.feed = st.feed := by
  unfold start Watcher.start
  split
  · simp only [Store.snapshot, Store.prune]
    split <;> rfl
  · rfl

theorem live_start (hfollow : i.follow = true) :
    (start now i st).watcher.Live (start now i st).store.feed := by
  rw [watcher_start now st hfollow, feed_start]
  exact ⟨hfollow, rfl, rfl, rfl, Nat.le_refl _⟩

theorem passed_start (hfollow : i.follow = true) :
    (start now i st).passed = opening now i st := by
  rw [passed, watcher_start now st hfollow]
  simp [Watcher.onWay, start]

theorem coming_start (hfollow : i.follow = true) : (start now i st).coming = [] := by
  rw [coming, watcher_start now st hfollow, feed_start]
  exact Watcher.coming_eq_nil (Nat.le_refl _)

theorem lag_start (hfollow : i.follow = true) : (start now i st).lag = 0 := by
  rw [lag, watcher_start now st hfollow, feed_start]
  exact Nat.sub_self _

end Start

/-- **What a watcher has received** at any time: a part of the contents from their start, or all of
them, and then some of the wanted parts of what was written since, in order. If the worker keeps up,
nothing is missing at rest, and emptying the queue leads there. -/
theorem taken_after (now : ℕ) (i : Interest) (st : Store) (es : List Event)
    (hfollow : i.follow = true) (hcapacity : st.feed.capacity = noticeCapacity) :
    let d := (start now i st).after es
    let live := (written es).filterMap i.narrow
    (d.taken <+: opening now i st ∨
        ∃ l, d.taken = opening now i st ++ l ∧ l.Sublist live) ∧
      d.watcher.queue.length ≤ queueCapacity ∧
      ((start now i st).KeepsUp es →
        (d.AtRest → d.taken = opening now i st ++ live) ∧
          d.drained.AtRest ∧ d.drained.taken = opening now i st ++ live) := by
  intro d live
  have hwatcher := watcher_start now st hfollow
  obtain ⟨-, hlive, l, hpassed, hsub, hall⟩ := onward_after (live_start now st hfollow) es
  rw [passed_start now st hfollow] at hpassed
  rw [coming_start now st hfollow, List.nil_append, hwatcher] at hsub hall
  refine ⟨?_, queue_after (by simp [hwatcher]) es, fun hkeeps => ?_⟩
  · have htaken : d.taken <+: opening now i st ++ l := hpassed ▸ List.prefix_append _ _
    rcases List.prefix_or_prefix_of_prefix htaken (List.prefix_append _ _) with hpart | ⟨l', hl'⟩
    · exact .inl hpart
    · refine .inr ⟨l', hl'.symm, ?_⟩
      have hl : l' <+: l := (List.prefix_append_right_inj _).mp (hl' ▸ htaken)
      exact hl.sublist.trans ((List.sublist_append_left _ _).trans hsub)
  · have hcap : ∀ es', ((start now i st).after es').store.feed.capacity = noticeCapacity :=
      fun es' => by rw [capacity_after, feed_start, hcapacity]
    have hreach : ∀ es', es' <+: es → ((start now i st).after es').InReach :=
      fun es' hes' => (inReach_iff (hcap es')).mpr (hkeeps es' hes')
    have hsent : d.sent = opening now i st ++ live := by
      rw [sent_eq, hpassed, List.append_assoc, hall hreach]
    obtain ⟨hrests, htaken⟩ := drained_rests hlive (hreach es (List.prefix_refl _))
    exact ⟨fun hrest => (hrest.sent_eq hlive).symm.trans hsent, hrests, htaken.trans hsent⟩

/-! ## A filtered watcher -/

/-- Updates at places of one element each. -/
def atPlaces (names : List String) : Notification where
  updates := names.map fun name => { path := { elements := [⟨name, .empty⟩] } }

/-- Who watches one place. -/
def onlyX : Interest := { paths := [{ elements := [⟨"x", .empty⟩] }], follow := true }

/-- A store that was written to. -/
def filled : Store := ({} : Store).write 0 "s" (.update (atPlaces ["x", "y"]))

/-- A write that is wanted in part, two that are not, and what the worker and the watcher do. -/
def traffic : List Event :=
  [.work, .write 1 "s" (.update (atPlaces ["y", "x"])), .write 2 "s" (.syncResponse true), .take 1,
    .write 3 "s" (.update (atPlaces ["y"])), .work, .work, .work, .take 2]

/-- The contents come first, and then the wanted part of one write. -/
theorem taken_after_traffic : filled.feed.capacity = noticeCapacity ∧
    (start 1 onlyX filled).KeepsUp traffic ∧ ((start 1 onlyX filled).after traffic).AtRest ∧
    ((start 1 onlyX filled).after traffic).taken =
      [⟨"s", atPlaces ["x"]⟩, ⟨"s", atPlaces ["x"]⟩] := by
  have hkeeps : (start 1 onlyX filled).KeepsUp traffic :=
    .of_length (by rw [lag_start 1 filled rfl]; decide)
  have hrest : ((start 1 onlyX filled).after traffic).AtRest := ⟨rfl, rfl⟩
  obtain ⟨-, -, hall⟩ := taken_after 1 onlyX filled traffic rfl rfl
  refine ⟨rfl, hkeeps, hrest, ((hall hkeeps).1 hrest).trans ?_⟩
  decide

end Delivery

end Telemetry
