import Mathlib.Data.Nat.Notation
import Telemetry.Proofs.Shelf
import Telemetry.Proofs.Worker

/-!
# Delivery to a watcher

A store is written to, a worker puts notices into a queue, and a watcher takes them out, in any
order. While the worker does not lag, nothing is lost on the way and nothing changes places: what
the watcher took and what is still to come grows by the wanted part of each write, and by nothing
else.

* `Envelope.notice?`, `Store.write_of_notice?`: what a write adds to the feed;
* `Watcher.coming_write`: and to what a watcher has to expect;
* `Delivery`, `Delivery.Step`: a store with one watcher, and one step;
* `Delivery.passed`, `Delivery.sent`: what the watcher took, with what is on its way, and with all
  that is still to come;
* **`Delivery.Step.sent`**: what one step adds.
-/

namespace Telemetry

/-! ## What a write adds to the feed -/

theorem Envelope.eq_update {e : Envelope} {n : Notification} (h : e.notification? = some n) :
    e = .update n := by
  cases e with
  | update n' => rw [Option.some.inj (show some n' = some n from h)]
  | syncResponse | error => cases h

/-- The update that is written, if it holds something. -/
def Envelope.notice? (s : String) (e : Envelope) : Option Notice :=
  (e.notification?.filter fun n => !n.isEmpty).map fun n => ⟨s, n⟩

section Feed

variable {s : String} {e : Envelope} {x : Notice}

theorem Store.write_of_notice?_none (h : e.notice? s = none) (now : ℕ) (st : Store) :
    st.write now s e = st := by
  refine Store.write_of_idle now s (fun n hn => ?_) st
  simpa [Envelope.notice?, hn] using h

theorem Store.write_of_notice? (h : e.notice? s = some x) (now : ℕ) (st : Store) :
    s = x.subscription ∧ e = .update x.notification ∧
      (st.write now s e).feed = st.feed.push x := by
  obtain ⟨n, hn, rfl⟩ := Option.map_eq_some_iff.mp h
  obtain ⟨he, hne⟩ := Option.filter_eq_some_iff.mp hn
  refine ⟨rfl, Envelope.eq_update he, ?_⟩
  rw [Store.write_update now s he (by simpa using hne)]
  rfl

theorem Store.size_feed_write (now : ℕ) (s : String) (e : Envelope) (st : Store) :
    (st.write now s e).feed.size = st.feed.size + (e.notice? s).toList.length := by
  cases h : e.notice? s with
  | none => rw [Store.write_of_notice?_none h, Option.toList_none, List.length_nil, Nat.add_zero]
  | some x =>
    rw [(Store.write_of_notice? h now st).2.2, Feed.size_push, Option.toList_some,
      List.length_singleton]

/-- The wanted part of what is written comes after what is coming already. -/
theorem Watcher.coming_write {st : Store} {i : Interest} {next : ℕ} (h : next ≤ st.feed.size)
    (now : ℕ) (s : String) (e : Envelope) : coming (st.write now s e).feed i next =
      coming st.feed i next ++ ((e.notice? s).bind i.narrow).toList := by
  cases hx : e.notice? s with
  | none =>
    rw [Store.write_of_notice?_none hx, Option.bind_none, Option.toList_none, List.append_nil]
  | some x => rw [(Store.write_of_notice? hx now st).2.2, coming_push h, Option.bind_some]

theorem Watcher.Live.write {st : Store} {w : Watcher} (h : w.Live st.feed) (now : ℕ) (s : String)
    (e : Envelope) : w.Live (st.write now s e).feed := by
  obtain ⟨hfollow, hcancelled, hdropped, hended, hnext⟩ := h
  refine ⟨hfollow, hcancelled, hdropped, hended, ?_⟩
  rw [Store.size_feed_write]
  exact Nat.le_add_right_of_le hnext

end Feed

/-! ## One watcher -/

/-- A store with one watcher, and what the watcher took from its queue so far. -/
structure Delivery where
  store : Store
  watcher : Watcher
  taken : List Notice := []

namespace Delivery

/-- A new watcher of a store. -/
def start (now : ℕ) (i : Interest) (st : Store) : Delivery where
  store := (Watcher.start now i st).1
  watcher := (Watcher.start now i st).2

/-- One step: a write of what `MayWrite` allows, a step of the worker that does not lag, or the
watcher takes the first notices of its queue. -/
inductive Step (MayWrite : Store → Notice → Prop) : Delivery → Delivery → Prop where
  | write {d : Delivery} (now : ℕ) (s : String) (e : Envelope) :
      (∀ n, e.notification? = some n → MayWrite d.store ⟨s, n⟩) →
      Step MayWrite d { d with store := d.store.write now s e }
  | work {d : Delivery} {w : Watcher} : d.watcher.act d.store.feed false = some (w, []) →
      Step MayWrite d { d with watcher := w }
  | take {d : Delivery} (k : ℕ) : Step MayWrite d
      { d with
        watcher := { d.watcher with queue := d.watcher.queue.drop k }
        taken := d.taken ++ d.watcher.queue.take k }

/-- Nothing is left to be taken, and the worker waits. -/
structure AtRest (d : Delivery) : Prop where
  queue : d.watcher.queue = []
  waits : d.watcher.act d.store.feed false = none

/-- What the watcher took, and what is on its way. -/
def passed (d : Delivery) : List Notice := d.taken ++ d.watcher.onWay

/-- What the worker has not fetched yet. -/
def coming (d : Delivery) : List Notice :=
  Watcher.coming d.store.feed d.watcher.interest d.watcher.next

/-- What the watcher took, and what is still to come. -/
def sent (d : Delivery) : List Notice := d.taken ++ d.watcher.due d.store.feed

variable {MayWrite : Store → Notice → Prop} {d d' : Delivery}

theorem sent_eq (d : Delivery) : d.sent = d.passed ++ d.coming := by
  rw [sent, Watcher.due_eq, passed, coming, List.append_assoc]

/-- The watcher takes the first notices of its queue. -/
def take (d : Delivery) (k : ℕ) : Delivery :=
  { d with
    watcher := { d.watcher with queue := d.watcher.queue.drop k }
    taken := d.taken ++ d.watcher.queue.take k }

theorem passed_take (d : Delivery) (k : ℕ) : (d.take k).passed = d.passed := by
  have hqueue := List.take_append_drop k d.watcher.queue
  simp only [passed, Watcher.onWay, take, List.append_assoc]
  rw [← List.append_assoc (d.watcher.queue.take k), hqueue]

theorem live_take (h : d.watcher.Live d.store.feed) (k : ℕ) :
    (d.take k).watcher.Live d.store.feed :=
  ⟨h.follow, h.cancelled, h.dropped, h.ended, h.next⟩

theorem AtRest.sent_eq (h : d.AtRest) (hlive : d.watcher.Live d.store.feed) : d.sent = d.taken := by
  rw [sent, Watcher.due_eq_nil hlive h.queue h.waits, List.append_nil]

/-- What a step adds to what is sent: the wanted part of what it writes. -/
inductive Adds (MayWrite : Store → Notice → Prop) (i : Interest) (d d' : Delivery) : Prop where
  | nothing : d'.store = d.store → d'.sent = d.sent → Adds MayWrite i d d'
  | notice {now : ℕ} {x : Notice} : MayWrite d.store x →
      d'.store = d.store.write now x.subscription (.update x.notification) →
      d'.sent = d.sent ++ (i.narrow x).toList → Adds MayWrite i d d'

/-- **What one step adds.** -/
theorem Step.sent (h : Step MayWrite d d') (hlive : d.watcher.Live d.store.feed) :
    d'.watcher.interest = d.watcher.interest ∧ d'.watcher.Live d'.store.feed ∧
      Adds MayWrite d.watcher.interest d d' := by
  cases h with
  | write now s e hmay =>
    refine ⟨rfl, hlive.write now s e, ?_⟩
    cases hx : e.notice? s with
    | none =>
      have hsame := Store.write_of_notice?_none hx now d.store
      exact .nothing hsame (by rw [hsame])
    | some x =>
      obtain ⟨rfl, rfl, -⟩ := Store.write_of_notice? hx now d.store
      refine .notice (hmay x.notification rfl) rfl ?_
      rw [sent_eq, sent_eq, coming, Watcher.coming_write hlive.next, hx, ← List.append_assoc]
      rfl
  | work hact =>
    obtain ⟨hinterest, hlive', hdue⟩ := Watcher.act_due hlive hact
    exact ⟨hinterest, hlive', .nothing rfl (by simp only [Delivery.sent, hdue])⟩
  | take k =>
    exact ⟨rfl, live_take hlive k, .nothing rfl (by rw [sent_eq, sent_eq, ← passed_take d k]; rfl)⟩

end Delivery

end Telemetry
