import Mathlib.Data.Nat.Notation
import Telemetry.Bus.Network
import Telemetry.Node.Loops

/-!
# Listening on a network

Over an open line everything that is published arrives on the bus, and every subscription gives a
stream that starts with the next message. A stream that is open stays open as long as its socket
does, and only whoever listens to it moves it on.

* `Network.Open`: a line without faults, on which channels keep their names;
* `Network.Later`: what stays true of a network as long as nobody closes anything;
* **`Bus.receive_reached`**: all that one step of a stream can do;
* **`Listener.act_listening`**: one step of an open stream;
* **`Listener.act_of_not_listening`**: a subscription.
-/

namespace Telemetry

/-! ## Open lines -/

namespace Network

variable {a b c : Network} {link : ℕ}

/-- The line has no faults and does not map the names of channels, and its socket is open. -/
structure Open (a : Network) (link : ℕ) : Prop where
  mapped : (a.line link).mapped = false
  faults : (a.line link).faults = {}
  socket : a.isClosed link = false

theorem Open.inbound (h : a.Open link) : Medium.inbound a link = id := by
  funext channel
  simp [Medium.inbound, Line.name, h.mapped]

theorem Open.delay (h : a.Open link) : Medium.delay a link = 0 := by
  simp [Medium.delay, h.faults]

def put (a : Network) (m : Message) : Network := { a with bus := a.bus.put m }

def pushStream (a : Network) (st : Stream) : Network :=
  { a with bus := { a.bus with streams := a.bus.streams.push st } }

def setStream (a : Network) (σ : ℕ) (st : Stream) : Network :=
  { a with bus := a.bus.setStream σ st }

theorem Open.publish (h : a.Open link) (m : Message) :
    Medium.publish a link m = (a.put m, .ok ()) := by
  have hclosed : a.bus.isClosed (a.line link).socket = false := h.socket
  simp [Medium.publish, Network.publish, h.faults, Bus.publish, hclosed, Line.name, h.mapped, put]

theorem Open.subscribe (h : a.Open link) (t : Topic) :
    Medium.subscribe a link t =
      (a.pushStream { socket := (a.line link).socket, topic := t, next := a.bus.feed.size },
        .ok a.bus.streams.size) := by
  have hclosed : a.bus.isClosed (a.line link).socket = false := h.socket
  have htopic : (a.line link).topic t = t := by
    cases t <;> simp [Line.topic, Line.name, h.mapped]
  simp [Medium.subscribe, Network.subscribe, h.faults, Bus.subscribe, hclosed, htopic, pushStream]

/-! ## Later networks -/

structure Reads (a : Network) (st : Stream) : Prop where
  phase : st.phase ≠ .ended
  socket : a.bus.isClosed st.socket = false
  next : st.next ≤ a.bus.log.length

/-- Lines and sockets stay as they are, messages are only added, and streams stay open. -/
structure Later (a b : Network) : Prop where
  lines : b.lines = a.lines
  sockets : b.bus.sockets = a.bus.sockets
  log : a.bus.log <+: b.bus.log
  streams : ∀ (σ : ℕ) st, a.bus.streams[σ]? = some st → ∃ st', b.bus.streams[σ]? = some st' ∧
    st'.topic = st.topic ∧ st'.socket = st.socket ∧ (a.Reads st → b.Reads st')

theorem Later.isOpen (h : Later a b) (hopen : a.Open link) : b.Open link := by
  have hline : b.line link = a.line link := by
    rw [line, line, h.lines, h.sockets]
  refine ⟨by rw [hline, hopen.mapped], by rw [hline, hopen.faults], ?_⟩
  rw [isClosed, hline, Bus.isClosed, h.sockets]
  exact hopen.socket

theorem Reads.later {st : Stream} (h : a.Reads st) (hsock : b.bus.sockets = a.bus.sockets)
    (hlog : a.bus.log <+: b.bus.log) : b.Reads st where
  phase := h.phase
  socket := by
    rw [Bus.isClosed, hsock]
    exact h.socket
  next := Nat.le_trans h.next hlog.length_le

theorem Later.of_streams (hlines : b.lines = a.lines) (hsock : b.bus.sockets = a.bus.sockets)
    (hlog : a.bus.log <+: b.bus.log) (hstreams : b.bus.streams = a.bus.streams) : Later a b where
  lines := hlines
  sockets := hsock
  log := hlog
  streams σ st hst := ⟨st, by rw [hstreams, hst], rfl, rfl, fun h => h.later hsock hlog⟩

theorem Later.refl (a : Network) : Later a a := .of_streams rfl rfl (List.prefix_refl _) rfl

theorem log_put (bus : Bus) (m : Message) : (bus.put m).log = bus.log ++ [m] := by
  simp [Bus.log, Bus.put, Feed.push]

theorem later_put (a : Network) (m : Message) : Later a (a.put m) :=
  .of_streams rfl rfl (by rw [put, log_put]; exact List.prefix_append _ _) rfl

theorem later_push (a : Network) (st : Stream) :
    Later a (a.pushStream st) where
  lines := rfl
  sockets := rfl
  log := List.prefix_refl _
  streams σ st' hst := by
    have hlt := (Array.getElem?_eq_some_iff.mp hst).1
    refine ⟨st', ?_, rfl, rfl, fun h => ⟨h.phase, h.socket, h.next⟩⟩
    rw [pushStream, Array.getElem?_push, if_neg (by omega), hst]

theorem later_setStream {σ : ℕ} {st st' : Stream} (hst : a.bus.streams[σ]? = some st)
    (htopic : st'.topic = st.topic) (hsocket : st'.socket = st.socket)
    (hreads : a.Reads st → a.Reads st') :
    Later a (a.setStream σ st') where
  lines := rfl
  sockets := rfl
  log := List.prefix_refl _
  streams ρ st₁ hst₁ := by
    have hlt := (Array.getElem?_eq_some_iff.mp hst).1
    by_cases h : σ = ρ
    · subst h
      obtain rfl := Option.some.inj (hst.symm.trans hst₁)
      refine ⟨st', ?_, htopic, hsocket, fun h => ?_⟩
      · simp [setStream, Bus.setStream, hlt]
      · exact ⟨(hreads h).phase, (hreads h).socket, (hreads h).next⟩
    · refine ⟨st₁, ?_, rfl, rfl, fun h => ⟨h.phase, h.socket, h.next⟩⟩
      rw [← hst₁]
      simp [setStream, Bus.setStream, h]

end Network

/-! ## Streams -/

theorem length_log (bus : Bus) : bus.log.length = bus.feed.size := by
  simp [Bus.log, Feed.size]

/-- Who lags goes on with the oldest message that is left, and that is on the bus. -/
theorem lagged_of_fetch {bus : Bus} {next k : ℕ} (h : bus.feed.fetch next = .lagged k) :
    next < bus.feed.oldest ∧ next + k ≤ bus.log.length := by
  have hsize : bus.feed.oldest ≤ bus.log.length := by
    rw [length_log, Feed.oldest]
    omega
  unfold Feed.fetch at h
  split at h
  · rename_i hold
    obtain rfl := Fetch.lagged.inj h
    exact ⟨hold, by omega⟩
  · split at h <;> cases h

/-- All that one step of a stream can do, and what it brings. -/
inductive Stream.Reached (bus : Bus) (st : Stream) : Stream → Receipt → Prop where
  | past : st.phase = .ended → Reached bus st st .ended
  | cut : bus.isClosed st.socket = true → Reached bus st { st with phase := .ended } .ended
  | item {m : Message} : st.phase ≠ .ended → bus.log[st.next]? = some m →
      Reached bus st { st with next := st.next + 1, phase := .idle }
        (if st.topic.covers m.channel then .message m else .passed)
  | lagged {k : ℕ} : st.phase ≠ .ended → bus.feed.fetch st.next = .lagged k →
      Reached bus st { st with next := st.next + k, phase := .idle } (.lagged k)
  | parked : st.phase ≠ .ended → bus.log.length ≤ st.next →
      Reached bus st { st with phase := .waiting } .parked
  | waiting : st.phase ≠ .ended → bus.log.length ≤ st.next → Reached bus st st .waiting

namespace Bus

variable {bus : Bus} {σ : ℕ} {st : Stream}

theorem setStream_self (hst : bus.streams[σ]? = some st) : bus.setStream σ st = bus := by
  have hlt := (Array.getElem?_eq_some_iff.mp hst).1
  have hstreams : bus.streams.setIfInBounds σ st = bus.streams := by
    refine Array.ext_getElem? fun ρ => ?_
    by_cases h : σ = ρ
    · subst h
      rw [Array.getElem?_setIfInBounds_self_of_lt hlt, hst]
    · rw [Array.getElem?_setIfInBounds_ne h]
  rw [setStream, hstreams]

theorem drop_eq (hst : bus.streams[σ]? = some st) :
    bus.drop σ = bus.setStream σ { st with phase := .ended } := by
  simp [drop, hst]

theorem receive_of_none (hst : bus.streams[σ]? = none) : bus.receive σ = (bus, .ended) := by
  simp [receive, hst]

theorem receive_reached (hst : bus.streams[σ]? = some st) :
    ∃ st', (bus.receive σ).1 = bus.setStream σ st' ∧ st.Reached bus st' (bus.receive σ).2 := by
  by_cases hended : st.phase = .ended
  · exact ⟨st, by simp [receive, hst, hended, setStream_self], by
      simpa [receive, hst, hended] using .past hended⟩
  · by_cases hcut : st.phase = .idle ∧ bus.isClosed st.socket = true
    · have hrec : bus.receive σ = (bus.drop σ, .ended) := by
        simp only [receive, hst, if_neg hended, if_pos hcut]
      rw [hrec, drop_eq hst]
      exact ⟨_, rfl, .cut hcut.2⟩
    · cases hf : bus.feed.fetch st.next with
      | item m =>
        have hrec : bus.receive σ =
            (bus.setStream σ { st with next := st.next + 1, phase := .idle },
              if st.topic.covers m.channel then .message m else .passed) := by
          simp only [receive, hst, if_neg hended, if_neg hcut, hf]
        have hm := ((Feed.fetch_eq_item_iff _ _ _).mp hf).2
        rw [hrec]
        exact ⟨_, rfl, .item hended (by rw [log, Array.getElem?_toList, hm])⟩
      | lagged k =>
        have hrec : bus.receive σ =
            (bus.setStream σ { st with next := st.next + k, phase := .idle }, .lagged k) := by
          simp only [receive, hst, if_neg hended, if_neg hcut, hf]
        rw [hrec]
        exact ⟨_, rfl, .lagged hended hf⟩
      | caughtUp =>
        have hlen : bus.log.length ≤ st.next := by
          rw [length_log]
          exact (Feed.fetch_eq_caughtUp_iff _ _).mp hf
        by_cases hw : st.phase = .waiting
        · have hrec : bus.receive σ = (bus, .waiting) := by
            simp only [receive, hst, if_neg hended, if_neg hcut, hf, if_pos hw]
          rw [hrec]
          exact ⟨st, (setStream_self hst).symm, .waiting hended hlen⟩
        · have hrec : bus.receive σ =
              (bus.setStream σ { st with phase := .waiting }, .parked) := by
            simp only [receive, hst, if_neg hended, if_neg hcut, hf, if_neg hw]
          rw [hrec]
          exact ⟨_, rfl, .parked hended hlen⟩

end Bus

/-- Where a step of a stream leads, and the message that it brings. -/
inductive Stream.Onward (a : Network) (st st' : Stream) : Option Message → Prop where
  | message {m : Message} : a.bus.log[st.next]? = some m → st.topic.covers m.channel = true →
      st'.next = st.next + 1 → Onward a st st' (some m)
  /-- The next message does not concern the topic. -/
  | passed {m : Message} : a.bus.log[st.next]? = some m → st.topic.covers m.channel = false →
      st'.next = st.next + 1 → Onward a st st' none
  /-- The next message is lost. -/
  | lagged : st.next < a.bus.feed.oldest → Onward a st st' none
  | parked : st'.next = st.next → Onward a st st' none

/-! ## Listeners -/

def Receipt.message? : Receipt → Option Message
  | message m => some m
  | _ => none

namespace Listener

variable {a : Network} {post : Post} {link now σ : ℕ} {st : Stream} {h : Heard Network}

theorem receive_reads {b : Network} {r : Receipt} (hst : a.bus.streams[σ]? = some st)
    (hr : a.Reads st) (hrec : Medium.receive a σ = (b, r)) : r = .waiting ∨ r ≠ .ended ∧
      ∃ st', b = a.setStream σ st' ∧ st'.topic = st.topic ∧ st'.socket = st.socket ∧
        a.Reads st' ∧ st.Onward a st' r.message? := by
  obtain ⟨st', hbus, hreached⟩ := Bus.receive_reached hst
  have hmedium : Medium.receive a σ = (a.setStream σ st', (a.bus.receive σ).2) := by
    rw [Network.setStream, ← hbus]
    rfl
  obtain ⟨rfl, rfl⟩ := Prod.mk.inj (hmedium.symm.trans hrec)
  generalize (a.bus.receive σ).2 = r at hreached ⊢
  cases hreached with
  | past hended => exact absurd hended hr.phase
  | cut hclosed => rw [hr.socket] at hclosed; cases hclosed
  | @item m hphase hm =>
    have hlt := (List.getElem?_eq_some_iff.mp hm).1
    refine .inr ⟨by split <;> simp, _, rfl, rfl, rfl, ⟨by simp, hr.socket, hlt⟩, ?_⟩
    by_cases hc : st.topic.covers m.channel = true
    · rw [if_pos hc]
      exact .message hm hc rfl
    · rw [if_neg hc]
      exact .passed hm (by simpa using hc) rfl
  | lagged hphase hf =>
    obtain ⟨hold, hnext⟩ := lagged_of_fetch hf
    exact .inr ⟨by simp, _, rfl, rfl, rfl, ⟨by simp, hr.socket, hnext⟩, .lagged hold⟩
  | parked hphase hlen =>
    exact .inr ⟨by simp, _, rfl, rfl, rfl, ⟨by simp, hr.socket, hr.next⟩, .parked rfl⟩
  | waiting hphase hlen => exact .inl rfl

theorem act_listening (hst : a.bus.streams[σ]? = some st) (hr : a.Reads st)
    (hact : act post link false now a (.listening σ) = some h) :
    h.listener = .listening σ ∧ ∃ st', h.medium = a.setStream σ st' ∧ st'.topic = st.topic ∧
      st'.socket = st.socket ∧ a.Reads st' ∧ st.Onward a st' h.message := by
  cases hrec : Medium.receive a σ with
  | mk b r =>
    simp only [act, Bool.false_eq_true, if_false, hrec] at hact
    rcases receive_reads hst hr hrec with rfl | ⟨hne, st', rfl, htopic, hsocket, hr', honward⟩
    · cases hact
    · cases r with
      | ended => exact absurd rfl hne
      | waiting => cases hact
      | message m | passed | parked | lagged k =>
        obtain rfl := Option.some.inj hact
        exact ⟨rfl, st', rfl, htopic, hsocket, hr', honward⟩

theorem act_of_not_listening {l : Listener} (hopen : a.Open link) (hl : ∀ σ, l ≠ .listening σ)
    (hact : act post link false now a l = some h) : h.message = none ∧
      ((h.listener = .listening a.bus.streams.size ∧ h.medium = a.pushStream
          { socket := (a.line link).socket, topic := post.topic, next := a.bus.feed.size }) ∨
        ((∀ σ, h.listener ≠ .listening σ) ∧ h.medium = a)) := by
  cases l with
  | attempting failures delay =>
    simp only [act, Bool.false_eq_true, if_false, hopen.subscribe, Option.some.injEq] at hact
    subst hact
    exact ⟨rfl, .inl ⟨rfl, rfl⟩⟩
  | resting wake failures delay =>
    simp only [act, Bool.false_eq_true, if_false] at hact
    split at hact
    · obtain rfl := Option.some.inj hact
      exact ⟨rfl, .inr ⟨fun σ => Listener.noConfusion, rfl⟩⟩
    · cases hact
  | listening σ => exact absurd rfl (hl σ)
  | ended => cases hact

end Listener

end Telemetry
