import Mathlib.Data.List.Sort
import Telemetry.Proofs.BusTrace

/-!
# The bus as a broadcast

A stream that keeps up gets what is published after it was opened and concerns its topic, all of it,
in the order of the log. The others do not notice when a socket is closed, whatever is tried through
it afterwards.

* `Bus.KeepsUp`, `Bus.Listens`, `Bus.places`: streams of a trace, and where in the log they are;
* `Bus.Follows`, **`Bus.follows_after`**: where a stream stands, as long as it keeps up;
* **`Bus.Follows.received_polls`**: enough steps bring everything;
* `Bus.Apart`, **`Bus.trace_apart`**: a bus on which a socket is closed, beside one where it is not;
* **`Bus.broadcast`**: log, sockets, and streams.
-/

namespace Telemetry

namespace Bus

/-! ## Streams of a trace -/

/-- The stream, opened just before, never falls behind by more than the bus keeps for it. -/
def KeepsUp (id : ℕ) (t : List BusEvent) : Prop :=
  ∀ t', t' <+: t → (published t').length ≤ seen id t' + busCapacity

/-- The stream was opened between the events `a` and `c`, and keeps up. -/
structure Listens (t : List BusEvent) (id socket : ℕ) (topic : Topic) (a c : List BusEvent) :
    Prop where
  trace : t = a ++ ⟨.subscribe socket topic, .opened id⟩ :: c
  keepsUp : KeepsUp id c

/-- The places in a log of the messages that concern a topic, among `n` messages from `start` on. -/
def places (log : List Message) (topic : Topic) (start n : ℕ) : List ℕ :=
  (List.range' start n).filter fun k => (log[k]?).any (topic.covers ·.channel)

section Places

variable {id : ℕ} {t t' : List BusEvent}

theorem KeepsUp.left (h : KeepsUp id (t ++ t')) : KeepsUp id t :=
  fun _ hp => h _ (hp.trans (List.prefix_append _ _))

theorem keepsUp_of_length (h : t.length ≤ busCapacity) : KeepsUp id t := fun t' hp =>
  calc (published t').length ≤ t'.length := List.length_filterMap_le _ _
    _ ≤ busCapacity := hp.length_le.trans h
    _ ≤ seen id t' + busCapacity := Nat.le_add_left _ _

theorem pairwise_places (log : List Message) (topic : Topic) (start n : ℕ) :
    (places log topic start n).Pairwise (· < ·) :=
  List.Pairwise.filter _ List.pairwise_lt_range'

theorem filter_mem_comm {p q : List ℕ} (hp : p.Pairwise (· < ·)) (hq : q.Pairwise (· < ·)) :
    p.filter (· ∈ q) = q.filter (· ∈ p) :=
  (hp.filter _).eq_of_mem_iff (hq.filter _) fun k => by simp [and_comm]

theorem filterMap_places (pre post : List Message) (topic : Topic) (n : ℕ) :
    (places (pre ++ post) topic pre.length n).filterMap ((pre ++ post)[·]?) =
      (post.take n).filter (topic.covers ·.channel) := by
  induction n with
  | zero => rfl
  | succ n ih =>
    have hplace : (pre ++ post)[pre.length + n]? = post[n]? := by
      rw [List.getElem?_append_right (by omega), Nat.add_sub_cancel_left]
    rw [places, List.range'_concat, Nat.one_mul, List.filter_append, List.filterMap_append,
      ← places, ih, List.take_add_one, List.filter_append, List.filter_singleton, hplace]
    cases hm : post[n]? with
    | none => rfl
    | some m =>
      rw [hm] at hplace
      by_cases hc : topic.covers m.channel = true <;> simp [hc, hplace]

end Places

/-! ## A stream that keeps up -/

variable {b : Bus} {op : BusOp} {socket id : ℕ} {topic : Topic} {m : Message} {st : Stream}

/-- Where a stream stands that was opened when the log was `pre`, after the events `t`, if it kept
up with them. -/
structure Follows (b : Bus) (id : ℕ) (st : Stream) (pre : List Message) (t : List BusEvent) :
    Prop where
  found : b.streams[id]? = some st
  log : b.log = pre ++ published t
  capacity : b.feed.capacity = busCapacity
  socket : st.socket < b.sockets.size
  next : st.next = pre.length + seen id t
  seen_le : seen id t ≤ (published t).length
  received : received id t = ((published t).take (seen id t)).filter (st.topic.covers ·.channel)
  phase : st.phase = .ended → b.isClosed st.socket = true ∨ ∃ e ∈ t, e.op = .drop id

variable {pre : List Message} {t : List BusEvent}

theorem Follows.getElem?_next (h : b.Follows id st pre t) :
    b.log[st.next]? = (published t)[seen id t]? := by
  rw [h.log, h.next, List.getElem?_append_right (by omega), Nat.add_sub_cancel_left]

theorem Follows.length_le_iff (h : b.Follows id st pre t) :
    b.log.length ≤ st.next ↔ (published t).length ≤ seen id t := by
  rw [h.log, h.next, List.length_append]
  omega

theorem Follows.not_lagged (h : b.Follows id st pre t)
    (hkeep : (published t).length ≤ seen id t + busCapacity) {k : ℕ} :
    b.feed.fetch st.next ≠ .lagged k := by
  intro hf
  have hold := (lagged_of_fetch hf).1
  rw [Feed.oldest, ← length_log, h.log, h.capacity, h.next, List.length_append] at hold
  omega

variable {b' : Bus} {e : BusEvent} {st' : Stream}

theorem Follows.stay (h : b.Follows id st pre t) (hgrows : Grows b b' e)
    (hst' : b'.streams[id]? = some st') (hkind : st'.topic = st.topic ∧ st'.socket = st.socket)
    (hnext : st'.next = st.next) (hseen : seen id [e] = 0)
    (hreceived : Bus.received id [e] = [])
    (hphase : st'.phase = .ended → b'.isClosed st.socket = true ∨ ∃ x ∈ t ++ [e], x.op = .drop id) :
    b'.Follows id st' pre (t ++ [e]) where
  found := hst'
  log := by rw [hgrows.log, h.log, published_append, List.append_assoc]
  capacity := by rw [hgrows.capacity, h.capacity]
  socket := by
    rw [hkind.2]
    exact Nat.lt_of_lt_of_le h.socket hgrows.size
  next := by rw [hnext, h.next, seen_append, hseen, Nat.add_zero]
  seen_le := by
    rw [seen_append, hseen, published_append, List.length_append]
    exact Nat.le_add_right_of_le h.seen_le
  received := by
    rw [received_append, hreceived, List.append_nil, seen_append, hseen, Nat.add_zero,
      published_append, List.take_append_of_le_length h.seen_le, hkind.1, h.received]
  phase := by rwa [hkind.2]

theorem Follows.move (h : b.Follows id st pre t) (hgrows : Grows b b' e)
    (hst' : b'.streams[id]? = some st') (hkind : st'.topic = st.topic ∧ st'.socket = st.socket)
    (hm : (published t)[seen id t]? = some m) (hnext : st'.next = st.next + 1)
    (hseen : seen id [e] = 1) (hpublished : published [e] = [])
    (hreceived : Bus.received id [e] = [m].filter (st.topic.covers ·.channel))
    (hphase : st'.phase ≠ .ended) : b'.Follows id st' pre (t ++ [e]) where
  found := hst'
  log := by rw [hgrows.log, h.log, published_append, List.append_assoc]
  capacity := by rw [hgrows.capacity, h.capacity]
  socket := by
    rw [hkind.2]
    exact Nat.lt_of_lt_of_le h.socket hgrows.size
  next := by rw [hnext, h.next, seen_append, hseen, Nat.add_assoc]
  seen_le := by
    rw [seen_append, hseen, published_append, hpublished, List.append_nil]
    exact (List.getElem?_eq_some_iff.mp hm).1
  received := by
    rw [received_append, hreceived, h.received, seen_append, hseen, published_append, hpublished,
      List.append_nil, List.take_add_one, hm, List.filter_append, hkind.1]
    rfl
  phase := fun hended => absurd hended hphase

/-- Every operation keeps a stream where it should be, as long as it keeps up. -/
theorem Follows.does (h : b.Follows id st pre t)
    (hkeep : (published t).length ≤ seen id t + busCapacity) (op : BusOp) :
    ∃ st', (st'.topic = st.topic ∧ st'.socket = st.socket) ∧
      (op.does b).1.Follows id st' pre (t ++ [⟨op, (op.does b).2⟩]) := by
  obtain ⟨st', hst', hstep⟩ := does_stream op h.found
  have hgrows := grows_does b op
  have hclosed := hgrows.closed st.socket h.socket
  have hphase : st.phase = .ended → (op.does b).1.isClosed st.socket = true ∨
      ∃ x ∈ t ++ [⟨op, (op.does b).2⟩], x.op = .drop id := fun hended =>
    (h.phase hended).imp hclosed fun ⟨x, hx, hdrop⟩ => ⟨x, List.mem_append_left _ hx, hdrop⟩
  rcases hstep with ⟨rfl, hreached⟩ | ⟨rfl, rfl⟩ | ⟨hne, hne', rfl⟩
  · have hreply : ((BusOp.receive id).does b).2 = .got (b.receive id).2 := rfl
    rw [hreply] at hgrows hphase ⊢
    generalize (b.receive id).2 = r at hgrows hphase hreached ⊢
    cases hreached with
    | past hended => exact ⟨st, ⟨rfl, rfl⟩, h.stay hgrows hst' ⟨rfl, rfl⟩ rfl rfl rfl hphase⟩
    | cut hcut =>
      exact ⟨{ st with phase := .ended }, ⟨rfl, rfl⟩, h.stay hgrows hst' ⟨rfl, rfl⟩ rfl rfl rfl
        fun _ => .inl (hclosed hcut)⟩
    | item _ hm =>
      rw [h.getElem?_next] at hm
      exact ⟨{ st with next := st.next + 1, phase := .idle }, ⟨rfl, rfl⟩,
        h.move hgrows hst' ⟨rfl, rfl⟩ hm rfl seen_item rfl received_item (by simp)⟩
    | lagged _ hf => exact absurd hf (h.not_lagged hkeep)
    | parked _ _ =>
      exact ⟨{ st with phase := .waiting }, ⟨rfl, rfl⟩, h.stay hgrows hst' ⟨rfl, rfl⟩ rfl rfl rfl
        (by simp)⟩
    | waiting _ _ => exact ⟨st, ⟨rfl, rfl⟩, h.stay hgrows hst' ⟨rfl, rfl⟩ rfl rfl rfl hphase⟩
  · exact ⟨{ st with phase := .ended }, ⟨rfl, rfl⟩, h.stay hgrows hst' ⟨rfl, rfl⟩ rfl rfl rfl
      fun _ => .inr ⟨_, List.mem_append_right _ (List.mem_singleton_self _), rfl⟩⟩
  · exact ⟨st', ⟨rfl, rfl⟩, h.stay hgrows hst' ⟨rfl, rfl⟩ rfl (seen_eq_zero hne)
      (received_eq_nil hne) hphase⟩

theorem follows_after (h : b.Follows id st pre []) {ops : List BusOp}
    (hkeep : KeepsUp id (b.trace ops)) : ∃ st', (st'.topic = st.topic ∧ st'.socket = st.socket) ∧
      (b.after ops).Follows id st' pre (b.trace ops) := by
  induction ops using List.reverseRecOn with
  | nil => exact ⟨st, ⟨rfl, rfl⟩, h⟩
  | append_singleton ops op ih =>
    rw [trace_append] at hkeep ⊢
    obtain ⟨st₁, ⟨htopic, hsocket⟩, h₁⟩ := ih hkeep.left
    obtain ⟨st₂, ⟨htopic', hsocket'⟩, h₂⟩ :=
      h₁.does (hkeep _ (List.prefix_append _ _)) op
    rw [after_append]
    exact ⟨st₂, ⟨htopic'.trans htopic, hsocket'.trans hsocket⟩, h₂⟩

theorem follows_of_opened (hcapacity : b.feed.capacity = busCapacity)
    (h : ((BusOp.subscribe socket topic).does b).2 = .opened id) :
    ((BusOp.subscribe socket topic).does b).1.Follows id
      { socket, topic, next := b.feed.size } b.log [] := by
  cases hclosed : b.isClosed socket with
  | true => simp [does_subscribe_closed hclosed] at h
  | false =>
    rw [does_subscribe hclosed] at h ⊢
    obtain rfl : b.streams.size = id := by simpa using h
    exact ⟨by simp, (List.append_nil _).symm, hcapacity, lt_of_isClosed hclosed,
      (length_log b).symm, le_rfl, rfl, by simp⟩

theorem Follows.receive (h : b.Follows id st pre t)
    (hkeep : (published t).length ≤ seen id t + busCapacity)
    (hopen : b.isClosed st.socket = false) (hdrop : ∀ e ∈ t, e.op ≠ .drop id) :
    (∃ m, (published t)[seen id t]? = some m ∧
      (b.receive id).2 = if st.topic.covers m.channel then .message m else .passed) ∨
    ((published t).length ≤ seen id t ∧
      ((b.receive id).2 = .parked ∨ (b.receive id).2 = .waiting)) := by
  have hphase : st.phase ≠ .ended := fun hended => by
    rcases h.phase hended with hclosed | ⟨e, he, hop⟩
    · rw [hopen] at hclosed
      cases hclosed
    · exact hdrop e he hop
  obtain ⟨st', -, hreached⟩ := receive_reached h.found
  generalize (b.receive id).2 = r at hreached ⊢
  cases hreached with
  | past hended => exact absurd hended hphase
  | cut hclosed =>
    rw [hopen] at hclosed
    cases hclosed
  | item _ hm => exact .inl ⟨_, by rw [← h.getElem?_next, hm], rfl⟩
  | lagged _ hf => exact absurd hf (h.not_lagged hkeep)
  | parked _ hlen => exact .inr ⟨h.length_le_iff.mp hlen, .inl rfl⟩
  | waiting _ hlen => exact .inr ⟨h.length_le_iff.mp hlen, .inr rfl⟩

theorem Follows.received_polls (h : b.Follows id st pre t)
    (hkeep : (published t).length ≤ seen id t + busCapacity)
    (hopen : b.isClosed st.socket = false) (hdrop : ∀ e ∈ t, e.op ≠ .drop id) (n : ℕ) :
    Bus.received id (t ++ b.trace (List.replicate n (.receive id))) =
      ((published t).take (seen id t + n)).filter (st.topic.covers ·.channel) := by
  induction n generalizing b st t with
  | zero => simpa [trace] using h.received
  | succ n ih =>
    have hnext := h.receive hkeep hopen hdrop
    obtain ⟨st', ⟨htopic, hsocket⟩, h'⟩ := h.does hkeep (.receive id)
    have hpublished : published (t ++ [⟨.receive id, .got (b.receive id).2⟩]) = published t := by
      rw [published_append]
      exact List.append_nil _
    have hopen' : ((BusOp.receive id).does b).1.isClosed st'.socket = false := by
      rw [hsocket, isClosed_does]
      exact .inr ⟨hopen, by simp⟩
    have hdrop' : ∀ e ∈ t ++ [⟨.receive id, .got (b.receive id).2⟩], e.op ≠ .drop id := by
      intro e he
      rcases List.mem_append.mp he with he | he
      · exact hdrop e he
      · rw [List.mem_singleton.mp he]
        simp
    have hreply : ((BusOp.receive id).does b).2 = .got (b.receive id).2 := rfl
    rw [hreply] at h'
    have ih' := ih h' (by rw [hpublished, seen_append]; omega) hopen' hdrop'
    rw [List.replicate_succ, trace, hreply, List.append_cons, ih', hpublished, htopic,
      seen_append]
    congr 1
    rcases hnext with ⟨m, -, hr⟩ | ⟨hlen, -⟩
    · rw [hr, seen_item, Nat.add_assoc, Nat.add_comm 1 n]
    · rw [List.take_of_length_le (by omega), List.take_of_length_le (by omega)]

/-! ## A socket that is closed -/

/-- The stream was opened through the socket. -/
def owns (b : Bus) (socket id : ℕ) : Bool := (b.streams[id]?).any (·.socket == socket)

end Bus

/-- The operation goes through the socket, or is on one of its own streams. -/
def BusOp.uses (own : ℕ → Bool) (socket : ℕ) : BusOp → Bool
  | attach => false
  | publish socket' _ => socket' == socket
  | subscribe socket' _ => socket' == socket
  | receive id => own id
  | drop id => own id
  | close socket' => socket' == socket

namespace Bus

variable {own : ℕ → Bool} {b b' : Bus} {op : BusOp} {socket id : ℕ} {st st' : Stream}

/-- Two buses that agree but for a socket and its streams; on the first one the socket is closed. -/
structure Apart (own : ℕ → Bool) (socket : ℕ) (b b' : Bus) : Prop where
  feed : b.feed = b'.feed
  size : b.sockets.size = b'.sockets.size
  sockets : ∀ socket' ≠ socket, b.sockets[socket']? = b'.sockets[socket']?
  closed : b.sockets[socket]? = some true
  length : b.streams.size = b'.streams.size
  others : ∀ id, own id = false → b.streams[id]? = b'.streams[id]?
  foreign : ∀ id st, own id = false → b.streams[id]? = some st → st.socket ≠ socket
  owned : ∀ id, own id = true → id < b.streams.size

theorem Apart.isClosed (h : Apart own socket b b') : b.isClosed socket = true := by
  simp [Bus.isClosed, h.closed]

theorem Apart.isClosed_eq (h : Apart own socket b b') {socket' : ℕ} (hne : socket' ≠ socket) :
    b.isClosed socket' = b'.isClosed socket' := by
  simp [Bus.isClosed, h.sockets socket' hne]

theorem apart_close (hlt : socket < b.sockets.size) :
    Apart (b.owns socket) socket (b.close socket) b where
  feed := rfl
  size := by simp [close]
  sockets socket' hne := by simp [close, Ne.symm hne]
  closed := by simp [close, hlt]
  length := rfl
  others _ _ := rfl
  foreign id st hown hst := by
    have hst' : b.streams[id]? = some st := hst
    simpa [owns, hst'] using hown
  owned id hown := by
    cases hst : b.streams[id]? with
    | none => simp [owns, hst] at hown
    | some st => exact (Array.getElem?_eq_some_iff.mp hst).1

theorem Apart.setSockets (h : Apart own socket b b') {sockets sockets' : Array Bool}
    (hsize : sockets.size = sockets'.size)
    (hsame : ∀ socket' ≠ socket, sockets[socket']? = sockets'[socket']?)
    (hclosed : sockets[socket]? = some true) :
    Apart own socket { b with sockets } { b' with sockets := sockets' } where
  feed := h.feed
  size := hsize
  sockets := hsame
  closed := hclosed
  length := h.length
  others := h.others
  foreign := h.foreign
  owned := h.owned

theorem Apart.setStream_left (h : Apart own socket b b') (hown : own id = true) :
    Apart own socket (b.setStream id st) b' where
  feed := h.feed
  size := h.size
  sockets := h.sockets
  closed := h.closed
  length := by simpa [setStream] using h.length
  others id' hown' := by
    have hne : id ≠ id' := by rintro rfl; simp [hown] at hown'
    rw [setStream, Array.getElem?_setIfInBounds_ne hne, h.others id' hown']
  foreign id' st' hown' hst' := by
    have hne : id ≠ id' := by rintro rfl; simp [hown] at hown'
    rw [setStream, Array.getElem?_setIfInBounds_ne hne] at hst'
    exact h.foreign id' st' hown' hst'
  owned id' hown' := by simpa [setStream] using h.owned id' hown'

theorem Apart.setStream (h : Apart own socket b b') (hst : st.socket ≠ socket) :
    Apart own socket (b.setStream id st) (b'.setStream id st) where
  feed := h.feed
  size := h.size
  sockets := h.sockets
  closed := h.closed
  length := by simpa [Bus.setStream] using h.length
  others id' hown' := by
    by_cases hid : id = id'
    · subst hid
      simp only [Bus.setStream, Array.getElem?_setIfInBounds, if_true, h.length]
    · simpa [Bus.setStream, hid] using h.others id' hown'
  foreign id' st' hown' hst' := by
    by_cases hid : id = id'
    · subst hid
      rw [Bus.setStream, Array.getElem?_setIfInBounds, if_pos rfl] at hst'
      split_ifs at hst'
      obtain rfl := Option.some.inj hst'
      exact hst
    · rw [Bus.setStream, Array.getElem?_setIfInBounds_ne hid] at hst'
      exact h.foreign id' st' hown' hst'
  owned id' hown' := by simpa [Bus.setStream] using h.owned id' hown'

/-- What goes through the closed socket, or concerns its streams, is of no effect on the rest. -/
theorem Apart.does_left (h : Apart own socket b b') (huses : op.uses own socket = true) :
    Apart own socket (op.does b).1 b' := by
  have hstream : ∀ {id}, (op = .receive id ∨ op = .drop id) → own id = true →
      Apart own socket (op.does b).1 b' := by
    intro id hop hown
    cases hst : b.streams[id]? with
    | none => rwa [does_of_none hop hst]
    | some st =>
      obtain ⟨st', heq⟩ := exists_setStream hop hst
      rw [heq]
      exact h.setStream_left hown
  cases op with
  | attach => cases huses
  | publish socket' m =>
    obtain rfl : socket' = socket := by simpa [BusOp.uses] using huses
    rwa [does_publish_closed h.isClosed]
  | subscribe socket' topic =>
    obtain rfl : socket' = socket := by simpa [BusOp.uses] using huses
    rwa [does_subscribe_closed h.isClosed]
  | receive id => exact hstream (.inl rfl) huses
  | drop id => exact hstream (.inr rfl) huses
  | close socket' =>
    obtain rfl : socket' = socket := by simpa [BusOp.uses] using huses
    have hlt := (Array.getElem?_eq_some_iff.mp h.closed).1
    refine h.setSockets (by simpa using h.size) (fun τ hne => ?_) (by simp [hlt])
    simpa [Ne.symm hne] using h.sockets τ hne

theorem receive_congr (hst : b.streams[id]? = some st) (hst' : b'.streams[id]? = some st)
    (hfeed : b.feed = b'.feed) (hclosed : b.isClosed st.socket = b'.isClosed st.socket) :
    (b.receive id).2 = (b'.receive id).2 ∧ ∃ st₁, st₁.socket = st.socket ∧
      (b.receive id).1 = b.setStream id st₁ ∧ (b'.receive id).1 = b'.setStream id st₁ := by
  by_cases hended : st.phase = .ended
  · simp only [receive, hst, hst', if_pos hended]
    exact ⟨trivial, st, rfl, (setStream_self hst).symm, (setStream_self hst').symm⟩
  by_cases hcut : st.phase = .idle ∧ b'.isClosed st.socket = true
  · simp only [receive, hst, hst', hclosed, if_neg hended, if_pos hcut, drop_eq hst, drop_eq hst']
    exact ⟨trivial, { st with phase := .ended }, rfl, rfl, rfl⟩
  simp only [receive, hst, hst', hclosed, hfeed, if_neg hended, if_neg hcut]
  cases b'.feed.fetch st.next with
  | item m => exact ⟨rfl, { st with next := st.next + 1, phase := .idle }, rfl, rfl, rfl⟩
  | lagged k => exact ⟨rfl, { st with next := st.next + k, phase := .idle }, rfl, rfl, rfl⟩
  | caughtUp =>
    by_cases hwaiting : st.phase = .waiting
    · simp only [if_pos hwaiting]
      exact ⟨trivial, st, rfl, (setStream_self hst).symm, (setStream_self hst').symm⟩
    · simp only [if_neg hwaiting]
      exact ⟨trivial, { st with phase := .waiting }, rfl, rfl, rfl⟩

theorem Apart.does (h : Apart own socket b b') (huses : op.uses own socket = false) :
    (op.does b).2 = (op.does b').2 ∧ Apart own socket (op.does b).1 (op.does b').1 := by
  cases op with
  | attach =>
    refine ⟨by simp [BusOp.does, Bus.attach, h.size], ?_⟩
    have hlt := (Array.getElem?_eq_some_iff.mp h.closed).1
    refine h.setSockets (by simp [h.size]) (fun τ hne => ?_) ?_
    · simp [Array.getElem?_push, h.size, h.sockets τ hne]
    · simp [Array.getElem?_push, hlt.ne, h.closed]
  | publish socket' m =>
    have hne : socket' ≠ socket := by simpa [BusOp.uses] using huses
    have hclosed := h.isClosed_eq hne
    cases hc : b.isClosed socket' with
    | true =>
      rw [does_publish_closed hc, does_publish_closed (hclosed ▸ hc)]
      exact ⟨rfl, h⟩
    | false =>
      rw [does_publish hc, does_publish (hclosed ▸ hc)]
      exact ⟨rfl, { h with feed := by simp only [put, h.feed] }⟩
  | subscribe socket' topic =>
    have hne : socket' ≠ socket := by simpa [BusOp.uses] using huses
    have hclosed := h.isClosed_eq hne
    cases hc : b.isClosed socket' with
    | true =>
      rw [does_subscribe_closed hc, does_subscribe_closed (hclosed ▸ hc)]
      exact ⟨rfl, h⟩
    | false =>
      rw [does_subscribe hc, does_subscribe (hclosed ▸ hc)]
      refine ⟨by simp only [h.length], ?_⟩
      exact {
        feed := h.feed
        size := h.size
        sockets := h.sockets
        closed := h.closed
        length := by simp [h.length]
        others := fun id hown => by
          simp only [Array.getElem?_push, h.length, h.feed, h.others id hown]
        foreign := fun id st hown hst => by
          rw [Array.getElem?_push] at hst
          split_ifs at hst
          · obtain rfl := Option.some.inj hst
            exact hne
          · exact h.foreign id st hown hst
        owned := fun id hown => by
          have := h.owned id hown
          simp only [Array.size_push]
          omega }
  | receive id =>
    have hsame := h.others id huses
    cases hst : b.streams[id]? with
    | none =>
      have hst' := hsame ▸ hst
      simp only [BusOp.does, receive_of_none hst, receive_of_none hst', true_and]
      exact h
    | some st =>
      have hst' := hsame ▸ hst
      have hne := h.foreign id st huses hst
      obtain ⟨hreply, st₁, hsocket, hl, hr⟩ :=
        receive_congr hst hst' h.feed (h.isClosed_eq hne)
      refine ⟨by simp only [BusOp.does, hreply], ?_⟩
      simp only [BusOp.does, hl, hr]
      exact h.setStream (by rwa [hsocket])
  | drop id =>
    refine ⟨rfl, ?_⟩
    have hsame := h.others id huses
    cases hst : b.streams[id]? with
    | none =>
      rw [does_of_none (.inr rfl) hst, does_of_none (.inr rfl) (hsame ▸ hst)]
      exact h
    | some st =>
      simp only [BusOp.does, drop_eq hst, drop_eq (hsame ▸ hst)]
      exact h.setStream (h.foreign id st huses hst)
  | close socket' =>
    have hne : socket' ≠ socket := by simpa [BusOp.uses] using huses
    refine ⟨rfl, h.setSockets (by simpa using h.size) (fun τ hτ => ?_) ?_⟩
    · simp [Array.getElem?_setIfInBounds, h.size, h.sockets τ hτ]
    · simpa [hne] using h.closed

theorem trace_apart (h : Apart own socket b b') (ops : List BusOp) :
    (b.trace ops).filter (fun e => !e.op.uses own socket) =
        b'.trace (ops.filter (!·.uses own socket)) ∧
      Apart own socket (b.after ops) (b'.after (ops.filter (!·.uses own socket))) := by
  induction ops generalizing b b' with
  | nil => exact ⟨rfl, h⟩
  | cons op ops ih =>
    cases huses : op.uses own socket with
    | true =>
      obtain ⟨htrace, hafter⟩ := ih (h.does_left huses)
      simp only [trace, after, List.filter_cons, huses]
      exact ⟨htrace, hafter⟩
    | false =>
      obtain ⟨hreply, h'⟩ := h.does huses
      obtain ⟨htrace, hafter⟩ := ih h'
      simp only [trace, List.filter_cons, huses, Bool.not_false, if_true, after, hreply, htrace]
      exact ⟨trivial, hafter⟩

/-! ## The broadcast -/

variable {topic : Topic} {ops : List BusOp} {a c : List BusEvent}

theorem follows_of_listens (h : Listens (trace {} ops) id socket topic a c) :
    ∃ st, (st.topic = topic ∧ st.socket = socket) ∧
      (after {} ops).Follows id st (published a) c := by
  obtain ⟨xs, ys, rfl, rfl, hreply, rfl⟩ := exists_of_trace h.trace
  have hopened := follows_of_opened (capacity_after {} xs) hreply
  have hlog : (after {} xs).log = published (trace {} xs) := log_after {} xs
  rw [hlog] at hopened
  rw [after_append]
  exact follows_after hopened h.keepsUp

theorem publish_done_iff {m : Message} {r : BusReply}
    (h : trace {} ops = a ++ ⟨.publish socket m, r⟩ :: c) : r = .done ↔ Connected socket a := by
  obtain ⟨xs, ys, -, rfl, hreply, -⟩ := exists_of_trace h
  rw [connected_iff]
  cases hclosed : (after {} xs).isClosed socket with
  | true =>
    obtain rfl : BusReply.failed .closed = r := by rwa [does_publish_closed hclosed] at hreply
    simp
  | false =>
    obtain rfl : BusReply.done = r := by rwa [does_publish hclosed] at hreply
    simp

/-- **The bus is an ordered broadcast without loss and without history**, whatever is done to it:
the log is what was published through sockets that were open, and a socket that is not open changes
nothing. A stream that keeps up has got, of what was published after it was opened and up to where
it is, all that concerns its topic, and gets the rest as long as it is open. Each message comes
once, in the order of the log, and so for any two streams. What is done through a socket after it
was closed, and on its streams, is of no effect on the others. -/
theorem broadcast (ops : List BusOp) :
    let b := after {} ops
    let t := trace {} ops
    (b.log = published t ∧ ∀ a socket m r c, t = a ++ ⟨.publish socket m, r⟩ :: c →
      (r = .done ↔ Connected socket a)) ∧
    (∀ socket, Connected socket t →
      (∀ m, (BusOp.publish socket m).does b = (b.put m, .done)) ∧
      ∀ topic, ∃ id, ((BusOp.subscribe socket topic).does b).2 = .opened id) ∧
    (∀ socket, ¬ Connected socket t →
      (∀ m, (BusOp.publish socket m).does b = (b, .failed .closed)) ∧
      ∀ topic, (BusOp.subscribe socket topic).does b = (b, .failed .closed)) ∧
    (∀ id socket topic a c, Listens t id socket topic a c →
      received id c = ((published c).take (seen id c)).filter (topic.covers ·.channel) ∧
      (Connected socket t → (∀ e ∈ c, e.op ≠ .drop id) →
        ∀ n, (published c).length ≤ seen id c + n →
          received id (c ++ b.trace (List.replicate n (.receive id))) =
            (published c).filter (topic.covers ·.channel))) ∧
    (∀ id socket topic a c id' socket' topic' a' c', Listens t id socket topic a c →
      Listens t id' socket' topic' a' c' →
      let p := places b.log topic (published a).length (seen id c)
      let p' := places b.log topic' (published a').length (seen id' c')
      (received id c = p.filterMap (b.log[·]?) ∧ p.Pairwise (· < ·)) ∧
      (received id' c' = p'.filterMap (b.log[·]?) ∧ p'.Pairwise (· < ·)) ∧
      p.filter (· ∈ p') = p'.filter (· ∈ p)) ∧
    (∀ socket, Connected socket t → ∀ later,
      let others := later.filter (!·.uses (b.owns socket) socket)
      ((b.close socket).trace later).filter (fun e => !e.op.uses (b.owns socket) socket) =
          b.trace others ∧
        ((b.close socket).after later).log = (b.after others).log) := by
  intro b t
  have hreceived : ∀ {id socket topic a c}, Listens t id socket topic a c →
      received id c = (places b.log topic (published a).length (seen id c)).filterMap
        (b.log[·]?) := by
    intro id socket topic a c h
    obtain ⟨st, ⟨rfl, rfl⟩, hst⟩ := follows_of_listens h
    rw [hst.received, hst.log, filterMap_places]
  refine ⟨⟨log_after {} ops, fun a socket m r c h => publish_done_iff h⟩,
    fun socket h => ?_, fun socket h => ?_, fun id socket topic a c h => ?_, ?_, ?_⟩
  · have hopen := (connected_iff ops).mp h
    exact ⟨fun m => does_publish hopen, fun topic => ⟨_, by rw [does_subscribe hopen]⟩⟩
  · have hclosed : b.isClosed socket = true := by
      simpa using fun hopen => h ((connected_iff ops).mpr hopen)
    exact ⟨fun m => does_publish_closed hclosed, fun topic => does_subscribe_closed hclosed⟩
  · obtain ⟨st, ⟨rfl, rfl⟩, hst⟩ := follows_of_listens h
    refine ⟨hst.received, fun hopen hdrop n hn => ?_⟩
    rw [hst.received_polls (h.keepsUp c (List.prefix_refl c)) ((connected_iff ops).mp hopen) hdrop,
      List.take_of_length_le hn]
  · intro id socket topic a c id' socket' topic' a' c' h h' p p'
    have hp := pairwise_places b.log topic (published a).length (seen id c)
    have hp' := pairwise_places b.log topic' (published a').length (seen id' c')
    exact ⟨⟨hreceived h, hp⟩, ⟨hreceived h', hp'⟩, filter_mem_comm hp hp'⟩
  · intro socket h later others
    have hlt := lt_of_isClosed ((connected_iff ops).mp h)
    obtain ⟨htrace, hafter⟩ := trace_apart (apart_close hlt) later
    exact ⟨htrace, by rw [log, hafter.feed, ← log]⟩

/-- Two sockets; the stream of the first one gets the second message and not what came before it,
nor what is about something else; after the second socket is closed, nothing goes through it. -/
theorem broadcast_pair :
    let x : Message := ⟨"a", ⟨#[1]⟩⟩
    let y : Message := ⟨"a", ⟨#[2]⟩⟩
    let z : Message := ⟨"b", ⟨#[3]⟩⟩
    let before : List BusOp := [.attach, .attach, .publish 1 x, .subscribe 0 (.exact "a")]
    let later : List BusOp := [.publish 1 y, .publish 0 z, .close 1]
    let b := after {} (before ++ later)
    received 0 ((after {} before).trace later ++ b.trace (List.replicate 2 (.receive 0))) = [y] ∧
      (BusOp.publish 1 x).does b = (b, .failed .closed) := by
  intro x y z before later b
  have hopen : Connected 0 (trace {} (before ++ later)) := by
    rw [connected_iff]
    decide
  have hclosed : ¬ Connected 1 (trace {} (before ++ later)) := by
    rw [connected_iff]
    decide
  have hlistens : Listens (trace {} (before ++ later)) 0 0 (.exact "a")
      [⟨.attach, .attached 0⟩, ⟨.attach, .attached 1⟩, ⟨.publish 1 x, .done⟩]
      ((after {} before).trace later) :=
    ⟨rfl, keepsUp_of_length (by decide)⟩
  obtain ⟨-, -, hrefused, hstream, -⟩ := broadcast (before ++ later)
  have hall := (hstream 0 0 _ _ _ hlistens).2 hopen (by decide) 2 (by decide)
  exact ⟨hall.trans (by decide), (hrefused 1 hclosed).1 x⟩

end Bus

end Telemetry
