import Mathlib.Data.List.Induction
import Mathlib.Order.Nat
import Telemetry.Proofs.Listening

/-!
# Traces of a bus

What happens to a bus is a list of operations through its sockets and on its streams. A trace has
each operation with its reply: it shows what was published, what every stream got, and which sockets
are open.

* `BusOp.does`, `Bus.after`, `Bus.trace`: operations and traces;
* `Bus.published`, `Bus.received`, `Bus.seen`, `Bus.Connected`: what a trace shows;
* `Bus.Grows`, `Bus.grows_does`, `Bus.does_stream`: what one operation can do;
* **`Bus.log_after`**: the log is what was published;
* **`Bus.connected_iff`**: the open sockets are those that were given out and not closed since.
-/

namespace Telemetry

/-! ## Operations -/

/-- What can be done to a bus. -/
inductive BusOp where
  | attach
  | publish (socket : ℕ) (m : Message)
  | subscribe (socket : ℕ) (topic : Topic)
  | receive (id : ℕ)
  | drop (id : ℕ)
  | close (socket : ℕ)
deriving DecidableEq

/-- What comes back. -/
inductive BusReply where
  | done
  | attached (socket : ℕ)
  | opened (id : ℕ)
  | got (r : Receipt)
  | failed (e : TransportError)
deriving DecidableEq

/-- An operation and what came back. -/
structure BusEvent where
  op : BusOp
  reply : BusReply
deriving DecidableEq

/-- The bus after an operation, and the reply. -/
def BusOp.does : BusOp → Bus → Bus × BusReply
  | attach, b => (b.attach.1, .attached b.attach.2)
  | publish socket m, b =>
    match b.publish socket m with
    | .ok b' => (b', .done)
    | .error e => (b, .failed e)
  | subscribe socket topic, b =>
    match b.subscribe socket topic with
    | .ok (b', id) => (b', .opened id)
    | .error e => (b, .failed e)
  | receive id, b => ((b.receive id).1, .got (b.receive id).2)
  | drop id, b => (b.drop id, .done)
  | close socket, b => (b.close socket, .done)

namespace Bus

variable {b : Bus} {op : BusOp} {ops xs ys : List BusOp}

def after (b : Bus) : List BusOp → Bus
  | [] => b
  | op :: ops => after (op.does b).1 ops

def trace (b : Bus) : List BusOp → List BusEvent
  | [] => []
  | op :: ops => ⟨op, (op.does b).2⟩ :: trace (op.does b).1 ops

theorem after_append : b.after (xs ++ ys) = (b.after xs).after ys := by
  induction xs generalizing b with
  | nil => rfl
  | cons op xs ih => exact ih

theorem trace_append : b.trace (xs ++ ys) = b.trace xs ++ (b.after xs).trace ys := by
  induction xs generalizing b with
  | nil => rfl
  | cons op xs ih => simp [trace, after, ih]

theorem exists_of_trace {a c : List BusEvent} {e : BusEvent} (h : b.trace ops = a ++ e :: c) :
    ∃ xs ys, ops = xs ++ e.op :: ys ∧ b.trace xs = a ∧ (e.op.does (b.after xs)).2 = e.reply ∧
      (e.op.does (b.after xs)).1.trace ys = c := by
  induction a generalizing b ops with
  | nil =>
    cases ops with
    | nil => simp [trace] at h
    | cons op ops =>
      obtain ⟨rfl, hc⟩ := List.cons.inj h
      exact ⟨[], ops, rfl, rfl, rfl, hc⟩
  | cons e' a ih =>
    cases ops with
    | nil => simp [trace] at h
    | cons op ops =>
      obtain ⟨rfl, htail⟩ := List.cons.inj h
      obtain ⟨xs, ys, rfl, ha, hreply, hc⟩ := ih htail
      exact ⟨op :: xs, ys, rfl, by rw [trace, ha], hreply, hc⟩

end Bus

/-! ## What a trace shows -/

namespace BusEvent

/-- The message that was put on the bus. -/
def published? : BusEvent → Option Message
  | ⟨.publish _ m, .done⟩ => some m
  | _ => none

/-- The message that the stream got. -/
def received? (id : ℕ) : BusEvent → Option Message
  | ⟨.receive id', .got (.message m)⟩ => if id' = id then some m else none
  | _ => none

/-- The stream moved on by one message, whether it concerned its topic or not. -/
def moves (id : ℕ) : BusEvent → Bool
  | ⟨.receive id', .got (.message _)⟩ => id' == id
  | ⟨.receive id', .got .passed⟩ => id' == id
  | _ => false

end BusEvent

namespace Bus

/-- What was published, in order. -/
def published (t : List BusEvent) : List Message := t.filterMap BusEvent.published?

/-- What the stream got, in order. -/
def received (id : ℕ) (t : List BusEvent) : List Message := t.filterMap (BusEvent.received? id)

/-- By how many messages the stream moved on. -/
def seen (id : ℕ) (t : List BusEvent) : ℕ := t.countP (BusEvent.moves id)

/-- The socket was given out and has not been closed since. -/
def Connected (socket : ℕ) (t : List BusEvent) : Prop :=
  ∃ a e c, t = a ++ e :: c ∧ e.reply = .attached socket ∧ ∀ e' ∈ c, e'.op ≠ .close socket

section Shown

variable {id : ℕ} {t t' : List BusEvent} {e : BusEvent}

theorem published_append : published (t ++ t') = published t ++ published t' :=
  List.filterMap_append

theorem received_append : received id (t ++ t') = received id t ++ received id t' :=
  List.filterMap_append

theorem seen_append : seen id (t ++ t') = seen id t + seen id t' := List.countP_append

theorem seen_eq_zero (h : e.op ≠ .receive id) : seen id [e] = 0 := by
  obtain ⟨op, r⟩ := e
  rw [seen, List.countP_eq_zero]
  intro x hx
  rw [List.mem_singleton.mp hx]
  unfold BusEvent.moves
  split <;> simp_all

theorem received_eq_nil (h : e.op ≠ .receive id) : received id [e] = [] := by
  obtain ⟨op, r⟩ := e
  rw [received, List.filterMap_eq_nil_iff]
  intro x hx
  rw [List.mem_singleton.mp hx]
  unfold BusEvent.received?
  split <;> simp_all

theorem seen_item {m : Message} {c : Prop} [Decidable c] :
    seen id [⟨.receive id, .got (if c then .message m else .passed)⟩] = 1 := by
  split <;> simp [seen, BusEvent.moves]

theorem received_item {m : Message} {c : Bool} :
    received id [⟨.receive id, .got (if c then .message m else .passed)⟩] =
      [m].filter fun _ => c := by
  cases c <;> simp [received, BusEvent.received?]

theorem connected_concat {socket : ℕ} : Connected socket (t ++ [e]) ↔
    e.reply = .attached socket ∨ Connected socket t ∧ e.op ≠ .close socket := by
  constructor
  · rintro ⟨a, e₀, c, h, he₀, hc⟩
    rcases List.eq_nil_or_concat c with rfl | ⟨c, e', rfl⟩
    · obtain rfl : e = e₀ := by simpa using (List.append_inj' h rfl).2
      exact .inl he₀
    · rw [List.concat_eq_append, ← List.cons_append, ← List.append_assoc] at h
      obtain ⟨ht, he⟩ := List.append_inj' h rfl
      obtain rfl : e = e' := by simpa using he
      exact .inr ⟨⟨a, e₀, c, ht, he₀, fun x hx => hc x (by simp [hx])⟩, hc e (by simp)⟩
  · rintro (he | ⟨⟨a, e₀, c, rfl, he₀, hc⟩, he⟩)
    · exact ⟨t, e, [], rfl, he, by simp⟩
    · refine ⟨a, e₀, c ++ [e], by simp, he₀, fun x hx => ?_⟩
      rcases List.mem_append.mp hx with hx | hx
      · exact hc x hx
      · rwa [List.mem_singleton.mp hx]

end Shown

/-! ## One operation -/

variable {b : Bus} {op : BusOp} {socket id : ℕ} {topic : Topic} {m : Message} {st : Stream}

theorem does_publish (h : b.isClosed socket = false) :
    (BusOp.publish socket m).does b = (b.put m, .done) := by
  simp [BusOp.does, publish, h]

theorem does_publish_closed (h : b.isClosed socket = true) :
    (BusOp.publish socket m).does b = (b, .failed .closed) := by
  simp [BusOp.does, publish, h]

theorem does_subscribe (h : b.isClosed socket = false) : (BusOp.subscribe socket topic).does b =
    ({ b with streams := b.streams.push { socket, topic, next := b.feed.size } },
      .opened b.streams.size) := by
  simp [BusOp.does, subscribe, h]

theorem does_subscribe_closed (h : b.isClosed socket = true) :
    (BusOp.subscribe socket topic).does b = (b, .failed .closed) := by
  simp [BusOp.does, subscribe, h]

theorem exists_setStream (hop : op = .receive id ∨ op = .drop id)
    (hst : b.streams[id]? = some st) : ∃ st', (op.does b).1 = b.setStream id st' := by
  rcases hop with rfl | rfl
  · obtain ⟨st', h, -⟩ := receive_reached hst
    exact ⟨st', h⟩
  · exact ⟨_, drop_eq hst⟩

theorem does_of_none (hop : op = .receive id ∨ op = .drop id) (hst : b.streams[id]? = none) :
    (op.does b).1 = b := by
  rcases hop with rfl | rfl
  · simp [BusOp.does, receive_of_none hst]
  · simp [BusOp.does, drop, hst]

/-- What an operation leaves as it is, or adds to. -/
structure Grows (b b' : Bus) (e : BusEvent) : Prop where
  log : b'.log = b.log ++ published [e]
  capacity : b'.feed.capacity = b.feed.capacity
  size : b.sockets.size ≤ b'.sockets.size
  closed : ∀ socket < b.sockets.size, b.isClosed socket = true → b'.isClosed socket = true

theorem grows_does (b : Bus) (op : BusOp) : Grows b (op.does b).1 ⟨op, (op.does b).2⟩ := by
  have hsame : ∀ e : BusEvent, published [e] = [] → Grows b b e := fun e he =>
    ⟨by rw [he, List.append_nil], rfl, le_rfl, fun _ _ h => h⟩
  have hstream : ∀ {id}, (op = .receive id ∨ op = .drop id) →
      Grows b (op.does b).1 ⟨op, (op.does b).2⟩ := by
    intro id hop
    have hquiet : published [⟨op, (op.does b).2⟩] = [] := by rcases hop with rfl | rfl <;> rfl
    cases hst : b.streams[id]? with
    | none =>
      rw [does_of_none hop hst]
      exact hsame _ hquiet
    | some st =>
      obtain ⟨st', h⟩ := exists_setStream hop hst
      rw [h]
      exact ⟨by rw [hquiet, List.append_nil]; rfl, rfl, le_rfl, fun _ _ h => h⟩
  cases op with
  | receive id => exact hstream (.inl rfl)
  | drop id => exact hstream (.inr rfl)
  | attach =>
    refine ⟨(List.append_nil _).symm, rfl, by simp [BusOp.does, attach], fun socket hlt h => ?_⟩
    simpa [BusOp.does, attach, isClosed, Array.getElem?_push, hlt.ne] using h
  | close socket =>
    refine ⟨(List.append_nil _).symm, rfl, by simp [BusOp.does, close], fun socket' hlt h => ?_⟩
    by_cases hs : socket = socket'
    · subst hs
      simp [BusOp.does, close, isClosed, hlt]
    · simpa [BusOp.does, close, isClosed, hs] using h
  | publish socket m =>
    cases h : b.isClosed socket with
    | true =>
      rw [does_publish_closed h]
      exact hsame _ rfl
    | false =>
      rw [does_publish h]
      exact ⟨Network.log_put b m, rfl, le_rfl, fun _ _ h => h⟩
  | subscribe socket topic =>
    cases h : b.isClosed socket with
    | true =>
      rw [does_subscribe_closed h]
      exact hsame _ rfl
    | false =>
      rw [does_subscribe h]
      exact ⟨(List.append_nil _).symm, rfl, le_rfl, fun _ _ h => h⟩

/-- What an operation does to a stream: nothing, unless it is one of its own. -/
theorem does_stream (op : BusOp) (hst : b.streams[id]? = some st) :
    ∃ st', (op.does b).1.streams[id]? = some st' ∧
      ((op = .receive id ∧ st.Reached b st' (b.receive id).2) ∨
        (op = .drop id ∧ st' = { st with phase := .ended }) ∨
        (op ≠ .receive id ∧ op ≠ .drop id ∧ st' = st)) := by
  have hlt := (Array.getElem?_eq_some_iff.mp hst).1
  have hset : ∀ st', (b.setStream id st').streams[id]? = some st' := fun st' => by
    simp [setStream, hlt]
  have hother : ∀ {id'}, (op = .receive id' ∨ op = .drop id') → id' ≠ id →
      (op.does b).1.streams[id]? = some st := by
    intro id' hop hne
    cases hst' : b.streams[id']? with
    | none => rw [does_of_none hop hst', hst]
    | some st₁ =>
      obtain ⟨st', h⟩ := exists_setStream hop hst'
      rw [h, setStream, Array.getElem?_setIfInBounds_ne hne, hst]
  cases op with
  | receive id' =>
    by_cases h : id' = id
    · subst h
      obtain ⟨st', heq, hreached⟩ := receive_reached hst
      exact ⟨st', by rw [BusOp.does, heq, hset], .inl ⟨rfl, hreached⟩⟩
    · exact ⟨st, hother (.inl rfl) h, .inr (.inr ⟨by simpa using h, by simp, rfl⟩)⟩
  | drop id' =>
    by_cases h : id' = id
    · subst h
      exact ⟨_, by rw [BusOp.does, drop_eq hst, hset], .inr (.inl ⟨rfl, rfl⟩)⟩
    · exact ⟨st, hother (.inr rfl) h, .inr (.inr ⟨by simp, by simpa using h, rfl⟩)⟩
  | attach | close socket => exact ⟨st, hst, .inr (.inr ⟨by simp, by simp, rfl⟩)⟩
  | publish socket m =>
    refine ⟨st, ?_, .inr (.inr ⟨by simp, by simp, rfl⟩)⟩
    cases h : b.isClosed socket with
    | true => rw [does_publish_closed h, hst]
    | false => rw [does_publish h, put, hst]
  | subscribe socket topic =>
    refine ⟨st, ?_, .inr (.inr ⟨by simp, by simp, rfl⟩)⟩
    cases h : b.isClosed socket with
    | true => rw [does_subscribe_closed h, hst]
    | false => rw [does_subscribe h, Array.getElem?_push, if_neg hlt.ne, hst]

/-! ## Sockets and the log -/

theorem log_after (b : Bus) (ops : List BusOp) :
    (b.after ops).log = b.log ++ published (b.trace ops) := by
  induction ops generalizing b with
  | nil => exact (List.append_nil _).symm
  | cons op ops ih =>
    rw [after, ih, (grows_does b op).log, List.append_assoc, ← published_append]
    rfl

theorem capacity_after (b : Bus) (ops : List BusOp) :
    (b.after ops).feed.capacity = b.feed.capacity := by
  induction ops generalizing b with
  | nil => rfl
  | cons op ops ih => rw [after, ih, (grows_does b op).capacity]

theorem lt_of_isClosed (h : b.isClosed socket = false) : socket < b.sockets.size := by
  by_contra hlt
  simp [isClosed, Nat.le_of_not_lt hlt] at h

theorem sockets_does (hop : op = .receive id ∨ op = .drop id) :
    (op.does b).1.sockets = b.sockets := by
  cases hst : b.streams[id]? with
  | none => rw [does_of_none hop hst]
  | some st =>
    obtain ⟨st', h⟩ := exists_setStream hop hst
    rw [h, setStream]

theorem isClosed_does : (op.does b).1.isClosed socket = false ↔
    (op.does b).2 = .attached socket ∨ b.isClosed socket = false ∧ op ≠ .close socket := by
  cases op with
  | receive id => rw [isClosed, sockets_does (.inl rfl)]; simp [BusOp.does, isClosed]
  | drop id => rw [isClosed, sockets_does (.inr rfl)]; simp [BusOp.does, isClosed]
  | attach =>
    rcases Nat.lt_trichotomy socket b.sockets.size with h | rfl | h
    · simp [BusOp.does, attach, isClosed, Array.getElem?_push, h.ne, h.ne']
    · simp [BusOp.does, attach, isClosed]
    · have hnone : b.sockets[socket]? = none := by simp [h.le]
      simp [BusOp.does, attach, isClosed, Array.getElem?_push, h.ne, h.ne', hnone]
  | close socket' =>
    by_cases h : socket' = socket
    · subst h
      by_cases hlt : socket' < b.sockets.size <;> simp [BusOp.does, close, isClosed, hlt]
    · simp [BusOp.does, close, isClosed, h]
  | publish socket' m =>
    cases h : b.isClosed socket' with
    | true => simp [does_publish_closed h]
    | false => simp [does_publish h, put, isClosed]
  | subscribe socket' topic =>
    cases h : b.isClosed socket' with
    | true => simp [does_subscribe_closed h]
    | false => simp [does_subscribe h, isClosed]

/-- The sockets that are open are those that were given out and not closed since. -/
theorem connected_iff (ops : List BusOp) :
    Connected socket (trace {} ops) ↔ (after {} ops).isClosed socket = false := by
  induction ops using List.reverseRecOn with
  | nil => simp [Connected, trace, after, isClosed]
  | append_singleton ops op ih =>
    rw [trace_append, after_append]
    simp only [trace, after]
    rw [connected_concat, isClosed_does, ih]

end Bus

end Telemetry
