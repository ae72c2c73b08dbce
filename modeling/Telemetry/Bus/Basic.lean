import Telemetry.Feed
import Telemetry.Medium

/-!
# The bus

Messages in one process travel over a bus. Whoever takes part has a socket, which can be closed for
itself. A stream gets what is published after it was opened and concerns its topic; the bus keeps no
history for it beyond a bounded backlog.

* `Bus`: the messages so far, the sockets, and the streams;
* `Bus.publish`, `Bus.subscribe`, `Bus.close`, `Bus.drop`;
* `Bus.receive`: one step of a stream; `Bus.poll`: all steps until it waits or ends.
-/

namespace Telemetry

/-- Where a stream stands. One that waits has looked at its socket before, and does not look again
until something comes. -/
inductive Phase where
  | idle
  | waiting
  | ended
deriving DecidableEq, Repr

/-- A subscription of a socket. -/
structure Stream where
  socket : Nat
  topic : Topic
  /-- How many of the messages it has seen. -/
  next : Nat
  phase : Phase := .idle
deriving DecidableEq

instance : Inhabited Stream := ⟨{ socket := 0, topic := .exact "", next := 0, phase := .ended }⟩

/-- How many messages a stream may be behind. -/
def busCapacity : Nat := 4096

/-- The messages so far, the sockets (whether they are closed), and the streams. -/
structure Bus where
  feed : Feed Message := { capacity := busCapacity }
  sockets : Array Bool := #[]
  streams : Array Stream := #[]

namespace Bus

instance : Inhabited Bus := ⟨{}⟩

/-- All messages so far, in order. -/
def log (b : Bus) : List Message := b.feed.items.toList

/-- The messages on exactly one channel. -/
def logOf (b : Bus) (channel : String) : List Message := b.log.filter (·.channel == channel)

/-- Whether a socket is closed. -/
def isClosed (b : Bus) (socket : Nat) : Bool := b.sockets.getD socket true

/-- A new socket. -/
def attach (b : Bus) : Bus × Nat := ({ b with sockets := b.sockets.push false }, b.sockets.size)

/-- Closes a socket. -/
def close (b : Bus) (socket : Nat) : Bus :=
  { b with sockets := b.sockets.setIfInBounds socket true }

/-- Puts a message on the bus, whoever sends it. Logging the message and handing it to the streams
are one step. In two steps, messages sent at once might be logged in one order and received in the
other. -/
def put (b : Bus) (m : Message) : Bus := { b with feed := b.feed.push m }

/-- Publishes a message through a socket. -/
def publish (b : Bus) (socket : Nat) (m : Message) : Except TransportError Bus :=
  if b.isClosed socket then .error .closed else .ok (b.put m)

/-- Opens a stream through a socket. -/
def subscribe (b : Bus) (socket : Nat) (topic : Topic) : Except TransportError (Bus × Nat) :=
  if b.isClosed socket then .error .closed
  else
    let s : Stream := { socket, topic, next := b.feed.size }
    .ok ({ b with streams := b.streams.push s }, b.streams.size)

/-- A stream that is over at once. -/
def stub (b : Bus) : Bus × Nat := ({ b with streams := b.streams.push default }, b.streams.size)

/-- The number of open streams. -/
def openStreams (b : Bus) : Nat := b.streams.toList.countP fun s => s.phase != .ended

/-- Changes a stream. -/
def setStream (b : Bus) (id : Nat) (s : Stream) : Bus :=
  { b with streams := b.streams.setIfInBounds id s }

/-- Closes a stream. -/
def drop (b : Bus) (id : Nat) : Bus :=
  match b.streams[id]? with
  | some s => b.setStream id { s with phase := .ended }
  | none => b

/-- One step of a stream: the end if its socket is closed, or what comes next. -/
def receive (b : Bus) (id : Nat) : Bus × Receipt :=
  match b.streams[id]? with
  | none => (b, .ended)
  | some s =>
    if s.phase = .ended then (b, .ended)
    else if s.phase = .idle ∧ b.isClosed s.socket then (b.drop id, .ended)
    else
      match b.feed.fetch s.next with
      | .item m =>
        (b.setStream id { s with next := s.next + 1, phase := .idle },
          if s.topic.covers m.channel then .message m else .passed)
      | .lagged skipped =>
        (b.setStream id { s with next := s.next + skipped, phase := .idle }, .lagged skipped)
      | .caughtUp =>
        if s.phase = .waiting then (b, .waiting)
        else (b.setStream id { s with phase := .waiting }, .parked)

/-- What a stream got, its reports, and whether it has ended. -/
structure Polled where
  messages : List Message := []
  signals : List Signal := []
  ended : Bool := false

/-- Up to `fuel` steps of a stream. -/
def pollFor : Nat → Bus → Nat → Bus × Polled
  | 0, b, _ => (b, {})
  | fuel + 1, b, id =>
    match b.receive id with
    | (b, .message m) =>
      let (b, p) := pollFor fuel b id
      (b, { p with messages := m :: p.messages })
    | (b, .passed) => pollFor fuel b id
    | (b, .lagged skipped) =>
      let (b, p) := pollFor fuel b id
      (b, { p with signals := .warn (.streamLagged skipped) :: p.signals })
    | (b, .parked) => (b, {})
    | (b, .waiting) => (b, {})
    | (b, .ended) => (b, { ended := true })

/-- All that a stream gets until it waits or ends; every step before passes at least one message. -/
def poll (b : Bus) (id : Nat) : Bus × Polled := pollFor (b.feed.size + 1) b id

end Bus

end Telemetry
