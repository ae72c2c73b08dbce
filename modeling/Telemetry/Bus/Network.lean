import Telemetry.Bus.Basic

/-!
# Networks

A network is a bus whose participants reach it over lines. A line may map the names of channels to
subjects, and it may have faults: publishing may be slow or fail, and the next subscriptions may
fail or give streams that are over at once. The errors name channels as they were asked for.

* `Faults`, `Line`, `Network`;
* `Network.connect`: a new line;
* the instance of `Medium`.
-/

namespace Telemetry

/-- The faults of a line. -/
structure Faults where
  /-- Publishing fails. -/
  failPublish : Bool := false
  /-- How many milliseconds publishing takes. -/
  publishDelay : Nat := 0
  /-- How many of the next subscriptions fail. -/
  subscribeFailures : Nat := 0
  /-- How many subscriptions after those give a stream that is over at once. -/
  endedStreams : Nat := 0
deriving DecidableEq, Inhabited

/-- Access to the bus. -/
structure Line where
  socket : Nat
  /-- The names of channels are mapped to subjects. -/
  mapped : Bool := false
  faults : Faults := {}
deriving DecidableEq, Inhabited

/-- A bus with the lines to it. -/
structure Network where
  bus : Bus := {}
  lines : Array Line := #[]

namespace Line

/-- The name of a channel on the bus. -/
def name (l : Line) (channel : String) : String := if l.mapped then subject channel else channel

/-- The topic on the bus. -/
def topic (l : Line) : Topic → Topic
  | .exact channel => .exact (l.name channel)
  | .under stem => .under (l.name stem)

/-- What is behind the line. -/
def backend (l : Line) : String := if l.mapped then "nats" else "memory"

end Line

namespace Network

instance : Inhabited Network := ⟨{}⟩

/-- The reason of an error that a fault causes. -/
def injected : String := "injected failure"

/-- The line with a number; a number that was not given out has one that does not lead anywhere. -/
def line (n : Network) (link : Nat) : Line := n.lines.getD link { socket := n.bus.sockets.size }

/-- A new line, over a new socket. -/
def connect (n : Network) (mapped : Bool) (faults : Faults) : Network × Nat :=
  let (bus, socket) := n.bus.attach
  ({ bus, lines := n.lines.push { socket, mapped, faults } }, n.lines.size)

/-- Changes the faults of a line. -/
def setFaults (n : Network) (link : Nat) (f : Faults → Faults) : Network :=
  { n with lines := n.lines.modify link fun l => { l with faults := f l.faults } }

/-- Whether the socket of a line is closed. -/
def isClosed (n : Network) (link : Nat) : Bool := n.bus.isClosed (n.line link).socket

/-- Publishes over a line. -/
def publish (n : Network) (link : Nat) (m : Message) : Network × Except TransportError Unit :=
  let l := n.line link
  if l.faults.failPublish then (n, .error (.publish m.channel injected))
  else
    match n.bus.publish l.socket { m with channel := l.name m.channel } with
    | .ok bus => ({ n with bus }, .ok ())
    | .error e => (n, .error e)

/-- Opens a stream over a line. -/
def subscribe (n : Network) (link : Nat) (t : Topic) : Network × Except TransportError Nat :=
  let l := n.line link
  if 0 < l.faults.subscribeFailures then
    (n.setFaults link fun f => { f with subscribeFailures := f.subscribeFailures - 1 },
      .error (.subscribe t.name injected))
  else if 0 < l.faults.endedStreams then
    let n := n.setFaults link fun f => { f with endedStreams := f.endedStreams - 1 }
    let (bus, id) := n.bus.stub
    ({ n with bus }, .ok id)
  else
    match n.bus.subscribe l.socket (l.topic t) with
    | .ok (bus, id) => ({ n with bus }, .ok id)
    | .error e => (n, .error e)

instance : Medium Network where
  backend n link := (n.line link).backend
  delay n link := (n.line link).faults.publishDelay
  publish := publish
  subscribe := subscribe
  receive n id :=
    let (bus, r) := n.bus.receive id
    ({ n with bus }, r)
  drop n id := { n with bus := n.bus.drop id }
  close n link := { n with bus := n.bus.close (n.line link).socket }
  inbound n link channel := (n.line link).name channel

end Network

end Telemetry
