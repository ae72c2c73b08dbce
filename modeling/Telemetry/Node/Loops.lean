import Telemetry.Node.Basic
import Telemetry.Node.Judge

/-!
# The loops of a node

Four kinds of loop run in a node. Each of the definitions below is one atomic move of one loop, or
none where the loop waits or has ended.

A loop that waits for a message, a time or a request waits for its cancellation as well. Where both
have come, an implementation may take either, and so it may still take messages, times and requests
after it was cancelled. The moves below always take the cancellation.

* `Listener.act`: keeping a stream open, for the next two;
* `Node.discover`: names on the control channel become requests;
* `Node.consume`: data of a subscription goes to the store;
* `Node.turn`: a new epoch forgets what was announced;
* `Node.dispatchNext`: a request starts a consumer, unless there is one.
-/

namespace Telemetry

/-- What a move of a node leaves: the medium, the node, and the reports. -/
structure Move (μ : Type) where
  medium : μ
  node : Node
  signals : List Signal := []

/-! ## Keeping a stream open -/

/-- What a listener listens to, and how it reports. -/
structure Post where
  topic : Topic
  kind : Kind
  /-- The name of subscribing to the topic. -/
  operation : String
  /-- What it reports when a stream has ended. -/
  ended : Warning

/-- What a move of a listener leaves, and the message that it got. -/
structure Heard (μ : Type) where
  medium : μ
  listener : Listener
  message : Option Message := none
  signals : List Signal := []

/-- One move of a listener. One that is cancelled ends, even where its stream has a message: that
the message may be taken first is left out. Subscribing looks at the cancellation first in any
case. -/
def Listener.act {μ : Type} [Medium μ] (post : Post) (link : Nat) (cancelled : Bool) (now : Nat)
    (m : μ) : Listener → Option (Heard μ)
  | .attempting failures delay =>
    if cancelled then some { medium := m, listener := .ended }
    else
      match Medium.subscribe m link post.topic with
      | (m, .ok stream) => some { medium := m, listener := .listening stream }
      | (m, .error e) =>
        some { medium := m, listener := .resting (now + delay.ticks) (failures + 1) delay,
               signals := [.warn (.retrying post.operation (failures + 1) none e.message delay)] }
  | .resting wake failures delay =>
    if cancelled then some { medium := m, listener := .ended }
    else if wake ≤ now then
      let next := (Backoff.daemon.next? delay).getD Backoff.daemon.cap
      some { medium := m, listener := .attempting failures next }
    else none
  | .listening stream =>
    if cancelled then some { medium := Medium.drop m stream, listener := .ended }
    else
      match Medium.receive m stream with
      | (m, .message msg) =>
        some { medium := m, listener := .listening stream, message := some msg }
      | (m, .passed) => some { medium := m, listener := .listening stream }
      | (m, .parked) => some { medium := m, listener := .listening stream }
      | (m, .lagged skipped) =>
        some { medium := m, listener := .listening stream,
               signals := [.warn (.streamLagged skipped)] }
      | (_, .waiting) => none
      | (m, .ended) =>
        some { medium := Medium.drop m stream, listener := .fresh,
               signals := [.warn post.ended, .count (.resubscribe post.kind)] }
  | .ended => none

/-! ## Discovery -/

/-- Listening for names. -/
def controlPost : Post where
  topic := .exact controlChannel
  kind := .control
  operation := "subscribe " ++ controlChannel
  ended := .controlEnded

/-- The name in a payload, and the reports. An empty one is not passed on. -/
def announcedName (payload : ByteArray) : Option String × List Signal :=
  match String.fromUTF8? payload with
  | none => (none, [.warn .announcementNotUtf8])
  | some name => (if name.isEmpty then none else some name, [])

namespace Node

variable {μ : Type} [Medium μ]

/-- One move of discovery. It passes on a name that it heard before it listens again. -/
def discover (now : Nat) (m : μ) (n : Node) : Option (Move μ) :=
  match n.link with
  | none => none
  | some link =>
    match n.heard with
    | some name =>
      if n.cancelled then some { medium := m, node := { n with heard := none } }
      else if n.hasRoom then
        some { medium := m, node := { n with heard := none, requests := n.requests ++ [name] } }
      else none
    | none =>
      (n.discovery.act controlPost link n.cancelled now m).map fun h =>
        match h.message with
        | none =>
          { medium := h.medium, node := { n with discovery := h.listener }, signals := h.signals }
        | some msg =>
          let (heard, signals) := announcedName msg.payload
          { medium := h.medium, node := { n with discovery := h.listener, heard },
            signals := h.signals ++ signals }

/-! ## Epochs -/

/-- One move of the loop of epochs. When it is cancelled it ends, even where an epoch is due: that
the epoch may begin first is left out. Counting the names and forgetting them are one step. In two
steps, a name entered in between would be forgotten without being counted. -/
def turn (now : Nat) (n : Node) : Option (Node × List Signal) :=
  match n.nextEpoch with
  | none => none
  | some time =>
    if n.cancelled then some ({ n with nextEpoch := none }, [])
    else if time ≤ now then
      some ({ n with announced := .empty, nextEpoch := some (now + n.period) },
        [.count .topologyReset, .set .topologyCleared n.announced.size])
    else none

/-! ## Dispatch -/

/-- Starts the consumer of a subscription, unless there is one. -/
def start (name : String) (n : Node) : Node × List Signal :=
  if n.started.contains name then (n, [])
  else
    let started := n.started.add name
    ({ n with started, consumers := n.consumers ++ [{ subscription := name }] },
      [.count .channelStarted, .set .activeChannels started.size])

/-- One move of dispatch. When it is cancelled it waits for its consumers, even where there is a
request: that the request may be taken first is left out. -/
def dispatchNext (n : Node) : Option (Node × List Signal) :=
  match n.dispatch with
  | .ended => none
  | .joining =>
    if n.consumers.all (·.listener == .ended) then some ({ n with dispatch := .ended }, [])
    else none
  | .receiving =>
    if n.cancelled then some ({ n with dispatch := .joining }, [])
    else
      match n.requests with
      | [] => none
      | name :: rest => some ({ n with requests := rest }.start name)

/-! ## Consumers -/

/-- Listening for the data of a subscription. -/
def dataPost (subscription : String) : Post where
  topic := .under (dataStem subscription)
  kind := .data
  operation := "psubscribe " ++ dataStem subscription
  ended := .dataEnded subscription

/-- A message for the consumer of a subscription. -/
def applyRemote (m : μ) (link : Nat) (subscription : String) (msg : Message) (n : Node) :
    Node × List Signal :=
  let j := judge (Medium.inbound m link) subscription msg
  (match j.envelope? with
    | some e => n.keep subscription e
    | none => n, j.signals msg.channel)

/-- One move of the consumer with a number. -/
def consume (now : Nat) (i : Nat) (m : μ) (n : Node) : Option (Move μ) :=
  match n.link, n.consumers[i]? with
  | some link, some c =>
    (c.listener.act (dataPost c.subscription) link n.cancelled now m).map fun h =>
      let n := { n with consumers := n.consumers.set i { c with listener := h.listener } }
      match h.message with
      | none => { medium := h.medium, node := n, signals := h.signals }
      | some msg =>
        let (node, signals) := n.applyRemote h.medium link c.subscription msg
        { medium := h.medium, node, signals := h.signals ++ signals }
  | _, _ => none

end Node

end Telemetry
