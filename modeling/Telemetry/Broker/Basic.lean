import Telemetry.Broker.Pattern
import Telemetry.Medium
import Telemetry.Settings

/-!
# Brokers

A broker takes commands from its clients and hands each message to every subscription that it
passes, once for each. It keeps no history. There are two kinds. At a Redis broker a client
publishes over one connection, and each of its streams has another one; at a NATS broker a client
has one connection for everything, which lasts as long as the client or one of its streams.

* `Command`: what reaches a broker besides messages;
* `Broker`: clients, their streams, and what happened;
* `Broker.connect`: a new client;
* `publish`, `subscribe`, `receive`, `drop`, `close`, `kill`;
* the instance of `Medium`.
-/

namespace Telemetry

/-- What reaches a broker besides messages. -/
inductive Command where
  | auth (args : List String)
  | ping
  | subscribe (channel : String)
  | psubscribe (pattern : String)
  /-- The login at a NATS broker. -/
  | login (client : String) (user password : Option String)
  | sub (subject : String)
deriving DecidableEq, Repr

/-- How a broker misbehaves, until told otherwise. -/
structure BrokerFaults where
  /-- `PING` is answered with an error. -/
  pingError : Bool := false
  /-- Publishing is answered with an error. -/
  publishError : Bool := false
  /-- Subscribing is answered with an error. -/
  subscribeError : Bool := false
  /-- New connections are closed at once. -/
  refuse : Bool := false
  /-- New connections are not accepted. -/
  down : Bool := false
  /-- Logins are refused. -/
  reject : Bool := false
deriving DecidableEq, Inhabited

/-- A name and a password, each of which may be missing. -/
structure Credentials where
  username : Option String := none
  password : Option String := none
deriving DecidableEq, Inhabited

/-- A client of a broker. -/
structure Client where
  credentials : Credentials := {}
  closed : Bool := false
deriving DecidableEq, Inhabited

/-- A stream of a client, with what it received and did not hand out yet. -/
structure Inbox where
  client : Nat
  filter : Filter
  queue : List Message := []
  /-- The broker has the subscription. -/
  live : Bool := true
deriving DecidableEq

instance : Inhabited Inbox := ⟨{ client := 0, filter := .exact "", live := false }⟩

/-- A broker of one of the two kinds. -/
structure Broker where
  kind : Backend
  /-- Where it listens. -/
  address : String
  faults : BrokerFaults := {}
  clients : Array Client := #[]
  inboxes : Array Inbox := #[]
  /-- The messages that it accepted, in order. -/
  published : Array Message := #[]
  /-- The commands that it received, in order. -/
  commands : Array Command := #[]

namespace Credentials

/-- What a connection to a Redis broker sends first: nothing without a password. -/
def auth (c : Credentials) : List Command :=
  match c.username, c.password with
  | some u, some p => [.auth [u, p]]
  | none, some p => [.auth [p]]
  | _, none => []

/-- The name under which clients log in at a NATS broker. -/
def clientName : String := "telemetry-cache"

/-- The login at a NATS broker: half a pair is left out. -/
def login (c : Credentials) : Command :=
  match c.username, c.password with
  | some u, some p => .login clientName (some u) (some p)
  | _, _ => .login clientName none none

/-- What is reported of half a pair. -/
def halfPair (c : Credentials) : List Signal :=
  match c.username, c.password with
  | some _, none => [.warn .usernameAlone]
  | none, some _ => [.warn .passwordAlone]
  | _, _ => []

end Credentials

namespace Broker

instance : Inhabited Broker := ⟨{ kind := .redis, address := "" }⟩

/-- The broker at which commands have arrived. -/
def receiveCommands (b : Broker) (l : List Command) : Broker :=
  { b with commands := b.commands ++ l }

/-- Whether new connections come about. -/
def accepts (b : Broker) : Bool := !b.faults.refuse && !b.faults.down

/-- A client has a subscription at the broker. -/
def isListening (b : Broker) (client : Nat) : Bool :=
  b.inboxes.toList.any fun i => i.live && i.client == client

/-- The number of open connections. -/
def connections (b : Broker) : Nat :=
  match b.kind with
  | .nats =>
    (List.range b.clients.size).countP fun k =>
      !(b.clients.getD k default).closed || b.isListening k
  | _ => b.clients.toList.countP (!·.closed) + b.inboxes.toList.countP (·.live)

/-- The names of the subscriptions. -/
def subscriptions (b : Broker) : List String :=
  (b.inboxes.toList.filter (·.live)).map (·.filter.name)

/-! ## Clients -/

/-- The name of a channel at the broker. -/
def channelName (b : Broker) (channel : String) : String :=
  match b.kind with
  | .nats => Telemetry.subject channel
  | _ => channel

/-- What a stream of a topic asks for. -/
def filter (b : Broker) : Topic → Filter
  | .exact channel =>
    match b.kind with
    | .nats => .subject (Telemetry.subject channel)
    | _ => .exact channel
  | .under stem =>
    match b.kind with
    | .nats => .subject (wildcard stem)
    | _ => .glob (globUnder stem)

/-- The commands by which a client opens a stream. -/
def subscribeCommands (b : Broker) (c : Credentials) : Filter → List Command
  | .exact channel => c.auth ++ [.subscribe channel]
  | .glob pattern => c.auth ++ [.psubscribe pattern]
  | .subject pattern => if b.kind = .nats then [.sub pattern] else []

/-- Why a connection did not come about. -/
def connectionError (b : Broker) (address : String) : TransportError :=
  .connection b.kind.name address "no connection"

/-- The commands by which a client connects. -/
def connectCommands (b : Broker) (c : Credentials) : List Command :=
  match b.kind with
  | .nats => [c.login]
  | _ => c.auth ++ [.ping]

/-- The broker turns down the commands by which a client connects. -/
def turnsDown (b : Broker) : Bool :=
  match b.kind with
  | .nats => b.faults.reject
  | _ => b.faults.pingError

/-- What a client reports of its credentials. -/
def credentialSignals (b : Broker) (c : Credentials) : List Signal :=
  match b.kind with
  | .nats => c.halfPair
  | _ => []

/-- A client connects to an address. Only at the broker's own there is something. -/
def connect (b : Broker) (address : String) (c : Credentials) :
    Broker × Except TransportError Nat × List Signal :=
  let signals := b.credentialSignals c
  if address != b.address || !b.accepts then (b, .error (b.connectionError address), signals)
  else
    let b := b.receiveCommands (b.connectCommands c)
    if b.turnsDown then (b, .error (b.connectionError address), signals)
    else
      ({ b with clients := b.clients.push { credentials := c } }, .ok b.clients.size, signals)

/-- Whether a client is closed. -/
def isClosed (b : Broker) (client : Nat) : Bool :=
  match b.clients[client]? with
  | some c => c.closed
  | none => true

/-- Closes a client. Its streams go on. -/
def close (b : Broker) (client : Nat) : Broker :=
  { b with clients := b.clients.modify client fun c => { c with closed := true } }

/-! ## Messages -/

/-- A subscription that the message passes. -/
def reaches (m : Message) (i : Inbox) : Bool := i.live && i.filter.covers m.channel

/-- The number of subscriptions that the message passes. -/
def audience (b : Broker) (m : Message) : Nat := b.inboxes.toList.countP (reaches m)

/-- The broker accepts a message, whoever sends it. -/
def put (b : Broker) (m : Message) : Broker :=
  { b with
    inboxes := b.inboxes.map fun i => if reaches m i then { i with queue := i.queue ++ [m] } else i
    published := b.published.push m }

/-- A client publishes a message. -/
def publish (b : Broker) (client : Nat) (m : Message) : Broker × Except TransportError Unit :=
  if b.isClosed client then (b, .error .closed)
  else if b.kind = .redis ∧ b.faults.publishError then
    (b, .error (.publish m.channel "turned down"))
  else (b.put { m with channel := b.channelName m.channel }, .ok ())

/-- A client opens a stream. -/
def subscribe (b : Broker) (client : Nat) (t : Topic) : Broker × Except TransportError Nat :=
  let f := b.filter t
  let inbox : Inbox := { client, filter := f }
  let credentials := (b.clients.getD client default).credentials
  let asked := b.receiveCommands (b.subscribeCommands credentials f)
  let opened := ({ asked with inboxes := asked.inboxes.push inbox }, .ok asked.inboxes.size)
  if b.isClosed client then (b, .error .closed)
  else if b.kind = .nats then opened
  else if !b.accepts then (b, .error (.subscribe f.name "no connection"))
  else if b.faults.subscribeError then (asked, .error (.subscribe f.name "turned down"))
  else opened

/-- Changes a stream. -/
def setInbox (b : Broker) (id : Nat) (i : Inbox) : Broker :=
  { b with inboxes := b.inboxes.setIfInBounds id i }

/-- One step of a stream: a message that it received, or its end when the broker has ended it. -/
def receive (b : Broker) (id : Nat) : Broker × Receipt :=
  match b.inboxes[id]? with
  | none => (b, .ended)
  | some i =>
    match i.queue with
    | m :: rest => (b.setInbox id { i with queue := rest }, .message m)
    | [] => (b, if i.live then .waiting else .ended)

/-- All that a stream received, and whether it has ended. -/
def poll (b : Broker) (id : Nat) : Broker × List Message × Bool :=
  match b.inboxes[id]? with
  | none => (b, [], true)
  | some i => (b.setInbox id { i with queue := [] }, i.queue, !i.live)

/-- Closes a stream. -/
def drop (b : Broker) (id : Nat) : Broker :=
  match b.inboxes[id]? with
  | none => b
  | some i => b.setInbox id { i with queue := [], live := false }

/-- The broker closes every connection that has a subscription. -/
def kill (b : Broker) : Broker :=
  { b with inboxes := b.inboxes.map fun i => { i with live := false } }

instance : Medium Broker where
  backend b _ := b.kind.name
  delay _ _ := 0
  publish := publish
  subscribe := subscribe
  receive := receive
  drop := drop
  close := close
  inbound b _ channel := b.channelName channel

end Broker

end Telemetry
