import Telemetry.Backoff
import Telemetry.Medium
import Telemetry.Roster
import Telemetry.Settings
import Telemetry.Store.Watched

/-!
# Nodes

A node is a store kept in step with those of its peers over a medium. It announces a subscription
once an epoch, and it consumes the data of every subscription that it hears of or writes. Its loops
look at one token: when it is cancelled they end.

* `SyncState`, `Stats`: where a node stands;
* `Listener`: a loop that keeps a stream open;
* `Node`: the node with its loops; `Node.create`: a new one;
* `Node.read`: the contents of its store.
-/

namespace Telemetry

/-- Where a node stands. -/
inductive SyncState where
  | idle
  | running
  | stopped
deriving DecidableEq, Inhabited, Repr

namespace SyncState

/-- The number of a state, as a gauge shows it. -/
def code : SyncState → Nat
  | idle => 0
  | running => 1
  | stopped => 2

/-- The name of a state. -/
def name : SyncState → String
  | idle => "Idle"
  | running => "Running"
  | stopped => "Stopped"

end SyncState

/-- A loop that keeps a stream open. A subscription that fails is tried again under
`Backoff.daemon`. -/
inductive Listener where
  /-- About to subscribe, after so many failures; the next delay. -/
  | attempting (failures : Nat) (delay : Duration)
  /-- Resting until a time. -/
  | resting (wake : Nat) (failures : Nat) (delay : Duration)
  | listening (stream : Nat)
  | ended
deriving DecidableEq

/-- A loop that has not tried yet. -/
def Listener.fresh : Listener := .attempting 0 Backoff.daemon.initial

/-- A loop that consumes the data of a subscription. -/
structure Consumer where
  subscription : String
  listener : Listener := .fresh
deriving DecidableEq

/-- Where the loop stands that starts consumers. When it is cancelled it waits for them. -/
inductive Dispatch where
  | receiving
  | joining
  | ended
deriving DecidableEq, Repr

/-- A store kept in step with those of its peers. -/
structure Node where
  settings : Settings
  store : Watched
  /-- The link to the medium; a node without one keeps to itself. -/
  link : Option Nat := none
  /-- The text with which reads fail. -/
  readFault : Option String := none
  state : SyncState := .idle
  /-- The token of the node. -/
  cancelled : Bool := false
  /-- Subscriptions announced in this epoch. -/
  announced : Roster := .empty
  /-- Subscriptions that someone asked to be consumed. -/
  requests : List String := []
  /-- Subscriptions that are consumed. -/
  started : Roster := .empty
  discovery : Listener := .ended
  /-- A name that was heard and is not passed on yet. -/
  heard : Option String := none
  /-- When the next epoch begins; none when that loop has ended. -/
  nextEpoch : Option Nat := none
  dispatch : Dispatch := .ended
  consumers : List Consumer := []
  /-- Someone who stops the node has taken the handles of its loops, to wait for them. -/
  handlesTaken : Bool := false
  /-- The owner of the node still has it. -/
  held : Bool := true

/-- A node at a moment. -/
structure Stats where
  backend : String
  state : SyncState
  announced : Nat
  started : Nat
deriving DecidableEq, Repr

namespace Node

instance : Inhabited Node := ⟨{ settings := {}, store := {} }⟩

/-- The length of an epoch in milliseconds. -/
def period (n : Node) : Nat := n.settings.resetPeriod.ticks

/-- How long a publish may take, in milliseconds. -/
def timeout (n : Node) : Nat := n.settings.writeTimeout.ticks

/-- Room for one more request. -/
def hasRoom (n : Node) : Bool := n.requests.length < n.settings.queueCapacity.toNat

/-- A new node at a time. With a link its loops run at once. -/
def create (settings : Settings) (link : Option Nat) (now : Nat) : Node × List Signal :=
  let settings := settings.complete
  let store : Watched := { store := { lifetime := settings.expiration } }
  match link with
  | none => ({ settings, store }, [])
  | some _ =>
    ({ settings, store, link, state := .running, discovery := .fresh,
       nextEpoch := some (now + settings.resetPeriod.ticks), dispatch := .receiving },
      [.set .syncState SyncState.running.code])

/-- The loops of discovery, epochs and dispatch have ended. -/
def loopsEnded (n : Node) : Bool :=
  n.discovery == .ended && n.nextEpoch.isNone && n.dispatch == .ended

/-- Writes an envelope to the store. -/
def keep (n : Node) (subscription : String) (e : Envelope) : Node :=
  { n with store := n.store.write subscription e }

/-- Why a read failed. -/
def readError (text : String) : String := "cache read failed: " ++ text

/-- The contents of the store by subscription, or why they could not be read. -/
def read (n : Node) : Node × Except String (Table (List Notification)) :=
  match n.readFault with
  | some text => (n, .error (readError text))
  | none =>
    let (store, view) := n.store.read
    ({ n with store }, .ok view)

/-- What a node tells of itself. -/
def stats {μ : Type} [Medium μ] (m : μ) (n : Node) : Stats where
  backend := match n.link with
    | some link => Medium.backend m link
    | none => Backend.none.name
  state := n.state
  announced := n.announced.size
  started := n.started.size

end Node

end Telemetry
