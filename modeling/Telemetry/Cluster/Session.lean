import Telemetry.Cluster.Basic

/-!
# Sessions

A session runs a cluster by one fair order of moves. Tasks that can move stand in a queue; each runs
until it waits, and joins the others that wait. What a move makes possible joins the queue in the
order in which it began to wait. Time passes only when all tasks wait, and then up to the next time
for which one waits. A call runs before all tasks until it waits itself.

* `Session`: a cluster with its queue;
* `Session.settle`: all moves that take no time;
* `Session.perform`: a call until it is over; `Session.advance`: letting time pass;
* `addNode`, `write`, `spawn`, `stop`, `forget`: calls.
-/

namespace Telemetry

/-- A cluster with the tasks that can move, and those that wait. -/
structure Session (μ : Type) where
  cluster : Cluster μ
  ready : List Task := []
  waiting : List Task := []

namespace Session

variable {μ : Type} [Medium μ]

/-! ## The order of moves -/

/-- The tasks that waited and can move now join the queue. -/
def wake (s : Session μ) : Session μ :=
  let (able, waiting) := s.waiting.partition fun t => (s.cluster.act t).isSome
  { s with ready := s.ready ++ able, waiting }

/-- The consumers that a move of dispatch has started. -/
def startedBy (t : Task) (before after : Cluster μ) : List Task :=
  match t with
  | .dispatch i =>
    let count (c : Cluster μ) : Nat := (c.nodes[i]?.map (·.consumers.length)).getD 0
    (List.range' (count before) (count after - count before)).map (.consumer i)
  | _ => []

/-- The session after a move of a task. -/
def moved (t : Task) (c : Cluster μ) (s : Session μ) : Session μ :=
  { s with cluster := c, ready := s.ready ++ startedBy t s.cluster c }.wake

/-- The first task of the queue moves or waits; none when the queue is empty. -/
def turn (s : Session μ) : Option (Session μ) :=
  match s.ready with
  | [] => none
  | t :: rest =>
    match s.cluster.act t with
    | some c => some (s.moved t c)
    | none =>
      let waiting := if s.cluster.isOver t then s.waiting else s.waiting ++ [t]
      some { s with ready := rest, waiting }

/-- Up to `fuel` turns. -/
def turns : Nat → Session μ → Session μ
  | 0, s => s
  | fuel + 1, s =>
    match s.turn with
    | none => s
    | some s => turns fuel s

/-- A bound on the turns that are taken without time passing. -/
def patience : Nat := 1000000

/-- The watchers of all stores take what was written. -/
def attend (s : Session μ) : Session μ :=
  let c := s.cluster
  let served := c.nodes.mapIdx fun i n =>
    let closed := !n.held && !c.isWriting i && n.loopsEnded
    let (store, signals) := { n.store with closed }.settle.handOver
    ({ n with store }, signals)
  { s with
    cluster := { c with
      nodes := served.map (·.1)
      journal := c.journal ++ served.toList.flatMap (·.2) } }

/-- All moves that take no time. -/
def settle (s : Session μ) : Session μ := (s.turns patience).attend

/-! ## Time -/

/-- The time is set, and the tasks that waited for it join the queue. -/
def clock (now : Nat) (s : Session μ) : Session μ :=
  { s with cluster := { s.cluster with now } }.wake

/-- The next time for which a task waits, among those given. -/
def nextTime (tasks : List Task) (s : Session μ) : Option Nat :=
  (tasks.filterMap s.cluster.deadline?).min?

/-- Lets time pass up to `target`, over at most `fuel` times at which something happens. -/
def advanceFor : Nat → Nat → Session μ → Session μ
  | 0, target, s => (s.clock target).settle
  | fuel + 1, target, s =>
    match s.nextTime s.waiting with
    | some time =>
      if time ≤ target then advanceFor fuel target (s.clock time).settle
      else (s.clock target).settle
    | none => (s.clock target).settle

/-- Lets so many milliseconds pass. -/
def advance (ms : Nat) (s : Session μ) : Session μ :=
  s.settle.advanceFor (ms + 1) (s.cluster.now + ms)

/-- Up to `fuel` moves and waits of a call. It moves before all tasks; while it waits they run. -/
def performFor (t : Task) : Nat → Session μ → Session μ
  | 0, s => s
  | fuel + 1, s =>
    match s.cluster.act t with
    | some c => performFor t fuel (s.moved t c)
    | none =>
      if s.cluster.isOver t then s
      else
        let s := s.settle
        if (s.cluster.act t).isSome then performFor t fuel s
        else
          match s.nextTime (t :: s.waiting) with
          | some time => performFor t fuel (s.clock time)
          | none => s

/-- A call, and then all moves that take no time. -/
def perform (t : Task) (s : Session μ) : Session μ := (performFor t patience s).settle

/-! ## Calls -/

/-- Something happens to the medium from outside. -/
def onMedium (f : μ → μ) (s : Session μ) : Session μ :=
  { s with cluster := { s.cluster with medium := f s.cluster.medium } }.wake

/-- Changes a node. -/
def modify (node : Nat) (f : Node → Node) (s : Session μ) : Session μ :=
  { s with cluster := { s.cluster with nodes := s.cluster.nodes.modify node f } }

/-- The node with a number. -/
def node (s : Session μ) (i : Nat) : Node := s.cluster.nodes.getD i default

/-- A new node with a link to the medium, or one that keeps to itself. -/
def addNode (settings : Settings) (link : Option Nat) (readFault : Option String)
    (s : Session μ) : Session μ × Nat :=
  let c := s.cluster
  let i := c.nodes.size
  let (n, signals) := Node.create settings link c.now
  let tasks : List Task := if link.isSome then [.discovery i, .epoch i, .dispatch i] else []
  ({ s with
     cluster := { c with
       nodes := c.nodes.push { n with readFault }
       journal := c.journal ++ signals }
     ready := s.ready ++ tasks }, i)

/-- A write that is about to begin, and its number. -/
def addWriter (node : Nat) (token : Option String) (subscription : String) (e : Envelope)
    (s : Session μ) : Session μ × Nat :=
  let c := s.cluster
  let w : Writer := { node, token, subscription, envelope := e, began := c.now }
  ({ s with cluster := { c with writers := c.writers.push w } }, c.writers.size)

/-- How long a write took, when it is over. -/
def writerElapsed (s : Session μ) (w : Nat) : Option Nat := do
  let w ← s.cluster.writers[w]?
  return (← w.finished) - w.began

/-- Writes an envelope at a node, and returns how long it took. -/
def write (node : Nat) (token : Option String) (subscription : String) (e : Envelope)
    (s : Session μ) : Session μ × Nat :=
  let (s, w) := s.addWriter node token subscription e
  let s := s.perform (.writer w)
  (s, (s.writerElapsed w).getD 0)

/-- Begins to write an envelope at a node, and returns the number of the write. -/
def spawn (node : Nat) (token : Option String) (subscription : String) (e : Envelope)
    (s : Session μ) : Session μ × Nat :=
  let (s, w) := s.addWriter node token subscription e
  ({ s with ready := s.ready ++ [.writer w] }, w)

/-- Cancels a caller's token. -/
def revoke (token : String) (s : Session μ) : Session μ :=
  { s with cluster := { s.cluster with revoked := token :: s.cluster.revoked } }.wake

/-- Stops a node, and returns how long it took. -/
def stop (node : Nat) (s : Session μ) : Session μ × Nat :=
  let c := s.cluster
  let k := c.stoppers.size
  let s := { s with cluster := { c with stoppers := c.stoppers.push { node, began := c.now } } }
  let s := s.perform (.stopper k)
  let finished := (s.cluster.stoppers[k]?.bind (·.finished)).getD c.now
  (s, finished - c.now)

/-- The owner of a node lets it go. -/
def forget (node : Nat) (s : Session μ) : Session μ :=
  let s := s.modify node fun n => { n with held := false }
  { s with cluster := s.cluster.release node }.wake

/-- What a node tells of itself. -/
def stats (node : Nat) (s : Session μ) : Stats := (s.node node).stats s.cluster.medium

/-- The contents of a node's store, or why they could not be read. -/
def read (node : Nat) (s : Session μ) :
    Session μ × Except String (Table (List Notification)) :=
  let (n, r) := (s.node node).read
  (s.modify node fun _ => n, r)

/-- Drops all that a node keeps for a target. -/
def deleteTarget (node : Nat) (target : String) (s : Session μ) : Session μ :=
  s.modify node fun n => { n with store := n.store.deleteTarget target }

/-- Starts a watcher of a node's store under a name. -/
def watch (node : Nat) (name : String) (i : Interest) (s : Session μ) : Session μ :=
  s.modify node fun n => { n with store := n.store.watch name i }

/-- What the watcher of a name gets, and whether nothing more will come. -/
def drain (node : Nat) (name : String) (s : Session μ) : Session μ × List Notice × Bool :=
  let (store, taken, closed) := (s.node node).store.drain name
  (s.modify node fun n => { n with store }, taken, closed)

/-- Changes the watcher of a name. -/
def modifyWatcher (node : Nat) (name : String) (f : Watcher → Watcher) (s : Session μ) :
    Session μ :=
  s.modify node fun n => { n with store := n.store.modify name f }

/-- A little time passes at the clocks by which stores age. -/
def tick (s : Session μ) : Session μ :=
  { s with cluster := { s.cluster with
      nodes := s.cluster.nodes.map fun n => { n with store := n.store.tick } } }

/-- The reports so far, which are handed over. -/
def handOver (s : Session μ) : Session μ × List Signal :=
  ({ s with cluster := { s.cluster with journal := [] } }, s.cluster.journal)

end Session

end Telemetry
