import Telemetry.Node.Stop
import Telemetry.Node.Write

/-!
# Clusters

Nodes that share a medium, with the writes and stops on their way. Everything that can make a move
is a task; a move is atomic, and moves of different tasks may follow one another in any order.

* `Task`: what can make a move;
* `Cluster`: the medium, the nodes, and the clock;
* `Cluster.act`: one move of a task, none where it waits or is over; `Cluster.act_discovery_iff` and
  its like say what moves there are of each kind;
* `Cluster.deadline?`: when a task that waits goes on at the latest.
-/

namespace Telemetry

/-- What can make a move. -/
inductive Task where
  | discovery (node : Nat)
  | epoch (node : Nat)
  | dispatch (node : Nat)
  | consumer (node : Nat) (i : Nat)
  | writer (w : Nat)
  | stopper (s : Nat)
deriving DecidableEq, Repr

/-- Nodes that share a medium. -/
structure Cluster (μ : Type) where
  medium : μ
  nodes : Array Node := #[]
  writers : Array Writer := #[]
  stoppers : Array Stopper := #[]
  /-- The callers' tokens that are cancelled. -/
  revoked : List String := []
  /-- The time in milliseconds. -/
  now : Nat := 0
  /-- The reports so far. -/
  journal : List Signal := []

namespace Cluster

variable {μ : Type}

/-- The cluster with one node changed. -/
def setNode (c : Cluster μ) (i : Nat) (n : Node) (signals : List Signal := []) : Cluster μ :=
  { c with nodes := c.nodes.setIfInBounds i n, journal := c.journal ++ signals }

/-- A write on its way holds the node. -/
def isWriting (c : Cluster μ) (node : Nat) : Bool :=
  c.writers.toList.any fun w => w.node == node && !w.isDone

/-- A node that nobody holds any more is cancelled. -/
def release (c : Cluster μ) (node : Nat) : Cluster μ :=
  match c.nodes[node]? with
  | some n =>
    if n.held || c.isWriting node then c else c.setNode node { n with cancelled := true }
  | none => c

/-- Whether the caller's token of a write is cancelled. -/
def isRevoked (c : Cluster μ) (w : Writer) : Bool :=
  match w.token with
  | some t => c.revoked.contains t
  | none => false

variable [Medium μ]

/-- The move of a loop that needs the medium. -/
def apply (c : Cluster μ) (node : Nat) (m : Move μ) : Cluster μ :=
  { c.setNode node m.node m.signals with medium := m.medium }

/-- One move of a write. -/
def actWriter (c : Cluster μ) (i : Nat) : Option (Cluster μ) := do
  let w ← c.writers[i]?
  let n ← c.nodes[w.node]?
  let r ← w.act c.now (c.isRevoked w) c.medium n
  let finished := if r.stage = .done then some c.now else none
  let c := c.apply w.node ⟨r.medium, r.node, r.signals⟩
  let c := { c with writers := c.writers.setIfInBounds i { w with stage := r.stage, finished } }
  return if r.stage = .done then c.release w.node else c

/-- One move of a stop. -/
def actStopper (c : Cluster μ) (i : Nat) : Option (Cluster μ) := do
  let s ← c.stoppers[i]?
  let n ← c.nodes[s.node]?
  let r ← s.act c.medium n
  let finished := if r.stage = .done then some c.now else none
  let c := c.apply s.node ⟨r.medium, r.node, r.signals⟩
  return { c with stoppers := c.stoppers.setIfInBounds i { s with stage := r.stage, finished } }

/-- One move of a task, none where it waits or is over. -/
def act (c : Cluster μ) : Task → Option (Cluster μ)
  | .discovery i => do
    let n ← c.nodes[i]?
    return c.apply i (← n.discover c.now c.medium)
  | .epoch i => do
    let n ← c.nodes[i]?
    let (n, signals) ← n.turn c.now
    return c.setNode i n signals
  | .dispatch i => do
    let n ← c.nodes[i]?
    let (n, signals) ← n.dispatchNext
    return c.setNode i n signals
  | .consumer i k => do
    let n ← c.nodes[i]?
    return c.apply i (← n.consume c.now k c.medium)
  | .writer i => c.actWriter i
  | .stopper i => c.actStopper i

section

variable {c c' : Cluster μ} {i k : Nat}

theorem act_discovery_iff : c.act (.discovery i) = some c' ↔ ∃ n, c.nodes[i]? = some n ∧
    ∃ mv, n.discover c.now c.medium = some mv ∧ c.apply i mv = c' := by
  simp only [act, Option.bind_eq_bind, Option.bind_eq_some_iff, Option.pure_def, Option.some.injEq]

theorem act_consumer_iff : c.act (.consumer i k) = some c' ↔ ∃ n, c.nodes[i]? = some n ∧
    ∃ mv, n.consume c.now k c.medium = some mv ∧ c.apply i mv = c' := by
  simp only [act, Option.bind_eq_bind, Option.bind_eq_some_iff, Option.pure_def, Option.some.injEq]

theorem act_epoch_iff : c.act (.epoch i) = some c' ↔ ∃ n, c.nodes[i]? = some n ∧
    ∃ n' signals, n.turn c.now = some (n', signals) ∧ c.setNode i n' signals = c' := by
  simp only [act, Option.bind_eq_bind, Option.bind_eq_some_iff, Option.pure_def, Option.some.injEq,
    Prod.exists]

theorem act_dispatch_iff : c.act (.dispatch i) = some c' ↔ ∃ n, c.nodes[i]? = some n ∧
    ∃ n' signals, n.dispatchNext = some (n', signals) ∧ c.setNode i n' signals = c' := by
  simp only [act, Option.bind_eq_bind, Option.bind_eq_some_iff, Option.pure_def, Option.some.injEq,
    Prod.exists]

theorem act_stopper_iff : c.act (.stopper i) = some c' ↔ ∃ s, c.stoppers[i]? = some s ∧
    ∃ n, c.nodes[s.node]? = some n ∧ ∃ r, s.act c.medium n = some r ∧
      { c.apply s.node ⟨r.medium, r.node, r.signals⟩ with
        stoppers := c.stoppers.setIfInBounds i { s with
          stage := r.stage
          finished := if r.stage = .done then some c.now else none } } = c' := by
  simp only [act, actStopper, Option.bind_eq_bind, Option.bind_eq_some_iff, Option.pure_def,
    Option.some.injEq]
  rfl

end

/-- When a listener goes on at the latest. -/
def listenerDeadline? : Listener → Option Nat
  | .resting wake _ _ => some wake
  | _ => none

omit [Medium μ] in
/-- When a task that waits goes on at the latest, if it waits for a time. -/
def deadline? (c : Cluster μ) : Task → Option Nat
  | .discovery i => c.nodes[i]?.bind fun n => listenerDeadline? n.discovery
  | .epoch i => c.nodes[i]?.bind (·.nextEpoch)
  | .dispatch _ => none
  | .consumer i k =>
    c.nodes[i]?.bind fun n => n.consumers[k]?.bind fun s => listenerDeadline? s.listener
  | .writer i => c.writers[i]?.bind (·.deadline?)
  | .stopper _ => none

omit [Medium μ] in
/-- Whether a task is over. -/
def isOver (c : Cluster μ) : Task → Bool
  | .discovery i => c.nodes[i]?.all (·.discovery == .ended)
  | .epoch i => c.nodes[i]?.all (·.nextEpoch.isNone)
  | .dispatch i => c.nodes[i]?.all (·.dispatch == .ended)
  | .consumer i k => c.nodes[i]?.all fun n => n.consumers[k]?.all (·.listener == .ended)
  | .writer i => c.writers[i]?.all (·.isDone)
  | .stopper i => c.stoppers[i]?.all (·.isDone)

end Cluster

end Telemetry
