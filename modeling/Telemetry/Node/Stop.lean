import Telemetry.Node.Basic

/-!
# Stopping

Whoever stops a node cancels its token, takes the handles of its loops and waits for them, closes
the link, and only then declares the node stopped. A node that is stopped already is left alone.
Someone else who stops the node meanwhile finds the handles taken, and has nothing to wait for.

* `StopStage`, `Stopper`: a stop on its way;
* `Stopper.act`: one move of it.
-/

namespace Telemetry

/-- Where a stop stands. -/
inductive StopStage where
  | checking
  | cancelling
  | taking
  /-- Waiting for the loops, if it has their handles. -/
  | joining (handles : Bool)
  | closing
  | declaring
  | done
deriving DecidableEq, Repr

/-- A stop on its way. -/
structure Stopper where
  /-- The number of the node. -/
  node : Nat
  stage : StopStage := .checking
  /-- When it began. -/
  began : Nat
  /-- When it was over. -/
  finished : Option Nat := none
deriving DecidableEq

/-- What a move of a stop leaves. -/
structure Halted (μ : Type) where
  medium : μ
  node : Node
  stage : StopStage
  signals : List Signal := []

namespace Stopper

variable {μ : Type} [Medium μ]

/-- The stop is over. -/
def isDone (s : Stopper) : Bool := s.stage == .done

/-- One move of a stop, or none where it waits for the loops or is over. -/
def act (m : μ) (n : Node) (s : Stopper) : Option (Halted μ) :=
  let stay (n : Node) (stage : StopStage) : Option (Halted μ) :=
    some { medium := m, node := n, stage }
  match s.stage with
  | .checking => stay n (if n.state = .stopped then .done else .cancelling)
  | .cancelling => stay { n with cancelled := true } .taking
  | .taking => stay { n with handlesTaken := true } (.joining !n.handlesTaken)
  | .joining handles => if handles && !n.loopsEnded then none else stay n .closing
  | .closing =>
    match n.link with
    | some link => some { medium := Medium.close m link, node := n, stage := .declaring }
    | none => stay n .declaring
  | .declaring =>
    some { medium := m, node := { n with state := .stopped }, stage := .done,
           signals := [.set .syncState SyncState.stopped.code] }
  | .done => none

end Stopper

end Telemetry
