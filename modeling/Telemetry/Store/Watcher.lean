import Telemetry.Report
import Telemetry.Store.Basic

/-!
# Watchers

A watcher is sent the contents of a store and then, if it follows, what is written later. A worker
of its own sends: it puts notices into a queue of limited size, from which the watcher takes them,
and waits while the queue is full. What is written meanwhile waits in the store's feed.

* `Interest.narrow`: the part of a notice that is wanted;
* `Watcher`: a watcher with its queue and its worker;
* `Watcher.act`: one step of the worker, none where it waits;
* `Watcher.run`: all steps up to a wait; `Watcher.drain`: taking everything that comes.
-/

namespace Telemetry

/-- The part of a notice that is wanted, if any. -/
def Interest.narrow (i : Interest) (notice : Notice) : Option Notice :=
  let n := notice.notification
  if !i.wantsSubscription notice.subscription || !i.wantsTarget n.target then none
  else if i.paths.isEmpty then some notice
  else
    let updates := n.updates.filter fun u => i.wantsPath (n.full u.path)
    let deletes := n.deletes.filter fun d => i.wantsPath (n.full d)
    if updates.isEmpty && deletes.isEmpty then none
    else some { notice with notification := { n with updates, deletes } }

/-- How many notices wait in the queue at most. -/
def queueCapacity : Nat := 256

/-- A watcher, its queue, and where its worker stands. -/
structure Watcher where
  interest : Interest
  /-- Contents that are not sent yet. -/
  pending : List Notice
  /-- How much of the feed was taken. -/
  next : Nat
  /-- A notice from the feed for which there is no room yet. -/
  holding : Option Notice := none
  /-- Sent, and not taken by the watcher yet. -/
  queue : List Notice := []
  cancelled : Bool := false
  /-- The watcher is gone and takes nothing more. -/
  dropped : Bool := false
  ended : Bool := false

namespace Watcher

/-- A new watcher of a store, and the store it leaves. -/
def start (now : Nat) (i : Interest) (s : Store) : Store × Watcher :=
  let next := s.feed.size
  if i.wantsContents then
    let (s, pending) := s.snapshot now i
    (s, { interest := i, pending, next })
  else (s, { interest := i, pending := [], next })

/-- The worker ends. -/
def finish (w : Watcher) : Watcher := { w with ended := true, pending := [], holding := none }

/-- Room in the queue. -/
def hasRoom (w : Watcher) : Bool := w.queue.length < queueCapacity

/-- One step of the worker, with its reports; none where it waits. It looks at its cancellation when
it is about to send contents or to fetch, not while it holds a notice from the feed. There a worker
that is cancelled ends, even where it could send or fetch: that it may do so first is left out.
`closed` says that nothing more will be written. -/
def act (feed : Feed Notice) (closed : Bool) (w : Watcher) : Option (Watcher × List Signal) :=
  if w.ended then none
  else
    match w.pending, w.holding with
    | n :: rest, _ =>
      if w.cancelled || w.dropped then some (w.finish, [])
      else if w.hasRoom then some ({ w with pending := rest, queue := w.queue ++ [n] }, [])
      else none
    | [], some n =>
      if w.dropped then some (w.finish, [])
      else if w.hasRoom then some ({ w with holding := none, queue := w.queue ++ [n] }, [])
      else none
    | [], none =>
      if !w.interest.follow || w.cancelled then some (w.finish, [])
      else
        match feed.fetch w.next with
        | .item n => some ({ w with next := w.next + 1, holding := w.interest.narrow n }, [])
        | .lagged skipped =>
          some ({ w with next := w.next + skipped }, [.warn (.watcherLagged skipped)])
        | .caughtUp => if closed then some (w.finish, []) else none

/-- A bound on the steps that are left before the worker waits or ends. -/
def work (feed : Feed Notice) (w : Watcher) : Nat :=
  2 * w.pending.length + 2 * (feed.size - w.next) + (if w.holding.isSome then 1 else 0) +
    (if w.ended then 0 else 1)

/-- Up to `fuel` steps of the worker. -/
def runFor (feed : Feed Notice) (closed : Bool) : Nat → Watcher → Watcher × List Signal
  | 0, w => (w, [])
  | fuel + 1, w =>
    match w.act feed closed with
    | none => (w, [])
    | some (w, signals) =>
      let (w, more) := runFor feed closed fuel w
      (w, signals ++ more)

/-- The steps of the worker until it waits or ends. -/
def run (feed : Feed Notice) (closed : Bool) (w : Watcher) : Watcher × List Signal :=
  w.runFor feed closed (w.work feed)

/-- What the watcher takes from its queue. -/
def take (w : Watcher) : Watcher × List Notice := ({ w with queue := [] }, w.queue)

/-- Up to `fuel` times, the watcher empties its queue and the worker goes on. -/
def drainFor (feed : Feed Notice) (closed : Bool) :
    Nat → Watcher → Watcher × List Notice × List Signal
  | 0, w => (w, [], [])
  | fuel + 1, w =>
    let (w, taken) := w.take
    let (w, signals) := w.run feed closed
    if w.queue.isEmpty then (w, taken, signals)
    else
      let (w, later, more) := drainFor feed closed fuel w
      (w, taken ++ later, signals ++ more)

/-- All that the watcher gets by emptying its queue as long as something comes. Every round but the
last one lowers the work that is left. -/
def drain (feed : Feed Notice) (closed : Bool) (w : Watcher) :
    Watcher × List Notice × List Signal :=
  w.drainFor feed closed (w.work feed + 1)

/-- The watcher no longer wants to be sent anything. -/
def cancel (w : Watcher) : Watcher := { w with cancelled := true }

/-- The watcher is gone. -/
def drop (w : Watcher) : Watcher := { w with dropped := true, queue := [] }

/-- Nothing more will come. -/
def isClosed (w : Watcher) : Bool := w.ended && w.queue.isEmpty

end Watcher

end Telemetry
