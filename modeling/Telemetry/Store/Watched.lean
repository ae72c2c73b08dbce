import Telemetry.Store.Watcher

/-!
# Watched stores

A store together with its watchers, each under a name. Every operation takes a little time.

* `Watched`: the store, the watchers, the clock, and the reports so far;
* `Watched.settle`: the workers run until they wait;
* `write`, `read`, `watch`, `drain` and the other operations.
-/

namespace Telemetry

/-- A store with its watchers. -/
structure Watched where
  store : Store := {}
  watchers : List (String × Watcher) := []
  /-- The time in nanoseconds. -/
  now : Nat := 0
  /-- Nothing more will be written. -/
  closed : Bool := false
  signals : List Signal := []

namespace Watched

/-- An operation takes a nanosecond. -/
def tick (w : Watched) : Watched := { w with now := w.now + 1 }

/-- The workers run until they wait. -/
def settle (w : Watched) : Watched :=
  let runs := w.watchers.map fun p => (p.1, p.2.run w.store.feed w.closed)
  { w with
    watchers := runs.map fun r => (r.1, r.2.1)
    signals := w.signals ++ runs.flatMap fun r => r.2.2 }

/-- Writes an envelope. -/
def write (subscription : String) (e : Envelope) (w : Watched) : Watched :=
  { w with store := w.store.write w.now subscription e }

/-- The contents by subscription. -/
def read (w : Watched) : Watched × Table (List Notification) :=
  let (store, view) := w.store.read w.now
  ({ w with store }, view)

/-- Drops all that is kept for a target. -/
def deleteTarget (target : String) (w : Watched) : Watched :=
  { w with store := w.store.deleteTarget target }

/-- Drops everything. -/
def clear (w : Watched) : Watched := { w with store := w.store.clear }

/-- Lets time pass, in milliseconds. -/
def sleep (ms : Nat) (w : Watched) : Watched := { w with now := w.now + ms * 1000000 }

/-- Changes the watcher of a name. -/
def modify (name : String) (f : Watcher → Watcher) (w : Watched) : Watched :=
  { w with watchers := w.watchers.map fun p => if p.1 == name then (p.1, f p.2) else p }

/-- The reports so far, which are handed over. -/
def handOver (w : Watched) : Watched × List Signal := ({ w with signals := [] }, w.signals)

/-- Starts a watcher under a name. -/
def watch (name : String) (i : Interest) (w : Watched) : Watched :=
  let (store, watcher) := Watcher.start w.now i w.store
  { w with store, watchers := w.watchers.filter (·.1 != name) ++ [(name, watcher)] }

/-- What the watcher of a name gets, and whether nothing more will come. -/
def drain (name : String) (w : Watched) : Watched × List Notice × Bool :=
  match w.watchers.lookup name with
  | none => (w, [], true)
  | some watcher =>
    let (watcher, taken, signals) := watcher.drain w.store.feed w.closed
    let w := w.modify name fun _ => watcher
    ({ w with signals := w.signals ++ signals }, taken, watcher.isClosed)

end Watched

end Telemetry
