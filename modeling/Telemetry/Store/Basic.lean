import Telemetry.Duration
import Telemetry.Feed
import Telemetry.Interest
import Telemetry.Path.Text

/-!
# Stores

A store keeps the last update of every place, by subscription and target. A notification first
removes what its deletes cover and then puts its updates in. Places are told apart by their printed
form, under which they are also listed. Updates that are not written again are dropped some time
after they were written, when the store is next looked at.

* `Shelf`: what is kept for one target; `Store`: all shelves, and the feed of what was written;
* `Store.write`, `Store.deleteTarget`, `Store.clear`: changing a store;
* `Store.prune`, `Store.snapshot`, `Store.read`: looking at it.
-/

namespace Telemetry

/-- A notification and the subscription under which it was written. -/
structure Notice where
  subscription : String
  notification : Notification
deriving DecidableEq, Inhabited

/-- An update with its full path, and when it was written. -/
structure Row where
  update : Update
  writtenAt : Nat
deriving DecidableEq

/-- What is kept for one target. -/
structure Shelf where
  origin : String := ""
  timestamp : Int64 := 0
  /-- The last update of every place, by its printed form. -/
  rows : Table Row := .empty
deriving DecidableEq, Inhabited

/-! ## One shelf -/

namespace Shelf

/-- The rows that no delete of the notification covers. -/
def removed (n : Notification) (rows : Table Row) : Table Row :=
  n.deletes.foldl (fun t d => t.filter fun _ r => !(n.full d).covers r.update.path) rows

/-- The rows with an update of the notification put in. -/
def put (now : Nat) (n : Notification) (rows : Table Row) (u : Update) : Table Row :=
  rows.insert (n.full u.path).print ⟨{ u with path := n.full u.path }, now⟩

/-- The shelf after a notification. -/
def apply (now : Nat) (n : Notification) (s : Shelf) : Shelf where
  origin := if n.basePath.origin.isEmpty then s.origin else n.basePath.origin
  timestamp := max s.timestamp n.timestamp
  rows := n.updates.foldl (put now n) (removed n s.rows)

/-- The base path of what is returned for a target. -/
def base (s : Shelf) (target : String) : Option Path :=
  if s.origin.isEmpty && target.isEmpty then none else some { origin := s.origin, target }

/-- What is returned for a target: the updates whose places are wanted, if there are any. -/
def notification? (s : Shelf) (i : Interest) (target : String) : Option Notification :=
  let updates := (s.rows.values.map (·.update)).filter fun u => i.wantsPath u.path
  if updates.isEmpty then none
  else some { timestamp := s.timestamp, base := s.base target, updates }

end Shelf

/-! ## The store -/

/-- How many written notifications a watcher may be behind. -/
def noticeCapacity : Nat := 1024

/-- The last update of every place, and the feed of what was written. -/
structure Store where
  /-- How long an update lives that is not written again. -/
  lifetime : Option Duration := none
  /-- The shelves, by subscription and target. -/
  contents : Table (Table Shelf) := .empty
  feed : Feed Notice := { capacity := noticeCapacity }

namespace Store

instance : Inhabited Store := ⟨{}⟩

/-- The number of subscriptions with a shelf. -/
def size (s : Store) : Nat := s.contents.size

/-- Whether no subscription has a shelf. -/
def isEmpty (s : Store) : Bool := s.contents.isEmpty

/-- The shelf of a subscription and target. -/
def shelf? (s : Store) (subscription target : String) : Option Shelf :=
  (s.contents.find? subscription).bind (·.find? target)

/-- The store with a notification applied. -/
def apply (now : Nat) (subscription : String) (n : Notification) (s : Store) : Store :=
  { s with
    contents := s.contents.upsert subscription .empty fun shelves =>
      shelves.upsert n.target {} (Shelf.apply now n) }

/-- Writes an envelope at a time. Only notifications that hold something have an effect. Applying
one and putting it into the feed are one step. In two steps, notifications written at once might be
applied in one order and fed in the other, and a watcher that comes in between would get one as
contents and from the feed. -/
def write (now : Nat) (subscription : String) (e : Envelope) (s : Store) : Store :=
  match e.notification? with
  | none => s
  | some n =>
    if n.isEmpty then s
    else
      let s := s.apply now subscription n
      { s with feed := s.feed.push ⟨subscription, n⟩ }

/-- Drops all that is kept for a target. -/
def deleteTarget (target : String) (s : Store) : Store :=
  { s with
    contents := s.contents.filterMap fun _ shelves =>
      let rest := shelves.erase target
      if rest.isEmpty then none else some rest }

/-- Drops everything. -/
def clear (s : Store) : Store := { s with contents := .empty }

/-! ## Looking at a store -/

/-- A row older than the lifetime. -/
def isExpired (now : Nat) (lifetime : Duration) (r : Row) : Bool :=
  lifetime.nanos < now - r.writtenAt

/-- The shelves with something on them, after the expired rows are gone. -/
def fresh (now : Nat) (lifetime : Duration) (shelves : Table Shelf) : Table Shelf :=
  shelves.filterMap fun _ s =>
    let rows := s.rows.filter fun _ r => !isExpired now lifetime r
    if rows.isEmpty then none else some { s with rows }

/-- Drops the expired rows, and then the shelves and subscriptions without any. -/
def prune (now : Nat) (s : Store) : Store :=
  match s.lifetime with
  | none => s
  | some lifetime =>
    { s with
      contents := s.contents.filterMap fun _ shelves =>
        let rest := fresh now lifetime shelves
        if rest.isEmpty then none else some rest }

/-- What is returned for one subscription, by target. -/
def notifications (i : Interest) (shelves : Table Shelf) : List Notification :=
  shelves.rows.filterMap fun r =>
    if i.wantsTarget r.1 then r.2.notification? i r.1 else none

/-- The contents that are wanted. -/
def collect (i : Interest) (s : Store) : List Notice :=
  s.contents.rows.flatMap fun r =>
    if i.wantsSubscription r.1 then (notifications i r.2).map fun n => ⟨r.1, n⟩ else []

/-- The wanted contents at a time. -/
def snapshot (now : Nat) (i : Interest) (s : Store) : Store × List Notice :=
  let s := s.prune now
  (s, s.collect i)

/-- The contents by subscription. -/
def view (s : Store) : Table (List Notification) :=
  s.contents.filterMap fun _ shelves =>
    let l := notifications {} shelves
    if l.isEmpty then none else some l

/-- The contents by subscription at a time. -/
def read (now : Nat) (s : Store) : Store × Table (List Notification) :=
  let s := s.prune now
  (s, s.view)

end Store

end Telemetry
