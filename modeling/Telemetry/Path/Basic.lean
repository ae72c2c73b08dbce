import Telemetry.Table

/-!
# Paths

A path names a place in the tree of values of a device: the elements from the root, each with keys
that pick one entry of a list, and perhaps the origin of the schema and the name of the device (the
target).

* `Element`, `Path`: the types;
* `Path.join`: the place that a path names below another;
* `Path.covers`: whether a place lies at or below another;
* `Element.compare`: the order of elements.
-/

namespace Telemetry

/-- One step down the tree: a name, and the keys that pick an entry. -/
structure Element where
  name : String
  keys : Table String := .empty
deriving DecidableEq, Inhabited

/-- A place in the tree of values of a device. -/
structure Path where
  origin : String := ""
  elements : List Element := []
  target : String := ""
deriving DecidableEq, Inhabited

namespace Element

/-- The element with the key `k` set to `v`. -/
def withKey (e : Element) (k v : String) : Element := { e with keys := e.keys.insert k v }

/-- Every key of `a` has the same value in `b`, and the names agree. -/
def covers (a b : Element) : Bool :=
  a.name == b.name && a.keys.rows.all fun r => b.keys.find? r.1 == some r.2

/-- Row by row, name before value; a list that ends first comes first. -/
def compareRows : List (String × String) → List (String × String) → Ordering
  | [], [] => .eq
  | [], _ :: _ => .lt
  | _ :: _, [] => .gt
  | a :: as, b :: bs =>
    (compare a.1 b.1).then ((compare a.2 b.2).then (compareRows as bs))

/-- Elements are ordered by name, then by their keys as a list of rows. -/
def compare (a b : Element) : Ordering :=
  (Ord.compare a.name b.name).then (compareRows a.keys.rows b.keys.rows)

/-- The elements in ascending order. -/
def sort (l : List Element) : List Element := l.mergeSort fun a b => (a.compare b).isLE

end Element

namespace Path

/-- The path that names a target only. -/
def ofTarget (target : String) : Path := { target }

/-- The place `p` below `base`; the origin is that of `p` where it has one. -/
def join (base p : Path) : Path where
  origin := if p.origin.isEmpty then base.origin else p.origin
  elements := base.elements ++ p.elements

/-- Each element of the first list covers the element at its place in the second. -/
def coversElements : List Element → List Element → Bool
  | [], _ => true
  | _ :: _, [] => false
  | a :: as, b :: bs => a.covers b && coversElements as bs

/-- The place `p` lies at or below a place that `base` names. -/
def covers (base p : Path) : Bool := coversElements base.elements p.elements

@[simp] theorem join_elements (a b : Path) : (a.join b).elements = a.elements ++ b.elements := rfl
@[simp] theorem join_target (a b : Path) : (a.join b).target = "" := rfl
theorem join_origin (a b : Path) :
    (a.join b).origin = if b.origin.isEmpty then a.origin else b.origin := rfl

end Path

end Telemetry
