import Telemetry.Envelope

/-!
# Interests

What a watcher wants to see of a store: a subscription, a target, places, and whether it wants to go
on watching after the present contents.

* `Interest`: the filters;
* `wantsSubscription`, `wantsTarget`, `wantsPath`: the three tests.
-/

namespace Telemetry

/-- What a watcher wants to see. -/
structure Interest where
  /-- Only this subscription. -/
  subscription : Option String := none
  /-- Only this target; an empty one or a star stands for all. -/
  target : Option String := none
  /-- Only places at or below one of these, or all where there are none. -/
  paths : List Path := []
  /-- Whether to go on with later writes. -/
  follow : Bool := false
  /-- Whether one that follows leaves out the present contents. -/
  updatesOnly : Bool := false
deriving DecidableEq, Inhabited

namespace Interest

/-- Whether notifications of the subscription are wanted. -/
def wantsSubscription (i : Interest) (subscription : String) : Bool :=
  match i.subscription with
  | none => true
  | some s => s == subscription

/-- Whether notifications about the target are wanted. -/
def wantsTarget (i : Interest) (target : String) : Bool :=
  match i.target with
  | none => true
  | some t => t == "*" || t.isEmpty || t == target

/-- Whether the place is wanted. -/
def wantsPath (i : Interest) (p : Path) : Bool := i.paths.isEmpty || i.paths.any (·.covers p)

/-- Whether the present contents come first. -/
def wantsContents (i : Interest) : Bool := !(i.follow && i.updatesOnly)

end Interest

end Telemetry
