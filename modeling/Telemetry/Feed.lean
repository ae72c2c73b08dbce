/-!
# Feeds

A feed hands its items to any number of readers, each at its own position. Only the last items up to
the capacity can be fetched: a reader that falls further behind is told how many it lost, and goes
on with the oldest that is left.

* `Feed.push`, `Feed.size`: adding an item;
* `Feed.fetch`: what a reader at a position gets;
* **`fetch_eq_item_iff`**: it gets an item exactly when it is not too far behind and there is one.
-/

namespace Telemetry

/-- Items in the order in which they came, the last of which can be fetched. -/
structure Feed (α : Type) where
  capacity : Nat
  items : Array α := #[]

/-- What a reader gets. -/
inductive Fetch (α : Type) where
  | item (a : α)
  | lagged (skipped : Nat)
  | caughtUp
deriving DecidableEq, Repr

namespace Feed

variable {α : Type}

/-- The number of items so far, which is the position of a reader who has seen them all. -/
def size (f : Feed α) : Nat := f.items.size

/-- The feed with one more item. -/
def push (f : Feed α) (a : α) : Feed α := { f with items := f.items.push a }

/-- The position of the oldest item that can be fetched. -/
def oldest (f : Feed α) : Nat := f.size - f.capacity

/-- What a reader gets who has seen the first `next` items. -/
def fetch (f : Feed α) (next : Nat) : Fetch α :=
  if next < f.oldest then .lagged (f.oldest - next)
  else
    match f.items[next]? with
    | some a => .item a
    | none => .caughtUp

@[simp] theorem size_push (f : Feed α) (a : α) : (f.push a).size = f.size + 1 := by
  simp [size, push]

theorem fetch_eq_item_iff (f : Feed α) (next : Nat) (a : α) :
    f.fetch next = .item a ↔ f.oldest ≤ next ∧ f.items[next]? = some a := by
  unfold fetch
  split
  · simp; omega
  · cases f.items[next]? with
    | none => simp
    | some b => simp; omega

theorem fetch_eq_lagged_iff (f : Feed α) (next k : Nat) :
    f.fetch next = .lagged k ↔ next < f.oldest ∧ k = f.oldest - next := by
  unfold fetch
  split
  · simp; omega
  · cases f.items[next]? <;> simp <;> omega

theorem fetch_eq_caughtUp_iff (f : Feed α) (next : Nat) :
    f.fetch next = .caughtUp ↔ f.size ≤ next := by
  unfold fetch
  split
  · rename_i h
    simp only [reduceCtorEq, false_iff]
    unfold oldest at h; omega
  · cases h : f.items[next]? with
    | none => simpa [size] using h
    | some a =>
      have := (Array.getElem?_eq_some_iff.mp h).1
      simp only [reduceCtorEq, false_iff]
      unfold size; omega

end Feed

end Telemetry
