/-!
# Rosters

A roster is a set of names in the order in which they entered it. A node keeps one of the
subscriptions that it announced in the current epoch, which empties when a new epoch starts, and one
of the subscriptions that it consumes, which only grows.

* `Roster.contains`, `Roster.add`: reading, and adding a name;
* `Roster.enter`: adding a name, and whether it was new.
-/

namespace Telemetry

/-- A set of names, in order of entry. -/
structure Roster where
  names : List String
  nodup : names.Nodup
deriving DecidableEq

namespace Roster

/-- The empty roster. -/
def empty : Roster := ⟨[], .nil⟩

instance : Inhabited Roster := ⟨empty⟩

/-- Whether the name entered. -/
def contains (r : Roster) (name : String) : Bool := r.names.contains name

/-- The number of names. -/
def size (r : Roster) : Nat := r.names.length

/-- Whether no name entered. -/
def isEmpty (r : Roster) : Bool := r.names.isEmpty

/-- The roster with the name in it. -/
def add (r : Roster) (name : String) : Roster :=
  if h : r.contains name then r
  else ⟨r.names ++ [name], by
    have hn : name ∉ r.names := by simpa [contains] using h
    refine List.nodup_append.mpr ⟨r.nodup, by simp, fun a ha b hb => ?_⟩
    rw [List.mem_singleton.mp hb]
    exact fun e => hn (e ▸ ha)⟩

/-- Enters the name, and says whether it was new. -/
def enter (r : Roster) (name : String) : Roster × Bool := (r.add name, !r.contains name)

@[simp] theorem contains_empty (name : String) : empty.contains name = false := rfl

theorem contains_add (r : Roster) (name other : String) :
    (r.add name).contains other = (r.contains other || other == name) := by
  unfold add
  split
  · rename_i h
    by_cases e : other = name
    · subst e; simp [h]
    · simp [beq_eq_false_iff_ne.mpr e]
  · by_cases e : other = name <;> simp [contains, e]

theorem size_add (r : Roster) (name : String) :
    (r.add name).size = r.size + if r.contains name then 0 else 1 := by
  unfold add
  split <;> simp_all [size]

end Roster

end Telemetry
