import Telemetry.Path.Basic
import Telemetry.Text.Blank

/-!
# Paths as text

A path is written as its elements, each after a slash, with its keys in brackets:
`openconfig:/interface[name=e1]/mtu`. Reading cuts the text at the slashes outside brackets and
reads each piece as an element; an origin is written but not read.

* `Path.print`, `Element.print`: writing;
* `Path.slices`: the pieces between the slashes;
* `Element.read`: one piece as an element;
* `Path.read`: a text as a path, or what is wrong with it.
-/

namespace Telemetry

/-! ## Writing -/

/-- A key and its value in brackets. -/
def Element.printKey (r : String × String) : List Char :=
  '[' :: r.1.toList ++ '=' :: r.2.toList ++ [']']

/-- A slash, the name, and the keys. -/
def Element.printChars (e : Element) : List Char :=
  '/' :: e.name.toList ++ e.keys.rows.flatMap printKey

/-- The characters of a path. -/
def Path.printChars (p : Path) : List Char :=
  (if p.origin.isEmpty then [] else p.origin.toList ++ [':']) ++
    (if p.elements.isEmpty then ['/'] else p.elements.flatMap Element.printChars)

/-- The text of a path. The target is not written. -/
def Path.print (p : Path) : String := .ofList p.printChars

/-! ## What can be wrong -/

/-- What is wrong with the text of a path. -/
inductive Path.Fault where
  | unbalanced
  | emptyElement
  | malformedKey (key : String)
deriving DecidableEq, Repr

/-- The text that is no path, and why. -/
structure Path.Error where
  text : String
  fault : Path.Fault
deriving DecidableEq, Repr

/-- The words for the reason. -/
def Path.Error.message (e : Path.Error) : String :=
  match e.fault with
  | .unbalanced => "unbalanced brackets in path '" ++ e.text ++ "'"
  | .emptyElement => "empty element name in path '" ++ e.text ++ "'"
  | .malformedKey key => "malformed key '" ++ key ++ "' in path '" ++ e.text ++ "'"

/-! ## Reading -/

/-- Where a text split at the first `c` parts: what comes before it, and what comes after. -/
def splitFirst (c : Char) : List Char → Option (List Char × List Char)
  | [] => none
  | x :: xs => if x = c then some ([], xs) else (splitFirst c xs).map fun p => (x :: p.1, p.2)

theorem splitFirst_eq_some {c : Char} {l a b : List Char} (h : splitFirst c l = some (a, b)) :
    l = a ++ c :: b ∧ c ∉ a := by
  induction l generalizing a with
  | nil => simp [splitFirst] at h
  | cons x xs ih =>
    unfold splitFirst at h
    split at h
    · rename_i hx
      simp only [Option.some.injEq, Prod.mk.injEq] at h
      obtain ⟨rfl, rfl⟩ := h
      simp [hx]
    · rename_i hx
      obtain ⟨⟨a', b'⟩, hp, he⟩ := Option.map_eq_some_iff.mp h
      simp only [Prod.mk.injEq] at he
      obtain ⟨rfl, rfl⟩ := he
      obtain ⟨rfl, hn⟩ := ih hp
      exact ⟨rfl, by simpa using ⟨fun e => hx e.symm, hn⟩⟩

namespace Element

/-- The keys in the bracketed part of a piece, put into `keys`. -/
def readKeys (keys : Table String) : List Char → Except Path.Fault (Table String)
  | [] => .ok keys
  | _ :: body =>
    match h : splitFirst ']' body with
    | none => .error .unbalanced
    | some (row, rest) =>
      match splitFirst '=' row with
      | none => .error (.malformedKey (.ofList row))
      | some ([], _) => .error (.malformedKey (.ofList row))
      | some (k, v) =>
        if rest.head?.all (· == '[') then
          have : rest.length < body.length + 1 := by
            have := congrArg List.length (splitFirst_eq_some h).1
            simp only [List.length_append, List.length_cons] at this
            omega
          readKeys (keys.insert (.ofList k) (.ofList v)) rest
        else .error (.malformedKey (.ofList rest))
  termination_by l => l.length

/-- A piece of a path's text as an element: its name ends at the first bracket. -/
def read (piece : List Char) : Except Path.Fault Element :=
  let name := piece.takeWhile (· != '[')
  if name.isEmpty then .error .emptyElement
  else (readKeys .empty (piece.dropWhile (· != '['))).map fun keys => ⟨.ofList name, keys⟩

end Element

namespace Path

/-- The non-empty pieces between the slashes outside brackets, and whether every bracket found its
partner. A closing bracket without partner, or an opening one, loses the piece that it stands in and
all that follows. `depth` brackets are open, and `piece` is what was read of the current piece. -/
def slicesFrom (depth : Nat) (piece : List Char) : List Char → List (List Char) × Bool
  | [] =>
    if depth = 0 then (if piece.isEmpty then [] else [piece], true) else ([], false)
  | c :: cs =>
    if c = '[' then slicesFrom (depth + 1) (piece ++ [c]) cs
    else if c = ']' then
      if depth = 0 then ([], false) else slicesFrom (depth - 1) (piece ++ [c]) cs
    else if c = '/' ∧ depth = 0 then
      let (rest, balanced) := slicesFrom 0 [] cs
      (if piece.isEmpty then rest else piece :: rest, balanced)
    else slicesFrom depth (piece ++ [c]) cs

/-- The pieces of a trimmed text that are read as elements, and whether its brackets balance. -/
def slices (cs : List Char) : List (List Char) × Bool := slicesFrom 0 [] cs

/-- The elements of a text. A faulty piece is found before brackets that do not balance, which come
to light at the end only. -/
def readElements (cs : List Char) : Except Fault (List Element) := do
  let (pieces, balanced) := slices cs
  let elements ← pieces.mapM Element.read
  if balanced then return elements else throw .unbalanced

/-- The path that a text names, blanks at its ends aside. -/
def read (text : String) : Except Error Path :=
  match readElements (Text.trim text.toList) with
  | .ok elements => .ok { elements }
  | .error fault => .error { text, fault }

end Path

end Telemetry
