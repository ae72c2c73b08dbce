import Telemetry.Double.Decimal

/-!
# Numerals

A numeral is a number as it is written in a document: a sign, digits, perhaps digits after a point,
and perhaps an exponent. It keeps its spelling, and its value is worked out when it is asked for.

* `Numeral`, `Numeral.print`: the parts, and the text that they make;
* `Numeral.toInt?`, `Numeral.toDouble?`: the value of one without point and exponent, and the
  nearest double;
* `Numeral.ofNat`, `Numeral.ofInt`, `Double.numeral`: writing.
-/

namespace Telemetry

/-- The spelling of a number. -/
structure Numeral where
  negative : Bool := false
  whole : List Char
  fraction : List Char := []
  /-- The letter that begins the exponent, and its sign if it has one. -/
  mark : List Char := []
  power : List Char := []
deriving DecidableEq, Repr

/-- The value of a run of decimal digits. -/
def digitsValue (ds : List Char) : Nat := ds.foldl (fun n c => 10 * n + (c.toNat - '0'.toNat)) 0

namespace Numeral

/-- The characters of a numeral. -/
def printChars (n : Numeral) : List Char :=
  (if n.negative then ['-'] else []) ++ n.whole ++
    (if n.fraction.isEmpty then [] else '.' :: n.fraction) ++ n.mark ++ n.power

/-- The text of a numeral. -/
def print (n : Numeral) : String := .ofList n.printChars

/-- Neither a point nor an exponent. -/
def isWhole (n : Numeral) : Bool := n.fraction.isEmpty && n.mark.isEmpty

/-- The magnitude as a decimal. -/
def decimal (n : Numeral) : Decimal where
  digits := digitsValue (n.whole ++ n.fraction)
  exponent :=
    let power : Int := digitsValue n.power
    (if n.mark.contains '-' then -power else power) - (n.fraction.length : Int)

/-- The whole number that a numeral without point and exponent stands for, within the range of the
64-bit integers. Minus zero is none of them. -/
def toInt? (n : Numeral) : Option Int :=
  let v := digitsValue n.whole
  if !n.isWhole then none
  else if n.negative then (if 0 < v ∧ v ≤ Int64.minValue.toInt.natAbs then some (-v) else none)
  else if v < UInt64.size then some v else none

/-- The nearest double, unless it is infinite. -/
def toDouble? (n : Numeral) : Option Double :=
  let rank := n.decimal.rank
  if rank = Double.infinityRank then none else some (.ofRank n.negative rank)

/-- A whole number. -/
def ofNat (n : Nat) : Numeral := { whole := Nat.toDigits 10 n }

/-- An integer. -/
def ofInt (i : Int) : Numeral := { negative := i < 0, whole := Nat.toDigits 10 i.natAbs }

end Numeral

/-! ## The numeral of a double -/

namespace Double

/-- Digits with `point` of them before the point, and at least one on either side. -/
def positional (ds : List Char) (point : Int) : Numeral :=
  if point ≤ 0 then { whole := ['0'], fraction := List.replicate (-point).toNat '0' ++ ds }
  else if ds.length ≤ point.toNat then
    { whole := ds ++ List.replicate (point.toNat - ds.length) '0', fraction := ['0'] }
  else { whole := ds.take point.toNat, fraction := ds.drop point.toNat }

/-- One digit before the point, and an exponent with a sign. -/
def scientific (ds : List Char) (point : Int) : Numeral where
  whole := ds.take 1
  fraction := ds.drop 1
  mark := if point < 1 then ['e', '-'] else ['e', '+']
  power := Nat.toDigits 10 (point - 1).natAbs

/-- The numeral of a finite double: positional from `1e-5` up to `1e16`, and always with a point or
an exponent. -/
def numeral (x : Double) : Numeral :=
  if x.isZero then { negative := x.negative, whole := ['0'], fraction := ['0'] }
  else
    let d := (Decimal.shortest x).strip
    let ds := Nat.toDigits 10 d.digits
    let point := (ds.length : Int) + d.exponent
    let n := if -5 < point ∧ point ≤ 16 then positional ds point else scientific ds point
    { n with negative := x.negative }

end Double

end Telemetry
