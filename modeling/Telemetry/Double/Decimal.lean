import Telemetry.Double.Basic

/-!
# Decimal forms of doubles

A decimal `d * 10 ^ e` is read as the nearest double. A double is written with the fewest digits
that read back to it; of two such decimals the nearer one is taken, and on a tie the even one.

* `Decimal`, `Decimal.rank`: a decimal and the double that it reads as;
* `Decimal.shortest`: the fewest digits.
-/

namespace Telemetry

/-- A power of ten. -/
def tenTo (n : Nat) : Nat := Nat.pow 10 n

/-- The number `digits * 10 ^ exponent`. -/
structure Decimal where
  digits : Nat
  exponent : Int
deriving DecidableEq, Repr

namespace Decimal

/-- The rank of the nearest double, or of infinity. A decimal of at least `10 ^ 400` is too large,
and one below `2 ^ (-1100)` reads as zero, whatever its digits are. -/
def rank (d : Decimal) : Nat :=
  if d.digits = 0 then 0
  else if 400 < d.exponent then Double.infinityRank
  else if (d.digits.log2 : Int) + 1 + 3 * d.exponent < -1100 ∧ d.exponent < 0 then 0
  else if 0 ≤ d.exponent then Double.rankOfRatio (d.digits * tenTo d.exponent.toNat) 1
  else Double.rankOfRatio d.digits (tenTo (-d.exponent).toNat)

/-! ## The fewest digits -/

/-- The number of digits of the whole part of `num / den`, or minus the number of zeros after the
point of a smaller fraction. -/
def magnitude (num den : Nat) : Int :=
  if den ≤ num then ((Nat.toDigits 10 (num / den)).length : Int)
  else
    let zeros := ((List.range 400).find? fun t => den ≤ num * tenTo (t + 1)).getD 0
    Int.neg zeros

/-- The decimals next to `num / den` on the grid of step `10 ^ e`, the nearer one first; on a tie
the even one. -/
def neighbours (num den : Nat) (e : Int) : List Decimal :=
  let n := if 0 ≤ e then num else num * tenTo (-e).toNat
  let d := if 0 ≤ e then den * tenTo e.toNat else den
  let low := n / d
  if roundHalfEven n d = low then [⟨low, e⟩, ⟨low + 1, e⟩] else [⟨low + 1, e⟩, ⟨low, e⟩]

/-- The exact decimal of `m * 2 ^ (p - 1074)`. -/
def exact (m p : Nat) : Decimal :=
  if 1074 ≤ p then ⟨m <<< (p - 1074), 0⟩
  else ⟨m * Nat.pow 5 (1074 - p), -((1074 - p : Nat) : Int)⟩

/-- The decimal with the fewest digits that reads as the double, zero aside; up to 17 are tried, and
then all digits are taken. -/
def shortest (x : Double) : Decimal :=
  let num := x.units
  let den := 1 <<< 1074
  let top := magnitude num den
  let tries := (List.range 17).flatMap fun (n : Nat) => neighbours num den (top - 1 - (n : Int))
  (tries.find? fun d => d.rank == x.rank).getD (exact x.mantissa x.place)

/-- The same number without zeros at the end of its digits. -/
def strip (d : Decimal) : Decimal :=
  let ds := Nat.toDigits 10 d.digits
  let zeros := (ds.reverse.takeWhile (· == '0')).length
  if d.digits = 0 then d else ⟨d.digits / tenTo zeros, d.exponent + zeros⟩

end Decimal

end Telemetry
