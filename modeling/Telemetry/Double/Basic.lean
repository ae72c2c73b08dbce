/-!
# Doubles

A double is a 64-bit pattern of the binary64 format: a sign, an exponent field of 11 bits and a
fraction of 52 bits. The magnitude of a finite one is `mantissa * 2 ^ (place - 1074)`. The lower 63
bits, read as a number, are its *rank*: ranks order the magnitudes, and neighbours differ by one.

* `Double`, `mantissa`, `place`, `rank`;
* `rankOfRatio`: the rank of the double nearest to a fraction, a tie going to the even neighbour;
* `Double.same`: equality of values, under which NaN differs from itself and the zeros agree;
* `Double.mul`, `Double.add`: the rounded product and sum;
* **`rank_eq`**: the rank is `place * fieldWeight + mantissa`.
-/

namespace Telemetry

/-- A 64-bit pattern of the binary64 format. -/
structure Double where
  bits : UInt64
deriving DecidableEq, Inhabited, Repr

/-- `n / d` rounded to the nearest whole number, a tie going to the even neighbour. -/
def roundHalfEven (n d : Nat) : Nat :=
  let q := n / d
  let r := n % d
  if 2 * r < d then q else if d < 2 * r then q + 1 else q + q % 2

namespace Double

/-- The weight of the sign bit. -/
def signWeight : Nat := 0x8000000000000000

/-- The weight of the lowest bit of the exponent field. -/
def fieldWeight : Nat := 0x10000000000000

/-- The sign bit. -/
def negative (x : Double) : Bool := signWeight ≤ x.bits.toNat

/-- The pattern without the sign, as a number. -/
def rank (x : Double) : Nat := x.bits.toNat % signWeight

/-- The rank of infinity. Finite doubles rank below it, NaNs above. -/
def infinityRank : Nat := 2047 * fieldWeight

/-- Not a number. -/
def isNaN (x : Double) : Bool := infinityRank < x.rank

/-- An infinity. -/
def isInfinite (x : Double) : Bool := x.rank == infinityRank

/-- Neither an infinity nor NaN. -/
def isFinite (x : Double) : Bool := x.rank < infinityRank

/-- A zero of either sign. -/
def isZero (x : Double) : Bool := x.rank == 0

/-- The exponent, counted from the smallest. -/
def place (x : Double) : Nat := x.rank / fieldWeight - 1

/-- The significand of a finite double as a whole number. -/
def mantissa (x : Double) : Nat :=
  if x.rank / fieldWeight = 0 then x.rank else x.rank % fieldWeight + fieldWeight

theorem rank_eq (x : Double) : x.rank = x.place * fieldWeight + x.mantissa := by
  unfold place mantissa fieldWeight
  split <;> omega

/-- The double of a rank, with a sign. -/
def ofRank (negative : Bool) (rank : Nat) : Double :=
  ⟨UInt64.ofNat (rank % signWeight + if negative then signWeight else 0)⟩

/-- The NaN that is written for all of them. -/
def nan : Double := ofRank false (infinityRank + fieldWeight / 2)

/-- The infinity of a sign. -/
def infinity (negative : Bool) : Double := ofRank negative infinityRank

@[simp] theorem rank_ofRank (s : Bool) (r : Nat) : (ofRank s r).rank = r % signWeight := by
  cases s <;> simp only [ofRank, rank, signWeight, UInt64.toNat_ofNat', Bool.false_eq_true,
    if_true, if_false] <;> omega

@[simp] theorem negative_ofRank (s : Bool) (r : Nat) : (ofRank s r).negative = s := by
  cases s <;> simp only [ofRank, negative, signWeight, UInt64.toNat_ofNat', Bool.false_eq_true,
    if_true, if_false, decide_eq_true_eq, decide_eq_false_iff_not] <;> omega

theorem bits_ofRank_rank (x : Double) : (ofRank x.negative x.rank).bits = x.bits := by
  have := x.bits.toNat_lt
  apply UInt64.toNat_inj.mp
  cases hs : x.negative
  · have : ¬ signWeight ≤ x.bits.toNat := of_decide_eq_false hs
    simp only [ofRank, rank, signWeight, UInt64.toNat_ofNat', Bool.false_eq_true,
      if_false] at this ⊢
    omega
  · have : signWeight ≤ x.bits.toNat := of_decide_eq_true hs
    simp only [ofRank, rank, signWeight, UInt64.toNat_ofNat', if_true] at this ⊢
    omega

theorem ofRank_rank (x : Double) : ofRank x.negative x.rank = x :=
  congrArg Double.mk (bits_ofRank_rank x)

/-! ## Rounding -/

/-- The rank of the double nearest to `num / den`; infinity's where that is too large. A fraction
counts units of the smallest double, and its leading 53 bits are kept. -/
def rankOfRatio (num den : Nat) : Nat :=
  let n := num <<< 1074
  let place := (n / den).log2 - 52
  min infinityRank (place * fieldWeight + roundHalfEven n (den <<< place))

/-- The double nearest to a fraction. -/
def ofRatio (negative : Bool) (num den : Nat) : Double := ofRank negative (rankOfRatio num den)

/-- The double nearest to a whole number. -/
def ofNat (n : Nat) : Double := ofRatio false n 1

/-- The double nearest to an integer. -/
def ofInt (i : Int) : Double := ofRatio (i < 0) i.natAbs 1

/-! ## Arithmetic -/

/-- The magnitude of a finite double in units of the smallest one. -/
def units (x : Double) : Nat := x.mantissa <<< x.place

/-- Equality of values. -/
def same (a b : Double) : Bool :=
  !a.isNaN && !b.isNaN && (a == b || (a.isZero && b.isZero))

/-- The rounded product. -/
def mul (a b : Double) : Double :=
  let sign := a.negative != b.negative
  if a.isNaN || b.isNaN then nan
  else if a.isInfinite || b.isInfinite then
    if a.isZero || b.isZero then nan else infinity sign
  else ofRatio sign (a.units * b.units) (1 <<< 2148)

/-- The rounded sum of two magnitudes. -/
def add (a b : Double) : Double :=
  if a.isNaN || b.isNaN then nan
  else if a.isInfinite || b.isInfinite then infinity false
  else ofRatio false (a.units + b.units) (1 <<< 1074)

end Double

end Telemetry
