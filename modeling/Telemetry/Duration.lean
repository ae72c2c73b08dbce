import Telemetry.Numeral

/-!
# Durations

A duration is a number of nanoseconds.

* `Duration.print`: in the largest unit that gives a whole part, without zeros at the end;
* `Duration.scale?`: a duration times a double, rounded to the nanosecond;
* `Duration.ticks`: whole milliseconds, rounded up, in which clocks count.
-/

namespace Telemetry

/-- A number of nanoseconds. -/
structure Duration where
  nanos : Nat
deriving DecidableEq, Inhabited, Repr

namespace Duration

/-- Milliseconds. -/
def ofMillis (n : Nat) : Duration := ⟨n * 1000000⟩

/-- Seconds. -/
def ofSeconds (n : Nat) : Duration := ⟨n * 1000000000⟩

instance : LE Duration := ⟨fun a b => a.nanos ≤ b.nanos⟩
instance : Min Duration := ⟨fun a b => ⟨min a.nanos b.nanos⟩⟩

/-- The number `n / 10 ^ places` without zeros at the end of the fraction. -/
def fixed (n places : Nat) : String :=
  let fraction := Nat.toDigits 10 (n % tenTo places)
  let padded := List.replicate (places - fraction.length) '0' ++ fraction
  let kept := (padded.reverse.dropWhile (· == '0')).reverse
  .ofList (Nat.toDigits 10 (n / tenTo places) ++ if kept.isEmpty then [] else '.' :: kept)

/-- The text of a duration: in seconds from one second up, in milliseconds from one up, in
microseconds from one up, and else in nanoseconds. -/
def print (d : Duration) : String :=
  if 1000000000 ≤ d.nanos then fixed d.nanos 9 ++ "s"
  else if 1000000 ≤ d.nanos then fixed d.nanos 6 ++ "ms"
  else if 1000 ≤ d.nanos then fixed d.nanos 3 ++ "µs"
  else fixed d.nanos 0 ++ "ns"

/-- The seconds as a double: whole seconds and fraction are rounded on their own. -/
def seconds (d : Duration) : Double :=
  (Double.ofNat (d.nanos / 1000000000)).add (.ofRatio false (d.nanos % 1000000000) 1000000000)

/-- The duration of a number of seconds, a tie going to the even nanosecond; none for a number that
is negative, not finite, or of `2 ^ 64` seconds or more. -/
def ofDouble? (x : Double) : Option Duration :=
  if !x.isFinite then none
  else if x.negative && !x.isZero then none
  else if UInt64.size <<< 1074 ≤ x.units then none
  else some ⟨roundHalfEven (x.units * 1000000000) (1 <<< 1074)⟩

/-- The duration times a factor, where that is a duration. -/
def scale? (d : Duration) (factor : Double) : Option Duration := ofDouble? (factor.mul d.seconds)

/-- Milliseconds, rounded up. -/
def ticks (d : Duration) : Nat := (d.nanos + 999999) / 1000000

end Duration

end Telemetry
