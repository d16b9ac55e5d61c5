import SmallLisp.Binary64.Basic

namespace SmallLisp

/-- A positive decimal number `0.d₁d₂… * 10 ^ point`, its first digit not zero. -/
structure Decimal where
  digits : List Char
  point : Int

namespace Binary64

/-- The reals that round to a positive magnitude, as bounds in quarters of a unit. The ends belong
to them exactly when the significand is even. -/
structure Interval where
  low : Nat
  high : Nat
  closed : Bool

/-- The reals that round to a positive magnitude. Below a power of two the neighbours lie half as
far apart. -/
def interval (units : Nat) : Interval :=
  let exponent := gapExponent units
  let gap := Nat.pow 2 exponent
  let below := if 0 < exponent ∧ units = Nat.pow 2 (exponent + 52) then gap else 2 * gap
  { low := 4 * units - below
    high := 4 * units + 2 * gap
    closed := units / gap % 2 = 0 }

/-- Whether `grid * numerator / denominator`, in quarters of a unit, lies in an interval. -/
def Interval.holds (reals : Interval) (grid numerator denominator : Nat) : Bool :=
  let point := grid * numerator
  if reals.closed then reals.low * denominator ≤ point && point ≤ reals.high * denominator
  else reals.low * denominator < point && point < reals.high * denominator

/-- The point of the grid of step `numerator / denominator` that lies in an interval and nearest to
the magnitude; of two as near the even one. -/
def nearestOnGrid? (units numerator denominator : Nat) : Option Nat :=
  let reals := interval units
  let target := 4 * units * denominator
  let lower := target / numerator
  let upper := lower + 1
  let lowerHolds := reals.holds lower numerator denominator
  let upperHolds := reals.holds upper numerator denominator
  if lowerHolds && upperHolds then some (roundQuotient target numerator)
  else if lowerHolds then some lower
  else if upperHolds then some upper
  else none

/-- The grid on which a magnitude just below `10 ^ point` has `count` digits: its step as a
quotient, in quarters of a unit. -/
def gridStep (point : Int) (count : Nat) : Nat × Nat :=
  match point - count with
  | .ofNat places => (4 * unitsPerOne * Nat.pow 10 places, 1)
  | .negSucc places => (4 * unitsPerOne, Nat.pow 10 (places + 1))

/-- The least power of ten above a positive magnitude, searched upwards from a power below it. -/
def decimalPoint (units : Nat) : Nat → Int → Int
  | 0, point => point
  | fuel + 1, point =>
    let exceeded : Bool := match point with
      | .ofNat places => decide (units < unitsPerOne * Nat.pow 10 places)
      | .negSucc places => decide (units * Nat.pow 10 (places + 1) < unitsPerOne)
    if exceeded then point else decimalPoint units fuel (point + 1)

/-- A power of ten that is no greater than a positive magnitude, and at most two tenfold steps away
from it. -/
def decimalPointBelow (units : Nat) : Int :=
  ((Nat.log2 units : Int) - 1074) * 30103 / 100000 - 1

/-- The digits of a magnitude on the grids of `count` digits and more, the first grid that has a
point in the interval deciding. -/
def shortestFrom (units : Nat) (point : Int) : Nat → Nat → Decimal
  | 0, count =>
    let step := gridStep point count
    { digits := Nat.toDigits 10 (roundQuotient (4 * units * step.2) step.1), point }
  | fuel + 1, count =>
    let step := gridStep point count
    match nearestOnGrid? units step.1 step.2 with
    | some grid =>
      let digits := Nat.toDigits 10 grid
      { digits, point := point + ((digits.length : Int) - count) }
    | none => shortestFrom units point fuel (count + 1)

/-- The shortest decimal number that reads back to a positive magnitude; seventeen digits always
do. -/
def shortest (units : Nat) : Decimal :=
  shortestFrom units (decimalPoint units 4 (decimalPointBelow units)) 16 1

end Binary64

end SmallLisp
