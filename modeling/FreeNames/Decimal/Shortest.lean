import FreeNames.Decimal.Double

/-!
# Shortest decimals

The decimal with the fewest digits that reads back as a given positive double.  A double
stands for an interval of reals, those that round to it; powers of ten are tried from the
coarsest down, and on the first whose multiples meet the interval the multiple nearest to
the double is taken.

* `Interval.holds` compares exact products of natural numbers.
* Every double lies on the grid of multiples of `10 ^ power` itself, so the search ends.
-/

namespace FreeNames.Decimal

/-- The decimal `digits * 10 ^ exponent`. -/
structure Scaled where
  digits : Nat
  exponent : Int
  deriving DecidableEq, Repr

/-- The reals between `low` and `high` quarters of `2 ^ power`; the ends belong to the
interval if `closed`.  The double itself is at `centre` quarters. -/
structure Interval where
  low : Nat
  centre : Nat
  high : Nat
  power : Int
  closed : Bool

/-- The reals that round to a double with this significand and power.  Below a power of
two the doubles are twice as dense. -/
def Interval.around (significand : Nat) (power : Int) : Interval where
  low :=
    if significand = Double.fractionCount && power > -1074 then 4 * significand - 1
    else 4 * significand - 2
  centre := 4 * significand
  high := 4 * significand + 2
  power := power
  closed := significand % 2 = 0

/-- The two natural numbers that compare as `n * 10 ^ exponent` and `quarters` quarters of
`2 ^ power` do. -/
def Interval.scaled (i : Interval) (n : Nat) (exponent : Int) (quarters : Nat) : Nat × Nat :=
  (4 * n * Nat.pow 10 exponent.toNat * Nat.pow 2 (-i.power).toNat,
    quarters * Nat.pow 2 i.power.toNat * Nat.pow 10 (-exponent).toNat)

/-- Does `n * 10 ^ exponent` lie in the interval? -/
def Interval.holds (i : Interval) (n : Nat) (exponent : Int) : Bool :=
  let (a, low) := i.scaled n exponent i.low
  let (_, high) := i.scaled n exponent i.high
  if i.closed then low ≤ a && a ≤ high else low < a && a < high

/-- The largest multiple of `10 ^ exponent` that is not above the centre. -/
def Interval.floor (i : Interval) (exponent : Int) : Nat :=
  let (unit, centre) := i.scaled 1 exponent i.centre
  centre / unit

/-- The multiple of `10 ^ exponent` in the interval that is nearest to the centre, of two
equally near the even one. -/
def Interval.nearest? (i : Interval) (exponent : Int) : Option Nat :=
  let n := i.floor exponent
  let below := n ≠ 0 && i.holds n exponent
  let above := i.holds (n + 1) exponent
  if below && above then
    let (a, centre) := i.scaled n exponent i.centre
    let (b, _) := i.scaled (n + 1) exponent i.centre
    let toBelow := centre - a
    let toAbove := b - centre
    some (if toBelow < toAbove || (toBelow = toAbove && n % 2 = 0) then n else n + 1)
  else if below then some n
  else if above then some (n + 1)
  else none

/-- Try `steps` powers of ten from `exponent` downwards. -/
def Interval.search (i : Interval) (exponent : Int) : (steps : Nat) → Option Scaled
  | 0 => none
  | steps + 1 =>
    match i.nearest? exponent with
    | some n => some ⟨n, exponent⟩
    | none => i.search (exponent - 1) steps

/-- No double reaches `10 ^ 309`. -/
def coarsest : Int := 309

/-- The decimal of fewest digits that rounds to the positive number `significand * 2 ^ power`,
and of those the nearest to it. -/
def shortest (significand : Nat) (power : Int) : Scaled :=
  let i := Interval.around significand power
  let steps := (coarsest - min power 0).toNat + 1
  (i.search coarsest steps).getD ⟨i.floor (min power 0), min power 0⟩

end FreeNames.Decimal
