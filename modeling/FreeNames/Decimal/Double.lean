/-!
# Binary floating-point numbers

A `Double` is a binary64 word.  `Double.view` reads it as a sign, a significand and a
power of two; `Double.ofRatio` and `Double.ofDecimal` round an exact quotient or decimal
to the nearest double, a tie going to the even significand.  All arithmetic is on
natural numbers and integers.

* A finite view means `± significand * 2 ^ power`, with `power ≥ -1074`.
* What is too large rounds to an infinity, and only that does.
-/

namespace FreeNames

/-- A binary64 word. -/
structure Double where
  bits : UInt64
  deriving DecidableEq, Inhabited, Repr

namespace Double

/-- What a word denotes. -/
inductive View where
  | notANumber
  | infinite (negative : Bool)
  | finite (negative : Bool) (significand : Nat) (power : Int)
  deriving DecidableEq, Repr

/-- The number of fractions with one exponent: two to the power of 52. -/
def fractionCount : Nat := 0x10000000000000

/-- The number of exponents, zero and the last one included: two to the power of 11. -/
def exponentCount : Nat := 2048

/-- The words without a sign: two to the power of 63. -/
def magnitudeCount : Nat := exponentCount * fractionCount

def negative (d : Double) : Bool := d.bits.toNat / magnitudeCount % 2 == 1

/-- Is the number zero, of either sign? -/
def isZero (d : Double) : Bool := d.bits.toNat % magnitudeCount = 0

/-- Read the sign, exponent and fraction fields. -/
def view (d : Double) : View :=
  let exponent : Nat := d.bits.toNat / fractionCount % exponentCount
  let fraction : Nat := d.bits.toNat % fractionCount
  if exponent = 2047 then
    if fraction = 0 then .infinite d.negative else .notANumber
  else if exponent = 0 then .finite d.negative fraction (-1074)
  else .finite d.negative (fraction + fractionCount) ((exponent : Int) - 1075)

/-- The sign bit of a word. -/
def signBit (negative : Bool) : Nat := if negative then magnitudeCount else 0

def infinity (negative : Bool) : Double := ⟨.ofNat (signBit negative + 2047 * fractionCount)⟩

def nan (negative : Bool) : Double :=
  ⟨.ofNat (signBit negative + 2047 * fractionCount + fractionCount / 2)⟩

def zero (negative : Bool) : Double := ⟨.ofNat (signBit negative)⟩

/-- The word of a finite number whose significand has at most 53 bits; a significand of
`2 ^ 53` carries into the exponent, and from there on possibly into infinity. -/
def encode (negative : Bool) (significand : Nat) (power : Int) : Double :=
  let magnitude :=
    if significand < fractionCount then significand
    else (power + 1075).toNat * fractionCount + (significand - fractionCount)
  ⟨.ofNat (signBit negative + min magnitude (2047 * fractionCount))⟩

/-- The quotient to the nearest natural number, a tie going to the even one. -/
def roundDiv (numerator denominator : Nat) : Nat :=
  let q := numerator / denominator
  let twice := 2 * (numerator % denominator)
  if twice < denominator || (twice = denominator && q % 2 = 0) then q else q + 1

/-- `2 ^ e` as a fraction of natural numbers. -/
def twoPower (e : Int) : Nat × Nat := (Nat.pow 2 e.toNat, Nat.pow 2 (-e).toNat)

/-- The power of two of the last bit of the significand of a positive quotient: 53 bits
are kept, and fewer below the smallest normal number. -/
def lastBit (numerator denominator : Nat) : Int :=
  let guess : Int := (numerator.log2 : Int) - denominator.log2 - 52
  let (up, down) := twoPower guess
  let fits := fractionCount * denominator * up ≤ numerator * down
  max (-1074) (if fits then guess else guess - 1)

/-- The nearest double to a quotient. -/
def ofRatio (negative : Bool) (numerator denominator : Nat) : Double :=
  if numerator = 0 then zero negative
  else
    let power := lastBit numerator denominator
    let (up, down) := twoPower power
    if power > 971 then infinity negative
    else encode negative (roundDiv (numerator * down) (denominator * up)) power

/-- The nearest double to `digits * 10 ^ exponent`.  Exponents far outside the range of
doubles are decided by the number of digits alone. -/
def ofDecimal (negative : Bool) (digits : Nat) (exponent : Int) : Double :=
  if digits = 0 then zero negative
  else
    let bound := digits.log2 + 1
    if exponent > 400 then infinity negative
    else if exponent + bound < -400 then zero negative
    else if exponent < 0 then ofRatio negative digits (Nat.pow 10 (-exponent).toNat)
    else ofRatio negative (digits * Nat.pow 10 exponent.toNat) 1

/-- The nearest double to an integer, unless it is out of range. -/
def ofInt? (z : Int) : Option Double :=
  let d := ofRatio (decide (z < 0)) z.natAbs 1
  match d.view with
  | .infinite _ => none
  | _ => some d

end Double

/-- A number of the source: a whole number of any size, or a double. -/
inductive Number where
  | whole (value : Int)
  | real (value : Double)
  deriving DecidableEq, Repr

end FreeNames
