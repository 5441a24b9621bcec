import FreeNames.Decimal.Shortest
import FreeNames.Text
import FreeNames.Fault

/-!
# Numbers as property keys

The text of a number that is used as a property key: the shortest digits that read back,
placed around the point by four layouts.  With `k` digits and the point `n` digits after
the first position:

* `k ≤ n ≤ 21`: the digits and `n - k` zeros;
* `0 < n ≤ 21`: the point among the digits;
* `-6 < n ≤ 0`: `0.`, `-n` zeros and the digits;
* otherwise an exponent with its sign, after one digit and the rest behind a point.

A number with the suffix of a big integer keeps all its digits instead; if it was too long
to be read as a whole number, its double is written out.
-/

namespace FreeNames.Decimal

/-- The largest place of the point, from the first digit, that is written positionally. -/
def longestWhole : Int := 21

/-- Leading zeros behind the point are written positionally above this place. -/
def smallestFraction : Int := -6

/-- Lay out digits whose point stands `place` digits after the first position. -/
def layOut (digits : List Nat) (place : Int) : List Nat :=
  let k := digits.length
  if k ≤ place && place ≤ longestWhole then
    digits ++ List.replicate (place.toNat - k) 0x30
  else if 0 < place && place ≤ longestWhole then
    digits.take place.toNat ++ 0x2E :: digits.drop place.toNat
  else if smallestFraction < place && place ≤ 0 then
    0x30 :: 0x2E :: List.replicate (-place).toNat 0x30 ++ digits
  else
    let power := place - 1
    let fraction := match digits.drop 1 with
      | [] => []
      | rest => 0x2E :: rest
    digits.take 1 ++ fraction ++ 0x65 :: (if power > 0 then 0x2B else 0x2D)
      :: (Text.ofNat power.natAbs).points

/-- The key of a double. -/
def keyOfDouble (d : Double) : Text :=
  match d.view with
  | .notANumber => "NaN"
  | .infinite negative => if negative then "-Infinity" else "Infinity"
  | .finite negative significand power =>
    if significand = 0 then "0"
    else
      let decimal := shortest significand power
      let digits := (Text.ofNat decimal.digits).points
      let body := layOut digits (decimal.exponent + digits.length)
      ⟨if negative then 0x2D :: body else body⟩

/-- The key of a whole number: rounded to a double, and infinite when out of range. -/
def keyOfInt (z : Int) : Text :=
  match Double.ofInt? z with
  | some d => keyOfDouble d
  | none => "Infinity"

/-- Numerals of whole numbers are written and read up to this many digits. -/
def longestNumeral : Nat := 4300

/-- The decimal numeral of a whole number, unless it is too long to write. -/
def numeralOfInt (z : Int) : Except Fault Text :=
  if z.natAbs < Nat.pow 10 longestNumeral then .ok (Text.ofInt z) else .error .keyTooLong

/-- Write out digits whose point stands `place` digits after the first position: with a
point and a digit on both sides of it between 0.0001 and 10 ^ 16, and otherwise with an
exponent of two digits at least. -/
def writeOut (digits : List Nat) (place : Int) : List Nat :=
  let k := digits.length
  if 0 < place && place ≤ 16 then
    digits.take place.toNat ++ List.replicate (place.toNat - k) 0x30
      ++ 0x2E :: (if place < k then digits.drop place.toNat else [0x30])
  else if -4 < place && place ≤ 0 then
    0x30 :: 0x2E :: List.replicate (-place).toNat 0x30 ++ digits
  else
    let power := place - 1
    let fraction := match digits.drop 1 with
      | [] => []
      | rest => 0x2E :: rest
    let exponent := (Text.ofNat power.natAbs).points
    digits.take 1 ++ fraction ++ 0x65 :: (if power > 0 then 0x2B else 0x2D)
      :: (if exponent.length < 2 then 0x30 :: exponent else exponent)

/-- A double written out. -/
def numeralOfDouble (d : Double) : Text :=
  match d.view with
  | .notANumber => "nan"
  | .infinite negative => if negative then "-inf" else "inf"
  | .finite negative significand power =>
    let body :=
      if significand = 0 then (Text.ofString "0.0").points
      else
        let decimal := shortest significand power
        let digits := (Text.ofNat decimal.digits).points
        writeOut digits (decimal.exponent + digits.length)
    ⟨if negative then 0x2D :: body else body⟩

/-- The key of a number, with or without the suffix of a big integer. -/
def numberKey (big : Bool) : Number → Except Fault Text
  | .whole z => if big then numeralOfInt z else .ok (keyOfInt z)
  | .real d => .ok (if big then numeralOfDouble d else keyOfDouble d)

end FreeNames.Decimal
