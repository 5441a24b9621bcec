import FreeNames.Proofs.Decimal.Nearest
import FreeNames.Proofs.Literal.Digits

/-!
# Numeric literals

The numeric literals of JavaScript as data that carry their own form: whole numbers of the bases 2,
8, 10 and 16, decimals with a point or an exponent, big integers, and the old numerals that begin
with a zero, octal ones and decimal ones that hold an 8 or a 9.

* `NumericLiteral.written` is the text of a literal, with the separators between its digits, and
  `NumericLiteral.numeral` the text without separators and the suffix of big integers.
* `NumericLiteral.value` is the number that it denotes, and `NumericLiteral.Denotes` says which
  value is to be read: whole numbers exactly, up to a length, and otherwise the nearest double.
-/

namespace FreeNames

open Literal

/-! ## Digits -/

/-- A digit of the base. -/
structure Digit (base : Nat) where
  point : Nat
  isDigit : isDigitOf base point = true

/-- Digits, one at least, with a separator or none between neighbours. -/
inductive Digits (base : Nat) where
  | one (d : Digit base)
  | next (ds : Digits base) (d : Digit base)
  | separated (ds : Digits base) (d : Digit base)

namespace Digits

variable {base : Nat}

/-- The digits alone. -/
def points : Digits base → List Nat
  | one d => [d.point]
  | next ds d => ds.points ++ [d.point]
  | separated ds d => ds.points ++ [d.point]

def written : Digits base → List Nat
  | one d => [d.point]
  | next ds d => ds.written ++ [d.point]
  | separated ds d => ds.written ++ [0x5F, d.point]

end Digits

/-! ## Parts of literals -/

/-- A decimal numeral without a zero in front: zero, or digits of which the first is none. -/
inductive PlainDigits where
  | zero
  | one (first : Digit 10) (nonzero : first.point ≠ 0x30)
  | more (first : Digit 10) (nonzero : first.point ≠ 0x30) (separated : Bool) (rest : Digits 10)

/-- A decimal numeral with a zero in front: of the digits behind it one is no octal digit. -/
structure PaddedDigits where
  digits : List (Digit 10)
  notOctal : ∃ d ∈ digits, isDigitOf 8 d.point = false

/-- An octal numeral with a zero and nothing else in front of its digits. -/
structure OctalDigits where
  digits : List (Digit 8)
  nonempty : digits ≠ []

/-- The digits in front of a point or an exponent. -/
inductive WholeDigits where
  | plain (digits : PlainDigits)
  | padded (digits : PaddedDigits)

/-- An exponent: a letter, a sign or none, and digits. -/
structure ExponentPart where
  capital : Bool
  sign : Option Bool
  digits : Digits 10

/-- The bases that have a letter. -/
inductive Radix where
  | binary
  | octal
  | hexadecimal
  deriving DecidableEq, Repr

namespace PlainDigits

def points : PlainDigits → List Nat
  | zero => [0x30]
  | one first _ => [first.point]
  | more first _ _ rest => first.point :: rest.points

def written : PlainDigits → List Nat
  | zero => [0x30]
  | one first _ => [first.point]
  | more first _ true rest => first.point :: 0x5F :: rest.written
  | more first _ false rest => first.point :: rest.written

end PlainDigits

def PaddedDigits.points (p : PaddedDigits) : List Nat := 0x30 :: p.digits.map Digit.point

def OctalDigits.points (o : OctalDigits) : List Nat := 0x30 :: o.digits.map Digit.point

namespace WholeDigits

def points : WholeDigits → List Nat
  | plain p => p.points
  | padded p => p.points

def written : WholeDigits → List Nat
  | plain p => p.written
  | padded p => p.points

end WholeDigits

namespace ExponentPart

def letter (e : ExponentPart) : Nat := if e.capital then 0x45 else 0x65

def signPoints (e : ExponentPart) : List Nat :=
  match e.sign with
  | none => []
  | some true => [0x2D]
  | some false => [0x2B]

def numeral (e : ExponentPart) : List Nat := e.letter :: e.signPoints ++ e.digits.points

def written (e : ExponentPart) : List Nat := e.letter :: e.signPoints ++ e.digits.written

def value (e : ExponentPart) : Int :=
  if e.sign = some true then -(valueOf 10 e.digits.points : Int) else valueOf 10 e.digits.points

end ExponentPart

namespace Radix

def base : Radix → Nat
  | binary => 2
  | octal => 8
  | hexadecimal => 16

/-- The letter behind the zero. -/
def letter (capital : Bool) : Radix → Nat
  | binary => if capital then 0x42 else 0x62
  | octal => if capital then 0x4F else 0x6F
  | hexadecimal => if capital then 0x58 else 0x78

end Radix

/-! ## Literals -/

/-- A numeric literal. -/
inductive NumericLiteral where
  | integer (digits : WholeDigits)
  | scaled (digits : WholeDigits) (exponent : ExponentPart)
  | pointed (digits : WholeDigits) (fraction : Option (Digits 10)) (exponent : Option ExponentPart)
  | fraction (digits : Digits 10) (exponent : Option ExponentPart)
  | big (digits : PlainDigits)
  | radix (radix : Radix) (capital : Bool) (digits : Digits radix.base) (big : Bool)
  | octal (digits : OctalDigits)

namespace NumericLiteral

/-- The text of a part that may be left out. -/
def optional {α : Type} (text : α → List Nat) (o : Option α) : List Nat := (o.map text).getD []

/-- The suffix of big integers. -/
def suffix (big : Bool) : List Nat := if big then [0x6E] else []

/-- The text of a literal. -/
def written : NumericLiteral → List Nat
  | integer w => w.written
  | scaled w e => w.written ++ e.written
  | pointed w f e =>
    w.written ++ 0x2E :: optional Digits.written f ++ optional ExponentPart.written e
  | fraction f e => 0x2E :: f.written ++ optional ExponentPart.written e
  | big p => p.written ++ suffix true
  | radix r capital ds b => 0x30 :: r.letter capital :: ds.written ++ suffix b
  | octal o => o.points

/-- The text of a literal without separators and the suffix of big integers. -/
def numeral : NumericLiteral → List Nat
  | integer w => w.points
  | scaled w e => w.points ++ e.numeral
  | pointed w f e => w.points ++ 0x2E :: optional Digits.points f ++ optional ExponentPart.numeral e
  | fraction f e => 0x2E :: f.points ++ optional ExponentPart.numeral e
  | big p => p.points
  | radix r capital ds _ => 0x30 :: r.letter capital :: ds.points
  | octal o => o.points

/-- Does the literal end with the suffix of big integers? -/
def isBig : NumericLiteral → Bool
  | big _ => true
  | radix _ _ _ b => b
  | _ => false

/-- The number that digits denote in front of and behind a point, scaled by an exponent. -/
def decimalValue (whole fraction : List Nat) (exponent : Option ExponentPart) : ℚ :=
  (valueOf 10 whole + valueOf 10 fraction / 10 ^ fraction.length) *
    10 ^ ((exponent.map ExponentPart.value).getD 0)

/-- The whole number that a literal without point and exponent denotes. -/
def whole? : NumericLiteral → Option Nat
  | integer w => some (valueOf 10 w.points)
  | big p => some (valueOf 10 p.points)
  | radix r _ ds _ => some (valueOf r.base ds.points)
  | octal o => some (valueOf 8 o.points)
  | _ => none

/-- The number that a literal denotes. -/
def value : NumericLiteral → ℚ
  | scaled w e => decimalValue w.points [] (some e)
  | pointed w f e => decimalValue w.points (optional Digits.points f) e
  | fraction f e => decimalValue [] f.points e
  | l => l.whole?.getD 0

/-- Is the literal a decimal whole number of more digits than are read as such? -/
def isLong : NumericLiteral → Bool
  | integer w => longestDecimal < w.points.length
  | big p => longestDecimal < p.points.length
  | _ => false

/-- Is the literal a whole number with zeros in front? -/
def isPadded : NumericLiteral → Bool
  | integer (.padded _) => true
  | _ => false

/-- Is the number the value of the literal?  A whole number is exact unless it is too long; this
and what has a point or an exponent is the nearest double. -/
def Denotes (l : NumericLiteral) (r : Number) : Prop :=
  match l.whole? with
  | some n =>
    if l.isLong then ∃ d, r = .real d ∧ Double.IsNearest n d else r = .whole n
  | none => ∃ d, r = .real d ∧ Double.IsNearest l.value d

end NumericLiteral

end FreeNames
