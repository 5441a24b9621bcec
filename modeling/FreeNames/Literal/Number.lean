import FreeNames.Decimal.Double
import FreeNames.Fault

/-!
# Numeric literals

The value of the text of a numeric literal.  Separators and the suffix of big integers are
dropped; a text of digits that begins with a zero is an old octal numeral, or a decimal
one if it holds an 8 or a 9; the rest is a whole number in base 2, 8, 10 or 16, or else a
decimal fraction.

* `readWhole?` and `readReal?` read the two kinds of numeral, with blanks around them and a
  sign in front; digits of every script count.
* `readNumber` fails only on a text of digits that begins with a zero.
-/

namespace FreeNames.Literal

/-! ## Digits -/

/-- The value of an ASCII digit or letter as a digit. -/
def digitValue? (c : Nat) : Option Nat :=
  if 0x30 ≤ c && c ≤ 0x39 then some (c - 0x30)
  else if 0x61 ≤ c && c ≤ 0x7A then some (c - 0x61 + 10)
  else if 0x41 ≤ c && c ≤ 0x5A then some (c - 0x41 + 10)
  else none

/-- Is the code point a digit of the base? -/
def isDigitOf (base c : Nat) : Bool :=
  match digitValue? c with
  | some v => v < base
  | none => false

/-- The number that digits of a base denote, the most significant one first. -/
def valueOf (base : Nat) (digits : List Nat) : Nat :=
  digits.foldl (fun n c => n * base + (digitValue? c).getD 0) 0

/-- A code point as it counts in a numeral: blanks are spaces and decimal digits of every
script are ASCII digits; other characters outside ASCII count for nothing. -/
def asciiPoint (c : Nat) : Nat :=
  if c < 0x80 then c
  else if Text.isBlank c then 0x20
  else match Text.decimalDigit? c with
    | some d => 0x30 + d
    | none => 0x3F

/-- A text as it counts in a numeral, without the blanks around it. -/
def numeralOf (t : Text) : List Nat :=
  (Text.trim Text.isNumeralBlank ⟨t.points.map asciiPoint⟩).points

/-- Split off a sign: whether it is a minus, and the rest. -/
def splitSign : List Nat → Bool × List Nat
  | 0x2D :: rest => (true, rest)
  | 0x2B :: rest => (false, rest)
  | rest => (false, rest)

/-! ## Whole numbers -/

/-- Decimal numerals of whole numbers are read up to this many digits. -/
def longestDecimal : Nat := 4300

/-- The base that the letter behind a leading zero stands for. -/
def baseOf? (c : Nat) : Option Nat :=
  if c = 0x78 || c = 0x58 then some 16
  else if c = 0x6F || c = 0x4F then some 8
  else if c = 0x62 || c = 0x42 then some 2
  else none

/-- At least one digit of the base, and nothing else. -/
def readDigits? (base : Nat) (digits : List Nat) : Option Nat :=
  if !digits.isEmpty && digits.all (isDigitOf base) then some (valueOf base digits) else none

/-- A decimal numeral: not too long, and with leading zeros only if it is zero. -/
def readDecimal? (digits : List Nat) : Option Nat :=
  match readDigits? 10 digits with
  | some n =>
    if digits.length > longestDecimal then none
    else if digits.head? = some 0x30 && n ≠ 0 then none
    else some n
  | none => none

/-- An unsigned numeral of a whole number. -/
def readUnsigned? : List Nat → Option Nat
  | 0x30 :: c :: rest =>
    match baseOf? c with
    | some base => readDigits? base rest
    | none => readDecimal? (0x30 :: c :: rest)
  | digits => readDecimal? digits

/-- The whole number that a text denotes, if it denotes one. -/
def readWhole? (t : Text) : Option Int :=
  let (negative, digits) := splitSign (numeralOf t)
  (readUnsigned? digits).map fun n => if negative then -(n : Int) else n

/-! ## Decimal fractions -/

/-- Does the numeral spell the word, in letters of any case? -/
def spells (word : String) (numeral : List Nat) : Bool :=
  numeral.map (fun c => if 0x41 ≤ c && c ≤ 0x5A then c + 0x20 else c) == (Text.ofString word).points

/-- The exponent behind a fraction: nothing, or a letter, a sign and digits. -/
def readExponent? : List Nat → Option Int
  | [] => some 0
  | c :: rest =>
    if c = 0x65 || c = 0x45 then
      let (negative, digits) := splitSign rest
      (readDigits? 10 digits).map fun n => if negative then -(n : Int) else n
    else none

/-- Digits with at most one point among them and an optional exponent. -/
def readFraction? (negative : Bool) (numeral : List Nat) : Option Double :=
  let whole := numeral.takeWhile (isDigitOf 10)
  let rest := numeral.dropWhile (isDigitOf 10)
  let (fraction, tail) := match rest with
    | 0x2E :: more => (more.takeWhile (isDigitOf 10), more.dropWhile (isDigitOf 10))
    | _ => ([], rest)
  if whole.isEmpty && fraction.isEmpty then none
  else (readExponent? tail).map fun exponent =>
    Double.ofDecimal negative (valueOf 10 (whole ++ fraction)) (exponent - fraction.length)

/-- The double that a text denotes, if it denotes one. -/
def readReal? (t : Text) : Option Double :=
  let (negative, numeral) := splitSign (numeralOf t)
  if spells "inf" numeral || spells "infinity" numeral then some (.infinity negative)
  else if spells "nan" numeral then some (.nan negative)
  else readFraction? negative numeral

/-! ## Literals -/

/-- The text of a literal without separators and the suffix of big integers. -/
def significant (raw : Text) : Text :=
  Text.dropEnd (· = 0x6E) ⟨raw.points.filter (· ≠ 0x5F)⟩

/-- Does the text consist of digits, two at least, the first of them a zero? -/
def beginsWithZero (t : Text) : Bool :=
  t.length > 1 && t.points.head? = some 0x30 && t.points.all Text.isDigit

/-- A decimal numeral that may begin with zeros. -/
def readPadded (t : Text) : Except Fault Nat :=
  let points := t.points.map asciiPoint
  let digits := points.takeWhile (isDigitOf 10)
  if digits.length > longestDecimal then .error (.numeralTooLong digits.length)
  else if digits.length < points.length then .error (.notANumeral t)
  else .ok (valueOf 10 digits)

/-- The value of the text of a numeric literal, or `none` if it is no numeral. -/
def readNumber (raw : Text) : Except Fault (Option Number) :=
  let text := significant raw
  if beginsWithZero text then
    if text.points.all (isDigitOf 8) then .ok (some (.whole (valueOf 8 text.points)))
    else (readPadded text).map fun n => some (.whole n)
  else match readWhole? text with
    | some n => .ok (some (.whole n))
    | none => .ok ((readReal? text).map .real)

end FreeNames.Literal
