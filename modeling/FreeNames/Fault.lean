import FreeNames.Text.Quoted

/-!
# Faults

The reasons why a tree cannot be read to its end, each a constructor, and the wording of
those that are reported in `Fault.message`.  `Fault.lacks` arises on trees that do not
have the layout of their kind; the others are properties of the source.
-/

namespace FreeNames

/-- Why reading a tree stops. -/
inductive Fault where
  /-- A node of this kind lacks the part, or holds something else there. -/
  | lacks (kind part : String)
  /-- The bytes of a node are not UTF-8. -/
  | notUtf8
  /-- The numeral of a big integer used as a key is too long to write. -/
  | keyTooLong
  /-- A numeral with leading zeros has too many digits to read. -/
  | numeralTooLong (digits : Nat)
  /-- Digits that begin with a zero and are no numeral. -/
  | notANumeral (text : Text)
  deriving DecidableEq, Repr

namespace Fault

/-- Quotations in messages are cut after this many code points. -/
def quotationLimit : Nat := 200

/-- The wording for numerals that are too long to write or to read. -/
def lengthLimit : Text := "Exceeds the limit (4300 digits) for integer string conversion"

/-- What can be done about it. -/
def limitAdvice : Text := "; use sys.set_int_max_str_digits() to increase the limit"

/-- The wording of a fault. -/
def message : Fault → Text
  | lacks kind part => Text.ofString s!"{kind} has no {part}"
  | notUtf8 => "source is not UTF-8"
  | keyTooLong => lengthLimit ++ limitAdvice
  | numeralTooLong digits =>
    lengthLimit ++ ": value has " ++ Text.ofNat digits ++ " digits" ++ limitAdvice
  | notANumeral text =>
    "invalid literal for int() with base 10: " ++ ⟨text.quoted.points.take quotationLimit⟩

end Fault

end FreeNames
