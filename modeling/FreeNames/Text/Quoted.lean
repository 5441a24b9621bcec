import FreeNames.Text.Class

/-!
# Quoted text

`Text.quoted` writes a text between quotation marks, the way names appear in messages
and descriptions; `Text.jsonQuoted` writes it as a JSON string of ASCII characters.

* Single quotation marks are used unless the text holds one and no double mark.
* What is not printable is written by its number, in two, four or eight hexadecimal
  digits; printable characters of any script stand for themselves.
-/

namespace FreeNames.Text

/-- A number in lower-case hexadecimal digits, padded with zeros. -/
def hex (width n : Nat) : List Nat :=
  let digits := (Nat.toDigits 16 n).map Char.toNat
  List.replicate (width - digits.length) 0x30 ++ digits

/-- The mark to quote a text with. -/
def quotationMark (t : Text) : Nat :=
  if t.points.contains 0x27 && !t.points.contains 0x22 then 0x22 else 0x27

/-- One code point between quotation marks. -/
def quotedPoint (mark c : Nat) : List Nat :=
  if c = mark || c = 0x5C then [0x5C, c]
  else if c = 0x0A then [0x5C, 0x6E]
  else if c = 0x0D then [0x5C, 0x72]
  else if c = 0x09 then [0x5C, 0x74]
  else if isPrintable c then [c]
  else if c < 0x100 then 0x5C :: 0x78 :: hex 2 c
  else if c < 0x10000 then 0x5C :: 0x75 :: hex 4 c
  else 0x5C :: 0x55 :: hex 8 c

/-- The text between quotation marks. -/
def quoted (t : Text) : Text :=
  let mark := t.quotationMark
  ⟨mark :: t.points.flatMap (quotedPoint mark) ++ [mark]⟩

/-- One code point inside a JSON string: ASCII only, with surrogate pairs above `0xFFFF`.  A number
that is no code point has no text. -/
def jsonPoint (c : Nat) : List Nat :=
  if c = 0x22 || c = 0x5C then [0x5C, c]
  else if c = 0x0A then [0x5C, 0x6E]
  else if c = 0x0D then [0x5C, 0x72]
  else if c = 0x09 then [0x5C, 0x74]
  else if c = 0x08 then [0x5C, 0x62]
  else if c = 0x0C then [0x5C, 0x66]
  else if 0x20 ≤ c && c < 0x7F then [c]
  else if c < 0x10000 then 0x5C :: 0x75 :: hex 4 c
  else if c < 0x110000 then
    let offset := c - 0x10000
    (0x5C :: 0x75 :: hex 4 (0xD800 + offset / 0x400))
      ++ (0x5C :: 0x75 :: hex 4 (0xDC00 + offset % 0x400))
  else []

/-- The text as a JSON string. -/
def jsonQuoted (t : Text) : Text := ⟨0x22 :: t.points.flatMap jsonPoint ++ [0x22]⟩

end FreeNames.Text
