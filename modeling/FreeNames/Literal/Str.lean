import FreeNames.Literal.Number

/-!
# String literals

The value of the text of a string literal: the code points between its quotation marks,
with escapes replaced and surrogate pairs joined.

* `readEscape` reads what follows a backslash, the longest form first, and leaves a
  shorter rest.
* `joinPairs` replaces each high surrogate that a low one follows by the code point that
  the pair stands for; other halves stay.
-/

namespace FreeNames.Literal

/-- The text of a literal without its first and last code point. -/
def unquoted (raw : Text) : List Nat := (raw.points.drop 1).dropLast

/-! ## Escapes -/

/-- The code points of the single-letter escapes. -/
def letterEscape? (c : Nat) : Option Nat :=
  if c = 0x6E then some 0x0A
  else if c = 0x74 then some 0x09
  else if c = 0x72 then some 0x0D
  else if c = 0x62 then some 0x08
  else if c = 0x66 then some 0x0C
  else if c = 0x76 then some 0x0B
  else none

/-- Line feed, carriage return, line separator and paragraph separator. -/
def isLineEnd (c : Nat) : Bool := c = 0x0A || c = 0x0D || c = 0x2028 || c = 0x2029

/-- The largest code point. -/
def lastPoint : Nat := 0x10FFFF

/-- Hexadecimal digits in braces, and what follows the braces. -/
def bracedHex? : List Nat → Option (List Nat × List Nat)
  | 0x7B :: rest =>
    let digits := rest.takeWhile (isDigitOf 16)
    match rest.dropWhile (isDigitOf 16) with
    | 0x7D :: tail => if digits.isEmpty then none else some (digits, tail)
    | _ => none
  | _ => none

/-- Exactly so many hexadecimal digits: their value and what follows. -/
def fixedHex? (count : Nat) (points : List Nat) : Option (Nat × List Nat) :=
  let digits := points.take count
  if digits.length = count && digits.all (isDigitOf 16) then
    some (valueOf 16 digits, points.drop count)
  else none

/-- At most so many further octal digits belong to an escape that begins with `c`. -/
def octalExtra (c : Nat) : Nat := if c ≤ 0x33 then 2 else 1

/-- What the escape stands for, and the code points after it, given the code point behind
the backslash and those that follow. -/
def readEscape (c : Nat) (rest : List Nat) : List Nat × List Nat :=
  if c = 0x75 then
    match bracedHex? rest with
    | some (digits, tail) =>
      let value := valueOf 16 digits
      (if value ≤ lastPoint then [value] else 0x5C :: 0x75 :: 0x7B :: digits ++ [0x7D], tail)
    | none =>
      match fixedHex? 4 rest with
      | some (value, tail) => ([value], tail)
      | none => ([c], rest)
  else if c = 0x78 then
    match fixedHex? 2 rest with
    | some (value, tail) => ([value], tail)
    | none => ([c], rest)
  else if isDigitOf 8 c then
    let more := (rest.take (octalExtra c)).takeWhile (isDigitOf 8)
    ([valueOf 8 (c :: more)], rest.drop more.length)
  else if isLineEnd c then
    match c, rest with
    | 0x0D, 0x0A :: tail => ([], tail)
    | _, _ => ([], rest)
  else match letterEscape? c with
    | some value => ([value], rest)
    | none => ([c], rest)

private theorem bracedHex?_length {points digits tail : List Nat}
    (h : bracedHex? points = some (digits, tail)) : tail.length ≤ points.length := by
  unfold bracedHex? at h
  split at h
  · next rest =>
    have hle : (rest.dropWhile (isDigitOf 16)).length ≤ rest.length :=
      (List.dropWhile_suffix _).length_le
    simp only at h
    split at h
    · next tail' heq =>
      split at h
      · cases h
      · cases h
        rw [heq] at hle
        simp only [List.length_cons] at hle ⊢
        omega
    · cases h
  · cases h

private theorem fixedHex?_length {count value : Nat} {points tail : List Nat}
    (h : fixedHex? count points = some (value, tail)) : tail.length ≤ points.length := by
  unfold fixedHex? at h
  simp only at h
  split at h
  · cases h
    simp
  · cases h

/-- An escape never gives back more than what followed it. -/
theorem readEscape_length (c : Nat) (rest : List Nat) :
    (readEscape c rest).2.length ≤ rest.length := by
  unfold readEscape
  split
  · split
    · next h => exact bracedHex?_length h
    · split
      · next h => exact fixedHex?_length h
      · exact Nat.le_refl _
  · split
    · split
      · next h => exact fixedHex?_length h
      · exact Nat.le_refl _
    · split
      · simp
      · split
        · split <;> simp
        · split <;> simp

/-- Replace every escape; a backslash at the end stands for itself. -/
def unescape : List Nat → List Nat
  | [] => []
  | c :: rest =>
    if c = 0x5C then
      match rest with
      | [] => [c]
      | e :: after => (readEscape e after).1 ++ unescape (readEscape e after).2
    else c :: unescape rest
termination_by points => points.length
decreasing_by
  · have := readEscape_length e after
    simp only [List.length_cons]
    omega
  · simp

/-! ## Surrogate pairs -/

def isHighSurrogate (c : Nat) : Bool := 0xD800 ≤ c && c < 0xDC00

def isLowSurrogate (c : Nat) : Bool := 0xDC00 ≤ c && c < 0xE000

/-- The code point that a surrogate pair stands for. -/
def pairPoint (high low : Nat) : Nat := 0x10000 + (high - 0xD800) * 0x400 + (low - 0xDC00)

/-- Replace adjacent high and low surrogates by one code point. -/
def joinPairs : List Nat → List Nat
  | high :: low :: rest =>
    if isHighSurrogate high && isLowSurrogate low then pairPoint high low :: joinPairs rest
    else high :: joinPairs (low :: rest)
  | points => points

/-- The value of the text of a string literal. -/
def readString (raw : Text) : Text := ⟨joinPairs (unescape (unquoted raw))⟩

end FreeNames.Literal
