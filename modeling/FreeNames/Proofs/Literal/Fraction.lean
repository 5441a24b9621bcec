import Mathlib.Algebra.Order.Field.Power
import Mathlib.Data.Rat.Cast.Order
import FreeNames.Proofs.Literal.Digits

/-!
# Decimal fractions

The parts of a decimal numeral: the digits in front of the point, those behind it, and the exponent.

* `readFraction?_eq`: reading a fraction takes it apart and rounds what the parts denote;
  `numeralValue?` is what they denote.
* `fractionParts?_whole` and `fractionParts?_pointed` take numerals without and with a point apart.
-/

namespace FreeNames.Literal

/-! ## Parts -/

/-- The digits in front of the point and behind it, and the exponent. -/
def fractionParts? (numeral : List Nat) : Option (List Nat × List Nat × Int) :=
  let whole := numeral.takeWhile (isDigitOf 10)
  let rest := numeral.dropWhile (isDigitOf 10)
  let (fraction, tail) := match rest with
    | 0x2E :: more => (more.takeWhile (isDigitOf 10), more.dropWhile (isDigitOf 10))
    | _ => ([], rest)
  if whole.isEmpty && fraction.isEmpty then none
  else (readExponent? tail).map fun exponent => (whole, fraction, exponent)

/-- The number that a decimal numeral denotes. -/
def numeralValue? (numeral : List Nat) : Option ℚ :=
  (fractionParts? numeral).map fun (whole, fraction, exponent) =>
    valueOf 10 (whole ++ fraction) * 10 ^ (exponent - fraction.length)

/-- Reading a fraction rounds what its parts denote. -/
theorem readFraction?_eq (negative : Bool) (numeral : List Nat) :
    readFraction? negative numeral = (fractionParts? numeral).map fun (whole, fraction, exponent) =>
      Double.ofDecimal negative (valueOf 10 (whole ++ fraction)) (exponent - fraction.length) := by
  have key : ∀ whole fraction tail : List Nat,
      (if whole.isEmpty && fraction.isEmpty then none
        else (readExponent? tail).map fun exponent => Double.ofDecimal negative
          (valueOf 10 (whole ++ fraction)) (exponent - fraction.length)) =
      (if whole.isEmpty && fraction.isEmpty then none
        else (readExponent? tail).map fun exponent => (whole, fraction, exponent)).map
          fun (whole, fraction, exponent) => Double.ofDecimal negative
            (valueOf 10 (whole ++ fraction)) (exponent - fraction.length) := by
    intro whole fraction tail
    split
    · rfl
    · rw [Option.map_map]
      rfl
  exact key ..

/-! ## Numerals without and with a point -/

/-- Behind the digits and the point of a fraction stands something else. -/
def IsTail (tail : List Nat) : Prop :=
  ∀ c ∈ tail.head?, isDigitOf 10 c = false ∧ c ≠ 0x2E

theorem isTail_nil : IsTail [] := by
  intro c hc
  cases hc

theorem takeWhile_digits {xs tail : List Nat} (h : ∀ c ∈ xs, isDigitOf 10 c = true)
    (ht : ∀ c ∈ tail.head?, isDigitOf 10 c = false) :
    (xs ++ tail).takeWhile (isDigitOf 10) = xs ∧ (xs ++ tail).dropWhile (isDigitOf 10) = tail := by
  have stop : tail.takeWhile (isDigitOf 10) = [] ∧ tail.dropWhile (isDigitOf 10) = tail := by
    cases tail with
    | nil => exact ⟨rfl, rfl⟩
    | cons c cs =>
      have hc : ¬ isDigitOf 10 c = true := by simp [ht c rfl]
      exact ⟨List.takeWhile_cons_of_neg hc, List.dropWhile_cons_of_neg hc⟩
  rw [List.takeWhile_append_of_pos h, List.dropWhile_append_of_pos h, stop.1, stop.2]
  exact ⟨List.append_nil xs, rfl⟩

variable {whole fraction tail : List Nat}

/-- A numeral without a point is digits and an exponent. -/
theorem fractionParts?_whole (h : ∀ c ∈ whole, isDigitOf 10 c = true) (some' : whole ≠ [])
    (ht : IsTail tail) :
    fractionParts? (whole ++ tail) = (readExponent? tail).map fun e => (whole, [], e) := by
  obtain ⟨front, back⟩ := takeWhile_digits h fun c hc => (ht c hc).1
  unfold fractionParts?
  simp only [front, back]
  split
  · exact absurd rfl (ht 0x2E rfl).2
  · simp [some']

/-- A numeral with a point is digits, others behind the point, and an exponent. -/
theorem fractionParts?_pointed (h : ∀ c ∈ whole, isDigitOf 10 c = true)
    (hf : ∀ c ∈ fraction, isDigitOf 10 c = true) (some' : whole ++ fraction ≠ [])
    (ht : IsTail tail) : fractionParts? (whole ++ 0x2E :: fraction ++ tail) =
      (readExponent? tail).map fun e => (whole, fraction, e) := by
  have point : ∀ c ∈ (0x2E :: (fraction ++ tail)).head?, isDigitOf 10 c = false := by
    intro c hc
    cases hc
    rfl
  obtain ⟨front, back⟩ := takeWhile_digits h point
  obtain ⟨front', back'⟩ := takeWhile_digits hf fun c hc => (ht c hc).1
  have parts : whole ≠ [] ∨ fraction ≠ [] := by
    by_contra none
    simp_all
  unfold fractionParts?
  simp only [List.append_assoc, List.cons_append, front, back, front', back']
  rcases parts with some' | some' <;> simp [some']

/-- Digits alone, and digits with a point, have the exponent zero. -/
theorem fractionParts?_digits (h : ∀ c ∈ whole, isDigitOf 10 c = true) (some' : whole ≠ []) :
    fractionParts? whole = some (whole, [], 0) := by
  have parts := fractionParts?_whole h some' isTail_nil
  rwa [List.append_nil] at parts

theorem fractionParts?_point (h : ∀ c ∈ whole, isDigitOf 10 c = true)
    (hf : ∀ c ∈ fraction, isDigitOf 10 c = true) (some' : whole ++ fraction ≠ []) :
    fractionParts? (whole ++ 0x2E :: fraction) = some (whole, fraction, 0) := by
  have parts := fractionParts?_pointed h hf some' isTail_nil
  rwa [List.append_nil] at parts

/-! ## Signs and exponents -/

theorem readDigits?_of_digits {base : Nat} {xs : List Nat} (some' : xs ≠ [])
    (h : ∀ c ∈ xs, isDigitOf base c = true) : readDigits? base xs = some (valueOf base xs) := by
  have all : xs.all (isDigitOf base) = true := List.all_eq_true.mpr h
  simp [readDigits?, all, some']

/-- What begins neither with a plus nor with a minus has no sign. -/
theorem splitSign_of_ne {c : Nat} {cs : List Nat} (minus : c ≠ 0x2D) (plus : c ≠ 0x2B) :
    splitSign (c :: cs) = (false, c :: cs) := by
  unfold splitSign
  split
  · next same => exact absurd (List.cons.inj same).1 minus
  · next same => exact absurd (List.cons.inj same).1 plus
  · rfl

/-- Digits have no sign. -/
theorem splitSign_of_digits {xs : List Nat} (some' : xs ≠ [])
    (h : ∀ c ∈ xs, isDigitOf 10 c = true) : splitSign xs = (false, xs) := by
  obtain ⟨c, cs, rfl⟩ := List.exists_cons_of_ne_nil some'
  have digit := h c (List.mem_cons_self ..)
  rw [isDigitOf_iff_of_le_ten (by omega)] at digit
  exact splitSign_of_ne (by omega) (by omega)

/-- An exponent is a letter, a sign or none, and digits. -/
theorem readExponent?_eq {letter : Nat} {sign xs digits : List Nat} {negative : Bool}
    (hl : letter = 0x65 ∨ letter = 0x45) (hs : splitSign (sign ++ xs) = (negative, digits))
    (some' : digits ≠ []) (h : ∀ c ∈ digits, isDigitOf 10 c = true) :
    readExponent? (letter :: (sign ++ xs)) =
      some (if negative then -(valueOf 10 digits : Int) else valueOf 10 digits) := by
  have mark : (letter = 0x65 || letter = 0x45) = true := by simpa using hl
  rw [readExponent?, if_pos mark, hs]
  simp only [readDigits?_of_digits some' h]
  cases negative <;> rfl

end FreeNames.Literal
