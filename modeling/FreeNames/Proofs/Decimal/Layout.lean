import FreeNames.Decimal.Key
import FreeNames.Proofs.Literal.Fraction

/-!
# Layouts of decimals

The four ways in which digits are laid out around a point, and what the texts denote.

* `Decimal.isLaidOut_layOut`: a layout is one of the four, by the place of the point.
* `Decimal.IsLaidOut.numeralValue?_eq`: read back as a decimal numeral, each of them denotes the
  digits, scaled to the place of the point.
-/

namespace FreeNames.Decimal

open Literal

/-- The number `0.d₁d₂…dₖ * 10 ^ place`. -/
def placed (digits : List Nat) (place : Int) : ℚ :=
  valueOf 10 digits * 10 ^ (place - digits.length)

/-- How digits whose point stands `place` digits after the first position are laid out. -/
inductive IsLaidOut (digits : List Nat) (place : Int) : List Nat → Prop
  | padded : digits.length ≤ place → place ≤ 21 →
      IsLaidOut digits place (digits ++ List.replicate (place - digits.length).toNat 0x30)
  | pointed : 0 < place → place < digits.length → place ≤ 21 →
      IsLaidOut digits place (digits.take place.toNat ++ 0x2E :: digits.drop place.toNat)
  | small : -6 < place → place ≤ 0 →
      IsLaidOut digits place (0x30 :: 0x2E :: List.replicate (-place).toNat 0x30 ++ digits)
  | scaled {first : Nat} {rest : List Nat} : digits = first :: rest → place ≤ -6 ∨ 21 < place →
      IsLaidOut digits place (first :: (if rest = [] then [] else 0x2E :: rest) ++
        0x65 :: (if 0 < place then 0x2B else 0x2D) :: (Text.ofNat (place - 1).natAbs).points)

variable {digits text : List Nat} {place : Int}

/-- Digits are laid out in one of the four ways. -/
theorem isLaidOut_layOut (some' : digits ≠ []) (place : Int) :
    IsLaidOut digits place (layOut digits place) := by
  unfold layOut longestWhole smallestFraction
  simp only [Bool.and_eq_true, decide_eq_true_eq]
  split
  · next h =>
    have count : place.toNat - digits.length = (place - digits.length).toNat := by omega
    rw [count]
    exact .padded h.1 h.2
  · next notPadded =>
    split
    · next h => exact .pointed h.1 (by omega) h.2
    · next notPointed =>
      split
      · next h => exact .small h.1 h.2
      · next notSmall =>
        obtain ⟨first, rest, rfl⟩ := List.exists_cons_of_ne_nil some'
        have length : (0 : Int) < (first :: rest).length := by simp
        have laid : IsLaidOut (first :: rest) place _ := .scaled rfl (by omega)
        have sign : (if place - 1 > 0 then 0x2B else 0x2D) = if 0 < place then 0x2B else 0x2D :=
          if_congr (by omega) rfl rfl
        rw [sign]
        cases rest <;> exact laid

/-- A mark, a sign and the digits of a number are an exponent. -/
theorem readExponent?_place (place : Int) :
    readExponent? (0x65 :: (if 0 < place then 0x2B else 0x2D) ::
      (Text.ofNat (place - 1).natAbs).points) = some (place - 1) := by
  obtain ⟨n, hn⟩ : ∃ n, n = (place - 1).natAbs := ⟨_, rfl⟩
  rw [← hn]
  have digits := isDigitOf_of_mem_ofNat n
  have some' := points_ofNat_ne_nil n
  by_cases h : 0 < place
  · have sign : splitSign ([0x2B] ++ (Text.ofNat n).points) = (false, (Text.ofNat n).points) := rfl
    have read := readExponent?_eq (.inl rfl) sign some' digits
    have value : (n : Int) = place - 1 := by omega
    rw [valueOf_ofNat, if_neg Bool.false_ne_true, value] at read
    rw [if_pos h]
    exact read
  · have sign : splitSign ([0x2D] ++ (Text.ofNat n).points) = (true, (Text.ofNat n).points) := rfl
    have read := readExponent?_eq (.inl rfl) sign some' digits
    have value : -(n : Int) = place - 1 := by omega
    rw [valueOf_ofNat, if_pos rfl, value] at read
    rw [if_neg h]
    exact read

/-- A numeral denotes the digits at their place if the digits of its parts are these, and zeros
behind them or in front of them. -/
theorem numeralValue?_of_parts {whole fraction : List Nat} {exponent : Int} (front back : Nat)
    (parts : fractionParts? text = some (whole, fraction, exponent))
    (same : whole ++ fraction = List.replicate front 0x30 ++ digits ++ List.replicate back 0x30)
    (sum : exponent - fraction.length + back = place - digits.length) :
    numeralValue? text = some (placed digits place) := by
  have value : valueOf 10 (whole ++ fraction) = valueOf 10 digits * 10 ^ back := by
    rw [same, valueOf_append, valueOf_append, valueOf_replicate_zero, valueOf_replicate_zero,
      List.length_replicate]
    ring
  simp only [numeralValue?, parts, Option.map_some]
  rw [value, placed, ← sum, zpow_add₀ (by norm_num), zpow_natCast]
  push_cast
  congr 1
  ring

/-- With an exponent, the digits denote a number whose point stands behind the first of them. -/
theorem numeralValue?_scaled {first : Nat} {rest : List Nat}
    (valid : ∀ c ∈ first :: rest, isDigitOf 10 c = true) (place : Int) :
    numeralValue? (first :: (if rest = [] then [] else 0x2E :: rest) ++
      0x65 :: (if 0 < place then 0x2B else 0x2D) :: (Text.ofNat (place - 1).natAbs).points) =
      some (placed (first :: rest) place) := by
  have exponent := readExponent?_place place
  obtain ⟨tail, same⟩ : ∃ tail, tail = 0x65 :: (if 0 < place then 0x2B else 0x2D) ::
    (Text.ofNat (place - 1).natAbs).points := ⟨_, rfl⟩
  have isTail : IsTail tail := by
    intro c hc
    rw [same] at hc
    cases hc
    decide
  rw [← same] at exponent ⊢
  have single : ∀ c ∈ [first], isDigitOf 10 c = true := fun c hc =>
    valid c (by simp [List.mem_singleton.mp hc])
  have more : ∀ c ∈ rest, isDigitOf 10 c = true := fun c hc => valid c (List.mem_cons_of_mem _ hc)
  by_cases none : rest = []
  · have parts := fractionParts?_whole single (by simp) isTail
    rw [exponent] at parts
    rw [none, if_pos rfl]
    exact numeralValue?_of_parts 0 0 parts (by simp) (by simp)
  · have parts := fractionParts?_pointed single more (by simp) isTail
    rw [exponent] at parts
    rw [if_neg none]
    refine numeralValue?_of_parts 0 0 parts (by simp) ?_
    simp
    omega

/-- A text in one of the four layouts denotes the digits at their place. -/
theorem IsLaidOut.numeralValue?_eq (h : IsLaidOut digits place text)
    (valid : ∀ c ∈ digits, isDigitOf 10 c = true) (some' : digits ≠ []) :
    numeralValue? text = some (placed digits place) := by
  have zero : ∀ n, ∀ c ∈ List.replicate n 0x30, isDigitOf 10 c = true := fun n c hc =>
    (List.mem_replicate.mp hc).2 ▸ rfl
  cases h with
  | padded le _ =>
    obtain ⟨n, hn⟩ : ∃ n, n = (place - digits.length).toNat := ⟨_, rfl⟩
    have valid' : ∀ c ∈ digits ++ List.replicate n 0x30, isDigitOf 10 c = true := fun c hc =>
      (List.mem_append.mp hc).elim (valid c) (zero n c)
    have parts := fractionParts?_digits valid' (by simp [some'])
    rw [← hn]
    exact numeralValue?_of_parts 0 n parts (by simp) (by simp; omega)
  | pointed pos lt _ =>
    have front : ∀ c ∈ digits.take place.toNat, isDigitOf 10 c = true := fun c hc =>
      valid c (List.mem_of_mem_take hc)
    have behind : ∀ c ∈ digits.drop place.toNat, isDigitOf 10 c = true := fun c hc =>
      valid c (List.mem_of_mem_drop hc)
    have parts := fractionParts?_point front behind (by rwa [List.take_append_drop])
    exact numeralValue?_of_parts 0 0 parts (by simp) (by simp; omega)
  | small _ le =>
    obtain ⟨n, hn⟩ : ∃ n, n = (-place).toNat := ⟨_, rfl⟩
    have valid' : ∀ c ∈ List.replicate n 0x30 ++ digits, isDigitOf 10 c = true := fun c hc =>
      (List.mem_append.mp hc).elim (zero n c) (valid c)
    have parts := fractionParts?_point (zero 1) valid' (by simp)
    have zeros : List.replicate 1 0x30 ++ (List.replicate n 0x30 ++ digits) =
        List.replicate (n + 1) 0x30 ++ digits ++ List.replicate 0 0x30 := by
      simp [List.replicate_succ]
    rw [← hn]
    exact numeralValue?_of_parts (n + 1) 0 parts zeros (by simp; omega)
  | scaled same far =>
    subst same
    exact numeralValue?_scaled valid place

end FreeNames.Decimal
