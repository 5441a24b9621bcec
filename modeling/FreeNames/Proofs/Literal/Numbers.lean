import FreeNames.Proofs.Literal.Fraction
import FreeNames.Proofs.Literal.Numeric

/-!
# Reading numeric literals

What `readNumber` gives for the literals of the grammar.

* `NumericLiteral.significant_written`: separators and the suffix are dropped.
* `PlainDigits.readSignificant_eq`, `PaddedDigits.readSignificant_eq` and their like say what is
  read from each kind of whole number, `readSignificant_of_mark` that a point or an exponent makes a
  decimal fraction.
* `NumericLiteral.readNumber_written`: every literal is read as its value, but a decimal one with
  zeros in front is refused if it is too long.
-/

namespace FreeNames

open Literal

/-! ## Plain code points -/

/-- Code points of numerals: ASCII behind the comma, neither a separator nor a small N. -/
def IsPlainPoint (c : Nat) : Prop := 0x2B ≤ c ∧ c < 0x80 ∧ c ≠ 0x5F ∧ c ≠ 0x6E

instance (c : Nat) : Decidable (IsPlainPoint c) := by
  unfold IsPlainPoint
  infer_instance

theorem isPlainPoint_of_isDigitOf {base c : Nat} (le : base ≤ 16) (h : isDigitOf base c = true) :
    IsPlainPoint c := by
  unfold isDigitOf at h
  unfold IsPlainPoint
  rcases digitValue?_cases c with ⟨lo, hi, hv⟩ | ⟨lo, hi, hv⟩ | ⟨lo, hi, hv⟩ | ⟨hv, -⟩ <;>
    rw [hv] at h <;> simp only [decide_eq_true_eq, Bool.false_eq_true] at h <;> omega

theorem isBlank_of_plain : ∀ c < 0x80, 0x2B ≤ c → Text.isNumeralBlank c = false := by decide

theorem map_asciiPoint_of_plain {xs : List Nat} (h : ∀ c ∈ xs, IsPlainPoint c) :
    xs.map asciiPoint = xs := by
  conv_rhs => rw [← List.map_id xs]
  exact List.map_congr_left fun c hc => if_pos (h c hc).2.1

/-- A numeral of plain code points counts as it stands. -/
theorem numeralOf_of_plain {xs : List Nat} (h : ∀ c ∈ xs, IsPlainPoint c) :
    numeralOf ⟨xs⟩ = xs := by
  have ascii := map_asciiPoint_of_plain h
  have blank : ∀ c ∈ xs, Text.isNumeralBlank c = false := fun c hc =>
    isBlank_of_plain c (h c hc).2.1 (h c hc).1
  have front : xs.dropWhile Text.isNumeralBlank = xs := by
    cases xs with
    | nil => rfl
    | cons c cs => rw [List.dropWhile_cons_of_neg (by simp [blank c])]
  have back : xs.reverse.dropWhile Text.isNumeralBlank = xs.reverse := by
    cases hx : xs.reverse with
    | nil => rfl
    | cons c cs =>
      have : c ∈ xs := List.mem_reverse.mp (hx ▸ List.mem_cons_self ..)
      rw [List.dropWhile_cons_of_neg (by simp [blank c this])]
  simp only [numeralOf, Text.trim, Text.dropStart, Text.dropEnd, ascii, front, back,
    List.reverse_reverse]

/-- A text reduces to plain code points where its separators are dropped. -/
structure Reduces (xs ys : List Nat) : Prop where
  filtered : xs.filter (· ≠ 0x5F) = ys
  plain : ∀ c ∈ ys, IsPlainPoint c

namespace Reduces

variable {xs ys xs' ys' : List Nat}

theorem self (h : ∀ c ∈ xs, IsPlainPoint c) : Reduces xs xs where
  filtered := List.filter_eq_self.mpr fun c hc => by simpa using (h c hc).2.2.1
  plain := h

theorem append (h : Reduces xs ys) (h' : Reduces xs' ys') : Reduces (xs ++ xs') (ys ++ ys') where
  filtered := by rw [List.filter_append, h.filtered, h'.filtered]
  plain c hc := (List.mem_append.mp hc).elim (h.plain c) (h'.plain c)

theorem cons {c : Nat} (hc : IsPlainPoint c) (h : Reduces xs ys) : Reduces (c :: xs) (c :: ys) := by
  have single : Reduces [c] [c] := self fun _ hd => List.mem_singleton.mp hd ▸ hc
  exact single.append h

theorem separator (h : Reduces xs ys) : Reduces (0x5F :: xs) ys where
  filtered := by rw [List.filter_cons_of_neg (by simp), h.filtered]
  plain := h.plain

/-- Separators and the suffix are dropped from a literal. -/
theorem significant_eq (h : Reduces xs ys) (big : Bool) :
    significant ⟨xs ++ NumericLiteral.suffix big⟩ = ⟨ys⟩ := by
  have last : ys.reverse.dropWhile (· = 0x6E) = ys.reverse := by
    cases hy : ys.reverse with
    | nil => rfl
    | cons c cs =>
      have : c ∈ ys := List.mem_reverse.mp (hy ▸ List.mem_cons_self ..)
      rw [List.dropWhile_cons_of_neg (by simpa using (h.plain c this).2.2.2)]
  simp only [significant, Text.dropEnd, List.filter_append, h.filtered, List.reverse_append]
  cases big <;> simp [NumericLiteral.suffix, last]

end Reduces

/-! ## The parts of literals -/

theorem Digit.plain {base : Nat} (le : base ≤ 16) (d : Digit base) : IsPlainPoint d.point :=
  isPlainPoint_of_isDigitOf le d.isDigit

theorem Digits.reduces {base : Nat} (le : base ≤ 16) (ds : Digits base) :
    Reduces ds.written ds.points := by
  induction ds with
  | one d => exact .cons (d.plain le) (.self (by simp))
  | next ds d ih => exact ih.append (.cons (d.plain le) (.self (by simp)))
  | separated ds d ih => exact ih.append (.separator (.cons (d.plain le) (.self (by simp))))

theorem Digits.isDigitOf_of_mem {base : Nat} (ds : Digits base) {c : Nat} (hc : c ∈ ds.points) :
    isDigitOf base c = true := by
  induction ds with
  | one d =>
    rw [List.mem_singleton.mp hc]
    exact d.isDigit
  | next ds d ih | separated ds d ih =>
    rcases List.mem_append.mp hc with hc | hc
    · exact ih hc
    · rw [List.mem_singleton.mp hc]
      exact d.isDigit

theorem Digits.points_ne_nil {base : Nat} (ds : Digits base) : ds.points ≠ [] := by
  cases ds <;> simp [Digits.points]

theorem PlainDigits.reduces (p : PlainDigits) : Reduces p.written p.points := by
  cases p with
  | zero => exact .self (by decide)
  | one first _ => exact .cons (first.plain (by omega)) (.self (by simp))
  | more first _ separated rest =>
    have rest' := rest.reduces (by omega)
    cases separated
    · exact .cons (first.plain (by omega)) rest'
    · exact .cons (first.plain (by omega)) (.separator rest')

theorem PlainDigits.isDigitOf_of_mem (p : PlainDigits) {c : Nat} (hc : c ∈ p.points) :
    isDigitOf 10 c = true := by
  cases p with
  | zero =>
    rw [List.mem_singleton.mp hc]
    rfl
  | one first _ =>
    rw [List.mem_singleton.mp hc]
    exact first.isDigit
  | more first _ _ rest =>
    rcases List.mem_cons.mp hc with rfl | hc
    · exact first.isDigit
    · exact rest.isDigitOf_of_mem hc

theorem PaddedDigits.isDigitOf_of_mem (p : PaddedDigits) {c : Nat} (hc : c ∈ p.points) :
    isDigitOf 10 c = true := by
  rcases List.mem_cons.mp hc with rfl | hc
  · rfl
  · obtain ⟨d, -, rfl⟩ := List.mem_map.mp hc
    exact d.isDigit

theorem OctalDigits.isDigitOf_of_mem (o : OctalDigits) {c : Nat} (hc : c ∈ o.points) :
    isDigitOf 8 c = true := by
  rcases List.mem_cons.mp hc with rfl | hc
  · rfl
  · obtain ⟨d, -, rfl⟩ := List.mem_map.mp hc
    exact d.isDigit

theorem WholeDigits.isDigitOf_of_mem (w : WholeDigits) {c : Nat} (hc : c ∈ w.points) :
    isDigitOf 10 c = true := by
  cases w with
  | plain p => exact p.isDigitOf_of_mem hc
  | padded p => exact p.isDigitOf_of_mem hc

theorem WholeDigits.points_ne_nil (w : WholeDigits) : w.points ≠ [] := by
  rcases w with (_ | _ | _) | _ <;> simp [points, PlainDigits.points, PaddedDigits.points]

theorem WholeDigits.reduces (w : WholeDigits) : Reduces w.written w.points := by
  cases w with
  | plain p => exact p.reduces
  | padded p => exact .self fun c hc => isPlainPoint_of_isDigitOf (by omega) (p.isDigitOf_of_mem hc)

theorem ExponentPart.reduces (e : ExponentPart) : Reduces e.written e.numeral := by
  have sign : Reduces e.signPoints e.signPoints := by
    unfold signPoints
    split <;> exact .self (by decide)
  refine .cons ?_ (sign.append (e.digits.reduces (by omega)))
  unfold letter
  split <;> decide

theorem Radix.base_le (r : Radix) : r.base ≤ 16 := by
  cases r <;> decide

namespace NumericLiteral

theorem reduces_optional {α : Type} {text points : α → List Nat}
    (h : ∀ a, Reduces (text a) (points a)) (o : Option α) :
    Reduces (optional text o) (optional points o) := by
  cases o with
  | none => exact .self (by simp [optional])
  | some a => exact h a

/-- A literal is its numeral with separators, and a suffix if it has one. -/
theorem reduces (l : NumericLiteral) :
    ∃ body, l.written = body ++ suffix l.isBig ∧ Reduces body l.numeral := by
  have point : IsPlainPoint 0x2E := by decide
  have bare : ∀ {xs ys : List Nat}, Reduces xs ys →
      ∃ body, xs = body ++ suffix false ∧ Reduces body ys :=
    fun h => ⟨_, (List.append_nil _).symm, h⟩
  have exponent := reduces_optional ExponentPart.reduces
  cases l with
  | integer w => exact bare w.reduces
  | scaled w e => exact bare (w.reduces.append e.reduces)
  | pointed w f e =>
    have digits := reduces_optional (fun ds : Digits 10 => ds.reduces (by omega)) f
    exact bare ((w.reduces.append (.cons point digits)).append (exponent e))
  | fraction f e => exact bare ((Reduces.cons point (f.reduces (by omega))).append (exponent e))
  | big p => exact ⟨_, rfl, p.reduces⟩
  | radix r capital ds b =>
    have letter : IsPlainPoint (r.letter capital) := by cases r <;> cases capital <;> decide
    exact ⟨_, rfl, .cons (by decide) (.cons letter (ds.reduces r.base_le))⟩
  | octal o =>
    exact bare (.self fun c hc => isPlainPoint_of_isDigitOf (by omega) (o.isDigitOf_of_mem hc))

theorem significant_written (l : NumericLiteral) : significant ⟨l.written⟩ = ⟨l.numeral⟩ := by
  obtain ⟨body, same, h⟩ := l.reduces
  rw [same, h.significant_eq]

theorem plain_numeral (l : NumericLiteral) : ∀ c ∈ l.numeral, IsPlainPoint c := by
  obtain ⟨body, -, h⟩ := l.reduces
  exact h.plain

end NumericLiteral

/-! ## Whole numbers -/

theorem PlainDigits.points_ne_nil (p : PlainDigits) : p.points ≠ [] := by
  cases p <;> simp [points]

/-- A decimal numeral without a zero in front is read if it is not too long. -/
theorem PlainDigits.readUnsigned?_eq (p : PlainDigits) : readUnsigned? p.points =
    if longestDecimal < p.points.length then none else some (valueOf 10 p.points) := by
  have decimal : readUnsigned? p.points = readDecimal? p.points := by
    cases p with
    | zero => rfl
    | one first nonzero | more first nonzero _ _ =>
      unfold readUnsigned?
      split
      · next same => exact absurd (List.cons.inj same).1 nonzero
      · rfl
  have lead : p.points.head? = some 0x30 → valueOf 10 p.points = 0 := by
    cases p with
    | zero => intro _; rfl
    | one first nonzero => simp [points, nonzero]
    | more first nonzero _ _ => simp [points, nonzero]
  have digits := readDigits?_of_digits p.points_ne_nil fun c hc => p.isDigitOf_of_mem hc
  rw [decimal, readDecimal?, digits]
  by_cases long : longestDecimal < p.points.length
  · simp only [if_pos long]
  · simp only [if_neg long]
    rw [if_neg]
    simpa using lead

theorem Radix.baseOf?_letter (r : Radix) (capital : Bool) :
    baseOf? (r.letter capital) = some r.base := by
  cases r <;> cases capital <;> rfl

theorem Radix.readUnsigned?_eq (r : Radix) (capital : Bool) (ds : Digits r.base) :
    readUnsigned? (0x30 :: r.letter capital :: ds.points) = some (valueOf r.base ds.points) := by
  rw [readUnsigned?, r.baseOf?_letter]
  exact readDigits?_of_digits ds.points_ne_nil fun c hc => ds.isDigitOf_of_mem hc

/-! ## Decimal fractions -/

theorem ExponentPart.splitSign_eq (e : ExponentPart) : splitSign (e.signPoints ++ e.digits.points) =
    (decide (e.sign = some true), e.digits.points) := by
  have digits := splitSign_of_digits e.digits.points_ne_nil fun _ => e.digits.isDigitOf_of_mem
  unfold signPoints
  split
  · next hs => rw [hs, List.nil_append, digits]; rfl
  · next hs => rw [hs]; rfl
  · next hs => rw [hs]; rfl

theorem ExponentPart.letter_eq (e : ExponentPart) : e.letter = 0x65 ∨ e.letter = 0x45 := by
  unfold letter
  split
  · exact .inr rfl
  · exact .inl rfl

theorem ExponentPart.readExponent?_numeral (e : ExponentPart) :
    readExponent? e.numeral = some e.value := by
  have read := readExponent?_eq e.letter_eq e.splitSign_eq e.digits.points_ne_nil
    fun _ => e.digits.isDigitOf_of_mem
  simpa [numeral, value] using read

theorem isTail_exponent (e : Option ExponentPart) :
    IsTail (NumericLiteral.optional ExponentPart.numeral e) := by
  intro c hc
  cases e with
  | none => cases hc
  | some e =>
    cases hc
    rcases e.letter_eq with same | same <;> rw [same] <;> decide

theorem readExponent?_optional (e : Option ExponentPart) :
    readExponent? (NumericLiteral.optional ExponentPart.numeral e) =
      some ((e.map ExponentPart.value).getD 0) := by
  cases e with
  | none => rfl
  | some e => exact e.readExponent?_numeral

/-- Digits and an exponent are rounded to the nearest double of what they denote. -/
theorem isNearest_decimalValue (whole fraction : List Nat) (e : Option ExponentPart) :
    Double.IsNearest (NumericLiteral.decimalValue whole fraction e)
      (Double.ofDecimal false (valueOf 10 (whole ++ fraction))
        ((e.map ExponentPart.value).getD 0 - fraction.length)) := by
  have same : NumericLiteral.decimalValue whole fraction e = valueOf 10 (whole ++ fraction) *
      10 ^ ((e.map ExponentPart.value).getD 0 - (fraction.length : Int)) := by
    rw [NumericLiteral.decimalValue, valueOf_append, zpow_sub₀ (by norm_num), zpow_natCast]
    push_cast
    field_simp
  rw [same]
  exact Double.isNearest_ofDecimal ..

/-! ## Literals -/

/-- What begins with a digit or a point spells no word. -/
theorem readReal?_of_plain {c : Nat} {cs : List Nat} (h : ∀ d ∈ c :: cs, IsPlainPoint d)
    (first : isDigitOf 10 c = true ∨ c = 0x2E) :
    readReal? ⟨c :: cs⟩ = readFraction? false (c :: cs) := by
  have small : 0x2E ≤ c ∧ c < 0x3A := by
    rw [isDigitOf_iff_of_le_ten (by omega)] at first
    omega
  have noWord : ∀ {word : String} {k : Nat} {ks : List Nat},
      (Text.ofString word).points = k :: ks → 0x61 ≤ k → spells word (c :: cs) = false := by
    intro word k ks hw hk
    have lower : (if 0x41 ≤ c && c ≤ 0x5A then c + 0x20 else c) = c := if_neg (by simp; omega)
    rw [spells, hw, List.map_cons, lower]
    simp
    omega
  have inf : spells "inf" (c :: cs) = false := noWord rfl (by decide)
  have infinity : spells "infinity" (c :: cs) = false := noWord rfl (by decide)
  have nan : spells "nan" (c :: cs) = false := noWord rfl (by decide)
  rw [readReal?, numeralOf_of_plain h, splitSign_of_ne (by omega) (by omega)]
  simp only [inf, infinity, nan]
  rfl

theorem readWhole?_of_plain {c : Nat} {cs : List Nat} (h : ∀ d ∈ c :: cs, IsPlainPoint d)
    (first : isDigitOf 10 c = true ∨ c = 0x2E) :
    readWhole? ⟨c :: cs⟩ = (readUnsigned? (c :: cs)).map fun n => (n : Int) := by
  have small : 0x2E ≤ c ∧ c < 0x3A := by
    rw [isDigitOf_iff_of_le_ten (by omega)] at first
    omega
  rw [readWhole?, numeralOf_of_plain h, splitSign_of_ne (by omega) (by omega)]
  simp

/-- The value of a text without separators and suffix. -/
def readSignificant (xs : List Nat) : Except Fault (Option Number) :=
  if beginsWithZero ⟨xs⟩ then
    if xs.all (isDigitOf 8) then .ok (some (.whole (valueOf 8 xs)))
    else (readPadded ⟨xs⟩).map fun n => some (.whole n)
  else match readWhole? ⟨xs⟩ with
    | some n => .ok (some (.whole n))
    | none => .ok ((readReal? ⟨xs⟩).map .real)

theorem NumericLiteral.readNumber_written_eq (l : NumericLiteral) :
    readNumber ⟨l.written⟩ = readSignificant l.numeral := by
  rw [readNumber, l.significant_written]
  rfl

theorem isDigit_of_digit : ∀ c < 0x3A, 0x30 ≤ c → Text.isDigit c = true := by decide

theorem baseOf?_of_digit : ∀ c < 0x3A, baseOf? c = none := by decide

/-- A numeral with a zero in front of digits is an old one, octal or padded. -/
theorem beginsWithZero_of_digits {xs : List Nat} (h : ∀ c ∈ xs, isDigitOf 10 c = true)
    (some' : xs ≠ []) : beginsWithZero ⟨0x30 :: xs⟩ = true := by
  have digits : ∀ c ∈ 0x30 :: xs, Text.isDigit c = true := by
    intro c hc
    have digit : isDigitOf 10 c = true := by
      rcases List.mem_cons.mp hc with rfl | hc
      · rfl
      · exact h c hc
    rw [isDigitOf_iff_of_le_ten (by omega)] at digit
    exact isDigit_of_digit c digit.2 digit.1
  have length : 0 < xs.length := List.length_pos_iff.mpr some'
  simp only [beginsWithZero, Text.length, List.length_cons, List.head?_cons,
    List.all_eq_true.mpr digits]
  simpa using length

theorem PlainDigits.beginsWithZero_eq (p : PlainDigits) : beginsWithZero ⟨p.points⟩ = false := by
  cases p with
  | zero => rfl
  | one first nonzero => rfl
  | more first nonzero _ _ => simp [beginsWithZero, points, nonzero]

/-- A point or the letter of an exponent. -/
def IsMark (c : Nat) : Prop := c = 0x2E ∨ c = 0x65 ∨ c = 0x45

/-- What holds a mark behind digits is no whole number. -/
theorem readSignificant_of_mark {digits rest : List Nat} {mark : Nat} (hm : IsMark mark)
    (h : ∀ c ∈ digits, isDigitOf 10 c = true) (point : digits = [] → mark = 0x2E)
    (plain : ∀ c ∈ digits ++ mark :: rest, IsPlainPoint c) :
    readSignificant (digits ++ mark :: rest) =
      .ok ((readFraction? false (digits ++ mark :: rest)).map .real) := by
  have noDigit : Text.isDigit mark = false ∧ isDigitOf 10 mark = false ∧ baseOf? mark = none := by
    rcases hm with rfl | rfl | rfl <;> decide
  have mem : mark ∈ digits ++ mark :: rest := by simp
  have notZero : beginsWithZero ⟨digits ++ mark :: rest⟩ = false := by
    have : (digits ++ mark :: rest).all Text.isDigit = false :=
      List.all_eq_false.mpr ⟨mark, mem, by simp [noDigit.1]⟩
    rw [beginsWithZero, this, Bool.and_false]
  have notDecimal : ∀ xs : List Nat, mark ∈ xs → readDecimal? xs = none := by
    intro xs hx
    have : xs.all (isDigitOf 10) = false := List.all_eq_false.mpr ⟨mark, hx, by simp [noDigit.2.1]⟩
    simp [readDecimal?, readDigits?, this]
  have notWhole : readUnsigned? (digits ++ mark :: rest) = none := by
    unfold readUnsigned?
    split
    · next c cs same =>
      have base : baseOf? c = none := by
        rcases digits with _ | ⟨d, _ | ⟨e, es⟩⟩
        · have := (List.cons.inj same).1
          rw [point rfl] at this
          cases this
        · rw [← (List.cons.inj (List.cons.inj same).2).1]
          exact noDigit.2.2
        · have digit := h e (by simp)
          rw [isDigitOf_iff_of_le_ten (by omega)] at digit
          rw [← (List.cons.inj (List.cons.inj same).2).1]
          exact baseOf?_of_digit e digit.2
      rw [base]
      exact notDecimal _ (same ▸ mem)
    · exact notDecimal _ mem
  obtain ⟨c, cs, same⟩ := List.exists_cons_of_ne_nil (List.ne_nil_of_mem mem)
  have first : isDigitOf 10 c = true ∨ c = 0x2E := by
    rcases digits with _ | ⟨d, ds⟩
    · exact .inr ((List.cons.inj same).1.symm.trans (point rfl))
    · exact .inl ((List.cons.inj same).1 ▸ h d (by simp))
  rw [same] at plain notZero notWhole ⊢
  rw [readSignificant, notZero, readWhole?_of_plain plain first, notWhole,
    readReal?_of_plain plain first]
  rfl

/-- A decimal numeral without a zero in front is read exactly, or rounded if it is too long. -/
theorem PlainDigits.readSignificant_eq (p : PlainDigits) :
    readSignificant p.points = .ok (some (if longestDecimal < p.points.length
      then .real (Double.ofDecimal false (valueOf 10 p.points) 0)
      else .whole (valueOf 10 p.points))) := by
  have digits : ∀ c ∈ p.points, isDigitOf 10 c = true := fun c hc => p.isDigitOf_of_mem hc
  have plain : ∀ c ∈ p.points, IsPlainPoint c := p.reduces.plain
  have fraction : readFraction? false p.points =
      some (Double.ofDecimal false (valueOf 10 p.points) 0) := by
    rw [readFraction?_eq, fractionParts?_digits digits p.points_ne_nil]
    simp
  have notZero := p.beginsWithZero_eq
  have whole := p.readUnsigned?_eq
  obtain ⟨c, cs, same⟩ := List.exists_cons_of_ne_nil p.points_ne_nil
  have first : isDigitOf 10 c = true ∨ c = 0x2E := .inl (digits c (same ▸ List.mem_cons_self ..))
  rw [same] at plain fraction notZero whole ⊢
  rw [readSignificant, notZero, readWhole?_of_plain plain first, readReal?_of_plain plain first,
    whole, fraction]
  by_cases long : longestDecimal < (c :: cs).length
  · rw [if_pos long, if_pos long]
    rfl
  · rw [if_neg long, if_neg long]
    rfl

theorem Radix.readSignificant_eq (r : Radix) (capital : Bool) (ds : Digits r.base) :
    readSignificant (0x30 :: r.letter capital :: ds.points) =
      .ok (some (.whole (valueOf r.base ds.points))) := by
  have notZero : beginsWithZero ⟨0x30 :: r.letter capital :: ds.points⟩ = false := by
    have : Text.isDigit (r.letter capital) = false := by cases r <;> cases capital <;> decide
    simp [beginsWithZero, this]
  have plain : ∀ c ∈ 0x30 :: r.letter capital :: ds.points, IsPlainPoint c := by
    have letter : IsPlainPoint (r.letter capital) := by cases r <;> cases capital <;> decide
    exact (Reduces.cons (by decide) (.cons letter (ds.reduces r.base_le))).plain
  rw [readSignificant, notZero, readWhole?_of_plain plain (.inl rfl), r.readUnsigned?_eq]
  rfl

theorem OctalDigits.readSignificant_eq (o : OctalDigits) :
    readSignificant o.points = .ok (some (.whole (valueOf 8 o.points))) := by
  have zero : beginsWithZero ⟨o.points⟩ = true := by
    refine beginsWithZero_of_digits (fun c hc => ?_) (by simpa using o.nonempty)
    have := o.isDigitOf_of_mem (List.mem_cons_of_mem _ hc)
    rw [isDigitOf_iff_of_le_ten (by omega)] at this ⊢
    omega
  have octal : o.points.all (isDigitOf 8) = true :=
    List.all_eq_true.mpr fun c hc => o.isDigitOf_of_mem hc
  rw [readSignificant, zero, octal]
  rfl

/-- A decimal numeral with a zero in front is read exactly, or refused if it is too long. -/
theorem PaddedDigits.readSignificant_eq (p : PaddedDigits) :
    readSignificant p.points = if longestDecimal < p.points.length
      then .error (.numeralTooLong p.points.length)
      else .ok (some (.whole (valueOf 10 p.points))) := by
  have digits : ∀ c ∈ p.points, isDigitOf 10 c = true := fun c hc => p.isDigitOf_of_mem hc
  obtain ⟨d, hd, notOctal⟩ := p.notOctal
  have some' : p.digits.map Digit.point ≠ [] := by simpa using List.ne_nil_of_mem hd
  have zero : beginsWithZero ⟨p.points⟩ = true :=
    beginsWithZero_of_digits (fun c hc => digits c (List.mem_cons_of_mem _ hc)) some'
  have octal : p.points.all (isDigitOf 8) = false :=
    List.all_eq_false.mpr
      ⟨d.point, List.mem_cons_of_mem _ (List.mem_map_of_mem hd), by simp [notOctal]⟩
  have ascii : p.points.map asciiPoint = p.points :=
    map_asciiPoint_of_plain fun c hc => isPlainPoint_of_isDigitOf (by omega) (digits c hc)
  have all : p.points.takeWhile (isDigitOf 10) = p.points := by
    have ends : ∀ c ∈ ([] : List Nat).head?, isDigitOf 10 c = false := fun c hc => by cases hc
    simpa using (takeWhile_digits digits ends).1
  rw [readSignificant, zero, octal]
  simp only [readPadded, ascii, all]
  by_cases long : longestDecimal < p.points.length
  · rw [if_pos long, if_pos long]
    rfl
  · rw [if_neg long, if_neg long, if_neg (lt_irrefl _)]
    rfl

namespace NumericLiteral

/-- What is read as digits and an exponent denotes the value that these give. -/
theorem exists_denotes {l : NumericLiteral} {digits rest : List Nat} {mark : Nat}
    {whole fraction : List Nat} {e : Option ExponentPart} (noWhole : l.whole? = none)
    (value : l.value = decimalValue whole fraction e) (numeral : l.numeral = digits ++ mark :: rest)
    (hm : IsMark mark) (h : ∀ c ∈ digits, isDigitOf 10 c = true) (point : digits = [] → mark = 0x2E)
    (parts : fractionParts? l.numeral =
      (readExponent? (optional ExponentPart.numeral e)).map fun x => (whole, fraction, x)) :
    ∃ r, readSignificant l.numeral = .ok (some r) ∧ l.Denotes r := by
  have plain := l.plain_numeral
  rw [readExponent?_optional, Option.map_some] at parts
  rw [numeral] at plain parts
  rw [numeral, readSignificant_of_mark hm h point plain, readFraction?_eq, parts]
  refine ⟨_, rfl, ?_⟩
  simp only [Denotes, noWhole]
  exact ⟨_, rfl, value ▸ isNearest_decimalValue whole fraction e⟩

theorem exists_denotes_of_plain {l : NumericLiteral} (p : PlainDigits)
    (whole : l.whole? = some (valueOf 10 p.points))
    (long : l.isLong = decide (longestDecimal < p.points.length)) :
    ∃ r, readSignificant p.points = .ok (some r) ∧ l.Denotes r := by
  refine ⟨_, p.readSignificant_eq, ?_⟩
  simp only [Denotes, whole, long, decide_eq_true_eq]
  by_cases tooLong : longestDecimal < p.points.length
  · rw [if_pos tooLong, if_pos tooLong]
    have nearest := Double.isNearest_ofDecimal (valueOf 10 p.points) 0
    rw [zpow_zero, mul_one] at nearest
    exact ⟨_, rfl, nearest⟩
  · rw [if_neg tooLong, if_neg tooLong]

/-- Every numeric literal is read as its value, whole numbers exactly unless they are too long; only
those with a zero in front that are too long are refused. -/
theorem readNumber_written (l : NumericLiteral) :
    (l.isPadded && l.isLong) = true ∧
        readNumber ⟨l.written⟩ = .error (.numeralTooLong l.numeral.length) ∨
      (l.isPadded && l.isLong) = false ∧
        ∃ r, readNumber ⟨l.written⟩ = .ok (some r) ∧ l.Denotes r := by
  rw [l.readNumber_written_eq]
  cases l with
  | integer w =>
    cases w with
    | plain p => exact .inr ⟨rfl, exists_denotes_of_plain p rfl rfl⟩
    | padded p =>
      have tooLong : (integer (.padded p)).isLong = decide (longestDecimal < p.points.length) := rfl
      rw [tooLong, isPadded, Bool.true_and]
      by_cases long : longestDecimal < p.points.length
      · exact .inl ⟨decide_eq_true long, p.readSignificant_eq.trans (if_pos long)⟩
      · refine .inr ⟨decide_eq_false long, _, p.readSignificant_eq.trans (if_neg long), ?_⟩
        simp only [Denotes, whole?, tooLong, long]
        rfl
  | scaled w e =>
    have digits : ∀ c ∈ w.points, isDigitOf 10 c = true := fun c hc => w.isDigitOf_of_mem hc
    have parts := fractionParts?_whole digits w.points_ne_nil (isTail_exponent (some e))
    exact .inr ⟨rfl, exists_denotes rfl rfl rfl (.inr e.letter_eq) digits
      (fun none => absurd none w.points_ne_nil) parts⟩
  | pointed w f e =>
    have digits : ∀ c ∈ w.points, isDigitOf 10 c = true := fun c hc => w.isDigitOf_of_mem hc
    have behind : ∀ c ∈ optional Digits.points f, isDigitOf 10 c = true := by
      cases f with
      | none => simp [optional]
      | some ds => exact fun c hc => ds.isDigitOf_of_mem hc
    have parts := fractionParts?_pointed digits behind (by simp [w.points_ne_nil])
      (isTail_exponent e)
    exact .inr ⟨rfl,
      exists_denotes rfl rfl (List.append_assoc ..) (.inl rfl) digits (fun _ => rfl) parts⟩
  | fraction f e =>
    have behind : ∀ c ∈ f.points, isDigitOf 10 c = true := fun c hc => f.isDigitOf_of_mem hc
    have front : ∀ c ∈ ([] : List Nat), isDigitOf 10 c = true := by simp
    have parts := fractionParts?_pointed front behind (by simp [f.points_ne_nil])
      (isTail_exponent e)
    have numeral : (fraction f e).numeral =
        [] ++ 0x2E :: (f.points ++ optional ExponentPart.numeral e) := rfl
    exact .inr ⟨rfl, exists_denotes rfl rfl numeral (.inl rfl) front (fun _ => rfl) parts⟩
  | big p => exact .inr ⟨rfl, exists_denotes_of_plain p rfl rfl⟩
  | radix r capital ds b =>
    refine .inr ⟨rfl, _, r.readSignificant_eq capital ds, ?_⟩
    simp [Denotes, whole?, isLong]
  | octal o =>
    refine .inr ⟨rfl, _, o.readSignificant_eq, ?_⟩
    simp [Denotes, whole?, isLong]

/-- A zero and as many eights as a numeral may have digits. -/
def eights : NumericLiteral :=
  .integer (.padded ⟨List.replicate longestDecimal ⟨0x38, rfl⟩, ⟨0x38, rfl⟩,
    List.mem_replicate.mpr ⟨by decide, rfl⟩, rfl⟩)

/-- The zero in front counts as a digit, and makes one too many. -/
theorem eights_refused :
    readNumber ⟨0x30 :: List.replicate longestDecimal 0x38⟩ = .error (.numeralTooLong 4301) := by
  have text : eights.written = 0x30 :: List.replicate longestDecimal 0x38 :=
    congrArg (0x30 :: ·) List.map_replicate
  have same : eights.numeral = eights.written := rfl
  have length : eights.numeral.length = 4301 := by
    rw [same, text, List.length_cons, List.length_replicate]
    rfl
  have long : (eights.isPadded && eights.isLong) = true := by
    have padded : eights.isPadded = true := rfl
    have counted : eights.isLong = decide (longestDecimal < eights.numeral.length) := rfl
    rw [padded, counted, length]
    simp [longestDecimal]
  rcases eights.readNumber_written with ⟨-, refused⟩ | ⟨short, -⟩
  · rwa [text, length] at refused
  · rw [long] at short
    cases short

end NumericLiteral

end FreeNames
