import Mathlib.Data.Nat.Digits.Defs
import Mathlib.Tactic.Ring
import FreeNames.Literal.Number

/-!
# Digits

What a sequence of digits denotes, which code points are digits of the bases 2, 8, 10 and 16, and
what the decimal numerals of numbers consist of.

* `valueOf_eq_ofDigits`: the value of digits is that of positional notation.
* `valueOf_ofNat`: the numeral of a number denotes it, and `head_ofNat`, `getLast_ofNat` and
  `pow_length_ofNat` give its first digit, its last digit and its length.
-/

namespace FreeNames.Literal

variable {base c n : Nat} {xs ys digits : List Nat}

/-- The value of a digit, and zero for what is none. -/
def digitOf (c : Nat) : Nat := (digitValue? c).getD 0

theorem valueOf_eq_ofDigits (base : Nat) (digits : List Nat) :
    valueOf base digits = Nat.ofDigits base (digits.reverse.map digitOf) := by
  rw [Nat.ofDigits_eq_foldr, List.foldr_map, List.foldr_reverse]
  unfold valueOf
  congr 1
  funext n c
  show n * base + digitOf c = digitOf c + base * n
  rw [Nat.mul_comm, Nat.add_comm]

theorem valueOf_nil (base : Nat) : valueOf base [] = 0 := rfl

theorem valueOf_append (base : Nat) (xs ys : List Nat) :
    valueOf base (xs ++ ys) = valueOf base xs * base ^ ys.length + valueOf base ys := by
  simp only [valueOf_eq_ofDigits, List.reverse_append, List.map_append, Nat.ofDigits_append,
    List.length_map, List.length_reverse]
  rw [Nat.mul_comm, Nat.add_comm]

theorem valueOf_cons (base c : Nat) (digits : List Nat) :
    valueOf base (c :: digits) = digitOf c * base ^ digits.length + valueOf base digits := by
  rw [← List.singleton_append, valueOf_append]
  simp [valueOf, digitOf]

theorem valueOf_replicate_zero (base k : Nat) : valueOf base (List.replicate k 0x30) = 0 := by
  induction k with
  | zero => rfl
  | succ k ih =>
    rw [List.replicate_succ, valueOf_cons, ih]
    simp [digitOf, digitValue?]

theorem digitOf_lt (h : isDigitOf base c = true) : digitOf c < base := by
  unfold isDigitOf at h
  unfold digitOf
  cases hv : digitValue? c with
  | none => simp [hv] at h
  | some v => simpa [hv] using h

theorem valueOf_lt_pow (h : ∀ c ∈ digits, isDigitOf base c = true) :
    valueOf base digits < base ^ digits.length := by
  induction digits with
  | nil => simp [valueOf_nil]
  | cons c digits ih =>
    have first : digitOf c < base := digitOf_lt (h c (by simp))
    have rest := ih fun d hd => h d (List.mem_cons_of_mem _ hd)
    rw [valueOf_cons, List.length_cons, Nat.pow_succ]
    have lead : (digitOf c + 1) * base ^ digits.length ≤ base * base ^ digits.length :=
      Nat.mul_le_mul_right _ first
    rw [Nat.succ_mul, Nat.mul_comm base] at lead
    omega

/-! ## The digits of a base -/

/-- A code point is a numeral digit, a small or a large letter, or no digit of any base. -/
theorem digitValue?_cases (c : Nat) :
    (0x30 ≤ c ∧ c ≤ 0x39 ∧ digitValue? c = some (c - 0x30)) ∨
      (0x61 ≤ c ∧ c ≤ 0x7A ∧ digitValue? c = some (c - 0x61 + 10)) ∨
      (0x41 ≤ c ∧ c ≤ 0x5A ∧ digitValue? c = some (c - 0x41 + 10)) ∨
      (digitValue? c = none ∧ ¬(0x30 ≤ c ∧ c ≤ 0x39) ∧ ¬(0x61 ≤ c ∧ c ≤ 0x7A) ∧
        ¬(0x41 ≤ c ∧ c ≤ 0x5A)) := by
  simp only [digitValue?, Bool.and_eq_true, decide_eq_true_eq]
  by_cases numeral : 0x30 ≤ c ∧ c ≤ 0x39
  · exact Or.inl ⟨numeral.1, numeral.2, if_pos numeral⟩
  by_cases small : 0x61 ≤ c ∧ c ≤ 0x7A
  · exact Or.inr (Or.inl ⟨small.1, small.2, by rw [if_neg numeral, if_pos small]⟩)
  by_cases large : 0x41 ≤ c ∧ c ≤ 0x5A
  · exact Or.inr (Or.inr (Or.inl
      ⟨large.1, large.2, by rw [if_neg numeral, if_neg small, if_pos large]⟩))
  · exact Or.inr (Or.inr (Or.inr
      ⟨by rw [if_neg numeral, if_neg small, if_neg large], numeral, small, large⟩))

theorem isDigitOf_iff_of_le_ten (h : base ≤ 10) :
    isDigitOf base c = true ↔ 0x30 ≤ c ∧ c < 0x30 + base := by
  unfold isDigitOf
  rcases digitValue?_cases c with ⟨lo, hi, hv⟩ | ⟨lo, hi, hv⟩ | ⟨lo, hi, hv⟩ | ⟨hv, numeral, -, -⟩
  all_goals
    rw [hv]
    simp only [decide_eq_true_eq, Bool.false_eq_true, false_iff]
    omega

theorem digitOf_of_isDigitOf (le : base ≤ 10) (h : isDigitOf base c = true) :
    digitOf c = c - 0x30 := by
  rw [isDigitOf_iff_of_le_ten le] at h
  unfold digitOf digitValue?
  rw [if_pos (by simp only [Bool.and_eq_true, decide_eq_true_eq]; omega)]
  rfl

/-- Numerals with as many digits denote different numbers. -/
theorem eq_of_valueOf_eq (le : base ≤ 10) (hx : ∀ c ∈ xs, isDigitOf base c = true)
    (hy : ∀ c ∈ ys, isDigitOf base c = true) (length : xs.length = ys.length)
    (same : valueOf base xs = valueOf base ys) : xs = ys := by
  induction xs generalizing ys with
  | nil => exact (List.length_eq_zero_iff.mp length.symm).symm
  | cons c xs ih =>
    obtain ⟨d, ys, rfl⟩ := List.exists_cons_of_length_eq_add_one length.symm
    have length' : xs.length = ys.length := Nat.succ.inj length
    have hx' : ∀ c ∈ xs, isDigitOf base c = true := fun b hb => hx b (List.mem_cons_of_mem _ hb)
    have hy' : ∀ c ∈ ys, isDigitOf base c = true := fun b hb => hy b (List.mem_cons_of_mem _ hb)
    have x_lt := valueOf_lt_pow hx'
    have y_lt := valueOf_lt_pow hy'
    rw [valueOf_cons, valueOf_cons, length'] at same
    rw [length'] at x_lt
    have pos : 0 < base ^ ys.length := by omega
    have lead : ∀ {a v : Nat}, v < base ^ ys.length →
        (a * base ^ ys.length + v) / base ^ ys.length = a := fun {a v} lt => by
      rw [Nat.mul_comm, Nat.mul_add_div pos, Nat.div_eq_of_lt lt, Nat.add_zero]
    have first : digitOf c = digitOf d := by
      rw [← lead (a := digitOf c) x_lt, same, lead y_lt]
    have rest : valueOf base xs = valueOf base ys := by
      rw [first] at same
      exact Nat.add_left_cancel same
    have hc := hx c (List.mem_cons_self ..)
    have hd := hy d (List.mem_cons_self ..)
    rw [digitOf_of_isDigitOf le hc, digitOf_of_isDigitOf le hd] at first
    rw [isDigitOf_iff_of_le_ten le] at hc hd
    rw [ih hx' hy' length' rest, show c = d by omega]

/-- Digits that do not begin with a zero denote a number of their length. -/
theorem pow_le_valueOf (valid : ∀ d ∈ c :: digits, isDigitOf 10 d = true) (first : c ≠ 0x30) :
    10 ^ digits.length ≤ valueOf 10 (c :: digits) := by
  have hc := valid c (List.mem_cons_self ..)
  rw [valueOf_cons, digitOf_of_isDigitOf le_rfl hc]
  rw [isDigitOf_iff_of_le_ten le_rfl] at hc
  have : 1 * 10 ^ digits.length ≤ (c - 0x30) * 10 ^ digits.length :=
    Nat.mul_le_mul_right _ (by omega)
  omega

/-- Digits that do not end with a zero denote no multiple of ten. -/
theorem valueOf_concat_mod_ten (hc : isDigitOf 10 c = true) (last : c ≠ 0x30) :
    valueOf 10 (digits ++ [c]) % 10 ≠ 0 := by
  rw [valueOf_append, valueOf_cons, valueOf_nil, digitOf_of_isDigitOf le_rfl hc]
  rw [isDigitOf_iff_of_le_ten le_rfl] at hc
  simp only [List.length_nil, List.length_singleton, Nat.pow_zero, Nat.pow_one]
  omega

/-! ## Numerals -/

theorem points_ofNat_of_lt (h : n < 10) : (Text.ofNat n).points = [0x30 + n] := by
  have digit : ∀ n < 10, (Nat.digitChar n).toNat = 0x30 + n := by decide
  simp [Text.ofNat, Nat.toDigits_of_lt_base h, digit n h]

/-- A numeral is the numeral of the other digits, and the last digit. -/
theorem points_ofNat_append {d : Nat} (hn : 0 < n) (hd : d < 10) :
    (Text.ofNat (10 * n + d)).points = (Text.ofNat n).points ++ [0x30 + d] := by
  rw [← points_ofNat_of_lt hd]
  simp only [Text.ofNat, ← Nat.toDigits_append_toDigits (by omega : 1 < 10) hn hd, List.map_append]

/-- Induction on the digits of a number. -/
@[elab_as_elim]
theorem digit_induction {motive : Nat → Prop} (small : ∀ n, n < 10 → motive n)
    (append : ∀ n d, 0 < n → d < 10 → motive n → motive (10 * n + d)) (n : Nat) : motive n := by
  induction n using Nat.strongRecOn with
  | ind n ih =>
    rcases Nat.lt_or_ge n 10 with h | h
    · exact small n h
    · have := append (n / 10) (n % 10) (by omega) (by omega) (ih _ (by omega))
      rwa [Nat.div_add_mod] at this

theorem isDigitOf_add {d : Nat} (hd : d < 10) : isDigitOf 10 (0x30 + d) = true := by
  rw [isDigitOf_iff_of_le_ten (by omega)]
  omega

theorem isDigitOf_of_mem_ofNat (n : Nat) : ∀ c ∈ (Text.ofNat n).points, isDigitOf 10 c = true := by
  induction n using digit_induction with
  | small n h =>
    intro c hc
    rw [points_ofNat_of_lt h, List.mem_singleton] at hc
    exact hc ▸ isDigitOf_add h
  | append n d hn hd ih =>
    intro c hc
    rw [points_ofNat_append hn hd] at hc
    rcases List.mem_append.mp hc with hc | hc
    · exact ih c hc
    · rw [List.mem_singleton.mp hc]
      exact isDigitOf_add hd

/-- The numeral of a number denotes it. -/
theorem valueOf_ofNat (n : Nat) : valueOf 10 (Text.ofNat n).points = n := by
  have digit : ∀ {d : Nat}, d < 10 → valueOf 10 [0x30 + d] = d := fun {d} hd => by
    rw [valueOf_cons, digitOf_of_isDigitOf (by omega) (isDigitOf_add hd), valueOf_nil]
    simp
  induction n using digit_induction with
  | small n h => rw [points_ofNat_of_lt h, digit h]
  | append n d hn hd ih =>
    rw [points_ofNat_append hn hd, valueOf_append, ih, digit hd, List.length_singleton]
    omega

theorem points_ofNat_ne_nil (n : Nat) : (Text.ofNat n).points ≠ [] := by
  simp [Text.ofNat]

/-- Only the numeral of zero begins with a zero. -/
theorem head_ofNat (hn : 0 < n) : (Text.ofNat n).points.head? ≠ some 0x30 := by
  induction n using digit_induction with
  | small n h =>
    rw [points_ofNat_of_lt h]
    simp
    omega
  | append n d hn' hd ih =>
    obtain ⟨c, cs, same⟩ := List.exists_cons_of_ne_nil (points_ofNat_ne_nil n)
    have first := ih hn'
    rw [same] at first
    rw [points_ofNat_append hn' hd, same]
    exact first

theorem getLast_ofNat (n : Nat) : (Text.ofNat n).points.getLast? = some (0x30 + n % 10) := by
  induction n using digit_induction with
  | small n h => rw [points_ofNat_of_lt h, List.getLast?_singleton, Nat.mod_eq_of_lt h]
  | append n d hn hd _ =>
    rw [points_ofNat_append hn hd, List.getLast?_concat]
    congr 2
    omega

/-- A number has as many digits as powers of ten stand up to it. -/
theorem pow_length_ofNat (hn : 0 < n) :
    10 ^ ((Text.ofNat n).points.length - 1) ≤ n ∧ n < 10 ^ (Text.ofNat n).points.length := by
  have valid := isDigitOf_of_mem_ofNat n
  have value := valueOf_ofNat n
  have first := head_ofNat hn
  constructor
  · obtain ⟨c, cs, same⟩ := List.exists_cons_of_ne_nil (points_ofNat_ne_nil n)
    rw [same] at valid value first ⊢
    have lead : c ≠ 0x30 := fun zero => first (congrArg some zero)
    exact (pow_le_valueOf valid lead).trans value.le
  · conv_lhs => rw [← value]
    exact valueOf_lt_pow valid

/-- Multiplying by a power of ten puts zeros behind the digits. -/
theorem points_ofNat_mul_pow (hn : 0 < n) (k : Nat) :
    (Text.ofNat (n * 10 ^ k)).points = (Text.ofNat n).points ++ List.replicate k 0x30 := by
  induction k with
  | zero => simp
  | succ k ih =>
    have pos : 0 < n * 10 ^ k := Nat.mul_pos hn (Nat.pow_pos (by omega))
    have next : n * 10 ^ (k + 1) = 10 * (n * 10 ^ k) + 0 := by
      rw [Nat.pow_succ]
      ring
    rw [next, points_ofNat_append pos (by omega), ih, List.replicate_succ', List.append_assoc]

end FreeNames.Literal
