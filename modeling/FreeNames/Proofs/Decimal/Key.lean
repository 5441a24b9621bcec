import FreeNames.Proofs.Decimal.Layout
import FreeNames.Proofs.Decimal.Shortest

/-!
# Keys of numbers

`Decimal.IsPrinted` is what the shortest digits of a positive double are, without a search: they
round to it, no fewer digits do, and no others of their number are nearer.  A positive double has
one such decimal, the search finds it, and the key of the double is one of the four layouts of it.

* `Decimal.IsPrinted.unique` and `Decimal.isPrinted_shortest`.
* `Decimal.keyOfDouble_eq`: the key of a finite double is the layout of its decimal, with a sign.
* `Decimal.keyOfInt_eq_ofInt`: up to two to the power of 53, whole numbers are their own keys.
* `Decimal.numberKey_laidOut`: all of this for the keys of numbers.
-/

namespace FreeNames.Double

/-- The double without its sign. -/
def abs (d : Double) : Double := word false d.magnitude

variable {m : Nat} {d : Double} {x v : ℚ}

theorem magnitude_abs (d : Double) : d.abs.magnitude = d.magnitude :=
  magnitude_word d.magnitude_lt

theorem isNearest_abs_iff (h : 0 ≤ x) : IsNearest x d.abs ↔ RoundsTo d.magnitude x := by
  have sign : d.abs.negative = decide (x < 0) := by
    rw [abs, negative_word d.magnitude_lt, decide_eq_false (not_lt.mpr h)]
  rw [isNearest_iff, magnitude_abs, abs_of_nonneg h]
  exact and_iff_right sign

/-- A finite double has a finite magnitude. -/
theorem magnitude_of_value? (h : d.value? = some v) :
    d.magnitude < finiteCount ∧ (if d.negative then -1 else 1) * ladder d.magnitude = v := by
  rw [value?_eq] at h
  split at h
  · next finite => exact ⟨finite, Option.some.inj h⟩
  · cases h

theorem ladder_magnitude (h : d.value? = some v) : ladder d.magnitude = |v| := by
  obtain ⟨-, rfl⟩ := magnitude_of_value? h
  exact (abs_signed ..).symm

/-- Away from zero, the sign of a double is that of its number. -/
theorem negative_of_value? (h : d.value? = some v) (positive : 0 < d.magnitude) :
    d.negative = decide (v < 0) := by
  obtain ⟨-, rfl⟩ := magnitude_of_value? h
  have pos : 0 < ladder d.magnitude := ladder_zero ▸ ladder_strictMono positive
  cases d.negative
  · simpa using pos.le
  · simpa using pos

theorem value?_abs (finite : d.magnitude < finiteCount) :
    d.abs.value? = some (ladder d.magnitude) := by
  rw [value?_eq, magnitude_abs, if_pos finite, abs, negative_word d.magnitude_lt]
  simp

/-- The whole numbers up to two to the power of 53 are numbers of magnitudes. -/
theorem exists_ladder_natCast {a : Nat} (ha : a ≤ 2 * fractionCount) :
    ∃ m, m < finiteCount ∧ ladder m = a := by
  rcases Nat.eq_zero_or_pos a with rfl | pos
  · exact ⟨0, by unfold finiteCount fractionCount; omega, by simp⟩
  by_cases large : fractionCount ≤ a
  · refine ⟨block 0 a, by unfold block finiteCount fractionCount at *; omega, ?_⟩
    rw [ladder_block (by omega) ha (.inr large), zpow_zero, mul_one]
  · -- shifted until the first bit stands at the place of a normal significand
    have low := Nat.log2_self_le pos.ne'
    have high : a < 2 ^ (a.log2 + 1) := Nat.lt_log2_self
    have few : a.log2 < 52 := by
      by_contra many
      have : 2 ^ 52 ≤ 2 ^ a.log2 := Nat.pow_le_pow_right (by omega) (by omega)
      exact large (le_trans (by unfold fractionCount; omega) (this.trans low))
    obtain ⟨k, hk⟩ : ∃ k, a.log2 + k = 52 := ⟨52 - a.log2, by omega⟩
    have normal : fractionCount ≤ a * 2 ^ k := by
      have := Nat.mul_le_mul_right (2 ^ k) low
      rw [← Nat.pow_add, hk] at this
      exact le_trans (by unfold fractionCount; omega) this
    have bound : a * 2 ^ k ≤ 2 * fractionCount := by
      have := Nat.mul_le_mul_right (2 ^ k) high.le
      rw [← Nat.pow_add, show a.log2 + 1 + k = 53 by omega] at this
      exact this.trans (by unfold fractionCount; omega)
    refine ⟨block (-k) (a * 2 ^ k), ?_, ?_⟩
    · generalize a * 2 ^ k = s at *
      unfold block finiteCount fractionCount at *
      omega
    · rw [ladder_block (by omega) bound (.inr normal), Nat.cast_mul, Nat.cast_pow, Nat.cast_ofNat,
        zpow_neg, zpow_natCast, mul_assoc, mul_inv_cancel₀ (by positivity), mul_one]

end FreeNames.Double

namespace FreeNames.Decimal

open Literal Double

/-! ## Shortest digits -/

/-- The digits of a positive double, and the place of its point: they round to it, no decimal with
fewer digits does, and none with as many is nearer, or as near if the last digit is odd. -/
structure IsPrinted (d : Double) (digits : List Nat) (place : Int) : Prop where
  valid : ∀ c ∈ digits, isDigitOf 10 c = true
  first : digits.head? ≠ some 0x30
  last : digits.getLast? ≠ some 0x30
  reads : IsNearest (placed digits place) d
  shortest : ∀ (k j : Nat) (e : Int), k < digits.length → j < 10 ^ k →
    ¬ IsNearest (j * 10 ^ e) d
  closest : ∀ v, d.value? = some v → ∀ (j : Nat) (e : Int), j < 10 ^ digits.length →
    IsNearest (j * 10 ^ e) d → |v - placed digits place| ≤ |v - j * 10 ^ e| ∧
      (|v - placed digits place| = |v - j * 10 ^ e| →
        j * 10 ^ e = placed digits place ∨ valueOf 10 digits % 2 = 0)

variable {m : Nat} {d : Double} {digits other : List Nat} {place point : Int} {v : ℚ}

theorem placed_nonneg (digits : List Nat) (place : Int) : 0 ≤ placed digits place := by
  unfold placed
  positivity

/-- Digits behind a point stand below the power of ten of its place. -/
theorem placed_lt (valid : ∀ c ∈ digits, isDigitOf 10 c = true) (place : Int) :
    placed digits place < 10 ^ place := by
  have lt : (valueOf 10 digits : ℚ) < 10 ^ (digits.length : Int) := by
    exact_mod_cast valueOf_lt_pow valid
  calc placed digits place < 10 ^ (digits.length : Int) * 10 ^ (place - digits.length) :=
        mul_lt_mul_of_pos_right lt (by positivity)
    _ = 10 ^ place := by
      rw [← zpow_add₀ (by norm_num)]
      congr 1
      omega

/-- The numeral of a number, with its point at the end. -/
theorem placed_ofNat (n : Nat) (e : Int) :
    placed (Text.ofNat n).points (e + (Text.ofNat n).points.length) = n * 10 ^ e := by
  rw [placed, valueOf_ofNat, add_sub_cancel_right]

namespace IsPrinted

theorem ne_nil (positive : 0 < d.magnitude) (h : IsPrinted d.abs digits place) : digits ≠ [] := by
  rintro rfl
  have reads := (isNearest_abs_iff (placed_nonneg _ _)).mp h.reads
  rw [placed, valueOf_nil, Nat.cast_zero, zero_mul] at reads
  exact absurd (reads.unique roundsTo_zero) (by omega)

theorem pow_le (h : IsPrinted d digits place) (some' : digits ≠ []) :
    10 ^ (digits.length - 1) ≤ valueOf 10 digits := by
  obtain ⟨c, cs, rfl⟩ := List.exists_cons_of_ne_nil some'
  exact pow_le_valueOf h.valid fun zero => h.first (congrArg some zero)

theorem mod_ten (h : IsPrinted d digits place) (some' : digits ≠ []) :
    valueOf 10 digits % 10 ≠ 0 := by
  obtain rfl | ⟨cs, c, rfl⟩ := List.eq_nil_or_concat' digits
  · exact absurd rfl some'
  refine valueOf_concat_mod_ten (h.valid c (by simp)) fun zero => h.last ?_
  rw [List.getLast?_concat, zero]

/-- Two shortest decimals have as many digits. -/
theorem length_eq (h : IsPrinted d digits place) (h' : IsPrinted d other point) :
    digits.length = other.length := by
  have key : ∀ {xs ys : List Nat} {p q : Int}, IsPrinted d xs p → IsPrinted d ys q →
      ¬ xs.length < ys.length := fun {xs ys p q} hx hy lt =>
    hy.shortest _ _ _ lt (valueOf_lt_pow hx.valid) hx.reads
  have left := key h h'
  have right := key h' h
  omega

/-- Two shortest decimals are equally near to the double, so that it stands between them, and both
are even, if they are not the same number. -/
theorem same_or_between (finite : d.magnitude < finiteCount) (h : IsPrinted d.abs digits place)
    (h' : IsPrinted d.abs other point) : placed digits place = placed other point ∨
      2 * ladder d.magnitude = placed digits place + placed other point ∧
        valueOf 10 digits % 2 = 0 ∧ valueOf 10 other % 2 = 0 := by
  have value := value?_abs finite
  have length := h.length_eq h'
  obtain ⟨near, tie⟩ := h.closest _ value _ _ (length ▸ valueOf_lt_pow h'.valid) h'.reads
  obtain ⟨near', tie'⟩ := h'.closest _ value _ _ (length ▸ valueOf_lt_pow h.valid) h.reads
  have same := le_antisymm near near'
  rcases tie same with equal | even
  · exact .inl equal.symm
  rcases tie' same.symm with equal | even'
  · exact .inl equal
  rcases abs_eq_abs.mp same with centre | centre
  · exact .inl (sub_right_injective centre)
  · exact .inr ⟨by unfold placed at *; linarith, even, even'⟩

/-- With one place of the point, the middle of two even decimals would be nearer. -/
theorem placed_eq_of_place_eq (finite : d.magnitude < finiteCount)
    (h : IsPrinted d.abs digits place) (h' : IsPrinted d.abs other place) :
    placed digits place = placed other place := by
  rcases h.same_or_between finite h' with same | ⟨centre, even, even'⟩
  · exact same
  obtain ⟨c, hc⟩ : ∃ c, 2 * c = valueOf 10 digits + valueOf 10 other :=
    ⟨(valueOf 10 digits + valueOf 10 other) / 2, by omega⟩
  have length := h.length_eq h'
  have middle : ladder d.magnitude = c * 10 ^ (place - digits.length) := by
    have : (2 * c : ℚ) = valueOf 10 digits + valueOf 10 other := by exact_mod_cast hc
    unfold placed at centre
    rw [← length] at centre
    rw [← mul_right_inj' (two_ne_zero (α := ℚ)), centre, ← mul_assoc, this]
    ring
  have few : c < 10 ^ digits.length := by
    have lt := valueOf_lt_pow h.valid
    have lt' := valueOf_lt_pow h'.valid
    rw [← length] at lt'
    omega
  have reads : IsNearest (c * 10 ^ (place - digits.length)) d.abs := by
    rw [isNearest_abs_iff (by positivity), ← middle]
    exact roundsTo_ladder finite.le
  obtain ⟨near, -⟩ := h.closest _ (value?_abs finite) _ _ few reads
  rw [← middle, sub_self, abs_zero, abs_nonpos_iff, sub_eq_zero] at near
  linarith

/-- With different places of the point, a power of ten would be nearer. -/
theorem placed_eq_of_place_lt (positive : 0 < d.magnitude) (finite : d.magnitude < finiteCount)
    (h : IsPrinted d.abs digits place) (h' : IsPrinted d.abs other point) (lt : place < point) :
    placed digits place = placed other point := by
  rcases h.same_or_between finite h' with same | ⟨centre, even, even'⟩
  · exact same
  exfalso
  have length := h.length_eq h'
  have some' := h'.ne_nil positive
  have pos := List.length_pos_iff.mpr some'
  have below : placed digits place < 10 ^ (point - 1) :=
    (placed_lt h.valid place).trans_le (zpow_le_zpow_right₀ (by norm_num) (by omega))
  have above : (10 : ℚ) ^ (point - 1) ≤ placed other point := by
    have le : (10 : ℚ) ^ ((other.length - 1 : Nat) : Int) ≤ valueOf 10 other := by
      exact_mod_cast h'.pow_le some'
    calc (10 : ℚ) ^ (point - 1) = 10 ^ ((other.length - 1 : Nat) : Int) *
          10 ^ (point - other.length) := by
          rw [← zpow_add₀ (by norm_num)]
          congr 1
          omega
      _ ≤ placed other point := mul_le_mul_of_nonneg_right le (by positivity)
  have reads : IsNearest ((1 : Nat) * 10 ^ (point - 1)) d.abs := by
    rw [Nat.cast_one, one_mul, isNearest_abs_iff (by positivity)]
    have low := (isNearest_abs_iff (placed_nonneg _ _)).mp h.reads
    have high := (isNearest_abs_iff (placed_nonneg _ _)).mp h'.reads
    exact low.between high below.le above
  have single : other.length = 1 := by
    by_contra longer
    exact h'.shortest 1 1 _ (by omega) (by omega) reads
  obtain ⟨near, -⟩ := h'.closest _ (value?_abs finite) _ _ (by simp [single]) reads
  rw [Nat.cast_one, one_mul, abs_of_neg (by linarith)] at near
  have same : placed other point = 10 ^ (point - 1) := by
    rcases abs_cases (ladder d.magnitude - 10 ^ (point - 1)) with ⟨this, -⟩ | ⟨this, -⟩ <;>
      rw [this] at near <;> linarith
  rw [placed, single, Nat.cast_one, mul_eq_right₀ (by positivity)] at same
  have : valueOf 10 other = 1 := by exact_mod_cast same
  omega

theorem placed_eq (positive : 0 < d.magnitude) (finite : d.magnitude < finiteCount)
    (h : IsPrinted d.abs digits place) (h' : IsPrinted d.abs other point) :
    placed digits place = placed other point := by
  rcases lt_trichotomy place point with lt | rfl | lt
  · exact h.placed_eq_of_place_lt positive finite h' lt
  · exact h.placed_eq_of_place_eq finite h'
  · exact (h'.placed_eq_of_place_lt positive finite h lt).symm

/-- A positive double has one shortest decimal. -/
theorem unique (positive : 0 < d.magnitude) (finite : d.magnitude < finiteCount)
    (h : IsPrinted d.abs digits place) (h' : IsPrinted d.abs other point) :
    digits = other ∧ place = point := by
  have length := h.length_eq h'
  have same := h.placed_eq positive finite h'
  -- a number whose point is further to the right is a multiple of ten
  have key : ∀ {xs ys : List Nat} {p q : Int}, IsPrinted d.abs xs p → IsPrinted d.abs ys q →
      xs.length = ys.length → placed xs p = placed ys q → ¬ p < q := by
    intro xs ys p q hx hy length same lt
    obtain ⟨k, hk⟩ : ∃ k : Nat, q = p + (k + 1 : Nat) := ⟨(q - p - 1).toNat, by omega⟩
    have shift : q - ys.length = (k + 1 : Nat) + (p - xs.length) := by omega
    rw [placed, placed, shift, zpow_add₀ (by norm_num), zpow_natCast, ← mul_assoc,
      mul_left_inj' (by positivity)] at same
    have multiple : valueOf 10 xs = valueOf 10 ys * 10 ^ (k + 1) := by exact_mod_cast same
    refine hx.mod_ten (hx.ne_nil positive) ?_
    rw [multiple, Nat.pow_succ, ← Nat.mul_assoc, Nat.mul_mod_left]
  have left := key h h' length same
  have right := key h' h length.symm same.symm
  obtain rfl : place = point := by omega
  rw [placed, placed, length, mul_left_inj' (by positivity)] at same
  exact ⟨eq_of_valueOf_eq le_rfl h.valid h'.valid length (by exact_mod_cast same), rfl⟩

end IsPrinted

/-- The search finds the shortest decimal of a positive double. -/
theorem isPrinted_shortest (positive : 0 < d.magnitude) (finite : d.magnitude < finiteCount)
    {r : Scaled} (found : IsShortest d.magnitude r) : IsPrinted d.abs (Text.ofNat r.digits).points
      (r.exponent + (Text.ofNat r.digits).points.length) := by
  have pos := found.pos positive
  obtain ⟨low, -⟩ := pow_length_ofNat pos
  have some' := List.length_pos_iff.mpr (points_ofNat_ne_nil r.digits)
  have rounds_of : ∀ {j : Nat} {e : Int}, IsNearest (j * 10 ^ e) d.abs →
      RoundsTo d.magnitude (j * 10 ^ e) := fun h => (isNearest_abs_iff (by positivity)).mp h
  refine ⟨isDigitOf_of_mem_ofNat _, head_ofNat pos, ?_, ?_, fun k j e lt few reads => ?_,
    fun v value j e few reads => ?_⟩
  · rw [getLast_ofNat]
    have := found.mod_ten
    simp
    omega
  · rw [isNearest_abs_iff (placed_nonneg _ _), placed_ofNat]
    exact found.rounds
  · have shorter := few.trans_le (Nat.pow_le_pow_right (show 0 < 10 by omega)
      (show k ≤ (Text.ofNat r.digits).points.length - 1 by omega))
    exact found.not_roundsTo_of_shorter positive low shorter e (rounds_of reads)
  · rw [value?_abs finite, Option.some.injEq] at value
    rw [placed_ofNat, valueOf_ofNat, ← value]
    exact found.closest positive finite low (by rwa [Nat.sub_add_cancel some']) (rounds_of reads)

/-! ## Keys -/

theorem keyOfDouble_of_eq_zero (zero : d.magnitude = 0) : keyOfDouble d = "0" := by
  have small : (0 : Nat) < finiteCount := by
    unfold finiteCount fractionCount
    omega
  rw [keyOfDouble, view_eq, zero, if_pos small]
  rfl

/-- A text that begins with a minus is no numeral. -/
theorem numeralValue?_minus (text : List Nat) : numeralValue? (0x2D :: text) = none := by
  have none' : isDigitOf 10 0x2D = false := by decide
  simp [numeralValue?, fractionParts?, none']

/-- The layout of a decimal. -/
def Scaled.text (r : Scaled) : List Nat :=
  layOut (Text.ofNat r.digits).points (r.exponent + (Text.ofNat r.digits).points.length)

theorem keyOfDouble_of_pos (positive : 0 < d.magnitude) (finite : d.magnitude < finiteCount)
    {r : Scaled} (found : r = shortest (significandAt d.magnitude) (powerAt d.magnitude)) :
    keyOfDouble d = ⟨if d.negative then 0x2D :: r.text else r.text⟩ := by
  have nonzero : significandAt d.magnitude ≠ 0 := by
    unfold significandAt fractionCount
    split <;> omega
  rw [keyOfDouble, view_eq, if_pos finite, found]
  simp only [if_neg nonzero]
  rfl

/-- The key of a finite double but zero is the layout of its digits, behind a minus if it is
negative. -/
theorem keyOfDouble_eq (value : d.value? = some v) (positive : 0 < d.magnitude) :
    ∃ digits place body, IsPrinted d.abs digits place ∧ IsLaidOut digits place body ∧
      keyOfDouble d = ⟨if v < 0 then 0x2D :: body else body⟩ := by
  have finite := (magnitude_of_value? value).1
  refine ⟨_, _, _, isPrinted_shortest positive finite (isShortest_shortest positive finite),
    isLaidOut_layOut (points_ofNat_ne_nil _) _, ?_⟩
  rw [keyOfDouble_of_pos positive finite rfl, negative_of_value? value positive]
  congr 1
  exact if_congr decide_eq_true_iff rfl rfl

/-- What the key of a double denotes rounds to it. -/
theorem keyOfDouble_reads (value : d.value? = some v) : ∃ body x,
    keyOfDouble d = ⟨if v < 0 then 0x2D :: body else body⟩ ∧
      numeralValue? body = some x ∧ RoundsTo d.magnitude x := by
  rcases Nat.eq_zero_or_pos d.magnitude with zero | positive
  · obtain ⟨-, rfl⟩ := magnitude_of_value? value
    have laid : IsLaidOut [0x30] 1 [0x30] := .padded (by simp) (by omega)
    have nothing : numeralValue? [0x30] = some 0 := by
      rw [laid.numeralValue?_eq (by decide) (by simp), placed, show valueOf 10 [0x30] = 0 from rfl,
        Nat.cast_zero, zero_mul]
    refine ⟨[0x30], 0, ?_, nothing, by rw [zero]; exact roundsTo_zero⟩
    rw [keyOfDouble_of_eq_zero zero, zero, ladder_zero, mul_zero, if_neg (lt_irrefl _)]
    rfl
  · obtain ⟨digits, place, body, printed, laid, key⟩ := keyOfDouble_eq value positive
    exact ⟨body, _, key, laid.numeralValue?_eq printed.valid (printed.ne_nil positive),
      (isNearest_abs_iff (placed_nonneg _ _)).mp printed.reads⟩

/-- Numerals behind a minus, or without one, are equal only if their signs and they are. -/
theorem signed_inj {body body' : List Nat} {w x x' : ℚ} (reads : numeralValue? body = some x)
    (reads' : numeralValue? body' = some x')
    (same : (if v < 0 then 0x2D :: body else body) = if w < 0 then 0x2D :: body' else body') :
    (v < 0 ↔ w < 0) ∧ body = body' := by
  by_cases hv : v < 0 <;> by_cases hw : w < 0 <;> simp only [hv, hw, if_true, if_false] at same
  · exact ⟨iff_of_true hv hw, (List.cons.inj same).2⟩
  · rw [← same, numeralValue?_minus] at reads'
    cases reads'
  · rw [same, numeralValue?_minus] at reads
    cases reads
  · exact ⟨iff_of_false hv hw, same⟩

/-- Doubles with one number have one key, as zeros of both signs do. -/
theorem keyOfDouble_congr {e : Double} (hd : d.value? = some v) (he : e.value? = some v) :
    keyOfDouble d = keyOfDouble e := by
  have same : d.magnitude = e.magnitude := ladder_strictMono.injective
    ((ladder_magnitude hd).trans (ladder_magnitude he).symm)
  rcases Nat.eq_zero_or_pos d.magnitude with zero | positive
  · rw [keyOfDouble_of_eq_zero zero, keyOfDouble_of_eq_zero (same ▸ zero)]
  · have sign := negative_of_value? hd positive
    have sign' := negative_of_value? he (same ▸ positive)
    rw [ext_magnitude (sign.trans sign'.symm) same]

/-- Two finite doubles have one key just if they are equal. -/
theorem keyOfDouble_inj {e : Double} {w : ℚ} (hd : d.value? = some v) (he : e.value? = some w) :
    keyOfDouble d = keyOfDouble e ↔ v = w := by
  constructor
  · intro same
    obtain ⟨body, x, key, reads, rounds⟩ := keyOfDouble_reads hd
    obtain ⟨body', x', key', reads', rounds'⟩ := keyOfDouble_reads he
    rw [key, key', Text.mk.injEq] at same
    obtain ⟨negative, rfl⟩ := signed_inj reads reads' same
    rw [reads', Option.some.injEq] at reads
    rw [← reads] at rounds
    have size : |v| = |w| := by
      rw [← ladder_magnitude hd, ← ladder_magnitude he, rounds.unique rounds']
    rcases abs_eq_abs.mp size with equal | opposite
    · exact equal
    · by_cases hv : v < 0
      · linarith [negative.mp hv]
      · linarith [mt negative.mpr hv]
  · rintro rfl
    exact keyOfDouble_congr hd he

/-- A whole number that rounds to a finite magnitude has the key of its double. -/
theorem keyOfInt_eq {z : Int} (rounds : RoundsTo m z.natAbs) (finite : m < finiteCount) :
    keyOfInt z = keyOfDouble (word (decide (z < 0)) m) := by
  obtain ⟨m', same, rounds'⟩ := exists_ofRatio (decide (z < 0)) z.natAbs one_ne_zero
  rw [Nat.cast_one, div_one] at rounds'
  obtain rfl := rounds'.unique rounds
  have lt := finite.trans finiteCount_lt
  have view : (word (decide (z < 0)) m').view = .finite (decide (z < 0)) (significandAt m')
      (powerAt m') := by
    rw [view_eq, magnitude_word lt, negative_word lt, if_pos finite]
  have unfolded : Double.ofInt? z = some (word (decide (z < 0)) m') := by
    simp only [Double.ofInt?, same, view]
  rw [keyOfInt, unfolded]

/-- Two to the power of 53 is two below the number that comes next. -/
theorem middle_of_ladder_eq (same : ladder m = (2 * fractionCount : Nat)) :
    middle m = (2 * fractionCount + 1 : Nat) := by
  have at' : m = block 0 (2 * fractionCount) := ladder_strictMono.injective <| by
    rw [same, ladder_block (by omega) le_rfl (.inr (by omega)), zpow_zero, mul_one]
  have power : powerAt m = 1 := by
    rw [at']
    unfold powerAt block fractionCount
    omega
  rw [middle_eq, same, power]
  push_cast
  norm_num

/-- Up to two to the power of 53, a whole number that rounds to another is the same; only the next
one rounds to the last. -/
theorem eq_or_next_of_roundsTo {a n : Nat} (ha : a ≤ 2 * fractionCount) (same : ladder m = a)
    (finite : m < finiteCount) (rounds : RoundsTo m n) :
    n = a ∨ a = 2 * fractionCount ∧ n = 2 * fractionCount + 1 := by
  by_cases small : n ≤ 2 * fractionCount
  · obtain ⟨m', finite', same'⟩ := exists_ladder_natCast small
    rw [← same'] at rounds
    rw [rounds.unique (roundsTo_ladder finite'.le), same'] at same
    exact .inl (by exact_mod_cast same)
  · have last : a = 2 * fractionCount := by
      obtain ⟨m', finite', same'⟩ := exists_ladder_natCast (le_refl (2 * fractionCount))
      have low : ladder m ≤ ladder m' := by
        rw [same, same']
        exact_mod_cast ha
      have high : ladder m' ≤ n := by
        rw [same']
        exact_mod_cast (not_le.mp small).le
      have between := (roundsTo_ladder finite.le).between rounds low high
      rw [← (roundsTo_ladder finite'.le).unique between, same'] at same
      exact_mod_cast same.symm
    have le := (rounds.below finite).le
    rw [middle_of_ladder_eq (last ▸ same)] at le
    have : n ≤ 2 * fractionCount + 1 := by exact_mod_cast le
    exact .inr ⟨last, by omega⟩

/-- Up to two to the power of 53, the shortest decimal of a whole number is the number without the
zeros at its end. -/
theorem IsShortest.eq_whole {r : Scaled} (found : IsShortest m r) {a : Nat}
    (ha : a ≤ 2 * fractionCount) (same : ladder m = a) (finite : m < finiteCount) :
    ∃ k : Nat, r.exponent = k ∧ r.digits * 10 ^ k = a := by
  have own : RoundsTo m (a * 10 ^ (0 : Int)) := by
    rw [zpow_zero, mul_one, ← same]
    exact roundsTo_ladder finite.le
  have nonneg : 0 ≤ r.exponent := by
    by_contra negative
    exact found.coarsest a 0 (by omega) own
  obtain ⟨k, hk⟩ := Int.eq_ofNat_of_zero_le nonneg
  have cast : (r.digits : ℚ) * 10 ^ r.exponent = (r.digits * 10 ^ k : Nat) := by
    rw [hk, zpow_natCast]
    push_cast
    rfl
  have rounds := found.rounds
  rw [cast] at rounds
  refine ⟨k, hk, (eq_or_next_of_roundsTo ha same finite rounds).resolve_right ?_⟩
  rintro ⟨last, next⟩
  -- the next whole number is no multiple of ten, and the last is nearer to itself
  cases k with
  | zero =>
    rw [Nat.cast_zero] at hk
    rw [← hk] at own
    have near := (found.nearest a own).1
    rw [cast, next, hk, zpow_zero, mul_one, same, last, sub_self, abs_zero, abs_nonpos_iff,
      sub_eq_zero] at near
    have : 2 * fractionCount = 2 * fractionCount + 1 := by exact_mod_cast near
    omega
  | succ k =>
    rw [Nat.pow_succ, ← Nat.mul_assoc] at next
    unfold fractionCount at next
    omega

/-- The layout of a whole number with 21 digits at most is its numeral. -/
theorem Scaled.text_whole {r : Scaled} {k : Nat} (hk : r.exponent = k) (positive : 0 < r.digits)
    (few : (Text.ofNat r.digits).points.length + k ≤ 21) :
    r.text = (Text.ofNat (r.digits * 10 ^ k)).points := by
  have place : r.exponent + (Text.ofNat r.digits).points.length =
      ((Text.ofNat r.digits).points.length + k : Nat) := by omega
  rw [Scaled.text, place, layOut, if_pos (by simp [longestWhole]; omega), Int.toNat_natCast,
    Nat.add_sub_cancel_left, points_ofNat_mul_pow positive]

/-- Up to two to the power of 53, a whole number is its own key. -/
theorem keyOfInt_eq_ofInt {z : Int} (h : z.natAbs ≤ 2 * fractionCount) :
    keyOfInt z = Text.ofInt z := by
  obtain ⟨m, finite, same⟩ := exists_ladder_natCast h
  have lt := finite.trans finiteCount_lt
  rw [keyOfInt_eq (same ▸ roundsTo_ladder finite.le) finite]
  rcases Nat.eq_zero_or_pos m with rfl | positive
  · rw [ladder_zero] at same
    obtain rfl : z = 0 := Int.natAbs_eq_zero.mp (by exact_mod_cast same.symm)
    exact keyOfDouble_of_eq_zero (magnitude_word lt)
  · have found := isShortest_shortest positive finite
    obtain ⟨r, hr⟩ : ∃ r, r = shortest (significandAt m) (powerAt m) := ⟨_, rfl⟩
    rw [← hr] at found
    obtain ⟨k, hk, whole⟩ := found.eq_whole h same finite
    have pos := found.pos positive
    have few : (Text.ofNat r.digits).points.length + k ≤ 21 := by
      have low := Nat.mul_le_mul_right (10 ^ k) (pow_length_ofNat pos).1
      rw [← Nat.pow_add, whole] at low
      have : 10 ^ ((Text.ofNat r.digits).points.length - 1 + k) < 10 ^ 16 :=
        (low.trans h).trans_lt (by unfold fractionCount; omega)
      have := (Nat.pow_lt_pow_iff_right (by omega)).mp this
      omega
    have magnitude : (word (decide (z < 0)) m).magnitude = m := magnitude_word lt
    rw [← magnitude] at hr positive finite
    rw [keyOfDouble_of_pos positive finite hr, negative_word lt, r.text_whole hk pos few, whole]
    cases z with
    | ofNat n => rfl
    | negSucc n =>
      rw [decide_eq_true (Int.negSucc_lt_zero n), if_pos rfl]
      rfl

/-- The keys of numbers.  A finite double but zero has one shortest decimal, and its key is a layout
of this, which denotes it, behind a minus if the double is negative.  Two finite doubles have one
key just if they are equal, and both zeros have the key `0`.  Whole numbers up to two to the power
of 53 have their numerals as keys. -/
theorem numberKey_laidOut :
    (∀ (d : Double) (v : ℚ), d.value? = some v → v ≠ 0 → ∃ digits place body,
      (∀ digits' place', IsPrinted d.abs digits' place' ↔ digits' = digits ∧ place' = place) ∧
        IsLaidOut digits place body ∧ numeralValue? body = some (placed digits place) ∧
        numberKey false (.real d) = .ok ⟨if v < 0 then 0x2D :: body else body⟩) ∧
    (∀ (d e : Double) (v w : ℚ), d.value? = some v → e.value? = some w →
      (numberKey false (.real d) = numberKey false (.real e) ↔ v = w)) ∧
    (∀ d : Double, d.value? = some 0 → numberKey false (.real d) = .ok "0") ∧
    ∀ z : Int, z.natAbs ≤ 2 ^ 53 → numberKey false (.whole z) = .ok (Text.ofInt z) := by
  refine ⟨fun d v value nonzero => ?_, fun d e v w hd he => ?_, fun d value => ?_, fun z h => ?_⟩
  · have finite := (magnitude_of_value? value).1
    have positive : 0 < d.magnitude := by
      refine Nat.pos_of_ne_zero fun zero => nonzero (abs_eq_zero.mp ?_)
      rw [← ladder_magnitude value, zero, ladder_zero]
    obtain ⟨digits, place, body, printed, laid, key⟩ := keyOfDouble_eq value positive
    refine ⟨digits, place, body, fun digits' place' => ⟨fun printed' => ?_, ?_⟩, laid,
      laid.numeralValue?_eq printed.valid (printed.ne_nil positive), congrArg Except.ok key⟩
    · exact printed'.unique positive finite printed
    · rintro ⟨rfl, rfl⟩
      exact printed
  · rw [← keyOfDouble_inj hd he]
    exact Except.ok.injEq .. |>.to_iff
  · have zero : d.magnitude = 0 := ladder_strictMono.injective <| by
      rw [ladder_magnitude value, abs_zero, ladder_zero]
    exact congrArg Except.ok (keyOfDouble_of_eq_zero zero)
  · have bound : (2 : Nat) ^ 53 = 2 * fractionCount := by
      unfold fractionCount
      omega
    exact congrArg Except.ok (keyOfInt_eq_ofInt (bound ▸ h))

/-- The double next to minus a tenth has such a key. -/
theorem minusTenth_laidOut : ∃ v digits place body,
    Double.value? ⟨0xBFB999999999999A⟩ = some v ∧ v < 0 ∧
      IsPrinted (Double.abs ⟨0xBFB999999999999A⟩) digits place ∧ IsLaidOut digits place body ∧
      numberKey false (.real ⟨0xBFB999999999999A⟩) = .ok ⟨0x2D :: body⟩ := by
  have view : Double.view ⟨0xBFB999999999999A⟩ = .finite true 7205759403792794 (-56) := by
    decide +kernel
  have value : Double.value? ⟨0xBFB999999999999A⟩ =
      some ((-1 : ℚ) * ((7205759403792794 : Nat) * 2 ^ (-56 : Int))) := by
    rw [Double.value?, view]
    rfl
  have negative : (-1 : ℚ) * ((7205759403792794 : Nat) * 2 ^ (-56 : Int)) < 0 := by norm_num
  obtain ⟨digits, place, body, printed, laid, -, key⟩ :=
    numberKey_laidOut.1 _ _ value negative.ne
  rw [if_pos negative] at key
  exact ⟨_, digits, place, body, value, negative, (printed _ _).mpr ⟨rfl, rfl⟩, laid, key⟩

example : numberKey false (.real ⟨0xBFB999999999999A⟩) = .ok "-0.1" := by decide +kernel

end FreeNames.Decimal
