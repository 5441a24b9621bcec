import Mathlib.Algebra.Order.Ring.Abs
import FreeNames.Proofs.Decimal.Rounding

/-!
# Correct rounding

`Double.IsNearest` is what rounding a number means: no finite double is nearer, of two equally near
the one with an even significand is taken, and from the middle above the largest one on it is
infinite.

* `Double.isNearest_iff`: this comes down to the magnitude that the number rounds to, so a number
  has one nearest double (`Double.IsNearest.unique`).
* `Double.isNearest_ofRatio` and `Double.isNearest_ofDecimal`: quotients and decimals are rounded to
  the nearest double.
-/

namespace FreeNames.Double

variable {m k : Nat} {x : ℚ}

/-! ## Nearest doubles -/

/-- The middle between the largest finite number and the power of two that comes next. -/
def overflow : ℚ := 2 ^ (1024 : Int) - 2 ^ (970 : Int)

/-- A double is the number rounded correctly.  No finite double is nearer, and of two equally near
the significand is even; from `overflow` on it is infinite. -/
structure IsNearest (x : ℚ) (d : Double) : Prop where
  sign : d.negative = decide (x < 0)
  finite : |x| < overflow → ∃ v significand power,
    d.view = .finite d.negative significand power ∧ d.value? = some v ∧
      ∀ (e : Double) w, e.value? = some w →
        |x - v| ≤ |x - w| ∧ (|x - v| = |x - w| → w = v ∨ significand % 2 = 0)
  infinite : overflow ≤ |x| → d.view = .infinite d.negative

variable {d : Double}

theorem overflow_eq : ∃ k, k + 1 = finiteCount ∧ k % 2 = 1 ∧ middle k = overflow := by
  refine ⟨finiteCount - 1, ?_, ?_, ?_⟩
  · unfold finiteCount fractionCount
    omega
  · unfold finiteCount fractionCount
    omega
  · have next : finiteCount - 1 + 1 = finiteCount := by
      unfold finiteCount fractionCount
      omega
    have power : powerAt (finiteCount - 1) = 970 + 1 := by
      unfold powerAt finiteCount fractionCount
      omega
    have up := ladder_succ (finiteCount - 1)
    rw [next, power, two_zpow_succ, ladder_finiteCount] at up
    rw [middle, next, ladder_finiteCount, overflow]
    linarith

theorem RoundsTo.lt_finiteCount_iff (h : RoundsTo m x) : m < finiteCount ↔ x < overflow := by
  obtain ⟨k, next, odd, cut⟩ := overflow_eq
  constructor
  · intro finite
    have := (h.below finite).mono (show m ≤ k by omega)
    rwa [atMost_of_odd (by omega), cut] at this
  · intro small
    by_contra infinite
    have same : m = finiteCount := le_antisymm h.le (not_lt.mp infinite)
    have := le_of_not_atMost (h.above k (next.trans same.symm))
    rw [cut] at this
    linarith

theorem roundsTo_of_overflow_le (h : overflow ≤ x) : RoundsTo finiteCount x where
  le := le_rfl
  above k hk cut := by
    obtain ⟨k', next, odd, same⟩ := overflow_eq
    obtain rfl : k = k' := by omega
    rw [atMost_of_odd (by omega), same] at cut
    linarith
  below h := absurd h (lt_irrefl _)

/-- Every number without sign rounds to a magnitude. -/
theorem exists_roundsTo (h : 0 ≤ x) : ∃ m, RoundsTo m x := by
  obtain ⟨m, -, rounds⟩ := exists_ofRatio false x.num.natAbs x.den_nz
  have : ((x.num.natAbs : Nat) : ℚ) / x.den = x := by
    have num : ((x.num.natAbs : Nat) : ℚ) = x.num := by
      rw [← Int.cast_natCast, Int.natAbs_of_nonneg (Rat.num_nonneg.mpr h)]
    rw [num, Rat.num_div_den]
  exact ⟨m, this ▸ rounds⟩

/-- What has the sign of a word is as far from its number as their magnitudes are apart. -/
theorem abs_sub_signed (sign : d.negative = decide (x < 0)) (y : ℚ) :
    |x - (if d.negative then -1 else 1) * y| = |(|x| - y)| := by
  rw [sign]
  by_cases h : x < 0
  · rw [decide_eq_true h, if_pos rfl, abs_of_neg h, ← abs_neg]
    congr 1
    ring
  · rw [decide_eq_false h, if_neg (by simp), abs_of_nonneg (not_lt.mp h), one_mul]

theorem abs_signed (negative : Bool) (m : Nat) :
    |(if negative then -1 else 1) * ladder m| = ladder m := by
  cases negative <;> simp [abs_of_nonneg (ladder_nonneg m)]

/-- A number that is as near to a magnitude with the other sign is so only if this is zero. -/
theorem eq_zero_of_other_sign {negative : Bool} (sign : d.negative = decide (x < 0))
    (other : negative ≠ d.negative) (near : |(|x| - ladder m)| ≤ |(|x| - ladder 0)|)
    (tie : |(|x| - ladder m)| = |x - (if negative then -1 else 1) * ladder m|) : m = 0 := by
  have pos := ladder_nonneg m
  have sum : |x - (if negative then -1 else 1) * ladder m| = |x| + ladder m := by
    obtain rfl : negative = !decide (x < 0) := by
      rw [← sign]
      exact Bool.eq_not_of_ne other
    by_cases h : x < 0
    · rw [decide_eq_true h, abs_of_neg h, Bool.not_true, if_neg (by simp), abs_of_neg (by linarith)]
      ring
    · have h' := not_lt.mp h
      rw [decide_eq_false h, abs_of_nonneg h', Bool.not_false, if_pos rfl,
        abs_of_nonneg (by linarith)]
      ring
  rw [tie, sum, ladder_zero, sub_zero, abs_abs] at near
  exact ladder_strictMono.injective (ladder_zero.symm ▸ le_antisymm (by linarith) pos)

theorem isNearest_of_roundsTo (sign : d.negative = decide (x < 0))
    (h : RoundsTo d.magnitude |x|) : IsNearest x d where
  sign := sign
  finite small := by
    have finite := h.lt_finiteCount_iff.mpr small
    refine ⟨_, _, _, (view_eq d).trans (if_pos finite), (value?_eq d).trans (if_pos finite),
      fun e w hw => ?_⟩
    rw [value?_eq] at hw
    split at hw
    · obtain rfl := Option.some.inj hw
      obtain ⟨near, tie⟩ := h.nearest finite e.magnitude
      have far := abs_abs_sub_abs_le_abs_sub x ((if e.negative then -1 else 1) * ladder e.magnitude)
      rw [abs_signed] at far
      rw [abs_sub_signed sign]
      refine ⟨near.trans far, fun same => ?_⟩
      rcases tie (le_antisymm near (far.trans same.symm.le)) with hk | even
      · by_cases signs : e.negative = d.negative
        · exact .inl (by rw [hk, signs])
        · rw [hk] at same
          have zero := eq_zero_of_other_sign sign signs (h.nearest finite 0).1 same
          exact .inr (by rw [significandAt_mod_two, zero])
      · exact .inr ((significandAt_mod_two _).trans even)
    · cases hw
  infinite large := by
    have same := h.unique (roundsTo_of_overflow_le large)
    rw [view_eq, if_neg (by omega), if_pos same]

/-- Between two magnitudes that are equally near and both even stands one that is nearer. -/
theorem exists_nearer {a b : Nat} (lt : a < b) (even : a % 2 = b % 2)
    (tie : |x - ladder a| = |x - ladder b|) : ∃ k, |x - ladder k| < |x - ladder a| := by
  have low : ladder a < ladder (a + 1) := ladder_strictMono (Nat.lt_succ_self a)
  have high : ladder (a + 1) < ladder b := ladder_strictMono (by omega)
  have centre : x - ladder a = ladder b - x := by
    rcases abs_eq_abs.mp tie with same | same <;> linarith
  refine ⟨a + 1, ?_⟩
  rw [abs_of_pos (show 0 < x - ladder a by linarith)]
  exact abs_lt.mpr ⟨by linarith, by linarith⟩

theorem IsNearest.magnitude_eq (h : IsNearest x d) (small : |x| < overflow)
    (rounds : RoundsTo m |x|) : d.magnitude = m := by
  have finite := rounds.lt_finiteCount_iff.mpr small
  obtain ⟨v, s, p, view, value, nearest⟩ := h.finite small
  rw [value?_eq] at value
  rw [view_eq] at view
  split at value
  · next finite' =>
    obtain rfl := Option.some.inj value
    rw [if_pos finite', View.finite.injEq] at view
    have lt : m < magnitudeCount := finite.trans finiteCount_lt
    have other : (word d.negative m).value? = some ((if d.negative then -1 else 1) * ladder m) := by
      rw [value?_eq, magnitude_word lt, negative_word lt, if_pos finite]
    obtain ⟨near, tie⟩ := nearest _ _ other
    obtain ⟨near', tie'⟩ := rounds.nearest finite d.magnitude
    rw [abs_sub_signed h.sign, abs_sub_signed h.sign] at near tie
    have same := le_antisymm near near'
    by_contra differ
    have even : m % 2 = 0 := (tie' same.symm).resolve_left differ
    have even' : d.magnitude % 2 = 0 := by
      rcases tie same with equal | even'
      · have : ladder m = ladder d.magnitude := by
          have := congrArg abs equal
          rwa [abs_signed, abs_signed] at this
        exact absurd (ladder_strictMono.injective this).symm differ
      · rwa [← view.2.1, significandAt_mod_two] at even'
    rcases Nat.lt_or_gt_of_ne differ with lt | lt
    · obtain ⟨k, nearer⟩ := exists_nearer lt (even'.trans even.symm) same
      exact absurd (rounds.nearest finite k).1 (not_le.mpr (same ▸ nearer))
    · obtain ⟨k, nearer⟩ := exists_nearer lt (even.trans even'.symm) same.symm
      exact absurd (rounds.nearest finite k).1 (not_le.mpr nearer)
  · cases value

/-- The nearest double has the sign of the number and the magnitude that it rounds to. -/
theorem isNearest_iff : IsNearest x d ↔
    d.negative = decide (x < 0) ∧ RoundsTo d.magnitude |x| := by
  constructor
  · intro h
    refine ⟨h.sign, ?_⟩
    by_cases small : |x| < overflow
    · obtain ⟨m, rounds⟩ := exists_roundsTo (abs_nonneg x)
      exact (h.magnitude_eq small rounds).symm ▸ rounds
    · have large := not_lt.mp small
      have view := h.infinite large
      rw [view_eq] at view
      split at view
      · cases view
      · split at view
        · next same => exact same ▸ roundsTo_of_overflow_le large
        · cases view
  · rintro ⟨sign, rounds⟩
    exact isNearest_of_roundsTo sign rounds

/-- A number has one nearest double. -/
theorem IsNearest.unique {e : Double} (hd : IsNearest x d) (he : IsNearest x e) : d = e :=
  ext_magnitude (hd.sign.trans he.sign.symm)
    ((isNearest_iff.mp hd).2.unique (isNearest_iff.mp he).2)

theorem isNearest_word {negative : Bool} (sign : negative = decide (x < 0)) (h : RoundsTo m |x|) :
    IsNearest x (word negative m) := by
  have lt : m < magnitudeCount := h.le.trans_lt finiteCount_lt
  rw [isNearest_iff, negative_word lt, magnitude_word lt]
  exact ⟨sign, h⟩

/-- A quotient of natural numbers is rounded to the nearest double. -/
theorem isNearest_ofRatio (n : Nat) {d : Nat} (hd : d ≠ 0) :
    IsNearest (n / d) (ofRatio false n d) := by
  obtain ⟨m, same, rounds⟩ := exists_ofRatio false n hd
  have sign : (0 : ℚ) ≤ n / d := by positivity
  rw [same]
  exact isNearest_word (by simpa using sign) (by rwa [abs_of_nonneg sign])

/-- A decimal is rounded to the nearest double. -/
theorem isNearest_ofDecimal (digits : Nat) (exponent : Int) :
    IsNearest (digits * 10 ^ exponent) (ofDecimal false digits exponent) := by
  obtain ⟨m, same, rounds⟩ := exists_ofDecimal false digits exponent
  have sign : (0 : ℚ) ≤ digits * 10 ^ exponent := by positivity
  rw [same]
  exact isNearest_word (by simpa using sign) (by rwa [abs_of_nonneg sign])

end FreeNames.Double
