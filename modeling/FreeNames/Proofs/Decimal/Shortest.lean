import FreeNames.Decimal.Shortest
import FreeNames.Proofs.Decimal.Nearest

/-!
# Shortest decimals

The search for the decimal of a double finds the shortest one that rounds to it, and of these the
nearest.

* `Decimal.holds_iff`: the interval of a magnitude holds the multiples that round to it.
* `Decimal.nearest?_spec`: on one power of ten the nearest of these multiples is found, if there is
  one.
* `Decimal.isShortest_shortest`: the search finds the coarsest power of ten with such a multiple.
* `Decimal.IsShortest.not_roundsTo_of_shorter`, `Decimal.IsShortest.closest`: then no decimal with
  fewer digits rounds to the number, and none with as many digits is nearer.  A finer power of ten
  gives one with as many digits only next to twice the least number
  (`Decimal.IsShortest.eq_two_of_power`).
-/

namespace FreeNames.Double

variable {m : Nat} {x y z : ℚ}

/-! ## The numbers that round to a magnitude -/

/-- What lies between two numbers that round to a magnitude rounds to it. -/
theorem RoundsTo.between (hx : RoundsTo m x) (hz : RoundsTo m z) (le : x ≤ y) (le' : y ≤ z) :
    RoundsTo m y where
  le := hx.le
  above k hk cut := hx.above k hk (cut.of_le le)
  below finite := (hz.below finite).of_le le'

/-- The number of a magnitude rounds to it. -/
theorem roundsTo_ladder (h : m ≤ finiteCount) : RoundsTo m (ladder m) where
  le := h
  above k hk cut := by
    have := middle_lt_ladder k
    rw [hk] at this
    linarith [cut.le]
  below _ := atMost_of_lt (ladder_lt_middle m)

/-- The middle below a magnitude is half a unit away, or a quarter if it is the first of a block
above the least. -/
theorem middle_below {k : Nat} (hk : k + 1 = m) : middle k = ladder m - (if
    significandAt m = fractionCount ∧ -1074 < powerAt m then 1 / 4 else 1 / 2) * 2 ^ powerAt m := by
  have unit := ladder_succ k
  rw [hk] at unit
  have centre : middle k = ladder m - 2 ^ powerAt k / 2 := by
    rw [middle_eq]
    linarith
  rw [centre]
  by_cases first : significandAt m = fractionCount ∧ -1074 < powerAt m
  · have power : powerAt m = powerAt k + 1 := by
      unfold significandAt powerAt fractionCount at *
      split_ifs at * <;> omega
    rw [if_pos first, power, two_zpow_succ]
    ring
  · have power : powerAt m = powerAt k := by
      unfold significandAt powerAt fractionCount at *
      split_ifs at * <;> omega
    rw [if_neg first, power]
    ring

end FreeNames.Double

namespace FreeNames.Decimal

open Double

variable {m : Nat}

/-! ## Intervals -/

/-- The reals that round to a magnitude. -/
def intervalAt (m : Nat) : Interval := .around (significandAt m) (powerAt m)

/-- What both sides of a comparison are multiplied by. -/
def scale (i : Interval) (e : Int) : ℚ :=
  (Nat.pow 2 (-i.power).toNat : Nat) * (Nat.pow 10 (-e).toNat : Nat)

variable {i : Interval} {e : Int} {n q : Nat}

theorem scale_pos (i : Interval) (e : Int) : 0 < scale i e := by
  have two : 0 < Nat.pow 2 (-i.power).toNat := Nat.pow_pos (by omega)
  have ten : 0 < Nat.pow 10 (-e).toNat := Nat.pow_pos (by omega)
  unfold scale
  exact_mod_cast Nat.mul_pos two ten

theorem cast_scaled_fst (i : Interval) (n : Nat) (e : Int) (q : Nat) :
    ((i.scaled n e q).1 : ℚ) = 4 * (n * 10 ^ e) * scale i e := by
  simp only [Interval.scaled, scale]
  rw [Nat.cast_mul, Nat.cast_mul, Nat.cast_mul, ten_pow_toNat]
  push_cast
  ring

theorem cast_scaled_snd (i : Interval) (n : Nat) (e : Int) (q : Nat) :
    ((i.scaled n e q).2 : ℚ) = q * 2 ^ i.power * scale i e := by
  simp only [Interval.scaled, scale]
  rw [Nat.cast_mul, Nat.cast_mul, two_pow_toNat]
  ring

/-- Comparing products of natural numbers compares the numbers that they stand for. -/
theorem scaled_le_iff : (i.scaled n e q).1 ≤ (i.scaled n e q).2 ↔
    (n : ℚ) * 10 ^ e ≤ q / 4 * 2 ^ i.power := by
  rw [← Nat.cast_le (α := ℚ), cast_scaled_fst, cast_scaled_snd,
    mul_le_mul_iff_of_pos_right (scale_pos i e)]
  constructor <;> intro h <;> linarith

theorem le_scaled_iff : (i.scaled n e q).2 ≤ (i.scaled n e q).1 ↔
    (q : ℚ) / 4 * 2 ^ i.power ≤ n * 10 ^ e := by
  rw [← Nat.cast_le (α := ℚ), cast_scaled_fst, cast_scaled_snd,
    mul_le_mul_iff_of_pos_right (scale_pos i e)]
  constructor <;> intro h <;> linarith

theorem scaled_lt_iff : (i.scaled n e q).1 < (i.scaled n e q).2 ↔
    (n : ℚ) * 10 ^ e < q / 4 * 2 ^ i.power := by
  rw [← not_le, le_scaled_iff, not_le]

theorem lt_scaled_iff : (i.scaled n e q).2 < (i.scaled n e q).1 ↔
    (q : ℚ) / 4 * 2 ^ i.power < n * 10 ^ e := by
  rw [← not_le, scaled_le_iff, not_le]

theorem low_intervalAt {k : Nat} (hk : k + 1 = m) :
    ((intervalAt m).low : ℚ) / 4 * 2 ^ (intervalAt m).power = middle k := by
  have positive : 1 ≤ significandAt m := by
    unfold significandAt fractionCount
    split <;> omega
  rw [middle_below hk, ladder]
  by_cases first : significandAt m = fractionCount ∧ -1074 < powerAt m
  · have low : (intervalAt m).low = 4 * significandAt m - 1 :=
      if_pos (by simpa using first)
    rw [low, if_pos first, Nat.cast_sub (by omega), intervalAt, Interval.around]
    push_cast
    ring
  · have low : (intervalAt m).low = 4 * significandAt m - 2 :=
      if_neg (by simpa using first)
    rw [low, if_neg first, Nat.cast_sub (by omega), intervalAt, Interval.around]
    push_cast
    ring

theorem high_intervalAt (m : Nat) :
    ((intervalAt m).high : ℚ) / 4 * 2 ^ (intervalAt m).power = middle m := by
  rw [middle_eq, ladder, intervalAt, Interval.around]
  push_cast
  ring

/-- The multiples of powers of ten in the interval of a magnitude are those that round to it. -/
theorem holds_iff (positive : 0 < m) (finite : m < finiteCount) (n : Nat) (e : Int) :
    (intervalAt m).holds n e = true ↔ RoundsTo m (n * 10 ^ e) := by
  obtain ⟨k, hk⟩ : ∃ k, k + 1 = m := ⟨m - 1, by omega⟩
  have rounds : RoundsTo m (n * 10 ^ e) ↔ ¬ AtMost k (n * 10 ^ e) ∧ AtMost m (n * 10 ^ e) := by
    constructor
    · exact fun h => ⟨h.above k hk, h.below finite⟩
    · rintro ⟨above, below⟩
      refine ⟨finite.le, fun k' hk' => ?_, fun _ => below⟩
      obtain rfl : k' = k := by omega
      exact above
  have closed : (intervalAt m).closed = decide (m % 2 = 0) := by
    simp [intervalAt, Interval.around, significandAt_mod_two]
  have low := low_intervalAt hk
  have high := high_intervalAt m
  have unfolded : (intervalAt m).holds n e = if (intervalAt m).closed then
      decide (((intervalAt m).scaled n e (intervalAt m).low).2 ≤
        ((intervalAt m).scaled n e (intervalAt m).low).1) &&
        decide (((intervalAt m).scaled n e (intervalAt m).high).1 ≤
          ((intervalAt m).scaled n e (intervalAt m).high).2)
      else decide (((intervalAt m).scaled n e (intervalAt m).low).2 <
        ((intervalAt m).scaled n e (intervalAt m).low).1) &&
        decide (((intervalAt m).scaled n e (intervalAt m).high).1 <
          ((intervalAt m).scaled n e (intervalAt m).high).2) := rfl
  rw [rounds, unfolded, closed]
  by_cases even : m % 2 = 0
  · rw [if_pos (decide_eq_true even), atMost_of_odd (show k % 2 ≠ 0 by omega), atMost_of_even even,
      not_lt, Bool.and_eq_true, decide_eq_true_eq, decide_eq_true_eq, le_scaled_iff, scaled_le_iff,
      low, high]
  · rw [if_neg (by simpa using even), atMost_of_even (show k % 2 = 0 by omega), atMost_of_odd even,
      not_le, Bool.and_eq_true, decide_eq_true_eq, decide_eq_true_eq, lt_scaled_iff, scaled_lt_iff,
      low, high]

/-! ## The nearest multiple -/

/-- The floor is the last multiple that is not above the number. -/
theorem floor_spec (m : Nat) (e : Int) : ((intervalAt m).floor e : ℚ) * 10 ^ e ≤ ladder m ∧
    ladder m < ((intervalAt m).floor e + 1) * 10 ^ e := by
  have pos := scale_pos (intervalAt m) e
  have unit := cast_scaled_fst (intervalAt m) 1 e (intervalAt m).centre
  have centre := cast_scaled_snd (intervalAt m) 1 e (intervalAt m).centre
  have same : ((intervalAt m).centre : ℚ) * 2 ^ (intervalAt m).power = 4 * ladder m := by
    rw [ladder, intervalAt, Interval.around]
    push_cast
    ring
  have floor : (intervalAt m).floor e = ((intervalAt m).scaled 1 e (intervalAt m).centre).2 /
      ((intervalAt m).scaled 1 e (intervalAt m).centre).1 := rfl
  rw [same] at centre
  rw [floor]
  generalize ((intervalAt m).scaled 1 e (intervalAt m).centre).2 = c at *
  generalize ((intervalAt m).scaled 1 e (intervalAt m).centre).1 = u at *
  rw [Nat.cast_one, one_mul] at unit
  have unit_pos : 0 < u := by
    have : (0 : ℚ) < u := by
      rw [unit]
      positivity
    exact_mod_cast this
  have low : ((c / u : Nat) : ℚ) * u ≤ c := by exact_mod_cast Nat.div_mul_le_self c u
  have high : (c : ℚ) < u * ((c / u : Nat) + 1) := by exact_mod_cast Nat.lt_mul_div_succ c unit_pos
  rw [unit, centre] at low high
  constructor
  · refine le_of_mul_le_mul_right ?_ pos
    linarith
  · refine lt_of_mul_lt_mul_right ?_ pos.le
    linarith

/-- What is found among the multiples of a power of ten: one that rounds to the number, and of these
the nearest to it. -/
structure IsNearestMultiple (m : Nat) (e : Int) (r : Nat) : Prop where
  rounds : RoundsTo m (r * 10 ^ e)
  nearest : ∀ j : Nat, RoundsTo m (j * 10 ^ e) →
    |ladder m - r * 10 ^ e| ≤ |ladder m - j * 10 ^ e| ∧
      (|ladder m - r * 10 ^ e| = |ladder m - j * 10 ^ e| → j = r ∨ r % 2 = 0)

/-- A multiple below or above a number is no nearer than the last one below and the first one
above. -/
theorem distance_cases {g x : ℚ} {n : Nat} (unit : 0 < g) (low : n * g ≤ x) (high : x < (n + 1) * g)
    (j : Nat) :
    (j ≤ n ∧ x - n * g ≤ |x - j * g| ∧ (x - n * g = |x - j * g| → j = n)) ∨
      (n + 1 ≤ j ∧ (n + 1) * g - x ≤ |x - j * g| ∧
        ((n + 1) * g - x = |x - j * g| → j = n + 1)) := by
  rcases Nat.lt_or_ge n j with lt | ge
  · right
    have le : ((n : ℚ) + 1) * g ≤ j * g :=
      mul_le_mul_of_nonneg_right (by exact_mod_cast lt) unit.le
    rw [abs_of_neg (by linarith)]
    refine ⟨lt, by linarith, fun same => ?_⟩
    have : (j : ℚ) * g = (n + 1) * g := by linarith
    exact_mod_cast mul_right_cancel₀ unit.ne' this
  · left
    have le : (j : ℚ) * g ≤ n * g := mul_le_mul_of_nonneg_right (by exact_mod_cast ge) unit.le
    rw [abs_of_nonneg (by linarith)]
    refine ⟨ge, by linarith, fun same => ?_⟩
    have : (j : ℚ) * g = n * g := by linarith
    exact_mod_cast mul_right_cancel₀ unit.ne' this

/-- The nearest multiple is on the side that is nearer, or on the only one that rounds. -/
theorem isNearestMultiple_below {e : Int} {n : Nat} (low : n * 10 ^ e ≤ ladder m)
    (high : ladder m < (n + 1) * 10 ^ e) (rounds : RoundsTo m (n * 10 ^ e))
    (side : RoundsTo m ((n + 1 : Nat) * 10 ^ e) →
      ladder m - n * 10 ^ e ≤ (n + 1) * 10 ^ e - ladder m ∧
        (ladder m - n * 10 ^ e = (n + 1) * 10 ^ e - ladder m → n % 2 = 0)) :
    IsNearestMultiple m e n := by
  have unit : (0 : ℚ) < 10 ^ e := by positivity
  refine ⟨rounds, fun j hj => ?_⟩
  rw [abs_of_nonneg (show 0 ≤ ladder m - n * 10 ^ e by linarith)]
  rcases distance_cases unit low high j with ⟨-, near, tie⟩ | ⟨lt, near, -⟩
  · exact ⟨near, fun same => .inl (tie same)⟩
  · have le : ((n + 1 : Nat) : ℚ) * 10 ^ e ≤ j * 10 ^ e :=
      mul_le_mul_of_nonneg_right (by exact_mod_cast lt) unit.le
    have above := (roundsTo_ladder rounds.le).between hj (by push_cast; exact high.le) le
    obtain ⟨nearer, even⟩ := side above
    exact ⟨nearer.trans near, fun same => .inr (even (le_antisymm nearer (same ▸ near)))⟩

theorem isNearestMultiple_above {e : Int} {n : Nat} (low : n * 10 ^ e ≤ ladder m)
    (high : ladder m < (n + 1) * 10 ^ e) (rounds : RoundsTo m ((n + 1 : Nat) * 10 ^ e))
    (side : RoundsTo m (n * 10 ^ e) →
      (n + 1) * 10 ^ e - ladder m ≤ ladder m - n * 10 ^ e ∧
        (ladder m - n * 10 ^ e = (n + 1) * 10 ^ e - ladder m → (n + 1) % 2 = 0)) :
    IsNearestMultiple m e (n + 1) := by
  have unit : (0 : ℚ) < 10 ^ e := by positivity
  refine ⟨rounds, fun j hj => ?_⟩
  rw [abs_of_neg (show ladder m - (n + 1 : Nat) * 10 ^ e < 0 by push_cast; linarith), neg_sub,
    Nat.cast_add, Nat.cast_one]
  rcases distance_cases unit low high j with ⟨le, near, -⟩ | ⟨-, near, tie⟩
  · have le : (j : ℚ) * 10 ^ e ≤ n * 10 ^ e :=
      mul_le_mul_of_nonneg_right (by exact_mod_cast le) unit.le
    have below := hj.between (roundsTo_ladder rounds.le) le low
    obtain ⟨nearer, even⟩ := side below
    exact ⟨nearer.trans near, fun same => .inr (even (le_antisymm (same ▸ near) nearer))⟩
  · exact ⟨near, fun same => .inl (tie same)⟩

theorem centre_intervalAt (m : Nat) :
    ((intervalAt m).centre : ℚ) / 4 * 2 ^ (intervalAt m).power = ladder m := by
  rw [ladder, intervalAt, Interval.around]
  push_cast
  ring

/-- How far the number is above a multiple, and a multiple above the number, as the search measures
both. -/
def toBelow (m n : Nat) (e : Int) : Nat :=
  ((intervalAt m).scaled n e (intervalAt m).centre).2 -
    ((intervalAt m).scaled n e (intervalAt m).centre).1

def toAbove (m n : Nat) (e : Int) : Nat :=
  ((intervalAt m).scaled n e (intervalAt m).centre).1 -
    ((intervalAt m).scaled n e (intervalAt m).centre).2

theorem cast_toBelow {e : Int} (h : n * 10 ^ e ≤ ladder m) :
    (toBelow m n e : ℚ) = (ladder m - n * 10 ^ e) * (4 * scale (intervalAt m) e) := by
  have le : ((intervalAt m).scaled n e (intervalAt m).centre).1 ≤
      ((intervalAt m).scaled n e (intervalAt m).centre).2 := by
    rw [scaled_le_iff, centre_intervalAt]
    exact h
  rw [toBelow, Nat.cast_sub le, cast_scaled_fst, cast_scaled_snd, ← centre_intervalAt]
  ring

theorem cast_toAbove {e : Int} (h : ladder m ≤ n * 10 ^ e) :
    (toAbove m n e : ℚ) = (n * 10 ^ e - ladder m) * (4 * scale (intervalAt m) e) := by
  have le : ((intervalAt m).scaled n e (intervalAt m).centre).2 ≤
      ((intervalAt m).scaled n e (intervalAt m).centre).1 := by
    rw [le_scaled_iff, centre_intervalAt]
    exact h
  rw [toAbove, Nat.cast_sub le, cast_scaled_fst, cast_scaled_snd, ← centre_intervalAt]
  ring

/-- Which of the two multiples beside a number is nearer. -/
theorem toBelow_lt_iff {e : Int} (low : n * 10 ^ e ≤ ladder m)
    (high : ladder m < (n + 1) * 10 ^ e) :
    toBelow m n e < toAbove m (n + 1) e ↔
      ladder m - n * 10 ^ e < (n + 1) * 10 ^ e - ladder m := by
  have factor : (0 : ℚ) < 4 * scale (intervalAt m) e := mul_pos (by norm_num) (scale_pos _ e)
  have next : ladder m ≤ (n + 1 : Nat) * 10 ^ e := by
    push_cast
    exact high.le
  rw [← Nat.cast_lt (α := ℚ), cast_toBelow low, cast_toAbove next,
    mul_lt_mul_iff_of_pos_right factor]
  push_cast
  rfl

theorem toBelow_eq_iff {e : Int} (low : n * 10 ^ e ≤ ladder m)
    (high : ladder m < (n + 1) * 10 ^ e) :
    toBelow m n e = toAbove m (n + 1) e ↔
      ladder m - n * 10 ^ e = (n + 1) * 10 ^ e - ladder m := by
  have factor : (0 : ℚ) < 4 * scale (intervalAt m) e := mul_pos (by norm_num) (scale_pos _ e)
  have next : ladder m ≤ (n + 1 : Nat) * 10 ^ e := by
    push_cast
    exact high.le
  rw [← Nat.cast_inj (R := ℚ), cast_toBelow low, cast_toAbove next, mul_left_inj' factor.ne']
  push_cast
  rfl

/-- Of two multiples that round to a number, the nearer one is taken, or the even one. -/
theorem isNearestMultiple_pick {e : Int} (low : n * 10 ^ e ≤ ladder m)
    (high : ladder m < (n + 1) * 10 ^ e) (below : RoundsTo m (n * 10 ^ e))
    (above : RoundsTo m ((n + 1 : Nat) * 10 ^ e)) :
    IsNearestMultiple m e (if toBelow m n e < toAbove m (n + 1) e ||
      (toBelow m n e = toAbove m (n + 1) e && n % 2 = 0) then n else n + 1) := by
  have lt_iff := toBelow_lt_iff low high
  have eq_iff := toBelow_eq_iff low high
  by_cases pick : toBelow m n e < toAbove m (n + 1) e ||
      (toBelow m n e = toAbove m (n + 1) e && n % 2 = 0)
  · rw [if_pos pick]
    simp only [Bool.or_eq_true, Bool.and_eq_true, decide_eq_true_eq, lt_iff, eq_iff] at pick
    refine isNearestMultiple_below low high below fun _ => ⟨?_, fun same => ?_⟩
    · rcases pick with lt | ⟨eq, -⟩
      · exact lt.le
      · exact eq.le
    · exact (pick.resolve_left same.not_lt).2
  · rw [if_neg pick]
    simp only [Bool.or_eq_true, Bool.and_eq_true, decide_eq_true_eq, lt_iff, eq_iff, not_or,
      not_and, not_lt] at pick
    refine isNearestMultiple_above low high above fun _ => ⟨pick.1, fun same => ?_⟩
    have := pick.2 same
    omega

/-- Where neither multiple beside a number rounds to it, none does. -/
theorem not_roundsTo_of_beside (finite : m < finiteCount) {e : Int} (low : n * 10 ^ e ≤ ladder m)
    (high : ladder m < (n + 1) * 10 ^ e) (below : ¬ RoundsTo m (n * 10 ^ e))
    (above : ¬ RoundsTo m ((n + 1 : Nat) * 10 ^ e)) (j : Nat) : ¬ RoundsTo m (j * 10 ^ e) := by
  intro hj
  have unit : (0 : ℚ) < 10 ^ e := by positivity
  rcases distance_cases unit low high j with ⟨le, -, -⟩ | ⟨lt, -, -⟩
  · exact below (hj.between (roundsTo_ladder finite.le)
      (mul_le_mul_of_nonneg_right (by exact_mod_cast le) unit.le) low)
  · exact above ((roundsTo_ladder finite.le).between hj (by push_cast; exact high.le)
      (mul_le_mul_of_nonneg_right (by exact_mod_cast lt) unit.le))

/-- On one power of ten, the nearest of the multiples that round to a number is found. -/
theorem nearest?_spec (positive : 0 < m) (finite : m < finiteCount) (e : Int) :
    match (intervalAt m).nearest? e with
    | some r => IsNearestMultiple m e r
    | none => ∀ j : Nat, ¬ RoundsTo m (j * 10 ^ e) := by
  obtain ⟨low, high⟩ := floor_spec m e
  obtain ⟨n, hn⟩ : ∃ n, n = (intervalAt m).floor e := ⟨_, rfl⟩
  rw [← hn] at low high
  have below_iff : (n ≠ 0 && (intervalAt m).holds n e) = true ↔ RoundsTo m (n * 10 ^ e) := by
    rw [Bool.and_eq_true, decide_eq_true_eq, holds_iff positive finite, and_iff_right_iff_imp]
    rintro rounds rfl
    rw [Nat.cast_zero, zero_mul] at rounds
    exact absurd (rounds.unique roundsTo_zero) (by omega)
  have above_iff := holds_iff positive finite (n + 1) e
  have unfolded : (intervalAt m).nearest? e =
      if (n ≠ 0 && (intervalAt m).holds n e) && (intervalAt m).holds (n + 1) e then
        some (if toBelow m n e < toAbove m (n + 1) e ||
          (toBelow m n e = toAbove m (n + 1) e && n % 2 = 0) then n else n + 1)
      else if n ≠ 0 && (intervalAt m).holds n e then some n
      else if (intervalAt m).holds (n + 1) e then some (n + 1)
      else none := by
    rw [hn]
    rfl
  rw [unfolded]
  by_cases hb : RoundsTo m (n * 10 ^ e) <;> by_cases ha : RoundsTo m ((n + 1 : Nat) * 10 ^ e)
  · rw [below_iff.mpr hb, above_iff.mpr ha, Bool.and_self, if_pos rfl]
    exact isNearestMultiple_pick low high hb ha
  · rw [below_iff.mpr hb, Bool.eq_false_iff.mpr (mt above_iff.mp ha), Bool.and_false,
      if_neg Bool.false_ne_true, if_pos rfl]
    exact isNearestMultiple_below low high hb fun above => absurd above ha
  · rw [above_iff.mpr ha, Bool.eq_false_iff.mpr (mt below_iff.mp hb), Bool.false_and,
      if_neg Bool.false_ne_true, if_neg Bool.false_ne_true, if_pos rfl]
    exact isNearestMultiple_above low high ha fun below => absurd below hb
  · rw [Bool.eq_false_iff.mpr (mt above_iff.mp ha), Bool.eq_false_iff.mpr (mt below_iff.mp hb),
      Bool.and_self, if_neg Bool.false_ne_true, if_neg Bool.false_ne_true,
      if_neg Bool.false_ne_true]
    exact not_roundsTo_of_beside finite low high hb ha

/-! ## The search -/

/-- The decimal found for a magnitude: on the coarsest power of ten with a multiple that rounds to
it, the nearest of these multiples. -/
structure IsShortest (m : Nat) (r : Scaled) : Prop extends
    IsNearestMultiple m r.exponent r.digits where
  coarsest : ∀ (j : Nat) (e : Int), r.exponent < e → ¬ RoundsTo m (j * 10 ^ e)

theorem search_spec (positive : 0 < m) (finite : m < finiteCount) (steps : Nat) (e : Int)
    (above : ∀ (j : Nat) (e' : Int), e < e' → ¬ RoundsTo m (j * 10 ^ e')) :
    match (intervalAt m).search e steps with
    | some r => IsShortest m r
    | none => ∀ (j : Nat) (e' : Int), e - steps < e' → ¬ RoundsTo m (j * 10 ^ e') := by
  induction steps generalizing e with
  | zero => exact fun j e' he => above j e' (by simpa using he)
  | succ steps ih =>
    have here := nearest?_spec positive finite e
    rw [Interval.search]
    cases found : (intervalAt m).nearest? e with
    | some n =>
      rw [found] at here
      exact ⟨here, above⟩
    | none =>
      rw [found] at here
      have next := ih (e - 1) fun j e' he => by
        rcases (show e ≤ e' by omega).eq_or_lt with rfl | lt
        · exact here j
        · exact above j e' lt
      simpa [sub_sub, add_comm] using next

/-- Multiples of powers of ten that are coarser than all finite numbers round to none. -/
theorem not_roundsTo_of_coarsest (positive : 0 < m) (finite : m < finiteCount) (j : Nat) (e : Int)
    (he : coarsest < e) : ¬ RoundsTo m (j * 10 ^ e) := by
  intro rounds
  rcases Nat.eq_zero_or_pos j with rfl | hj
  · rw [Nat.cast_zero, zero_mul] at rounds
    exact absurd (rounds.unique roundsTo_zero) (by omega)
  · have large : ladder finiteCount ≤ j * 10 ^ e := by
      have powers : 2 ^ 1024 ≤ 10 ^ 310 := by decide +kernel
      calc ladder finiteCount = 2 ^ (1024 : Int) := ladder_finiteCount
        _ ≤ 10 ^ (310 : Int) := by exact_mod_cast powers
        _ ≤ 10 ^ e := zpow_le_zpow_right₀ (by norm_num) (by unfold coarsest at he; omega)
        _ ≤ j * 10 ^ e := le_mul_of_one_le_left (by positivity) (by exact_mod_cast hj)
    exact absurd (rounds.unique (roundsTo_finiteCount large)) (by omega)

/-- Every number of a magnitude is a multiple of the finest power of ten that is tried. -/
theorem exists_multiple (m : Nat) : ∃ j : Nat, ladder m = j * 10 ^ min (powerAt m) 0 := by
  rcases Int.le_total 0 (powerAt m) with h | h
  · refine ⟨significandAt m * 2 ^ (powerAt m).toNat, ?_⟩
    rw [min_eq_right h, zpow_zero, mul_one, ladder]
    push_cast
    rw [← zpow_natCast, Int.toNat_of_nonneg h]
  · refine ⟨significandAt m * 5 ^ (-powerAt m).toNat, ?_⟩
    rw [min_eq_left h, ladder]
    push_cast
    rw [← zpow_natCast, Int.toNat_of_nonneg (by omega), mul_assoc, zpow_neg]
    congr 1
    rw [show (10 : ℚ) = 2 * 5 by norm_num, mul_zpow]
    field_simp

/-- The search finds the shortest decimal of every finite number but zero. -/
theorem isShortest_shortest (positive : 0 < m) (finite : m < finiteCount) :
    IsShortest m (shortest (significandAt m) (powerAt m)) := by
  obtain ⟨j, multiple⟩ := exists_multiple m
  have unfolded : shortest (significandAt m) (powerAt m) =
      ((intervalAt m).search coarsest ((coarsest - min (powerAt m) 0).toNat + 1)).getD
        ⟨(intervalAt m).floor (min (powerAt m) 0), min (powerAt m) 0⟩ := rfl
  have found := search_spec positive finite ((coarsest - min (powerAt m) 0).toNat + 1) coarsest
    (not_roundsTo_of_coarsest positive finite)
  rw [unfolded]
  cases result : (intervalAt m).search coarsest ((coarsest - min (powerAt m) 0).toNat + 1) with
  | some r =>
    rw [result] at found
    exact found
  | none =>
    rw [result] at found
    refine absurd (multiple ▸ roundsTo_ladder finite.le) (found j _ ?_)
    unfold coarsest
    omega

variable {r : Scaled}

/-! ## What is shorter or as long -/

namespace IsShortest

variable {k : Nat}

theorem pos (positive : 0 < m) (h : IsShortest m r) : 0 < r.digits := by
  rcases Nat.eq_zero_or_pos r.digits with zero | pos
  · have rounds := h.rounds
    rw [zero, Nat.cast_zero, zero_mul] at rounds
    exact absurd (rounds.unique roundsTo_zero) (by omega)
  · exact pos

/-- The last digit is no zero. -/
theorem mod_ten (h : IsShortest m r) : r.digits % 10 ≠ 0 := by
  intro last
  obtain ⟨j, hj⟩ : ∃ j, r.digits = j * 10 := ⟨r.digits / 10, by omega⟩
  have rounds := h.rounds
  rw [hj, Nat.cast_mul, Nat.cast_ofNat, mul_assoc, mul_comm (10 : ℚ),
    ← zpow_add_one₀ (by norm_num)] at rounds
  exact h.coarsest j _ (by omega) rounds

/-- Between a decimal that rounds to the number and has no more digits, and the one found, stands a
power of ten. -/
theorem roundsTo_power (h : IsShortest m r) (le : 10 ^ k ≤ r.digits) {j : Nat} {e : Int}
    (rounds : RoundsTo m (j * 10 ^ e)) (below : (j : ℚ) * 10 ^ e ≤ 10 ^ k * 10 ^ r.exponent) :
    RoundsTo m ((1 : Nat) * 10 ^ (k + r.exponent)) := by
  have same : ((1 : Nat) : ℚ) * 10 ^ (k + r.exponent) = 10 ^ k * 10 ^ r.exponent := by
    rw [Nat.cast_one, one_mul, zpow_add₀ (by norm_num), zpow_natCast]
  rw [same]
  refine rounds.between h.rounds below ?_
  have : ((10 ^ k : Nat) : ℚ) ≤ r.digits := by exact_mod_cast le
  push_cast at this
  exact mul_le_mul_of_nonneg_right this (by positivity)

/-- No decimal with fewer digits rounds to the number. -/
theorem not_roundsTo_of_shorter (positive : 0 < m) (h : IsShortest m r) (le : 10 ^ k ≤ r.digits)
    {j : Nat} (shorter : j < 10 ^ k) (e : Int) : ¬ RoundsTo m (j * 10 ^ e) := by
  intro rounds
  have coarse : e ≤ r.exponent := by
    by_contra finer
    exact h.coarsest j e (by omega) rounds
  have below : (j : ℚ) * 10 ^ e ≤ 10 ^ k * 10 ^ r.exponent := by
    have : (j : ℚ) ≤ 10 ^ k := by exact_mod_cast shorter.le
    have := zpow_le_zpow_right₀ (show (1 : ℚ) ≤ 10 by norm_num) coarse
    gcongr
  have power := h.roundsTo_power le rounds below
  rcases Nat.eq_zero_or_pos k with rfl | hk
  · obtain rfl : j = 0 := by simpa using shorter
    rw [Nat.cast_zero, zero_mul] at rounds
    exact absurd (rounds.unique roundsTo_zero) (by omega)
  · exact h.coarsest 1 _ (by omega) power

end IsShortest

/-- The power of ten that lies within half a unit of twice the least number. -/
theorem least_bounds : 2 * 2 ^ (-1074 : Int) < (10 : ℚ) ^ (-323 : Int) ∧
    (10 : ℚ) ^ (-323 : Int) < 21 / 10 * 2 ^ (-1074 : Int) := by
  have low : 2 * 10 ^ 323 < 2 ^ 1074 := by decide +kernel
  have high : 10 * 2 ^ 1074 < 21 * 10 ^ 323 := by decide +kernel
  have low' : (2 * 10 ^ (323 : Int) : ℚ) < 2 ^ (1074 : Int) := by exact_mod_cast low
  have high' : (10 * 2 ^ (1074 : Int) : ℚ) < 21 * 10 ^ (323 : Int) := by exact_mod_cast high
  have two : (0 : ℚ) < 2 ^ (1074 : Int) := two_zpow_pos _
  have ten : (0 : ℚ) < 10 ^ (323 : Int) := by positivity
  rw [zpow_neg, zpow_neg]
  generalize (2 : ℚ) ^ (1074 : Int) = a at *
  generalize (10 : ℚ) ^ (323 : Int) = b at *
  rw [← div_eq_mul_inv, ← div_eq_mul_inv, inv_eq_one_div, div_lt_div_iff₀ two ten,
    div_lt_div_iff₀ ten two]
  constructor <;> linarith

/-- Only one power of ten lies between half the least number and ten of them. -/
theorem eq_of_ten_zpow_near {e : Int} (low : 1 / 2 * 2 ^ (-1074 : Int) ≤ (10 : ℚ) ^ e)
    (high : (10 : ℚ) ^ e < 10 * 2 ^ (-1074 : Int)) : e = -323 := by
  obtain ⟨below, above⟩ := least_bounds
  have u_pos := two_zpow_pos (-1074)
  have step : ∀ e : Int, (10 : ℚ) ^ (e + 1) = 10 * 10 ^ e := fun e => by
    rw [zpow_add_one₀ (by norm_num), mul_comm]
  have next := step (-323)
  have last := step (-324)
  rw [show (-324 : Int) + 1 = -323 by omega] at last
  rcases lt_trichotomy e (-323) with lt | same | lt
  · have : (10 : ℚ) ^ e ≤ 10 ^ (-324 : Int) := zpow_le_zpow_right₀ (by norm_num) (by omega)
    linarith
  · exact same
  · have : (10 : ℚ) ^ (-323 + 1 : Int) ≤ 10 ^ e := zpow_le_zpow_right₀ (by norm_num) (by omega)
    linarith

namespace IsShortest

/-- With one digit more, a multiple of a finer power of ten still stays below a power of ten. -/
theorem finer_le {k j : Nat} {e b : Int} (few : j < 10 ^ (k + 1)) (lt : b < e) :
    (j : ℚ) * 10 ^ b ≤ (10 ^ k - 1 / 10) * 10 ^ e := by
  have digits : (j : ℚ) ≤ 10 * 10 ^ k - 1 := by
    have : (j : ℚ) + 1 ≤ 10 ^ (k + 1) := by exact_mod_cast few
    rw [pow_succ] at this
    linarith
  have power : (10 : ℚ) ^ b ≤ 10 ^ (e - 1) := zpow_le_zpow_right₀ (by norm_num) (by omega)
  have ten : (10 : ℚ) ^ e = 10 * 10 ^ (e - 1) := by
    rw [mul_comm, ← zpow_add_one₀ (by norm_num), sub_add_cancel]
  calc (j : ℚ) * 10 ^ b ≤ (10 * 10 ^ k - 1) * 10 ^ (e - 1) :=
        mul_le_mul digits power (by positivity) ((Nat.cast_nonneg j).trans digits)
    _ = (10 ^ k - 1 / 10) * 10 ^ e := by
      rw [ten]
      ring

/-- Numbers that are a tenth apart round to one magnitude only if its significand has one digit. -/
theorem significandAt_le_nine (positive : 0 < m) (finite : m < finiteCount) {x y : ℚ}
    (hx : RoundsTo m x) (hy : RoundsTo m y) (apart : y ≤ 9 / 10 * x) : significandAt m ≤ 9 := by
  obtain ⟨k, hk⟩ : ∃ k, k + 1 = m := ⟨m - 1, by omega⟩
  have unit := two_zpow_pos (powerAt m)
  have low := le_of_not_atMost (hy.above k hk)
  have high := (hx.below finite).le
  rw [middle_eq, ladder] at high
  rw [middle_below hk, ladder] at low
  have half : (if significandAt m = fractionCount ∧ -1074 < powerAt m then 1 / 4 else 1 / 2 : ℚ) *
      2 ^ powerAt m ≤ 1 / 2 * 2 ^ powerAt m := by
    split <;> linarith
  have : (significandAt m : ℚ) * 2 ^ powerAt m < 10 * 2 ^ powerAt m := by linarith
  have := lt_of_mul_lt_mul_right this unit.le
  exact Nat.lt_succ_iff.mp (by exact_mod_cast this)

/-- Where a power of ten and a finer multiple with one digit round to one number, this is twice the
least one. -/
theorem eq_two_of_power (positive : 0 < m) (finite : m < finiteCount) {e b : Int} {j : Nat}
    (power : RoundsTo m (10 ^ e)) (rounds : RoundsTo m (j * 10 ^ b)) (digit : j < 10) (lt : b < e) :
    m = 2 ∧ e = -323 := by
  obtain ⟨k, hk⟩ : ∃ k, k + 1 = m := ⟨m - 1, by omega⟩
  have finer : (j : ℚ) * 10 ^ b ≤ 9 / 10 * 10 ^ e := by
    have := finer_le (k := 0) (by simpa using digit) lt
    norm_num at this ⊢
    exact this
  have small := significandAt_le_nine positive finite power rounds finer
  have low := le_of_not_atMost (power.above k hk)
  have high := (power.below finite).le
  have subnormal : m < fractionCount := by
    unfold significandAt fractionCount at *
    split at small <;> omega
  have s : significandAt m = m := if_pos subnormal
  have p : powerAt m = -1074 := if_pos subnormal
  rw [middle_below hk, ladder, s, p, if_neg (by omega)] at low
  rw [middle_eq, ladder, s, p] at high
  rw [s] at small
  obtain ⟨below, above⟩ := least_bounds
  have u_pos := two_zpow_pos (-1074)
  have least : (1 : ℚ) ≤ m := by exact_mod_cast positive
  have most : (m : ℚ) ≤ 9 := by exact_mod_cast small
  have bound := mul_le_mul_of_nonneg_right least u_pos.le
  have bound' := mul_le_mul_of_nonneg_right most u_pos.le
  obtain rfl : e = -323 := eq_of_ten_zpow_near (by linarith) (by linarith)
  refine ⟨?_, rfl⟩
  have high_m : (m : ℚ) < 3 := by
    refine lt_of_mul_lt_mul_right ?_ u_pos.le
    linarith
  have low_m : (1 : ℚ) < m := by
    refine lt_of_mul_lt_mul_right ?_ u_pos.le
    linarith
  have : m < 3 := by exact_mod_cast high_m
  have : 1 < m := by exact_mod_cast low_m
  omega

/-- No decimal with as many digits that rounds to the number is nearer to it. -/
theorem closest (positive : 0 < m) (finite : m < finiteCount) (h : IsShortest m r) {k : Nat}
    (le : 10 ^ k ≤ r.digits) {j : Nat} (few : j < 10 ^ (k + 1)) {e : Int}
    (rounds : RoundsTo m (j * 10 ^ e)) :
    |ladder m - r.digits * 10 ^ r.exponent| ≤ |ladder m - j * 10 ^ e| ∧
      (|ladder m - r.digits * 10 ^ r.exponent| = |ladder m - j * 10 ^ e| →
        (j : ℚ) * 10 ^ e = r.digits * 10 ^ r.exponent ∨ r.digits % 2 = 0) := by
  rcases lt_trichotomy e r.exponent with finer | rfl | coarser
  · -- a finer multiple is as long only next to the power of ten beside the second least number
    have below := finer_le few finer
    have unit : (0 : ℚ) < 10 ^ r.exponent := by positivity
    have power := h.roundsTo_power le rounds (by linarith)
    obtain rfl : k = 0 := by
      by_contra longer
      exact h.coarsest 1 _ (by omega) power
    rw [Nat.cast_zero, zero_add] at power
    have near := (h.nearest 1 power).1
    rw [Nat.cast_one, one_mul] at power near
    obtain ⟨rfl, at'⟩ := eq_two_of_power positive finite power rounds (by simpa using few) finer
    have two : ladder 2 = 2 * 2 ^ (-1074 : Int) := by
      simp [ladder, significandAt, powerAt, fractionCount]
    obtain ⟨low, high⟩ := least_bounds
    rw [at'] at near below ⊢
    rw [two] at near ⊢
    rw [abs_of_neg (show 2 * 2 ^ (-1074 : Int) - (10 : ℚ) ^ (-323 : Int) < 0 by linarith)] at near
    have far : 2 * 2 ^ (-1074 : Int) - (j : ℚ) * 10 ^ e ≤
        |2 * 2 ^ (-1074 : Int) - (j : ℚ) * 10 ^ e| := le_abs_self _
    rw [pow_zero] at below
    exact ⟨by linarith, fun same => by linarith⟩
  · obtain ⟨near, tie⟩ := h.nearest j rounds
    exact ⟨near, fun same => (tie same).imp_left fun hj => by rw [hj]⟩
  · exact absurd rounds (h.coarsest j e coarser)

end IsShortest

end FreeNames.Decimal
