import Mathlib.Algebra.Order.Ring.Abs
import Mathlib.Tactic.FieldSimp
import FreeNames.Proofs.Decimal.Value

/-!
# Rounding to magnitudes

The middles between neighbouring magnitudes cut the numbers without sign into those that round to
each of them; `Double.RoundsTo` says to which.  A tie belongs to the even magnitude.

* `Double.RoundsTo.unique`: a number rounds to one magnitude.
* `Double.roundsTo_block`: within a block it is the significand that is half a unit away at most.
* `Double.exists_ofRatio` and `Double.exists_ofDecimal`: quotients and decimals are rounded to the
  words of the magnitudes that they round to.
-/

namespace FreeNames.Double

/-! ## Cuts -/

/-- The middle between a magnitude and the next. -/
def middle (m : Nat) : ℚ := (ladder m + ladder (m + 1)) / 2

/-- Does the number round to the magnitude or below it? -/
def AtMost (m : Nat) (x : ℚ) : Prop := if m % 2 = 0 then x ≤ middle m else x < middle m

/-- A number without sign rounds to the magnitude. -/
structure RoundsTo (m : Nat) (x : ℚ) : Prop where
  le : m ≤ finiteCount
  above : ∀ k, k + 1 = m → ¬ AtMost k x
  below : m < finiteCount → AtMost m x

variable {m k : Nat} {x : ℚ}

theorem ladder_lt_middle (m : Nat) : ladder m < middle m := by
  have up : ladder m < ladder (m + 1) := ladder_strictMono (Nat.lt_succ_self m)
  unfold middle
  linarith

theorem middle_lt_ladder (m : Nat) : middle m < ladder (m + 1) := by
  have up : ladder m < ladder (m + 1) := ladder_strictMono (Nat.lt_succ_self m)
  unfold middle
  linarith

theorem middle_strictMono : StrictMono middle :=
  strictMono_nat_of_lt_succ fun m => (middle_lt_ladder m).trans (ladder_lt_middle (m + 1))

theorem atMost_of_even (even : m % 2 = 0) : AtMost m x ↔ x ≤ middle m := by
  rw [AtMost, if_pos even]

theorem atMost_of_odd (odd : m % 2 ≠ 0) : AtMost m x ↔ x < middle m := by
  rw [AtMost, if_neg odd]

theorem AtMost.le (h : AtMost m x) : x ≤ middle m := by
  unfold AtMost at h
  split at h
  · exact h
  · exact h.le

theorem atMost_of_lt (h : x < middle m) : AtMost m x := by
  unfold AtMost
  split
  · exact h.le
  · exact h

theorem AtMost.of_le {y : ℚ} (h : AtMost m y) (le : x ≤ y) : AtMost m x := by
  by_cases even : m % 2 = 0
  · rw [atMost_of_even even] at h ⊢
    exact le.trans h
  · rw [atMost_of_odd even] at h ⊢
    exact le.trans_lt h

theorem AtMost.mono (h : AtMost m x) (hk : m ≤ k) : AtMost k x := by
  rcases hk.eq_or_lt with rfl | hk
  · exact h
  · exact atMost_of_lt (h.le.trans_lt (middle_strictMono hk))

theorem le_of_not_atMost (h : ¬ AtMost m x) : middle m ≤ x := by
  by_contra below
  exact h (atMost_of_lt (not_le.mp below))

/-- A number rounds to one magnitude. -/
theorem RoundsTo.unique (hm : RoundsTo m x) (hk : RoundsTo k x) : m = k := by
  have key : ∀ {a b : Nat}, RoundsTo a x → RoundsTo b x → ¬ a < b := fun {a b} ha hb lt => by
    have cut := ha.below (lt.trans_le hb.le)
    obtain ⟨c, rfl⟩ : ∃ c, c + 1 = b := ⟨b - 1, by omega⟩
    exact hb.above c rfl (cut.mono (by omega))
  have left := key hm hk
  have right := key hk hm
  omega

/-! ## Cuts and distances -/

/-- No magnitude is nearer than the one that a number rounds to, and one that is as near leaves
it even. -/
theorem RoundsTo.nearest (h : RoundsTo m x) (finite : m < finiteCount) (k : Nat) :
    |x - ladder m| ≤ |x - ladder k| ∧ (|x - ladder m| = |x - ladder k| → k = m ∨ m % 2 = 0) := by
  rcases Nat.lt_trichotomy k m with lt | rfl | lt
  · obtain ⟨c, rfl⟩ : ∃ c, c + 1 = m := ⟨m - 1, by omega⟩
    have cut := h.above c rfl
    have half := le_of_not_atMost cut
    have low : ladder k ≤ ladder c := ladder_strictMono.monotone (by omega)
    have up : ladder c < ladder (c + 1) := ladder_strictMono (Nat.lt_succ_self c)
    have right : |x - ladder k| = x - ladder k := abs_of_nonneg (by unfold middle at half; linarith)
    rw [right]
    refine ⟨abs_le.mpr ⟨?_, by linarith⟩, fun same => .inr ?_⟩
    · unfold middle at half
      linarith
    · -- a tie stands at the middle below, which is cut off from an odd magnitude
      have at' : x ≤ middle c := by
        rcases abs_choice (x - ladder (c + 1)) with this | this <;> rw [this] at same <;>
          unfold middle <;> linarith
      by_contra odd
      exact cut ((atMost_of_even (by omega)).mpr at')
  · exact ⟨le_rfl, fun _ => .inl rfl⟩
  · have cut := h.below finite
    have half := cut.le
    have high : ladder (m + 1) ≤ ladder k := ladder_strictMono.monotone (by omega)
    have up : ladder m < ladder (m + 1) := ladder_strictMono (Nat.lt_succ_self m)
    have right : |x - ladder k| = ladder k - x := by
      rw [abs_of_nonpos (by unfold middle at half; linarith)]
      ring
    rw [right]
    refine ⟨abs_le.mpr ⟨by linarith, ?_⟩, fun same => .inr ?_⟩
    · unfold middle at half
      linarith
    · have at' : middle m ≤ x := by
        rcases abs_choice (x - ladder m) with this | this <;> rw [this] at same <;>
          unfold middle <;> linarith
      by_contra odd
      rw [atMost_of_odd odd] at cut
      linarith

/-! ## Cuts in a block -/

theorem block_mod_two (power : Int) (s : Nat) : block power s % 2 = s % 2 := by
  unfold block fractionCount
  omega

theorem powerAt_block {power : Int} {s : Nat} (low : -1074 ≤ power) (high : s < 2 * fractionCount)
    (normal : power = -1074 ∨ fractionCount ≤ s) : powerAt (block power s) = power := by
  unfold powerAt block fractionCount at *
  split <;> omega

theorem middle_eq (m : Nat) : middle m = ladder m + 2 ^ powerAt m / 2 := by
  rw [middle, ladder_succ]
  ring

/-- The middle above a significand of a block is half a unit away, or further where the next block
begins. -/
theorem le_middle_block {power : Int} {s : Nat} (low : -1074 ≤ power) (high : s ≤ 2 * fractionCount)
    (normal : power = -1074 ∨ fractionCount ≤ s) :
    (s + 1 / 2) * 2 ^ power ≤ middle (block power s) := by
  have grows : power ≤ powerAt (block power s) := by
    unfold powerAt block fractionCount at *
    split <;> omega
  have unit : (2 : ℚ) ^ power ≤ 2 ^ powerAt (block power s) :=
    zpow_le_zpow_right₀ (by norm_num) grows
  rw [middle_eq, ladder_block low high normal]
  linarith

/-- What lies within half a unit of a significand of a block rounds to it. -/
theorem roundsTo_block {power : Int} {s : Nat} (low : -1074 ≤ power) (small : power ≤ 971)
    (high : s ≤ 2 * fractionCount) (full : power = -1074 ∨ fractionCount ≤ s)
    (normal : power = -1074 ∨ fractionCount * 2 ^ power ≤ x)
    (upper : if s % 2 = 0 then x ≤ (s + 1 / 2) * 2 ^ power else x < (s + 1 / 2) * 2 ^ power)
    (lower : if s % 2 = 0 then (s - 1 / 2) * 2 ^ power ≤ x else (s - 1 / 2) * 2 ^ power < x) :
    RoundsTo (block power s) x := by
  have unit := two_zpow_pos power
  refine ⟨?_, fun k hk cut => ?_, fun _ => ?_⟩
  · unfold block finiteCount fractionCount at *
    omega
  · by_cases first : power ≠ -1074 ∧ s = fractionCount
    · -- the first of a block: the middle below is a quarter of a unit away
      have : middle k < s * 2 ^ power := by
        rw [← ladder_block low high full, ← hk]
        exact middle_lt_ladder k
      have := cut.le
      have := normal.resolve_left first.1
      rw [← first.2] at this
      linarith
    · have before : k = block power (s - 1) := by
        unfold block fractionCount at *
        omega
      have positive : 0 < s := by
        unfold block fractionCount at *
        omega
      have at' : middle k = (s - 1 / 2) * 2 ^ power := by
        have full' : power = -1074 ∨ fractionCount ≤ s - 1 := by omega
        rw [middle_eq, before, ladder_block low (by omega) full',
          powerAt_block low (by omega) full', Nat.cast_sub positive]
        push_cast
        ring
      have parity : k % 2 ≠ s % 2 := by
        rw [← block_mod_two power s]
        omega
      unfold AtMost at cut
      rw [at'] at cut
      split at cut <;> split at lower
      · omega
      · linarith
      · linarith
      · omega
  · have up := le_middle_block low high full
    unfold AtMost
    rw [block_mod_two]
    split at upper <;> rename_i parity
    · rw [if_pos parity]
      linarith
    · rw [if_neg parity]
      linarith

/-! ## Quotients -/

/-- The rounded quotient is half a unit away at most, and less if it is odd. -/
theorem roundDiv_near (n : Nat) {d : Nat} (hd : 0 < d) :
    (if roundDiv n d % 2 = 0 then (n : ℚ) / d ≤ roundDiv n d + 1 / 2
      else (n : ℚ) / d < roundDiv n d + 1 / 2) ∧
    (if roundDiv n d % 2 = 0 then (roundDiv n d : ℚ) - 1 / 2 ≤ n / d
      else (roundDiv n d : ℚ) - 1 / 2 < n / d) := by
  have positive : (0 : ℚ) < d := by exact_mod_cast hd
  obtain ⟨q, hq⟩ : ∃ q, q = n / d := ⟨_, rfl⟩
  obtain ⟨r, hr⟩ : ∃ r, r = n % d := ⟨_, rfl⟩
  have small : r < d := hr ▸ Nat.mod_lt n hd
  have split : (n : ℚ) / d = q + r / d := by
    have : (n : ℚ) = d * q + r := by
      rw [hq, hr]
      exact_mod_cast (Nat.div_add_mod n d).symm
    rw [this]
    field_simp
  have part : (0 : ℚ) ≤ r / d := by positivity
  have part_lt : (r : ℚ) / d < 1 := (div_lt_one positive).mpr (by exact_mod_cast small)
  have unfolded : roundDiv n d = if 2 * r < d || (2 * r = d && q % 2 = 0) then q else q + 1 := by
    rw [hq, hr]
    rfl
  rw [split, unfolded]
  rcases Nat.lt_trichotomy (2 * r) d with lt | eq | lt
  · have half : (r : ℚ) / d < 1 / 2 := by
      rw [div_lt_iff₀ positive]
      have : (2 * r : ℚ) < d := by exact_mod_cast lt
      linarith
    simp only [lt, decide_true, Bool.true_or, if_true]
    constructor <;> split <;> linarith
  · have half : (r : ℚ) / d = 1 / 2 := by
      rw [div_eq_iff positive.ne']
      have : (2 * r : ℚ) = d := by exact_mod_cast eq
      linarith
    by_cases even : q % 2 = 0
    · simp only [eq, even, decide_true, Bool.and_self, Bool.or_true, if_true]
      constructor <;> linarith
    · have even' : (q + 1) % 2 = 0 := by omega
      simp only [eq, even, lt_irrefl, decide_false, Bool.and_false, Bool.or_self, even', if_true,
        Bool.false_eq_true, if_false]
      push_cast
      constructor <;> linarith
  · have half : 1 / 2 < (r : ℚ) / d := by
      rw [lt_div_iff₀ positive]
      have : (d : ℚ) < 2 * r := by exact_mod_cast lt
      linarith
    simp only [show ¬ 2 * r < d by omega, show ¬ 2 * r = d by omega, decide_false, Bool.false_and,
      Bool.or_self, Bool.false_eq_true, if_false]
    push_cast
    constructor <;> split <;> linarith

theorem pow_toNat {b : Nat} (hb : b ≠ 0) (e : Int) : ((Nat.pow b e.toNat : Nat) : ℚ) =
    b ^ e * (Nat.pow b (-e).toNat : Nat) := by
  have hb' : (b : ℚ) ≠ 0 := by exact_mod_cast hb
  obtain ⟨n, rfl | rfl⟩ := e.eq_nat_or_neg
  · simp
  · simp [hb']

theorem two_pow_toNat (e : Int) : ((Nat.pow 2 e.toNat : Nat) : ℚ) =
    2 ^ e * (Nat.pow 2 (-e).toNat : Nat) := pow_toNat two_ne_zero e

theorem ten_pow_toNat (e : Int) : ((Nat.pow 10 e.toNat : Nat) : ℚ) =
    10 ^ e * (Nat.pow 10 (-e).toNat : Nat) := pow_toNat (by omega) e

theorem fractionCount_pos : (0 : ℚ) < fractionCount := by norm_num [fractionCount]

/-- The numbers of bits of two numbers give the bits of their quotient, up to one. -/
theorem quotient_bounds {n d : Nat} (hn : n ≠ 0) (hd : d ≠ 0) {g : Int}
    (hg : g = (n.log2 : Int) - d.log2 - 52) :
    fractionCount * 2 ^ (g - 1) < (n : ℚ) / d ∧ (n : ℚ) / d < 2 * fractionCount * 2 ^ g := by
  have positive : (0 : ℚ) < d := by exact_mod_cast Nat.pos_of_ne_zero hd
  have n_low : (2 : ℚ) ^ (n.log2 : Int) ≤ n := by exact_mod_cast Nat.log2_self_le hn
  have n_high : (n : ℚ) < 2 ^ (n.log2 + 1 : Int) := by exact_mod_cast Nat.lt_log2_self
  have d_low : (2 : ℚ) ^ (d.log2 : Int) ≤ d := by exact_mod_cast Nat.log2_self_le hd
  have d_high : (d : ℚ) < 2 ^ (d.log2 + 1 : Int) := by exact_mod_cast Nat.lt_log2_self
  constructor
  · rw [lt_div_iff₀ positive]
    calc (fractionCount * 2 ^ (g - 1) * d : ℚ)
      _ < fractionCount * 2 ^ (g - 1) * 2 ^ (d.log2 + 1 : Int) := by
        have := fractionCount_pos
        gcongr
      _ = 2 ^ (n.log2 : Int) := by
        rw [fractionCount_eq, ← zpow_add₀ two_ne_zero, ← zpow_add₀ two_ne_zero, hg]
        congr 1
        omega
      _ ≤ n := n_low
  · rw [div_lt_iff₀ positive]
    calc (n : ℚ) < 2 ^ (n.log2 + 1 : Int) := n_high
      _ = 2 * fractionCount * 2 ^ g * 2 ^ (d.log2 : Int) := by
        rw [fractionCount_eq, ← two_zpow_succ, ← zpow_add₀ two_ne_zero, ← zpow_add₀ two_ne_zero, hg]
        congr 1
        omega
      _ ≤ 2 * fractionCount * 2 ^ g * d := by gcongr

theorem fits_iff (n : Nat) {d : Nat} (hd : d ≠ 0) (g : Int) :
    fractionCount * d * (twoPower g).1 ≤ n * (twoPower g).2 ↔
      fractionCount * 2 ^ g ≤ (n : ℚ) / d := by
  have positive : (0 : ℚ) < d := by exact_mod_cast Nat.pos_of_ne_zero hd
  have down : (0 : ℚ) < (twoPower g).2 := by exact_mod_cast Nat.pow_pos (by omega)
  have up : ((twoPower g).1 : ℚ) = 2 ^ g * (twoPower g).2 := two_pow_toNat g
  have product : (fractionCount * d * (2 ^ g * (twoPower g).2) : ℚ) =
      fractionCount * 2 ^ g * d * (twoPower g).2 := by ring
  rw [le_div_iff₀ positive, ← Nat.cast_le (α := ℚ)]
  push_cast
  rw [up, product, mul_le_mul_iff_of_pos_right down]

/-- Fifty-three bits of a quotient stand before the end of its last place, and fewer only where the
last place is the least one. -/
theorem lastBit_spec {n d : Nat} (hn : n ≠ 0) (hd : d ≠ 0) :
    -1074 ≤ lastBit n d ∧
      (lastBit n d = -1074 ∨ fractionCount * 2 ^ lastBit n d ≤ (n : ℚ) / d) ∧
      (n : ℚ) / d < 2 * fractionCount * 2 ^ lastBit n d := by
  obtain ⟨g, hg⟩ : ∃ g : Int, g = (n.log2 : Int) - d.log2 - 52 := ⟨_, rfl⟩
  obtain ⟨low, high⟩ := quotient_bounds hn hd hg
  have fits := fits_iff n hd g
  have unfolded : lastBit n d = max (-1074)
      (if fractionCount * d * (twoPower g).1 ≤ n * (twoPower g).2 then g else g - 1) := by
    rw [hg]
    rfl
  rw [unfolded]
  obtain ⟨p, hp, p_low, p_high⟩ : ∃ p : Int,
      p = (if fractionCount * d * (twoPower g).1 ≤ n * (twoPower g).2 then g else g - 1) ∧
        fractionCount * 2 ^ p ≤ (n : ℚ) / d ∧ (n : ℚ) / d < 2 * fractionCount * 2 ^ p := by
    by_cases h : fractionCount * d * (twoPower g).1 ≤ n * (twoPower g).2
    · exact ⟨g, by rw [if_pos h], fits.mp h, high⟩
    · refine ⟨g - 1, by rw [if_neg h], low.le, ?_⟩
      have below := not_le.mp (mt fits.mpr h)
      have double : (2 : ℚ) ^ g = 2 * 2 ^ (g - 1) := by
        rw [← two_zpow_succ, sub_add_cancel]
      rw [double] at below
      linarith
  rw [← hp]
  refine ⟨le_max_left .., ?_, p_high.trans_le ?_⟩
  · rcases max_choice (-1074) p with this | this <;> rw [this]
    · exact .inl rfl
    · exact .inr p_low
  · have := zpow_le_zpow_right₀ (one_le_two (α := ℚ)) (le_max_right (-1074) p)
    gcongr

theorem roundsTo_zero : RoundsTo 0 0 where
  le := Nat.zero_le _
  above k hk := by omega
  below _ := by
    have := ladder_lt_middle 0
    rw [ladder_zero] at this
    exact atMost_of_lt this

/-- What is at the last power of two or above it rounds to no finite number. -/
theorem roundsTo_finiteCount (h : ladder finiteCount ≤ x) : RoundsTo finiteCount x where
  le := le_rfl
  above k hk cut := by
    have := middle_lt_ladder k
    rw [hk] at this
    linarith [cut.le]
  below h := absurd h (lt_irrefl _)

theorem encode_eq {power : Int} {s : Nat} (low : -1074 ≤ power) (small : power ≤ 971)
    (high : s ≤ 2 * fractionCount) (normal : power = -1074 ∨ fractionCount ≤ s) (negative : Bool) :
    encode negative s power = word negative (block power s) := by
  have same : (if s < fractionCount then s
      else (power + 1075).toNat * fractionCount + (s - fractionCount)) = block power s := by
    unfold block fractionCount at *
    split <;> omega
  have le : block power s ≤ 2047 * fractionCount := by
    unfold block fractionCount at *
    omega
  simp only [encode, same, word, Nat.min_eq_left le]

/-- Dividing by a power of two as a fraction of natural numbers. -/
theorem cast_scaled_div (n : Nat) {d : Nat} (hd : d ≠ 0) (p : Int) :
    ((n * (twoPower p).2 : Nat) : ℚ) / (d * (twoPower p).1 : Nat) = n / d / 2 ^ p := by
  have up : ((twoPower p).1 : ℚ) = 2 ^ p * (twoPower p).2 := two_pow_toNat p
  have hd' : (d : ℚ) ≠ 0 := by exact_mod_cast hd
  have down : ((twoPower p).2 : ℚ) ≠ 0 := by
    exact_mod_cast (show 0 < (twoPower p).2 from Nat.pow_pos (by omega)).ne'
  push_cast
  rw [up]
  field_simp

/-- A quotient between the ends of a block is rounded to a significand of the block. -/
theorem exists_significand (n : Nat) {d : Nat} (hd : d ≠ 0) {p : Int} (low : -1074 ≤ p)
    (small : p ≤ 971) (normal : p = -1074 ∨ fractionCount * 2 ^ p ≤ (n : ℚ) / d)
    (high : (n : ℚ) / d < 2 * fractionCount * 2 ^ p) :
    ∃ s, s = roundDiv (n * (twoPower p).2) (d * (twoPower p).1) ∧ s ≤ 2 * fractionCount ∧
      (p = -1074 ∨ fractionCount ≤ s) ∧ RoundsTo (block p s) (n / d) := by
  have unit := two_zpow_pos p
  have up_pos : 0 < (twoPower p).1 := Nat.pow_pos (by omega)
  obtain ⟨s, hs⟩ : ∃ s, s = roundDiv (n * (twoPower p).2) (d * (twoPower p).1) := ⟨_, rfl⟩
  obtain ⟨upper, lower⟩ := roundDiv_near (n * (twoPower p).2)
    (Nat.mul_pos (Nat.pos_of_ne_zero hd) up_pos)
  rw [cast_scaled_div n hd, ← hs] at upper lower
  simp only [div_le_iff₀ unit, div_lt_iff₀ unit] at upper
  simp only [le_div_iff₀ unit, lt_div_iff₀ unit] at lower
  have s_high : s ≤ 2 * fractionCount := by
    have : (s - 1 / 2 : ℚ) * 2 ^ p < 2 * fractionCount * 2 ^ p := by
      split at lower <;> linarith
    have := lt_of_mul_lt_mul_right this unit.le
    have : (s : ℚ) < 2 * fractionCount + 1 := by linarith
    exact Nat.lt_succ_iff.mp (by exact_mod_cast this)
  have s_normal : p = -1074 ∨ fractionCount ≤ s := normal.imp_right fun h => by
    have : (fractionCount : ℚ) * 2 ^ p ≤ (s + 1 / 2) * 2 ^ p := by
      split at upper <;> linarith
    have := le_of_mul_le_mul_right this unit
    have : (fractionCount : ℚ) < s + 1 := by linarith
    exact Nat.lt_succ_iff.mp (by exact_mod_cast this)
  exact ⟨s, hs, s_high, s_normal, roundsTo_block low small s_high s_normal normal upper lower⟩

/-- A quotient is rounded to the word of the magnitude that it rounds to. -/
theorem exists_ofRatio (negative : Bool) (n : Nat) {d : Nat} (hd : d ≠ 0) :
    ∃ m, ofRatio negative n d = word negative m ∧ RoundsTo m (n / d) := by
  by_cases hn : n = 0
  · rw [hn, Nat.cast_zero, zero_div]
    exact ⟨0, by simp [ofRatio, zero, word], roundsTo_zero⟩
  obtain ⟨low, normal, high⟩ := lastBit_spec hn hd
  obtain ⟨p, hp⟩ : ∃ p, p = lastBit n d := ⟨_, rfl⟩
  have unfolded : ofRatio negative n d = if p > 971 then infinity negative
      else encode negative (roundDiv (n * (twoPower p).2) (d * (twoPower p).1)) p := by
    rw [hp, ofRatio, if_neg hn]
  rw [← hp] at low normal high
  rw [unfolded]
  by_cases large : p > 971
  · rw [if_pos large]
    refine ⟨finiteCount, rfl, roundsTo_finiteCount ?_⟩
    have grows : (2 : ℚ) ^ (972 : Int) ≤ 2 ^ p := zpow_le_zpow_right₀ one_le_two (by omega)
    have := normal.resolve_left (by omega)
    have sum : (1024 : Int) = 52 + 972 := by omega
    rw [ladder_finiteCount, sum, zpow_add₀ two_ne_zero, ← fractionCount_eq]
    have := mul_le_mul_of_nonneg_left grows fractionCount_pos.le
    linarith
  · rw [if_neg large]
    have small : p ≤ 971 := by omega
    obtain ⟨s, hs, s_high, s_normal, rounds⟩ := exists_significand n hd low small normal high
    rw [← hs]
    exact ⟨block p s, encode_eq low small s_high s_normal negative, rounds⟩

/-! ## Decimals -/

/-- What is below half the least number rounds to zero. -/
theorem roundsTo_zero_of_lt (h : x < 2 ^ (-1075 : Int)) : RoundsTo 0 x where
  le := Nat.zero_le _
  above k hk := by omega
  below _ := by
    have least : powerAt 0 = -1075 + 1 := by simp [powerAt, fractionCount]
    refine atMost_of_lt (h.trans_le ?_)
    rw [middle_eq, ladder_zero, least, two_zpow_succ]
    linarith

/-- A power of ten is more than the third power of two with its exponent. -/
theorem two_zpow_le_ten_zpow {e : Int} (h : 0 ≤ e) : (2 : ℚ) ^ (3 * e) ≤ 10 ^ e := by
  rw [zpow_mul]
  exact zpow_le_zpow_left₀ h (by norm_num) (by norm_num)

theorem ten_zpow_toNat {e : Int} (h : 0 ≤ e) : ((Nat.pow 10 e.toNat : Nat) : ℚ) = 10 ^ e := by
  obtain ⟨n, rfl⟩ := Int.eq_ofNat_of_zero_le h
  simp

/-- A decimal is rounded to the word of the magnitude that it rounds to. -/
theorem exists_ofDecimal (negative : Bool) (digits : Nat) (exponent : Int) :
    ∃ m, ofDecimal negative digits exponent = word negative m ∧
      RoundsTo m (digits * 10 ^ exponent) := by
  by_cases hz : digits = 0
  · rw [hz, Nat.cast_zero, zero_mul]
    exact ⟨0, by simp [ofDecimal, zero, word], roundsTo_zero⟩
  have one_le : (1 : ℚ) ≤ digits := by exact_mod_cast Nat.pos_of_ne_zero hz
  rw [ofDecimal, if_neg hz]
  by_cases large : exponent > 400
  · rw [if_pos large]
    refine ⟨finiteCount, rfl, roundsTo_finiteCount ?_⟩
    rw [ladder_finiteCount]
    calc (2 : ℚ) ^ (1024 : Int) ≤ 2 ^ (3 * exponent) :=
          zpow_le_zpow_right₀ one_le_two (by omega)
      _ ≤ 10 ^ exponent := two_zpow_le_ten_zpow (by omega)
      _ ≤ digits * 10 ^ exponent := le_mul_of_one_le_left (by positivity) one_le
  rw [if_neg large]
  by_cases tiny : exponent + ((digits.log2 + 1 : Nat) : Int) < -400
  · simp only [if_pos tiny]
    refine ⟨0, by simp [zero, word], roundsTo_zero_of_lt ?_⟩
    have bound : (digits : ℚ) < 10 ^ ((digits.log2 + 1 : Nat) : Int) := by
      have : digits < 10 ^ (digits.log2 + 1) :=
        Nat.lt_log2_self.trans_le (Nat.pow_le_pow_left (by omega) _)
      exact_mod_cast this
    have ten : (0 : ℚ) < 10 ^ exponent := by positivity
    calc (digits : ℚ) * 10 ^ exponent
        < 10 ^ ((digits.log2 + 1 : Nat) : Int) * 10 ^ exponent := by gcongr
      _ = 10 ^ (((digits.log2 + 1 : Nat) : Int) + exponent) := (zpow_add₀ (by norm_num) _ _).symm
      _ ≤ 10 ^ (-401 : Int) := zpow_le_zpow_right₀ (by norm_num) (by omega)
      _ ≤ 2 ^ (-(3 * 401) : Int) := by
        rw [zpow_neg, zpow_neg]
        gcongr
        exact two_zpow_le_ten_zpow (by omega)
      _ ≤ 2 ^ (-1075 : Int) := zpow_le_zpow_right₀ one_le_two (by omega)
  simp only [if_neg tiny]
  by_cases sign : exponent < 0
  · rw [if_pos sign]
    obtain ⟨m, same, rounds⟩ := exists_ofRatio negative digits
      (d := Nat.pow 10 (-exponent).toNat) (Nat.pow_pos (by omega)).ne'
    rw [ten_zpow_toNat (by omega), zpow_neg, div_inv_eq_mul] at rounds
    exact ⟨m, same, rounds⟩
  · rw [if_neg sign]
    obtain ⟨m, same, rounds⟩ := exists_ofRatio negative (digits * Nat.pow 10 exponent.toNat)
      (d := 1) one_ne_zero
    rw [Nat.cast_mul, ten_zpow_toNat (by omega), Nat.cast_one, div_one] at rounds
    exact ⟨m, same, rounds⟩

end FreeNames.Double
