import Mathlib.Algebra.Order.Field.Power
import Mathlib.Data.Rat.Cast.Order
import Mathlib.Tactic.GCongr
import Mathlib.Tactic.Linarith
import Mathlib.Tactic.NormNum
import Mathlib.Tactic.Positivity
import Mathlib.Tactic.Ring
import FreeNames.Decimal.Double

/-!
# The numbers that words denote

A word is a sign and a magnitude, and the magnitudes below `Double.finiteCount` denote the finite
numbers in their order: `Double.ladder` is the number of a magnitude, and goes on beyond the finite
ones with the next power of two.

* `Double.view_eq` reads a word by its magnitude.
* `Double.ladder_succ`: one magnitude up is one unit of the last place up, so the ladder is strictly
  increasing (`Double.ladder_strictMono`).
* `Double.ladder_block`: magnitudes with one exponent are the significands with one power of two.
-/

namespace FreeNames.Double

/-! ## Words -/

/-- The word without its sign. -/
def magnitude (d : Double) : Nat := d.bits.toNat % magnitudeCount

/-- From this magnitude on a word denotes no finite number. -/
def finiteCount : Nat := 2047 * fractionCount

/-- The word with a sign and a magnitude. -/
def word (negative : Bool) (m : Nat) : Double := ⟨.ofNat (signBit negative + m)⟩

variable {d : Double} {negative : Bool} {m : Nat}

theorem toNat_word (h : m < magnitudeCount) :
    (word negative m).bits.toNat = signBit negative + m := by
  have small : signBit negative + m < 2 ^ 64 := by
    unfold signBit magnitudeCount exponentCount fractionCount at *
    split <;> omega
  exact UInt64.toNat_ofNat_of_lt small

theorem magnitude_word (h : m < magnitudeCount) : (word negative m).magnitude = m := by
  rw [magnitude, toNat_word h]
  unfold signBit magnitudeCount exponentCount fractionCount at *
  split <;> omega

theorem negative_word (h : m < magnitudeCount) : (word negative m).negative = negative := by
  rw [Double.negative, toNat_word h]
  unfold signBit magnitudeCount exponentCount fractionCount at *
  cases negative <;> simp <;> omega

/-- A word is its sign and its magnitude. -/
theorem word_negative_magnitude (d : Double) : word d.negative d.magnitude = d := by
  have lt : d.bits.toNat < 2 ^ 64 := d.bits.toNat_lt
  have sum : signBit d.negative + d.magnitude = d.bits.toNat := by
    unfold signBit Double.negative magnitude magnitudeCount exponentCount fractionCount
    split <;> simp_all <;> omega
  rw [word, sum, UInt64.ofNat_toNat]

theorem magnitude_lt (d : Double) : d.magnitude < magnitudeCount :=
  Nat.mod_lt _ (by unfold magnitudeCount exponentCount fractionCount; omega)

theorem finiteCount_lt : finiteCount < magnitudeCount := by
  unfold finiteCount magnitudeCount exponentCount fractionCount
  omega

theorem ext_magnitude {d e : Double} (sign : d.negative = e.negative)
    (same : d.magnitude = e.magnitude) : d = e := by
  rw [← word_negative_magnitude d, ← word_negative_magnitude e, sign, same]

/-! ## Significands and powers -/

/-- The significand of a magnitude. -/
def significandAt (m : Nat) : Nat :=
  if m < fractionCount then m else m % fractionCount + fractionCount

/-- The power of two of the last place of a magnitude. -/
def powerAt (m : Nat) : Int := if m < fractionCount then -1074 else (m / fractionCount : Nat) - 1075

/-- What a word denotes, by its magnitude. -/
theorem view_eq (d : Double) : d.view =
    if d.magnitude < finiteCount then
      .finite d.negative (significandAt d.magnitude) (powerAt d.magnitude)
    else if d.magnitude = finiteCount then .infinite d.negative else .notANumber := by
  have exponent : d.bits.toNat / fractionCount % exponentCount = d.magnitude / fractionCount := by
    unfold magnitude magnitudeCount exponentCount fractionCount
    omega
  have fraction : d.bits.toNat % fractionCount = d.magnitude % fractionCount := by
    unfold magnitude magnitudeCount exponentCount fractionCount
    omega
  have lt := d.magnitude_lt
  unfold view significandAt powerAt
  simp only [exponent, fraction]
  generalize d.magnitude = m at *
  unfold finiteCount magnitudeCount exponentCount fractionCount at *
  by_cases subnormal : m < 0x10000000000000
  · rw [if_neg (by omega), if_pos (by omega), if_pos (by omega), if_pos subnormal, if_pos subnormal,
      Nat.mod_eq_of_lt subnormal]
  by_cases finite : m < 2047 * 0x10000000000000
  · rw [if_neg (by omega), if_neg (by omega), if_pos finite, if_neg subnormal, if_neg subnormal]
  · rw [if_pos (by omega), if_neg finite]
    by_cases infinite : m = 2047 * 0x10000000000000
    · rw [if_pos (by omega), if_pos infinite]
    · rw [if_neg (by omega), if_neg infinite]

/-- Magnitudes are even and odd as their significands are. -/
theorem significandAt_mod_two (m : Nat) : significandAt m % 2 = m % 2 := by
  unfold significandAt fractionCount
  split <;> omega

theorem significandAt_le (m : Nat) : significandAt m < 2 * fractionCount := by
  unfold significandAt fractionCount
  split <;> omega

theorem neg_1074_le_powerAt (m : Nat) : -1074 ≤ powerAt m := by
  unfold powerAt fractionCount
  split <;> omega

/-- Below a normal significand stands the least power. -/
theorem significandAt_normal (m : Nat) :
    powerAt m = -1074 ∨ fractionCount ≤ significandAt m := by
  unfold powerAt significandAt
  split
  · exact .inl rfl
  · exact .inr (Nat.le_add_left ..)

/-- The magnitudes of one power, and the first of the next. -/
def block (power : Int) (significand : Nat) : Nat :=
  (power + 1074).toNat * fractionCount + significand

/-- A magnitude is its significand in the block of its power. -/
theorem block_powerAt (m : Nat) : block (powerAt m) (significandAt m) = m := by
  unfold block powerAt significandAt fractionCount
  split <;> omega

/-! ## The ladder -/

/-- The number of a magnitude. -/
def ladder (m : Nat) : ℚ := significandAt m * 2 ^ powerAt m

theorem two_zpow_pos (p : Int) : (0 : ℚ) < 2 ^ p := by positivity

theorem two_zpow_succ (p : Int) : (2 : ℚ) ^ (p + 1) = 2 * 2 ^ p := by
  rw [zpow_add_one₀ (by norm_num), mul_comm]

theorem fractionCount_eq : (fractionCount : ℚ) = 2 ^ (52 : Int) := by
  norm_num [fractionCount]

/-- A significand of a block denotes that many units of its power. -/
theorem ladder_block {power : Int} {significand : Nat} (low : -1074 ≤ power)
    (high : significand ≤ 2 * fractionCount)
    (normal : power = -1074 ∨ fractionCount ≤ significand) :
    ladder (block power significand) = significand * 2 ^ power := by
  rcases high.eq_or_lt with rfl | high
  · -- the first of the next block
    have s : significandAt (block power (2 * fractionCount)) = fractionCount := by
      unfold significandAt block fractionCount
      split <;> omega
    have p : powerAt (block power (2 * fractionCount)) = power + 1 := by
      unfold powerAt block fractionCount
      split <;> omega
    rw [ladder, s, p, two_zpow_succ]
    push_cast
    ring
  · have s : significandAt (block power significand) = significand := by
      unfold significandAt block fractionCount at *
      split <;> omega
    have p : powerAt (block power significand) = power := by
      unfold powerAt block fractionCount at *
      split <;> omega
    rw [ladder, s, p]

@[simp] theorem ladder_zero : ladder 0 = 0 := by
  simp [ladder, significandAt, fractionCount]

/-- One magnitude up is one unit of the last place up. -/
theorem ladder_succ (m : Nat) : ladder (m + 1) = ladder m + 2 ^ powerAt m := by
  have here := significandAt_le m
  have next : m + 1 = block (powerAt m) (significandAt m + 1) := by
    unfold block
    rw [← Nat.add_assoc]
    exact congrArg (· + 1) (block_powerAt m).symm
  rw [next, ladder_block (neg_1074_le_powerAt m) (by omega)
    ((significandAt_normal m).imp_right fun h => by omega), ladder]
  push_cast
  ring

theorem ladder_strictMono : StrictMono ladder :=
  strictMono_nat_of_lt_succ fun m => by
    rw [ladder_succ]
    linarith [two_zpow_pos (powerAt m)]

theorem ladder_nonneg (m : Nat) : 0 ≤ ladder m := by
  rw [← ladder_zero]
  exact ladder_strictMono.monotone (Nat.zero_le m)

/-- Where the finite numbers end, the ladder goes on with a power of two. -/
theorem ladder_finiteCount : ladder finiteCount = 2 ^ (1024 : Int) := by
  have at' : finiteCount = block 971 (2 * fractionCount) := by
    unfold finiteCount block fractionCount
    omega
  have sum : (1024 : Int) = 52 + 1 + 971 := by omega
  rw [at', ladder_block (by norm_num) le_rfl (.inr (by omega)), sum, zpow_add₀ (by norm_num),
    two_zpow_succ, ← fractionCount_eq, Nat.cast_mul, Nat.cast_ofNat]

/-- The number that a word denotes, if it is finite. -/
def value? (d : Double) : Option ℚ :=
  match d.view with
  | .finite negative significand power =>
    some ((if negative then -1 else 1) * (significand * 2 ^ power))
  | _ => none

/-- A finite word denotes the number of its magnitude, with its sign. -/
theorem value?_eq (d : Double) : d.value? =
    if d.magnitude < finiteCount then some ((if d.negative then -1 else 1) * ladder d.magnitude)
    else none := by
  rw [value?, view_eq]
  by_cases finite : d.magnitude < finiteCount
  · rw [if_pos finite, if_pos finite]
    rfl
  · rw [if_neg finite, if_neg finite]
    split_ifs <;> rfl

end FreeNames.Double
