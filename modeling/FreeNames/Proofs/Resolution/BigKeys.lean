import Mathlib
import FreeNames.Conversion.Table
import FreeNames.Resolution.Path
import FreeNames.Proofs.Literal.Numbers

/-!
# Big integers as keys

A member access may read a big integer, as in `a[0xFFn]`, and its key is then the decimal numeral of
the integer, with all of its digits.  Numerals have a longest length, which bounds both reading and
writing, and the integers behind it have no such key.

* `Decimal.numberKey_natCast` says which integers can be written.
* `PlainDigits.lt_length_iff`: a decimal literal is too long to be read if its value is too large to
  be written; `numeralOfDouble_ofDecimal` is what is written in its place.
* `NumericLiteral.exists_bigKey` puts reading and writing together, and
  `NumericLiteral.staticKey_of_isBig` is about the access.
-/

namespace FreeNames

open Literal Decimal

/-! ## Writing -/

theorem Decimal.numberKey_natCast (v : Nat) : numberKey true (.whole v) =
    if v < 10 ^ longestNumeral then .ok (Text.ofNat v) else .error .keyTooLong := by
  have text : Text.ofInt v = Text.ofNat v := rfl
  rw [numberKey, if_pos rfl, numeralOfInt, Int.natAbs_natCast, Nat.pow_eq, text]

/-- The largest double is far smaller than the integers that are too long. -/
theorem Double.overflow_le : overflow ≤ 10 ^ longestNumeral := by
  have gap : (0 : ℚ) < 2 ^ (970 : Int) := two_zpow_pos _
  calc overflow ≤ 2 ^ (1024 : Int) := sub_le_self _ gap.le
    _ = 2 ^ 1024 := zpow_natCast 2 1024
    _ ≤ 10 ^ 1024 := pow_le_pow_left₀ (by norm_num) (by norm_num) _
    _ ≤ 10 ^ longestNumeral := pow_le_pow_right₀ (by norm_num) (by decide)

/-- Rounded to a double, an integer that is too long is infinite. -/
theorem Decimal.numeralOfDouble_ofDecimal {v : Nat} (long : 10 ^ longestNumeral ≤ v) :
    numeralOfDouble (Double.ofDecimal false v 0) = "inf" := by
  have nearest := Double.isNearest_ofDecimal v 0
  rw [zpow_zero, mul_one] at nearest
  have large : Double.overflow ≤ |(v : ℚ)| := by
    rw [Nat.abs_cast]
    exact Double.overflow_le.trans (by exact_mod_cast long)
  have positive : (Double.ofDecimal false v 0).negative = false := by
    rw [nearest.sign, decide_eq_false_iff_not, not_lt]
    exact Nat.cast_nonneg v
  rw [numeralOfDouble, nearest.infinite large, positive]
  rfl

/-! ## Reading -/

/-- A decimal literal has more than so many digits exactly if its value does not fit into them. -/
theorem PlainDigits.lt_length_iff (p : PlainDigits) {k : Nat} (hk : 0 < k) :
    k < p.points.length ↔ 10 ^ k ≤ valueOf 10 p.points := by
  constructor
  · intro long
    have lead : p.points.head? ≠ some 0x30 := by
      cases p with
      | zero => simp [points] at long; omega
      | one first nonzero => simpa [points] using nonzero
      | more first nonzero _ _ => simpa [points] using nonzero
    obtain ⟨c, cs, same⟩ := List.exists_cons_of_ne_nil p.points_ne_nil
    have digits : ∀ d ∈ c :: cs, isDigitOf 10 d = true := fun d hd =>
      p.isDigitOf_of_mem (same ▸ hd)
    rw [same] at long lead ⊢
    have within : k ≤ cs.length := Nat.le_of_lt_succ long
    exact (Nat.pow_le_pow_right (by omega) within).trans
      (pow_le_valueOf digits fun zero => lead (congrArg some zero))
  · intro large
    have small := valueOf_lt_pow fun d hd => p.isDigitOf_of_mem (c := d) hd
    exact (Nat.pow_lt_pow_iff_right (by omega)).mp (large.trans_lt small)

namespace NumericLiteral

variable {l : NumericLiteral}

/-- A big integer ends with its suffix. -/
theorem endsWith_of_isBig (h : l.isBig = true) : Text.endsWith ⟨l.written⟩ 0x6E = true := by
  obtain ⟨body, same, -⟩ := l.reduces
  rw [same, h]
  simp [Text.endsWith, suffix]

/-- What a big integer is read as, and which key this is written as. -/
theorem exists_bigKey (h : l.isBig = true) :
    ∃ v r, l.whole? = some v ∧ readNumber ⟨l.written⟩ = .ok (some r) ∧
      (v < 10 ^ longestNumeral → numberKey true r = .ok (Text.ofNat v)) ∧
      (10 ^ longestNumeral ≤ v →
        numberKey true r = if l.isLong then .ok "inf" else .error .keyTooLong) := by
  rw [l.readNumber_written_eq]
  have written : ∀ v : Nat, v < 10 ^ longestNumeral →
      numberKey true (.whole v) = .ok (Text.ofNat v) := fun v short => by
    rw [numberKey_natCast, if_pos short]
  -- a decimal literal meets the limit on reading first, any other one only that on writing
  cases l with
  | big p =>
    have long : longestDecimal < p.points.length ↔ 10 ^ longestNumeral ≤ valueOf 10 p.points :=
      p.lt_length_iff (k := longestNumeral) (by decide)
    refine ⟨_, _, rfl, p.readSignificant_eq, fun short => ?_, fun large => ?_⟩
    · rw [if_neg (mt long.mp (Nat.not_le_of_lt short))]
      exact written _ short
    · have tooLong : (big p).isLong = true := decide_eq_true (long.mpr large)
      rw [if_pos (long.mpr large), if_pos tooLong]
      exact congrArg Except.ok (numeralOfDouble_ofDecimal large)
  | radix r capital ds b =>
    refine ⟨_, _, rfl, r.readSignificant_eq capital ds, written _, fun large => ?_⟩
    rw [numberKey_natCast, if_neg (Nat.not_lt_of_le large)]
    rfl
  | _ => cases h

end NumericLiteral

/-! ## Accesses -/

namespace Node

/-- A computed member access by a key.  The property is the key but for its number. -/
structure IsAccessBy (m key : Node) : Prop where
  kind : m.kind = .memberExpression
  computed : m.flag "computed" = .ok true
  property : ∃ c, m.child "property" = .ok c ∧ c.kind = key.kind ∧ c.fields = key.fields

/-- The literal of a number with its text. -/
def ofNumber (span : Span) (r : Number) (raw : Text) : Node :=
  .mk 0 .literal span [("value", Conversion.numberValue (some r)), ("raw", .text raw)]

/-- The access reads the key of the number, written as its suffix asks for. -/
theorem IsAccessBy.staticKey_eq {m : Node} {span : Span} {r : Number} {raw : Text}
    (h : m.IsAccessBy (ofNumber span r raw)) :
    m.staticKey = (Decimal.numberKey (raw.endsWith 0x6E) r).map some := by
  obtain ⟨c, child, kind, fields⟩ := h.property
  have literal : c.kind = .literal := kind
  have value : c.field? "value" = some (Conversion.numberValue (some r)) := by
    rw [field?, fields]
    rfl
  have text : c.text "raw" = .ok raw := by
    rw [Node.text, field?, fields]
    rfl
  have key : m.staticKey = c.literalKey := by
    rw [staticKey, child, h.computed]
    rfl
  rw [key, literalKey, if_pos literal, value]
  cases r <;> (simp only [Conversion.numberValue, numberKey, text]; rfl)

end Node

namespace NumericLiteral

variable {l : NumericLiteral} {src : Source} {p : Parsed}

/-- A literal becomes a node with the number that it is read as. -/
theorem convert_eq_ofNumber {r : Number} (symbol : p.symbol = .number)
    (text : src.text? p.span = some ⟨l.written⟩) (read : readNumber ⟨l.written⟩ = .ok (some r))
    (inObject : Bool) :
    Conversion.convert src p inObject = .ok (.ofNumber p.span r ⟨l.written⟩) := by
  have table : Conversion.template src inObject p.inside =
      Conversion.numberLiteral src p.inside := by
    have hs : p.inside.symbol = .number := symbol
    simp only [Conversion.template, hs]
  have text' : src.text? p.inside.span = some ⟨l.written⟩ := text
  rw [Conversion.convert_eq, table, Conversion.numberLiteral, text']
  simp only [read]
  rfl

/-- A computed access by a big integer reads the numeral of its value, with all of the digits, if
these are not too many.  If they are, a decimal literal is taken for infinity, and the numeral of
any other one is refused. -/
theorem staticKey_of_isBig (big : l.isBig = true) (symbol : p.symbol = .number)
    (text : src.text? p.span = some ⟨l.written⟩) (inObject : Bool) :
    ∃ key v, Conversion.convert src p inObject = .ok key ∧ l.whole? = some v ∧
      ∀ m : Node, m.IsAccessBy key →
        (v < 10 ^ longestNumeral → m.staticKey = .ok (some (Text.ofNat v))) ∧
        (10 ^ longestNumeral ≤ v →
          m.staticKey = if l.isLong then .ok (some "inf") else .error .keyTooLong) := by
  obtain ⟨v, r, value, read, short, long⟩ := exists_bigKey big
  refine ⟨_, v, convert_eq_ofNumber symbol text read inObject, value, fun m h => ?_⟩
  rw [h.staticKey_eq, endsWith_of_isBig big]
  refine ⟨fun few => ?_, fun many => ?_⟩
  · rw [short few]
    rfl
  · rw [long many]
    split <;> rfl

/-- The first integer that no double is, `0x2000000000000_1n`. -/
def firstGap : NumericLiteral :=
  .radix .hexadecimal false
    (.separated ((List.replicate 12 ⟨0x30, rfl⟩).foldl .next (.one ⟨0x32, rfl⟩)) ⟨0x31, rfl⟩) true

/-- Its parse in `a[0x2000000000000_1n]`. -/
def firstGapParsed : Parsed := .mk .number true false false ⟨2, 20, 1, 2⟩ (some "index") []

/-- The access in `a[0x2000000000000_1n]`. -/
def firstGapAccess (key : Node) : Node :=
  .mk 1 .memberExpression ⟨0, 21, 1, 0⟩
    [("object", .node (.mk 2 .identifier ⟨0, 1, 1, 0⟩ [("name", .text "a")])),
      ("property", .node key), ("computed", .bool true)]

/-- The key is not rounded to the double in front of the gap. -/
theorem firstGap_key :
    firstGap.isBig = true ∧ firstGapParsed.symbol = .number ∧
      (Source.ofString "a[0x2000000000000_1n]").text? firstGapParsed.span =
        some ⟨firstGap.written⟩ ∧
      ∃ key, Conversion.convert (.ofString "a[0x2000000000000_1n]") firstGapParsed false = .ok key ∧
        (firstGapAccess key).IsAccessBy key ∧
        (firstGapAccess key).staticKey = .ok (some "9007199254740993") := by
  have text : (Source.ofString "a[0x2000000000000_1n]").text? firstGapParsed.span =
      some ⟨firstGap.written⟩ := by cbv
  obtain ⟨key, v, converted, value, keys⟩ :=
    staticKey_of_isBig (l := firstGap) (p := firstGapParsed) rfl rfl text false
  have access : (firstGapAccess key).IsAccessBy key := ⟨rfl, rfl, key, rfl, rfl, rfl⟩
  refine ⟨rfl, rfl, text, key, converted, access, ?_⟩
  have number : v = 9007199254740993 := by
    have whole : firstGap.whole? = some 9007199254740993 := by cbv
    exact Option.some.inj (value.symm.trans whole)
  have few : v < 10 ^ longestNumeral := by
    rw [number]
    exact lt_of_lt_of_le (by norm_num : 9007199254740993 < 10 ^ 16)
      (Nat.pow_le_pow_right (by omega) (by decide))
  rw [(keys _ access).1 few, number]
  cbv

end NumericLiteral

end FreeNames
