import Mathlib.Data.List.Chain
import FreeNames.Literal.Str

/-!
# Code units

The text of a string literal is a sequence of UTF-16 code units that is kept as code points.  A pair
of surrogates that stand side by side is one code point; a half that has no partner stays.

* `Text.units` are the code units of a text, and `Text.IsJoined` says that no pair in it is left
  apart.
* `eq_joinPairs_iff`: joining the pairs of a sequence of code points gives the one joined text that
  has its code units.
-/

namespace FreeNames

open Literal

/-! ## Units of code points -/

/-- The code units of a code point. -/
def unitsOf (c : Nat) : List Nat :=
  if c < 0x10000 then [c]
  else [0xD800 + (c - 0x10000) / 0x400, 0xDC00 + (c - 0x10000) % 0x400]

namespace Text

/-- The code units of a text. -/
def units (t : Text) : List Nat := t.points.flatMap unitsOf

/-- The text holds code points only, and no high surrogate directly before a low one. -/
structure IsJoined (t : Text) : Prop where
  apart : t.points.IsChain fun a b => ¬(isHighSurrogate a = true ∧ isLowSurrogate b = true)
  le_lastPoint : ∀ c ∈ t.points, c ≤ lastPoint

end Text

namespace Literal

variable {a b c : Nat} {points rest : List Nat}

theorem isHighSurrogate_iff : isHighSurrogate c = true ↔ 0xD800 ≤ c ∧ c < 0xDC00 := by
  simp [isHighSurrogate]

theorem isLowSurrogate_iff : isLowSurrogate c = true ↔ 0xDC00 ≤ c ∧ c < 0xE000 := by
  simp [isLowSurrogate]

theorem unitsOf_of_lt (h : c < 0x10000) : unitsOf c = [c] := if_pos h

theorem unitsOf_of_isHighSurrogate (h : isHighSurrogate c = true) : unitsOf c = [c] :=
  unitsOf_of_lt (by rw [isHighSurrogate_iff] at h; omega)

theorem unitsOf_of_isLowSurrogate (h : isLowSurrogate c = true) : unitsOf c = [c] :=
  unitsOf_of_lt (by rw [isLowSurrogate_iff] at h; omega)

/-- A pair and its code point have the same units. -/
theorem unitsOf_pairPoint (ha : isHighSurrogate a = true) (hb : isLowSurrogate b = true) :
    unitsOf (pairPoint a b) = [a, b] := by
  rw [isHighSurrogate_iff] at ha
  rw [isLowSurrogate_iff] at hb
  have large : ¬pairPoint a b < 0x10000 := by
    unfold pairPoint
    omega
  have high : 0xD800 + (pairPoint a b - 0x10000) / 0x400 = a := by
    unfold pairPoint
    omega
  have low : 0xDC00 + (pairPoint a b - 0x10000) % 0x400 = b := by
    unfold pairPoint
    omega
  rw [unitsOf, if_neg large, high, low]

/-- A code point beyond the first plane has the units of a pair, and is the point of that pair. -/
theorem exists_pair (h : ¬c < 0x10000) (le : c ≤ lastPoint) :
    ∃ a b, unitsOf c = [a, b] ∧ isHighSurrogate a = true ∧ isLowSurrogate b = true ∧
      pairPoint a b = c := by
  unfold lastPoint at le
  refine ⟨_, _, if_neg h, ?_, ?_, ?_⟩
  · rw [isHighSurrogate_iff]
    omega
  · rw [isLowSurrogate_iff]
    omega
  · unfold pairPoint
    omega

theorem pairPoint_le (ha : isHighSurrogate a = true) (hb : isLowSurrogate b = true) :
    0x10000 ≤ pairPoint a b ∧ pairPoint a b ≤ lastPoint := by
  rw [isHighSurrogate_iff] at ha
  rw [isLowSurrogate_iff] at hb
  unfold pairPoint lastPoint
  omega

/-! ## Joining -/

theorem joinPairs_of_pair (ha : isHighSurrogate a = true) (hb : isLowSurrogate b = true)
    (rest : List Nat) : joinPairs (a :: b :: rest) = pairPoint a b :: joinPairs rest := by
  rw [joinPairs, if_pos (by rw [ha, hb]; rfl)]

/-- What is no first half of a pair stays. -/
theorem joinPairs_cons
    (h : ∀ b ∈ rest.head?, ¬(isHighSurrogate a = true ∧ isLowSurrogate b = true)) :
    joinPairs (a :: rest) = a :: joinPairs rest := by
  cases rest with
  | nil => simp [joinPairs]
  | cons b rest =>
    rw [joinPairs, if_neg]
    rw [Bool.and_eq_true]
    exact h b rfl

/-- The first unit of a code point is a low surrogate only if the code point is. -/
theorem isLowSurrogate_of_head? (le : a ≤ lastPoint) (hb : b ∈ (unitsOf a ++ rest).head?)
    (low : isLowSurrogate b = true) : isLowSurrogate a = true := by
  by_cases small : a < 0x10000
  · rw [unitsOf_of_lt small] at hb
    cases hb
    exact low
  · obtain ⟨high, _, hu, hhigh, -, -⟩ := exists_pair small le
    rw [hu] at hb
    cases hb
    rw [isHighSurrogate_iff] at hhigh
    rw [isLowSurrogate_iff] at low
    omega

/-- Joining sees the units of the code points only. -/
theorem joinPairs_flatMap_unitsOf (h : ∀ c ∈ points, c ≤ lastPoint) :
    joinPairs (points.flatMap unitsOf) = joinPairs points := by
  fun_induction joinPairs points with
  | case1 a b rest pair ih =>
    rw [Bool.and_eq_true] at pair
    obtain ⟨ha, hb⟩ := pair
    rw [List.flatMap_cons, List.flatMap_cons, unitsOf_of_isHighSurrogate ha,
      unitsOf_of_isLowSurrogate hb]
    show joinPairs (a :: b :: rest.flatMap unitsOf) = _
    rw [joinPairs_of_pair ha hb, ih fun c hc => h c (by simp [hc])]
  | case2 a b rest apart ih =>
    rw [Bool.and_eq_true] at apart
    have inner := ih fun c hc => h c (List.mem_cons_of_mem _ hc)
    rw [List.flatMap_cons]
    by_cases small : a < 0x10000
    · rw [unitsOf_of_lt small]
      show joinPairs (a :: (b :: rest).flatMap unitsOf) = _
      rw [joinPairs_cons, inner]
      intro u hu pair
      rw [List.flatMap_cons] at hu
      exact apart ⟨pair.1, isLowSurrogate_of_head? (h b (by simp)) hu pair.2⟩
    · obtain ⟨high, low, hu, hhigh, hlow, point⟩ := exists_pair small (h a (by simp))
      rw [hu]
      show joinPairs (high :: low :: (b :: rest).flatMap unitsOf) = _
      rw [joinPairs_of_pair hhigh hlow, point, inner]
  | case3 points short =>
    rcases points with _ | ⟨a, _ | ⟨b, rest⟩⟩
    · rfl
    · by_cases small : a < 0x10000
      · rw [List.flatMap_singleton, unitsOf_of_lt small]
        simp [joinPairs]
      · obtain ⟨high, low, hu, hhigh, hlow, point⟩ := exists_pair small (h a (by simp))
        rw [List.flatMap_singleton, hu, joinPairs_of_pair hhigh hlow, point]
        simp [joinPairs]
    · exact absurd rfl (short a b rest)

/-- Where no pair is left apart, nothing is joined. -/
theorem joinPairs_of_isChain
    (h : points.IsChain fun a b => ¬(isHighSurrogate a = true ∧ isLowSurrogate b = true)) :
    joinPairs points = points := by
  fun_induction joinPairs points with
  | case1 a b rest pair ih =>
    rw [Bool.and_eq_true] at pair
    exact absurd pair (List.isChain_cons_cons.mp h).1
  | case2 a b rest apart ih => rw [ih (List.isChain_cons_cons.mp h).2]
  | case3 points short => rfl

theorem flatMap_unitsOf_joinPairs (points : List Nat) :
    (joinPairs points).flatMap unitsOf = points.flatMap unitsOf := by
  fun_induction joinPairs points with
  | case1 a b rest pair ih =>
    rw [Bool.and_eq_true] at pair
    obtain ⟨ha, hb⟩ := pair
    rw [List.flatMap_cons, List.flatMap_cons, List.flatMap_cons, unitsOf_pairPoint ha hb,
      unitsOf_of_isHighSurrogate ha, unitsOf_of_isLowSurrogate hb, ih]
    rfl
  | case2 a b rest apart ih => rw [List.flatMap_cons, List.flatMap_cons, ih]
  | case3 points short => rfl

/-- What comes first after joining came first before, or stands for a pair. -/
theorem isLowSurrogate_of_head?_joinPairs (hb : b ∈ (joinPairs points).head?)
    (low : isLowSurrogate b = true) : b ∈ points.head? := by
  fun_cases joinPairs points with
  | case1 a c rest pair =>
    rw [joinPairs, if_pos pair, List.head?_cons, Option.mem_some_iff] at hb
    rw [Bool.and_eq_true] at pair
    have large := (pairPoint_le pair.1 pair.2).1
    rw [isLowSurrogate_iff] at low
    omega
  | case2 a c rest apart =>
    rw [joinPairs, if_neg apart] at hb
    exact hb
  | case3 points short => rwa [joinPairs.eq_2 _ short] at hb

/-- After joining, no pair is left apart. -/
theorem isJoined_joinPairs (h : ∀ c ∈ points, c ≤ lastPoint) :
    Text.IsJoined ⟨joinPairs points⟩ := by
  constructor
  · show (joinPairs points).IsChain _
    fun_induction joinPairs points with
    | case1 a b rest pair ih =>
      rw [Bool.and_eq_true] at pair
      refine List.isChain_cons.mpr ⟨fun c _ high => ?_, ih fun c hc => h c (by simp [hc])⟩
      have := (pairPoint_le pair.1 pair.2).1
      have := isHighSurrogate_iff.mp high.1
      omega
    | case2 a b rest apart ih =>
      rw [Bool.and_eq_true] at apart
      refine List.isChain_cons.mpr
        ⟨fun c hc pair => ?_, ih fun c hc => h c (List.mem_cons_of_mem _ hc)⟩
      cases isLowSurrogate_of_head?_joinPairs hc pair.2
      exact apart pair
    | case3 points short =>
      rcases points with _ | ⟨a, _ | ⟨b, rest⟩⟩
      · exact List.isChain_nil
      · exact List.isChain_singleton a
      · exact absurd rfl (short a b rest)
  · show ∀ c ∈ joinPairs points, c ≤ lastPoint
    fun_induction joinPairs points with
    | case1 a b rest pair ih =>
      rw [Bool.and_eq_true] at pair
      intro c hc
      rcases List.mem_cons.mp hc with same | hc
      · rw [same]
        exact (pairPoint_le pair.1 pair.2).2
      · exact ih (fun c hc => h c (by simp [hc])) c hc
    | case2 a b rest apart ih =>
      intro c hc
      rcases List.mem_cons.mp hc with rfl | hc
      · exact h c (by simp)
      · exact ih (fun c hc => h c (List.mem_cons_of_mem _ hc)) c hc
    | case3 points short => exact h

/-- Joining gives the joined text that has the code units. -/
theorem eq_joinPairs_iff (h : ∀ c ∈ points, c ≤ lastPoint) (t : Text) :
    t = ⟨joinPairs points⟩ ↔ t.IsJoined ∧ t.units = points.flatMap unitsOf := by
  constructor
  · rintro rfl
    exact ⟨isJoined_joinPairs h, flatMap_unitsOf_joinPairs points⟩
  · rintro ⟨joined, same⟩
    obtain ⟨own⟩ := t
    have same : own.flatMap unitsOf = points.flatMap unitsOf := same
    congr 1
    calc own = joinPairs own := (joinPairs_of_isChain joined.apart).symm
      _ = joinPairs (own.flatMap unitsOf) := (joinPairs_flatMap_unitsOf joined.le_lastPoint).symm
      _ = joinPairs (points.flatMap unitsOf) := by rw [same]
      _ = joinPairs points := joinPairs_flatMap_unitsOf h

end Literal

end FreeNames
