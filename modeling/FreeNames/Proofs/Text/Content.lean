import FreeNames.Text
import Mathlib.Data.List.Basic
import Mathlib.Data.List.Induction
import Mathlib.Data.List.Lex

/-!
# What texts hold

The code points of texts that are put together from others, the lines of a text, and the order of
texts, with the facts about lists behind them.

* Numerals hold digits only, and an ordinary string holds no half of a surrogate pair.
* `splitOn_terminated`: where every part is closed by a mark, splitting at the mark gives the parts
  back, those that hold the mark themselves in pieces.  So it gives exactly the parts if none of
  them holds the mark (`splitOn_terminated_eq_iff`), and in any case one piece more than there are
  marks (`length_splitOn`).
* `Text.le_iff`: the order of texts is that of a dictionary of code points.
-/

namespace FreeNames

/-! ## Repetitions -/

theorem nodup_eraseDups {α : Type} [DecidableEq α] (xs : List α) : xs.eraseDups.Nodup := by
  cases xs with
  | nil => exact List.nodup_nil
  | cons x rest =>
    rw [List.eraseDups_cons, List.nodup_cons]
    refine ⟨fun mem => ?_, nodup_eraseDups _⟩
    have kept := (List.mem_filter.mp (List.mem_eraseDups.mp mem)).2
    rw [beq_self_eq_true] at kept
    cases kept
termination_by xs.length
decreasing_by exact Nat.lt_succ_of_le (List.length_filter_le _ _)

section Repetitions

variable {α β : Type} [DecidableEq α] [DecidableEq β]

/-- An element at the end counts only if it is not there already. -/
theorem eraseDups_concat (xs : List α) (x : α) :
    (xs ++ [x]).eraseDups = if x ∈ xs then xs.eraseDups else xs.eraseDups ++ [x] := by
  rw [List.eraseDups_append]
  unfold List.removeAll
  rw [List.filter_singleton]
  by_cases mem : x ∈ xs
  · simp [mem]
  · simp [mem, List.eraseDups_cons]

theorem eraseDups_filter (p : α → Bool) (xs : List α) :
    (xs.filter p).eraseDups = xs.eraseDups.filter p := by
  induction xs using List.reverseRecOn with
  | nil => rfl
  | append_singleton xs x ih =>
    rw [List.filter_append, List.filter_singleton, eraseDups_concat]
    cases holds : p x with
    | false =>
      have none : [x].filter p = [] := by simp [holds]
      split
      · rw [← ih, cond_false, List.append_nil]
      · rw [List.filter_append, none, ← ih, cond_false]
        simp only [List.append_nil]
    | true =>
      have one : [x].filter p = [x] := by simp [holds]
      have same : x ∈ xs.filter p ↔ x ∈ xs := by simp [List.mem_filter, holds]
      rw [cond_true, eraseDups_concat, if_congr same rfl rfl, ih]
      split
      · rfl
      · rw [List.filter_append, one]

/-- A function that tells the elements apart keeps repetitions and makes no new ones. -/
theorem eraseDups_map {f : α → β} {xs : List α} (apart : ∀ x ∈ xs, ∀ y ∈ xs, f x = f y → x = y) :
    (xs.map f).eraseDups = xs.eraseDups.map f := by
  induction xs using List.reverseRecOn with
  | nil => rfl
  | append_singleton xs x ih =>
    have inside : ∀ y ∈ xs, y ∈ xs ++ [x] := fun y mem => List.mem_append_left _ mem
    have last : x ∈ xs ++ [x] := List.mem_append_right _ List.mem_cons_self
    have same : f x ∈ xs.map f ↔ x ∈ xs := by
      rw [List.mem_map]
      constructor
      · rintro ⟨y, mem, eq⟩
        exact apart y (inside y mem) x last eq ▸ mem
      · exact fun mem => ⟨x, mem, rfl⟩
    have ih := ih fun y hy z hz => apart y (inside y hy) z (inside z hz)
    rw [List.map_append, List.map_singleton, eraseDups_concat, eraseDups_concat,
      if_congr same rfl rfl, ih]
    split
    · rfl
    · rw [List.map_append, List.map_singleton]

end Repetitions

/-! ## Splitting -/

section Splitting

variable {α : Type} [DecidableEq α] {x : α} {xs : List α} {parts : List (List α)}

theorem length_splitOn (x : α) (xs : List α) : (xs.splitOn x).length = xs.count x + 1 := by
  induction xs with
  | nil => rfl
  | cons y ys ih =>
    rw [List.splitOn_cons_eq_if_modifyHead]
    by_cases same : y = x
    · rw [if_pos (beq_iff_eq.mpr same), List.length_cons, ih, same, List.count_cons_self]
    · rw [if_neg (by simpa using same), List.length_modifyHead, ih, List.count_cons_of_ne same]

/-- No piece holds the mark at which a list is split. -/
theorem not_mem_of_mem_splitOn {piece : List α} (h : piece ∈ xs.splitOn x) : x ∉ piece := by
  induction xs generalizing piece with
  | nil =>
    rw [List.splitOn_nil, List.mem_singleton] at h
    exact h ▸ List.not_mem_nil
  | cons y ys ih =>
    rw [List.splitOn_cons_eq_if_modifyHead] at h
    by_cases same : y = x
    · rw [if_pos (beq_iff_eq.mpr same)] at h
      rcases List.mem_cons.mp h with rfl | h
      · exact List.not_mem_nil
      · exact ih h
    · rw [if_neg (by simpa using same)] at h
      obtain ⟨first, rest, split⟩ := List.exists_cons_of_ne_nil (List.splitOn_ne_nil x ys)
      rw [split, List.modifyHead_cons] at h
      rw [split] at ih
      rcases List.mem_cons.mp h with rfl | h
      · rw [List.mem_cons, not_or]
        exact ⟨fun also => same also.symm, ih List.mem_cons_self⟩
      · exact ih (List.mem_cons_of_mem _ h)

/-- Parts that are each closed by a mark, split at the mark; behind the last mark is nothing. -/
theorem splitOn_terminated (x : α) (parts : List (List α)) :
    (parts.flatMap fun part => part ++ [x]).splitOn x =
      (parts.flatMap fun part => part.splitOn x) ++ [[]] := by
  induction parts with
  | nil => rfl
  | cons part parts ih =>
    rw [List.flatMap_cons, List.append_assoc, List.singleton_append,
      List.splitOn_append_cons_self, ih, List.flatMap_cons, List.append_assoc]

theorem splitOn_terminated_eq_iff :
    (parts.flatMap fun part => part ++ [x]).splitOn x = parts ++ [[]] ↔
      ∀ part ∈ parts, x ∉ part := by
  constructor
  · intro split part mem
    have piece : part ∈ (parts.flatMap fun part => part ++ [x]).splitOn x := by
      rw [split]
      exact List.mem_append_left _ mem
    exact not_mem_of_mem_splitOn piece
  · intro free
    rw [splitOn_terminated]
    congr 1
    calc parts.flatMap (fun part => part.splitOn x)
        = parts.flatMap fun part => [part] :=
          List.flatMap_congr fun part mem => List.splitOn_eq_singleton (free part mem)
      _ = parts := List.flatMap_singleton' parts

end Splitting

namespace Text

/-! ## Code points -/

@[ext] theorem ext {a b : Text} (h : a.points = b.points) : a = b := by
  cases a
  cases b
  exact congrArg mk h

theorem mem_append {c : Nat} {a b : Text} :
    c ∈ (a ++ b).points ↔ c ∈ a.points ∨ c ∈ b.points := List.mem_append

/-- What texts hold that are joined, the text between them apart. -/
theorem mem_join {c : Nat} {separator : Text} (outside : c ∉ separator.points) {ts : List Text} :
    c ∈ (join separator ts).points ↔ ∃ t ∈ ts, c ∈ t.points := by
  induction ts with
  | nil => simp [join, empty]
  | cons t ts ih =>
    cases ts with
    | nil => simp [join]
    | cons u rest =>
      rw [join, mem_append, mem_append, ih, or_iff_left outside, List.exists_mem_cons_iff _ t]

theorem digit_of_mem_ofNat {n c : Nat} (h : c ∈ (ofNat n).points) : 0x30 ≤ c ∧ c ≤ 0x39 := by
  obtain ⟨d, hd, rfl⟩ := List.mem_map.mp h
  have digit := Nat.isDigit_of_mem_toDigits (by decide) (by decide) hd
  rw [Char.isDigit, Bool.and_eq_true, decide_eq_true_eq, decide_eq_true_eq] at digit
  exact digit

/-- An ordinary string holds no half of a surrogate pair. -/
theorem isSurrogate_of_mem_ofString {s : String} {c : Nat} (h : c ∈ (ofString s).points) :
    isSurrogate c = false := by
  obtain ⟨ch, -, rfl⟩ := List.mem_map.mp h
  have valid : ch.toNat < 0xD800 ∨ 0xDFFF < ch.toNat ∧ ch.toNat < 0x110000 := ch.valid
  rw [isSurrogate, Bool.and_eq_false_iff, decide_eq_false_iff_not, decide_eq_false_iff_not]
  omega

/-! ## Lines -/

/-- The line feed. -/
def lineFeed : Nat := 0x0A

theorem lineFeed_mem_ofString {s : String} : lineFeed ∈ (ofString s).points ↔ '\n' ∈ s.toList := by
  have feed (c : Char) : c.toNat = lineFeed ↔ c = '\n' :=
    ⟨fun same => Char.ext (UInt32.toNat_inj.mp same), fun same => same ▸ rfl⟩
  rw [ofString_points, List.mem_map]
  constructor
  · rintro ⟨c, mem, same⟩
    exact (feed c).mp same ▸ mem
  · exact fun mem => ⟨'\n', mem, rfl⟩

/-- The lines of a text, parted by line feeds. -/
def lines (t : Text) : List Text := t.splitOn lineFeed

/-- Texts, each on a line of its own. -/
def ofLines (ls : List Text) : Text := ⟨ls.flatMap fun l => l.points ++ [lineFeed]⟩

theorem ofLines_eq (ls : List Text) :
    (ofLines ls).points = (ls.map points).flatMap fun l => l ++ [lineFeed] := by
  rw [List.flatMap_map]
  rfl

theorem length_lines (t : Text) : t.lines.length = t.points.count lineFeed + 1 := by
  rw [lines, splitOn, List.length_map, length_splitOn]

/-- There is a line for every text, one more for every line feed in it, and what is behind the last
of them. -/
theorem length_lines_ofLines (ls : List Text) : (ofLines ls).lines.length =
    ls.length + (ls.flatMap points).count lineFeed + 1 := by
  have feeds : (ofLines ls).points.count lineFeed =
      ls.length + (ls.flatMap points).count lineFeed := by
    induction ls with
    | nil => rfl
    | cons l ls ih =>
      have first : (ofLines (l :: ls)).points = l.points ++ [lineFeed] ++ (ofLines ls).points := rfl
      rw [first, List.count_append, List.count_append, List.count_singleton_self, ih,
        List.length_cons, List.flatMap_cons, List.count_append]
      omega
  rw [length_lines, feeds]

/-- Texts that stand on lines of their own are the lines, exactly if none holds a line feed. -/
theorem lines_ofLines_eq_iff {ls : List Text} :
    (ofLines ls).lines = ls ++ [empty] ↔ ∀ l ∈ ls, lineFeed ∉ l.points := by
  have injective : Function.Injective (List.map Text.points) :=
    List.map_injective_iff.mpr fun _ _ => ext
  rw [lines, splitOn, ofLines_eq, ← injective.eq_iff, List.map_map, List.map_append]
  have all : (∀ l ∈ ls, lineFeed ∉ l.points) ↔ ∀ p ∈ ls.map points, lineFeed ∉ p := by
    rw [List.forall_mem_map]
  rw [all, ← splitOn_terminated_eq_iff]
  exact iff_of_eq (congrArg (· = _) (List.map_id _))

/-! ## The order of texts -/

/-- The text comes before another in a dictionary of code points. -/
def Before (a b : Text) : Prop := List.Lex (· < ·) a.points b.points

theorem le_iff {a b : Text} : a.le b ↔ a = b ∨ a.Before b := by
  have go (xs ys : List Nat) : le.go xs ys ↔ xs = ys ∨ List.Lex (· < ·) xs ys := by
    induction xs generalizing ys with
    | nil =>
      cases ys with
      | nil => exact iff_of_true rfl (.inl rfl)
      | cons y ys => exact iff_of_true rfl (.inr .nil)
    | cons x xs ih =>
      cases ys with
      | nil => exact iff_of_false nofun nofun
      | cons y ys =>
        rw [List.cons.injEq, List.cons_lex_cons_iff, le.go, Bool.or_eq_true, Bool.and_eq_true,
          decide_eq_true_eq, decide_eq_true_eq, ih, or_left_comm, ← and_or_left]
  rw [le, go, Text.ext_iff, Before]

theorem le_trans {a b c : Text} (hab : a.le b) (hbc : b.le c) : a.le c := by
  rw [le_iff] at hab hbc ⊢
  rcases hab with rfl | hab
  · exact hbc
  · rcases hbc with rfl | hbc
    · exact .inr hab
    · exact .inr (List.lex_trans Nat.lt_trans hab hbc)

theorem le_total (a b : Text) : a.le b ∨ b.le a := by
  rw [le_iff, le_iff]
  obtain before | same | behind := Std.Trichotomous.rel_or_eq_or_rel_swap
    (r := List.Lex fun x y : Nat => x < y) (a := a.points) (b := b.points)
  · exact .inl (.inr before)
  · exact .inl (.inl (ext same))
  · exact .inr (.inr behind)

end Text

end FreeNames
