import Mathlib.Data.List.TakeWhile
import FreeNames.Proofs.Literal.Digits
import FreeNames.Proofs.Literal.Units

/-!
# The pieces of a string literal

A string literal is written in pieces: code points that stand for themselves, and escapes.  Where a
piece ends depends on what follows it, since an octal escape takes as many digits as it can, and `u`
and `x` begin an escape only if hexadecimal digits follow.

* `Piece.written` is how a piece is written and `Piece.units` are the code units it stands for;
  `Piece.Fits` says that a piece ends where the given text begins.
* `Piece.unescape_append` reads one piece, and `Piece.unescape_spelling` a sequence of them.
* `readString_spelling`: the value of a literal is the text with the code units of its pieces, no
  pair of surrogates left apart.  Only where an escape in braces is beyond the last code point does
  its backslash stay (`oversizedEscape_keeps_backslash`).
-/

namespace FreeNames.Literal

/-! ## Pieces -/

/-- The letters of the single-letter escapes with the code points that they stand for. -/
def letters : List (Nat × Nat) :=
  [(0x6E, 0x0A), (0x74, 0x09), (0x72, 0x0D), (0x62, 0x08), (0x66, 0x0C), (0x76, 0x0B)]

/-- The ways to end a line. -/
def lineEnds : List (List Nat) := [[0x0A], [0x0D], [0x0D, 0x0A], [0x2028], [0x2029]]

/-- A piece of the text between the quotation marks. -/
inductive Piece where
  | plain (c : Nat)
  | letter (c value : Nat)
  /-- `\xHH` -/
  | byte (digits : List Nat)
  /-- `\uHHHH` -/
  | unit (digits : List Nat)
  /-- `\u{H...}` -/
  | braced (digits : List Nat)
  | octal (digits : List Nat)
  /-- A line goes on after a backslash at its end. -/
  | continuation (lineEnd : List Nat)
  /-- Any other code point behind a backslash. -/
  | other (c : Nat)

namespace Piece

/-- The text of the piece. -/
def written : Piece → List Nat
  | plain c => [c]
  | letter c _ => [0x5C, c]
  | byte digits => 0x5C :: 0x78 :: digits
  | unit digits => 0x5C :: 0x75 :: digits
  | braced digits => 0x5C :: 0x75 :: 0x7B :: digits ++ [0x7D]
  | octal digits => 0x5C :: digits
  | continuation lineEnd => 0x5C :: lineEnd
  | other c => [0x5C, c]

/-- The code points that the piece stands for. -/
def points : Piece → List Nat
  | plain c => [c]
  | letter _ value => [value]
  | byte digits | unit digits | braced digits => [Nat.ofDigits 16 (digits.reverse.map digitOf)]
  | octal digits => [Nat.ofDigits 8 (digits.reverse.map digitOf)]
  | continuation _ => []
  | other c => [c]

/-- The code units that the piece stands for. -/
def units (p : Piece) : List Nat := p.points.flatMap unitsOf

end Piece

/-! ## What follows a piece -/

/-- The text begins with so many hexadecimal digits. -/
def BeginsWithHex (count : Nat) (rest : List Nat) : Prop :=
  ∃ digits tail, rest = digits ++ tail ∧ digits.length = count ∧
    ∀ c ∈ digits, isDigitOf 16 c = true

/-- The text begins with hexadecimal digits in braces, and their value has the property. -/
def BeginsWithBraces (P : Nat → Prop) (rest : List Nat) : Prop :=
  ∃ digits tail, rest = 0x7B :: digits ++ 0x7D :: tail ∧ digits ≠ [] ∧
    (∀ c ∈ digits, isDigitOf 16 c = true) ∧ P (valueOf 16 digits)

/-- The digits are an octal escape. -/
def IsOctal (digits : List Nat) : Prop :=
  digits ≠ [] ∧ digits.length ≤ 3 ∧ (∀ c ∈ digits, isDigitOf 8 c = true) ∧ valueOf 8 digits < 256

/-- The piece is one, and it ends where the text given begins. -/
def Piece.Fits (rest : List Nat) : Piece → Prop
  | plain c => c ≤ lastPoint ∧ c ≠ 0x5C
  | letter c value => (c, value) ∈ letters
  | byte digits => digits.length = 2 ∧ ∀ c ∈ digits, isDigitOf 16 c = true
  | unit digits => digits.length = 4 ∧ ∀ c ∈ digits, isDigitOf 16 c = true
  | braced digits => digits ≠ [] ∧ (∀ c ∈ digits, isDigitOf 16 c = true) ∧
      valueOf 16 digits ≤ lastPoint
  | octal digits => IsOctal digits ∧ ∀ c ∈ rest.head?, ¬IsOctal (digits ++ [c])
  | continuation lineEnd => lineEnd ∈ lineEnds ∧ (lineEnd = [0x0D] → rest.head? ≠ some 0x0A)
  | other c => c ≤ lastPoint ∧ c ∉ letters.map Prod.fst ∧ isDigitOf 8 c = false ∧ [c] ∉ lineEnds ∧
      (c = 0x78 → ¬BeginsWithHex 2 rest) ∧
      (c = 0x75 → ¬BeginsWithHex 4 rest ∧ ¬BeginsWithBraces (· ≤ lastPoint) rest)

instance (digits : List Nat) : Decidable (IsOctal digits) :=
  inferInstanceAs (Decidable (_ ∧ _ ∧ _ ∧ _))

/-- The text of a sequence of pieces. -/
def spelling (pieces : List Piece) : List Nat := pieces.flatMap Piece.written

/-- Every piece ends where the next one begins. -/
def Fit : List Piece → Prop
  | [] => True
  | p :: rest => p.Fits (spelling rest) ∧ Fit rest

section

variable {c count : Nat} {digits rest tail : List Nat}

/-! ## Reading digits -/

theorem fixedHex?_eq_some_iff {value : Nat} : fixedHex? count rest = some (value, tail) ↔
    ∃ digits, rest = digits ++ tail ∧ digits.length = count ∧
      (∀ c ∈ digits, isDigitOf 16 c = true) ∧ valueOf 16 digits = value := by
  unfold fixedHex?
  simp only [Bool.and_eq_true, decide_eq_true_eq, List.all_eq_true]
  constructor
  · intro h
    split at h
    · next hex =>
      simp only [Option.some.injEq, Prod.mk.injEq] at h
      obtain ⟨rfl, rfl⟩ := h
      exact ⟨_, (List.take_append_drop count rest).symm, hex.1, hex.2, rfl⟩
    · cases h
  · rintro ⟨digits, rfl, rfl, hex, rfl⟩
    rw [List.take_left, List.drop_left, if_pos ⟨rfl, hex⟩]

theorem fixedHex?_eq_none_iff : fixedHex? count rest = none ↔ ¬BeginsWithHex count rest := by
  constructor
  · rintro none ⟨digits, tail, split, length, hex⟩
    have found := fixedHex?_eq_some_iff.mpr ⟨digits, split, length, hex, rfl⟩
    rw [none] at found
    cases found
  · intro never
    cases found : fixedHex? count rest with
    | none => rfl
    | some r =>
      obtain ⟨value, tail⟩ := r
      obtain ⟨digits, split, length, hex, -⟩ := fixedHex?_eq_some_iff.mp found
      exact absurd ⟨digits, tail, split, length, hex⟩ never

/-- Digits that are closed by something else are all that is taken. -/
theorem takeWhile_append_cons {p : Nat → Bool} (h : ∀ d ∈ digits, p d = true) (stop : p c = false)
    (tail : List Nat) : (digits ++ c :: tail).takeWhile p = digits ∧
      (digits ++ c :: tail).dropWhile p = c :: tail := by
  constructor
  · rw [List.takeWhile_append_of_pos h, List.takeWhile_cons_of_neg (by simp [stop]),
      List.append_nil]
  · rw [List.dropWhile_append_of_pos h, List.dropWhile_cons_of_neg (by simp [stop])]

theorem isDigitOf_brace : isDigitOf 16 0x7D = false := rfl

theorem bracedHex?_eq_some_iff : bracedHex? rest = some (digits, tail) ↔
    rest = 0x7B :: digits ++ 0x7D :: tail ∧ digits ≠ [] ∧
      ∀ c ∈ digits, isDigitOf 16 c = true := by
  constructor
  · intro h
    unfold bracedHex? at h
    split at h
    · next rest =>
      simp only at h
      split at h
      · next tail' closed =>
        split at h
        · cases h
        · next filled =>
          simp only [Option.some.injEq, Prod.mk.injEq] at h
          obtain ⟨rfl, rfl⟩ := h
          refine ⟨?_, by simpa using filled, fun c hc => List.mem_takeWhile_imp hc⟩
          rw [List.cons_append, ← closed, List.takeWhile_append_dropWhile]
      · cases h
    · cases h
  · rintro ⟨rfl, filled, hex⟩
    obtain ⟨taken, left⟩ := takeWhile_append_cons hex isDigitOf_brace tail
    rw [List.cons_append, bracedHex?]
    simp only [left, taken]
    rw [if_neg (by simpa using filled)]

theorem bracedHex?_eq_none_iff :
    bracedHex? rest = none ↔ ¬BeginsWithBraces (fun _ => True) rest := by
  constructor
  · rintro none ⟨digits, tail, split, filled, hex, -⟩
    have found := bracedHex?_eq_some_iff.mpr ⟨split, filled, hex⟩
    rw [none] at found
    cases found
  · intro never
    cases found : bracedHex? rest with
    | none => rfl
    | some r =>
      obtain ⟨digits, tail⟩ := r
      obtain ⟨split, filled, hex⟩ := bracedHex?_eq_some_iff.mp found
      exact absurd ⟨digits, tail, split, filled, hex, trivial⟩ never

instance (count : Nat) (rest : List Nat) : Decidable (BeginsWithHex count rest) :=
  decidable_of_iff ((fixedHex? count rest).isSome = true) <| by
    rw [← not_iff_not, ← fixedHex?_eq_none_iff]
    simp

instance (P : Nat → Prop) [DecidablePred P] (rest : List Nat) :
    Decidable (BeginsWithBraces P rest) :=
  decidable_of_iff (∃ r ∈ bracedHex? rest, P (valueOf 16 r.1)) <| by
    constructor
    · rintro ⟨⟨digits, tail⟩, found, holds⟩
      obtain ⟨split, filled, hex⟩ := bracedHex?_eq_some_iff.mp found
      exact ⟨digits, tail, split, filled, hex, holds⟩
    · rintro ⟨digits, tail, split, filled, hex, holds⟩
      exact ⟨(digits, tail), bracedHex?_eq_some_iff.mpr ⟨split, filled, hex⟩, holds⟩

instance (rest : List Nat) (p : Piece) : Decidable (p.Fits rest) :=
  match p with
  | .plain _ | .byte _ | .unit _ | .octal _ | .continuation _ =>
    inferInstanceAs (Decidable (_ ∧ _))
  | .letter _ _ => inferInstanceAs (Decidable (_ ∈ letters))
  | .braced _ => inferInstanceAs (Decidable (_ ∧ _ ∧ _))
  | .other _ => inferInstanceAs (Decidable (_ ∧ _ ∧ _ ∧ _ ∧ _ ∧ _))

instance decidableFit : (pieces : List Piece) → Decidable (Fit pieces)
  | [] => .isTrue trivial
  | p :: rest =>
    have : Decidable (Fit rest) := decidableFit rest
    inferInstanceAs (Decidable (p.Fits (spelling rest) ∧ Fit rest))

/-- Of the digits at the front, as many are taken as may be. -/
theorem takeWhile_take {p : Nat → Bool} (hp : ∀ d ∈ digits, p d = true)
    (most : digits.length ≤ count) (stop : digits.length < count → ∀ c ∈ tail.head?, p c = false) :
    ((digits ++ tail).take count).takeWhile p = digits := by
  induction digits generalizing count with
  | nil =>
    cases count with
    | zero => rfl
    | succ count =>
      cases tail with
      | nil => rfl
      | cons c tail =>
        have := stop (Nat.succ_pos _) c rfl
        rw [List.nil_append, List.take_succ_cons, List.takeWhile_cons_of_neg (by simp [this])]
  | cons d digits ih =>
    cases count with
    | zero => cases most
    | succ count =>
      rw [List.cons_append, List.take_succ_cons, List.takeWhile_cons_of_pos (hp d (by simp)),
        ih (fun e he => hp e (List.mem_cons_of_mem _ he)) (Nat.le_of_succ_le_succ most)
          fun short => stop (Nat.succ_lt_succ short)]

/-- An octal escape has as many digits as its first one allows. -/
theorem length_le_octalExtra (h : IsOctal (c :: digits)) : digits.length ≤ octalExtra c := by
  obtain ⟨-, length, octal, small⟩ := h
  have first := octal c (by simp)
  rw [List.length_cons] at length
  unfold octalExtra
  split
  · omega
  · by_contra long
    have two : digits.length = 2 := by omega
    have range := (isDigitOf_iff_of_le_ten (by decide)).mp first
    rw [valueOf_cons, two, digitOf_of_isDigitOf (by decide) first] at small
    omega

/-- An octal escape with fewer digits than its first one allows can take another. -/
theorem isOctal_concat {d : Nat} (h : IsOctal (c :: digits)) (short : digits.length < octalExtra c)
    (hd : isDigitOf 8 d = true) : IsOctal (c :: digits ++ [d]) := by
  obtain ⟨-, length, octal, small⟩ := h
  have first := octal c (by simp)
  have range := (isDigitOf_iff_of_le_ten (by decide)).mp first
  have all : ∀ e ∈ digits ++ [d], isDigitOf 8 e = true := by
    intro e he
    rcases List.mem_append.mp he with he | he
    · exact octal e (List.mem_cons_of_mem _ he)
    · rwa [List.mem_singleton.mp he]
  have rest := valueOf_lt_pow all
  unfold octalExtra at short
  refine ⟨by simp, ?_, ?_, ?_⟩
  · simp only [List.length_append, List.length_cons, List.length_nil]
    split at short <;> omega
  · intro e he
    rcases List.mem_cons.mp he with rfl | he
    · exact first
    · exact all e he
  · rw [List.cons_append, valueOf_cons, digitOf_of_isDigitOf (by decide) first]
    rw [List.length_append, List.length_singleton] at rest ⊢
    split at short
    · have : digits.length = 0 ∨ digits.length = 1 := by omega
      rcases this with none | one
      · rw [none] at rest ⊢
        omega
      · rw [one] at rest ⊢
        omega
    · have : digits.length = 0 := by omega
      rw [this] at rest ⊢
      omega

/-! ## Reading one piece -/

theorem unescape_cons (h : c ≠ 0x5C) (rest : List Nat) :
    unescape (c :: rest) = c :: unescape rest := by
  rw [unescape.eq_def]
  simp only [if_neg h]

theorem unescape_escape (c : Nat) (rest : List Nat) :
    unescape (0x5C :: c :: rest) = (readEscape c rest).1 ++ unescape (readEscape c rest).2 := by
  rw [unescape.eq_def]
  simp only [if_pos]

theorem unescape_append_of_ne (h : ∀ d ∈ digits, d ≠ 0x5C) (rest : List Nat) :
    unescape (digits ++ rest) = digits ++ unescape rest := by
  induction digits with
  | nil => rfl
  | cons d digits ih =>
    rw [List.cons_append, unescape_cons (h d (by simp)),
      ih fun e he => h e (List.mem_cons_of_mem _ he)]
    rfl

theorem readEscape_letter {value : Nat} (h : (c, value) ∈ letters) (rest : List Nat) :
    readEscape c rest = ([value], rest) := by
  simp only [letters, List.mem_cons, List.not_mem_nil, or_false, Prod.mk.injEq] at h
  rcases h with ⟨rfl, rfl⟩ | ⟨rfl, rfl⟩ | ⟨rfl, rfl⟩ | ⟨rfl, rfl⟩ | ⟨rfl, rfl⟩ | ⟨rfl, rfl⟩ <;> rfl

theorem readEscape_byte (length : digits.length = 2) (hex : ∀ c ∈ digits, isDigitOf 16 c = true)
    (rest : List Nat) : readEscape 0x78 (digits ++ rest) = ([valueOf 16 digits], rest) := by
  have found : fixedHex? 2 (digits ++ rest) = some (valueOf 16 digits, rest) :=
    fixedHex?_eq_some_iff.mpr ⟨digits, rfl, length, hex, rfl⟩
  rw [readEscape.eq_def, if_neg (by decide), if_pos rfl, found]

theorem readEscape_unit (length : digits.length = 4) (hex : ∀ c ∈ digits, isDigitOf 16 c = true)
    (rest : List Nat) : readEscape 0x75 (digits ++ rest) = ([valueOf 16 digits], rest) := by
  have found : fixedHex? 4 (digits ++ rest) = some (valueOf 16 digits, rest) :=
    fixedHex?_eq_some_iff.mpr ⟨digits, rfl, length, hex, rfl⟩
  have noBraces : bracedHex? (digits ++ rest) = none := by
    rw [bracedHex?_eq_none_iff]
    rintro ⟨inner, tail, split, -⟩
    cases digits with
    | nil => cases length
    | cons d digits =>
      have first := hex d (by simp)
      simp only [List.cons_append, List.cons.injEq] at split
      rw [split.1] at first
      cases first
  rw [readEscape.eq_def, if_pos rfl, noBraces]
  simp only [found]

theorem readEscape_braced (filled : digits ≠ []) (hex : ∀ c ∈ digits, isDigitOf 16 c = true)
    (le : valueOf 16 digits ≤ lastPoint) (rest : List Nat) :
    readEscape 0x75 (0x7B :: digits ++ 0x7D :: rest) = ([valueOf 16 digits], rest) := by
  rw [readEscape.eq_def, if_pos rfl, bracedHex?_eq_some_iff.mpr ⟨rfl, filled, hex⟩]
  simp only [if_pos le]

theorem readEscape_octal (h : IsOctal (c :: digits))
    (ends : ∀ d ∈ rest.head?, ¬IsOctal (c :: digits ++ [d])) :
    readEscape c (digits ++ rest) = ([valueOf 8 (c :: digits)], rest) := by
  have most := length_le_octalExtra h
  have stop : digits.length < octalExtra c → ∀ d ∈ rest.head?, isDigitOf 8 d = false :=
    fun short d hd => Bool.eq_false_iff.mpr fun digit => ends d hd (isOctal_concat h short digit)
  obtain ⟨-, -, octal, -⟩ := h
  have first := octal c (by simp)
  have range := (isDigitOf_iff_of_le_ten (by decide)).mp first
  have taken := takeWhile_take (fun d hd => octal d (List.mem_cons_of_mem _ hd)) most stop
  rw [readEscape.eq_def, if_neg (by omega), if_neg (by omega), if_pos first]
  simp only [taken, List.drop_left]

theorem readEscape_lineEnd (h : c :: digits ∈ lineEnds)
    (ends : c :: digits = [0x0D] → rest.head? ≠ some 0x0A) :
    readEscape c (digits ++ rest) = ([], rest) := by
  simp only [lineEnds, List.mem_cons, List.not_mem_nil, or_false, List.cons.injEq] at h
  rcases h with ⟨rfl, rfl⟩ | ⟨rfl, rfl⟩ | ⟨rfl, rfl⟩ | ⟨rfl, rfl⟩ | ⟨rfl, rfl⟩
  · rfl
  · have follows := ends rfl
    rw [List.nil_append, readEscape.eq_def, if_neg (by decide), if_neg (by decide),
      if_neg (by decide), if_pos (by decide)]
    cases rest with
    | nil => rfl
    | cons d rest =>
      split
      · next tail same =>
        rw [(List.cons.inj same).1] at follows
        exact absurd rfl follows
      · rfl
  · rfl
  · rfl
  · rfl

/-- A code point that begins no escape stands for itself. -/
theorem readEscape_other (letter : c ∉ letters.map Prod.fst) (octal : isDigitOf 8 c = false)
    (line : [c] ∉ lineEnds) (byte : c = 0x78 → ¬BeginsWithHex 2 rest)
    (unit : c = 0x75 → ¬BeginsWithHex 4 rest ∧ ¬BeginsWithBraces (fun _ => True) rest) :
    readEscape c rest = ([c], rest) := by
  have noLetter : letterEscape? c = none := by
    simp only [letters, List.map_cons, List.map_nil, List.mem_cons, List.not_mem_nil,
      or_false, not_or] at letter
    obtain ⟨h1, h2, h3, h4, h5, h6⟩ := letter
    rw [letterEscape?, if_neg h1, if_neg h2, if_neg h3, if_neg h4, if_neg h5, if_neg h6]
  have noLine : isLineEnd c = false := by
    simp only [lineEnds, List.mem_cons, List.not_mem_nil, or_false, List.cons.injEq, and_true,
      not_or] at line
    simp only [isLineEnd, Bool.or_eq_false_iff, decide_eq_false_iff_not]
    exact ⟨⟨⟨line.1, line.2.1⟩, line.2.2.2.1⟩, line.2.2.2.2⟩
  unfold readEscape
  split
  · next hu =>
    obtain ⟨noHex, noBraces⟩ := unit hu
    rw [bracedHex?_eq_none_iff.mpr noBraces]
    simp only [fixedHex?_eq_none_iff.mpr noHex]
  · split
    · next hx =>
      rw [fixedHex?_eq_none_iff.mpr (byte hx)]
    · rw [octal, noLine, noLetter]
      rfl

/-- An escape in braces beyond the last code point stays as it is. -/
theorem unescape_oversized (h : BeginsWithBraces (lastPoint < ·) rest) :
    unescape (0x5C :: 0x75 :: rest) = 0x5C :: 0x75 :: unescape rest := by
  obtain ⟨digits, tail, rfl, filled, hex, large⟩ := h
  have read : readEscape 0x75 (0x7B :: digits ++ 0x7D :: tail) =
      (0x5C :: 0x75 :: 0x7B :: digits ++ [0x7D], tail) := by
    rw [readEscape.eq_def, if_pos rfl, bracedHex?_eq_some_iff.mpr ⟨rfl, filled, hex⟩]
    simp only [if_neg (Nat.not_le.mpr large)]
  have free : ∀ d ∈ 0x7B :: digits ++ [0x7D], d ≠ 0x5C := by
    rintro d hd rfl
    simp only [List.cons_append, List.mem_cons, List.mem_append, List.not_mem_nil, or_false] at hd
    rcases hd with hd | hd | hd
    · cases hd
    · cases hex _ hd
    · cases hd
  have rest : 0x7B :: digits ++ 0x7D :: tail = (0x7B :: digits ++ [0x7D]) ++ tail := by simp
  rw [unescape_escape, read]
  rw [rest, unescape_append_of_ne free]
  simp

end

/-! ## Reading all pieces -/

namespace Piece

variable {p : Piece} {rest : List Nat} {pieces : List Piece}

/-- The text that follows makes the piece an escape beyond the last code point. -/
def IsOversized (p : Piece) (rest : List Nat) : Prop :=
  p.written = [0x5C, 0x75] ∧ BeginsWithBraces (lastPoint < ·) rest

instance (p : Piece) (rest : List Nat) : Decidable (p.IsOversized rest) :=
  inferInstanceAs (Decidable (_ ∧ _))

/-- The backslash, where it stays. -/
def kept (p : Piece) (rest : List Nat) : List Nat := if p.IsOversized rest then [0x5C] else []

theorem points_digits (base : Nat) (digits : List Nat) :
    [Nat.ofDigits base (digits.reverse.map digitOf)] = [valueOf base digits] := by
  rw [valueOf_eq_ofDigits]

theorem kept_of_written (h : p.written ≠ [0x5C, 0x75]) (rest : List Nat) : p.kept rest = [] :=
  if_neg fun oversized => h oversized.1

/-- An escape is read as what it stands for where its backslash does not stay. -/
theorem unescape_append_of_escape {c : Nat} {more : List Nat} (text : p.written = 0x5C :: c :: more)
    (fits : ¬p.IsOversized rest) (read : readEscape c (more ++ rest) = (p.points, rest)) :
    unescape (p.written ++ rest) = p.kept rest ++ p.points ++ unescape rest := by
  rw [kept, if_neg fits, text]
  show unescape (0x5C :: c :: (more ++ rest)) = _
  rw [unescape_escape, read]
  rfl

/-- A piece is read as what it stands for, whatever comes after it. -/
theorem unescape_append (h : p.Fits rest) :
    unescape (p.written ++ rest) = p.kept rest ++ p.points ++ unescape rest := by
  cases p with
  | plain c =>
    obtain ⟨-, ne⟩ := h
    rw [kept_of_written (by simp [written])]
    exact unescape_cons ne rest
  | letter c value =>
    have text : (letter c value).written = 0x5C :: c :: [] := rfl
    refine unescape_append_of_escape text ?_ (readEscape_letter h rest)
    rintro ⟨same, -⟩
    obtain rfl : c = 0x75 := by simpa [written] using same
    simp [Fits, letters] at h
  | byte digits =>
    exact unescape_append_of_escape rfl (fun oversized => by cases oversized.1)
      ((readEscape_byte h.1 h.2 rest).trans (by rw [points, points_digits]))
  | unit digits =>
    refine unescape_append_of_escape rfl (fun oversized => ?_)
      ((readEscape_unit h.1 h.2 rest).trans (by rw [points, points_digits]))
    have empty : digits = [] := by simpa [written] using oversized.1
    rw [empty] at h
    cases h.1
  | braced digits =>
    obtain ⟨filled, hex, le⟩ := h
    have text : (braced digits).written = 0x5C :: 0x75 :: (0x7B :: digits ++ [0x7D]) := rfl
    refine unescape_append_of_escape text (fun oversized => ?_) ?_
    · have same := oversized.1
      simp [written] at same
    · rw [List.append_assoc, points, points_digits]
      exact readEscape_braced filled hex le rest
  | octal digits =>
    obtain ⟨octal, ends⟩ := h
    cases digits with
    | nil => exact absurd rfl octal.1
    | cons c digits =>
      refine unescape_append_of_escape rfl (fun oversized => ?_)
        ((readEscape_octal octal ends).trans (by rw [points, points_digits]))
      have first := octal.2.2.1 c (by simp)
      obtain ⟨rfl, -⟩ : c = 0x75 ∧ digits = [] := by simpa [written] using oversized.1
      cases first
  | continuation lineEnd =>
    obtain ⟨mem, ends⟩ := h
    cases lineEnd with
    | nil => simp [lineEnds] at mem
    | cons c lineEnd =>
      refine unescape_append_of_escape rfl (fun oversized => ?_) (readEscape_lineEnd mem ends)
      obtain ⟨rfl, rfl⟩ : c = 0x75 ∧ lineEnd = [] := by simpa [written] using oversized.1
      simp [lineEnds] at mem
  | other c =>
    obtain ⟨-, letter, octal, line, byte, unit⟩ := h
    by_cases oversized : (other c).IsOversized rest
    · rw [kept, if_pos oversized]
      obtain ⟨text, braces⟩ := oversized
      obtain rfl : c = 0x75 := by simpa [written] using text
      exact unescape_oversized braces
    · have text : (other c).written = 0x5C :: c :: [] := rfl
      refine unescape_append_of_escape text oversized
        (readEscape_other letter octal line byte fun hu => ?_)
      refine ⟨(unit hu).1, ?_⟩
      rintro ⟨digits, tail, split, filled, hex, -⟩
      rcases Nat.le_total (valueOf 16 digits) lastPoint with le | le
      · exact (unit hu).2 ⟨digits, tail, split, filled, hex, le⟩
      · rcases Nat.eq_or_lt_of_le le with same | large
        · exact (unit hu).2 ⟨digits, tail, split, filled, hex, Nat.le_of_eq same.symm⟩
        · exact oversized ⟨by rw [hu]; rfl, digits, tail, split, filled, hex, large⟩

/-- What a piece stands for are code points. -/
theorem le_lastPoint_of_mem_points (h : p.Fits rest) {c : Nat} (hc : c ∈ p.points) :
    c ≤ lastPoint := by
  unfold lastPoint
  cases p with
  | plain d =>
    rw [List.mem_singleton.mp hc]
    exact h.1
  | letter d value =>
    rw [List.mem_singleton.mp hc]
    simp only [Fits, letters, List.mem_cons, Prod.mk.injEq, List.not_mem_nil, or_false] at h
    omega
  | byte digits =>
    have small := valueOf_lt_pow h.2
    rw [h.1] at small
    rw [List.mem_singleton.mp hc, ← valueOf_eq_ofDigits]
    omega
  | unit digits =>
    have small := valueOf_lt_pow h.2
    rw [h.1] at small
    rw [List.mem_singleton.mp hc, ← valueOf_eq_ofDigits]
    omega
  | braced digits =>
    rw [List.mem_singleton.mp hc, ← valueOf_eq_ofDigits]
    exact h.2.2
  | octal digits =>
    have small := h.1.2.2.2
    rw [List.mem_singleton.mp hc, ← valueOf_eq_ofDigits]
    omega
  | continuation lineEnd => cases hc
  | other d =>
    rw [List.mem_singleton.mp hc]
    exact h.1

/-- The code points that a sequence of pieces stands for, with the backslashes that stay. -/
def pointsOf : List Piece → List Nat
  | [] => []
  | p :: rest => p.kept (spelling rest) ++ p.points ++ pointsOf rest

/-- A sequence of pieces is read piece by piece. -/
theorem unescape_spelling (h : Fit pieces) : unescape (spelling pieces) = pointsOf pieces := by
  induction pieces with
  | nil => rw [spelling, List.flatMap_nil, unescape.eq_def, pointsOf]
  | cons p rest ih => exact (unescape_append h.1).trans (congrArg (_ ++ ·) (ih h.2))

theorem le_lastPoint_of_mem_pointsOf (h : Fit pieces) {c : Nat} (hc : c ∈ pointsOf pieces) :
    c ≤ lastPoint := by
  induction pieces with
  | nil => cases hc
  | cons p rest ih =>
    rcases List.mem_append.mp hc with hc | hc
    · rcases List.mem_append.mp hc with hc | hc
      · unfold kept at hc
        split at hc
        · rw [List.mem_singleton.mp hc]
          decide
        · cases hc
      · exact le_lastPoint_of_mem_points h.1 hc
    · exact ih h.2 hc

end Piece

/-- The code units that a sequence of pieces stands for.  Before an escape beyond the last code
point, the backslash stays. -/
def unitsOfPieces : List Piece → List Nat
  | [] => []
  | p :: rest => (if p.IsOversized (spelling rest) then [0x5C] else []) ++ p.units ++
      unitsOfPieces rest

theorem Piece.flatMap_unitsOf_pointsOf (pieces : List Piece) :
    (pointsOf pieces).flatMap unitsOf = unitsOfPieces pieces := by
  induction pieces with
  | nil => rfl
  | cons p rest ih =>
    rw [pointsOf, List.flatMap_append, List.flatMap_append, ih, kept, unitsOfPieces]
    split <;> rfl

/-! ## Literals -/

/-- The value of the text of a string literal is the text that has the code units of its pieces and
in which no pair of surrogates is left apart. -/
theorem readString_spelling {pieces : List Piece} (h : Fit pieces) (opening closing : Nat)
    (t : Text) : t = readString ⟨opening :: spelling pieces ++ [closing]⟩ ↔
      t.IsJoined ∧ t.units = unitsOfPieces pieces := by
  have inner : unquoted ⟨opening :: spelling pieces ++ [closing]⟩ = spelling pieces := by
    simp [unquoted]
  rw [readString, inner, Piece.unescape_spelling h,
    eq_joinPairs_iff fun c hc => Piece.le_lastPoint_of_mem_pointsOf h hc,
    Piece.flatMap_unitsOf_pointsOf]

/-- The pieces of `\u{1f600}\1018\8\xe9\u\uD83D`, an escaped line end, and `\uDE00\u{110000}`. -/
def mixedPieces : List Piece :=
  [.braced [0x31, 0x66, 0x36, 0x30, 0x30], .octal [0x31, 0x30, 0x31], .plain 0x38, .other 0x38,
    .byte [0x65, 0x39], .other 0x75, .unit [0x44, 0x38, 0x33, 0x44], .continuation [0x0D, 0x0A],
    .unit [0x44, 0x45, 0x30, 0x30], .other 0x75, .plain 0x7B, .plain 0x31, .plain 0x31,
    .plain 0x30, .plain 0x30, .plain 0x30, .plain 0x30, .plain 0x7D]

/-- Two escapes and a line end between them make one code point, and the last escape stays. -/
theorem mixedPieces_readString : Fit mixedPieces ∧
    (readString ⟨0x27 :: spelling mixedPieces ++ [0x27]⟩).IsJoined ∧
    (readString ⟨0x27 :: spelling mixedPieces ++ [0x27]⟩).units =
      [0xD83D, 0xDE00, 0x41, 0x38, 0x38, 0xE9, 0x75, 0xD83D, 0xDE00,
        0x5C, 0x75, 0x7B, 0x31, 0x31, 0x30, 0x30, 0x30, 0x30, 0x7D] := by
  have fit : Fit mixedPieces := by decide
  obtain ⟨joined, units⟩ := (readString_spelling fit 0x27 0x27 _).mp rfl
  exact ⟨fit, joined, units.trans (by decide)⟩

/-- The pieces of `\u{110000}`: no escape in braces has a value that large. -/
def oversizedEscape : List Piece :=
  [.other 0x75, .plain 0x7B, .plain 0x31, .plain 0x31, .plain 0x30, .plain 0x30, .plain 0x30,
    .plain 0x30, .plain 0x7D]

/-- The `u` does not stand for itself alone: its backslash is a part of the value. -/
theorem oversizedEscape_keeps_backslash : Fit oversizedEscape ∧
    (readString ⟨0x27 :: spelling oversizedEscape ++ [0x27]⟩).units ≠
      oversizedEscape.flatMap Piece.units := by
  have fit : Fit oversizedEscape := by decide
  refine ⟨fit, ?_⟩
  have inner : unquoted ⟨0x27 :: spelling oversizedEscape ++ [0x27]⟩ =
    spelling oversizedEscape := by decide
  rw [readString, inner, Piece.unescape_spelling fit, Text.units, flatMap_unitsOf_joinPairs,
    Piece.flatMap_unitsOf_pointsOf]
  decide

end FreeNames.Literal
