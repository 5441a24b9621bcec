import FreeNames.Text

/-!
# Markup

Console markup writes its tags in square brackets, and a backslash in front of a bracket
takes away its meaning.  `Text.escapeMarkup` makes a text that shows as it is written.

* A tag is a bracketed group without an opening bracket inside that begins with a
  lower-case letter or one of `#`, `/`, `@`.
* The backslashes in front of a tag are doubled and one more is added; a single backslash
  at the end of the result is doubled too.
* `markupPieces` reads markup: of the backslashes in front of a group every two stand for
  one, and if one is left over, the group is text.
-/

namespace FreeNames

/-- May the code point begin a tag? -/
def beginsTag (c : Nat) : Bool :=
  (0x61 ≤ c && c ≤ 0x7A) || c = 0x23 || c = 0x2F || c = 0x40

/-- The tag at the front of a text, brackets included, and what follows it. -/
def tagGroup? : List Nat → Option (List Nat × List Nat)
  | 0x5B :: c :: rest =>
    if beginsTag c then
      let body := rest.takeWhile fun x => x ≠ 0x5B && x ≠ 0x5D
      match rest.dropWhile fun x => x ≠ 0x5B && x ≠ 0x5D with
      | 0x5D :: tail => some (0x5B :: c :: body ++ [0x5D], tail)
      | _ => none
    else none
  | _ => none

theorem tagGroup?_length {points group tail : List Nat}
    (h : tagGroup? points = some (group, tail)) : tail.length < points.length := by
  unfold tagGroup? at h
  split at h
  · next c rest =>
    have hle : (rest.dropWhile fun x => x ≠ 0x5B && x ≠ 0x5D).length ≤ rest.length :=
      (List.dropWhile_suffix _).length_le
    split at h
    · simp only at h
      split at h
      · next tail' heq =>
        cases h
        rw [heq] at hle
        simp only [List.length_cons] at hle ⊢
        omega
      · cases h
    · cases h
  · cases h

/-- The backslashes at the front of a text, the group behind them, and what follows it. -/
structure GroupAhead where
  slashes : List Nat
  group : List Nat
  tail : List Nat

/-- Look for a group behind the backslashes at the front of a text. -/
def groupAhead? (points : List Nat) : Option GroupAhead :=
  (tagGroup? (points.dropWhile (· = 0x5C))).map fun (group, tail) =>
    ⟨points.takeWhile (· = 0x5C), group, tail⟩

theorem groupAhead?_length {points : List Nat} {g : GroupAhead} (h : groupAhead? points = some g) :
    g.tail.length < points.length := by
  obtain ⟨⟨group, tail⟩, hg, rfl⟩ := Option.map_eq_some_iff.mp h
  exact Nat.lt_of_lt_of_le (tagGroup?_length hg) (List.dropWhile_suffix _).length_le

/-- Escape every tag. -/
def escapeTags (points : List Nat) : List Nat :=
  match _ahead : groupAhead? points with
  | some g => g.slashes ++ g.slashes ++ 0x5C :: g.group ++ escapeTags g.tail
  | none =>
    match points with
    | [] => []
    | c :: rest => c :: escapeTags rest
termination_by points.length
decreasing_by
  · exact groupAhead?_length _ahead
  · simp

/-- Double a single backslash at the end. -/
def closeBackslash (points : List Nat) : List Nat :=
  match points.reverse with
  | [0x5C] => points ++ [0x5C]
  | 0x5C :: c :: _ => if c = 0x5C then points else points ++ [0x5C]
  | _ => points

/-- A text that markup shows as it is written. -/
def Text.escapeMarkup (t : Text) : Text := ⟨closeBackslash (escapeTags t.points)⟩

/-! ## Reading markup -/

/-- What markup is made of. -/
inductive MarkupPiece where
  | text (points : List Nat)
  | tag (group : List Nat)
  deriving DecidableEq, Repr

/-- A group behind backslashes: text if their number is odd, and otherwise a tag. -/
def GroupAhead.pieces (g : GroupAhead) : List MarkupPiece :=
  let shown := List.replicate (g.slashes.length / 2) 0x5C
  if g.slashes.length % 2 = 1 then [.text (shown ++ g.group)] else [.text shown, .tag g.group]

/-- Read markup. -/
def markupPieces (points : List Nat) : List MarkupPiece :=
  match _ahead : groupAhead? points with
  | some g => g.pieces ++ markupPieces g.tail
  | none =>
    match points with
    | [] => []
    | c :: rest => .text [c] :: markupPieces rest
termination_by points.length
decreasing_by
  · exact groupAhead?_length _ahead
  · simp

/-- What markup shows, without its tags. -/
def Text.shown (t : Text) : Text :=
  ⟨(markupPieces t.points).flatMap fun
    | .text points => points
    | .tag _ => []⟩

end FreeNames
