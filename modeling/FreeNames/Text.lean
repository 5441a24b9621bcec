/-!
# Text as code points

JavaScript strings may hold half of a surrogate pair, which no `Char` is.  `Text`
is a string over all code points, so a name, a property key or a string literal is
carried exactly; file paths and the names of node kinds stay `String`s.

* `Text.ofString` and `Text.toString?` pass between the two: the second is undefined
  exactly on texts with a lone surrogate.
* `Text.le` is the order of code points, the order in which names are sorted.
-/

namespace FreeNames

/-- A string over all code points, lone surrogates included. -/
structure Text where
  points : List Nat
  deriving DecidableEq, Inhabited, Repr

namespace Text

/-- The code points of an ordinary string. -/
def ofString (s : String) : Text := ⟨s.toList.map Char.toNat⟩

instance : Coe String Text := ⟨ofString⟩

/-- The text without any code point. -/
def empty : Text := ⟨[]⟩

def isEmpty (t : Text) : Bool := t.points.isEmpty

def length (t : Text) : Nat := t.points.length

instance : Append Text := ⟨fun a b => ⟨a.points ++ b.points⟩⟩

@[simp] theorem points_append (a b : Text) : (a ++ b).points = a.points ++ b.points := rfl

/-- The halves of surrogate pairs: the code points that are no characters. -/
def isSurrogate (c : Nat) : Bool := 0xD800 ≤ c && c < 0xE000

def hasSurrogate (t : Text) : Bool := t.points.any isSurrogate

/-- The ordinary string with these code points, if every one is a character. -/
def toString? (t : Text) : Option String :=
  if t.points.all fun c => decide c.isValidChar then
    some (String.ofList (t.points.map Char.ofNat))
  else
    none

/-- The ordinary string with these code points; what is no character becomes a question
mark. -/
def toStringLossy (t : Text) : String :=
  String.ofList (t.points.map fun c => if c.isValidChar then Char.ofNat c else '?')

/-- The order of code points, as in a dictionary. -/
def le (a b : Text) : Bool :=
  go a.points b.points
where
  go : List Nat → List Nat → Bool
    | [], _ => true
    | _ :: _, [] => false
    | x :: xs, y :: ys => x < y || (x = y && go xs ys)

/-- Put `separator` between the parts. -/
def join (separator : Text) : List Text → Text
  | [] => empty
  | [t] => t
  | t :: u :: rest => t ++ separator ++ join separator (u :: rest)

/-- The decimal numeral of a number. -/
def ofNat (n : Nat) : Text := ⟨(Nat.toDigits 10 n).map Char.toNat⟩

/-- The decimal numeral of an integer, with a minus sign below zero. -/
def ofInt : Int → Text
  | .ofNat n => ofNat n
  | .negSucc n => ⟨0x2D :: (ofNat (n + 1)).points⟩

/-- Drop code points of a class at the front. -/
def dropStart (p : Nat → Bool) (t : Text) : Text := ⟨t.points.dropWhile p⟩

/-- Drop code points of a class at the end. -/
def dropEnd (p : Nat → Bool) (t : Text) : Text := ⟨(t.points.reverse.dropWhile p).reverse⟩

/-- Drop code points of a class at both ends. -/
def trim (p : Nat → Bool) (t : Text) : Text := (t.dropStart p).dropEnd p

/-- Does the text end with the code point? -/
def endsWith (t : Text) (c : Nat) : Bool := t.points.getLast? = some c

/-- The parts between the occurrences of one code point; always at least one part. -/
def splitOn (t : Text) (c : Nat) : List Text := (t.points.splitOn c).map Text.mk

/-! ## Views -/

@[simp] theorem ofString_points (s : String) : (ofString s).points = s.toList.map Char.toNat := rfl

theorem ofString_injective {a b : String} (h : ofString a = ofString b) : a = b := by
  have hp : a.toList.map Char.toNat = b.toList.map Char.toNat := congrArg points h
  have inj : ∀ x y : Char, x.toNat = y.toNat → x = y := fun x y e =>
    Char.ext (UInt32.toNat_inj.mp e)
  have hl : a.toList = b.toList := by
    have key : ∀ l m : List Char, l.map Char.toNat = m.map Char.toNat → l = m := by
      intro l
      induction l with
      | nil => intro m hm; cases m with
        | nil => rfl
        | cons _ _ => simp at hm
      | cons x xs ih => intro m hm; cases m with
        | nil => simp at hm
        | cons y ys =>
          simp only [List.map_cons, List.cons.injEq] at hm
          rw [inj x y hm.1, ih ys hm.2]
    exact key _ _ hp
  exact String.toList_inj.mp hl

end Text

end FreeNames
