import FreeNames.Conversion.Names
import FreeNames.Literal.Str

/-!
# Expressions

The templates of literals and operators.  A nested sequence is flattened: the nested ones
are taken from the front of a list of pending sequences, while the other expressions of the
sequence in hand are put down at once.
-/

namespace FreeNames.Conversion

variable {w : Parsed}

/-! ## Literals -/

/-- A literal that is a word of its own. -/
def wordLiteral (v : Value) (raw : String) (x : Inside w) : Template w :=
  .node .literal x.span [("value", .value v), ("raw", .word raw)]

/-- The value of a numeric literal. -/
def numberValue : Option Number → Value
  | some (.whole n) => .int n
  | some (.real d) => .float d
  | none => .null

def numberLiteral (src : Source) (x : Inside w) : Template w :=
  match src.text? x.span with
  | none => .fault .notUtf8
  | some raw =>
    match Literal.readNumber raw with
    | .ok v =>
      .node .literal x.span [("value", .value (numberValue v)), ("raw", .value (.text raw))]
    | .error f => .fault f

def stringLiteral (src : Source) (x : Inside w) : Template w :=
  match src.text? x.span with
  | none => .fault .notUtf8
  | some raw =>
    .node .literal x.span
      [("value", .value (.text (Literal.readString raw))), ("raw", .value (.text raw))]

/-- The text of the part in a field, empty if there is none. -/
def textOrEmpty? (src : Source) (x : Inside w) (name : String) : Option Text :=
  match x.field? name with
  | some q => src.text? q.span
  | none => some .empty

def regexLiteral (src : Source) (x : Inside w) : Template w :=
  match textOrEmpty? src x "pattern", textOrEmpty? src x "flags" with
  | some pattern, some flags =>
    .node .literal x.span
      [("value", .null), ("raw", .text src x.span), ("regex", .value (.regex pattern flags))]
  | _, _ => .fault .notUtf8

/-- A template string: its fixed pieces, and the expressions in it, read in the order in which
they stand. -/
def templateLiteral (src : Source) (x : Inside w) : Template w :=
  let inTurn (substitutions : Bool) (f : Part w → Template w) : Slot w :=
    .many ((x.named.zipIdx.filter fun q =>
      decide (q.1.symbol = .templateSubstitution) = substitutions).map fun (q, n) =>
        .turn n (.one (f q)))
  .node .templateLiteral x.span
    [("quasis", inTurn false fun q =>
        .node .templateElement q.span [("raw", .text src q.span)]),
      ("expressions", inTurn true fun q => q.inside.first)]

/-- `new.target` and `import.meta`: the names before and after the first point. -/
def metaProperty (src : Source) (x : Inside w) : Template w :=
  match src.text? x.span with
  | none => .fault .notUtf8
  | some t =>
    let before : Text := ⟨t.points.takeWhile (· ≠ 0x2E)⟩
    let after : Text := ⟨(t.points.dropWhile (· ≠ 0x2E)).drop 1⟩
    let name (part : Text) : Slot w :=
      .one (.node .identifier x.span [("name", .value (.text (part.trim Text.isBlank)))])
    .node .metaProperty x.span [("meta", name before), ("property", name after)]

/-! ## Sequences -/

/-- The sequences directly in a sequence, the last one first. -/
def nestedSequences (x : Inside w) : List (Inside w) :=
  ((x.named.filter fun q => q.symbol = .sequenceExpression).map Part.inside).reverse

/-- The nested sequences are together smaller than the sequence. -/
theorem totalSize_nestedSequences_lt (x : Inside w) :
    Parsed.totalSize ((nestedSequences x).map Inside.parsed) < sizeOf x.parsed := by
  have sub : ((x.named.filter fun q => q.symbol = .sequenceExpression).map Part.parsed).Sublist
      x.parsed.children := by
    rw [← x.map_parsed_parts]
    exact (List.filter_sublist.trans List.filter_sublist).map _
  have hle := Parsed.totalSize_le_of_sublist sub
  have hlt := Parsed.totalSize_children_lt x.parsed
  rw [nestedSequences, List.map_reverse, Parsed.totalSize_reverse, List.map_map]
  exact Nat.lt_of_le_of_lt hle hlt

/-- The expressions of the pending sequences. -/
def sequenceParts : List (Inside w) → List (Part w)
  | [] => []
  | x :: pending =>
    (x.named.filter fun q => q.symbol ≠ .sequenceExpression)
      ++ sequenceParts (nestedSequences x ++ pending)
termination_by stack => Parsed.totalSize (stack.map Inside.parsed)
decreasing_by
  have := totalSize_nestedSequences_lt x
  simp only [List.map_append, Parsed.totalSize_append, List.map_cons, Parsed.totalSize_cons]
  omega

def sequenceExpression (x : Inside w) : Template w :=
  .node .sequenceExpression x.span [("expressions", .holes (sequenceParts [x]))]

/-! ## Operators -/

def newExpression (x : Inside w) : Template w :=
  .node .newExpression x.span
    [("callee", x.convert "constructor"),
      ("arguments", match x.field? "arguments" with
        | some q => .holes q.inside.named
        | none => .many [])]

/-- An assignment with this operator. -/
def assignment (operator : Slot w) (x : Inside w) : Template w :=
  .node .assignmentExpression x.span
    [("operator", operator), ("left", x.convert "left"), ("right", x.convert "right")]

def unaryExpression (src : Source) (x : Inside w) : Template w :=
  .node .unaryExpression x.span
    [("operator", x.textOf src "operator"), ("prefix", .bool true),
      ("argument", x.convert "argument")]

def updateExpression (src : Source) (x : Inside w) : Template w :=
  let start (name : String) : Nat := ((x.field? name).map fun q => q.span.start).getD 0
  .node .updateExpression x.span
    [("operator", x.textOf src "operator"),
      ("prefix", .bool (start "operator" < start "argument")),
      ("argument", x.convert "argument")]

def conditionalExpression (x : Inside w) : Template w :=
  .node .conditionalExpression x.span
    [("test", x.convert "condition"), ("consequent", x.convert "consequence"),
      ("alternate", x.convert "alternative")]

def awaitExpression (x : Inside w) : Template w :=
  .node .awaitExpression x.span [("argument", .one x.first)]

def yieldExpression (x : Inside w) : Template w :=
  .node .yieldExpression x.span
    [("argument", x.firstOrNull), ("delegate", .bool (x.hasToken [.star]))]

end FreeNames.Conversion
