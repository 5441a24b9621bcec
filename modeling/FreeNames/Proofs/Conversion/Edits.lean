import FreeNames.Grammar.Parsed
import Mathlib.Logic.Relation

/-!
# Edits of parses

A parse may be edited in one of its child lists.  Two edits are of interest because abstract
syntax must not show them: a comment more, and parentheses around an expression.

* `Parsed.Edits` is one edit somewhere in a parse.
* `Parsed.AddsComment` inserts one comment into one child list.
* `Parsed.AddsParentheses` puts one child into parentheses; `Parsed.expects` says where the
  grammar has an expression or the target of an assignment.
-/

namespace FreeNames

/-! ## Byte ranges -/

namespace Span

/-- The range is a part of another. -/
def Within (inner outer : Span) : Prop :=
  outer.start ≤ inner.start ∧ inner.start ≤ inner.stop ∧ inner.stop ≤ outer.stop

/-- No byte lies in both ranges. -/
def Disjoint (a b : Span) : Prop :=
  ∀ i, a.start ≤ i → i < a.stop → b.start ≤ i → i < b.stop → False

end Span

/-! ## Where expressions stand -/

namespace Symbol

/-- The nodes whose named children are expressions or targets of assignments.  A symbol without
a rule may have them anywhere. -/
def holdsExpressions : Symbol → Bool
  | .expressionStatement | .returnStatement | .throwStatement | .classHeritage | .decorator
  | .templateSubstitution | .computedPropertyName | .array | .arrayPattern | .spreadElement
  | .restPattern | .sequenceExpression | .parenthesizedExpression | .awaitExpression
  | .yieldExpression | .other _ => true
  | _ => false

/-- The fields of a node with an expression or the target of an assignment. -/
def expressionFields : Symbol → List String
  | .variableDeclarator | .switchStatement | .switchCase | .fieldDefinition | .pair
  | .pairPattern | .exportStatement => ["value"]
  | .ifStatement | .whileStatement | .doStatement => ["condition"]
  | .forStatement => ["initializer", "condition", "increment"]
  | .forInStatement => ["left", "right", "value"]
  | .withStatement | .memberExpression => ["object"]
  | .subscriptExpression => ["object", "index"]
  | .arrowFunction => ["body"]
  | .objectAssignmentPattern | .assignmentPattern | .assignmentExpression
  | .augmentedAssignmentExpression | .binaryExpression => ["left", "right"]
  | .newExpression => ["constructor"]
  | .callExpression => ["function"]
  | .unaryExpression | .updateExpression => ["argument"]
  | .ternaryExpression => ["condition", "consequence", "alternative"]
  | _ => []

/-- What stands beside expressions, or in the place of one, without being one. -/
def isNoExpression : Symbol → Bool
  | .emptyStatement | .expressionStatement | .statementBlock | .exportClause | .namespaceExport
  | .decorator | .shorthandPropertyIdentifier | .shorthandPropertyIdentifierPattern | .importWord
  | .comma | .openBracket | .closeBracket => true
  | _ => false

end Symbol

namespace Parsed

/-- A field of a node that holds an expression or the target of an assignment.  The left side of
a loop over a collection is neither where a keyword declares it. -/
def hasExpressionIn (p : Parsed) (name : String) : Bool :=
  p.symbol.expressionFields.contains name &&
    !(p.symbol = .forInStatement && name = "left" && (p.field? "kind").isSome)

/-- Does the child stand where the node has an expression or the target of an assignment?  A
sequence directly in a sequence is a part of that sequence. -/
def expects (p c : Parsed) : Bool :=
  c.isNamed && !c.symbol.isExtra && !c.symbol.isNoExpression &&
    (p.symbol.holdsExpressions && !(p.symbol = .sequenceExpression && c.symbol = .sequenceExpression)
      || c.field.any p.hasExpressionIn)

/-! ## Edits -/

/-- The node with other children. -/
def withChildren : Parsed → List Parsed → Parsed
  | mk s n m e sp f _, cs => mk s n m e sp f cs

/-- The node in another field of its parent. -/
def withField : Parsed → Option String → Parsed
  | mk s n m e sp _ cs, f => mk s n m e sp f cs

/-- One child list of a parse is edited, that of the root or of a node below it. -/
inductive Edits (E : Parsed → List Parsed → Prop) : Parsed → Parsed → Prop
  | here {p : Parsed} {cs : List Parsed} : E p cs → Edits E p (p.withChildren cs)
  | inside {p c c' : Parsed} {before after : List Parsed} :
      p.children = before ++ c :: after → Edits E c c' →
        Edits E p (p.withChildren (before ++ c' :: after))

/-! ## Comments -/

/-- A comment as a parser gives it: a named leaf in no field and without an error. -/
structure IsComment (c : Parsed) : Prop where
  isExtra : c.symbol.isExtra = true
  isNamed : c.isNamed = true
  leaf : c.children = []
  field : c.field = none
  isMissing : c.isMissing = false
  isFlagged : c.isFlagged = false

/-- The children of the node with one comment more. -/
def InsertsComment (p : Parsed) (cs : List Parsed) : Prop :=
  ∃ before c after, p.children = before ++ after ∧ c.IsComment ∧ cs = before ++ c :: after

/-- One comment is inserted somewhere in a parse. -/
abbrev AddsComment : Parsed → Parsed → Prop := Edits InsertsComment

/-! ## Parentheses -/

/-- A token with this text. -/
def token (text : String) (span : Span) : Parsed :=
  mk (.other text) false false false span none []

/-- A node in parentheses, which take its field. -/
def parenthesized (e : Parsed) (inner : Option String) (span opening closing : Span) : Parsed :=
  mk .parenthesizedExpression true false e.isFlagged span e.field
    [token "(" opening, e.withField inner, token ")" closing]

/-- The children of the node with one of them in parentheses.  It stands where the node has an
expression; the parentheses run around it and overlap none of its siblings. -/
def Parenthesizes (p : Parsed) (cs : List Parsed) : Prop :=
  ∃ before e after inner span opening closing,
    p.children = before ++ e :: after ∧ p.expects e = true ∧
      e.span.Within span ∧ (∀ sibling ∈ before ++ after, sibling.span.Disjoint span) ∧
      cs = before ++ e.parenthesized inner span opening closing :: after

/-- The operator of an increment or decrement is no empty token. -/
def HasWrittenOperator (p : Parsed) : Prop :=
  p.symbol = .updateExpression → ∀ o, p.field? "operator" = some o → o.span.start < o.span.stop

/-- One child somewhere in a parse is put in parentheses. -/
abbrev AddsParentheses : Parsed → Parsed → Prop :=
  Edits fun p cs => p.Parenthesizes cs ∧ p.HasWrittenOperator

end Parsed

end FreeNames
