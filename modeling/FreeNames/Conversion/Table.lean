import FreeNames.Conversion.Chains
import FreeNames.Conversion.Expressions
import FreeNames.Conversion.Functions
import FreeNames.Conversion.Modules
import FreeNames.Conversion.Patterns
import FreeNames.Conversion.Statements
import FreeNames.Tree.Walk

/-!
# Conversion

Every symbol of the grammar has a template; a symbol without a rule gives an opaque node of
its own name that holds its named children.  `convert` fills the template of a node with
the conversions of its parts, and `Parsed.toTree` numbers the result.

* `convert_eq` unfolds a conversion by one template.
-/

namespace FreeNames.Conversion

/-- A node that the vocabulary does not know; elements of markup leave out their name. -/
def opaqueNode {w : Parsed} (x : Inside w) : Template w :=
  let parts :=
    if x.symbol.isTagged then x.parts.eraseP fun q => q.parsed.field = some "name" else x.parts
  let kept := parts.filter fun q => q.parsed.isNamed && !q.symbol.isExtra
  .node (Kind.ofName x.symbol.name) x.span [("children", .holes kept)]

/-- The template of a node of a parse. -/
def template {w : Parsed} (src : Source) (inObject : Bool) (x : Inside w) : Template w :=
  match x.symbol with
  | .program => program x
  | .expressionStatement => expressionStatement x
  | .emptyStatement => .node .emptyStatement x.span []
  | .debuggerStatement => .node .debuggerStatement x.span []
  | .statementBlock => blockStatement x
  | .variableDeclaration => variableDeclaration x
  | .lexicalDeclaration => lexicalDeclaration src x
  | .variableDeclarator => variableDeclarator x
  | .ifStatement => ifStatement x
  | .switchStatement => switchStatement x
  | .switchCase => switchCase x
  | .switchDefault => switchDefault x
  | .forStatement => forStatement x
  | .forInStatement => forInStatement src x
  | .whileStatement => whileStatement x
  | .doStatement => doWhileStatement x
  | .tryStatement => tryStatement x
  | .catchClause => catchClause x
  | .returnStatement => returnStatement x
  | .throwStatement => throwStatement x
  | .breakStatement => jumpStatement src .breakStatement x
  | .continueStatement => jumpStatement src .continueStatement x
  | .labeledStatement => labeledStatement src x
  | .withStatement => withStatement x
  | .importStatement => importDeclaration src x
  | .importSpecifier => importSpecifier src x
  | .exportStatement => exportStatement src x
  | .exportSpecifier => exportSpecifier src x
  | .functionDeclaration | .generatorFunctionDeclaration => function src .functionDeclaration x
  | .functionExpression | .olderFunction | .generatorFunction =>
    function src .functionExpression x
  | .arrowFunction => arrowFunction src x
  | .classDeclaration => classLike src .classDeclaration x
  | .classExpression => classLike src .classExpression x
  | .classBody => classBody x
  | .methodDefinition => methodDefinition src inObject x
  | .fieldDefinition => fieldDefinition src x
  | .classStaticBlock => staticBlock x
  | .decorator => decorator x
  | .objectPattern => objectPattern src x
  | .shorthandPropertyIdentifierPattern => identifier src x.span
  | .arrayPattern => arrayPattern x
  | .assignmentPattern => assignmentPattern x
  | .restPattern => restElement x
  | .identifier => identifier src x.span
  | .undefinedWord => .node .identifier x.span [("name", .word "undefined")]
  | .thisWord => .node .thisExpression x.span []
  | .superWord => .node .super x.span []
  | .privatePropertyIdentifier => privateName src x.span
  | .trueWord => wordLiteral (.bool true) "true" x
  | .falseWord => wordLiteral (.bool false) "false" x
  | .nullWord => wordLiteral .null "null" x
  | .number => numberLiteral src x
  | .string => stringLiteral src x
  | .regex => regexLiteral src x
  | .templateString => templateLiteral src x
  | .object => objectExpression src x
  | .array => arrayExpression x
  | .spreadElement => spreadElement x
  | .parenthesizedExpression => x.first
  | .sequenceExpression => sequenceExpression x
  | .newExpression => newExpression x
  | .assignmentExpression => assignment (.word "=") x
  | .augmentedAssignmentExpression => assignment (x.textOf src "operator") x
  | .unaryExpression => unaryExpression src x
  | .updateExpression => updateExpression src x
  | .ternaryExpression => conditionalExpression x
  | .awaitExpression => awaitExpression x
  | .yieldExpression => yieldExpression x
  | .metaProperty => metaProperty src x
  | .memberExpression | .subscriptExpression | .callExpression | .binaryExpression => chain src x
  | _ => opaqueNode x

/-- Convert a node of a parse, given whether its parent is an object literal. -/
def convert (src : Source) (p : Parsed) (inObject : Bool) : Except Fault Node :=
  (template src inObject p.inside).fill fun q => convert src q.parsed q.inObject
termination_by sizeOf p
decreasing_by exact q.lt

/-- A conversion fills one template with the conversions of the parts. -/
theorem convert_eq (src : Source) (p : Parsed) (inObject : Bool) :
    convert src p inObject =
      (template src inObject p.inside).fill fun q => convert src q.parsed q.inObject := by
  rw [convert]

end FreeNames.Conversion

namespace FreeNames

/-- The abstract syntax of a parse, its nodes numbered in the order of fields. -/
def Parsed.toTree (root : Parsed) (src : Source) : Except Fault Node :=
  (Conversion.convert src root false).map Node.numbered

/-- Why a source gives no abstract syntax. -/
inductive ReadError where
  | parse (e : ParseError)
  | fault (f : Fault)
  deriving DecidableEq, Repr

def ReadError.message : ReadError → Text
  | .parse e => e.message
  | .fault f => f.message

/-- The abstract syntax of a source, given its parse. -/
def Source.toTree (src : Source) (root : Parsed) (path : Option String) : Except ReadError Node :=
  match root.check path with
  | .error e => .error (.parse e)
  | .ok parsed => (parsed.toTree src).mapError .fault

end FreeNames
