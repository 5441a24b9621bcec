/-!
# Kinds of syntax nodes

The kinds of the abstract syntax of JavaScript.  A kind that the vocabulary does not know
is `Kind.other` and keeps its name, so trees with nodes of later grammars are carried
unchanged.

* `Kind.name` and `Kind.ofName` pass between kinds and their names.
* `Kind.isFunction`, `Kind.isClass`, `Kind.isLoop` and `Kind.isPattern` are the groups that
  the rules of scope speak of.
-/

namespace FreeNames

/-- What a syntax node is. -/
inductive Kind where
  | program
  | expressionStatement
  | emptyStatement
  | debuggerStatement
  | blockStatement
  | variableDeclaration
  | variableDeclarator
  | ifStatement
  | switchStatement
  | switchCase
  | forStatement
  | forInStatement
  | forOfStatement
  | whileStatement
  | doWhileStatement
  | tryStatement
  | catchClause
  | returnStatement
  | throwStatement
  | breakStatement
  | continueStatement
  | labeledStatement
  | withStatement
  | importDeclaration
  | importDefaultSpecifier
  | importNamespaceSpecifier
  | importSpecifier
  | exportNamedDeclaration
  | exportDefaultDeclaration
  | exportAllDeclaration
  | exportSpecifier
  | functionDeclaration
  | functionExpression
  | arrowFunctionExpression
  | classDeclaration
  | classExpression
  | classBody
  | methodDefinition
  | propertyDefinition
  | staticBlock
  | decorator
  | objectPattern
  | arrayPattern
  | assignmentPattern
  | restElement
  | property
  | identifier
  | privateIdentifier
  | thisExpression
  | super
  | literal
  | templateLiteral
  | templateElement
  | taggedTemplateExpression
  | objectExpression
  | arrayExpression
  | spreadElement
  | sequenceExpression
  | newExpression
  | assignmentExpression
  | unaryExpression
  | updateExpression
  | conditionalExpression
  | awaitExpression
  | yieldExpression
  | metaProperty
  | memberExpression
  | callExpression
  | binaryExpression
  | logicalExpression
  | importExpression
  | other (name : String)
  deriving DecidableEq, Inhabited, Repr

namespace Kind

/-- The name of a kind. -/
def name : Kind → String
  | .program => "Program"
  | .expressionStatement => "ExpressionStatement"
  | .emptyStatement => "EmptyStatement"
  | .debuggerStatement => "DebuggerStatement"
  | .blockStatement => "BlockStatement"
  | .variableDeclaration => "VariableDeclaration"
  | .variableDeclarator => "VariableDeclarator"
  | .ifStatement => "IfStatement"
  | .switchStatement => "SwitchStatement"
  | .switchCase => "SwitchCase"
  | .forStatement => "ForStatement"
  | .forInStatement => "ForInStatement"
  | .forOfStatement => "ForOfStatement"
  | .whileStatement => "WhileStatement"
  | .doWhileStatement => "DoWhileStatement"
  | .tryStatement => "TryStatement"
  | .catchClause => "CatchClause"
  | .returnStatement => "ReturnStatement"
  | .throwStatement => "ThrowStatement"
  | .breakStatement => "BreakStatement"
  | .continueStatement => "ContinueStatement"
  | .labeledStatement => "LabeledStatement"
  | .withStatement => "WithStatement"
  | .importDeclaration => "ImportDeclaration"
  | .importDefaultSpecifier => "ImportDefaultSpecifier"
  | .importNamespaceSpecifier => "ImportNamespaceSpecifier"
  | .importSpecifier => "ImportSpecifier"
  | .exportNamedDeclaration => "ExportNamedDeclaration"
  | .exportDefaultDeclaration => "ExportDefaultDeclaration"
  | .exportAllDeclaration => "ExportAllDeclaration"
  | .exportSpecifier => "ExportSpecifier"
  | .functionDeclaration => "FunctionDeclaration"
  | .functionExpression => "FunctionExpression"
  | .arrowFunctionExpression => "ArrowFunctionExpression"
  | .classDeclaration => "ClassDeclaration"
  | .classExpression => "ClassExpression"
  | .classBody => "ClassBody"
  | .methodDefinition => "MethodDefinition"
  | .propertyDefinition => "PropertyDefinition"
  | .staticBlock => "StaticBlock"
  | .decorator => "Decorator"
  | .objectPattern => "ObjectPattern"
  | .arrayPattern => "ArrayPattern"
  | .assignmentPattern => "AssignmentPattern"
  | .restElement => "RestElement"
  | .property => "Property"
  | .identifier => "Identifier"
  | .privateIdentifier => "PrivateIdentifier"
  | .thisExpression => "ThisExpression"
  | .super => "Super"
  | .literal => "Literal"
  | .templateLiteral => "TemplateLiteral"
  | .templateElement => "TemplateElement"
  | .taggedTemplateExpression => "TaggedTemplateExpression"
  | .objectExpression => "ObjectExpression"
  | .arrayExpression => "ArrayExpression"
  | .spreadElement => "SpreadElement"
  | .sequenceExpression => "SequenceExpression"
  | .newExpression => "NewExpression"
  | .assignmentExpression => "AssignmentExpression"
  | .unaryExpression => "UnaryExpression"
  | .updateExpression => "UpdateExpression"
  | .conditionalExpression => "ConditionalExpression"
  | .awaitExpression => "AwaitExpression"
  | .yieldExpression => "YieldExpression"
  | .metaProperty => "MetaProperty"
  | .memberExpression => "MemberExpression"
  | .callExpression => "CallExpression"
  | .binaryExpression => "BinaryExpression"
  | .logicalExpression => "LogicalExpression"
  | .importExpression => "ImportExpression"
  | .other name => name

/-- The kinds of the vocabulary. -/
def known : List Kind :=
  [.program, .expressionStatement, .emptyStatement, .debuggerStatement, .blockStatement,
    .variableDeclaration, .variableDeclarator, .ifStatement, .switchStatement, .switchCase,
    .forStatement, .forInStatement, .forOfStatement, .whileStatement, .doWhileStatement,
    .tryStatement, .catchClause, .returnStatement, .throwStatement, .breakStatement,
    .continueStatement, .labeledStatement, .withStatement, .importDeclaration,
    .importDefaultSpecifier, .importNamespaceSpecifier, .importSpecifier, .exportNamedDeclaration,
    .exportDefaultDeclaration, .exportAllDeclaration, .exportSpecifier, .functionDeclaration,
    .functionExpression, .arrowFunctionExpression, .classDeclaration, .classExpression, .classBody,
    .methodDefinition, .propertyDefinition, .staticBlock, .decorator, .objectPattern, .arrayPattern,
    .assignmentPattern, .restElement, .property, .identifier, .privateIdentifier, .thisExpression,
    .super, .literal, .templateLiteral, .templateElement, .taggedTemplateExpression,
    .objectExpression, .arrayExpression, .spreadElement, .sequenceExpression, .newExpression,
    .assignmentExpression, .unaryExpression, .updateExpression, .conditionalExpression,
    .awaitExpression, .yieldExpression, .metaProperty, .memberExpression, .callExpression,
    .binaryExpression, .logicalExpression, .importExpression]

/-- The kind of this name. -/
def ofName (s : String) : Kind := (known.find? fun k => k.name = s).getD (.other s)

/-! ## Groups -/

def isFunction : Kind → Bool
  | .functionDeclaration | .functionExpression | .arrowFunctionExpression => true
  | _ => false

def isClass : Kind → Bool
  | .classDeclaration | .classExpression => true
  | _ => false

def isLoop : Kind → Bool
  | .forStatement | .forInStatement | .forOfStatement => true
  | _ => false

/-- The exports that may hold a declaration. -/
def isExport : Kind → Bool
  | .exportNamedDeclaration | .exportDefaultDeclaration => true
  | _ => false

def isImportSpecifier : Kind → Bool
  | .importSpecifier | .importDefaultSpecifier | .importNamespaceSpecifier => true
  | _ => false

/-- The kinds that a declaration pattern is made of. -/
def isPattern : Kind → Bool
  | .identifier | .objectPattern | .arrayPattern | .restElement | .assignmentPattern => true
  | _ => false

/-- The kinds below which no name is read. -/
def isInert : Kind → Bool
  | .super | .privateIdentifier | .literal | .templateElement | .metaProperty
  | .importDeclaration | .exportAllDeclaration | .emptyStatement | .debuggerStatement => true
  | _ => false

/-- The field that holds the operand of a link in a left-nested chain such as `a.b.c()`. -/
def operandField? : Kind → Option String
  | .memberExpression => some "object"
  | .callExpression => some "callee"
  | .taggedTemplateExpression => some "tag"
  | .binaryExpression | .logicalExpression => some "left"
  | _ => none

def isChainLink (k : Kind) : Bool := k.operandField?.isSome

end Kind

end FreeNames
