import FreeNames.Grammar.Parsed

/-!
# The shapes of parses

What the grammar of JavaScript says about the children of a node, as far as conversion relies
on it: which nodes have at most one part, in which fields the parts of a node stand, and what
may stand where a name or a list of its own is expected.  A part is a named child other than a
comment; tokens and comments may stand anywhere.  Nothing is said about which parts there must
be, about their order, or about what an expression or a statement is, so every parse without
errors has these shapes, and a symbol that has no rule here may have any children.

* `Symbol.hasOnePart`, `Symbol.partFields?` and `Symbol.partSymbols?` are the rules by symbol.
* `Parsed.fits` is the rule for one node, and `Parsed.IsShaped` asks it of all nodes.
-/

namespace FreeNames

namespace Symbol

/-! ## Symbols without a rule of conversion -/

def elseClause : Symbol := .other "else_clause"

def finallyClause : Symbol := .other "finally_clause"

def switchBody : Symbol := .other "switch_body"

def formalParameters : Symbol := .other "formal_parameters"

def argumentList : Symbol := .other "arguments"

def importAttribute : Symbol := .other "import_attribute"

/-! ## Classes of symbols -/

/-- The leaves that are names of variables, and `this`. -/
def isVariable : Symbol → Bool
  | .identifier | .undefinedWord | .thisWord | .shorthandPropertyIdentifier
  | .shorthandPropertyIdentifierPattern => true
  | _ => false

/-- The nodes that consist of words, and the words themselves. -/
def isConstant : Symbol → Bool
  | .string | .number | .regex | .metaProperty | .trueWord | .falseWord | .nullWord | .superWord
  | .propertyIdentifier | .privatePropertyIdentifier | .importWord | .emptyStatement
  | .debuggerStatement | .comma | .openBracket | .closeBracket | .star | .asyncWord | .awaitWord
  | .defaultWord | .getWord | .setWord | .staticWord | .staticGetWords => true
  | .other name => name = "optional_chain" || name = "statement_identifier"
  | _ => false

/-- The nodes that have at most one part. -/
def hasOnePart : Symbol → Bool
  | .expressionStatement | .returnStatement | .throwStatement | .decorator | .classHeritage
  | .restPattern | .computedPropertyName | .templateSubstitution | .spreadElement
  | .parenthesizedExpression | .awaitExpression | .yieldExpression | .namespaceImport
  | .namespaceExport => true
  | .other name => name = "else_clause"
  | _ => false

/-- The fields of the nodes that have all their parts in fields. -/
def partFields? : Symbol → Option (List String)
  | .variableDeclarator => some ["name", "value"]
  | .ifStatement => some ["condition", "consequence", "alternative"]
  | .switchStatement => some ["value", "body"]
  | .forStatement => some ["initializer", "condition", "increment", "body"]
  | .forInStatement => some ["left", "value", "right", "body"]
  | .whileStatement | .doStatement => some ["condition", "body"]
  | .tryStatement => some ["body", "handler", "finalizer"]
  | .catchClause => some ["parameter", "body"]
  | .breakStatement | .continueStatement => some ["label"]
  | .labeledStatement => some ["label", "body"]
  | .withStatement => some ["object", "body"]
  | .importSpecifier | .exportSpecifier => some ["name", "alias"]
  | .functionDeclaration | .generatorFunctionDeclaration | .functionExpression | .olderFunction
  | .generatorFunction => some ["name", "parameters", "body"]
  | .arrowFunction => some ["parameter", "parameters", "body"]
  | .classDeclaration | .classExpression => some ["name", "body"]
  | .methodDefinition => some ["name", "parameters", "body"]
  | .fieldDefinition => some ["property", "value"]
  | .classStaticBlock => some ["body"]
  | .pair | .pairPattern => some ["key", "value"]
  | .assignmentPattern | .objectAssignmentPattern | .assignmentExpression
  | .augmentedAssignmentExpression | .binaryExpression => some ["left", "right"]
  | .newExpression => some ["constructor", "arguments"]
  | .unaryExpression | .updateExpression => some ["argument"]
  | .ternaryExpression => some ["condition", "consequence", "alternative"]
  | .memberExpression => some ["object", "property", "optional_chain"]
  | .subscriptExpression => some ["object", "index", "optional_chain"]
  | .callExpression => some ["function", "arguments", "optional_chain"]
  | .other name => if name = "finally_clause" then some ["body"] else none
  | _ => none

/-- The parts that a node may have besides those in fields. -/
def freeParts : Symbol → List Symbol
  | .classDeclaration | .classExpression => [.decorator, .classHeritage]
  | .methodDefinition | .fieldDefinition => [.decorator]
  | _ => []

/-- The symbols of all parts of a node, where only some may be. -/
def partSymbols? : Symbol → Option (List Symbol)
  | .lexicalDeclaration => some [.variableDeclarator]
  | .importStatement => some [.importClause, .string, importAttribute]
  | .importClause => some [.identifier, .namespaceImport, .namedImports]
  | .namedImports => some [.importSpecifier]
  | .exportClause => some [.exportSpecifier]
  | _ => none

end Symbol

namespace Parsed

/-! ## The rule for a node -/

/-- Tokens and comments. -/
def isToken (p : Parsed) : Bool := !p.isNamed || p.symbol.isExtra

/-- A leaf that is no variable. -/
def isWord (p : Parsed) : Bool := !p.symbol.isVariable && p.children.isEmpty

/-- A name: a variable other than `this`, or a word that stands for a name. -/
def isName (p : Parsed) : Bool :=
  p.symbol ≠ .thisWord && (p.symbol.isVariable || p.symbol.isConstant || p.isToken)

/-- A mark without content. -/
def isMark (p : Parsed) : Bool := p.symbol.isConstant || p.isToken

/-- The key of a property: a name or something computed. -/
def isKey (p : Parsed) : Bool := p.isName || p.symbol = .computedPropertyName

/-- If there is a part in the field, then it is of this sort. -/
def allows (p : Parsed) (name : String) (sort : Parsed → Bool) : Bool := (p.field? name).all sort

/-- In the field stands one part, in front of all tokens. -/
def fieldIsSingle (p : Parsed) (name : String) : Bool := ((p.fieldAll name).drop 1).all isToken

/-- All parts stand in the fields, except for those with some symbols. -/
def standsInFields (p : Parsed) (fields : List String) (free : List Symbol) : Bool :=
  p.named.all (fun c => fields.any (fun name => c.field = some name) || free.contains c.symbol)
    && fields.all p.fieldIsSingle

/-- What stands in a field of a node. -/
def fieldsFit (p : Parsed) : Bool :=
  match p.symbol with
  | .ifStatement => p.allows "alternative" fun c => c.symbol = .elseClause
  | .switchStatement => p.allows "body" fun c => c.symbol = .switchBody
  | .forInStatement => (p.field? "value").isNone || (p.field? "kind").isSome
  | .tryStatement => p.allows "finalizer" fun c => c.symbol = .finallyClause
  | .breakStatement | .continueStatement | .labeledStatement => p.allows "label" isName
  | .importSpecifier | .exportSpecifier => p.allows "name" isName && p.allows "alias" isName
  | .functionDeclaration | .generatorFunctionDeclaration | .functionExpression | .olderFunction
  | .generatorFunction =>
    p.allows "name" isName && p.allows "parameters" fun c => c.symbol = .formalParameters
  | .arrowFunction =>
    p.allows "parameter" isName && (p.allows "parameters" fun c => c.symbol = .formalParameters)
      && ((p.field? "parameter").isNone || (p.field? "parameters").isNone)
  | .classDeclaration | .classExpression =>
    p.allows "name" isName && (p.named.filter fun c => c.symbol = .classHeritage).length ≤ 1
  | .methodDefinition =>
    p.allows "name" isKey && p.allows "parameters" fun c => c.symbol = .formalParameters
  | .fieldDefinition => p.allows "property" isKey
  | .classStaticBlock => p.allows "body" fun c => c.symbol = .statementBlock
  | .pair | .pairPattern => p.allows "key" isKey
  | .newExpression => p.allows "arguments" fun c => c.symbol = .argumentList
  | .memberExpression => p.allows "property" isKey && p.allows "optional_chain" isMark
  | .subscriptExpression => p.allows "optional_chain" isMark
  | .callExpression =>
    (p.allows "arguments" fun c => c.symbol = .argumentList || c.symbol = .templateString)
      && p.allows "optional_chain" isMark
  | _ => true

/-- The parts of an export statement besides its decorators, the module that it names and the
attributes of that module. -/
def exported (p : Parsed) : List Parsed :=
  p.named.filter fun c =>
    c.symbol ≠ .decorator && c.symbol ≠ .importAttribute && c.symbol ≠ .string

/-- The parts of an export statement: at most one declaration, value or clause. -/
def exportFits (p : Parsed) : Bool :=
  p.exported.length ≤ 1 && (p.fieldAll "declaration" ++ p.fieldAll "value").length ≤ 1 &&
    p.exported.all fun c =>
      if c.symbol = .exportClause || c.symbol = .namespaceExport then
        !p.hasToken [.defaultWord] && (p.field? "declaration").isNone
      else c.field = some "declaration" || c.field = some "value" && p.hasToken [.defaultWord]

/-- The parts of the nodes that hold lists of parts. -/
def listFits (p : Parsed) : Bool :=
  match p.symbol with
  | .switchCase => p.named.all (fun c => c.field = some "value" || c.field = some "body")
      && p.fieldIsSingle "value"
  | .switchDefault => p.named.all fun c => c.field = some "body"
  | .templateString => p.named.all fun c => c.symbol = .templateSubstitution || c.isWord
  | .exportStatement => p.exportFits
  | s =>
    match s.partSymbols? with
    | some symbols => p.named.all fun c => symbols.contains c.symbol
    | none => true

/-- The parts of a node that is neither a variable nor a token. -/
def partsFit (p : Parsed) : Bool :=
  if p.symbol.isConstant then p.children.all isWord
  else if p.symbol.hasOnePart then
    p.named.length ≤ 1 &&
      (p.symbol ≠ .namespaceImport && p.symbol ≠ .namespaceExport || p.named.all isName)
  else match p.symbol.partFields? with
    | some fields => p.standsInFields fields p.symbol.freeParts && p.fieldsFit
    | none => p.listFits

/-- A node is as the grammar says.  Only an object literal has names alone among its parts. -/
def fits (p : Parsed) : Bool :=
  if p.symbol.isVariable then p.isNamed && p.children.isEmpty
  else if p.isToken then p.children.isEmpty
  else (p.symbol = .object || p.children.all fun c => c.symbol ≠ .shorthandPropertyIdentifier) &&
    p.partsFit

/-- A parse is as the grammar says. -/
def IsShaped (root : Parsed) : Prop := ∀ p ∈ root.preorder, p.fits = true

theorem isShaped_iff {root : Parsed} : root.IsShaped ↔ root.preorder.all fits = true :=
  List.all_eq_true.symm

end Parsed

end FreeNames
