/-!
# Symbols of the grammar

The names that the grammar of JavaScript gives to the nodes of a parse.  Tokens are named
by their own text.  A symbol that has no rule here is `Symbol.other` and keeps its name.

* `Symbol.name` and `Symbol.ofName` pass between symbols and their names.
-/

namespace FreeNames

/-- What a node of a parse is. -/
inductive Symbol where
  -- statements
  | program
  | expressionStatement
  | emptyStatement
  | debuggerStatement
  | statementBlock
  | variableDeclaration
  | lexicalDeclaration
  | variableDeclarator
  | ifStatement
  | switchStatement
  | switchCase
  | switchDefault
  | forStatement
  | forInStatement
  | whileStatement
  | doStatement
  | tryStatement
  | catchClause
  | returnStatement
  | throwStatement
  | breakStatement
  | continueStatement
  | labeledStatement
  | withStatement
  -- modules
  | importStatement
  | importClause
  | namespaceImport
  | namedImports
  | importSpecifier
  | exportStatement
  | exportClause
  | namespaceExport
  | exportSpecifier
  -- functions and classes
  | functionDeclaration
  | generatorFunctionDeclaration
  | functionExpression
  | olderFunction
  | generatorFunction
  | arrowFunction
  | classDeclaration
  | classExpression
  | classHeritage
  | classBody
  | methodDefinition
  | fieldDefinition
  | classStaticBlock
  | decorator
  -- patterns
  | objectPattern
  | pairPattern
  | objectAssignmentPattern
  | shorthandPropertyIdentifierPattern
  | arrayPattern
  | assignmentPattern
  | restPattern
  -- expressions
  | identifier
  | undefinedWord
  | thisWord
  | superWord
  | propertyIdentifier
  | privatePropertyIdentifier
  | computedPropertyName
  | trueWord
  | falseWord
  | nullWord
  | number
  | string
  | regex
  | templateString
  | templateSubstitution
  | object
  | pair
  | shorthandPropertyIdentifier
  | array
  | spreadElement
  | parenthesizedExpression
  | sequenceExpression
  | newExpression
  | assignmentExpression
  | augmentedAssignmentExpression
  | unaryExpression
  | updateExpression
  | ternaryExpression
  | awaitExpression
  | yieldExpression
  | metaProperty
  | memberExpression
  | subscriptExpression
  | callExpression
  | binaryExpression
  | importWord
  -- elements of markup
  | jsxOpeningElement
  | jsxClosingElement
  | jsxSelfClosingElement
  -- comments and errors
  | comment
  | htmlComment
  | hashBangLine
  | error
  -- tokens
  | comma
  | openBracket
  | closeBracket
  | star
  | asyncWord
  | awaitWord
  | defaultWord
  | getWord
  | setWord
  | staticWord
  | staticGetWords
  | other (name : String)
  deriving DecidableEq, Inhabited, Repr

namespace Symbol

/-- The name of a symbol. -/
def name : Symbol → String
  | .program => "program"
  | .expressionStatement => "expression_statement"
  | .emptyStatement => "empty_statement"
  | .debuggerStatement => "debugger_statement"
  | .statementBlock => "statement_block"
  | .variableDeclaration => "variable_declaration"
  | .lexicalDeclaration => "lexical_declaration"
  | .variableDeclarator => "variable_declarator"
  | .ifStatement => "if_statement"
  | .switchStatement => "switch_statement"
  | .switchCase => "switch_case"
  | .switchDefault => "switch_default"
  | .forStatement => "for_statement"
  | .forInStatement => "for_in_statement"
  | .whileStatement => "while_statement"
  | .doStatement => "do_statement"
  | .tryStatement => "try_statement"
  | .catchClause => "catch_clause"
  | .returnStatement => "return_statement"
  | .throwStatement => "throw_statement"
  | .breakStatement => "break_statement"
  | .continueStatement => "continue_statement"
  | .labeledStatement => "labeled_statement"
  | .withStatement => "with_statement"
  | .importStatement => "import_statement"
  | .importClause => "import_clause"
  | .namespaceImport => "namespace_import"
  | .namedImports => "named_imports"
  | .importSpecifier => "import_specifier"
  | .exportStatement => "export_statement"
  | .exportClause => "export_clause"
  | .namespaceExport => "namespace_export"
  | .exportSpecifier => "export_specifier"
  | .functionDeclaration => "function_declaration"
  | .generatorFunctionDeclaration => "generator_function_declaration"
  | .functionExpression => "function_expression"
  | .olderFunction => "function"
  | .generatorFunction => "generator_function"
  | .arrowFunction => "arrow_function"
  | .classDeclaration => "class_declaration"
  | .classExpression => "class"
  | .classHeritage => "class_heritage"
  | .classBody => "class_body"
  | .methodDefinition => "method_definition"
  | .fieldDefinition => "field_definition"
  | .classStaticBlock => "class_static_block"
  | .decorator => "decorator"
  | .objectPattern => "object_pattern"
  | .pairPattern => "pair_pattern"
  | .objectAssignmentPattern => "object_assignment_pattern"
  | .shorthandPropertyIdentifierPattern => "shorthand_property_identifier_pattern"
  | .arrayPattern => "array_pattern"
  | .assignmentPattern => "assignment_pattern"
  | .restPattern => "rest_pattern"
  | .identifier => "identifier"
  | .undefinedWord => "undefined"
  | .thisWord => "this"
  | .superWord => "super"
  | .propertyIdentifier => "property_identifier"
  | .privatePropertyIdentifier => "private_property_identifier"
  | .computedPropertyName => "computed_property_name"
  | .trueWord => "true"
  | .falseWord => "false"
  | .nullWord => "null"
  | .number => "number"
  | .string => "string"
  | .regex => "regex"
  | .templateString => "template_string"
  | .templateSubstitution => "template_substitution"
  | .object => "object"
  | .pair => "pair"
  | .shorthandPropertyIdentifier => "shorthand_property_identifier"
  | .array => "array"
  | .spreadElement => "spread_element"
  | .parenthesizedExpression => "parenthesized_expression"
  | .sequenceExpression => "sequence_expression"
  | .newExpression => "new_expression"
  | .assignmentExpression => "assignment_expression"
  | .augmentedAssignmentExpression => "augmented_assignment_expression"
  | .unaryExpression => "unary_expression"
  | .updateExpression => "update_expression"
  | .ternaryExpression => "ternary_expression"
  | .awaitExpression => "await_expression"
  | .yieldExpression => "yield_expression"
  | .metaProperty => "meta_property"
  | .memberExpression => "member_expression"
  | .subscriptExpression => "subscript_expression"
  | .callExpression => "call_expression"
  | .binaryExpression => "binary_expression"
  | .importWord => "import"
  | .jsxOpeningElement => "jsx_opening_element"
  | .jsxClosingElement => "jsx_closing_element"
  | .jsxSelfClosingElement => "jsx_self_closing_element"
  | .comment => "comment"
  | .htmlComment => "html_comment"
  | .hashBangLine => "hash_bang_line"
  | .error => "ERROR"
  | .comma => ","
  | .openBracket => "["
  | .closeBracket => "]"
  | .star => "*"
  | .asyncWord => "async"
  | .awaitWord => "await"
  | .defaultWord => "default"
  | .getWord => "get"
  | .setWord => "set"
  | .staticWord => "static"
  | .staticGetWords => "static get"
  | .other name => name

/-- The symbols that have rules. -/
def known : List Symbol :=
  [.program, .expressionStatement, .emptyStatement, .debuggerStatement, .statementBlock,
    .variableDeclaration, .lexicalDeclaration, .variableDeclarator, .ifStatement,
    .switchStatement, .switchCase, .switchDefault, .forStatement, .forInStatement,
    .whileStatement, .doStatement, .tryStatement, .catchClause, .returnStatement, .throwStatement,
    .breakStatement, .continueStatement, .labeledStatement, .withStatement, .importStatement,
    .importClause, .namespaceImport, .namedImports, .importSpecifier, .exportStatement,
    .exportClause, .namespaceExport, .exportSpecifier, .functionDeclaration,
    .generatorFunctionDeclaration, .functionExpression, .olderFunction, .generatorFunction,
    .arrowFunction, .classDeclaration, .classExpression, .classHeritage, .classBody,
    .methodDefinition, .fieldDefinition, .classStaticBlock, .decorator, .objectPattern,
    .pairPattern, .objectAssignmentPattern, .shorthandPropertyIdentifierPattern, .arrayPattern,
    .assignmentPattern, .restPattern, .identifier, .undefinedWord, .thisWord, .superWord,
    .propertyIdentifier, .privatePropertyIdentifier, .computedPropertyName, .trueWord, .falseWord,
    .nullWord, .number, .string, .regex, .templateString, .templateSubstitution, .object, .pair,
    .shorthandPropertyIdentifier, .array, .spreadElement, .parenthesizedExpression,
    .sequenceExpression, .newExpression, .assignmentExpression, .augmentedAssignmentExpression,
    .unaryExpression, .updateExpression, .ternaryExpression, .awaitExpression, .yieldExpression,
    .metaProperty, .memberExpression, .subscriptExpression, .callExpression, .binaryExpression,
    .importWord, .jsxOpeningElement, .jsxClosingElement, .jsxSelfClosingElement, .comment,
    .htmlComment, .hashBangLine, .error, .comma, .openBracket, .closeBracket, .star, .asyncWord,
    .awaitWord, .defaultWord, .getWord, .setWord, .staticWord, .staticGetWords]

/-- The symbol of this name. -/
def ofName (s : String) : Symbol := (known.find? fun k => k.name = s).getD (.other s)

/-- Comments may stand anywhere and mean nothing. -/
def isExtra : Symbol → Bool
  | .comment | .htmlComment | .hashBangLine => true
  | _ => false

/-- The elements whose `name` field is the name of the element and no variable. -/
def isTagged : Symbol → Bool
  | .jsxOpeningElement | .jsxClosingElement | .jsxSelfClosingElement => true
  | _ => false

/-- The field that holds the left-nested operand of a chain link other than a call. -/
def operandField? : Symbol → Option String
  | .memberExpression | .subscriptExpression => some "object"
  | .callExpression => some "function"
  | .binaryExpression => some "left"
  | _ => none

end Symbol

end FreeNames
