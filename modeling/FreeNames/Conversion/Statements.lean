import FreeNames.Conversion.Names

/-!
# Statements

The templates of statements.  A statement list keeps the named children that are no
comments, in their order.
-/

namespace FreeNames.Conversion

variable {w : Parsed}

def program (x : Inside w) : Template w :=
  .node .program x.span [("body", .holes x.named), ("sourceType", .word "module")]

def expressionStatement (x : Inside w) : Template w :=
  .node .expressionStatement x.span [("expression", .one x.first)]

def blockStatement (x : Inside w) : Template w :=
  .node .blockStatement x.span [("body", .holes x.named)]

/-- `var` declarations. -/
def variableDeclaration (x : Inside w) : Template w :=
  .node .variableDeclaration x.span [("kind", .word "var"), ("declarations", .holes x.named)]

/-- `let`, `const` and other declarations that name their kind. -/
def lexicalDeclaration (src : Source) (x : Inside w) : Template w :=
  .node .variableDeclaration x.span
    [("kind", x.textOf src "kind"),
      ("declarations", .holes (x.named.filter fun q => q.symbol = .variableDeclarator))]

def variableDeclarator (x : Inside w) : Template w :=
  .node .variableDeclarator x.span [("id", x.convert "name"), ("init", x.optional "value")]

/-- A choice; its alternative is read first. -/
def ifStatement (x : Inside w) : Template w :=
  .node .ifStatement x.span
    [("test", .late (x.convert "condition")), ("consequent", .late (x.convert "consequence")),
      ("alternate", match x.field? "alternative" with
        | some q => .one q.inside.first
        | none => .null)]

def switchStatement (x : Inside w) : Template w :=
  .node .switchStatement x.span
    [("discriminant", x.convert "value"),
      ("cases", match x.field? "body" with
        | some q => .holes q.inside.named
        | none => .fault (x.lacking "body"))]

def switchCase (x : Inside w) : Template w :=
  .node .switchCase x.span
    [("test", x.convert "value"), ("consequent", .holes (x.fieldAll "body"))]

def switchDefault (x : Inside w) : Template w :=
  .node .switchCase x.span [("test", .null), ("consequent", .holes (x.fieldAll "body"))]

/-- A clause of a loop head, which may be empty or wrapped in a statement. -/
def loopClause (x : Inside w) (name : String) : Slot w :=
  match x.field? name with
  | some q =>
    if !q.parsed.isNamed || q.symbol = .emptyStatement then .null
    else if q.symbol = .expressionStatement then .one q.inside.first
    else .hole q
  | none => .null

def forStatement (x : Inside w) : Template w :=
  .node .forStatement x.span
    [("init", loopClause x "initializer"), ("test", loopClause x "condition"),
      ("update", loopClause x "increment"), ("body", x.convert "body")]

/-- The left side of a loop over a collection: a declaration if a keyword says so.  The keyword
is read behind the name that it declares. -/
def loopTarget (src : Source) (x : Inside w) : Slot w :=
  match x.field? "left" with
  | none => .fault (x.lacking "left")
  | some left =>
    match x.field? "kind" with
    | none => .hole left
    | some kind =>
      .one (.node .variableDeclaration left.span
        [("kind", .late (.text src kind.span)),
          ("declarations", .many [.one (.node .variableDeclarator left.span
            [("id", .hole left), ("init", x.optional "value")])])])

/-- The word that makes a loop run over the elements of a collection. -/
def ofWord : Text := "of"

def forInStatement (src : Source) (x : Inside w) : Template w :=
  let head := [("left", loopTarget src x), ("right", x.convert "right"), ("body", x.convert "body")]
  match x.field? "operator" with
  | none => .fault (x.lacking "operator")
  | some operator =>
    match src.text? operator.span with
    | none => .fault .notUtf8
    | some t =>
      if t = ofWord then
        .node .forOfStatement x.span (("await_", .bool (x.hasToken [.awaitWord])) :: head)
      else .node .forInStatement x.span head

def whileStatement (x : Inside w) : Template w :=
  .node .whileStatement x.span [("test", x.convert "condition"), ("body", x.convert "body")]

def doWhileStatement (x : Inside w) : Template w :=
  .node .doWhileStatement x.span [("body", x.convert "body"), ("test", x.convert "condition")]

/-- A guarded block; what is done at its end is read first. -/
def tryStatement (x : Inside w) : Template w :=
  .node .tryStatement x.span
    [("block", .late (x.convert "body")), ("handler", .late (x.optional "handler")),
      ("finalizer", match x.field? "finalizer" with
        | some q => q.inside.convert "body"
        | none => .null)]

def catchClause (x : Inside w) : Template w :=
  .node .catchClause x.span
    [("param", match x.field? "parameter" with
        | some q => .hole q
        | none => .null),
      ("body", x.convert "body")]

def returnStatement (x : Inside w) : Template w :=
  .node .returnStatement x.span [("argument", x.firstOrNull)]

def throwStatement (x : Inside w) : Template w :=
  .node .throwStatement x.span [("argument", .one x.first)]

/-- `break` and `continue`. -/
def jumpStatement (src : Source) (kind : Kind) (x : Inside w) : Template w :=
  .node kind x.span [("label", identifierOrNull src x "label")]

def labeledStatement (src : Source) (x : Inside w) : Template w :=
  .node .labeledStatement x.span
    [("label", identifierIn src x "label"), ("body", x.convert "body")]

def withStatement (x : Inside w) : Template w :=
  .node .withStatement x.span [("object", x.convert "object"), ("body", x.convert "body")]

end FreeNames.Conversion
