import FreeNames.Conversion.Names

/-!
# Functions and classes

The templates of functions, arrows, classes and their members.  A method is a property when
it stands in an object literal and a method definition when it stands in a class; its
decorators are read last, and a property drops them.
-/

namespace FreeNames.Conversion

variable {w : Parsed}

/-- The parameters of a function; none if there is no list. -/
def parameters (x : Inside w) : Slot w :=
  match x.field? "parameters" with
  | some q => .holes q.inside.named
  | none => .many []

/-- The fields of a function behind its name. -/
def functionFields (x : Inside w) : List (String × Slot w) :=
  [("params", parameters x), ("body", x.convert "body"),
    ("generator", .bool (x.hasToken [.star])), ("async_", .bool (x.hasToken [.asyncWord]))]

def function (src : Source) (kind : Kind) (x : Inside w) : Template w :=
  .node kind x.span (("id", identifierOrNull src x "name") :: functionFields x)

def arrowFunction (src : Source) (x : Inside w) : Template w :=
  .node .arrowFunctionExpression x.span
    [("id", .null),
      ("params", match x.field? "parameter" with
        | some q => .many [.one (identifier src q.span)]
        | none => parameters x),
      ("body", x.convert "body"),
      ("expression", .bool ((x.field? "body").all fun q => q.symbol ≠ .statementBlock)),
      ("generator", .bool false), ("async_", .bool (x.hasToken [.asyncWord]))]

/-- The decorators among the children. -/
def decorators (x : Inside w) : Slot w := .holes (x.named.filter fun q => q.symbol = .decorator)

/-- A class.  Its decorators and heritages are read in the order in which they stand, then its
name and its body; of several heritages the last is kept. -/
def classLike (src : Source) (kind : Kind) (x : Inside w) : Template w :=
  let inTurn (f : Part w → Slot w) (symbol : Symbol) : List (Slot w) :=
    (x.named.zipIdx.filter fun q => q.1.symbol = symbol).map fun (q, n) => .turn n (f q)
  let heritages := inTurn (fun q => .one q.inside.first) .classHeritage
  let last := x.named.length
  .build kind x.span
    [("decorators", .many (inTurn .hole .decorator)),
      ("id", .turn last (identifierOrNull src x "name")),
      ("superClass", heritages.getLast?.getD .null),
      ("body", .turn last (x.convert "body"))]
    heritages.dropLast

def classBody (x : Inside w) : Template w :=
  .node .classBody x.span [("body", .holes x.named)]

/-- The roles of methods. -/
inductive MethodRole where
  | getter
  | setter
  | constructor
  | plain
  deriving DecidableEq, Repr

/-- The word for a method in a class. -/
def MethodRole.word : MethodRole → String
  | .getter => "get"
  | .setter => "set"
  | .constructor => "constructor"
  | .plain => "method"

/-- The word for a method in an object literal, where no method is a constructor. -/
def MethodRole.propertyWord : MethodRole → String
  | .getter => "get"
  | .setter => "set"
  | .constructor | .plain => "init"

/-- Is the method an ordinary method in an object literal? -/
def MethodRole.isPlain : MethodRole → Bool
  | .constructor | .plain => true
  | _ => false

def constructorName : Text := "constructor"

/-- The role of a method: its tokens say whether it is an accessor, its name whether it is
the constructor. -/
def methodRole (src : Source) (x : Inside w) (name : Part w) : MethodRole :=
  if x.hasToken [.getWord, .staticGetWords] then .getter
  else if x.hasToken [.setWord] then .setter
  else if name.symbol = .propertyIdentifier && src.text? name.span = some constructorName then
    .constructor
  else .plain

/-- The function of a method. -/
def methodFunction (x : Inside w) : Template w :=
  .node .functionExpression x.span (("id", .null) :: functionFields x)

def methodDefinition (src : Source) (inObject : Bool) (x : Inside w) : Template w :=
  match x.field? "name" with
  | none => .fault (x.lacking "name")
  | some name =>
    let role := methodRole src x name
    if inObject then
      .build .property x.span
        [("key", propertyKey src name), ("value", .one (methodFunction x)),
          ("computed", .bool (isComputedKey name)), ("kind", .word role.propertyWord),
          ("method", .bool role.isPlain), ("shorthand", .bool false)]
        [.late (decorators x)]
    else
      .node .methodDefinition x.span
        [("decorators", .late (decorators x)), ("key", propertyKey src name),
          ("computed", .bool (isComputedKey name)), ("value", .one (methodFunction x)),
          ("kind", .word role.word),
          ("static", .bool (x.hasToken [.staticWord, .staticGetWords]))]

def fieldDefinition (src : Source) (x : Inside w) : Template w :=
  let property := x.field? "property"
  .node .propertyDefinition x.span
    [("decorators", decorators x),
      ("key", match property with
        | some q => propertyKey src q
        | none => .fault (x.lacking "property")),
      ("computed", .bool (property.any isComputedKey)), ("value", x.optional "value"),
      ("static", .bool (x.hasToken [.staticWord]))]

def staticBlock (x : Inside w) : Template w :=
  .node .staticBlock x.span
    [("body", match x.field? "body" with
      | some q => .holes q.inside.named
      | none => .fault (x.lacking "body"))]

def decorator (x : Inside w) : Template w :=
  .node .decorator x.span [("expression", .one x.first)]

end FreeNames.Conversion
