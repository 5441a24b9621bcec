import FreeNames.Conversion.Names

/-!
# Patterns, objects and arrays

The templates of destructuring patterns and of the literals that look like them.  A name
alone is short for a property with that name as key and value; holes of arrays are null.
-/

namespace FreeNames.Conversion

variable {w : Parsed}

/-- A property that is written as a name alone. -/
def shorthand (src : Source) (q : Part w) (value : Slot w) : Template w :=
  .node .property q.span
    [("key", .one (identifier src q.span)), ("value", value), ("computed", .bool false),
      ("kind", .word "init"), ("method", .bool false), ("shorthand", .bool true)]

/-- A property with a key and a value. -/
def pair (src : Source) (q : Part w) : Template w :=
  match q.inside.field? "key" with
  | none => .fault (q.inside.lacking "key")
  | some key =>
    .node .property q.span
      [("key", propertyKey src key), ("computed", .bool (isComputedKey key)),
        ("value", q.inside.convert "value"), ("kind", .word "init"), ("method", .bool false),
        ("shorthand", .bool false)]

def assignmentPattern (x : Inside w) : Template w :=
  .node .assignmentPattern x.span [("left", x.convert "left"), ("right", x.convert "right")]

/-- A name with a default in an object pattern; the default belongs to the value. -/
def objectAssignment (src : Source) (q : Part w) : Template w :=
  match q.inside.field? "left" with
  | none => .fault (q.inside.lacking "left")
  | some left =>
    if left.symbol = .shorthandPropertyIdentifierPattern then
      shorthand src left (.one (assignmentPattern q.inside))
    else assignmentPattern q.inside

/-- One entry of an object pattern. -/
def patternEntry (src : Source) (q : Part w) : Slot w :=
  match q.symbol with
  | .shorthandPropertyIdentifierPattern =>
    .one (shorthand src q (.one (identifier src q.span)))
  | .pairPattern => .one (pair src q)
  | .objectAssignmentPattern => .one (objectAssignment src q)
  | _ => .hole q

def objectPattern (src : Source) (x : Inside w) : Template w :=
  .node .objectPattern x.span [("properties", .many (x.named.map (patternEntry src)))]

/-- One entry of an object literal. -/
def objectEntry (src : Source) (q : Part w) : Slot w :=
  match q.symbol with
  | .pair => .one (pair src q)
  | .shorthandPropertyIdentifier => .one (shorthand src q (.one (identifier src q.span)))
  | _ => .hole q

def objectExpression (src : Source) (x : Inside w) : Template w :=
  .node .objectExpression x.span [("properties", .many (x.named.map (objectEntry src)))]

/-- The elements of a list in brackets: a comma without an element before it is a hole. -/
def elementsFrom (expecting : Bool) : List (Part w) → List (Slot w)
  | [] => []
  | q :: rest =>
    if q.symbol.isExtra || q.symbol = .openBracket || q.symbol = .closeBracket then
      elementsFrom expecting rest
    else if q.symbol = .comma then
      if expecting then .null :: elementsFrom true rest else elementsFrom true rest
    else .hole q :: elementsFrom false rest

def elements (x : Inside w) : Slot w := .many (elementsFrom true x.parts)

def arrayPattern (x : Inside w) : Template w :=
  .node .arrayPattern x.span [("elements", elements x)]

def arrayExpression (x : Inside w) : Template w :=
  .node .arrayExpression x.span [("elements", elements x)]

def restElement (x : Inside w) : Template w :=
  .node .restElement x.span [("argument", .one x.first)]

def spreadElement (x : Inside w) : Template w :=
  .node .spreadElement x.span [("argument", .one x.first)]

end FreeNames.Conversion
