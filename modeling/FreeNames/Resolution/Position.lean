import FreeNames.Tree.Node

/-!
# Reading positions

An identifier reads a variable unless its position names something instead: a label, the
name of a function, class or declarator, an exported name, a part of a meta property, or
a key that is not computed.  A position is the kind of the parent and the field in it.
-/

namespace FreeNames

/-- Positions in which an identifier names something. -/
def namingPositions : List (Kind × String) :=
  [(.labeledStatement, "label"), (.breakStatement, "label"), (.continueStatement, "label"),
    (.metaProperty, "meta"), (.metaProperty, "property"),
    (.functionDeclaration, "id"), (.functionExpression, "id"),
    (.classDeclaration, "id"), (.classExpression, "id"), (.variableDeclarator, "id"),
    (.exportSpecifier, "exported"), (.exportAllDeclaration, "exported")]

/-- Positions of keys: an identifier there is read only if the key is computed. -/
def keyPositions : List (Kind × String) :=
  [(.memberExpression, "property"), (.property, "key"), (.methodDefinition, "key"),
    (.propertyDefinition, "key")]

/-- Is the key of this node computed?  A node that does not say so has a plain key. -/
def Node.isComputed (n : Node) : Bool := ((n.field? "computed").map Value.isSet).getD false

/-- Is an identifier in this field of this parent read?  One without a parent is. -/
def isReadPosition (field : Option String) (parent : Option Node) : Bool :=
  match parent, field with
  | some p, some f =>
    if namingPositions.contains (p.kind, f) then false
    else if keyPositions.contains (p.kind, f) then p.isComputed
    else true
  | _, _ => true

end FreeNames
