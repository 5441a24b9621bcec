import FreeNames.Tree.Node
import FreeNames.Decimal.Key

/-!
# Access paths

A reference such as `a.b["c"][1]` is reported with its access path `a.b.c.1`.  Every node on
the way contributes a segment: an identifier its name, `this` itself, a member access its
key if the source fixes it.

* `Node.segment` is `none` where the path ends.
* `extension` is the longest front part of the enclosing nodes that have a segment.
* `qualifiedName` joins the segments of a reference and the nodes around it with points.
-/

namespace FreeNames

namespace Node

/-- The key of a number literal; the suffix `n` in the source marks a big integer. -/
def numberKey (n : Node) (v : Number) : Except Fault (Option Text) := do
  let raw ← n.text "raw"
  return some (← Decimal.numberKey (raw.endsWith 0x6E) v)

/-- The key that a computed property expression fixes: a string or a number. -/
def literalKey (n : Node) : Except Fault (Option Text) :=
  if n.kind = .literal then
    match n.field? "value" with
    | some (.text t) => .ok (some t)
    | some (.int z) => n.numberKey (.whole z)
    | some (.float d) => n.numberKey (.real d)
    | some _ => .ok none
    | none => .error (n.lacking "value")
  else .ok none

/-- The key of a property that is not computed: its name. -/
def plainKey (n : Node) : Except Fault (Option Text) :=
  match n.kind with
  | .identifier | .privateIdentifier => (n.text "name").map some
  | _ => .ok none

/-- The key that a member access reads, if the source fixes it. -/
def staticKey (n : Node) : Except Fault (Option Text) := do
  let property ← n.child "property"
  let computed ← n.flag "computed"
  if computed then property.literalKey else property.plainKey

/-- What a node adds to an access path. -/
def segment (n : Node) : Except Fault (Option Text) :=
  match n.kind with
  | .identifier => (n.text "name").map some
  | .thisExpression => .ok (some "this")
  | .memberExpression => n.staticKey
  | _ => .ok none

end Node

/-- The enclosing nodes, innermost first, as far as they extend the path. -/
def extension : List Node → Except Fault (List Node)
  | [] => .ok []
  | n :: rest => do
    match ← n.segment with
    | some _ => return n :: (← extension rest)
    | none => return []

/-- The segments of nodes up to the first that has none. -/
def segments : List Node → Except Fault (List Text)
  | [] => .ok []
  | n :: rest => do
    match ← n.segment with
    | some s => return s :: (← segments rest)
    | none => return []

/-- The access path of a reference inside enclosing nodes. -/
def qualifiedName (n : Node) (enclosing : List Node) : Except Fault Text :=
  (segments (n :: enclosing)).map (Text.join ".")

end FreeNames
