import FreeNames.Tree.Walk
import Std.Data.HashMap

/-!
# Links to enclosing nodes

A table that holds, by identity, the node that encloses each node.  Linking a tree walks
it and enters every child; links that were in the table before are overwritten, and the
root has none afterwards.

* `Links.ancestors` follows the links outwards, innermost node first.  A chain without a
  repetition has no more steps than the table has entries, which bounds the search.
-/

namespace FreeNames

/-- The enclosing node of each node, by identity. -/
abbrev Links := Std.HashMap Nat Node

namespace Links

/-- The node that encloses a node. -/
def parent? (links : Links) (n : Node) : Option Node := links[n.id]?

/-- Enter the children of a node. -/
def enter (links : Links) (n : Node) : Links :=
  n.children.foldl (fun l c => l.insert c.2.id n) links

/-- Link every node below the root to the node that holds it, and the root to none. -/
def link (links : Links) (root : Node) : Links :=
  root.walk.foldl enter (links.erase root.id)

/-- At most so many enclosing nodes, from the innermost outwards. -/
def ancestorsUpTo (links : Links) : Nat → Node → List Node
  | 0, _ => []
  | steps + 1, n =>
    match links.parent? n with
    | some p => p :: links.ancestorsUpTo steps p
    | none => []

/-- The enclosing nodes, from the innermost outwards. -/
def ancestors (links : Links) (n : Node) : List Node := links.ancestorsUpTo links.size n

end Links

/-- The links of a tree. -/
def Node.links (root : Node) : Links := Links.link ∅ root

end FreeNames
