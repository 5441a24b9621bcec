import FreeNames.Tree.Node

/-!
# Walking a tree

`Node.walk` lists a node and everything below it with a stack of pending nodes;
`Node.preorder` is the plain recursion that it unrolls.  `Node.numbered` gives every node
its place in that order as its identity.

* `walkFrom` takes the top of the stack and puts its children in its place, so earlier
  children come first.
* `preorder_eq` unfolds the recursion by one node.
-/

namespace FreeNames.Node

/-- List the pending nodes and all nodes below them. -/
def walkFrom : List Node → List Node
  | [] => []
  | n :: pending => n :: walkFrom (n.children.map Prod.snd ++ pending)
termination_by stack => totalSize stack
decreasing_by
  have := totalSize_children_lt n
  simp only [totalSize_append, totalSize_cons]
  omega

/-- A node and all nodes below it, every node before its children. -/
def walk (n : Node) : List Node := walkFrom [n]

/-- The same list by recursion on the tree. -/
def preorder (n : Node) : List Node :=
  n :: n.children.attach.flatMap fun p => p.1.2.preorder
termination_by sizeOf n
decreasing_by exact sizeOf_lt_of_mem_children p.2

/-- A node stands in front of everything below its children, the earlier child first. -/
theorem preorder_eq (n : Node) :
    n.preorder = n :: n.children.flatMap fun c => c.2.preorder := by
  rw [preorder]
  congr 1
  conv => rhs; rw [← List.attach_map_subtype_val n.children]
  rw [List.flatMap_map]

/-! ## Numbering -/

mutual

/-- Number a node and everything below it from `next` on; also the first number not used. -/
def numberFrom (next : Nat) : Node → Node × Nat
  | .mk _ kind span fields =>
    let (fields, next') := numberFields (next + 1) fields
    (.mk next kind span fields, next')

def numberFields (next : Nat) : List (String × Value) → List (String × Value) × Nat
  | [] => ([], next)
  | (name, v) :: rest =>
    let (v, next') := numberValue next v
    let (rest, next'') := numberFields next' rest
    ((name, v) :: rest, next'')

def numberValue (next : Nat) : Value → Value × Nat
  | .node n =>
    let (n, next') := numberFrom next n
    (.node n, next')
  | .list items =>
    let (items, next') := numberValues next items
    (.list items, next')
  | v => (v, next)

def numberValues (next : Nat) : List Value → List Value × Nat
  | [] => ([], next)
  | v :: rest =>
    let (v, next') := numberValue next v
    let (rest, next'') := numberValues next' rest
    (v :: rest, next'')

end

/-- The tree with its nodes numbered from zero in the order of fields. -/
def numbered (n : Node) : Node := (numberFrom 0 n).1

end FreeNames.Node
