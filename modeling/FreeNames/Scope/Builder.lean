import FreeNames.Scope.Forest
import FreeNames.Scope.Declarations

/-!
# Opening scopes for nodes

A `Builder` opens the scopes of one traversal: entering a node opens a scope with all its
bindings and remembers which scope belongs to the node.

* The first program entered gives the global scope.
* A node entered twice keeps its place among the entered nodes, with its newest scope.
* `Builder.begin` is what is there of a scope when something ends the traversal while names are
  declared.
-/

namespace FreeNames

/-- The scopes opened so far and the nodes they belong to. -/
structure Builder where
  reportArrowArguments : Bool
  forest : Forest
  /-- The nodes entered, in the order of their first entry, each with its newest scope. -/
  entered : List (Node × Nat)
  /-- The scope of the first program entered. -/
  globalScope : Option Nat

namespace Builder

def new (reportArrowArguments : Bool) : Builder := ⟨reportArrowArguments, .empty, [], none⟩

/-- The newest scope of a node. -/
def scopeOf? (b : Builder) (n : Node) : Option Nat :=
  (b.entered.find? fun e => e.1.id = n.id).map Prod.snd

/-- Remember the scope of a node. -/
def remember (entered : List (Node × Nat)) (n : Node) (s : Nat) : List (Node × Nat) :=
  if entered.any fun e => e.1.id = n.id then
    entered.map fun e => if e.1.id = n.id then (e.1, s) else e
  else entered ++ [(n, s)]

/-- Open the scope of a node with everything it binds. -/
def enter (b : Builder) (n : Node) (parent : Option Nat) : Builder :=
  let s := b.forest.size
  { b with
    forest := b.forest.openScope n.scopeKind n parent (n.declared b.reportArrowArguments).bindings
    entered := remember b.entered n s
    globalScope := if n.kind = .program then b.globalScope.or (some s) else b.globalScope }

/-- Open the scope of a node with the first of its declarations.  The node is not entered yet, so
the scope is there for the scope around it, and if it is that of the first program. -/
def begin (b : Builder) (n : Node) (parent : Option Nat) (made : Nat) : Builder :=
  let declared : Declared := (n.declared b.reportArrowArguments).take made
  let opened := b.forest.openScope n.scopeKind n parent declared.bindings
  if n.kind = .program then
    { b with forest := opened, globalScope := b.globalScope.or (some b.forest.size) }
  else if parent.isSome then { b with forest := opened }
  else b

end Builder

end FreeNames
